import TextTags.Proofs.Core
import TextTags.Proofs.Fill.Alike
import TextTags.Proofs.Fill.Composition
import TextTags.Proofs.Fill.Handlers

/-!
# Chains that resemble each other

Handlers find segments by the names under which these are looked up, and fill their parameters; how
a name was written shows in a halt at most. So chains that are the same in names and parameters are
resolved step by step alike: the same is asked, called, filled and reported, from one world to
another.
-/

namespace TextTags

/-- Cursors at one place of chains that are the same in names and parameters from there on. -/
structure Cursor.Resembles (c c' : Cursor) : Prop where
  progress : c.toProgress = c'.toProgress
  length : c.chain.length = c'.chain.length
  key : ∀ i, c.key? i = c'.key? i
  param : ∀ i, c.param? i = c'.param? i

namespace Handler

variable {α β : Type}

/-- A handler that knows the segments of the chain by their names and parameters, and leaves no
picture of the cursor. -/
def ByName : Handler α → Prop
  | .done _ => True
  | .fault _ => True
  | .ask .cursor next =>
    (∀ c c' : Cursor, c.Resembles c' → next c = next c') ∧ ∀ c, ByName (next c)
  | .ask .note _ => False
  | .ask _ next => ∀ answer, ByName (next answer)

namespace ByName

private theorem bind {h : Handler α} {f : α → Handler β} (first : h.ByName)
    (next : ∀ a, (f a).ByName) :
    (h.bind f).ByName := by
  induction h with
  | done a => exact next a
  | fault message => trivial
  | ask query rest ih =>
    cases query with
    | cursor =>
      exact ⟨fun c c' same ↦ congrArg (Handler.bind · f) (first.1 c c' same),
        fun c ↦ ih c (first.2 c)⟩
    | note => exact first.elim
    | _ => exact fun answer ↦ ih answer (first answer)

private theorem attempt {x : Attempt α} {f : α → Attempt β} (first : ByName x)
    (next : ∀ a, ByName (f a)) : ByName (Bind.bind (m := Attempt) x f) := by
  refine bind first fun a ↦ ?_
  cases a with
  | none => trivial
  | some a => exact next a

private theorem look {f : Cursor → Attempt α} (same : ∀ c c' : Cursor, c.Resembles c' → f c = f c')
    (next : ∀ c, ByName (f c)) : ByName (Bind.bind (m := Attempt) cursor f) :=
  ⟨same, next⟩

private theorem paramText (offset : Nat) : ByName (Attempt.paramText offset) :=
  attempt (x := Attempt.param offset) (fun _ ↦ trivial) fun _ ↦ trivial

/-- To count segments as fulfilled, and give a value. -/
theorem fulfilling (count : Nat) (v : Value) :
    ByName (do fulfill count; return v : Attempt Value) :=
  fun _ ↦ trivial

end ByName

private theorem Local.byName {h : Handler α} (local' : h.Local) : h.ByName := by
  induction h with
  | done | fault => trivial
  | ask query next ih =>
    cases query with
    | cursor =>
      exact ⟨fun c c' same ↦ local'.1 c c' (same.key 0) (same.param 0),
        fun c ↦ ih c (local'.2 c)⟩
    | param => exact fun v ↦ ih v (local'.2 v)
    | host => exact fun answer ↦ ih answer (local' answer)
    | context => exact fun context ↦ ih context (local'.2 context)
    | _ => exact local'.elim

end Handler

private theorem Cursor.Resembles.isNamed {c c' : Cursor} (h : c.Resembles c') (i : Nat)
    (key : String) :
    c.isNamed i key = c'.isNamed i key := by
  rw [Cursor.isNamed, h.key, Cursor.isNamed]

private theorem Cursor.Resembles.hasParam {c c' : Cursor} (h : c.Resembles c') (i : Nat) :
    c.hasParam i = c'.hasParam i := by
  rw [Cursor.hasParam, h.param, Cursor.hasParam]

namespace Core

open Handler

private theorem contextValue_byName : ByName contextValue := by
  refine .look (fun c c' same ↦ by rw [same.key]) fun c ↦ .attempt trivial fun name caller ↦ ?_
  exact .attempt (x := Attempt.of (host (.contextValue _ _))) (fun _ ↦ trivial) (.fulfilling 1)

private theorem choice_byName : ByName choice := by
  refine .look (fun c c' same ↦ ?_) fun c ↦ ?_
  · have branches : hasBranches c = hasBranches c' := by
      simp only [hasBranches, same.isNamed, same.hasParam]
    rw [branches]
  · split
    · exact .attempt (.paramText 0) fun condition ↦
        .attempt (x := Attempt.param _) (fun _ ↦ trivial) fun chosen ↦ .fulfilling 2 chosen
    · exact fun _ ↦ trivial

private theorem randomBetween_byName : ByName randomBetween := by
  refine .attempt (.paramText 2) fun _ ↦ .attempt trivial fun _ ↦ .attempt (.paramText 3) fun _ ↦
    .attempt trivial fun _ ↦ ?_
  exact fun _ ↦ .fulfilling 3 _

private theorem utility_byName : ByName utility := by
  refine .look (fun c c' same ↦ by simp only [same.isNamed]) fun c ↦ fun caller ↦ ?_
  dsimp only
  split
  · exact .fulfilling 1 _
  · split
    · exact randomBetween_byName
    · split
      · exact .fulfilling 2 _
      · trivial

end Core

/-- The handlers of the core know segments by their names and parameters. -/
theorem Registry.core_byName : Registry.core.Satisfies Handler.ByName Handler.ByName :=
  (Core.core_satisfies (Core.bases_satisfy (fun _ h ↦ h.byName) Core.contextValue_byName
    Core.choice_byName Core.utility_byName)).imp (fun _ h ↦ h) fun _ h ↦ h.byName

/-! ## Chains and outcomes -/

/-- Segments that are looked up under one name and have one parameter. What is written for the name
may differ as `N` allows. -/
structure Segment.Resembles (N : String → String → Prop) (s s' : Segment) : Prop where
  key : s.key = s'.key
  param : s.param = s'.param
  name : N s.rawKey s'.rawKey

/-- Chains of one length whose segments resemble each other from a place on. -/
structure Chain.Resembles (N : String → String → Prop) (k : Nat) (c c' : Chain) : Prop where
  length : c.length = c'.length
  segments : ∀ i, k ≤ i → Option.Rel (Segment.Resembles N) c.segments[i]? c'.segments[i]?

/-- The same failure, or no such attribute of a value under names that are related. -/
inductive Failure.Resembles (N : String → String → Prop) : Failure → Failure → Prop
  | same (failure : Failure) : Resembles N failure failure
  | attribute {name name' : String} (names : N name name') (kind : Kind) (index : Nat) :
    Resembles N (.unresolvedAttribute name kind index) (.unresolvedAttribute name' kind index)

/-- Halts at one place with one value before it and the same names that came near. -/
structure Halt.Resembles (N : String → String → Prop) (h h' : Halt) : Prop where
  index : h.index = h'.index
  total : h.total = h'.total
  lastValid : h.lastValid = h'.lastValid
  almost : h.almost = h'.almost
  lacksParam : h.lacksParam = h'.lacksParam
  failure : h.failure.Resembles N h'.failure

/-- The same value, or halts that resemble each other. -/
inductive Outcome.Resembles (N : String → String → Prop) : Outcome → Outcome → Prop
  | fulfilled (v : Value) (count : Nat) : Resembles N (.fulfilled v count) (.fulfilled v count)
  | halted {h h' : Halt} (halts : h.Resembles N h') : Resembles N (.halted h) (.halted h')

section

variable {N : String → String → Prop} {k : Nat} {c c' : Chain}

private theorem Progress.halt_resembles (length : c.length = c'.length) (p : Progress)
    {failure failure' : Failure} (failures : failure.Resembles N failure') (near : List String) :
    (p.halt c failure near).Resembles N (p.halt c' failure' near) :=
  ⟨rfl, length, rfl, rfl, rfl, failures⟩

namespace Chain.Resembles

variable {f : Frame} {p : Progress}

private theorem segment? (h : c.Resembles N k c') (le : k ≤ p.fulfilled) (i : Nat) :
    Option.Rel (Segment.Resembles N) (((f.on c).cursor p).segment? i)
      (((f.on c').cursor p).segment? i) :=
  h.segments _ (Nat.le_add_right_of_le le)

private theorem cursor (h : c.Resembles N k c') (le : k ≤ p.fulfilled) :
    ((f.on c).cursor p).Resembles ((f.on c').cursor p) where
  progress := rfl
  length := h.length
  key i := by
    have same := h.segment? (f := f) le i
    unfold Cursor.key?
    generalize ((f.on c).cursor p).segment? i = s, ((f.on c').cursor p).segment? i = s' at same ⊢
    cases same with
    | none => rfl
    | some segments => exact congrArg some segments.key
  param i := by
    have same := h.segment? (f := f) le i
    unfold Cursor.param?
    generalize ((f.on c).cursor p).segment? i = s, ((f.on c').cursor p).segment? i = s' at same ⊢
    cases same with
    | none => rfl
    | some segments => exact segments.param

end Chain.Resembles

/-! ## Steps -/

open Run

namespace Frame

variable {f : Frame} {α : Type} {p : Progress}

/-- The same result at a place from which the chains resemble each other. -/
def Together (k : Nat) (x y : α × Progress) : Prop := x = y ∧ k ≤ x.2.fulfilled

section

variable (h : c.Resembles N k c') (short : k ≤ c.length)

include h

private theorem counting_resembling (ahead : Nat) (run : Run α) :
    (f.on c).counting p ahead run = (f.on c').counting p ahead run := by
  have length : (f.on c).chain.length = (f.on c').chain.length := h.length
  rw [counting, counting, length]

private theorem param_resembling (le : k ≤ p.fulfilled) (offset : Nat) :
    (f.on c).param p offset = (f.on c').param p offset := by
  unfold Frame.param
  rw [(h.cursor le).param]
  simp only [counting_resembling h]
  rfl

include short

/-- Where a handler does not look at the cursor, it is answered the same. -/
theorem answer_resembling (le : k ≤ p.fulfilled) {q : Query} (cursor : q ≠ .cursor)
    (note : q ≠ .note) :
    Alike Eq (Together k) ((f.on c).answer p q) ((f.on c').answer p q) := by
  cases q with
  | cursor | note => contradiction
  | fulfill count =>
    have total : (f.on c').chain.length = (f.on c).chain.length := h.length.symm
    rw [answer, answer, ← counting_resembling h, total]
    by_cases can : p.canCount count (f.on c).chain.length
    · rw [counting_of_canCount can]
      exact .pure ⟨rfl, Nat.le_min.2 ⟨Nat.le_add_right_of_le le, short⟩⟩
    · rw [counting_of_not_canCount can]
      exact .throw _
  | param offset =>
    change Alike _ _ ((f.on c).param p offset >>= _) ((f.on c').param p offset >>= _)
    rw [param_resembling h le]
    exact (Alike.refl _).bind_eq fun _ ↦ .pure ⟨rfl, le⟩
  | seem | lackParam | context | depth => exact .pure ⟨rfl, le⟩
  | fill | host | cancelled | elapse | awaitCancel =>
    exact (Alike.refl _).bind_eq fun _ ↦ .pure ⟨rfl, le⟩

private theorem run_resembling {handler : Handler α} (byName : handler.ByName)
    (le : k ≤ p.fulfilled) :
    Alike Eq (Together k) ((f.on c).run handler p) ((f.on c').run handler p) := by
  induction handler generalizing p with
  | done a => exact .pure ⟨rfl, le⟩
  | fault message => exact .throw _
  | ask query next ih =>
    -- The cursor is the one answer that differs, and nothing is made of how its names are written.
    by_cases asked : query = .cursor
    · subst asked
      change Alike _ _ ((f.on c).run (next ((f.on c).cursor p)) p)
        ((f.on c').run (next ((f.on c').cursor p)) p)
      rw [byName.1 _ _ (h.cursor le)]
      exact ih _ (byName.2 _) le
    · have rest : query ≠ .note ∧ ∀ a, (next a).ByName := by
        cases query with
        | cursor => contradiction
        | note => exact byName.elim
        | _ => exact ⟨nofun, byName⟩
      refine (answer_resembling h short le asked rest.1).bind ?_
      rintro x _ ⟨rfl, le⟩
      exact ih x.1 (rest.2 x.1) le

private theorem call_resembling (callee : Callee) {handler : Handler (Option Value)}
    (byName : handler.ByName) (le : k ≤ p.fulfilled) :
    Alike Eq (Together k) ((f.on c).call callee handler p) ((f.on c').call callee handler p) := by
  refine (Alike.refl _).bind_eq fun _ ↦ (run_resembling h short byName le).bind ?_
  rintro x _ ⟨rfl, le⟩
  exact (Alike.refl _).bind_eq fun _ ↦ (Alike.refl _).bind_eq fun _ ↦ .pure ⟨rfl, le⟩

/-- The same step, or halts that resemble each other. -/
inductive Steps (N : String → String → Prop) (k : Nat) :
    Except Halt Value × Progress → Except Halt Value × Progress → Prop
  | ok (v : Value) {p : Progress} (le : k ≤ p.fulfilled) : Steps N k (.ok v, p) (.ok v, p)
  | error {halt halt' : Halt} (p : Progress) (halts : halt.Resembles N halt') :
    Steps N k (.error halt, p) (.error halt', p)

private theorem apply_resembling (callee : Callee) {attr : Attr} {v : Value}
    (byName : (attr.handler v).ByName) (kind : Kind) (le : k ≤ p.fulfilled) :
    Alike Eq (Steps N k) ((f.on c).apply callee attr v kind p)
      ((f.on c').apply callee attr v kind p) := by
  have length : (f.on c).chain.length = (f.on c').chain.length := h.length
  unfold Frame.apply
  rw [(h.cursor le).hasParam]
  split
  · exact .pure (.error _ (Progress.halt_resembles length _ (.same _) _))
  · refine (call_resembling h short callee byName le).bind ?_
    rintro ⟨result, p⟩ _ ⟨rfl, le⟩
    cases result with
    | some next => exact .pure (.ok next le)
    | none =>
      dsimp only
      rw [(h.cursor (p := p.seem attr.name) le).hasParam]
      exact .pure (.error _ (Progress.halt_resembles length _ (.same _) _))

end

section

variable (h : c.Resembles N k c') (short : k ≤ c.length)
  (core : f.env.registry.Satisfies Handler.ByName Handler.ByName)

include h short core

private theorem applyShared_resembling (v : Value) {s s' : Segment} (segments : s.Resembles N s')
    (le : k ≤ p.fulfilled) :
    Alike Eq (Steps N k) ((f.on c).applyShared v s p) ((f.on c').applyShared v s' p) := by
  have length : (f.on c).chain.length = (f.on c').chain.length := h.length
  have env : (f.on c').env = (f.on c).env := rfl
  unfold applyShared
  rw [segments.key, segments.param, env]
  split
  · next found => exact apply_resembling h short _ (core.universal found v) _ le
  · split
    · next found =>
      split at found
      · contradiction
      · exact apply_resembling h short _ (core.attr found _) _ le
    · refine .pure (.error _ (Progress.halt_resembles length _ ?_ _))
      have present := h.segment? (f := f) le 0
      generalize ((f.on c).cursor p).segment? 0 = s,
        ((f.on c').cursor p).segment? 0 = s' at present ⊢
      cases present with
      | none => exact .same _
      | some segments => exact .attribute segments.name _ _

private theorem dispatch_resembling (v : Value) (le : k ≤ p.fulfilled) :
    Alike Eq (Steps N k) ((f.on c).dispatch v p) ((f.on c').dispatch v p) := by
  have env : (f.on c').env = (f.on c).env := rfl
  have present := h.segment? (f := f) le 0
  unfold dispatch tryFallback
  rw [env]
  generalize ((f.on c).cursor p).segment? 0 = s, ((f.on c').cursor p).segment? 0 = s' at present ⊢
  cases present with
  | none => exact .pure (.ok v le)
  | some segments =>
    dsimp only
    rw [segments.key]
    split
    · next found => exact apply_resembling h short _ (core.attr found v) _ le
    · refine Alike.bind (V := Together k) ?_ ?_
      · split
        · next found => exact call_resembling h short _ (core.fallback found v) le
        · exact .pure ⟨rfl, le⟩
      · rintro ⟨result, p⟩ _ ⟨rfl, le⟩
        cases result with
        | some next => exact .pure (.ok next le)
        | none => exact applyShared_resembling h short core v segments le

/-- The segments that remain do the same in both chains. -/
theorem walk_resembling (steps : Nat) (v : Value) (le : k ≤ p.fulfilled) :
    Alike Eq (Outcome.Resembles N) ((f.on c).walk steps v p) ((f.on c').walk steps v p) := by
  have length : (f.on c').chain.length = (f.on c).chain.length := h.length.symm
  have late (p : Progress) (limit : Limit) : Outcome.Resembles N
      (.halted (p.halt (f.on c).chain (.timeout limit) []))
      (.halted (p.halt (f.on c').chain (.timeout limit) [])) :=
    .halted (Progress.halt_resembles h.length p (.same _) [])
  induction steps generalizing v p with
  | zero => exact .pure (.fulfilled _ _)
  | succ steps ih =>
    unfold walk
    rw [length]
    split
    · exact .pure (.fulfilled _ _)
    · refine (Alike.refl _).bind_eq fun passed ↦ ?_
      cases passed with
      | some limit => exact .pure (late p limit)
      | none =>
        refine (dispatch_resembling h short core v le).bind ?_
        rintro _ _ (⟨next, le⟩ | ⟨p, halts⟩)
        · refine (Alike.refl _).bind_eq fun passed ↦ ?_
          cases passed with
          | some limit => exact .pure (late _ limit)
          | none => exact ih next (Nat.le_min.2 ⟨Nat.le_add_right_of_le le, short⟩)
        · exact .pure (.halted halts)

end

/-- From what a base came to, chains go on alike that resemble each other after the segments which
it counts. -/
theorem afterBase_resembling (h : c.Resembles N (k + 1) c') (short : k < c.length)
    (core : f.env.registry.Satisfies Handler.ByName Handler.ByName)
    (root : c.root.key = c'.root.key) {result : Option Value}
    (counted : result.isSome → k ≤ p.fulfilled) :
    Alike Eq (Outcome.Resembles N) ((f.on c).afterBase (result, p))
      ((f.on c').afterBase (result, p)) := by
  have length : (f.on c').chain.length = (f.on c).chain.length := h.length.symm
  have same : (f.on c').chain.root.key = (f.on c).chain.root.key := root.symm
  have halts (failure : Failure) : Alike Eq (Outcome.Resembles N)
      (pure (.halted (p.halt (f.on c).chain failure [])))
      (pure (.halted (p.halt (f.on c').chain failure []))) :=
    .pure (.halted (Progress.halt_resembles h.length p (.same failure) []))
  refine (Alike.refl _).bind_eq fun passed ↦ ?_
  cases passed with
  | some limit => exact halts _
  | none =>
    cases result with
    | none =>
      dsimp only
      rw [same]
      exact halts _
    | some v =>
      -- The root counts as well, so that the chains go on from where they resemble each other.
      dsimp only
      rw [length]
      exact walk_resembling h short core _ v
        (Nat.le_min.2 ⟨Nat.succ_le_succ (counted rfl), short⟩)

/-- Chains of the same names and parameters are resolved alike. The names as written count after the
root alone. -/
theorem runChain_resembling (h : c.Resembles (fun _ _ ↦ True) 0 c') (rest : c.Resembles N 1 c')
    (core : f.env.registry.Satisfies Handler.ByName Handler.ByName) :
    Alike Eq (Outcome.Resembles N) (f.on c).runChain (f.on c').runChain := by
  have root : c.root.key = c'.root.key := by
    cases h.segments 0 (Nat.le_refl 0) with
    | some segments => exact segments.key
  cases found : f.env.registry.base? c.root.key with
  | none =>
    rw [runChain_of_unresolved found, runChain_of_unresolved (root ▸ found), root]
    exact .pure (.halted (Progress.halt_resembles h.length {} (.same _) []))
  | some base =>
    rw [runChain_of_base found, runChain_of_base (root ▸ found)]
    refine (call_resembling h (Nat.zero_le _) _ (core.base found) (Nat.zero_le _)).bind ?_
    rintro ⟨result, p⟩ _ ⟨rfl, -⟩
    exact afterBase_resembling rest (Nat.succ_pos _) core root fun _ ↦ Nat.zero_le _

end Frame

namespace Env

variable {env : Env} {fill : Scope → String → Run Value} {s : Scope} {w : World}

/-- Chains of one length whose runs end alike are resolved alike. -/
theorem resolveInline_resembling (length : c.length = c'.length)
    (ends : EndsAlike Eq (Outcome.Resembles N) (Frame.runChain ⟨env, s.deeper, fill s.deeper, c⟩ w)
      (Frame.runChain ⟨env, s.deeper, fill s.deeper, c'⟩ w)) :
    EndsAlike Eq (Outcome.Resembles N) (env.resolveInline fill s c w)
      (env.resolveInline fill s c' w) :=
  ends.contain fun _ ↦ .halted (Progress.halt_resembles length {} (.same _) [])

/-- Chains that come to the same where they are resolved in the end come to the same. -/
theorem resolve_resembling (length : c.length = c'.length)
    (ends : EndsAlike Eq (Outcome.Resembles N)
      (env.resolveInline fill (env.opening s w).1 c (env.opening s w).2)
      (env.resolveInline fill (env.opening s w).1 c' (env.opening s w).2)) :
    EndsAlike Eq (Outcome.Resembles N) (env.resolve fill s c w) (env.resolve fill s c' w) := by
  by_cases limit : env.context.timeLimit = .unrepresentable
  · have stops (c : Chain) : env.resolve fill s c w =
        .error (.fault timeLimitFault) { w with trace := w.trace ++ [.began s.depth] } := by
      unfold resolve resolveTimed
      rw [limit]
      exact marked_of_error rfl
    rw [stops, stops]
    exact .error rfl
  · generalize first : env.resolveInline fill (env.opening s w).1 c (env.opening s w).2 = r,
      second : env.resolveInline fill (env.opening s w).1 c' (env.opening s w).2 = r' at ends
    cases ends with
    | error world =>
      subst world
      rw [resolve_of_error limit first, resolve_of_error limit second]
      exact .error rfl
    | ok value world =>
      subst world
      rw [resolve_eq_of_ok limit first, resolve_eq_of_ok limit second]
      refine .ok ?_ rfl
      unfold settled
      split
      · split
        · exact .halted (Progress.halt_resembles length {} (.same _) [])
        · exact value
      · exact value

end Env

end

end TextTags
