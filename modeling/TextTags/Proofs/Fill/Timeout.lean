import TextTags.Proofs.Fill.Trace

/-!
# Handlers that return late

A resolution looks at the clock after its base and after every value that a handler gives. An
attribute that gives nothing is not followed by a look at the clock, so that the resolution then
halts as if there were time left.
-/

namespace TextTags

open Run

/-- Whether the handler is that of a base. -/
def Callee.isBase : Callee → Bool
  | .base _ => true
  | _ => false

/-- What the trace keeps of a handler's return. -/
structure Return where
  callee : Callee
  /-- Whether there was a value. -/
  gave : Bool
  /-- Whether time had run out. -/
  late : Bool
deriving DecidableEq

/-- Whether the clock is looked at after a return, before anything else is decided. -/
def Return.settles (r : Return) : Bool := r.callee.isBase || r.gave

/-- The return that an event is, if it is one at a depth. -/
def Event.return? (depth : Nat) : Event → Option Return
  | .returned callee d gave late => if d = depth then some ⟨callee, gave, late⟩ else none
  | _ => none

/-- The returns at a depth. -/
def returnsAt (depth : Nat) (events : List Event) : List Return :=
  events.filterMap (Event.return? depth)

/-- The returns at a depth that a run leaves in the trace. -/
def Run.returns {α : Type} (depth : Nat) (x : Run α) (w : World) : List Return :=
  returnsAt depth ((x.last w).trace.drop w.trace.length)

/-- Whether the last of the returns is one after which the clock is looked at. -/
def Settled (rs : List Return) : Prop := ∃ r, rs.getLast? = some r ∧ r.settles

/-- Whether none of the returns is one. -/
def Unsettled (rs : List Return) : Prop := ∀ r ∈ rs, r.settles = false

/-- Whether a failure tells that an attribute was not applied. -/
def Failure.ofAttribute : Failure → Bool
  | .unresolvedAttribute .. => true
  | .argumentRequired _ => true
  | _ => false

/-- Whether a run ends in a timeout. -/
def TimedOut (limit : Limit) : EStateM.Result Stop World Outcome → Prop
  | .ok (.halted halt) _ => halt.failure = .timeout limit
  | _ => False

/-- Whether a run ends in a timeout, for want of an attribute or in a breakdown. -/
def CutShort (limit : Limit) : EStateM.Result Stop World Outcome → Prop
  | .ok (.fulfilled _ _) _ => False
  | .ok (.halted halt) _ => halt.failure = .timeout limit ∨ halt.failure.ofAttribute
  | .error _ _ => True

private theorem Settled.append {rs : List Return} (h : Settled rs) (before : List Return) :
    Settled (before ++ rs) := by
  obtain ⟨r, last, settles⟩ := h
  exact ⟨r, by simp [List.getLast?_append, last], settles⟩

private theorem Unsettled.append {before rs : List Return} (h : Unsettled before)
    (h' : Unsettled rs) :
    Unsettled (before ++ rs) := fun r mem ↦
  (List.mem_append.1 mem).elim (h r) (h' r)

private theorem Unsettled.not_settled {rs : List Return} (h : Unsettled rs) : ¬ Settled rs := by
  rintro ⟨r, last, settles⟩
  rw [h r (List.mem_of_getLast? last)] at settles
  contradiction

private theorem settled_append_iff {rs : List Return} (hne : rs ≠ []) (before : List Return) :
    Settled (before ++ rs) ↔ Settled rs := by
  simp [Settled, List.getLast?_append, hne]

private theorem Scope.passed?_mono {s : Scope} {clock clock' : Nat} (h : clock ≤ clock')
    (late : (s.passed? clock).isSome) : (s.passed? clock').isSome := by
  unfold passed? at *
  cases token : s.token with
  | none =>
    rw [token] at late
    contradiction
  | some t =>
    rw [token] at late
    dsimp only at *
    by_cases passed : t.deadline ≤ clock
    · rw [if_pos (Nat.le_trans passed h)]
      rfl
    · rw [if_neg passed] at late
      contradiction

private theorem Scope.eq_limit_of_passed? {s : Scope} {token : Token}
    (guarded : s.token = some token)
    {clock : Nat} {limit : Limit} (late : s.passed? clock = some limit) : limit = token.limit := by
  rw [passed?, guarded] at late
  dsimp only at late
  split at late
  · exact (Option.some.inj late).symm
  · contradiction

namespace Frame

variable {f : Frame} {α β : Type}

/-- Between two worlds, a resolution's own handlers have returned in an order. -/
structure Adds (f : Frame) (w : World) (rs : List Return) (w' : World) : Prop where
  clock : w.clock ≤ w'.clock
  trace : ∃ events, w'.trace = w.trace ++ events ∧ returnsAt f.scope.depth events = rs
  late : ∀ r ∈ rs, r.late → (f.scope.passed? w'.clock).isSome

namespace Adds

variable {w w' w'' : World} {rs more : List Return}

private theorem of_follows (h : World.Follows (Event.Beneath f.scope.depth) w w') :
    f.Adds w [] w' := by
  obtain ⟨events, eq, below⟩ := h.trace
  refine ⟨h.clock, ⟨events, eq, ?_⟩, by simp⟩
  refine List.filterMap_eq_nil_iff.2 fun e mem ↦ ?_
  have deep := below e mem
  cases e with
  | returned callee d gave late => exact if_neg (Nat.ne_of_gt deep)
  | _ => rfl

private theorem trans (h : f.Adds w rs w') (h' : f.Adds w' more w'') :
    f.Adds w (rs ++ more) w'' := by
  obtain ⟨first, eq, returns⟩ := h.trace
  obtain ⟨others, eq', returns'⟩ := h'.trace
  refine ⟨Nat.le_trans h.clock h'.clock, ⟨first ++ others, ?_, ?_⟩, fun r mem late ↦ ?_⟩
  · rw [eq', eq, List.append_assoc]
  · rw [← returns, ← returns', returnsAt, List.filterMap_append]
    rfl
  · rcases List.mem_append.1 mem with mem | mem
    · exact Scope.passed?_mono h'.clock (h.late r mem late)
    · exact h'.late r mem late

private theorem returns_eq (h : f.Adds w rs w') :
    returnsAt f.scope.depth (w'.trace.drop w.trace.length) =
    rs := by
  obtain ⟨events, eq, returns⟩ := h.trace
  rw [eq, List.drop_left, returns]

end Adds

/-- How a part of a resolution ends: the returns of its own handlers, and what it comes to. -/
def Ends (f : Frame) (x : Run α) (w : World)
    (Q : List Return → EStateM.Result Stop World α → Prop) : Prop :=
  ∃ rs, f.Adds w rs (x.last w) ∧ Q rs (x w)

namespace Ends

variable {w : World} {Q : List Return → EStateM.Result Stop World α → Prop}
  {R : List Return → EStateM.Result Stop World β → Prop}

private theorem of_beneath {x : Run α} (h : x.Beneath f.scope.depth) (ends : Q [] (x w)) :
    f.Ends x w Q :=
  ⟨[], .of_follows (h w), ends⟩

private theorem pure {a : α} (h : Q [] (.ok a w)) : f.Ends (pure a) w Q :=
  of_beneath (Leaves.pure a) h

private theorem bind {x : Run α} {g : α → Run β} (h : f.Ends x w Q)
    (ok : ∀ rs a w', f.Adds w rs w' → Q rs (.ok a w') →
      f.Ends (g a) w' fun more r ↦ R (rs ++ more) r)
    (error : ∀ rs stop w', Q rs (.error stop w') → R rs (.error stop w')) :
    f.Ends (x >>= g) w R := by
  obtain ⟨rs, adds, ends⟩ := h
  cases eq : x w with
  | ok a w' =>
    rw [last_of_ok eq] at adds
    rw [eq] at ends
    obtain ⟨more, adds', rest⟩ := ok rs a w' adds ends
    refine ⟨rs ++ more, ?_, ?_⟩
    · rw [last, bind_of_ok eq]
      exact adds.trans adds'
    · rwa [bind_of_ok eq]
  | error stop w' =>
    rw [last_of_error eq] at adds
    rw [eq] at ends
    refine ⟨rs, ?_, ?_⟩
    · rwa [last_of_error (bind_of_error eq)]
    · rw [bind_of_error eq]
      exact error rs stop w' ends

private theorem mono {x : Run α} {Q' : List Return → EStateM.Result Stop World α → Prop}
    (h : f.Ends x w Q) (le : ∀ rs r, Q rs r → Q' rs r) : f.Ends x w Q' := by
  obtain ⟨rs, adds, ends⟩ := h
  exact ⟨rs, adds, le rs _ ends⟩

/-- A look at the clock changes nothing. -/
theorem passed?_bind {g : Option Limit → Run β} (h : f.Ends (g (f.scope.passed? w.clock)) w R) :
    f.Ends (f.passed? >>= g) w R := h

end Ends

/-! ## One segment -/

/-- How a handler's call ends: with one return, unless it breaks down. -/
def CallEnds (callee : Callee) (rs : List Return) :
    EStateM.Result Stop World (Option Value × Progress) → Prop
  | .ok (result, _) _ => ∃ late, rs = [⟨callee, result.isSome, late⟩]
  | .error _ _ => rs = []

/-- How the application of a segment ends: a value was given last, or no handler gave one. -/
def ApplyEnds (rs : List Return) : EStateM.Result Stop World (Except Halt Value × Progress) → Prop
  | .ok (.ok _, _) _ => Settled rs
  | .ok (.error halt, _) _ => halt.failure.ofAttribute ∧ Unsettled rs
  | .error _ _ => Unsettled rs

/-- How the call of a fallback ends, if there is one. -/
def FallbackEnds (rs : List Return) :
    EStateM.Result Stop World (Option Value × Progress) → Prop
  | .ok (some _, _) _ => Settled rs
  | .ok (none, _) _ => Unsettled rs
  | .error _ _ => Unsettled rs

private theorem unsettled_nil : Unsettled [] := fun _ mem ↦ absurd mem List.not_mem_nil

private theorem settled_singleton (callee : Callee) (late : Bool) :
    Settled [⟨callee, true, late⟩] :=
  ⟨_, rfl, Bool.or_true _⟩

private theorem unsettled_singleton {callee : Callee} (h : callee.isBase = false) (late : Bool) :
    Unsettled [⟨callee, false, late⟩] := by
  intro r mem
  rw [List.mem_singleton.1 mem, Return.settles, h]
  rfl

section Segment

variable {w : World} (fill : ∀ text, (f.fill text).Beneath f.scope.depth)
include fill

private theorem call_ends (callee : Callee) (h : Handler (Option Value)) (p : Progress) :
    f.Ends (f.call callee h p) w (CallEnds callee) := by
  have called : f.Ends (emit (.called callee)) w fun rs _ ↦ rs = [] :=
    .of_beneath (.emit trivial) rfl
  refine called.bind (fun rs _ w₁ _ hno ↦ ?_) fun _ _ _ hno ↦ hno
  have ran : f.Ends (f.run h p) w₁ fun rs _ ↦ rs = [] :=
    .of_beneath (run_leaves f.env.admits_beneath fill h p) rfl
  refine ran.bind (fun more result w₂ _ hno' ↦ Ends.passed?_bind ?_) fun more stop w' hno' ↦ ?_
  · subst hno hno'
    refine ⟨[⟨callee, result.1.isSome, (f.scope.passed? w₂.clock).isSome⟩], ⟨?_, ?_, ?_⟩, _, rfl⟩
    · exact Nat.le_refl _
    · refine ⟨[.returned callee f.scope.depth result.1.isSome (f.scope.passed? w₂.clock).isSome],
        rfl, ?_⟩
      simp [returnsAt, Event.return?]
    · intro r mem late
      rwa [List.mem_singleton.1 mem] at late
  · subst hno hno'
    exact rfl

private theorem apply_ends {callee : Callee} (named : callee.isBase = false) (attr : Attr)
    (v : Value)
    (kind : Kind) (p : Progress) : f.Ends (f.apply callee attr v kind p) w ApplyEnds := by
  unfold apply
  split
  · exact .pure ⟨rfl, unsettled_nil⟩
  · refine (call_ends fill callee (attr.handler v) p).bind ?_ fun rs stop w' hno ↦ ?_
    · rintro rs ⟨result, p⟩ w' adds ⟨late, rfl⟩
      cases result with
      | some next => exact .pure (settled_singleton callee late)
      | none => exact .pure ⟨rfl, unsettled_singleton named late⟩
    · obtain rfl : rs = [] := hno
      exact unsettled_nil

private theorem tryFallback_ends (v : Value) (p : Progress) :
    f.Ends (f.tryFallback v p) w FallbackEnds := by
  unfold tryFallback
  split
  · next handler _ =>
    refine (call_ends fill (.fallback v.kind) (handler v) p).mono fun rs r ends ↦ ?_
    cases r with
    | ok result w' =>
      obtain ⟨result, p⟩ := result
      obtain ⟨late, rfl⟩ := ends
      cases result with
      | some next => exact settled_singleton _ late
      | none => exact unsettled_singleton rfl late
    | error stop w' =>
      obtain rfl : rs = [] := ends
      exact unsettled_nil
  · exact .pure unsettled_nil

private theorem applyShared_ends (v : Value) (s : Segment) (p : Progress) :
    f.Ends (f.applyShared v s p) w ApplyEnds := by
  unfold applyShared
  split
  · exact apply_ends fill rfl _ _ _ _
  · split
    · exact apply_ends fill rfl _ _ _ _
    · exact .pure ⟨rfl, unsettled_nil⟩

private theorem dispatch_ends {p : Progress} {s : Segment}
    (present : (f.cursor p).segment? 0 = some s)
    (v : Value) : f.Ends (f.dispatch v p) w ApplyEnds := by
  unfold dispatch
  rw [present]
  dsimp only
  split
  · exact apply_ends fill rfl _ _ _ _
  · refine (tryFallback_ends fill v p).bind ?_ fun rs stop w' unsettled ↦ unsettled
    rintro rs ⟨result, p⟩ w' adds ends
    cases result with
    | some next =>
      apply Ends.pure
      rw [List.append_nil]
      exact ends
    | none =>
      -- The fallback gave nothing, so all that matters is what the shared attributes do.
      refine (applyShared_ends fill v s p).mono fun more r rest ↦ ?_
      cases r with
      | ok result w' =>
        obtain ⟨result, p⟩ := result
        cases result with
        | ok next => exact Settled.append rest rs
        | error halt => exact ⟨rest.1, Unsettled.append ends rest.2⟩
      | error stop w' => exact Unsettled.append ends rest

end Segment

/-! ## Whole chains -/

/-- What a run of a chain comes to once a handler has returned late: it times out if and only if the
last return is one after which the clock is looked at, and nothing is fulfilled. -/
def LateEnds (limit : Limit) (rs : List Return) (r : EStateM.Result Stop World Outcome) : Prop :=
  (∃ x ∈ rs, x.late) → (TimedOut limit r ↔ Settled rs) ∧ CutShort limit r

namespace LateEnds

variable {limit : Limit} {rs : List Return} {r : EStateM.Result Stop World Outcome} {w : World}

private theorem of_early (h : ∀ x ∈ rs, ¬ x.late) : LateEnds limit rs r := by
  rintro ⟨x, mem, late⟩
  exact absurd late (h x mem)

/-- Returns before time ran out do not matter. -/
theorem append (h : LateEnds limit rs r) {before : List Return} (early : ∀ x ∈ before, ¬ x.late) :
    LateEnds limit (before ++ rs) r := by
  rintro ⟨x, mem, late⟩
  have later : x ∈ rs := (List.mem_append.1 mem).resolve_left fun mem ↦ early x mem late
  rw [settled_append_iff (List.ne_nil_of_mem later)]
  exact h ⟨x, later, late⟩

private theorem timeout (h : Settled rs) {halt : Halt} (failure : halt.failure = .timeout limit) :
    LateEnds limit rs (.ok (.halted halt) w) :=
  fun _ ↦ ⟨iff_of_true failure h, .inl failure⟩

private theorem unapplied (h : Unsettled rs) {halt : Halt} (failure : halt.failure.ofAttribute) :
    LateEnds limit rs (.ok (.halted halt) w) := by
  refine fun _ ↦ ⟨iff_of_false (fun timeout ↦ ?_) h.not_settled, .inr failure⟩
  rw [show halt.failure = _ from timeout] at failure
  contradiction

private theorem breakdown (h : Unsettled rs) (stop : Stop) : LateEnds limit rs (.error stop w) :=
  fun _ ↦ ⟨iff_of_false id h.not_settled, trivial⟩

end LateEnds

private theorem Adds.early {w w' : World} {rs : List Return} (h : f.Adds w rs w')
    (time : f.scope.passed? w'.clock = none) : ∀ x ∈ rs, ¬ x.late := by
  intro x mem late
  have passed := h.late x mem late
  rw [time] at passed
  contradiction

section Chain

variable {w : World} {token : Token} (fill : ∀ text, (f.fill text).Beneath f.scope.depth)
  (guarded : f.scope.token = some token)
include fill guarded

private theorem walk_ends (steps : Nat) (v : Value) (p : Progress) :
    f.Ends (f.walk steps v p) w (LateEnds token.limit) := by
  have hno {r : EStateM.Result Stop World Outcome} : LateEnds token.limit [] r :=
    .of_early (by simp)
  induction steps generalizing v p w with
  | zero => exact .pure hno
  | succ steps ih =>
    unfold walk
    split
    · exact .pure hno
    · next more =>
      -- Time is looked at before a segment and after it. What was returned in time before does not
      -- matter for how the walk ends.
      apply Ends.passed?_bind
      cases f.scope.passed? w.clock with
      | some limit => exact .pure hno
      | none =>
        obtain ⟨s, present⟩ : ∃ s, (f.cursor p).segment? 0 = some s := by
          simpa [cursor, Cursor.segment?, Chain.length, ← Option.isSome_iff_exists] using more
        refine (dispatch_ends fill present v).bind ?_ fun rs stop w' ends ↦ .breakdown ends stop
        rintro rs ⟨result, p'⟩ w' adds ends
        cases result with
        | error halt =>
          apply Ends.pure
          rw [List.append_nil]
          exact .unapplied ends.2 ends.1
        | ok next =>
          apply Ends.passed?_bind
          cases passed : f.scope.passed? w'.clock with
          | some limit =>
            apply Ends.pure
            rw [List.append_nil, Scope.eq_limit_of_passed? guarded passed]
            exact .timeout ends rfl
          | none => exact (ih next _).mono fun rest r ends ↦ ends.append (adds.early passed)

private theorem runChain_ends : f.Ends f.runChain w (LateEnds token.limit) := by
  have hno {r : EStateM.Result Stop World Outcome} : LateEnds token.limit [] r :=
    .of_early (by simp)
  unfold runChain
  dsimp only
  split
  · exact .pure hno
  · next base _ =>
    refine (call_ends fill (.base base.name) base.handler {}).bind ?_ fun rs stop w' ends ↦ ?_
    · rintro rs ⟨result, p⟩ w' adds ⟨late, rfl⟩
      apply Ends.passed?_bind
      cases passed : f.scope.passed? w'.clock with
      | some limit =>
        apply Ends.pure
        rw [List.append_nil, Scope.eq_limit_of_passed? guarded passed]
        exact .timeout ⟨_, rfl, rfl⟩ rfl
      | none =>
        cases result with
        | none => exact .pure (.of_early (adds.early passed))
        | some v =>
          exact (walk_ends fill guarded _ v _).mono fun rest r ends ↦
            ends.append (adds.early passed)
    · obtain rfl : rs = [] := ends
      exact hno

end Chain

/-- Once a handler of a chain has returned late, the chain times out if and only if the last of its
handlers to return was that of its base or gave a value. Where it does not time out it halts for
want of an attribute or breaks down; it is never fulfilled. -/
theorem runChain_late {levels : Nat} (nested : f.fill = f.env.fillWithin levels f.scope)
    {token : Token} (guarded : f.scope.token = some token) {w : World}
    (late : ∃ r ∈ f.runChain.returns f.scope.depth w, r.late) :
    (TimedOut token.limit (f.runChain w) ↔ Settled (f.runChain.returns f.scope.depth w)) ∧
      CutShort token.limit (f.runChain w) := by
  have fill (text : String) : (f.fill text).Beneath f.scope.depth := by
    rw [nested]
    exact f.env.fillWithin_beneath levels f.scope text
  obtain ⟨rs, adds, ends⟩ := runChain_ends (w := w) fill guarded
  have returns : f.runChain.returns f.scope.depth w = rs := adds.returns_eq
  rw [returns] at late ⊢
  exact ends late

/-! ## Handlers that wait -/

/-- A handler that waits until time has run out and then gives what it is told to. -/
def waiting (result : Option Value) : Handler (Option Value) :=
  .ask .awaitCancel fun _ ↦ .done result

/-- An environment with one base and one attribute of its value. -/
def slowEnv (base slow : Handler (Option Value)) : Env where
  registry := {
    bases := [("a", ⟨"a", .element, base⟩)]
    attributes := [((.element, "slow"), ⟨"slow", .none, fun _ ↦ slow⟩)] }

/-- A resolution of the base and the attribute in a job of ten nanoseconds. -/
def slowFrame (base slow : Handler (Option Value)) : Frame where
  env := slowEnv base slow
  scope := Scope.ofJob ⟨10⟩ 0
  fill := (slowEnv base slow).fillWithin 0 (Scope.ofJob ⟨10⟩ 0)
  chain := {
    origin := "a.slow"
    root := ⟨"a", "a", none, none⟩
    rest := [⟨"slow", "slow", none, none⟩] }

/-- A base that waits and gives nothing is reported as a timeout. -/
theorem runChain_late_base :
    let f := slowFrame (waiting none) (.done none)
    (∃ r ∈ f.runChain.returns f.scope.depth {}, r.late) ∧ TimedOut ⟨10⟩ (f.runChain {}) := by
  intro f
  have nested : f.fill = f.env.fillWithin 0 f.scope := rfl
  have guarded : f.scope.token = some ⟨⟨10⟩, 10⟩ := rfl
  have only : f.runChain.returns f.scope.depth {} = [⟨.base "a", false, true⟩] := rfl
  have late : ∃ r ∈ f.runChain.returns f.scope.depth {}, r.late := by
    rw [only]
    exact ⟨_, List.mem_singleton_self _, rfl⟩
  refine ⟨late, (runChain_late nested guarded late).1.2 ?_⟩
  rw [only]
  exact ⟨_, rfl, rfl⟩

/-- An attribute that waits and gives nothing is not, so that a late return alone does not make a
timeout. -/
theorem runChain_late_attribute :
    ¬ ∀ (f : Frame) (levels : Nat) (token : Token) (w : World),
      f.fill = f.env.fillWithin levels f.scope → f.scope.token = some token →
      (∃ r ∈ f.runChain.returns f.scope.depth w, r.late) → TimedOut token.limit (f.runChain w) := by
  intro claim
  let f := slowFrame (.done (some (.element "x"))) (waiting none)
  have both : f.runChain.returns f.scope.depth {} =
      [⟨.base "a", true, false⟩, ⟨.attr .element "slow", false, true⟩] := rfl
  have late : ∃ r ∈ f.runChain.returns f.scope.depth {}, r.late := by
    rw [both]
    exact ⟨_, List.mem_cons_of_mem _ (List.mem_singleton_self _), rfl⟩
  have timeout : Failure.unresolvedAttribute "slow" .element 1 = .timeout ⟨10⟩ :=
    claim f 0 ⟨⟨10⟩, 10⟩ {} rfl rfl late
  contradiction

end Frame

end TextTags
