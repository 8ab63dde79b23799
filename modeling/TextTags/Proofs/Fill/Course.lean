import TextTags.Proofs.Fill.Calls
import TextTags.Proofs.Fill.Handlers
import TextTags.Proofs.Registry

/-!
# The course of a chain

What resolving a chain comes to, whatever its handlers give, said once of its plan. The count of the
fulfilled segments goes up from call to call, the outcome is well-formed, and no halt of the chain's
own making is one at a breakdown. Where handlers are called on terms that they keep to, the value at
the end keeps to them too.
-/

namespace TextTags

/-- A halt of a chain: somewhere in it or at its end, with the chain as written cut in two there. -/
structure Halt.WellFormed (chain : Chain) (h : Halt) : Prop where
  total : h.total = chain.length
  index : h.index ≤ chain.length
  filled : h.filled = chain.join 0 h.index
  unfilled : h.unfilled = chain.join h.index chain.length
  almost : h.almost.Nodup

namespace Outcome

/-- The segments fulfilled in the end. -/
def count : Outcome → Nat
  | fulfilled _ count => count
  | halted halt => halt.index

/-- An outcome of a chain: all of its segments are fulfilled, or it is halted as it can be. -/
def WellFormed (chain : Chain) : Outcome → Prop
  | fulfilled _ count => count = chain.length
  | halted halt => halt.WellFormed chain

end Outcome

/-- No more segments are counted than a chain has. -/
theorem Outcome.WellFormed.count_le {chain : Chain} {outcome : Outcome}
    (h : outcome.WellFormed chain) : outcome.count ≤ chain.length := by
  cases outcome with
  | fulfilled v count => exact Nat.le_of_eq h
  | halted halt => exact h.index

/-- A progress along a chain. -/
structure Progress.Valid (chain : Chain) (p : Progress) : Prop where
  fulfilled : p.fulfilled ≤ chain.length
  seeming : p.seeming.Nodup

private theorem addNames_nodup {names : List String} (h : names.Nodup) (more : List String) :
    (addNames names more).Nodup := by
  induction more generalizing names with
  | nil => exact h
  | cons name rest ih =>
    refine ih ?_
    split
    · exact h
    · next new =>
      rw [List.contains_iff_mem] at new
      refine List.nodup_append.2 ⟨h, List.pairwise_singleton _ _, fun a mem b eq same ↦ new ?_⟩
      rwa [← List.mem_singleton.1 eq, ← same]

namespace Progress.Valid

variable {chain : Chain} {p : Progress}

/-- The progress at the root is valid. -/
theorem start (chain : Chain) : ({} : Progress).Valid chain := ⟨Nat.zero_le _, .nil⟩

/-- A name that is noted leaves the progress valid. -/
theorem seem (h : p.Valid chain) (name : String) : (p.seem name).Valid chain :=
  ⟨h.fulfilled, addNames_nodup h.seeming _⟩

/-- Segments that are counted leave the progress valid. -/
theorem fulfill (h : p.Valid chain) (count : Nat) : (p.fulfill count chain.length).Valid chain :=
  ⟨Nat.min_le_right _ _, h.seeming⟩

/-- Counting segments never goes back. -/
theorem le_fulfill (h : p.Valid chain) (count : Nat) :
    p.fulfilled ≤ (p.fulfill count chain.length).fulfilled :=
  Nat.le_min.2 ⟨Nat.le_add_right _ _, h.fulfilled⟩

private theorem advance (h : p.Valid chain) (v : Value) : (p.advance v chain.length).Valid chain :=
  ⟨(h.fulfill 1).fulfilled, h.seeming⟩

/-- The halt of a valid progress is well-formed. -/
theorem halt (h : p.Valid chain) (failure : Failure) (near : List String) :
    (p.halt chain failure near).WellFormed chain :=
  ⟨rfl, h.fulfilled, rfl, rfl, addNames_nodup h.seeming near⟩

end Progress.Valid

/-- An outcome that is no halt at a breakdown. -/
def Outcome.Unbroken : Outcome → Prop
  | fulfilled _ _ => True
  | halted halt => ∀ message, halt.failure ≠ .workerFault message

/-- Terms on which handlers are called: what is so of the values that are passed along a chain, and
of the handlers for such values. -/
structure Terms where
  value : Value → Prop
  handler : Callee → Handler (Option Value) → Prop

namespace Terms

/-- Whether the handlers of a registry keep to the terms. All texts do. -/
structure Kept (t : Terms) (r : Registry) : Prop where
  text : ∀ text, t.value (.element text)
  handlers : r.Has fun callee handler ↦ ∀ v, t.value v → t.handler callee (handler v)

/-- Terms that say nothing. -/
def loose : Terms := ⟨fun _ ↦ True, fun _ _ ↦ True⟩

/-- Every registry keeps the terms that ask for nothing. -/
theorem loose_kept (r : Registry) : loose.Kept r :=
  have all {κ : Type} {table : List κ} : ∀ _ ∈ table, ∀ _ : Value, True → True :=
    fun _ _ _ _ ↦ trivial
  ⟨fun _ ↦ trivial, ⟨all, all, all, all⟩⟩

end Terms

namespace Plan

variable {α β : Type} {t : Terms} {chain : Chain} {good : Nat → α → Prop} {n : Nat}

/-- A plan that counts up from a count and calls handlers on terms, if they count up and keep to the
terms: it calls none at a lower count, and ends in what belongs to the count it has come to. -/
def Climbs (t : Terms) (chain : Chain) (good : Nat → α → Prop) : Nat → Plan α → Prop
  | n, ends a => good n a
  | n, look next => ∀ passed, Climbs t chain good n (next passed)
  | n, call callee handler p next => n ≤ p.fulfilled ∧ p.Valid chain ∧ t.handler callee handler ∧
      ∀ result p', (∀ v ∈ result, t.value v) → p'.Valid chain → p.fulfilled ≤ p'.fulfilled →
        Climbs t chain good p'.fulfilled (next (result, p'))

private theorem Climbs.of_le {m : Nat} {x : Plan α} (h : x.Climbs t chain good n) (le : m ≤ n)
    (weaken : ∀ a, good n a → good m a) : x.Climbs t chain good m := by
  induction x with
  | ends a => exact weaken a h
  | look next ih => exact fun passed ↦ ih passed (h passed)
  | call callee handler p next ih => exact ⟨Nat.le_trans le h.1, h.2⟩

private theorem Climbs.bind {good' : Nat → β → Prop} {x : Plan α} {g : α → Plan β}
    (h : x.Climbs t chain good n)
    (next : ∀ m a, n ≤ m → good m a → (g a).Climbs t chain good' m) :
    (x >>= g).Climbs t chain good' n := by
  change (x.bind g).Climbs t chain good' n
  induction x generalizing n with
  | ends a => exact next n a (Nat.le_refl n) h
  | look rest ih => exact fun passed ↦ ih passed (h passed) next
  | call callee handler p rest ih =>
    obtain ⟨before, valid, asked, rest⟩ := h
    refine ⟨before, valid, asked, fun result p' kept valid' le ↦ ?_⟩
    exact ih _ (rest result p' kept valid' le) fun m a above ↦
      next m a (Nat.le_trans before (Nat.le_trans le above))

/-- What the plan of a chain may come to from a count on. -/
structure Ended (t : Terms) (chain : Chain) (n : Nat) (outcome : Outcome) : Prop where
  count : n ≤ outcome.count
  formed : outcome.WellFormed chain
  unbroken : outcome.Unbroken
  value : ∀ v count, outcome = .fulfilled v count → t.value v

/-- What the plan of one segment may come to at a count. -/
structure Applied (t : Terms) (chain : Chain) (n : Nat) (result : Except Halt Value × Progress) :
    Prop where
  count : result.2.fulfilled = n
  valid : result.2.Valid chain
  value : ∀ v, result.1 = .ok v → t.value v
  halt : ∀ h, result.1 = .error h → Ended t chain n (.halted h)

variable {p : Progress} {v : Value}

/-- What holds from a place on holds from every place before it. -/
theorem Ended.of_le {m : Nat} {outcome : Outcome} (h : Ended t chain n outcome) (le : m ≤ n) :
    Ended t chain m outcome :=
  { h with count := Nat.le_trans le h.count }

private theorem Ended.fulfilled (keeps : t.value v) (valid : p.Valid chain)
    (all : chain.length ≤ p.fulfilled) : Ended t chain p.fulfilled (.fulfilled v p.fulfilled) where
  count := Nat.le_refl _
  formed := Nat.le_antisymm valid.fulfilled all
  unbroken := trivial
  value v' count eq := by
    cases eq
    exact keeps

private theorem Ended.halt (valid : p.Valid chain) {failure : Failure} (near : List String)
    (own : ∀ message, failure ≠ .workerFault message) :
    Ended t chain p.fulfilled (.halted (p.halt chain failure near)) where
  count := Nat.le_refl _
  formed := valid.halt failure near
  unbroken := own
  value := nofun

private theorem Ended.timeout (valid : p.Valid chain) (limit : Limit) :
    Ended t chain p.fulfilled (.halted (p.halt chain (.timeout limit) [])) :=
  .halt valid [] fun _ ↦ nofun

private theorem Applied.ok (valid : p.Valid chain) (keeps : t.value v) :
    Applied t chain p.fulfilled (.ok v, p) where
  count := rfl
  valid := valid
  value v' eq := by
    cases eq
    exact keeps
  halt := nofun

private theorem Applied.error (valid : p.Valid chain) {failure : Failure} (near : List String)
    (own : ∀ message, failure ≠ .workerFault message) :
    Applied t chain p.fulfilled (.error (p.halt chain failure near), p) where
  count := rfl
  valid := valid
  value := nofun
  halt h eq := by
    cases eq
    exact .halt valid near own

section

variable {r : Registry}

private theorem climbs_apply {callee : Callee} {attr : Attr}
    (asked : t.handler callee (attr.handler v)) (valid : p.Valid chain) (kind : Kind) :
    (apply r chain callee attr v kind p).Climbs t chain (Applied t chain) p.fulfilled := by
  unfold apply
  split
  · have missed : ({ p with lacksParam := true } : Progress).Valid chain :=
      ⟨valid.fulfilled, valid.seeming⟩
    exact Applied.error (missed.seem attr.name) _ fun _ ↦ nofun
  · refine ⟨Nat.le_refl _, valid, asked, fun result p' kept valid' le ↦ ?_⟩
    cases result with
    | some next => exact Applied.ok valid' (kept next rfl)
    | none => exact Applied.error (valid'.seem attr.name) _ fun _ ↦ nofun

variable (kept : t.Kept r)

include kept

private theorem climbs_tryFallback (keeps : t.value v) (valid : p.Valid chain) :
    (tryFallback r v p).Climbs t chain (fun n result ↦
      result.2.fulfilled = n ∧ result.2.Valid chain ∧ ∀ v ∈ result.1, t.value v) p.fulfilled := by
  unfold tryFallback
  split
  · next handler found =>
    exact ⟨Nat.le_refl _, valid, kept.handlers.fallback found v keeps,
      fun result p' kept' valid' le ↦ ⟨rfl, valid', kept'⟩⟩
  · exact ⟨rfl, valid, nofun⟩

private theorem climbs_applyShared (keeps : t.value v) (valid : p.Valid chain) (s : Segment) :
    (applyShared r chain v s p).Climbs t chain (Applied t chain) p.fulfilled := by
  unfold applyShared
  split
  · next attr found => exact climbs_apply (kept.handlers.universal found v keeps) valid _
  · split
    · next attr found =>
      split at found
      · contradiction
      · exact climbs_apply (kept.handlers.attr found _ (kept.text _)) valid _
    · exact Applied.error valid _ fun _ ↦ nofun

private theorem climbs_dispatch (keeps : t.value v) (valid : p.Valid chain) :
    (dispatch r chain v p).Climbs t chain (Applied t chain) p.fulfilled := by
  unfold dispatch
  split
  · exact Applied.ok valid keeps
  · split
    · next attr found => exact climbs_apply (kept.handlers.attr found v keeps) valid _
    · refine (climbs_tryFallback kept keeps valid).bind ?_
      rintro m ⟨result, p'⟩ le ⟨rfl, valid', keeps'⟩
      cases result with
      | some next => exact Applied.ok valid' (keeps' next rfl)
      | none => exact climbs_applyShared kept keeps valid' _

/-- Each step fulfils a segment, so that as many steps as there are segments suffice. -/
theorem climbs_walk {steps : Nat} (keeps : t.value v) (valid : p.Valid chain)
    (enough : chain.length ≤ p.fulfilled + steps) :
    (walk r chain steps v p).Climbs t chain (Ended t chain) p.fulfilled := by
  induction steps generalizing v p with
  | zero => exact Ended.fulfilled keeps valid enough
  | succ steps ih =>
    unfold walk
    split
    · next all => exact Ended.fulfilled keeps valid all
    · intro passed
      cases passed with
      | some limit => exact Ended.timeout valid limit
      | none =>
        refine (climbs_dispatch kept keeps valid).bind ?_
        rintro m ⟨result, p'⟩ le ⟨rfl, valid', keeps', halts⟩
        cases result with
        | error halt => exact halts halt rfl
        | ok next =>
          intro passed
          cases passed with
          | some limit => exact Ended.timeout valid' limit
          | none =>
            have more : chain.length ≤ (p'.advance next chain.length).fulfilled + steps := by
              change chain.length ≤ min (p'.fulfilled + 1) chain.length + steps
              have le : p.fulfilled ≤ p'.fulfilled := le
              omega
            have up : p'.fulfilled ≤ (p'.advance next chain.length).fulfilled := valid'.le_fulfill 1
            exact (ih (keeps' next rfl) (valid'.advance next) more).of_le up fun _ ended ↦
              ended.of_le up

/-- The plan of a chain climbs from its root to its end. -/
theorem climbs_ofChain (chain : Chain) : (ofChain r chain).Climbs t chain (Ended t chain) 0 := by
  have start := Progress.Valid.start chain
  unfold ofChain
  dsimp only
  split
  · exact Ended.halt start _ fun _ ↦ nofun
  · next base found =>
    have asked := kept.handlers.base found (.element "") (kept.text "")
    refine ⟨Nat.le_refl 0, start, asked, fun result p keeps valid le passed ↦ ?_⟩
    cases passed with
    | some limit => exact Ended.timeout valid limit
    | none =>
      cases result with
      | none => exact Ended.halt valid _ fun _ ↦ nofun
      | some v =>
        have up : p.fulfilled ≤ (p.advance v chain.length).fulfilled := valid.le_fulfill 1
        have enough := Nat.le_add_left chain.length (p.advance v chain.length).fulfilled
        exact (climbs_walk kept (keeps v rfl) (valid.advance v) enough).of_le up fun _ ended ↦
          ended.of_le up

end

end Plan

end TextTags
