import TextTags.Proofs.Fill.Handlers
import TextTags.Proofs.Fill.Timely

/-!
# How far bases look

A base may look at segments after the root, and counts them as fulfilled where it does. The bases of
the core look no further than they count, and one segment more: chains that agree so far begin
alike.
-/

namespace TextTags

open Run Handler

variable {f : Frame} {α β : Type} {c c' : Chain} {p p' : Progress}

namespace Frame

/-- The same value at two places, or none at both, with the progress left as it was. -/
def Kept (p : Progress) (x y : Option α × Progress) : Prop := x = y ∧ x.2 = p

private theorem attempt_timely {x : Attempt α} {g : α → Attempt β}
    {V : Option β × Progress → Option β × Progress → Prop}
    (first : Alike (World.BothTimely f.scope) (Kept p) ((f.on c).run x p) ((f.on c').run x p))
    (hno : V (none, p) (none, p))
    (next : ∀ a,
      Alike (World.BothTimely f.scope) V ((f.on c).run (g a) p) ((f.on c').run (g a) p)) :
    Alike (World.BothTimely f.scope) V ((f.on c).run (Bind.bind (m := Attempt) x g) p)
      ((f.on c').run (Bind.bind (m := Attempt) x g) p) := by
  rw [run_attempt, run_attempt]
  refine first.bind ?_
  rintro ⟨result, _⟩ _ ⟨rfl, rfl⟩
  cases result with
  | none => exact .pure hno
  | some a => exact next a

private theorem pure_timely (a : Option α) :
    Alike (World.BothTimely f.scope) (Kept p) ((f.on c).run (Handler.done a) p)
      ((f.on c').run (Handler.done a) p) :=
  .pure ⟨rfl, rfl⟩

/-- The parameters that a base reads are few, counted from the root. -/
theorem attemptParam_timely (fills : f.FillsTimely) {offset : Nat} (few : offset < Nat.pow 2 64)
    (same : ((f.on c).cursor {}).param? offset = ((f.on c').cursor {}).param? offset) :
    Alike (World.BothTimely f.scope) (Kept {}) ((f.on c).run (Attempt.param offset) {})
      ((f.on c').run (Attempt.param offset) {}) :=
  have can (c : Chain) : ({} : Progress).canCount offset c.length := Progress.canCount_root few _
  Alike.bind (V := Kept {}) ((param_timely fills (can c) (can c') same).bind_eq fun _ ↦
    .pure ⟨rfl, rfl⟩) fun _ _ kept ↦ .pure kept

private theorem paramText_timely (fills : f.FillsTimely) {offset : Nat}
    (few : offset < Nat.pow 2 64)
    (same : ((f.on c).cursor {}).param? offset = ((f.on c').cursor {}).param? offset) :
    Alike (World.BothTimely f.scope) (Kept {}) ((f.on c).run (Attempt.paramText offset) {})
      ((f.on c').run (Attempt.paramText offset) {}) :=
  attempt_timely (attemptParam_timely fills few same) ⟨rfl, rfl⟩ fun _ ↦ pure_timely _

/-- What comes of a base at two chains that agree as far as it looks: the same value, with the same
number of segments counted, or none and nothing counted. -/
inductive Begun (k : Nat) : Option Value × Progress → Option Value × Progress → Prop
  | some (v : Value) : Begun k (some v, { fulfilled := k }) (some v, { fulfilled := k })
  | none {p p' : Progress} (h : p.fulfilled = 0) (h' : p'.fulfilled = 0) :
      Begun k (none, p) (none, p')

/-- A base looks no further than it counts, and one segment: it gives nothing, or the same to all
chains that agree so far. -/
def Foresees (f : Frame) (h : Handler (Option Value)) (c : Chain) : Prop :=
  (∃ p : Progress, p.fulfilled = 0 ∧ (f.on c).run h {} = pure (none, p)) ∨
    ∃ k < c.length, ∀ c' : Chain, c'.bare.take (k + 1) = c.bare.take (k + 1) →
      Alike (World.BothTimely f.scope) (Begun k) ((f.on c).run h {}) ((f.on c').run h {})

end Frame

namespace Chain

/-- Chains that agree in their first segments. -/
theorem segment?_bare {n i : Nat} (agree : c'.bare.take n = c.bare.take n) (lt : i < n) :
    c'.segments[i]?.map Segment.bare = c.segments[i]?.map Segment.bare := by
  rw [← List.getElem?_map, ← List.getElem?_map]
  change c'.bare[i]? = c.bare[i]?
  rw [← List.getElem?_take_of_lt lt, agree, List.getElem?_take_of_lt lt]

private theorem key?_eq {n i : Nat} (agree : c'.bare.take n = c.bare.take n) (lt : i < n) :
    ((f.on c').cursor {}).key? i = ((f.on c).cursor {}).key? i := by
  have same := congrArg (Option.map Segment.key) (segment?_bare agree lt)
  simpa [Cursor.key?, Cursor.segment?, Frame.cursor, Frame.on, Function.comp_def, Segment.bare]
    using same

private theorem param?_eq {n i : Nat} (agree : c'.bare.take n = c.bare.take n) (lt : i < n) :
    ((f.on c').cursor {}).param? i = ((f.on c).cursor {}).param? i := by
  have same := congrArg (Option.bind · Segment.param) (segment?_bare agree lt)
  simpa [Cursor.param?, Cursor.segment?, Frame.cursor, Frame.on, Option.bind_map,
    Function.comp_def, Segment.bare] using same

/-- Chains that agree up to any segment agree in their roots. -/
theorem root_eq {n : Nat} (agree : c'.bare.take (n + 1) = c.bare.take (n + 1)) :
    c'.root.bare = c.root.bare :=
  (List.cons.inj agree).1

/-- A chain that agrees with another up to a place is as long as that place. -/
theorem le_length {n : Nat} (agree : c'.bare.take n = c.bare.take n) (le : n ≤ c.length) :
    n ≤ c'.length := by
  have same := congrArg List.length agree
  simp only [List.length_take, Chain.bare, List.length_map] at same
  unfold Chain.length at *
  omega

private theorem lt_length_of_key? {i : Nat} {key : String}
    (h : ((f.on c).cursor {}).key? i = some key) : i < c.length := by
  obtain ⟨s, found, -⟩ := Option.map_eq_some_iff.1 h
  have := (List.getElem?_eq_some_iff.1 found).1
  simpa [Frame.cursor, Frame.on, Chain.length] using this

end Chain

namespace Core

open TextTags.Frame

/-- To count segments that are there, and give a value. -/
theorem fulfill_begun {k : Nat} (h : k < c.length) (h' : k < c'.length) (v : Value) :
    Alike (World.BothTimely f.scope) (Begun k)
      ((f.on c).run (do fulfill k; return v : Attempt Value) {})
      ((f.on c').run (do fulfill k; return v : Attempt Value) {}) := by
  have counted {c : Chain} (h : k < c.length) :
      (f.on c).run (do fulfill k; return v : Attempt Value) {} =
        pure (some v, { fulfilled := k }) := by
    have can : ({} : Progress).canCount k c.length :=
      Progress.canCount_of_le (by simpa using Nat.le_of_lt h)
    rw [run_fulfill can]
    simp [Progress.fulfill, Frame.on, Nat.le_of_lt h]
  rw [counted h, counted h']
  exact .pure (.some v)

private theorem local_foresees (fills : f.FillsTimely) {h : Handler (Option Value)}
    (local' : h.Local) (c : Chain) : f.Foresees h c := by
  refine .inr ⟨0, by simp [Chain.length, Chain.segments], fun c' agree ↦ ?_⟩
  have key := Chain.key?_eq (f := f) agree Nat.zero_lt_one
  have param := Chain.param?_eq (f := f) agree Nat.zero_lt_one
  refine (run_timely fills local' key.symm param.symm).mono ?_
  rintro _ ⟨result, _⟩ ⟨rfl, rfl⟩
  cases result with
  | none => exact .none rfl rfl
  | some v => exact .some v

/-- The context value of a name. -/
def namedValue (f : Frame) (name : String) : Attempt Value := do
  let value ← Attempt.of (host (.contextValue f.env.context.site name))
  fulfill 1
  return value

private theorem run_contextValue (f : Frame) (c : Chain) : (f.on c).run contextValue {} =
    match ((f.on c).cursor {}).key? 1 with
    | some name => (f.on c).run (namedValue f name) {}
    | none => pure (none, {}) := by
  change (f.on c).run (Bind.bind (m := Attempt)
    (Attempt.ofOption (((f.on c).cursor {}).key? 1)) _) {} =
    _
  cases ((f.on c).cursor {}).key? 1 <;> rfl

/-- The name of a context value is the second segment. -/
theorem contextValue_foresees (f : Frame) (c : Chain) : f.Foresees contextValue c := by
  cases found : ((f.on c).cursor {}).key? 1 with
  | none => exact .inl ⟨{}, rfl, by rw [run_contextValue, found]⟩
  | some name =>
    have long := Chain.lt_length_of_key? found
    refine .inr ⟨1, long, fun c' agree ↦ ?_⟩
    have found' := (Chain.key?_eq (f := f) agree Nat.one_lt_two).trans found
    have long' := Chain.lt_length_of_key? found'
    rw [run_contextValue, run_contextValue, found, found']
    refine attempt_timely ?_ (.none rfl rfl) fun value ↦ fulfill_begun long long' value
    exact Alike.bind (V := Kept {}) ((askHost_timely _).bind_eq fun _ ↦ .pure ⟨rfl, rfl⟩)
      fun _ _ kept ↦ .pure kept

/-- The parameter that is chosen where the segments of a choice follow. -/
def branch : Attempt Value := do
  let condition ← .paramText 0
  let chosen ← .param (if Element.isTrue condition then 1 else 2)
  fulfill 2
  return chosen

/-- A choice takes a branch if the segments for it follow, and else misses a parameter. -/
theorem run_choice (f : Frame) (c : Chain) : (f.on c).run choice {} =
    if hasBranches ((f.on c).cursor {}) then (f.on c).run branch {}
    else pure (none, { lacksParam := true }) := by
  change (f.on c).run (if hasBranches ((f.on c).cursor {}) then _ else _) {} = _
  split <;> rfl

/-- The segments of a choice are the three first. -/
theorem choice_foresees (fills : f.FillsTimely) (c : Chain) : f.Foresees choice c := by
  cases shaped : hasBranches ((f.on c).cursor {}) with
  | false => exact .inl ⟨{ lacksParam := true }, rfl, by rw [run_choice, shaped]; rfl⟩
  | true =>
    have third {c : Chain} (shaped : hasBranches ((f.on c).cursor {}) = true) : 2 < c.length := by
      simp only [hasBranches, Bool.and_eq_true, Cursor.isNamed, beq_iff_eq] at shaped
      exact Chain.lt_length_of_key? shaped.1.2
    refine .inr ⟨2, third shaped, fun c' agree ↦ ?_⟩
    have key {i : Nat} (lt : i < 3) := Chain.key?_eq (f := f) agree lt
    have param {i : Nat} (lt : i < 3) := (Chain.param?_eq (f := f) agree lt).symm
    have shaped' : hasBranches ((f.on c').cursor {}) = true := by
      rw [← shaped]
      unfold hasBranches Cursor.isNamed Cursor.hasParam
      rw [key (by decide), key (by decide), param (by decide), param (by decide)]
    rw [run_choice, run_choice, if_pos shaped, if_pos shaped']
    refine attempt_timely (paramText_timely fills (by decide) (param (by decide))) (.none rfl rfl)
      fun condition ↦ ?_
    refine attempt_timely (attemptParam_timely fills ?_ (param ?_)) (.none rfl rfl)
      fun chosen ↦ fulfill_begun (third shaped) (third shaped') chosen
    all_goals split <;> decide

private theorem run_utility (f : Frame) (c : Chain) : (f.on c).run utility {} =
    if ((f.on c).cursor {}).isNamed 1 "time_now" then
      (f.on c).run (do fulfill 1; return .time f.env.context.now : Attempt Value) {}
    else if ((f.on c).cursor {}).isNamed 1 "random" && ((f.on c).cursor {}).isNamed 2 "int" &&
        ((f.on c).cursor {}).isNamed 3 "to" then (f.on c).run randomBetween {}
    else if ((f.on c).cursor {}).isNamed 1 "random" && ((f.on c).cursor {}).isNamed 2 "decimal" then
      (f.on c).run (do fulfill 2; return .ofFloat f.env.context.draw.number : Attempt Value) {}
    else pure (none, {}) := by
  change (f.on c).run (if ((f.on c).cursor {}).isNamed 1 "time_now" then _ else
    if ((f.on c).cursor {}).isNamed 1 "random" && ((f.on c).cursor {}).isNamed 2 "int" &&
        ((f.on c).cursor {}).isNamed 3 "to" then _ else
    if ((f.on c).cursor {}).isNamed 1 "random" && ((f.on c).cursor {}).isNamed 2 "decimal" then _
    else _) {} = _
  repeat' split
  all_goals rfl

/-- The segments of a random integer are the four first. -/
theorem randomBetween_begun (fills : f.FillsTimely) (long : 3 < c.length) (long' : 3 < c'.length)
    (agree : c'.bare.take 4 = c.bare.take 4) :
    Alike (World.BothTimely f.scope) (Begun 3) ((f.on c).run randomBetween {})
      ((f.on c').run randomBetween {}) := by
  have param {i : Nat} (lt : i < 4) := (Chain.param?_eq (f := f) agree lt).symm
  have integer {i : Nat} (few : i < Nat.pow 2 64) (lt : i < 4) {g : Int → Attempt Value}
    (next : ∀ n,
      Alike (World.BothTimely f.scope) (Begun 3) ((f.on c).run (g n) {}) ((f.on c').run (g n) {})) :
      Alike (World.BothTimely f.scope) (Begun 3)
        ((f.on c).run (do g (← .ofOption (Element.integer? (← .paramText i))) : Attempt Value) {})
        ((f.on c').run (do g (← .ofOption (Element.integer? (← .paramText i))) : Attempt Value)
        {}) :=
    attempt_timely (paramText_timely fills few (param lt)) (.none rfl rfl) fun text ↦
      attempt_timely (pure_timely _) (.none rfl rfl) next
  refine integer (by decide) (by decide) fun a ↦ integer (by decide) (by decide) fun b ↦ ?_
  exact fulfill_begun long long' (.ofInt (f.env.context.draw.integer a b))

/-- What the second segment of a utility names says how many more there are. -/
theorem utility_foresees (fills : f.FillsTimely) (c : Chain) : f.Foresees utility c := by
  have named {c : Chain} {i : Nat} {name : String} :
      ((f.on c).cursor {}).isNamed i name ↔ ((f.on c).cursor {}).key? i = some name := beq_iff_eq
  -- Every chain that agrees as far as the utility counts takes the same branch, since the names
  -- that choose it are among the segments counted.
  by_cases now : ((f.on c).cursor {}).isNamed 1 "time_now"
  · have long := Chain.lt_length_of_key? (named.1 now)
    refine .inr ⟨1, long, fun c' agree ↦ ?_⟩
    have second := (Chain.key?_eq (f := f) agree Nat.one_lt_two).trans (named.1 now)
    rw [run_utility, run_utility, if_pos now, if_pos (named.2 second)]
    exact fulfill_begun long (Chain.lt_length_of_key? second) _
  · by_cases integer : ((f.on c).cursor {}).isNamed 1 "random" &&
      ((f.on c).cursor {}).isNamed 2 "int" &&
        ((f.on c).cursor {}).isNamed 3 "to"
    · have names := integer
      simp only [Bool.and_eq_true, named] at names
      obtain ⟨⟨random, int⟩, upTo⟩ := names
      have long := Chain.lt_length_of_key? upTo
      refine .inr ⟨3, long, fun c' agree ↦ ?_⟩
      have key {i : Nat} (lt : i < 4) := Chain.key?_eq (f := f) agree lt
      have random' := (key (by decide)).trans random
      have int' := (key (by decide)).trans int
      have upTo' := (key (by decide)).trans upTo
      rw [run_utility, run_utility, if_neg now, if_pos integer, if_neg, if_pos]
      · exact randomBetween_begun fills long (Chain.lt_length_of_key? upTo') agree
      · simp [Cursor.isNamed, random', int', upTo']
      · simp [Cursor.isNamed, random']
    · by_cases decimal : ((f.on c).cursor {}).isNamed 1 "random" &&
          ((f.on c).cursor {}).isNamed 2 "decimal"
      · have names := decimal
        simp only [Bool.and_eq_true, named] at names
        obtain ⟨random, third⟩ := names
        have long := Chain.lt_length_of_key? third
        refine .inr ⟨2, long, fun c' agree ↦ ?_⟩
        have key {i : Nat} (lt : i < 3) := Chain.key?_eq (f := f) agree lt
        have random' := (key (by decide)).trans random
        have third' := (key (by decide)).trans third
        rw [run_utility, run_utility, if_neg now, if_neg integer, if_pos decimal, if_neg, if_neg,
          if_pos]
        · exact fulfill_begun long (Chain.lt_length_of_key? third') _
        · simp [Cursor.isNamed, random', third']
        · simp [Cursor.isNamed, third']
        · simp [Cursor.isNamed, random']
      · refine .inl ⟨{}, rfl, ?_⟩
        rw [run_utility, if_neg now, if_neg integer, if_neg decimal]

/-- Whether a base looks no further than it counts, and one segment, in all circumstances. -/
def IsForesighted (h : Handler (Option Value)) : Prop :=
  ∀ f : Frame, f.FillsTimely → ∀ c, f.Foresees h c

end Core

/-- The bases of the core look no further than they count, and one segment; its other handlers look
at the present segment alone. -/
theorem Registry.core_foresighted : Registry.core.Satisfies Core.IsForesighted Local :=
  Core.core_satisfies <| Core.bases_satisfy (fun _ h _ fills c ↦ Core.local_foresees fills h c)
    (fun f _ c ↦ Core.contextValue_foresees f c) (fun _ fills c ↦ Core.choice_foresees fills c)
    fun _ fills c ↦ Core.utility_foresees fills c

end TextTags
