import TextTags.Proofs.Fill.Attributes
import TextTags.Proofs.Fill.Embedding
import TextTags.Proofs.Number.Order

/-!
# Integers compared and subtracted

Differences of integers are exact as long as they have 64 bits. Comparisons look at the integers
rounded to 53 places, and are exact where these tell the integers apart.
-/

namespace TextTags

open Number Run Text

namespace Element

/-- The comparisons of elements. -/
inductive Relation
  | equals | isMoreThan | isLessThan

namespace Relation

/-- The attribute that compares. -/
def name : Relation → String
  | equals => "equals"
  | isMoreThan => "is_more_than"
  | isLessThan => "is_less_than"

/-- What the comparison says of integers. -/
def holds : Relation → Int → Int → Bool
  | equals, a, b => a = b
  | isMoreThan, a, b => b < a
  | isLessThan, a, b => a < b

/-- What the comparison makes of two texts. -/
def compute : Relation → String → String → Option Value
  | equals => fun a b ↦ some (.ofBool (equal a b))
  | isMoreThan => Core.comparison fun x y ↦ x > y
  | isLessThan => Core.comparison fun x y ↦ x < y

private theorem mem_elementAttributes (r : Relation) :
    Core.elementWith r.name r.compute ∈ Core.elementAttributes := by
  cases r <;> simp [name, compute, Core.elementAttributes]

private theorem lower_name (r : Relation) : Text.lower r.name = r.name := by
  cases r <;> rfl

private theorem holds_nearest {a b : Int} (apart : Apart a b) (r : Relation) :
    r.holds (nearest a) (nearest b) = r.holds a b := by
  cases r with
  | equals => exact decide_eq_decide.2 apart.eq_iff
  | isMoreThan => exact decide_eq_decide.2 apart.symm.lt_iff
  | isLessThan => exact decide_eq_decide.2 apart.lt_iff

/-- Integers are compared after they were rounded. -/
theorem compute_integers (r : Relation) {x y : String} {a b : Int}
    (left : integer? x = some a) (right : integer? y = some b) :
    r.compute x y = some (.ofBool (r.holds (nearest a) (nearest b))) := by
  obtain ⟨m, n, read, read', less, more, same⟩ := float?_order left right
  change number? x = some m at read
  change number? y = some n at read'
  cases r with
  | equals =>
    have equal' : (m == n) = decide (nearest a = nearest b) := by
      rw [Bool.eq_iff_iff, same, decide_eq_true_eq]
    simp [compute, equal, read, read', holds, equal']
  | isMoreThan => simp [compute, Core.comparison, read, read', holds, more]
  | isLessThan => simp [compute, Core.comparison, read, read', holds, less]

end Relation

/-- A difference of 64 bits is exact. -/
theorem sub_integers {x y : String} {a b : Int} (left : integer? x = some a)
    (right : integer? y = some b) (fits : fitsInt64 (a - b)) :
    arithmetic? .sub x y = some (.ofInt (a - b)) := by
  have difference : Operation.exact? .sub a b = some (a - b) := by
    unfold Operation.exact?
    simp [Option.filter, fits]
  simp [arithmetic?, left, right, difference]

end Element

private theorem Value.ofInt_eq_iff {a b : Int} (fits : fitsInt64 a) (fits' : fitsInt64 b) :
    Value.ofInt a = Value.ofInt b ↔ a = b := by
  refine ⟨fun same ↦ ?_, congrArg Value.ofInt⟩
  have digits : intDigits a = intDigits b := String.ofList_injective (Value.element.inj same)
  have read := int64?_intDigits fits
  rw [digits, int64?_intDigits fits'] at read
  exact (Option.some.inj read).symm

namespace Frame

open Element

variable {f : Frame} {clock : Nat} {p : Progress} {s : Segment} {x raw : String} {v : Value}
  {a b : Int}

variable (core : f.env.registry = .core) (time : f.scope.passed? clock = none)
  (present : (f.cursor p).segment? 0 = some s) (param : s.param = some raw)
  (fill : GivesAt clock (f.fill raw) v) (left : integer? x = some a)
  (right : integer? v.asElement = some b)
include core time present param fill left right

private theorem dispatch_relation {r : Relation} (key : s.key = r.name) :
    GivesAt clock (f.dispatch (.element x) p)
      (.ok (.ofBool (r.holds (nearest a) (nearest b))), p) :=
  dispatch_elementWith core time present param fill (key.trans r.lower_name.symm)
    r.mem_elementAttributes (r.compute_integers left right)

/-- Integers that rounding to 53 places tells apart are compared exactly: the comparisons agree with
the integers and with their difference, which is exact wherever it has 64 bits. -/
theorem dispatch_integers (apart : Apart a b) :
    (∀ r : Relation, s.key = r.name →
      GivesAt clock (f.dispatch (.element x) p) (.ok (.ofBool (r.holds a b)), p)) ∧
    (fitsInt64 (a - b) →
      (s.key = "sub" → GivesAt clock (f.dispatch (.element x) p) (.ok (.ofInt (a - b)), p)) ∧
      (Value.ofInt (a - b) = .element "0" ↔ Relation.equals.holds a b)) := by
  refine ⟨fun r key ↦ ?_, fun fits ↦ ⟨fun key ↦ ?_, ?_⟩⟩
  · rw [← r.holds_nearest apart]
    exact dispatch_relation core time present param fill left right key
  · have known : Core.elementWith "sub" (arithmetic? .sub) ∈ Core.elementAttributes := by
      simp [Core.elementAttributes]
    have lower : "sub" = Text.lower "sub" := rfl
    exact dispatch_elementWith core time present param fill (key.trans lower) known
      (sub_integers left right fits)
  · have zero : Value.element "0" = .ofInt 0 := rfl
    rw [zero, Value.ofInt_eq_iff fits (by decide), Relation.holds, decide_eq_true_eq]
    omega

omit core time present param fill left right

/-- A frame in whose chain an attribute with a parameter follows an element. -/
def comparing (key x y : String) : Frame :=
  let env : Env := { registry := .core }
  { env, scope := {}, fill := env.fillWithin 1 {}
    chain := {
      origin := "element[" ++ x ++ "]." ++ key ++ "[" ++ y ++ "]"
      root := ⟨"element", "element", some x, none⟩
      rest := [⟨key, key, some y, none⟩] } }

private theorem comparing_fill (key x : String) {y : String} (plain : '>' ∉ y.toList) :
    GivesAt 0 ((comparing key x y).fill y) (.element y) :=
  Env.fillWithin_plain plain 0 {}

/-- Integers past 53 places that are rounded to different ones. -/
theorem dispatch_integers_apart :
    let x := "9007199254740993"
    let y := "+9007199254740995"
    let p : Progress := { fulfilled := 1 }
    Apart 9007199254740993 9007199254740995 ∧
      GivesAt 0 ((comparing "equals" x y).dispatch (.element x) p) (.ok (.ofBool false), p) ∧
      GivesAt 0 ((comparing "is_less_than" x y).dispatch (.element x) p) (.ok (.ofBool true), p) ∧
      GivesAt 0 ((comparing "sub" x y).dispatch (.element x) p) (.ok (.ofInt (-2)), p) := by
  intro x y p
  have apart : Apart 9007199254740993 9007199254740995 := by decide +kernel
  have plain : '>' ∉ y.toList := by decide
  have left : integer? x = some 9007199254740993 := by decide +kernel
  have right : integer? (Value.element y).asElement = some 9007199254740995 := by decide +kernel
  have all (key : String) := dispatch_integers (f := comparing key x y) (p := p) rfl rfl rfl rfl
    (comparing_fill key x plain) left right apart
  exact ⟨apart, (all "equals").1 .equals rfl, (all "is_less_than").1 .isLessThan rfl,
    ((all "sub").2 (by decide)).1 rfl⟩

/-- Integers that are rounded to the same one are equal to the comparison, whatever their
difference. -/
theorem dispatch_integers_rounded :
    ¬ ∀ (f : Frame) (clock : Nat) (p : Progress) (s : Segment) (x raw : String) (v : Value)
      (a b : Int), f.env.registry = .core → f.scope.passed? clock = none →
      (f.cursor p).segment? 0 = some s → s.param = some raw → GivesAt clock (f.fill raw) v →
      integer? x = some a → integer? v.asElement = some b → ∀ r : Relation, s.key = r.name →
      GivesAt clock (f.dispatch (.element x) p) (.ok (.ofBool (r.holds a b)), p) := by
  intro claim
  let x := "9007199254740993"
  let y := "9007199254740992"
  have left : integer? x = some 9007199254740993 := by decide +kernel
  have right : integer? (Value.element y).asElement = some 9007199254740992 := by decide +kernel
  have fill := comparing_fill "equals" x (y := y) (by decide)
  have exact' :=
    claim (comparing "equals" x y) 0 { fulfilled := 1 } ⟨"equals", "equals", some y, none⟩
    x y (.element y) _ _ rfl rfl rfl rfl fill left right .equals rfl
  have given := dispatch_relation (f := comparing "equals" x y) (p := { fulfilled := 1 })
    (r := .equals) rfl rfl rfl rfl fill left right rfl
  have same := (exact'.result_eq (w := {}) Cache.faithful_empty).symm.trans
    (given.result_eq Cache.faithful_empty)
  have differ : Relation.equals.holds 9007199254740993 9007199254740992 = false := by decide +kernel
  have rounded :
      Relation.equals.holds (nearest 9007199254740993) (nearest 9007199254740992) = true := by
    decide +kernel
  rw [differ, rounded] at same
  simp [Value.ofBool] at same

end Frame

end TextTags
