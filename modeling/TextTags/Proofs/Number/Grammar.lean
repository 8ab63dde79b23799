import TextTags.Element
import TextTags.Proofs.Number.Reading
import TextTags.Proofs.Text.Case

/-!
# The grammar of decimal numerals

A numeral is read exactly where the grammar has it, whatever characters count as digits. A text that
is a numeral in the digits of all scripts stands for a number exactly where all of its digits are
those from 0 to 9.
-/

namespace TextTags

open Text

namespace Number

/-- A sign that may be missing. -/
def IsSign (cs : List Char) : Prop := cs = [] ∨ cs = ['+'] ∨ cs = ['-']

/-- Digits, of which there is at least one. -/
def IsDigits (isDigit : Char → Bool) (cs : List Char) : Prop := cs ≠ [] ∧ ∀ c ∈ cs, isDigit c

/-- Digits with an optional point and further digits, or a point followed by digits. -/
inductive IsMantissa (isDigit : Char → Bool) : List Char → Prop
  | whole {digits} : IsDigits isDigit digits → IsMantissa isDigit digits
  | point {digits further} : IsDigits isDigit digits → (∀ c ∈ further, isDigit c) →
      IsMantissa isDigit (digits ++ '.' :: further)
  | fraction {digits} : IsDigits isDigit digits → IsMantissa isDigit ('.' :: digits)

/-- An exponent that may be missing. -/
inductive IsExponent (isDigit : Char → Bool) : List Char → Prop
  | absent : IsExponent isDigit []
  | present {mark sign digits} : mark = 'e' ∨ mark = 'E' → IsSign sign → IsDigits isDigit digits →
      IsExponent isDigit (mark :: (sign ++ digits))

/-- A decimal numeral over the given digits. -/
inductive IsDecimal (isDigit : Char → Bool) : List Char → Prop
  | mk {sign mantissa exponent} : IsSign sign → IsMantissa isDigit mantissa →
      IsExponent isDigit exponent → IsDecimal isDigit (sign ++ (mantissa ++ exponent))

/-- The characters of a numeral besides its digits. -/
def numeralMarks : List Char := ['+', '-', '.', 'e', 'E']

variable {isDigit isDigit' : Char → Bool} {cs : List Char}

private theorem IsDigits.imp (h : IsDigits isDigit cs) (le : ∀ c ∈ cs, isDigit c → isDigit' c) :
    IsDigits isDigit' cs :=
  ⟨h.1, fun c mem ↦ le c mem (h.2 c mem)⟩

private theorem IsMantissa.imp (h : IsMantissa isDigit cs) (le : ∀ c ∈ cs, isDigit c → isDigit' c) :
    IsMantissa isDigit' cs := by
  cases h with
  | whole digits => exact .whole (digits.imp le)
  | point digits further =>
    rw [List.forall_mem_append, List.forall_mem_cons] at le
    exact .point (digits.imp le.1) fun c mem ↦ le.2.2 c mem (further c mem)
  | fraction digits => exact .fraction (digits.imp (List.forall_mem_cons.1 le).2)

private theorem IsExponent.imp (h : IsExponent isDigit cs) (le : ∀ c ∈ cs, isDigit c → isDigit' c) :
    IsExponent isDigit' cs := by
  cases h with
  | absent => exact .absent
  | present mark sign digits =>
    rw [List.forall_mem_cons, List.forall_mem_append] at le
    exact .present mark sign (digits.imp le.2.2)

/-- A numeral is one over all digits that count its own. -/
theorem IsDecimal.imp (h : IsDecimal isDigit cs) (le : ∀ c ∈ cs, isDigit c → isDigit' c) :
    IsDecimal isDigit' cs := by
  cases h with
  | mk sign mantissa exponent =>
    rw [List.forall_mem_append, List.forall_mem_append] at le
    exact .mk sign (mantissa.imp le.2.1) (exponent.imp le.2.2)

private theorem IsSign.mem (h : IsSign cs) {c : Char} (mem : c ∈ cs) : c ∈ numeralMarks := by
  rcases h with rfl | rfl | rfl
  · contradiction
  all_goals
    obtain rfl := List.mem_singleton.1 mem
    decide

/-- A numeral has digits and marks alone. -/
theorem IsDecimal.mem (h : IsDecimal isDigit cs) {c : Char} (mem : c ∈ cs) :
    isDigit c ∨ c ∈ numeralMarks := by
  cases h with
  | mk sign mantissa exponent =>
    rcases List.mem_append.1 mem with mem | mem
    · exact .inr (sign.mem mem)
    rcases List.mem_append.1 mem with mem | mem
    · cases mantissa with
      | whole digits => exact .inl (digits.2 c mem)
      | point digits further =>
        rcases List.mem_append.1 mem with mem | mem
        · exact .inl (digits.2 c mem)
        rcases List.mem_cons.1 mem with rfl | mem
        · exact .inr (by decide)
        · exact .inl (further c mem)
      | fraction digits =>
        rcases List.mem_cons.1 mem with rfl | mem
        · exact .inr (by decide)
        · exact .inl (digits.2 c mem)
    · cases exponent with
      | absent => contradiction
      | present mark sign digits =>
        rcases List.mem_cons.1 mem with rfl | mem
        · rcases mark with rfl | rfl <;> exact .inr (by decide)
        rcases List.mem_append.1 mem with mem | mem
        · exact .inr (sign.mem mem)
        · exact .inl (digits.2 c mem)

/-! ## Reading -/

/-- A sign is parted from what follows it. -/
theorem exists_sign (cs : List Char) : ∃ sign, IsSign sign ∧ cs = sign ++ (takeSign cs).2 := by
  unfold takeSign
  split
  · exact ⟨['-'], .inr (.inr rfl), rfl⟩
  · exact ⟨['+'], .inr (.inl rfl), rfl⟩
  · exact ⟨[], .inl rfl, rfl⟩

private theorem takeSign_append {sign rest : List Char} (h : IsSign sign)
    (next : ∀ c ∈ rest.head?, c ≠ '+' ∧ c ≠ '-') : (takeSign (sign ++ rest)).2 = rest := by
  rcases h with rfl | rfl | rfl
  · cases rest with
    | nil => rfl
    | cons c rest =>
      obtain ⟨plus, minus⟩ := next c rfl
      simp [takeSign, plus, minus]
  · rfl
  · rfl

private theorem isSome_numeral? (isDigit : Char → Bool) (cs : List Char) :
    (numeral? isDigit cs).isSome ↔
      let unsigned := (takeSign cs).2
      let after := takeFraction isDigit (unsigned.dropWhile isDigit)
      ¬ (unsigned.takeWhile isDigit = [] ∧ after.1 = []) ∧ (exponent? isDigit after.2).isSome := by
  simp only [numeral?]
  generalize takeFraction isDigit _ = after
  generalize (takeSign cs).2.takeWhile isDigit = whole
  cases exponent? isDigit after.2 <;> cases whole <;> cases after.1 <;> simp

private theorem ne_signs {c : Char} (other : c ∉ numeralMarks) : c ≠ '+' ∧ c ≠ '-' := by
  constructor <;> (rintro rfl; exact other (by decide))

section

variable (plain : ∀ c ∈ numeralMarks, isDigit c = false)
include plain

private theorem IsDigits.head (h : IsDigits isDigit cs) {rest : List Char} {c : Char}
    (first : c ∈ (cs ++ rest).head?) : c ∉ numeralMarks := by
  obtain ⟨d, digits, rfl⟩ := List.exists_cons_of_ne_nil h.1
  obtain rfl : d = c := by simpa using first
  intro mark
  have digit := h.2 d List.mem_cons_self
  rw [plain d mark] at digit
  contradiction

private theorem takeSign_digits {sign : List Char} (isSign : IsSign sign)
    (h : IsDigits isDigit cs) :
    (takeSign (sign ++ cs)).2 = cs := by
  refine takeSign_append isSign fun c first ↦ ?_
  rw [← List.append_nil cs] at first
  exact ne_signs (h.head plain first)

private theorem exponent?_iff : (exponent? isDigit cs).isSome ↔ IsExponent isDigit cs := by
  constructor
  · intro read
    unfold exponent? at read
    split at read
    · exact .absent
    · next c rest =>
      split at read
      · next mark =>
        obtain ⟨sign, isSign, eq⟩ := exists_sign rest
        dsimp only at read
        split at read
        · contradiction
        · next digits =>
          rw [not_or] at digits
          rw [eq]
          exact .present mark isSign ⟨by simpa using digits.1, by simpa using digits.2⟩
      · contradiction
  · rintro (_ | ⟨mark, sign, digits⟩)
    · rfl
    · have parted := takeSign_digits plain sign digits
      have all := List.all_eq_true.2 digits.2
      simp [exponent?, mark, parted, all, digits.1]

/-- After the digits and the point of a numeral comes no digit. -/
theorem IsExponent.head (h : IsExponent isDigit cs) : ∀ c ∈ cs.head?, isDigit c = false := by
  cases h with
  | absent => exact nofun
  | present mark =>
    rintro c ⟨⟩
    rcases mark with rfl | rfl <;> exact plain _ (by decide)

private theorem IsMantissa.head (h : IsMantissa isDigit cs) {rest : List Char} :
    ∀ c ∈ (cs ++ rest).head?, c ≠ '+' ∧ c ≠ '-' := by
  intro c first
  cases h with
  | whole digits => exact ne_signs (digits.head plain first)
  | point digits further =>
    rw [List.append_assoc] at first
    exact ne_signs (digits.head plain first)
  | fraction digits =>
    cases first
    decide

omit plain in
private theorem takeFraction_cases (isDigit : Char → Bool) (cs : List Char) :
    (∃ rest, cs = '.' :: rest ∧
      takeFraction isDigit cs = (rest.takeWhile isDigit, rest.dropWhile isDigit)) ∨
    takeFraction isDigit cs = ([], cs) := by
  unfold takeFraction
  split
  · exact .inl ⟨_, rfl, rfl⟩
  · exact .inr rfl

omit plain in
/-- What is read before an exponent is a mantissa where it has a digit. -/
theorem exists_mantissa {unsigned : List Char}
    (hne : ¬ (unsigned.takeWhile isDigit = [] ∧
      (takeFraction isDigit (unsigned.dropWhile isDigit)).1 = [])) :
    ∃ mantissa, IsMantissa isDigit mantissa ∧
      unsigned = mantissa ++ (takeFraction isDigit (unsigned.dropWhile isDigit)).2 := by
  have all (cs : List Char) : ∀ c ∈ cs.takeWhile isDigit, isDigit c :=
    List.all_eq_true.1 List.all_takeWhile
  have parts := List.takeWhile_append_dropWhile (p := isDigit) (l := unsigned)
  rcases takeFraction_cases isDigit (unsigned.dropWhile isDigit) with
    ⟨rest, point, eq⟩ | eq
  all_goals rw [eq] at hne ⊢
  · have whole : unsigned = unsigned.takeWhile isDigit ++
        '.' :: rest.takeWhile isDigit ++ rest.dropWhile isDigit := by
      rw [List.append_assoc, List.cons_append, List.takeWhile_append_dropWhile, ← point, parts]
    refine ⟨_, ?_, whole⟩
    by_cases hno : unsigned.takeWhile isDigit = []
    · rw [hno]
      exact .fraction ⟨fun empty ↦ hne ⟨hno, empty⟩, all rest⟩
    · exact .point ⟨hno, all unsigned⟩ (all rest)
  · exact ⟨_, .whole ⟨fun hno ↦ hne ⟨hno, rfl⟩, all unsigned⟩, parts.symm⟩

/-- A mantissa is read up to the exponent. -/
theorem takeFraction_append {mantissa exponent : List Char} (h : IsMantissa isDigit mantissa)
    (h' : IsExponent isDigit exponent) :
    ¬ ((mantissa ++ exponent).takeWhile isDigit = [] ∧
      (takeFraction isDigit ((mantissa ++ exponent).dropWhile isDigit)).1 = []) ∧
    (takeFraction isDigit ((mantissa ++ exponent).dropWhile isDigit)).2 = exponent := by
  have mark : isDigit '.' = false := plain '.' (by decide)
  have unpointed : takeFraction isDigit exponent = ([], exponent) := by
    rcases h' with _ | ⟨rfl | rfl, -, -⟩ <;> rfl
  cases h with
  | whole digits =>
    obtain ⟨whole, rest⟩ := takeWhile_digits digits.2 exponent (h'.head plain)
    rw [whole, rest, unpointed]
    exact ⟨fun hno ↦ digits.1 hno.1, rfl⟩
  | @point digits further isDigits all =>
    obtain ⟨whole, rest⟩ := takeWhile_digits isDigits.2 ('.' :: (further ++ exponent))
      (by rintro c ⟨⟩; exact mark)
    obtain ⟨-, last⟩ := takeWhile_digits all exponent (h'.head plain)
    rw [List.append_assoc, List.cons_append, whole, rest, takeFraction, last]
    exact ⟨fun hno ↦ isDigits.1 hno.1, rfl⟩
  | fraction digits =>
    obtain ⟨fraction, last⟩ := takeWhile_digits digits.2 exponent (h'.head plain)
    simp [mark, takeFraction, fraction, last, digits.1]

private theorem numeral?_iff : (numeral? isDigit cs).isSome ↔ IsDecimal isDigit cs := by
  rw [isSome_numeral?]
  dsimp only
  constructor
  · rintro ⟨hne, read⟩
    obtain ⟨sign, isSign, eq⟩ := exists_sign cs
    obtain ⟨mantissa, isMantissa, eq'⟩ := exists_mantissa hne
    rw [eq, eq']
    exact .mk isSign isMantissa ((exponent?_iff plain).1 read)
  · rintro ⟨sign, mantissa, exponent⟩
    obtain ⟨hne, rest⟩ := takeFraction_append plain mantissa exponent
    rw [takeSign_append sign (mantissa.head plain), rest]
    exact ⟨hne, (exponent?_iff plain).2 exponent⟩

end

/-! ## The digits 0 to 9 and those of all scripts -/

private theorem isDecimalDigit_marks : ∀ c ∈ numeralMarks, isDecimalDigit c = false := by
  have hno : numeralMarks.all fun c ↦ !isDecimalDigit c := by decide +kernel
  intro c mem
  simpa using List.all_eq_true.1 hno c mem

private theorem isDecimalDigit_of_isAsciiDigit {c : Char} (h : isAsciiDigit c) :
    isDecimalDigit c := by
  obtain ⟨low, high⟩ := toNat_of_isAsciiDigit h
  have first : (48, 57) ∈ digitRanges := by decide
  exact List.any_eq_true.2 ⟨_, first, by simp [low, high]⟩

private theorem isAsciiDigit_marks : ∀ c ∈ numeralMarks, isAsciiDigit c = false := by
  intro c mem
  rw [Bool.eq_false_iff]
  intro digit
  have decimal := isDecimalDigit_of_isAsciiDigit digit
  rw [isDecimalDigit_marks c mem] at decimal
  contradiction

private theorem isNumeral_iff : isNumeral cs ↔ IsDecimal isDecimalDigit cs :=
  numeral?_iff isDecimalDigit_marks

private theorem isSome_float?_iff : (float? cs).isSome ↔ IsDecimal isAsciiDigit cs := by
  rw [float?, Option.isSome_map]
  exact numeral?_iff isAsciiDigit_marks

/-- The numerals in the digits 0 to 9 are those in the digits of all scripts without a digit of
another script. -/
theorem isDecimal_ascii_iff : IsDecimal isAsciiDigit cs ↔
    IsDecimal isDecimalDigit cs ∧ ∀ c ∈ cs, isDecimalDigit c → isAsciiDigit c := by
  constructor
  · intro h
    refine ⟨h.imp fun c _ ↦ isDecimalDigit_of_isAsciiDigit, fun c mem digit ↦ ?_⟩
    rcases h.mem mem with ascii | mark
    · exact ascii
    · rw [isDecimalDigit_marks c mark] at digit
      contradiction
  · rintro ⟨h, ascii⟩
    exact h.imp ascii

/-- Each of the words for numbers has a letter that no numeral has. -/
theorem wordFloat?_of_isDecimal (h : IsDecimal isDecimalDigit cs) : wordFloat? cs = none := by
  obtain ⟨sign, -, eq⟩ := exists_sign cs
  have letter : 'n' ∉ asciiLowerChars (takeSign cs).2 := by
    intro mem
    obtain ⟨c, mem, low⟩ := List.mem_map.1 mem
    have inside : c ∈ cs := by
      rw [eq]
      exact List.mem_append_right _ mem
    have named : c = 'n' ∨ c = 'N' := by
      by_cases capital : 'A' ≤ c ∧ c ≤ 'Z'
      · have range := isCapital_iff.1 capital
        have code : (asciiLower c).toNat = c.toNat + 32 := by
          rw [asciiLower, if_pos capital]
          exact toNat_ofNat (.inl (by omega))
        rw [low] at code
        have same : c.toNat = 78 := by
          have : 'n'.toNat = 110 := rfl
          omega
        exact .inr (by rw [← Char.ofNat_toNat c, same])
      · rw [asciiLower, if_neg capital] at low
        exact .inl low
    rcases named with rfl | rfl
    all_goals exact absurd (h.mem inside) (by decide +kernel)
  simp only [wordFloat?]
  rw [if_neg, if_neg]
  · intro same
    exact letter (by rw [same]; decide)
  · rintro (same | same)
    all_goals exact letter (by rw [same]; decide)

end Number

namespace Element

open Number

/-- A text that is a numeral in the digits of any script is a number exactly where all of its digits
are those from 0 to 9, and so where it has the form of a decimal in these; the words for numbers
are none. -/
theorem number?_isDecimal (text : String) :
    number? text = (if isDecimal text then anyFloat? (trim text.toList) else none) ∧
    (isDecimal text ↔ IsDecimal isDecimalDigit (trim text.toList)) ∧
    ((number? text).isSome ↔ IsDecimal isAsciiDigit (trim text.toList)) ∧
    ((number? text).isSome ↔
      isDecimal text ∧ ∀ c ∈ trim text.toList, isDecimalDigit c → isAsciiDigit c) := by
  have decimal : isDecimal text ↔ IsDecimal isDecimalDigit (trim text.toList) := isNumeral_iff
  have number : (number? text).isSome ↔ IsDecimal isAsciiDigit (trim text.toList) :=
    isSome_float?_iff
  have both := number.trans isDecimal_ascii_iff
  rw [← decimal] at both
  refine ⟨?_, decimal, number, both⟩
  split
  · next numeral =>
    rw [anyFloat?, wordFloat?_of_isDecimal (decimal.1 numeral), Option.or_none]
    rfl
  · next other =>
    rw [← Option.not_isSome_iff_eq_none, both]
    exact fun h ↦ other h.1

/-- A digit of another script is a numeral and no number. -/
theorem number?_isDecimal_otherScript :
    ¬ ∀ text : String, (isDecimal text ↔ (number? text).isSome) ∧
      ((number? text).isSome ↔ IsDecimal isAsciiDigit (trim text.toList)) := by
  intro claim
  have decimal : isDecimal "٣" := by decide +kernel
  have hno : ¬ (number? "٣").isSome := by decide +kernel
  exact hno ((claim "٣").1.1 decimal)

end Element

end TextTags
