import TextTags.Proofs.Duration
import TextTags.Proofs.Number.Integer
import TextTags.Proofs.Time.Calendar
import TextTags.Value.Basic

/-!
# Stamps read back

The stamp of a time of the calendar is read as that time where its year has four digits and no sign.
Before the year 0 and after the year 9999 the year is written with a sign, which no stamp can begin
with.
-/

namespace TextTags

open Text Number

namespace Stamp

private theorem length_padStart {width n : Nat} (pos : 0 < width) (h : n < 10 ^ width) :
    (padStart width '0' (natDigits n)).length = width := by
  have short := (Nat.length_toDigits_le_iff (b := 10) (by omega) pos).2 h
  simp only [padStart, natDigits, List.length_append, List.length_replicate]
  omega

private theorem digitsValue_padStart (width n : Nat) :
    digitsValue (padStart width '0' (natDigits n)) = n := by
  rw [padStart, digitsValue_zeros_append, digitsValue_natDigits]

/-- A number brought to a width is read as that many digits. -/
theorem digits?_padStart {width n : Nat} (pos : 0 < width) (h : n < 10 ^ width) (rest : List Char) :
    digits? width (padStart width '0' (natDigits n) ++ rest) = some (n, rest) := by
  have length := length_padStart pos h
  have digits : (padStart width '0' (natDigits n)).all isAsciiDigit :=
    List.all_eq_true.2 fun c mem ↦ isAsciiDigit_of_mem_padStart mem
  unfold digits?
  simp only [List.take_left' length, List.drop_left' length, length, digits, digitsValue_padStart]
  simp

private theorem digits?_two {n : Nat} (h : n < 100) (rest : List Char) :
    digits? 2 (CivilTime.twoDigits n ++ rest) = some (n, rest) :=
  digits?_padStart (by decide) h rest

private theorem mark?_cons (c : Char) (rest : List Char) :
    mark? c (c :: rest) = some rest := if_pos rfl

private theorem millis?_padStart {n : Nat} (h : n < 1000) :
    millis? ('.' :: (padStart 3 '0' (natDigits n) ++ ['Z'])) = some (n, ['Z']) := by
  have length : (padStart 3 '0' (natDigits n)).length = 3 := length_padStart (by decide) h
  have digits : ∀ c ∈ padStart 3 '0' (natDigits n), isAsciiDigit c := fun c mem ↦
    isAsciiDigit_of_mem_padStart mem
  obtain ⟨run, rest⟩ := takeWhile_digits digits ['Z'] (by simp; rfl)
  have hne : padStart 3 '0' (natDigits n) ≠ [] := List.ne_nil_of_length_pos (by omega)
  simp only [millis?, run, rest, List.take_left' length, digitsValue_padStart]
  simp [hne]

/-- A stamp begins with a digit. -/
theorem read?_eq_none {c : Char} (h : isAsciiDigit c = false) (rest : List Char) :
    read? (c :: rest) = none := by
  have hno : digits? 4 (c :: rest) = none := by
    simp [digits?, h]
  rw [read?, hno]
  rfl

/-- Five digits begin no stamp. -/
theorem read?_eq_none_of_digits {cs : List Char} (long : 4 < cs.length)
    (digits : ∀ c ∈ cs, isAsciiDigit c) : read? cs = none := by
  obtain ⟨c, rest, five⟩ := List.exists_cons_of_length_pos (l := cs.drop 4) (by simp; omega)
  have digit : isAsciiDigit c := digits c (List.mem_of_mem_drop (five ▸ List.mem_cons_self))
  have other : c ≠ '-' := by
    rintro rfl
    contradiction
  have four : digits? 4 cs = some (digitsValue (cs.take 4), c :: rest) := by
    unfold digits?
    rw [five]
    refine if_pos ⟨by simp; omega, List.all_eq_true.2 fun c mem ↦ ?_⟩
    exact digits c (List.mem_of_mem_take mem)
  have stops : mark? '-' (c :: rest) = none := if_neg other
  rw [read?, four]
  change (mark? '-' (c :: rest) >>= _) = none
  rw [stops]
  rfl

end Stamp

namespace CivilTime

/-- Whether the date and the time of day exist. -/
structure Exists (c : CivilTime) : Prop where
  date : c.date.isValid
  hour : c.hour < 24
  minute : c.minute < 60
  second : c.second < 60
  milli : c.milli < 1000

private theorem exists_ofMillis (millis : Int) : (ofMillis millis).Exists where
  date := Date.isValid_ofDays _
  hour := by
    unfold ofMillis millisPerDay
    dsimp only
    omega
  minute := Nat.mod_lt _ (by decide)
  second := Nat.mod_lt _ (by decide)
  milli := Nat.mod_lt _ (by decide)

private theorem toMillis_ofMillis (millis : Int) : (ofMillis millis).toMillis = millis := by
  obtain ⟨inDay, rest⟩ : ∃ n, n = (millis % millisPerDay).toNat := ⟨_, rfl⟩
  have whole : millis / millisPerDay * millisPerDay + inDay = millis := by
    unfold millisPerDay at *
    omega
  have parts : inDay / 3600000 * 3600000 + inDay / 60000 % 60 * 60000 + inDay / 1000 % 60 * 1000 +
      inDay % 1000 = inDay := by
    omega
  unfold toMillis ofMillis
  dsimp only
  rw [Date.toDays_ofDays, ← rest, parts, whole]

variable {c : CivilTime}

private theorem bounds_of_isValid {d : Date} (h : d.isValid) : d.month < 100 ∧ d.day < 100 := by
  simp only [Date.isValid, Bool.and_eq_true, decide_eq_true_eq] at h
  have days : daysInMonth d.year d.month ≤ 31 := by
    unfold daysInMonth
    split
    · split <;> decide
    · split <;> decide
  omega

/-- The stamp of a time that exists is read as the time, if its year has four digits and no sign. -/
theorem read?_stamp (h : c.Exists) (positive : 0 ≤ c.date.year) (four : c.date.year ≤ 9999) :
    Stamp.read? c.stamp = some c.toMillis := by
  obtain ⟨month, day⟩ := bounds_of_isValid h.date
  have hour := h.hour
  have minute := h.minute
  have second := h.second
  obtain ⟨y, year⟩ : ∃ y : Nat, c.date.year = y := Int.eq_ofNat_of_zero_le positive
  have few : y < 10 ^ 4 := by omega
  have years : yearChars c.date.year = padStart 4 '0' (natDigits y) := by
    rw [yearChars, if_pos ⟨positive, four⟩, year]
    rfl
  have shape : c.stamp = padStart 4 '0' (natDigits y) ++ '-' :: (twoDigits c.date.month ++ '-' ::
      (twoDigits c.date.day ++ 'T' :: (twoDigits c.hour ++ ':' :: (twoDigits c.minute ++ ':' ::
        (twoDigits c.second ++ '.' :: (padStart 3 '0' (natDigits c.milli) ++ ['Z'])))))) := by
    simp [stamp, dateChars, clockChars, years]
  have civil :
      (⟨⟨y, c.date.month, c.date.day⟩, c.hour, c.minute, c.second, c.milli⟩ : CivilTime) = c := by
    rw [← year]
  rw [shape]
  refine Option.bind_eq_some_iff.2 ⟨_, Stamp.digits?_padStart (by decide) few _, ?_⟩
  refine Option.bind_eq_some_iff.2 ⟨_, Stamp.mark?_cons _ _, ?_⟩
  refine Option.bind_eq_some_iff.2 ⟨_, Stamp.digits?_two month _, ?_⟩
  refine Option.bind_eq_some_iff.2 ⟨_, Stamp.mark?_cons _ _, ?_⟩
  refine Option.bind_eq_some_iff.2 ⟨_, Stamp.digits?_two day _, ?_⟩
  refine Option.bind_eq_some_iff.2 ⟨_, rfl, ?_⟩
  refine Option.bind_eq_some_iff.2 ⟨_, Stamp.digits?_two (by omega) _, ?_⟩
  refine Option.bind_eq_some_iff.2 ⟨_, Stamp.mark?_cons _ _, ?_⟩
  refine Option.bind_eq_some_iff.2 ⟨_, Stamp.digits?_two (by omega) _, ?_⟩
  refine Option.bind_eq_some_iff.2 ⟨_, Stamp.mark?_cons _ _, ?_⟩
  refine Option.bind_eq_some_iff.2 ⟨_, Stamp.digits?_two (by omega) _, ?_⟩
  refine Option.bind_eq_some_iff.2 ⟨_, Stamp.millis?_padStart h.milli, ?_⟩
  refine Option.bind_eq_some_iff.2 ⟨0, rfl, ?_⟩
  rw [civil]
  refine (if_pos ⟨h.date, hour, minute, Nat.le_of_lt second⟩).trans ?_
  rw [Int.zero_mul, Int.sub_zero]

/-- Other years are written with a sign. -/
theorem exists_sign (h : ¬(0 ≤ c.date.year ∧ c.date.year ≤ 9999)) :
    ∃ sign rest, c.stamp = sign :: rest ∧ (sign = '-' ∨ sign = '+') ∧ '-' ∈ rest := by
  have year : yearChars c.date.year = (if c.date.year < 0 then '-' else '+') ::
      padStart 4 '0' (natDigits c.date.year.natAbs) := by
    rw [yearChars, if_neg h]
  refine ⟨if c.date.year < 0 then '-' else '+', _, by rw [stamp, dateChars, year]; rfl, ?_, ?_⟩
  · split <;> simp
  · simp

end CivilTime

namespace Time

variable {t : Time}

/-- The characters of identities that are no digits. -/
def identityMarks : List Char := ['-', '+', ':', '.', 'T', 'Z', 't', 'i', 'm', 'e', '@']

/-- A character of the identity of a time. -/
def isIdentityChar (c : Char) : Bool := isAsciiDigit c || identityMarks.contains c

private theorem isBlank_of_isIdentityChar {c : Char} (h : isIdentityChar c) :
    isBlank c = false := by
  rcases Bool.or_eq_true_iff.1 h with digit | special
  · have range := toNat_of_isAsciiDigit digit
    simp only [isBlank, inRanges, blankRanges, List.any_cons, List.any_nil, Bool.or_false,
      Bool.or_eq_false_iff, Bool.and_eq_false_iff, decide_eq_false_iff_not]
    omega
  · have mem := List.contains_iff_mem.1 special
    simp only [identityMarks, List.mem_cons, List.not_mem_nil, or_false] at mem
    rcases mem with rfl | rfl | rfl | rfl | rfl | rfl | rfl | rfl | rfl | rfl | rfl <;> decide

private theorem isIdentityChar_of_mem {c : Char} (h : c ∈ t.identityChars) : isIdentityChar c := by
  have special (mem : c ∈ identityMarks) : isIdentityChar c := by
    simp [isIdentityChar, mem]
  have digits {n : Nat} (mem : c ∈ natDigits n) : isIdentityChar c := by
    simp [isIdentityChar, isAsciiDigit_of_mem_natDigits mem]
  have padded {width n : Nat} (mem : c ∈ padStart width '0' (natDigits n)) : isIdentityChar c := by
    simp [isIdentityChar, isAsciiDigit_of_mem_padStart mem]
  have year {y : Int} (mem : c ∈ CivilTime.yearChars y) : isIdentityChar c := by
    unfold CivilTime.yearChars at mem
    split at mem
    · exact padded mem
    · rcases List.mem_cons.1 mem with rfl | mem
      · split <;> decide
      · exact padded mem
  simp only [identityMarks, List.mem_cons, List.not_mem_nil, or_false] at special
  unfold identityChars at h
  split at h
  · simp only [mark, CivilTime.stamp, CivilTime.dateChars, CivilTime.clockChars,
      CivilTime.twoDigits, List.mem_append, List.mem_cons, List.not_mem_nil, or_false] at h
    grind
  · simp only [mark, intDigits_eq, floatChars.sign, List.mem_append, List.mem_cons,
      List.not_mem_nil, or_false] at h
    grind

/-! ## The identity -/

/-- A text after the mark of a time is read as a stamp or else as a number. -/
theorem ofChars?_mark {body : List Char} (plain : ∀ c ∈ mark ++ body, isBlank c = false) :
    ofChars? (mark ++ body) =
      ((Stamp.read? body).or (int64? body)).map fun millis ↦ ⟨Int64.ofInt millis⟩ := by
  have start : dropStart? mark (mark ++ body) = some body := by
    simp [dropStart?, sameIgnoringCase]
  unfold ofChars?
  dsimp only
  rw [trim_eq_self plain, start, Option.getD_some]
  cases Stamp.read? body <;> rfl

/-- The first millisecond of a year. -/
def startOfYear (year : Int) : Int := (⟨⟨year, 1, 1⟩, 0, 0, 0, 0⟩ : CivilTime).toMillis

private theorem le_year_ofMillis_iff (year millis : Int) :
    year ≤ (CivilTime.ofMillis millis).date.year ↔ startOfYear year ≤ millis := by
  have days : startOfYear year = (⟨year, 1, 1⟩ : Date).toDays * millisPerDay := by
    simp [startOfYear, CivilTime.toMillis]
  have whole : (⟨year, 1, 1⟩ : Date).toDays ≤ millis / millisPerDay ↔
      (⟨year, 1, 1⟩ : Date).toDays * millisPerDay ≤ millis :=
    Int.le_ediv_iff_mul_le (by unfold millisPerDay; omega)
  rw [days, ← whole]
  exact Date.le_year_ofDays_iff year _

/-- Whether the identity of a time is a number alone, or a stamp with a year of four digits. -/
def IsPlain (t : Time) : Prop :=
  t.millis.toInt < firstMillis ∨ lastMillis < t.millis.toInt ∨
    startOfYear 0 ≤ t.millis.toInt ∧ t.millis.toInt < startOfYear 10000

instance (t : Time) : Decidable t.IsPlain := by unfold IsPlain; infer_instance

/-- An integer of 64 bits fits into them. -/
theorem fitsInt64_toInt (n : Int64) : fitsInt64 n.toInt := by
  have low := n.le_toInt
  have high := n.toInt_lt
  rw [fitsInt64_iff, minInt64, maxInt64]
  simp only [Nat.pow_eq]
  omega

/-- Outside the range of the calendar the number has more than four digits. -/
theorem ofChars?_outside (outside : t.civil? = none) : ofChars? t.identityChars = some t := by
  have far : t.millis.toInt < firstMillis ∨ lastMillis < t.millis.toInt := by
    unfold civil? at outside
    grind
  have chars : t.identityChars = mark ++ intDigits t.millis.toInt := by
    rw [identityChars, outside]
  have plain : ∀ c ∈ mark ++ intDigits t.millis.toInt, isBlank c = false := fun c mem ↦
    isBlank_of_isIdentityChar (isIdentityChar_of_mem (chars ▸ mem))
  have hno : Stamp.read? (intDigits t.millis.toInt) = none := by
    unfold intDigits
    split
    · exact Stamp.read?_eq_none rfl _
    · refine Stamp.read?_eq_none_of_digits ?_ fun c mem ↦ isAsciiDigit_of_mem_natDigits mem
      refine Nat.lt_of_not_le fun few ↦ ?_
      have small := Nat.lt_of_lt_of_le (lt_pow_length t.millis.toInt.natAbs)
        (Nat.pow_le_pow_right (by decide) few)
      unfold firstMillis lastMillis at far
      omega
  rw [chars, ofChars?_mark plain, hno, int64?_intDigits (fitsInt64_toInt _)]
  simp

/-- Inside it the stamp is read back if its year has four digits and no sign, and else nothing is
read. -/
theorem ofChars?_inside {c : CivilTime} (inside : t.civil? = some c) :
    ofChars? t.identityChars =
      if 0 ≤ c.date.year ∧ c.date.year ≤ 9999 then some t else none := by
  have civil : c = CivilTime.ofMillis t.millis.toInt := by
    unfold civil? at inside
    grind
  have chars : t.identityChars = mark ++ c.stamp := by
    rw [identityChars, inside]
  have plain : ∀ a ∈ mark ++ c.stamp, isBlank a = false := fun a mem ↦
    isBlank_of_isIdentityChar (isIdentityChar_of_mem (chars ▸ mem))
  rw [chars, ofChars?_mark plain]
  split
  · next four =>
    rw [CivilTime.read?_stamp (civil ▸ CivilTime.exists_ofMillis _) four.1 four.2, civil,
      CivilTime.toMillis_ofMillis]
    simp
  · next signed =>
    obtain ⟨sign, rest, stamp, known, dash⟩ := CivilTime.exists_sign signed
    have unread : Stamp.read? (sign :: rest) = none := by
      rcases known with rfl | rfl <;> exact Stamp.read?_eq_none rfl rest
    have body : (takeSign (sign :: rest)).2 = rest := by
      rcases known with rfl | rfl <;> rfl
    have uncounted : int64? (sign :: rest) = none := by
      refine Option.eq_none_iff_forall_ne_some.2 fun n read ↦ ?_
      obtain ⟨-, digits, -⟩ := int64?_eq_some_iff.1 read
      exact absurd (digits '-' (by rwa [body])) (by decide)
    rw [stamp, unread, uncounted]
    rfl

/-- The identity of a time is read back exactly where it is a number alone or a stamp whose year has
four digits and no sign. The years before the year 0 and after the year 9999 are lost. -/
theorem ofText?_identity (t : Time) :
    ofText? (Value.time t).identity = if t.IsPlain then some t else none := by
  have chars : ofText? (Value.time t).identity = ofChars? t.identityChars := by
    rw [ofText?, Value.identity, String.toList_ofList, Value.identityChars]
  rw [chars]
  cases civil : t.civil? with
  | none =>
    have plain : t.IsPlain := by
      unfold civil? at civil
      unfold IsPlain
      grind
    rw [ofChars?_outside civil, if_pos plain]
  | some c =>
    have first := le_year_ofMillis_iff 0 t.millis.toInt
    have last := le_year_ofMillis_iff 10000 t.millis.toInt
    have plain : t.IsPlain ↔ 0 ≤ c.date.year ∧ c.date.year ≤ 9999 := by
      unfold civil? at civil
      unfold IsPlain
      grind
    rw [ofChars?_inside civil]
    simp only [plain]

example : startOfYear 0 = -62167219200000 ∧ startOfYear 10000 = 253402300800000 := by decide

/-- The first millisecond of the year 10000 is written with a plus, and not read back. -/
theorem ofText?_identity_lost :
    (Value.time ⟨253402300800000⟩).identity = "time@+10000-01-01T00:00:00.000Z" ∧
      ofText? (Value.time ⟨253402300800000⟩).identity ≠ some ⟨253402300800000⟩ := by
  decide +kernel

end Time

end TextTags
