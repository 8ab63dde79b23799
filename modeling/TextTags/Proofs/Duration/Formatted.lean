import TextTags.Proofs.Duration
import TextTags.Proofs.Number.Arithmetic
import TextTags.Proofs.Text.Pieces

/-!
# Durations for people

Written for people, a duration shows some of its years, days, hours, minutes and seconds. What it
shows is what the whole seconds are made of, less at most a part of the unit below the last one that
may be shown.
-/

namespace TextTags

open Number Text

namespace Number

/-- The whole part is the greatest whole number that is not above a number. -/
theorem wholePart_eq_floor (m : Nat) (e : Int) : wholePart m e = ⌊(m : ℚ) * 2 ^ e⌋₊ := by
  unfold wholePart
  simp only [Nat.pow_eq]
  split
  · next whole =>
    obtain ⟨k, rfl⟩ := Int.eq_ofNat_of_zero_le whole
    have value : (m : ℚ) * 2 ^ (k : Int) = (m * 2 ^ k : Nat) := by
      push_cast
      rw [zpow_natCast]
    rw [value, Nat.floor_natCast, Int.toNat_natCast]
  · next fraction =>
    obtain ⟨k, rfl⟩ : ∃ k : Nat, e = -k := ⟨(-e).toNat, by omega⟩
    have value : (m : ℚ) * 2 ^ (-k : Int) = (m : ℚ) / (2 ^ k : Nat) := by
      push_cast
      rw [zpow_neg, zpow_natCast, div_eq_mul_inv]
    rw [value, Nat.floor_div_eq_div, Int.neg_neg, Int.toNat_natCast]

end Number

namespace Duration

/-- The units that are shown. -/
inductive TimeUnit
  | year | day | hour | minute | second
deriving DecidableEq

namespace TimeUnit

/-- The units, the largest first. -/
def all : List TimeUnit := [year, day, hour, minute, second]

/-- The whole seconds of a unit. -/
def seconds : TimeUnit → Nat
  | year => 31536000
  | day => 86400
  | hour => 3600
  | minute => 60
  | second => 1

/-- How many of a unit make one of the next larger unit. -/
def limit? : TimeUnit → Option Nat
  | year => none
  | day => some 365
  | hour => some 24
  | minute => some 60
  | second => some 60

/-- The letter after a count. -/
def letter : TimeUnit → Char
  | year => 'y'
  | day => 'd'
  | hour => 'h'
  | minute => 'm'
  | second => 's'

/-- The word after a count of one. -/
def word : TimeUnit → String
  | year => "year"
  | day => "day"
  | hour => "hour"
  | minute => "minute"
  | second => "second"

/-- A count of a unit as it is written. -/
def written (words : Bool) (count : Nat) (u : TimeUnit) : String :=
  if words then toString count ++ " " ++ u.word ++ (if count = 1 then "" else "s")
  else (toString count).push u.letter

end TimeUnit

/-- How often a unit is among parts. -/
def countIn (parts : List (TimeUnit × Nat)) (u : TimeUnit) : Nat := (parts.lookup u).getD 0

/-- The seconds that parts denote. -/
def denoted (parts : List (TimeUnit × Nat)) : Nat := (parts.map fun p ↦ p.2 * p.1.seconds).sum

/-- Parts that tell the truth about a whole number of seconds: the larger units first, each at most
once and below its limit, and the smaller ones only where no larger one makes them needless. -/
structure Truthful (total : Nat) (parts : List (TimeUnit × Nat)) : Prop where
  ne_nil : parts ≠ []
  ordered : (parts.map (·.1)).Sublist TimeUnit.all
  positive : ∀ p ∈ parts, 0 < p.2
  lt_limit : ∀ p ∈ parts, ∀ limit ∈ p.1.limit?, p.2 < limit
  hours : 0 < countIn parts .hour → countIn parts .year = 0
  minutes : 0 < countIn parts .minute → countIn parts .year = 0 ∧ countIn parts .day = 0
  seconds : 0 < countIn parts .second → countIn parts .year = 0 ∧ countIn parts .day = 0 ∧
    countIn parts .hour = 0 ∧ countIn parts .minute < 10
  denoted_le : denoted parts ≤ total
  /-- What is left out is less than one of the last unit that may be shown. -/
  rest_lt : total - denoted parts <
    if 0 < countIn parts .year then TimeUnit.day.seconds
    else if 0 < countIn parts .day then TimeUnit.hour.seconds
    else if 0 < countIn parts .hour ∨ 10 ≤ countIn parts .minute then TimeUnit.minute.seconds
    else 1

/-- The units with their counts, those without one left out. -/
def kept (count : TimeUnit → Nat) (units : List TimeUnit) : List (TimeUnit × Nat) :=
  (units.map fun u ↦ (u, count u)).filter fun p ↦ 0 < p.2

variable {count : TimeUnit → Nat} {units : List TimeUnit}

private theorem kept_cons (u : TimeUnit) : kept count (u :: units) =
    if 0 < count u then (u, count u) :: kept count units else kept count units := by
  simp [kept, List.filter_cons]

private theorem mem_kept {p : TimeUnit × Nat} :
    p ∈ kept count units ↔ p.1 ∈ units ∧ p.2 = count p.1 ∧ 0 < p.2 := by
  obtain ⟨u, n⟩ := p
  simp only [kept, List.mem_filter, List.mem_map, Prod.mk.injEq, decide_eq_true_eq]
  constructor
  · rintro ⟨⟨_, mem, rfl, rfl⟩, pos⟩
    exact ⟨mem, rfl, pos⟩
  · rintro ⟨mem, rfl, pos⟩
    exact ⟨⟨u, mem, rfl, rfl⟩, pos⟩

private theorem sublist_kept : ((kept count units).map (·.1)).Sublist units := by
  have all : (units.map fun u ↦ (u, count u)).map (·.1) = units := by simp [Function.comp_def]
  conv => rhs; rw [← all]
  exact List.Sublist.map _ List.filter_sublist

private theorem denoted_kept :
    denoted (kept count units) = (units.map fun u ↦ count u * u.seconds).sum := by
  induction units with
  | nil => rfl
  | cons u rest ih =>
    rw [kept_cons, List.map_cons, List.sum_cons, ← ih]
    split
    · rfl
    · next hno =>
      obtain zero : count u = 0 := by omega
      rw [zero, Nat.zero_mul, Nat.zero_add]

private theorem countIn_of_notMem {u : TimeUnit} (absent : u ∉ units) :
    countIn (kept count units) u = 0 := by
  have hno : (kept count units).lookup u = none := by
    rw [List.lookup_eq_none_iff]
    intro p mem
    have among := (mem_kept.1 mem).1
    exact bne_iff_ne.2 fun same ↦ absent (same ▸ among)
  rw [countIn, hno, Option.getD_none]

/-- A unit that is left out counts as none. -/
theorem countIn_kept (nodup : units.Nodup) {u : TimeUnit} (mem : u ∈ units) :
    countIn (kept count units) u = count u := by
  induction units with
  | nil => contradiction
  | cons v rest ih =>
    obtain ⟨absent, nodup⟩ := List.nodup_cons.1 nodup
    rw [kept_cons]
    rcases List.mem_cons.1 mem with rfl | later
    · split
      · simp [countIn]
      · rw [countIn_of_notMem absent]
        omega
    · have other : u ≠ v := fun same ↦ absent (same ▸ later)
      split
      · simp only [countIn, List.lookup_cons, beq_eq_false_iff_ne.2 other]
        exact ih nodup later
      · exact ih nodup later

/-- The count of a unit that is shown of a whole number of seconds. -/
def shown (total : Nat) : TimeUnit → Nat
  | .year => total / 31536000
  | .day => total / 86400 % 365
  | .hour => if total / 31536000 = 0 then total / 3600 % 24 else 0
  | .minute => if total / 86400 = 0 then total / 60 % 60 else 0
  | .second => if total / 60 < 10 then total % 60 else 0

/-- The counts of a duration are those shown. -/
theorem counts_eq (total : Nat) : counts total =
    (kept (shown total) TimeUnit.all).map fun p ↦ ((p.2 : Int), p.1.letter, p.1.word) := by
  have same : counts total = ((TimeUnit.all.map fun u ↦ (u, shown total u)).map
      fun p ↦ ((p.2 : Int), p.1.letter, p.1.word)).filter fun part ↦ 0 < part.1 := by
    unfold counts
    refine congrArg (List.filter _) ?_
    simp only [TimeUnit.all, List.map_cons, List.map_nil, shown, TimeUnit.letter, TimeUnit.word,
      List.cons.injEq, Prod.mk.injEq, and_true]
    refine ⟨?_, ?_, ?_, ?_, ?_⟩
    · omega
    · omega
    all_goals split_ifs <;> omega
  rw [same, List.filter_map, kept]
  simp [Function.comp_def]

/-- What is shown are the whole seconds, cut to days if there are years, to hours if there are days,
and to minutes if there are ten. -/
theorem denoted_shown (total : Nat) : denoted (kept (shown total) TimeUnit.all) =
    if 0 < total / 31536000 then total / 86400 * 86400
    else if 0 < total / 86400 then total / 3600 * 3600
    else if 10 ≤ total / 60 then total / 60 * 60
    else total := by
  have sum (f : TimeUnit → Nat) : (TimeUnit.all.map f).sum =
      f .year + (f .day + (f .hour + (f .minute + f .second))) := rfl
  rw [denoted_kept, sum]
  simp only [shown, TimeUnit.seconds]
  split_ifs <;> omega

private theorem truthful_shown {total : Nat} (pos : 0 < total) :
    Truthful total (kept (shown total) TimeUnit.all) := by
  have nodup : TimeUnit.all.Nodup := by decide
  have count (u : TimeUnit) : countIn (kept (shown total) TimeUnit.all) u = shown total u :=
    countIn_kept nodup (by cases u <;> decide)
  refine ⟨?_, sublist_kept, fun p mem ↦ (mem_kept.1 mem).2.2, ?_, ?_, ?_, ?_, ?_, ?_⟩
  · intro hno
    have zero (u : TimeUnit) : shown total u = 0 := by
      rw [← count, hno]
      rfl
    have year := zero .year
    have day := zero .day
    have hour := zero .hour
    have minute := zero .minute
    have second := zero .second
    simp only [shown] at year day hour minute second
    split_ifs at hour minute second <;> omega
  · rintro ⟨u, n⟩ mem limit most
    obtain ⟨-, eq, -⟩ := mem_kept.1 mem
    dsimp only at eq most ⊢
    subst eq
    cases u <;> cases most <;> simp only [shown]
    · omega
    · split <;> omega
    · split <;> omega
    · split <;> omega
  · simp only [count, shown]
    split_ifs <;> omega
  · simp only [count, shown]
    split_ifs <;> omega
  · simp only [count, shown]
    split_ifs <;> omega
  · rw [denoted_shown]
    split_ifs <;> omega
  · rw [denoted_shown]
    simp only [count, shown, TimeUnit.seconds]
    split_ifs <;> omega

private theorem toList_written (words : Bool) (u : TimeUnit) (n : Nat) :
    part words n u.letter u.word = (u.written words n).toList := by
  have digits : intDigits n = (toString n).toList := by
    rw [intDigits, if_neg (by omega), Int.natAbs_natCast]
    exact String.toList_ofList.symm
  unfold part TimeUnit.written
  rw [digits]
  cases words with
  | false => simp
  | true =>
    by_cases single : n = 1
    · simp [single]
    · have plural : (n : Int) ≠ 1 := by omega
      simp [single, plural]

/-- Without its sign, a number of a whole part within 64 bits is cut to this part. -/
theorem truncate_abs {x : Float} {negative : Bool} {m : Nat} {e : Int} (h : IsFinite x negative m e)
    (fits : wholePart m e < 2 ^ 63) : truncate x.abs = wholePart m e := by
  rw [truncate, toWholeBy, h.abs.decode]
  simp only [clampInt64, signed, minInt64, maxInt64, Nat.pow_eq, Bool.false_eq_true, if_false]
  omega

private theorem lt_zero_iff {x : Float} {negative : Bool} {m : Nat} {e : Int}
    (h : IsFinite x negative m e) (pos : 0 < m) : x < 0.0 ↔ negative := by
  have nothing : rank false 0 (-1074) = 0 := rfl
  have above := magnitude_pos pos e
  rw [h.lt_iff_rank isFinite_zero, nothing, rank, signed]
  cases negative with
  | false => simp
  | true => simpa using above

/-- The text is that of the counts shown of the whole seconds, the same as letters and as words. -/
theorem formatted_eq {d : Duration} {total : Nat} (whole : truncate d.seconds.abs = total)
    (hne : 0 < total) (words : Bool) :
    d.formatted words = (if d.seconds < 0.0 then "negative " else "") ++ " ".intercalate
      ((kept (shown total) TimeUnit.all).map fun p ↦ p.1.written words p.2) := by
  set texts := (kept (shown total) TimeUnit.all).map fun p ↦ p.1.written words p.2 with texts_eq
  have parts : (kept (shown total) TimeUnit.all).map
      (fun p ↦ part words p.2 p.1.letter p.1.word) = texts.map String.toList := by
    rw [texts_eq, List.map_map]
    exact List.map_congr_left fun p _ ↦ toList_written words p.1 p.2
  have nonempty : (texts.map String.toList).isEmpty = false := by
    simpa [texts_eq] using (truthful_shown hne).ne_nil
  have body : joinWith [' '] (texts.map String.toList) = (" ".intercalate texts).toList := by
    rw [joinWith_eq_intercalate]
    exact (String.toList_intercalate (s := " ")).symm
  rw [formatted, formattedChars]
  simp only [whole, counts_eq, List.map_map, Function.comp_def, parts, nonempty, Bool.not_false,
    if_true, body]
  split
  · rw [String.ofList_append, String.ofList_toList, String.ofList_toList]
  · rw [String.ofList_toList, String.empty_append]

/-- A duration of a second or more shows parts that tell the truth about its whole seconds, the same
as letters and as words. -/
theorem formatted_truthful {d : Duration} {negative : Bool} {m : Nat} {e : Int} {total : Nat}
    (seconds : decode d.seconds = .finite negative m e) (whole : ⌊(m : ℚ) * 2 ^ e⌋₊ = total)
    (hne : 1 ≤ total) (fits : total < 2 ^ 63) :
    ∃ parts, Truthful total parts ∧ ∀ words, d.formatted words =
      (if negative then "negative " else "") ++
        " ".intercalate (parts.map fun p ↦ p.1.written words p.2) := by
  have number := isFinite_of_decode seconds
  rw [← wholePart_eq_floor] at whole
  subst whole
  have pos : 0 < m := by
    by_contra zero
    obtain rfl : m = 0 := by omega
    simp [wholePart] at hne
  refine ⟨_, truthful_shown hne, fun words ↦ ?_⟩
  rw [formatted_eq (truncate_abs number fits) hne]
  simp only [lt_zero_iff number pos]

/-- Of a year, a day, an hour and half a second the hour and what is below it are left out. -/
theorem formatted_truthful_year :
    (⟨-31626000.5⟩ : Duration).formatted true = "negative 1 year 1 day" ∧
      ∃ parts, Truthful 31626000 parts ∧ ∀ words, (⟨-31626000.5⟩ : Duration).formatted words =
        "negative " ++ " ".intercalate (parts.map fun p ↦ p.1.written words p.2) := by
  have seconds : decode (-31626000.5) = .finite true 8489539865673728 (-28) := by rfl
  have whole : ⌊((8489539865673728 : Nat) : ℚ) * 2 ^ (-28 : Int)⌋₊ = 31626000 :=
    (wholePart_eq_floor _ _).symm.trans (by decide)
  exact ⟨by decide +kernel, formatted_truthful (d := ⟨-31626000.5⟩) seconds whole (by decide)
    (by decide)⟩

end Duration

end TextTags
