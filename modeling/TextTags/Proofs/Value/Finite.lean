import TextTags.Element
import TextTags.Host.Custom
import TextTags.Proofs.Entries
import TextTags.Proofs.Number.Range
import TextTags.Proofs.Value.Identity

/-!
# Values of finite durations

A duration of infinitely many seconds has an identity that does not read as a duration. What reads
as one is finite, wherever in a value it stands, and the durations of a value are those of its
parts.
-/

namespace TextTags

namespace Duration

open Number Text

/-- A duration that has an identity to be read from. -/
def Finite (d : Duration) : Prop := d.seconds.isFinite

private theorem fitsInt64_clampInt64 (n : Int) : fitsInt64 (clampInt64 n) := by
  have power : Nat.pow 2 63 = 2 ^ 63 := rfl
  simp only [fitsInt64, clampInt64, minInt64, maxInt64, power, Bool.and_eq_true, decide_eq_true_eq]
  omega

private theorem fitsInt64_wholeSeconds (d : Duration) : fitsInt64 d.wholeSeconds := by
  unfold wholeSeconds roundAway toWholeBy
  split
  · decide
  · split
    · exact fitsInt64_clampInt64 _
    · split <;> decide
    · decide

/-- What is drawn lies between two integers of 64 bits. -/
theorem finite_between (draw : Draws) (a b : Duration) : (between draw a b).Finite := by
  have drawn : ∃ d : Draws, d.integer a.wholeSeconds b.wholeSeconds =
      draw.integer a.wholeSeconds b.wholeSeconds := ⟨draw, rfl⟩
  obtain ⟨least, most⟩ := Draws.exists_integer_eq_iff.1 drawn
  have fits := fitsInt64_wholeSeconds a
  have fits' := fitsInt64_wholeSeconds b
  refine isFinite_ofInt ?_
  simp only [fitsInt64, Bool.and_eq_true, decide_eq_true_eq] at fits fits' ⊢
  omega

private theorem finite_of_single {body : List Char} {d : Duration} (h : single? body = some d) :
    d.Finite := by
  unfold single? at h
  obtain ⟨last, -, h⟩ := Option.bind_eq_some_iff.1 h
  have finite {number : List Char} {unit : Float} (h : (do
      let value ← float? (trim number)
      if (value * unit).isFinite then some ⟨value * unit⟩ else none : Option Duration) = some d) :
      d.Finite := by
    obtain ⟨value, -, h⟩ := Option.bind_eq_some_iff.1 h
    split at h
    · next finite =>
      cases h
      exact finite
    · contradiction
  dsimp only at h
  split at h
  · exact finite h
  · obtain ⟨parts, -, h⟩ := Option.bind_eq_some_iff.1 h
    exact finite h

private theorem finite_ofLower {cs : List Char} {draw : Draws} {d : Duration}
    (h : ofLower? cs draw = some d) : d.Finite := by
  rw [ofLower?] at h
  split at h
  · have zero : (0.0 : Float).isFinite := by decide
    cases h
    exact zero
  · split at h
    · split at h
      · simp only [bind, Option.bind_eq_some_iff, Option.some.injEq] at h
        obtain ⟨a, -, b, -, rfl⟩ := h
        exact finite_between draw a b
      · contradiction
    · exact finite_of_single h

/-- A duration that is read is finite. -/
theorem finite_ofChars {cs : List Char} {draw : Draws} {d : Duration}
    (h : ofChars? cs draw = some d) : d.Finite :=
  finite_ofLower h

end Duration

namespace Value

mutual

/-- All durations in a value. -/
def durations : Value → List Duration
  | element _ => []
  | list items => itemDurations items
  | map entries => entryDurations entries
  | duration span => [span]
  | time _ => []
  | queue _ => []
  | script _ => []
  | custom _ fields => entryDurations fields

/-- All durations in the items of a list. -/
def itemDurations : List Value → List Duration
  | [] => []
  | v :: rest => durations v ++ itemDurations rest

/-- All durations in the entries of a map. -/
def entryDurations : List (String × Value) → List Duration
  | [] => []
  | (_, v) :: rest => durations v ++ entryDurations rest

end

/-- A value all of whose durations are finite. -/
def Finite (v : Value) : Prop := ∀ d ∈ v.durations, d.Finite

instance (v : Value) : Decidable v.Finite :=
  inferInstanceAs (Decidable (∀ d ∈ v.durations, d.seconds.isFinite))

/-- The durations of a list are those of its items. -/
theorem finite_list {items : List Value} : (list items).Finite ↔ ∀ v ∈ items, v.Finite := by
  change (∀ d ∈ itemDurations items, d.Finite) ↔ _
  induction items with
  | nil => exact iff_of_true (fun _ mem ↦ absurd mem List.not_mem_nil) (List.forall_mem_nil _)
  | cons v rest ih =>
    change (∀ d ∈ v.durations ++ itemDurations rest, d.Finite) ↔ _
    rw [List.forall_mem_append, List.forall_mem_cons, ih]
    rfl

private theorem forall_entryDurations {good : Duration → Prop} {entries : List (String × Value)} :
    (∀ d ∈ entryDurations entries, good d) ↔ ∀ e ∈ entries, ∀ d ∈ e.2.durations, good d := by
  induction entries with
  | nil => exact iff_of_true (fun _ mem ↦ absurd mem List.not_mem_nil) (List.forall_mem_nil _)
  | cons e rest ih =>
    change (∀ d ∈ e.2.durations ++ entryDurations rest, good d) ↔ _
    rw [List.forall_mem_append, List.forall_mem_cons, ih]

/-- The durations of a map are those of its values. -/
theorem finite_map {entries : Entries Value} : (map entries).Finite ↔ ∀ e ∈ entries, e.2.Finite :=
  forall_entryDurations

/-- The durations of an object are those of its fields. -/
theorem finite_custom {container : String} {fields : Entries Value} :
    (custom container fields).Finite ↔ ∀ e ∈ fields, e.2.Finite := forall_entryDurations

/-- A duration is all the durations that it has. -/
theorem finite_duration {d : Duration} : (duration d).Finite ↔ d.Finite := List.forall_mem_singleton

/-- An element has no durations. -/
@[simp] theorem finite_element (text : String) : (element text).Finite := List.forall_mem_nil _

/-- A time has no durations. -/
@[simp] theorem finite_time (t : Time) : (time t).Finite := List.forall_mem_nil _

/-- A queue has no durations. -/
@[simp] theorem finite_queue (id : String) : (queue id).Finite := List.forall_mem_nil _

/-- A script has no durations. -/
@[simp] theorem finite_script (name : String) : (script name).Finite := List.forall_mem_nil _

/-- A finite duration is read back from its identity. -/
theorem Finite.reads {v : Value} (h : v.Finite) {d : Duration} (mem : d ∈ v.durations)
    (draw : Draws) : ofIdentity (duration d).identity draw = duration d := by
  rw [ofIdentity_identity_eq, ofChars_duration (h d mem)]

open Escape Text

private theorem finite_entriesOfPieces {pairs : List (List Char × List Char)} {draw : Draws}
    (h : ∀ p ∈ pairs, ∀ draw, (ofChars (unescape p.2) draw).Finite) :
    ∀ e ∈ entriesOfPieces pairs draw, e.2.Finite := by
  refine Entries.forall_insertAll (by simp) fun e mem ↦ ?_
  obtain ⟨i, lt, rfl⟩ := List.mem_mapIdx.1 mem
  exact h _ (List.getElem_mem lt) _

private theorem finite_of_marked {cs mark rest : List Char} {draw : Draws} {v : Value}
    (shorter : ∀ cs' : List Char, cs'.length ≤ rest.length → ∀ draw, (ofChars cs' draw).Finite)
    (h : marked? cs mark rest draw = some v) : v.Finite := by
  have unescaped (piece : List Char) (le : piece.length ≤ rest.length) (draw : Draws) :
      (ofChars (unescape piece) draw).Finite :=
    shorter _ (Nat.le_trans (length_unescape_le piece) le) draw
  unfold marked? at h
  split at h
  · obtain ⟨d, read, rfl⟩ := Option.map_eq_some_iff.1 h
    exact finite_duration.2 (Duration.finite_ofChars read)
  · obtain ⟨t, -, rfl⟩ := Option.map_eq_some_iff.1 h
    exact finite_time t
  · cases h
    refine finite_list.2 fun v mem ↦ ?_
    obtain ⟨i, lt, rfl⟩ := List.mem_mapIdx.1 mem
    exact unescaped _ (length_of_mem_listPieces (List.getElem_mem lt)) _
  · obtain ⟨pairs, cut, rfl⟩ := Option.map_eq_some_iff.1 h
    refine finite_map.2 (finite_entriesOfPieces fun p mem ↦ unescaped p.2 ?_)
    exact Nat.le_of_lt (length_of_mem_mapPieces cut mem)
  · split at h
    · contradiction
    · cases h
      exact finite_queue _
  · split at h
    · contradiction
    · cases h
      exact finite_script _
  · split at h
    · contradiction
    · obtain ⟨pairs, cut, rfl⟩ := Option.map_eq_some_iff.1 h
      refine finite_custom.2 (finite_entriesOfPieces fun p mem ↦ unescaped p.2 ?_)
      exact Nat.le_trans (Nat.le_of_lt (length_of_mem_mapPieces cut mem))
        (length_containerPieces_le rest)
  · contradiction

/-- What is read from text is of finite durations. -/
theorem finite_ofChars (cs : List Char) (draw : Draws) : (ofChars cs draw).Finite := by
  by_cases marked : '@' ∈ cs
  · obtain ⟨mark, rest, eq, first⟩ := List.eq_append_cons_of_mem marked
    have longer : cs.length = mark.length + (rest.length + 1) := by
      rw [eq, List.length_append, List.length_cons]
    have shorter (cs' : List Char) (le : cs'.length ≤ rest.length) (draw : Draws) :
        (ofChars cs' draw).Finite := finite_ofChars cs' draw
    rw [eq, ofChars_marked mark first]
    cases read : marked? (mark ++ '@' :: rest) mark rest draw with
    | none => exact finite_element _
    | some v => exact finite_of_marked shorter read
  · rw [ofChars_plain marked]
    exact finite_element _
termination_by cs.length
decreasing_by omega

/-- The items that are read from text have finite durations. -/
theorem finite_itemsOfText (text : String) (draw : Draws) :
    (list (itemsOfText text draw)).Finite := by
  refine finite_list.2 fun v mem ↦ ?_
  obtain ⟨i, -, rfl⟩ := List.mem_mapIdx.1 mem
  exact finite_ofChars _ _

/-- The entries that are read from text have finite durations. -/
theorem finite_of_entriesOfText {text : String} {draw : Draws} {es : Entries Value}
    (h : entriesOfText? text draw = some es) : ∀ e ∈ es, e.2.Finite := by
  obtain ⟨pairs, -, rfl⟩ := Option.map_eq_some_iff.1 h
  exact finite_entriesOfPieces fun p _ ↦ finite_ofChars _

/-- The fields that are read from text have finite durations. -/
theorem finite_of_customOfText {text : String} {draw : Draws} {container : String}
    {es : Entries Value} (h : customOfText? text draw = some (container, es)) :
    ∀ e ∈ es, e.2.Finite := by
  unfold customOfText? customOfChars? at h
  obtain ⟨body, -, h⟩ := Option.bind_eq_some_iff.1 h
  dsimp only at h
  split at h
  · contradiction
  · obtain ⟨pairs, -, h⟩ := Option.bind_eq_some_iff.1 h
    cases h
    exact finite_entriesOfPieces fun p _ ↦ finite_ofChars _

end Value

/-- Default fields are texts. -/
theorem finite_layeredFields (line : List Container) : ∀ e ∈ layeredFields line, e.2.Finite := by
  induction line with
  | nil => simp [layeredFields]
  | cons c farther ih =>
    refine Entries.forall_insertAll ih fun e mem ↦ ?_
    obtain ⟨field, -, rfl⟩ := List.mem_map.1 mem
    exact Value.finite_element _

/-- The object of a line of containers has no durations. -/
theorem finite_of_objectOf {line : List Container} {name : String} {fields : Entries Value}
    (h : objectOf? line = some (name, fields)) : ∀ e ∈ fields, e.2.Finite := by
  cases line with
  | nil => contradiction
  | cons c farther =>
    cases h
    exact finite_layeredFields _

end TextTags
