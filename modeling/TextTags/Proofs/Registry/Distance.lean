import Mathlib.Data.List.Forall2
import Mathlib.Data.List.Induction
import Mathlib.Data.List.Range
import Mathlib.Order.Bounds.Defs
import Mathlib.Order.MinMax
import TextTags.Registry.Near

/-!
# The distance of two names

A row of the table of distances has one number for each beginning of the second text. One edit of
the first text changes no number of its row by more than one, and every number is reached by edits,
so that the last one is the least number of edits that turns one text into the other.
-/

namespace TextTags.Near

/-- One edit: a character put in, taken out or replaced. -/
inductive Edit : List Char → List Char → Prop
  | insert (before : List Char) (c : Char) (after : List Char) :
      Edit (before ++ after) (before ++ c :: after)
  | delete (before : List Char) (c : Char) (after : List Char) :
      Edit (before ++ c :: after) (before ++ after)
  | replace (before : List Char) (c d : Char) (after : List Char) :
      Edit (before ++ c :: after) (before ++ d :: after)

/-- A number of edits that turn a text into another, one after another. -/
inductive Edits : Nat → List Char → List Char → Prop
  | none (a : List Char) : Edits 0 a a
  | more {n a b c} : Edit a b → Edits n b c → Edits (n + 1) a c

private theorem Edit.symm {a b : List Char} (h : Edit a b) : Edit b a := by
  cases h with
  | insert before c after => exact .delete before c after
  | delete before c after => exact .insert before c after
  | replace before c d after => exact .replace before d c after

private theorem Edit.append {a b : List Char} (h : Edit a b) (rest : List Char) :
    Edit (a ++ rest) (b ++ rest) := by
  cases h with
  | insert before c after => simpa using Edit.insert before c (after ++ rest)
  | delete before c after => simpa using Edit.delete before c (after ++ rest)
  | replace before c d after => simpa using Edit.replace before c d (after ++ rest)

/-- A character put in at the end. -/
theorem Edit.concat (a : List Char) (c : Char) : Edit a (a ++ [c]) := by
  simpa using Edit.insert a c []

namespace Edits

variable {n m : Nat} {a b c : List Char}

private theorem one (h : Edit a b) : Edits 1 a b := .more h (.none b)

private theorem trans (h : Edits n a b) (h' : Edits m b c) : Edits (n + m) a c := by
  induction h with
  | none => rwa [Nat.zero_add]
  | more first _ ih =>
    rw [Nat.succ_add]
    exact .more first (ih h')

private theorem symm (h : Edits n a b) : Edits n b a := by
  induction h with
  | none a => exact .none a
  | more first _ ih => exact ih.trans (.one first.symm)

private theorem append (h : Edits n a b) (rest : List Char) : Edits n (a ++ rest) (b ++ rest) := by
  induction h with
  | none => exact .none _
  | more first _ ih => exact .more (first.append rest) ih

private theorem eq_of_zero (h : Edits 0 a b) : a = b := by
  cases h
  rfl

end Edits

/-- The row of the distances of a text from every beginning of another. -/
def row (other text : List Char) : List Nat :=
  text.foldl (nextRow other) (List.range (other.length + 1))

private theorem row_append (other a rest : List Char) :
    row other (a ++ rest) = rest.foldl (nextRow other) (row other a) := List.foldl_append

private theorem row_concat (other a : List Char) (c : Char) :
    row other (a ++ [c]) = nextRow other (row other a) c := row_append other a [c]

private theorem length_extendRow {c : Char} {other : List Char} {diagonal left : Nat}
    {above : List Nat} (length : above.length = other.length) :
    (extendRow c other (diagonal :: above) left).length = other.length := by
  induction other generalizing diagonal above left with
  | nil => rfl
  | cons b rest ih =>
    obtain ⟨next, above, rfl⟩ := List.exists_cons_of_length_eq_add_one length
    rw [extendRow, List.length_cons, ih (Nat.succ.inj length), List.length_cons]

/-- A row has a number for each beginning. -/
theorem length_nextRow {other : List Char} {above : List Nat}
    (length : above.length = other.length + 1) (c : Char) :
    (nextRow other above c).length = other.length + 1 := by
  obtain ⟨first, rest, rfl⟩ := List.exists_cons_of_length_eq_add_one length
  rw [nextRow, List.length_cons, length_extendRow (Nat.succ.inj length)]

private theorem length_row (other text : List Char) :
    (row other text).length = other.length + 1 := by
  induction text using List.reverseRecOn with
  | nil => exact List.length_range
  | append_singleton text c ih =>
    rw [row_concat]
    exact length_nextRow ih c

/-! ## Every number is reached -/

/-- A row of numbers of edits that turn a text into the beginnings of another: into the one that is
done and into those with ever more of the rest. -/
inductive Reaches (text : List Char) : List Char → List Char → List Nat → Prop
  | last {done n} : Edits n text done → Reaches text done [] [n]
  | next {done b rest n row} : Edits n text done → Reaches text (done ++ [b]) rest row →
      Reaches text done (b :: rest) (n :: row)

variable {text done rest : List Char} {c : Char}

private theorem Reaches.head {n : Nat} {row : List Nat} (h : Reaches text done rest (n :: row)) :
    Edits n text done := by
  cases h <;> assumption

/-- One character more of the text: it is turned into the next one of the other, or taken out, or
the next one is put in. -/
theorem Reaches.extendRow {diagonal left : Nat} {above : List Nat}
    (h : Reaches text done rest (diagonal :: above)) (reached : Edits left (text ++ [c]) done) :
    Reaches (text ++ [c]) done rest (left :: extendRow c rest (diagonal :: above) left) := by
  induction rest generalizing done diagonal above left with
  | nil => exact .last reached
  | cons b rest ih =>
    cases h with
    | next first others =>
      obtain ⟨next, above, rfl⟩ : ∃ next more, above = next :: more := by
        cases others <;> exact ⟨_, _, rfl⟩
      refine .next reached (ih others ?_)
      have inserted : Edits (left + 1) (text ++ [c]) (done ++ [b]) :=
        reached.trans (.one (.concat done b))
      have deleted : Edits (next + 1) (text ++ [c]) (done ++ [b]) :=
        .more (Edit.concat text c).symm others.head
      have changed :
          Edits (if c = b then diagonal else diagonal + 1) (text ++ [c]) (done ++ [b]) := by
        have kept := first.append [c]
        split
        · next same => exact same ▸ kept
        · exact kept.trans (.one (.replace done c b []))
      exact min_rec' (Edits · _ _) changed (min_rec' (Edits · _ _) deleted inserted)

private theorem reaches_range' (done rest : List Char) :
    Reaches [] done rest (List.range' done.length (rest.length + 1)) := by
  have inserted : Edits done.length [] done := by
    induction done using List.reverseRecOn with
    | nil => exact .none []
    | append_singleton done b ih =>
      rw [List.length_append]
      exact ih.trans (.one (.concat done b))
  induction rest generalizing done with
  | nil => exact .last inserted
  | cons b rest ih =>
    refine .next inserted ?_
    have others := ih (done ++ [b]) (by
      rw [List.length_append]
      exact inserted.trans (.one (.concat done b)))
    rwa [List.length_append] at others

private theorem reaches_row (other text : List Char) : Reaches text [] other (row other text) := by
  induction text using List.reverseRecOn with
  | nil =>
    have start := reaches_range' [] other
    rwa [List.length_nil, ← List.range_eq_range'] at start
  | append_singleton text c ih =>
    rw [row_concat]
    obtain ⟨first, others, eq⟩ := List.exists_cons_of_length_eq_add_one (length_row other text)
    rw [eq] at ih ⊢
    exact ih.extendRow (.more (Edit.concat text c).symm ih.head)

private theorem Reaches.getLastD {row : List Nat} (h : Reaches text done rest row) :
    Edits (row.getLastD 0) text (done ++ rest) := by
  induction h with
  | last reached => simpa using reached
  | @next done b rest n row _ others ih =>
    obtain ⟨next, more, rfl⟩ : ∃ next more, row = next :: more := by
      cases others <;> exact ⟨_, _, rfl⟩
    simpa using ih

private theorem edits_editDistance (a b : List Char) : Edits (editDistance a b) a b :=
  (reaches_row b a).getLastD

/-! ## No number is less -/

/-- Each number of a row is at most so much more than that of another row. -/
def Above (k : Nat) : List Nat → List Nat → Prop := List.Forall₂ fun x y ↦ x ≤ y + k

private theorem Above.extendRow {k diagonal diagonal' left left' : Nat} {above above' : List Nat}
    {other : List Char} (rows : Above k (diagonal :: above) (diagonal' :: above'))
    (before : left ≤ left' + k) :
    Above k (extendRow c other (diagonal :: above) left)
      (extendRow c other (diagonal' :: above') left') := by
  induction other generalizing diagonal diagonal' above above' left left' with
  | nil => exact .nil
  | cons b rest ih =>
    obtain ⟨corner, others⟩ := List.forall₂_cons.1 rows
    cases others with
    | nil => exact .nil
    | cons next others =>
      refine .cons ?_ (ih (.cons next others) ?_)
      all_goals split <;> omega

/-- The same character more leaves rows as near as they are. -/
theorem Above.nextRow {k : Nat} {above above' : List Nat} (other : List Char)
    (rows : Above k above above') (c : Char) :
    Above k (nextRow other above c) (nextRow other above' c) := by
  cases rows with
  | nil => exact .cons (by simp) (by cases other <;> exact .nil)
  | @cons x y _ _ first others =>
    have left : x + 1 ≤ y + 1 + k := by omega
    exact .cons left (Above.extendRow (.cons first others) left)

private theorem Above.foldl {k : Nat} {above above' : List Nat} {other : List Char}
    (rows : Above k above above') (rest : List Char) :
    Above k (rest.foldl (Near.nextRow other) above) (rest.foldl (Near.nextRow other) above') := by
  induction rest generalizing above above' with
  | nil => exact rows
  | cons c rest ih => exact ih (rows.nextRow other c)

private theorem Above.getLastD {k : Nat} {above above' : List Nat} (rows : Above k above above') :
    above.getLastD 0 ≤ above'.getLastD 0 + k := by
  induction rows with
  | nil => exact Nat.zero_le _
  | @cons x y xs ys first others ih =>
    cases others with
    | nil => simpa using first
    | cons => simpa using ih

/-- Numbers of which each is at most one more than the one before. -/
def Smooth : List Nat → Prop := List.IsChain fun x y ↦ y ≤ x + 1

private theorem smooth_extendRow (c : Char) (other : List Char) (above : List Nat) (left : Nat) :
    Smooth (left :: extendRow c other above left) := by
  fun_induction extendRow c other above left with
  | case1 left b rest diagonal next above change here ih => exact .cons_cons (by omega) ih
  | case2 => exact .singleton _

private theorem smooth_row (other text : List Char) : Smooth (row other text) := by
  induction text using List.reverseRecOn with
  | nil => exact (List.isChain_range_succ _ _).2 fun _ _ ↦ Nat.le_refl _
  | append_singleton text c _ =>
    rw [row_concat]
    exact smooth_extendRow ..

private theorem above_extendRow {other : List Char} {diagonal left : Nat} {above : List Nat}
    (length : above.length = other.length) :
    Above 1 (extendRow c other (diagonal :: above) left) above := by
  induction other generalizing diagonal above left with
  | nil =>
    obtain rfl := List.length_eq_zero_iff.1 length
    exact .nil
  | cons b rest ih =>
    obtain ⟨next, above, rfl⟩ := List.exists_cons_of_length_eq_add_one length
    refine .cons ?_ (ih (Nat.succ.inj length))
    omega

/-- A character more makes no number greater by more than one. -/
theorem above_nextRow {other : List Char} {above : List Nat}
    (length : above.length = other.length + 1) (c : Char) :
    Above 1 (nextRow other above c) above := by
  obtain ⟨first, above, rfl⟩ := List.exists_cons_of_length_eq_add_one length
  exact .cons (Nat.le_refl _) (above_extendRow (Nat.succ.inj length))

private theorem extendRow_above {other : List Char} {diagonal left : Nat} {above : List Nat}
    (length : above.length = other.length) (smooth : Smooth (diagonal :: above))
    (before : diagonal ≤ left + 1) :
    Above 1 above (extendRow c other (diagonal :: above) left) := by
  induction other generalizing diagonal above left with
  | nil =>
    obtain rfl := List.length_eq_zero_iff.1 length
    exact .nil
  | cons b rest ih =>
    obtain ⟨next, above, rfl⟩ := List.exists_cons_of_length_eq_add_one length
    obtain ⟨step, others⟩ := List.isChain_cons_cons.1 smooth
    have here : next ≤ min (if c = b then diagonal else diagonal + 1)
        (min (next + 1) (left + 1)) + 1 := by
      split <;> omega
    exact .cons here (ih (Nat.succ.inj length) others here)

/-- A character more makes no number less by more than one. -/
theorem nextRow_above {other : List Char} {above : List Nat}
    (length : above.length = other.length + 1) (smooth : Smooth above) (c : Char) :
    Above 1 above (nextRow other above c) := by
  obtain ⟨first, above, rfl⟩ := List.exists_cons_of_length_eq_add_one length
  have left : first ≤ first + 1 + 1 := by omega
  exact .cons left (extendRow_above (Nat.succ.inj length) smooth left)

private theorem extendRow_replace (c d : Char) (other : List Char) (above : List Nat)
    {left left' : Nat} (before : left ≤ left' + 1) :
    Above 1 (extendRow c other above left) (extendRow d other above left') := by
  induction other generalizing above left left' with
  | nil => exact .nil
  | cons b rest ih =>
    match above with
    | [] | [_] => exact .nil
    | diagonal :: next :: above =>
      have here : min (if c = b then diagonal else diagonal + 1) (min (next + 1) (left + 1)) ≤
          min (if d = b then diagonal else diagonal + 1) (min (next + 1) (left' + 1)) + 1 := by
        split <;> split <;> omega
      exact .cons here (ih (next :: above) here)

/-- With another character no number is greater by more than one. -/
theorem nextRow_replace (c d : Char) (other : List Char) (above : List Nat) :
    Above 1 (nextRow other above c) (nextRow other above d) :=
  .cons (Nat.le_succ _) (extendRow_replace c d other above (Nat.le_succ _))

private theorem above_row_of_edit {a b : List Char} (h : Edit a b) (other : List Char) :
    Above 1 (row other a) (row other b) := by
  cases h with
  | insert before c after =>
    rw [row_append, row_append]
    exact (nextRow_above (length_row other before) (smooth_row other before) c).foldl after
  | delete before c after =>
    rw [row_append, row_append]
    exact (above_nextRow (length_row other before) c).foldl after
  | replace before c d after =>
    rw [row_append, row_append]
    exact (nextRow_replace c d other (row other before)).foldl after

/-- What is zero stays zero one place on, if the character is the next one of the other text. -/
theorem extendRow_zero {other : List Char} {above : List Nat} {left i : Nat}
    (length : above.length = other.length + 1) (same : other[i]? = some c)
    (zero : above[i]? = some 0) : (extendRow c other above left)[i]? = some 0 := by
  induction other generalizing above left i with
  | nil => contradiction
  | cons b rest ih =>
    obtain ⟨diagonal, above, rfl⟩ := List.exists_cons_of_length_eq_add_one length
    obtain ⟨next, above, rfl⟩ := List.exists_cons_of_length_eq_add_one (Nat.succ.inj length)
    cases i with
    | zero =>
      obtain rfl := Option.some.inj same
      obtain rfl := Option.some.inj zero
      simp [extendRow]
    | succ i => exact ih (Nat.succ.inj length) same zero

private theorem row_take (b : List Char) {i : Nat} (bound : i ≤ b.length) :
    (row b (b.take i))[i]? = some 0 := by
  induction i with
  | zero => simp [row]
  | succ i ih =>
    rw [List.take_succ_eq_append_getElem bound, row_concat, nextRow]
    exact extendRow_zero (length_row ..) (List.getElem?_eq_getElem bound) (ih (Nat.le_of_lt bound))

private theorem getLastD_row (other text : List Char) :
    (row other text)[other.length]? = some ((row other text).getLastD 0) := by
  have last : (row other text).getLast? = (row other text)[other.length]? := by
    rw [List.getLast?_eq_getElem?, length_row, Nat.add_sub_cancel]
  have within : other.length < (row other text).length := by
    rw [length_row]
    exact Nat.lt_succ_self _
  rw [List.getLastD_eq_getLast?, last, List.getElem?_eq_getElem within]
  rfl

private theorem editDistance_self (a : List Char) : editDistance a a = 0 := by
  have diagonal := row_take a (Nat.le_refl a.length)
  rw [List.take_length, getLastD_row] at diagonal
  exact Option.some.inj diagonal

private theorem editDistance_le {n : Nat} {a b : List Char} (h : Edits n a b) :
    editDistance a b ≤ n := by
  induction h with
  | none a => exact (editDistance_self a).le
  | more first _ ih => exact (above_row_of_edit first _).getLastD.trans (Nat.succ_le_succ ih)

/-! ## Rows by index -/

/-- Writes the entry of a row after the one at an index, from entries at their indices; none if one
of these is out of range. -/
def indexedCell? (above : List Nat) (c : Char) (fresh : List Nat) : Char × Nat → Option (List Nat)
  | (b, j) => do
    let diagonal ← above[j]?
    let next ← above[j + 1]?
    let left ← fresh[j]?
    let here := min (min (diagonal + if c = b then 0 else 1) (next + 1)) (left + 1)
    if j + 1 < fresh.length then some (fresh.set (j + 1) here) else none

/-- The row after one character more, the one at an index of the text. -/
def indexedRow? (other : List Char) (above : List Nat) : Char × Nat → Option (List Nat)
  | (c, i) => other.zipIdx.foldlM (indexedCell? above c) (List.replicate (other.length + 1) (i + 1))

/-- The distance by two rows of the table at a time; none if an index is out of range. -/
def indexedDistance? (a b : List Char) : Option Nat := do
  let last ← a.zipIdx.foldlM (indexedRow? b) (List.range (b.length + 1))
  last[b.length]?

/-- The entries from a place on are those of the row, and none of the indices is out of range. -/
theorem foldlM_indexedCell? (before done : List Nat) (diagonal left : Nat) {fill : Nat}
    {above : List Nat} {rest : List Char} (same : before.length = done.length)
    (length : above.length = rest.length) :
    (rest.zipIdx done.length).foldlM (indexedCell? (before ++ diagonal :: above) c)
        (done ++ left :: List.replicate rest.length fill) =
      some (done ++ left :: extendRow c rest (diagonal :: above) left) := by
  -- `done` is the part of the row that is filled, `before` the part of the row above that is used
  -- up: both are as long, and the present column is their length.
  induction rest generalizing before done diagonal above left with
  | nil => rfl
  | cons b rest ih =>
    obtain ⟨next, above, rfl⟩ := List.exists_cons_of_length_eq_add_one length
    obtain ⟨here, eq⟩ : ∃ here, here = min (if c = b then diagonal else diagonal + 1)
      (min (next + 1) (left + 1)) := ⟨_, rfl⟩
    have entry : indexedCell? (before ++ diagonal :: next :: above) c
        (done ++ left :: List.replicate (rest.length + 1) fill) (b, done.length) =
          some (done ++ left :: here :: List.replicate rest.length fill) := by
      have corner : (before ++ diagonal :: next :: above)[done.length]? = some diagonal := by
        simp [← same]
      have higher : (before ++ diagonal :: next :: above)[done.length + 1]? = some next := by
        simp [← same]
      have beside : (done ++ left :: List.replicate (rest.length + 1) fill)[done.length]? =
          some left := by
        simp
      have within : done.length + 1 <
          (done ++ left :: List.replicate (rest.length + 1) fill).length := by
        simp
      have least : min (min (diagonal + if c = b then 0 else 1) (next + 1)) (left + 1) = here := by
        rw [eq]
        split <;> omega
      simp only [indexedCell?, corner, higher, beside, Option.bind_eq_bind, Option.bind_some,
        if_pos within, least]
      simp [List.set_append_right, List.replicate_succ]
    have others := ih (before ++ [diagonal]) (done ++ [left]) next here (by simp [same])
      (Nat.succ.inj length)
    simp only [List.append_assoc, List.singleton_append, List.length_append, List.length_singleton]
      at others
    rw [List.zipIdx_cons, List.foldlM_cons, List.length_cons, entry, extendRow, ← eq]
    exact others

private theorem head?_row (other text : List Char) : (row other text).head? = some text.length := by
  induction text using List.reverseRecOn with
  | nil => simp [row, List.range_succ_eq_map]
  | append_singleton text c ih =>
    rw [row_concat, nextRow, List.headD_eq_head?_getD, ih, List.length_append]
    rfl

private theorem indexedRow?_eq (other text : List Char) (c : Char) :
    indexedRow? other (row other text) (c, text.length) = some (row other (text ++ [c])) := by
  obtain ⟨first, above, eq⟩ := List.exists_cons_of_length_eq_add_one (length_row other text)
  have length := length_row other text
  have head := head?_row other text
  rw [eq] at length head
  obtain rfl := Option.some.inj head
  rw [row_concat, eq]
  exact foldlM_indexedCell? [] [] _ _ rfl (Nat.succ.inj length)

private theorem foldlM_indexedRow? (other text rest : List Char) :
    (rest.zipIdx text.length).foldlM (indexedRow? other) (row other text) =
      some (row other (text ++ rest)) := by
  induction rest generalizing text with
  | nil => simp
  | cons c rest ih =>
    have others := ih (text ++ [c])
    rw [List.append_assoc, List.length_append] at others
    rw [List.zipIdx_cons, List.foldlM_cons, indexedRow?_eq]
    exact others

/-- No index is out of range. -/
theorem indexedDistance?_eq (a b : List Char) : indexedDistance? a b = some (editDistance a b) := by
  have last := foldlM_indexedRow? b [] a
  rw [List.length_nil, List.nil_append] at last
  change (a.zipIdx.foldlM (indexedRow? b) (row b []) >>= _) = _
  rw [last]
  exact getLastD_row b a

/-- The distance is the least number of edits that turn one text into the other, and so a metric;
with the table kept in rows that are read and written by index, no index is out of range. -/
theorem editDistance_metric (a b : List Char) :
    IsLeast {n | Edits n a b} (editDistance a b) ∧
    editDistance a b = editDistance b a ∧
    (editDistance a b = 0 ↔ a = b) ∧
    (∀ c, editDistance a c ≤ editDistance a b + editDistance b c) ∧
    indexedDistance? a b = some (editDistance a b) := by
  refine ⟨⟨edits_editDistance a b, fun n ↦ editDistance_le⟩, ?_, ?_, fun c ↦ ?_,
    indexedDistance?_eq a b⟩
  · exact Nat.le_antisymm (editDistance_le (edits_editDistance b a).symm)
      (editDistance_le (edits_editDistance a b).symm)
  · refine ⟨fun zero ↦ ?_, fun same ↦ same ▸ editDistance_self a⟩
    exact (zero ▸ edits_editDistance a b).eq_of_zero
  · exact editDistance_le ((edits_editDistance a b).trans (edits_editDistance b c))

end TextTags.Near
