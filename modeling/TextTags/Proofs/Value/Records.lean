import Mathlib.Data.Finset.Card
import TextTags.Proofs.Entries
import TextTags.Proofs.Value.Reading

/-!
# Maps as histories of insertions

Of the insertions that made it a map keeps the place and the spelling with which each key came
first, and the value with which it came last. Text that reads as a map is such a history: its
entries from left to right.
-/

namespace TextTags

open Text Escape

namespace Entries

variable {α : Type}

/-- A key without the case of its ASCII letters. -/
def folded (key : String) : List Char := asciiLowerChars key.toList

/-- What entries keep of the insertions that made them. -/
structure Records (es : Entries α) (inserted : List (String × α)) : Prop where
  /-- No two keys are equal but for the case of ASCII letters. -/
  distinct : es.Pairwise fun a b ↦ ¬ sameKey a.1 b.1
  /-- A key has the value that was inserted with it last, if one was. -/
  get?_eq : ∀ key, es.get? key = (inserted.filter fun p ↦ sameKey p.1 key).getLast?.map (·.2)
  /-- The keys stand in the order and in the spelling in which they were first inserted. -/
  keys_eq : es.keys = (inserted.map (·.1)).eraseDupsBy sameKey
  /-- There are as many entries as different keys were inserted. -/
  length_eq : es.length = (inserted.map fun p ↦ folded p.1).toFinset.card

/-- No key that was inserted is lost. -/
theorem exists_of_inserted {inserted : List (String × α)} {p : String × α} (mem : p ∈ inserted) :
    ∃ e ∈ insertAll [] inserted, folded e.1 = folded p.1 := by
  have same : p ∈ inserted.filter fun q ↦ sameKey q.1 p.1 :=
    List.mem_filter.2 ⟨mem, sameKey_iff.2 rfl⟩
  obtain ⟨last, latest⟩ := Option.isSome_iff_exists.1
    (List.getLast?_isSome.2 (List.ne_nil_of_mem same))
  have found : (insertAll [] inserted).get? p.1 = some last.2 := by
    rw [get?_insertAll, latest]
    rfl
  obtain ⟨e, found, -⟩ := Option.map_eq_some_iff.1 found
  have same : sameKey e.1 p.1 := by simpa using List.find?_some found
  exact ⟨e, List.mem_of_find?_eq_some found, sameKey_iff.1 same⟩

/-- Entries keep of any history what entries keep. -/
theorem records_insertAll (inserted : List (String × α)) :
    Records (insertAll [] inserted) inserted := by
  have distinct : Distinct (insertAll [] inserted) := Distinct.insertAll .nil inserted
  refine ⟨distinct, fun key ↦ ?_, ?_, ?_⟩
  · rw [get?_insertAll]
    exact Option.or_none
  · rw [keys_insertAll]
    simp [keys]
  · -- Both count the folded keys, which are the same and not repeated among the entries.
    have once : ((insertAll [] inserted).map fun e ↦ folded e.1).Nodup :=
      List.pairwise_map.2 (distinct.imp fun apart same ↦ apart (sameKey_iff.2 same))
    have same : ((insertAll [] inserted).map fun e ↦ folded e.1).toFinset =
        (inserted.map fun p ↦ folded p.1).toFinset := by
      ext key
      simp only [List.mem_toFinset, List.mem_map]
      constructor
      · rintro ⟨e, mem, rfl⟩
        rcases key_of_mem_insertAll mem with ⟨p, from', eq⟩ | ⟨_, hno, _⟩
        · exact ⟨p, from', by rw [eq]⟩
        · exact absurd hno List.not_mem_nil
      · rintro ⟨p, mem, rfl⟩
        exact exists_of_inserted mem
    rw [← same, List.toFinset_card_of_nodup once, List.length_map]

end Entries

namespace Value

/-- Entries are cut where each has an equals sign: at its first one. -/
theorem cutPairs?_eq_some_iff {pieces : List (List Char)} {pairs : List (List Char × List Char)} :
    cutPairs? pieces = some pairs ↔
      pieces = pairs.map (fun p ↦ p.1 ++ '=' :: p.2) ∧ ∀ p ∈ pairs, '=' ∉ p.1 := by
  induction pieces generalizing pairs with
  | nil => cases pairs <;> simp [cutPairs?]
  | cons piece rest ih =>
    simp only [cutPairs?, bind, Option.bind_eq_some_iff, Option.some.injEq]
    constructor
    · rintro ⟨pair, cut, others, cuts, rfl⟩
      obtain ⟨eq, first⟩ := splitOnce_eq_some_iff.1 cut
      obtain ⟨eqs, firsts⟩ := ih.1 cuts
      exact ⟨by rw [List.map_cons, eq, eqs], List.forall_mem_cons.2 ⟨first, firsts⟩⟩
    · rintro ⟨eq, firsts⟩
      cases pairs with
      | nil => contradiction
      | cons pair others =>
        obtain ⟨rfl, rfl⟩ := List.cons.inj eq
        obtain ⟨first, firsts⟩ := List.forall_mem_cons.1 firsts
        exact ⟨pair, splitOnce_append first _, others, ih.2 ⟨rfl, firsts⟩, rfl⟩

/-- Text that reads as a map inserts its entries from left to right: the texts between semicolons,
empty ones left out, each with a key before its first equals sign. Maps made by insertion keep of it
what they keep of any history, whatever is drawn for the ranges in values. -/
theorem map_records :
    (∀ inserted : List (String × Value), Entries.Records (Entries.insertAll [] inserted) inserted) ∧
      ∀ text draw es, entriesOfText? text draw = some es → ∃ pairs : List (List Char × List Char),
        (splitWhere (· == ';') (withinBrackets ((dropStart? mapMark text.toList).getD text.toList))
          ).filter (!·.isEmpty) = pairs.map (fun p ↦ p.1 ++ '=' :: p.2) ∧
        (∀ p ∈ pairs, '=' ∉ p.1) ∧
        Entries.Records es
          (pairs.mapIdx fun i p ↦
            (.ofList (unescape p.1), ofChars (unescape p.2) (draw.within i))) := by
  refine ⟨Entries.records_insertAll, fun text draw es read ↦ ?_⟩
  obtain ⟨pairs, pieces, rfl⟩ := Option.map_eq_some_iff.1 read
  obtain ⟨cut, firsts⟩ := cutPairs?_eq_some_iff.1 pieces
  exact ⟨pairs, cut, firsts, Entries.records_insertAll _⟩

/-- A key that comes a second time in another case keeps its place and its first spelling, and takes
the second value. -/
theorem map_records_again :
    ∃ es, entriesOfText? "MAP@[Name=a;;k&eqy=1;nAME=x=y]" = some es ∧
      es.keys = ["Name", "k=y"] ∧ es.length = 2 ∧
      es.get? "naME" = some (.element "x=y") ∧ (es.get? "k").isNone := by
  obtain ⟨es, read⟩ : ∃ es, entriesOfText? "MAP@[Name=a;;k&eqy=1;nAME=x=y]" = some es := ⟨_, rfl⟩
  obtain ⟨pairs, pieces, firsts, records⟩ := map_records.2 _ _ _ read
  obtain rfl : [("Name".toList, "a".toList), ("k&eqy".toList, "1".toList),
      ("nAME".toList, "x=y".toList)] = pairs :=
    Option.some.inj ((by decide : cutPairs? ((splitWhere (· == ';') (withinBrackets
      ((dropStart? mapMark "MAP@[Name=a;;k&eqy=1;nAME=x=y]".toList).getD
        "MAP@[Name=a;;k&eqy=1;nAME=x=y]".toList))).filter (!·.isEmpty)) = some _).symm.trans
      (cutPairs?_eq_some_iff.2 ⟨pieces, firsts⟩))
  have unescaped : ["Name", "k&eqy", "nAME", "a", "1", "x=y"].map (unescape ·.toList) =
      ["Name", "k=y", "nAME", "a", "1", "x=y"].map (·.toList) := by decide +kernel
  simp only [List.map_cons, List.map_nil, List.cons.injEq, and_true] at unescaped
  obtain ⟨name, key, again, a, one, both⟩ := unescaped
  simp only [List.mapIdx_cons, List.mapIdx_nil, name, key, again, a, one, both,
    String.ofList_toList, ofChars_plain (show '@' ∉ "a".toList by decide),
    ofChars_plain (show '@' ∉ "1".toList by decide),
    ofChars_plain (show '@' ∉ "x=y".toList by decide)] at records
  exact ⟨es, read, records.keys_eq.trans (by decide), records.length_eq.trans (by decide),
    (records.get?_eq _).trans (by rfl), by rw [records.get?_eq]; rfl⟩

end Value

end TextTags
