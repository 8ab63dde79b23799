import TextTags.Entries

/-!
# Insertion into entries

Entries that were inserted one after another have distinct keys, and inserting entries of distinct
keys one after another gives them back in their order. The value of a key is the one inserted last.
-/

namespace TextTags.Entries

variable {α : Type}

/-- No two keys are the same key. -/
def Distinct (es : Entries α) : Prop := es.Pairwise fun a b ↦ ¬ sameKey a.1 b.1

private theorem insert_of_absent {es : Entries α} {key : String} (h : ∀ e ∈ es, ¬ sameKey e.1 key)
    (value : α) : es.insert key value = es ++ [(key, value)] := by
  induction es with
  | nil => rfl
  | cons e rest ih =>
    rw [insert, if_neg (h e List.mem_cons_self), ih fun e mem ↦ h e (List.mem_cons_of_mem _ mem),
      List.cons_append]

/-- Insertion brings no key but the one inserted. -/
theorem key_of_mem_insert {es : Entries α} {key : String} {value : α} {e : String × α}
    (h : e ∈ es.insert key value) : e.1 = key ∨ ∃ e' ∈ es, e'.1 = e.1 := by
  induction es with
  | nil =>
    obtain rfl := List.mem_singleton.1 h
    exact .inl rfl
  | cons first rest ih =>
    unfold insert at h
    split at h
    · rcases List.mem_cons.1 h with rfl | mem
      · exact .inr ⟨first, List.mem_cons_self, rfl⟩
      · exact .inr ⟨e, List.mem_cons_of_mem _ mem, rfl⟩
    · rcases List.mem_cons.1 h with rfl | mem
      · exact .inr ⟨e, List.mem_cons_self, rfl⟩
      · rcases ih mem with new | ⟨e', old, eq⟩
        · exact .inl new
        · exact .inr ⟨e', List.mem_cons_of_mem _ old, eq⟩

/-- Insertion brings no value but the one inserted. -/
theorem value_of_mem_insert {es : Entries α} {key : String} {value : α} {e : String × α}
    (h : e ∈ es.insert key value) : e.2 = value ∨ ∃ e' ∈ es, e'.2 = e.2 := by
  induction es with
  | nil =>
    obtain rfl := List.mem_singleton.1 h
    exact .inl rfl
  | cons first rest ih =>
    unfold insert at h
    split at h
    · rcases List.mem_cons.1 h with rfl | mem
      · exact .inl rfl
      · exact .inr ⟨e, List.mem_cons_of_mem _ mem, rfl⟩
    · rcases List.mem_cons.1 h with rfl | mem
      · exact .inr ⟨e, List.mem_cons_self, rfl⟩
      · rcases ih mem with new | ⟨e', old, eq⟩
        · exact .inl new
        · exact .inr ⟨e', List.mem_cons_of_mem _ old, eq⟩

/-- What all values there are and all that are inserted have in common, all values have then. -/
theorem forall_insertAll {good : α → Prop} {es : Entries α} {pairs : List (String × α)}
    (old : ∀ e ∈ es, good e.2) (new : ∀ p ∈ pairs, good p.2) :
    ∀ e ∈ es.insertAll pairs, good e.2 := by
  induction pairs generalizing es with
  | nil => exact old
  | cons p rest ih =>
    refine ih (fun e mem ↦ ?_) fun q mem ↦ new q (List.mem_cons_of_mem _ mem)
    rcases value_of_mem_insert mem with eq | ⟨e', mem', eq⟩
    · exact eq ▸ new p List.mem_cons_self
    · exact eq ▸ old e' mem'

/-- Keys are the same where their ASCII letters in lower case are. -/
theorem sameKey_iff {a b : String} :
    sameKey a b ↔ Text.asciiLowerChars a.toList = Text.asciiLowerChars b.toList :=
  beq_iff_eq

/-- Sameness of keys is transitive. -/
theorem sameKey_trans {a b c : String} (first : sameKey a b) (second : sameKey b c) :
    sameKey a c := by
  rw [sameKey_iff] at *
  exact first.trans second

/-- Sameness of keys is symmetric. -/
theorem sameKey_symm {a b : String} (same : sameKey a b) : sameKey b a := by
  rw [sameKey_iff] at *
  exact same.symm

/-- The first entry is looked at before the others. -/
theorem get?_cons (e : String × α) (rest : Entries α) (key : String) :
    get? (e :: rest) key = if sameKey e.1 key then some e.2 else get? rest key := by
  rw [get?, List.find?_cons, get?]
  cases sameKey e.1 key <;> rfl

/-- Insertion gives its key its value, and leaves those of all other keys. -/
theorem get?_insert (es : Entries α) (key : String) (value : α) (other : String) :
    (es.insert key value).get? other =
      if sameKey key other then some value else es.get? other := by
  induction es with
  | nil => exact get?_cons _ _ _
  | cons e rest ih =>
    unfold insert
    by_cases there : sameKey e.1 key
    · -- The entry keeps its spelling of the key.
      have alike : sameKey e.1 other ↔ sameKey key other := by
        rw [sameKey_iff, sameKey_iff, sameKey_iff.1 there]
      rw [if_pos there, get?_cons, get?_cons]
      by_cases same : sameKey key other
      · rw [if_pos (alike.2 same), if_pos same]
      · have same' := mt alike.1 same
        rw [if_neg same', if_neg same, if_neg same']
    · rw [if_neg there, get?_cons, get?_cons, ih]
      by_cases same : sameKey e.1 other
      · have apart : ¬ sameKey key other := by
          rw [sameKey_iff] at same there ⊢
          exact fun same' ↦ there (same.trans same'.symm)
        rw [if_pos same, if_pos same, if_neg apart]
      · rw [if_neg same, if_neg same]

/-- Of the pairs inserted the last one with a key counts, and if there is none what was there. -/
theorem get?_insertAll (es : Entries α) (pairs : List (String × α)) (key : String) :
    (es.insertAll pairs).get? key =
      ((pairs.filter fun p ↦ sameKey p.1 key).getLast?.map (·.2)).or (es.get? key) := by
  induction pairs generalizing es with
  | nil => rfl
  | cons p rest ih =>
    change ((es.insert p.1 p.2).insertAll rest).get? key = _
    rw [ih, get?_insert]
    by_cases same : sameKey p.1 key
    · rw [if_pos same, List.filter_cons, if_pos same, List.getLast?_cons]
      cases (rest.filter fun p ↦ sameKey p.1 key).getLast? <;> rfl
    · rw [if_neg same, List.filter_cons, if_neg same]

/-- The keys after an insertion are those inserted and those that were there. -/
theorem key_of_mem_insertAll {es : Entries α} {pairs : List (String × α)} {e : String × α}
    (h : e ∈ es.insertAll pairs) : (∃ p ∈ pairs, p.1 = e.1) ∨ ∃ e' ∈ es, e'.1 = e.1 := by
  induction pairs generalizing es with
  | nil => exact .inr ⟨e, h, rfl⟩
  | cons p rest ih =>
    rcases ih h with ⟨q, mem, eq⟩ | ⟨e', mem, eq⟩
    · exact .inl ⟨q, List.mem_cons_of_mem _ mem, eq⟩
    · rcases key_of_mem_insert mem with new | ⟨e'', mem', eq'⟩
      · exact .inl ⟨p, List.mem_cons_self, new.symm.trans eq⟩
      · exact .inr ⟨e'', mem', eq'.trans eq⟩

private theorem keys_cons (e : String × α) (rest : Entries α) :
    keys (e :: rest) = e.1 :: keys rest := rfl

/-- Insertion leaves the keys as they are if its key is there, and else brings it in at the end. -/
theorem keys_insert (es : Entries α) (key : String) (value : α) :
    (es.insert key value).keys =
      if es.keys.any (sameKey · key) then es.keys else es.keys ++ [key] := by
  induction es with
  | nil => rfl
  | cons e rest ih =>
    rw [insert]
    by_cases there : sameKey e.1 key
    · rw [if_pos there, if_pos (by simp [keys, there])]
      rfl
    · rw [if_neg there, keys_cons, ih, keys_cons, List.any_cons, Bool.eq_false_iff.2 there,
        Bool.false_or]
      split <;> rfl

/-- The keys there were keep their places and their spellings. The others follow in the order and in
the spelling in which each was inserted first. -/
theorem keys_insertAll (es : Entries α) (pairs : List (String × α)) :
    (es.insertAll pairs).keys = es.keys ++
      ((pairs.map (·.1)).filter fun key ↦ !es.keys.any (sameKey · key)).eraseDupsBy sameKey := by
  induction pairs generalizing es with
  | nil => simp [insertAll]
  | cons p rest ih =>
    change ((es.insert p.1 p.2).insertAll rest).keys = _
    rw [ih, keys_insert, List.map_cons]
    by_cases there : es.keys.any (sameKey · p.1)
    · rw [if_pos there, List.filter_cons_of_neg (by simpa using there)]
    · rw [if_neg there, List.filter_cons_of_pos (by simpa using there), List.eraseDupsBy_cons,
        List.append_assoc, List.singleton_append, List.filter_filter]
      congr 3
      refine List.filter_congr fun key _ ↦ ?_
      have either : sameKey p.1 key = sameKey key p.1 :=
        Bool.eq_iff_iff.2 ⟨sameKey_symm, sameKey_symm⟩
      rw [List.any_append, List.any_cons, List.any_nil, either]
      cases sameKey key p.1 <;> simp

/-- Distinct keys are different texts. -/
theorem Distinct.nodup_keys {es : Entries α} (h : es.Distinct) : es.keys.Nodup := by
  rw [keys, List.Nodup, List.pairwise_map]
  exact h.imp fun apart eq ↦ apart (by rw [eq, sameKey_iff])

private theorem Distinct.insert {es : Entries α} (h : es.Distinct) (key : String) (value : α) :
    (es.insert key value).Distinct := by
  induction es with
  | nil => exact List.pairwise_singleton _ _
  | cons first rest ih =>
    obtain ⟨apart, others⟩ := List.pairwise_cons.1 h
    unfold Entries.insert
    split
    · exact List.pairwise_cons.2 ⟨apart, others⟩
    · next absent =>
      refine List.pairwise_cons.2 ⟨fun e mem same ↦ ?_, ih others⟩
      rcases key_of_mem_insert mem with new | ⟨e', old, eq⟩
      · exact absent (new ▸ same)
      · exact apart e' old (eq ▸ same)

/-- Keys stay distinct when entries are inserted. -/
theorem Distinct.insertAll {es : Entries α} (h : es.Distinct) (pairs : List (String × α)) :
    (es.insertAll pairs).Distinct := by
  induction pairs generalizing es with
  | nil => exact h
  | cons p rest ih => exact ih (h.insert p.1 p.2)

private theorem insertAll_append {es added : Entries α} (h : (es ++ added).Distinct) :
    es.insertAll added = es ++ added := by
  induction added generalizing es with
  | nil => simp [Entries.insertAll]
  | cons e rest ih =>
    have absent : ∀ d ∈ es, ¬ sameKey d.1 e.1 := fun d mem ↦
      (List.pairwise_append.1 h).2.2 d mem e List.mem_cons_self
    change Entries.insertAll (es.insert e.1 e.2) rest = _
    rw [insert_of_absent absent, ih (by simpa using h)]
    simp

/-- Entries of distinct keys are what inserting them gives. -/
theorem Distinct.insertAll_nil {es : Entries α} (h : es.Distinct) :
    Entries.insertAll [] es = es :=
  insertAll_append h

end TextTags.Entries
