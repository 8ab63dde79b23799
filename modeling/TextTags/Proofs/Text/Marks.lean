import TextTags.Proofs.Text.Bytes
import TextTags.Text.Pieces

/-!
# Marks among bytes

A character of one byte is found among the bytes of a text where it stands among its characters,
and nowhere else. Counted in any stretch of the bytes, it is as frequent as in a stretch of the
characters.
-/

namespace TextTags.Text

/-- The bytes of characters in UTF-8. -/
def utf8 (cs : List Char) : List UInt8 := cs.flatMap String.utf8EncodeChar

/-- The bytes of a text are the encoding of its characters. -/
theorem bytes_eq_utf8 (text : String) : bytes text = utf8 text.toList := bytes_eq_flatMap text

/-- A first character is encoded before the others. -/
theorem utf8_cons (c : Char) (cs : List Char) :
    utf8 (c :: cs) = String.utf8EncodeChar c ++ utf8 cs :=
  List.flatMap_cons

/-- Two texts are encoded one after the other. -/
theorem utf8_append (cs rest : List Char) : utf8 (cs ++ rest) = utf8 cs ++ utf8 rest :=
  List.flatMap_append

/-- The length of an encoding is the length in bytes. -/
theorem length_utf8 (cs : List Char) : (utf8 cs).length = byteLength cs := by
  induction cs with
  | nil => rfl
  | cons c rest ih =>
    rw [utf8_cons, List.length_append, String.length_utf8EncodeChar, ih, byteLength]

/-- The lengths in bytes of two texts add up. -/
theorem byteLength_append (cs rest : List Char) :
    byteLength (cs ++ rest) = byteLength cs + byteLength rest := by
  rw [← length_utf8, ← length_utf8, ← length_utf8, utf8_append, List.length_append]

/-- The size of a string is the length of its characters in bytes. -/
theorem utf8ByteSize_eq_byteLength (text : String) :
    text.utf8ByteSize = byteLength text.toList := by
  rw [← length_utf8, ← bytes_eq_utf8, ← String.size_toByteArray]
  rfl

/-- A beginning of a text is a beginning of every other one that has as many bytes. -/
theorem exists_append_of_byteLength_le {cs rest cs' rest' : List Char}
    (eq : cs ++ rest = cs' ++ rest') (le : byteLength cs ≤ byteLength cs') :
    ∃ between, cs' = cs ++ between ∧ rest = between ++ rest' := by
  rcases List.append_eq_append_iff.1 eq with more | ⟨between, rfl, rfl⟩
  · exact more
  · cases between with
    | nil => exact ⟨[], by rw [List.append_nil, List.append_nil], rfl⟩
    | cons c between =>
      have := c.utf8Size_pos
      rw [byteLength_append, byteLength] at le
      omega

variable {m : Char}

/-- A mark of the ASCII set is one byte. -/
theorem utf8EncodeChar_mark (mark : m.toNat < 128) : String.utf8EncodeChar m = [m.toUInt8] := by
  refine String.utf8EncodeChar_eq_singleton ?_
  rw [Char.utf8Size_eq_one_iff, UInt32.le_iff_toNat_le]
  exact Nat.le_of_lt_succ mark

private theorem toNat_toUInt8 (mark : m.toNat < 128) : m.toUInt8.toNat = m.toNat := by
  rw [Char.toUInt8, UInt32.toNat_toUInt8]
  exact Nat.mod_eq_of_lt (Nat.lt_trans mark (by decide))

/-- The byte of a mark is in the bytes of that mark alone. -/
theorem eq_mark_of_mem {c : Char} (mark : m.toNat < 128)
    (mem : m.toUInt8 ∈ String.utf8EncodeChar c) : c = m := by
  have code := toNat_toUInt8 mark
  obtain ⟨-, same⟩ := utf8EncodeChar_of_small mem (by omega)
  rw [← Char.ofNat_toNat c, same, code, Char.ofNat_toNat]

private theorem count_utf8EncodeChar (mark : m.toNat < 128) (c : Char) :
    (String.utf8EncodeChar c).count m.toUInt8 = [c].count m := by
  by_cases same : c = m
  · subst same
    rw [utf8EncodeChar_mark mark, List.count_singleton_self, List.count_singleton_self]
  · have absent : m.toUInt8 ∉ String.utf8EncodeChar c := fun mem ↦ same (eq_mark_of_mem mark mem)
    rw [List.count_eq_zero.2 absent, List.count_cons_of_ne same, List.count_nil]

/-- A mark of the ASCII set is as often among the bytes as among the characters. -/
theorem count_utf8 (mark : m.toNat < 128) (cs : List Char) :
    (utf8 cs).count m.toUInt8 = cs.count m := by
  induction cs with
  | nil => rfl
  | cons c rest ih =>
    rw [utf8_cons, List.count_append, count_utf8EncodeChar mark, ih, ← List.count_append,
      List.singleton_append]

/-- Of a beginning of the bytes the marks are those of a beginning of the text. -/
theorem exists_prefix_of_utf8 {cs : List Char} {read : List UInt8} (h : read <+: utf8 cs) :
    ∃ before, before <+: cs ∧
      ∀ m : Char, m.toNat < 128 → read.count m.toUInt8 = before.count m := by
  induction cs generalizing read with
  | nil =>
    obtain rfl := List.prefix_nil.1 h
    exact ⟨[], List.prefix_rfl, fun m _ ↦ rfl⟩
  | cons c rest ih =>
    rw [utf8_cons] at h
    by_cases short : read.length < (String.utf8EncodeChar c).length
    · -- Within one character there is no mark, for a mark has no inside.
      have within : read <+: String.utf8EncodeChar c :=
        List.prefix_of_prefix_length_le h (List.prefix_append _ _) (by omega)
      refine ⟨[], List.nil_prefix, fun m mark ↦ ?_⟩
      rw [List.count_nil, List.count_eq_zero]
      intro mem
      obtain rfl := eq_mark_of_mem mark (within.subset mem)
      rw [utf8EncodeChar_mark mark, List.length_singleton] at short
      obtain rfl := List.length_eq_zero_iff.1 (show read.length = 0 by omega)
      contradiction
    · obtain ⟨later, rfl⟩ : String.utf8EncodeChar c <+: read :=
        List.prefix_of_prefix_length_le (List.prefix_append _ _) h (by omega)
      obtain ⟨before, pre, counts⟩ := ih ((List.prefix_append_right_inj _).1 h)
      refine ⟨c :: before, List.cons_prefix_cons.2 ⟨rfl, pre⟩, fun m mark ↦ ?_⟩
      rw [List.count_append, count_utf8EncodeChar mark, counts m mark, ← List.count_append,
        List.singleton_append]

/-- A mark stands at the place that the bytes before it lead to. -/
theorem getElem?_utf8_mark (mark : m.toNat < 128) (before after : List Char) :
    (utf8 (before ++ m :: after))[byteLength before]? = some m.toUInt8 := by
  have reached : (utf8 before).length ≤ byteLength before := Nat.le_of_eq (length_utf8 before)
  rw [utf8_append, List.getElem?_append_right reached, length_utf8, Nat.sub_self, utf8_cons,
    utf8EncodeChar_mark mark]
  rfl

/-- The byte of a mark is a mark of the text. -/
theorem exists_of_getElem?_utf8 (mark : m.toNat < 128) {cs : List Char} {i : Nat}
    (h : (utf8 cs)[i]? = some m.toUInt8) :
    ∃ before after, cs = before ++ m :: after ∧ byteLength before = i := by
  induction cs generalizing i with
  | nil => contradiction
  | cons c rest ih =>
    rw [utf8_cons] at h
    by_cases within : i < (String.utf8EncodeChar c).length
    · rw [List.getElem?_append_left within] at h
      obtain rfl := eq_mark_of_mem mark (List.mem_of_getElem? h)
      rw [utf8EncodeChar_mark mark, List.length_singleton] at within
      exact ⟨[], rest, rfl, by rw [byteLength]; omega⟩
    · rw [List.getElem?_append_right (by omega)] at h
      obtain ⟨before, after, rfl, place⟩ := ih h
      refine ⟨c :: before, after, rfl, ?_⟩
      rw [String.length_utf8EncodeChar] at place within
      rw [byteLength]
      omega

end TextTags.Text
