import Mathlib.Data.List.Basic

/-!
# The bytes of a text

A text in UTF-8. A byte below 128 in it is a character of its own, so that a line of bytes ends
where the line of text does.
-/

namespace TextTags.Text

/-- The bytes of a text in UTF-8. -/
def bytes (text : String) : List UInt8 := text.toByteArray.data.toList

/-- Bytes are those of the text that is read from them. -/
theorem fromUTF8?_eq_some_iff {read : List UInt8} {text : String} :
    String.fromUTF8? ⟨read.toArray⟩ = some text ↔ bytes text = read := by
  unfold String.fromUTF8?
  constructor
  · intro found
    split at found
    · obtain rfl := Option.some.inj found
      rfl
    · contradiction
  · rintro rfl
    exact dif_pos text.isValidUTF8

/-- The bytes of two texts follow one another. -/
theorem bytes_append (text more : String) : bytes (text ++ more) = bytes text ++ bytes more := by
  rw [bytes, String.toByteArray_append, ByteArray.toList_data_append, bytes, bytes]

/-- The bytes of a text are those of its characters. -/
theorem bytes_eq_flatMap (text : String) :
    bytes text = text.toList.flatMap String.utf8EncodeChar := by
  rw [bytes, ← String.utf8Encode_toList, List.utf8Encode, List.data_toByteArray]

/-- A byte below 128 is all of a character. -/
theorem utf8EncodeChar_of_small {c : Char} {b : UInt8} (mem : b ∈ String.utf8EncodeChar c)
    (small : b.toNat < 128) : String.utf8EncodeChar c = [b] ∧ c.toNat = b.toNat := by
  have code : c.toNat = c.val.toNat := rfl
  unfold String.utf8EncodeChar at mem ⊢
  rw [code]
  generalize c.val.toNat = v at *
  dsimp only at *
  split at mem
  · next low =>
    obtain rfl := List.mem_singleton.1 mem
    rw [if_pos low]
    exact ⟨rfl, by simp; omega⟩
  · exfalso
    have high (n : Nat) (bounds : 128 ≤ n ∧ n < 256) : b ≠ UInt8.ofNat n := by
      rintro rfl
      rw [UInt8.toNat_ofNat'] at small
      omega
    split at mem
    · obtain eq | eq := List.mem_pair.1 mem <;> exact high _ (by omega) eq
    split at mem
    all_goals
      simp only [List.mem_cons, List.not_mem_nil, or_false] at mem
    · obtain eq | eq | eq := mem <;> exact high _ (by omega) eq
    · obtain eq | eq | eq | eq := mem <;> exact high _ (by omega) eq

/-- A character of one byte is in a text where its byte is. -/
theorem mem_of_mem_bytes {text : String} {b : UInt8} (mem : b ∈ bytes text)
    (small : b.toNat < 128) : Char.ofNat b.toNat ∈ text.toList := by
  rw [bytes_eq_flatMap] at mem
  obtain ⟨c, there, within⟩ := List.mem_flatMap.1 mem
  rw [← (utf8EncodeChar_of_small within small).2, Char.ofNat_toNat]
  exact there

/-- A text ends in a character of one byte where its bytes end in it. -/
theorem getLast?_of_getLast?_bytes {text : String} {b : UInt8}
    (last : (bytes text).getLast? = some b) (small : b.toNat < 128) :
    text.toList.getLast? = some (Char.ofNat b.toNat) := by
  rw [bytes_eq_flatMap] at last
  generalize text.toList = cs at *
  obtain rfl | ⟨init, c, rfl⟩ := cs.eq_nil_or_concat
  · contradiction
  · rw [List.concat_eq_append, List.flatMap_append, List.flatMap_singleton,
      List.getLast?_append_of_ne_nil _ String.utf8EncodeChar_ne_nil] at last
    have code := (utf8EncodeChar_of_small (List.mem_of_getLast? last) small).2
    rw [List.concat_eq_append, List.getLast?_concat, ← code, Char.ofNat_toNat]

end TextTags.Text
