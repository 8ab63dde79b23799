import TextTags.Fragment

/-!
# The cache of cut texts

Every text is cut once. The result is shared under the exact text and never replaced or removed.
-/

namespace TextTags

/-- A cut text as the cache holds it, with its number among all that were stored. -/
structure Shared where
  serial : Nat
  parsed : Parsed
deriving DecidableEq

/-- The texts that have been cut, the latest first. -/
structure Cache where
  entries : List (String × Shared) := []

namespace Cache

/-- The entry for a text. -/
def find? (c : Cache) (text : String) : Option Shared := c.entries.lookup text

/-- The number of entries. -/
def size (c : Cache) : Nat := c.entries.length

/-- Stores a cut text unless there is an entry, and gives the entry that is there in the end. -/
def insertIfAbsent (c : Cache) (text : String) (parsed : Parsed) : Shared × Cache :=
  match c.find? text with
  | some shared => (shared, c)
  | none =>
    let shared := ⟨c.size, parsed⟩
    (shared, ⟨(text, shared) :: c.entries⟩)

/-- The entry for a text, cut and stored if there was none. -/
def getOrParse (c : Cache) (text : String) : Shared × Cache :=
  match c.find? text with
  | some shared => (shared, c)
  | none => c.insertIfAbsent text (Parsed.ofText text)

end Cache

end TextTags
