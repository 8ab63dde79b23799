import TextTags.Chain.Parser

/-!
# Fragments of a text

A text is cut into literals and tags. A tag runs from an opening angle bracket to the one that
closes it; an opening bracket directly before a dash opens nothing. What looks like a tag and has no
chain in it, and brackets left over at the end, give issues to be reported.
-/

namespace TextTags

open Text

/-- A tag in a text: what stands between its angle brackets, and the chain that this is. -/
structure Tag where
  raw : String
  chain : Chain
deriving DecidableEq

/-- A stretch of a text. -/
inductive Fragment
  | literal (text : String)
  | tag (tag : Tag)
  /-- Something to report, and the text it stands for. -/
  | issue (message source : String)
deriving DecidableEq

namespace Fragment

/-- The text a fragment was cut from. -/
def source : Fragment → String
  | literal text => text
  | tag t => "<" ++ t.raw ++ ">"
  | issue _ source => source

end Fragment

/-- A text cut into fragments. -/
structure Parsed where
  fragments : List Fragment
  /-- Whether there is a tag. -/
  hasTag : Bool
deriving DecidableEq

namespace Parsed

/-- The tag that the whole text is. -/
def single? (p : Parsed) : Option Tag :=
  match p.fragments with
  | [.tag t] => some t
  | _ => none

/-- The text put together again. -/
def source (p : Parsed) : String := String.join (p.fragments.map Fragment.source)

end Parsed

namespace Tag

/-- What stands before and after the bracket that closes the ones open. -/
def close? (depth : Nat) : List Char → Option (List Char × List Char)
  | [] => none
  | c :: rest =>
    if c = '>' ∧ depth ≤ 1 then some ([], rest)
    else
      let depth := if c = '<' then depth + 1 else if c = '>' then depth - 1 else depth
      (close? depth rest).map fun (inside, after) => (c :: inside, after)

/-- The first tag: what stands before it, inside it and after it. There is none if the first bracket
that opens one is never closed. -/
def find? : List Char → Option (List Char × List Char × List Char)
  | [] => none
  | c :: rest =>
    if c = '<' ∧ rest.head? ≠ some '-' then
      (close? 1 rest).map fun (inside, after) => ([], inside, after)
    else (find? rest).map fun (before, inside, after) => (c :: before, inside, after)

private theorem eq_append_of_close {depth : Nat} {cs inside after : List Char}
    (h : close? depth cs = some (inside, after)) : cs = inside ++ '>' :: after := by
  induction cs generalizing depth inside with
  | nil => simp [close?] at h
  | cons c rest ih =>
    unfold close? at h
    split at h
    · simp_all
    · simp only [Option.map_eq_some_iff, Prod.mk.injEq] at h
      obtain ⟨⟨i, a⟩, hclose, rfl, rfl⟩ := h
      simp [ih hclose]

/-- The parts that a search for a tag finds make up the text. -/
theorem eq_append_of_find {cs before inside after : List Char}
    (h : find? cs = some (before, inside, after)) :
    cs = before ++ '<' :: inside ++ '>' :: after := by
  induction cs generalizing before with
  | nil => simp [find?] at h
  | cons c rest ih =>
    unfold find? at h
    split at h
    · simp only [Option.map_eq_some_iff, Prod.mk.injEq] at h
      obtain ⟨⟨i, a⟩, hclose, rfl, rfl, rfl⟩ := h
      simp_all [eq_append_of_close hclose]
    · simp only [Option.map_eq_some_iff, Prod.mk.injEq] at h
      obtain ⟨⟨b, i, a⟩, hfind, rfl, rfl, rfl⟩ := h
      simp [ih hfind]

/-- What follows a number of bytes; none if the text has fewer or a character is cut. -/
def dropBytes? : Nat → List Char → Option (List Char)
  | 0, cs => some cs
  | _ + 1, [] => none
  | n + 1, c :: rest => if c.utf8Size ≤ n + 1 then dropBytes? (n + 1 - c.utf8Size) rest else none
termination_by _ cs => cs.length

/-- The places, in bytes, of the two brackets of the first tag from a place on. -/
def locate? (text : String) (start : Nat) : Option (Nat × Nat) := do
  let rest ← dropBytes? start text.toList
  let (before, inside, _) ← find? rest
  let opening := start + byteLength before
  some (opening, opening + 1 + byteLength inside)

end Tag

namespace Parsed

/-- The start of the message for a tag without a chain. -/
def defectMessage (d : ChainDefect) : String := "Tag processing failed: " ++ d.message

/-- The message for brackets left over after the last tag. -/
def leftoverMessage (snippet text : String) : String :=
  "Potential issue: inconsistent tag marks in command! (issue snippet: " ++ snippet ++
    "; from: " ++ text ++ ")"

/-- A literal, unless it is empty. -/
def literal (cs : List Char) : List Fragment := if cs.isEmpty then [] else [.literal (.ofList cs)]

/-- The fragment for what stands between the brackets of a tag. -/
def tagFragment (inside : List Char) : Fragment :=
  match Chain.parseChars inside with
  | .ok chain => .tag ⟨.ofList inside, chain⟩
  | .error defect => .issue (defectMessage defect) (.ofList ('<' :: inside ++ ['>']))

/-- The fragments after the last tag. An opening bracket there is reported, unless an arrow in it
belongs to a flag. -/
def leftover (text rest : List Char) : List Fragment :=
  let warning :=
    if rest.contains '<' && !occursIn [':', '<', '-'] rest then
      [.issue (leftoverMessage (.ofList rest) (.ofList text)) ""]
    else []
  warning ++ literal rest

/-- The fragments of the rest of a text. -/
def fragmentsOf (text rest : List Char) : List Fragment :=
  match _ : Tag.find? rest with
  | none => leftover text rest
  | some (before, inside, after) =>
    literal before ++ tagFragment inside :: fragmentsOf text after
termination_by rest.length
decreasing_by
  have := Tag.eq_append_of_find ‹Tag.find? rest = some (before, inside, after)›
  simp [this]; omega

/-- Whether what stands in one of the tags of the rest of a text is a chain. -/
def anyChain (rest : List Char) : Bool :=
  match _ : Tag.find? rest with
  | none => false
  | some (_, inside, after) => (Chain.parseChars inside).isOk || anyChain after
termination_by rest.length
decreasing_by
  have := Tag.eq_append_of_find ‹Tag.find? rest = some (_, inside, after)›
  simp [this]; omega

/-- Cuts a text into fragments. A text without a tag is one literal, and so is one too short to hold
a tag with something in it. -/
def ofChars (cs : List Char) : Parsed :=
  if !cs.contains '>' || byteLength cs < 3 || (Tag.find? cs).isNone then
    ⟨[.literal (.ofList cs)], false⟩
  else ⟨fragmentsOf cs cs, anyChain cs⟩

/-- Cuts a text into fragments. -/
def ofText (text : String) : Parsed := ofChars text.toList

end Parsed

end TextTags
