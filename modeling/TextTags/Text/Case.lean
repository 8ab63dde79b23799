import TextTags.Text.Blank
import TextTags.Text.CaseTable
import TextTags.Text.CasedTable

/-!
# Letter case

Full Unicode lower and upper case of a text, and case-insensitive comparison over the ASCII
letters alone. Names of bases, attributes, definitions and containers are compared in lower case;
prefixes of identities and keys of maps are compared by ASCII case only.
-/

namespace TextTags.Text

/-- Whether a run of a case table holds a code point. -/
def CaseRun.holds (r : CaseRun) (n : Nat) : Bool :=
  r.first ≤ n && n ≤ r.last && (n - r.first) % r.stride == 0

/-- The code point a case table gives, the code point itself where the table is silent. -/
def mapCode (table : List CaseRun) (n : Nat) : Nat :=
  match table.find? (·.holds n) with
  | some r => (n + r.shift).toNat
  | none => n

/-- The lower-case form of an ASCII letter, every other character itself. -/
def asciiLower (c : Char) : Char :=
  if 'A' ≤ c ∧ c ≤ 'Z' then Char.ofNat (c.toNat + 32) else c

/-- The upper-case form of an ASCII letter, every other character itself. -/
def asciiUpper (c : Char) : Char :=
  if 'a' ≤ c ∧ c ≤ 'z' then Char.ofNat (c.toNat - 32) else c

/-- The lower-case form of one character, outside any word. -/
def lowerChar (c : Char) : List Char :=
  if c.toNat < 128 then [asciiLower c]
  else if c = 'İ' then ['i', '\u0307']
  else [Char.ofNat (mapCode lowerRuns c.toNat)]

/-- The upper-case form of one character. -/
def upperChar (c : Char) : List Char :=
  if c.toNat < 128 then [asciiUpper c]
  else match upperExpansions.lookup c.toNat with
    | some codes => codes.map Char.ofNat
    | none => [Char.ofNat (mapCode upperRuns c.toNat)]

/-- Whether the nearest character that counts is a letter with a case. -/
def meetsCased (cs : List Char) : Bool :=
  match cs.dropWhile (inRanges caseIgnorableRanges) with
  | [] => false
  | c :: _ => inRanges casedRanges c

/-- Lower case of the text after `before`, which is given in reverse: a capital sigma becomes a
final one where a letter precedes it in its word and none follows. -/
def lowerAfter (before : List Char) : List Char → List Char
  | [] => []
  | c :: rest =>
    let low := if c = 'Σ' then
        if meetsCased before && !meetsCased rest then ['ς'] else ['σ']
      else lowerChar c
    low ++ lowerAfter (c :: before) rest

/-- The lower-case form of a text. -/
def lowerChars (cs : List Char) : List Char := lowerAfter [] cs

/-- The upper-case form of a text. -/
def upperChars (cs : List Char) : List Char := cs.flatMap upperChar

/-- The lower-case form of a text. -/
def lower (s : String) : String := .ofList (lowerChars s.toList)

/-- The upper-case form of a text. -/
def upper (s : String) : String := .ofList (upperChars s.toList)

/-- The text with its ASCII letters in lower case. -/
def asciiLowerChars (cs : List Char) : List Char := cs.map asciiLower

/-- Whether two texts agree when the case of ASCII letters is ignored. -/
def sameIgnoringCase (a b : List Char) : Bool := asciiLowerChars a == asciiLowerChars b

/-- What follows a given start of a text, the start being compared by ASCII case only. -/
def dropStart? (start cs : List Char) : Option (List Char) :=
  if sameIgnoringCase (cs.take start.length) start then some (cs.drop start.length) else none

end TextTags.Text
