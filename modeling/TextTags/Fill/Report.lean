import TextTags.Fill.World
import TextTags.Text.WordTable

/-!
# Reports of failed tags

The messages about a tag that gave no value: the failure itself, the segments that were left, the
value before them, and the names that came near.
-/

namespace TextTags

open Text

namespace Report

/-- Whether a character may stand in a word. -/
def isWordChar (c : Char) : Bool := inRanges wordRanges c

/-- Whether a text begins with a word that ends in `tag` and has more before it, with a bracket or a
dot after it. -/
def isNotation (cs : List Char) : Bool :=
  let word := cs.takeWhile isWordChar
  let ending := asciiLowerChars (word.drop (word.length - 3))
  4 ≤ word.length && ending == ['t', 'a', 'g'] &&
    match cs.dropWhile isWordChar with
    | [] => false
    | c :: _ => c == '[' || c == '.' || c == '>'

/-- Whether an angle bracket in a text opens the name of a kind as documentation writes it. -/
def holdsNotation : List Char → Bool
  | [] => false
  | c :: rest => (c == '<' && isNotation rest) || holdsNotation rest

/-- What is added to the report of a tag copied from documentation. -/
def notationNote : String :=
  " Note: ObjectTag notation like <ElementTag> is for documentation, " ++
    "and is not meant to be used literally."

/-- The report of a tag that gave no value. -/
def invalid (raw : String) (failure : Failure) : String :=
  "Tag <" ++ raw ++ "> is invalid! (" ++ failure.message ++ ")" ++
    if holdsNotation ('<' :: raw.toList ++ ['>']) then notationNote else ""

/-- The remark on the segments left. -/
def leftSegments (raw : String) (halt : Halt) : String :=
  "Unfilled or unrecognized sub-tag(s) '" ++ halt.unfilled ++ "' for tag <" ++ raw ++ ">!"

/-- The remark on the value before the halt. -/
def valueSoFar (halt : Halt) (v : Value) : String :=
  "The returned value from initial tag fragment '" ++ halt.filled ++ "' was: '" ++
    v.debugForm ++ "'."

/-- The remark on the names that came near. -/
def nearNames (halt : Halt) : String :=
  let hint := if halt.lacksParam then "missing [context] parameter?" else "possibly bad input?"
  "Almost matched but failed (" ++ hint ++ "): " ++ ", ".intercalate halt.almost

/-- All that is reported about a tag that gave no value. -/
def events (raw : String) (halt : Halt) : List Event :=
  let left := if 0 < halt.index ∧ halt.unfilled ≠ "" then [.debug (leftSegments raw halt)] else []
  let value := match halt.lastValid with
    | some v => [.debug (valueSoFar halt v)]
    | none => []
  let near := if halt.almost.isEmpty then [] else [.debug (nearNames halt)]
  .error (invalid raw halt.failure) :: left ++ value ++ near

end Report

end TextTags
