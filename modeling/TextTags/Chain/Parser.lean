import TextTags.Text.Case
import TextTags.Chain.Basic

/-!
# Reading chains

Two bars outside all brackets begin the alternative. Before them, dots outside all brackets part
the segments, and a segment has at most one group in square brackets, which ends it. Parameters are
not looked into.
-/

namespace TextTags

open Text

/-- What is wrong with the inside of a tag. -/
inductive ChainDefect
  | empty
  /-- A closing bracket with none open. -/
  | strayClose (body : String)
  /-- An opening bracket that is never closed. -/
  | unclosed (body : String)
  | emptySegment (body : String)
  | textAfterClose (part : String)
deriving DecidableEq

/-- The message for a defect. -/
def ChainDefect.message : ChainDefect → String
  | empty => "empty tag"
  | strayClose body => "unexpected ']' in '" ++ body ++ "'"
  | unclosed body => "unclosed '[' in '" ++ body ++ "'"
  | emptySegment body => "empty segment in '" ++ body ++ "'"
  | textAfterClose part => "unexpected text after ']' in '" ++ part ++ "'"

namespace Chain

/-- What stands before and after the first two bars at which as many brackets of each sort have
been closed as opened. The numbers count the brackets open so far. -/
def cutAlternative (square angle : Int) : List Char → List Char × Option (List Char)
  | [] => ([], none)
  | c :: rest =>
    if c = '|' ∧ square = 0 ∧ angle = 0 ∧ rest.head? = some '|' then ([], some rest.tail)
    else
      let square := if c = '[' then square + 1 else if c = ']' then square - 1 else square
      let angle := if c = '<' then angle + 1 else if c = '>' then angle - 1 else angle
      let (before, after) := cutAlternative square angle rest
      (c :: before, after)

/-- What goes wrong when brackets are counted. -/
inductive Imbalance
  | strayClose | unclosed
deriving DecidableEq

/-- The stretches between the dots outside all brackets. A closing angle bracket with none open is
an ordinary character; square brackets must match. -/
def cutSegments (square angle : Nat) : List Char → Except Imbalance (List (List Char))
  | [] => if square = 0 then .ok [[]] else .error .unclosed
  | c :: rest =>
    if c = '.' ∧ square = 0 ∧ angle = 0 then (cutSegments square angle rest).map ([] :: ·)
    else if c = ']' ∧ square = 0 then .error .strayClose
    else
      let square := if c = '[' then square + 1 else if c = ']' then square - 1 else square
      let angle := if c = '<' then angle + 1 else if c = '>' then angle - 1 else angle
      (cutSegments square angle rest).map fun pieces =>
        match pieces with
        | [] => [[c]]
        | piece :: others => (c :: piece) :: others

/-- What stands before and after the bracket that closes the ones open. -/
def cutGroup (depth : Nat) : List Char → Option (List Char × List Char)
  | [] => none
  | c :: rest =>
    if c = ']' ∧ depth ≤ 1 then some ([], rest)
    else
      let depth := if c = '[' then depth + 1 else if c = ']' then depth - 1 else depth
      (cutGroup depth rest).map fun (inside, after) => (c :: inside, after)

/-- A segment with the given name and parameter. -/
def segment (name : List Char) (param : Option (List Char)) : Segment where
  key := .ofList (lowerChars name)
  rawKey := .ofList name
  param := param.map .ofList
  fallback := none

/-- Reads one segment. -/
def parseSegment (part : List Char) : Except ChainDefect Segment :=
  match splitOnce '[' part with
  | none => .ok (segment part none)
  | some (name, inner) =>
    match cutGroup 1 inner with
    | none => .error (.unclosed (.ofList part))
    | some (param, []) => .ok (segment name (some param))
    | some (_, _ :: _) => .error (.textAfterClose (.ofList part))

/-- Cuts the body of a tag into segments, none of which is empty. -/
def bodySegments (body : List Char) : Except ChainDefect (List (List Char)) :=
  match cutSegments 0 0 body with
  | .error .strayClose => .error (.strayClose (.ofList body))
  | .error .unclosed => .error (.unclosed (.ofList body))
  | .ok parts =>
    if parts.any List.isEmpty then .error (.emptySegment (.ofList body)) else .ok parts

/-- The name that a root segment without a name stands for. -/
def unnamedRootKey : String := "definition"

/-- A root segment, named where it has no name. -/
def rootSegment (s : Segment) : Segment :=
  if s.rawKey = "" then { s with key := unnamedRootKey } else s

/-- The segments with a fallback on the last one. -/
def withFallback (fallback : Option String) (root : Segment) : List Segment → Segment × List Segment
  | [] => ({ root with fallback }, [])
  | s :: rest =>
    let (next, others) := withFallback fallback s rest
    (root, next :: others)

/-- Reads the inside of a tag. -/
def parseChars (raw : List Char) : Except ChainDefect Chain :=
  if raw.isEmpty then .error .empty
  else
    let (body, fallback) := cutAlternative 0 0 raw
    match bodySegments body with
    | .error defect => .error defect
    | .ok parts =>
      match parts.mapM parseSegment with
      | .error defect => .error defect
      | .ok [] => .error (.emptySegment (.ofList body))
      | .ok (first :: others) =>
        let (root, rest) := withFallback (fallback.map .ofList) (rootSegment first) others
        .ok { origin := .ofList raw, root, rest }

/-- Reads the inside of a tag. -/
def parse (raw : String) : Except ChainDefect Chain := parseChars raw.toList

end Chain

end TextTags
