import TextTags.Text.Pieces

/-!
# Chains

The inside of a tag is a chain: a root segment and the segments after it, each a name with an
optional parameter in brackets. The last segment may carry the text that stands in when the chain
fails.
-/

namespace TextTags

open Text

/-- One segment of a chain. -/
structure Segment where
  /-- The name in lower case, by which it is looked up. -/
  key : String
  /-- The name as written. -/
  rawKey : String
  /-- The text between the brackets, unfilled. -/
  param : Option String
  /-- The text after two bars; only the last segment has one. -/
  fallback : Option String
deriving DecidableEq

namespace Segment

/-- The segment as written, without its fallback. -/
def chars (s : Segment) : List Char :=
  match s.param with
  | some p => s.rawKey.toList ++ '[' :: p.toList ++ [']']
  | none => s.rawKey.toList

/-- The segment as written, without its fallback. -/
def text (s : Segment) : String := .ofList s.chars

end Segment

/-- A tag taken apart. -/
structure Chain where
  /-- The text between the angle brackets. -/
  origin : String
  root : Segment
  rest : List Segment
deriving DecidableEq

namespace Chain

/-- All segments in order. -/
def segments (c : Chain) : List Segment := c.root :: c.rest

/-- The number of segments. -/
def length (c : Chain) : Nat := c.segments.length

/-- The last segment. -/
def last (c : Chain) : Segment := c.rest.getLastD c.root

/-- The text that stands in when the chain fails. -/
def alternative (c : Chain) : Option String := c.last.fallback

/-- The segments from one index up to another, with dots between them. -/
def join (c : Chain) (start stop : Nat) : String :=
  .ofList <| joinWith ['.'] <| ((c.segments.take stop).drop start).map Segment.chars

end Chain

end TextTags
