import TextTags.Chain.Basic
import TextTags.Failure

/-!
# Outcomes

Resolving a chain fulfils every segment or halts at one. A halt says how far the chain came, what
the last value was, and which names came near.
-/

namespace TextTags

/-- How far a chain has come. -/
structure Progress where
  /-- The segments fulfilled so far. -/
  fulfilled : Nat := 0
  /-- The value of the segments fulfilled so far. -/
  lastValid : Option Value := none
  /-- The names that matched and gave nothing. -/
  seeming : List String := []
  /-- Whether a handler missed a parameter. -/
  lacksParam : Bool := false

/-- Where and why a chain stopped. -/
structure Halt where
  index : Nat
  total : Nat
  lastValid : Option Value
  /-- The segments before the halt as written. -/
  filled : String
  /-- The segments from the halt on as written. -/
  unfilled : String
  /-- The names that nearly matched the failing segment. -/
  almost : List String
  lacksParam : Bool
  failure : Failure

/-- What comes of a chain. -/
inductive Outcome
  | fulfilled (value : Value) (count : Nat)
  | halted (halt : Halt)

/-- Adds the names that are not there yet. -/
def addNames (names : List String) : List String → List String
  | [] => names
  | name :: rest => addNames (if names.contains name then names else names ++ [name]) rest

namespace Progress

/-- The number up to which segments are counted: the largest of 64 bits. No chain in a memory is
longer, and one that was could be counted to its end. -/
def countLimit (total : Nat) : Nat := max total (Nat.pow 2 64 - 1)

/-- Whether the number of a place so far ahead can be formed. -/
def canCount (p : Progress) (ahead total : Nat) : Bool := ahead ≤ countLimit total - p.fulfilled

/-- Counts more segments as fulfilled, never past the end of the chain. -/
def fulfill (p : Progress) (count total : Nat) : Progress :=
  { p with fulfilled := min (p.fulfilled + count) total }

/-- Notes a name that matched and gave nothing. -/
def seem (p : Progress) (name : String) : Progress :=
  { p with seeming := addNames p.seeming [name] }

/-- One more segment fulfilled, with its value. -/
def advance (p : Progress) (value : Value) (total : Nat) : Progress :=
  { p.fulfill 1 total with lastValid := some value }

/-- The halt at the present segment. -/
def halt (p : Progress) (chain : Chain) (failure : Failure) (near : List String) : Halt where
  index := p.fulfilled
  total := chain.length
  lastValid := p.lastValid
  filled := chain.join 0 p.fulfilled
  unfilled := chain.join p.fulfilled chain.length
  almost := addNames p.seeming near
  lacksParam := p.lacksParam
  failure := failure

end Progress

/-- The halt of a chain of which nothing was fulfilled. -/
def Halt.atRoot (chain : Chain) (failure : Failure) : Halt :=
  ({} : Progress).halt chain failure []

end TextTags
