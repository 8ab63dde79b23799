import TextTags.Host.Custom
import TextTags.Outcome

/-!
# Handlers

A base or an attribute is a handler: a computation that looks at the chain, asks to have parameters
filled, and ends in a value, in none, or in a breakdown. It is plain data, a tree of queries, and
does nothing until a chain is resolved.
-/

namespace TextTags

/-- What a handler sees of the chain in hand. Places are counted from the first segment that is not
fulfilled. -/
structure Cursor extends Progress where
  chain : Chain

namespace Cursor

/-- The segments that are not fulfilled. -/
def remaining (c : Cursor) : Nat := c.chain.length - c.fulfilled

/-- The segment at a place, if the chain is as long. There is none at a place whose number cannot be
formed, where a handler that counts or fills breaks down. -/
def segment? (c : Cursor) (offset : Nat) : Option Segment :=
  c.chain.segments[c.fulfilled + offset]?

/-- The name at a place, in lower case. -/
def key? (c : Cursor) (offset : Nat) : Option String := (c.segment? offset).map (·.key)

/-- The unfilled parameter at a place. -/
def param? (c : Cursor) (offset : Nat) : Option String := (c.segment? offset).bind (·.param)

/-- Whether the segment at a place has a parameter. -/
def hasParam (c : Cursor) (offset : Nat) : Bool := (c.param? offset).isSome

/-- Whether the segment at a place has a name. -/
def isNamed (c : Cursor) (offset : Nat) (key : String) : Bool := c.key? offset == some key

/-- The fulfilled segments as written. -/
def filled (c : Cursor) : String := c.chain.join 0 c.fulfilled

/-- The segments that are not fulfilled as written. -/
def unfilled (c : Cursor) : String := c.chain.join c.fulfilled c.chain.length

end Cursor

/-- What a handler can ask for. -/
inductive Query
  /-- The chain in hand. -/
  | cursor
  /-- To count more segments as fulfilled; a breakdown where the number of them overflows. -/
  | fulfill (count : Nat)
  /-- To note a name that matched and gave nothing. -/
  | seem (name : String)
  /-- To note that a parameter is missing. -/
  | lackParam
  /-- The filled parameter at a place; none once time has run out, and otherwise a breakdown where
  the number of the place overflows. -/
  | param (offset : Nat)
  /-- A text filled in the same context. -/
  | fill (text : String)
  /-- An answer of the host. -/
  | host (lookup : Lookup)
  /-- The settings of the caller. -/
  | context
  /-- How many resolutions are under way. -/
  | depth
  /-- Whether time has run out. -/
  | cancelled
  /-- To let time pass. -/
  | elapse (nanos : Nat)
  /-- To wait until time has run out; no wait without a time limit. -/
  | awaitCancel
  /-- To leave a picture of the cursor in the trace. -/
  | note
deriving DecidableEq

/-- The type of the answer to a query. -/
abbrev Query.Answer : Query → Type
  | cursor => Cursor
  | fulfill _ => Unit
  | seem _ => Unit
  | lackParam => Unit
  | param _ => Option Value
  | fill _ => Value
  | host lookup => lookup.Answer
  | context => Context
  | depth => Nat
  | cancelled => Bool
  | elapse _ => Unit
  | awaitCancel => Unit
  | note => Unit

/-- A computation that asks queries. -/
inductive Handler (α : Type) : Type
  | done (a : α)
  /-- A breakdown with its message. -/
  | fault (message : String)
  | ask (query : Query) (next : query.Answer → Handler α)

namespace Handler

variable {α β : Type}

/-- One handler after another. -/
def bind (h : Handler α) (f : α → Handler β) : Handler β :=
  match h with
  | done a => f a
  | fault message => fault message
  | ask query next => ask query fun answer => bind (next answer) f

instance : Monad Handler where
  pure := done
  bind := bind

/-- The answer to one query. -/
def query (q : Query) : Handler q.Answer := ask q done

/-- The chain in hand. -/
def cursor : Handler Cursor := query .cursor

/-- The settings of the caller. -/
def context : Handler Context := query .context

/-- An answer of the host. -/
def host (l : Lookup) : Handler l.Answer := query (.host l)

/-- Counts more segments as fulfilled. -/
def fulfill (count : Nat) : Handler Unit := query (.fulfill count)

/-- Notes that a parameter is missing. -/
def lackParam : Handler Unit := query .lackParam

/-- The filled parameter at a place. -/
def param (offset : Nat) : Handler (Option Value) := query (.param offset)

/-- A handler that may end without a value. -/
abbrev Attempt := OptionT Handler

/-- A value that a handler may not give. -/
def Attempt.of (h : Handler (Option α)) : Attempt α := h

/-- A value that may be missing. -/
def Attempt.ofOption (a : Option α) : Attempt α := OptionT.mk (.done a)

/-- The filled parameter at a place. -/
def Attempt.param (offset : Nat) : Attempt Value := .of (Handler.param offset)

/-- A value as one of a kind, with the caller's draws for the ranges in it. -/
def Attempt.convert (kind : Kind) (v : Value) : Attempt Value := do
  let caller ← context
  .of (kind.convert host v caller.draw)

/-- The filled parameter at a place as a value of one kind. -/
def Attempt.paramAs (kind : Kind) (offset : Nat) : Attempt Value := do
  Attempt.convert kind (← Attempt.param offset)

/-- The filled parameter at a place as text. -/
def Attempt.paramText (offset : Nat) : Attempt String := do
  return (← Attempt.param offset).asElement

/-- The filled parameter at a place as a duration. -/
def Attempt.paramDuration (offset : Nat) : Attempt Duration := do
  match ← Attempt.paramAs .duration offset with
  | .duration d => pure d
  | _ => failure

/-- The filled parameter at a place as a time. -/
def Attempt.paramTime (offset : Nat) : Attempt Time := do
  match ← Attempt.paramAs .time offset with
  | .time t => pure t
  | _ => failure

end Handler

end TextTags
