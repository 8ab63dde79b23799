import TextTags.Cache
import TextTags.Handler

/-!
# What filling leaves behind

A trace of what was reported, asked and called, the cache of cut texts, and a clock that only
handlers move. Filling is a computation over these that may break down.
-/

namespace TextTags

/-- Whose handler is called. -/
inductive Callee
  | base (name : String)
  | attr (kind : Kind) (name : String)
  | fallback (kind : Kind)
  | universal (name : String)
deriving DecidableEq

/-- One thing that happened. -/
inductive Event
  /-- A report of a failure. -/
  | error (message : String)
  /-- A remark on a failure. -/
  | debug (message : String)
  /-- A tag and the debug form of what it was filled with. -/
  | filled (tag value : String)
  /-- A resolution under the time limit begins. -/
  | before
  /-- A resolution under the time limit ends. -/
  | after
  /-- A resolution begins: how many others are under way. -/
  | began (depth : Nat)
  /-- A resolution has ended: how many others were under way, and what the clock read when it began
  and when it ended. -/
  | ended (depth start stop : Nat)
  | asked (lookup : Lookup)
  | called (callee : Callee)
  /-- A handler has ended without a breakdown: how many resolutions were under way, whether it gave
  a value, and whether time had run out by then. -/
  | returned (callee : Callee) (depth : Nat) (gave cancelled : Bool)
  | parsed (text : String)
  /-- A picture of a cursor, and whether time had run out. -/
  | noted (cursor : Cursor) (cancelled : Bool)

/-- What filling changes. -/
structure World where
  trace : List Event := []
  cache : Cache := {}
  /-- Nanoseconds. -/
  clock : Nat := 0

/-- Why a computation ends early. -/
inductive Stop
  /-- A breakdown with its message. -/
  | fault (message : String)
  /-- Texts were nested deeper than allowed. -/
  | exhausted
deriving DecidableEq

/-- A computation over the world. -/
abbrev Run := EStateM Stop World

namespace Run

variable {α : Type}

/-- Adds an event to the trace. -/
def emit (e : Event) : Run Unit := modify fun w => { w with trace := w.trace ++ [e] }

/-- Runs a computation and makes a value of a breakdown. What happened before it stays. -/
def contain (run : Run α) (recover : String → α) : Run α := fun w =>
  match run w with
  | .error (.fault message) w => .ok (recover message) w
  | result => result

/-- Runs a resolution at a depth, with its beginning and its end in the trace. -/
def marked (depth : Nat) (run : Run α) : Run α := do
  let start := (← get).clock
  emit (.began depth)
  let a ← run
  emit (.ended depth start (← get).clock)
  return a

/-- The cut text from the cache. -/
def parse (text : String) : Run Shared := do
  emit (.parsed text)
  let w ← get
  let (shared, cache) := w.cache.getOrParse text
  set { w with cache }
  return shared

end Run

/-- The time limit of the job under way. -/
structure Token where
  limit : Limit
  /-- The clock's reading at which time runs out. -/
  deadline : Nat
deriving DecidableEq

/-- The resolutions under way. -/
structure Scope where
  depth : Nat := 0
  token : Option Token := none
deriving DecidableEq

namespace Scope

/-- The resolutions under way in a job that starts at a reading of the clock. -/
def ofJob (limit : Limit) (clock : Nat) : Scope where
  depth := 1
  token := some ⟨limit, clock + limit.nanos⟩

/-- One resolution deeper. -/
def deeper (s : Scope) : Scope := { s with depth := s.depth + 1 }

/-- The limit that has passed, if one has. -/
def passed? (s : Scope) (clock : Nat) : Option Limit :=
  match s.token with
  | some token => if token.deadline ≤ clock then some token.limit else none
  | none => none

end Scope

end TextTags
