import TextTags.Limit
import TextTags.Number.Draws
import TextTags.Time.Moment

/-!
# The caller's settings

Where in the scripts a text is filled, and how: with which reports, under which time limit.
-/

namespace TextTags

open Text Number

/-- The place in a script from which a text is filled. -/
structure Site where
  script : Option String := none
  queue : Option String := none
  line : Option Nat := none
deriving DecidableEq

/-- The place for people: script and line, then the queue in brackets. -/
def Site.text (s : Site) : String :=
  let place := match s.script, s.line with
    | some script, some line => script ++ ":" ++ .ofList (natDigits line)
    | some script, none => script
    | none, _ => "<no script>"
  match s.queue with
  | some queue => place ++ " [" ++ queue ++ "]"
  | none => place

/-- The time limit that a number of seconds asks for. -/
inductive TimeLimit
  | unlimited
  | within (limit : Limit)
  /-- The number is too large for a limit. -/
  | unrepresentable
deriving DecidableEq

/-- The limit of a number of seconds: none for numbers that are not positive or not finite. -/
def TimeLimit.ofSeconds (seconds : Float) : TimeLimit :=
  if 0.0 < seconds ∧ seconds.isFinite then
    match Limit.ofSeconds? seconds with
    | some limit => .within limit
    | none => .unrepresentable
  else .unlimited

/-- The time limit in seconds where none is set. -/
def defaultTimeout : Float := 10.0

/-- What filling a text needs to know about its caller. -/
structure Context where
  /-- Whether every filled tag is reported. -/
  debug : Bool := false
  site : Site := {}
  /-- The time limit in seconds. -/
  timeout : Float := defaultTimeout
  /-- Whether failures are reported. -/
  showErrors : Bool := true
  /-- Whether the time limit holds without `debug` as well. -/
  timeBoxWhenSilent : Bool := false
  /-- The present time. -/
  now : Time := ⟨0⟩
  /-- The draws of the random numbers that handlers ask for, and of the ranges that they read. -/
  draw : Draws := .least

namespace Context

/-- The context without reports of failures. -/
def silent (c : Context) : Context := { c with showErrors := false }

/-- The time limit of a context. -/
def timeLimit (c : Context) : TimeLimit := TimeLimit.ofSeconds c.timeout

end Context

end TextTags
