import TextTags.Core.Registry
import TextTags.Fill.Text
import TextTags.Host.Memory
import TextTags.Program.Source

/-!
# The program

The program fills the texts of its command line, or else the lines of its input, and writes each
filled text as a line. Its definitions live in a queue of their own. Reports go to the error output.
-/

namespace TextTags.Program

open Text

/-- The queue in which the definitions of the settings live. -/
def queue : String := "cli"

/-- The exit code after an argument that cannot be used. -/
def badArguments : Nat := 2

/-- The exit code after input that is no text. -/
def badInput : Nat := 1

/-- The exit code after a breakdown. -/
def brokenDown : Nat := 101

/-- A run of the program. -/
structure Session where
  env : Env
  world : World := {}
  /-- Whether remarks are written too, and not only failures. -/
  remarks : Bool := false
  /-- Whether the texts to fill are the lines of the input. -/
  readsInput : Bool := false
  /-- The bytes of a line that has not ended. -/
  pending : List UInt8 := []
  /-- What has been written. -/
  out : String := ""
  /-- What has been written to the error output. -/
  err : String := ""
  /-- The exit code, once the program has to stop. -/
  exit? : Option Nat := none

/-- A character of a report as it is written: the control characters that move a terminal are
spelled out. -/
def reportChar (c : Char) : List Char :=
  let code := c.toNat
  if code = 0x1b ∨ code = 0x07 ∨ code = 0x08 ∨ code = 0x0c ∨ code = 0x7f then
    '\\' :: 'x' :: padStart 2 '0' (Nat.toDigits 16 code)
  else if 0x80 ≤ code ∧ code ≤ 0x9f then '\\' :: 'u' :: '\x7b' :: Nat.toDigits 16 code ++ ['\x7d']
  else [c]

/-- A line of the error output about a text filled at a site. -/
def reportLine (level message : String) (site : Site) : String :=
  level ++ " " ++ .ofList (message.toList.flatMap reportChar) ++ " entry=" ++ site.text

/-- The line that an event writes, if it writes one. -/
def eventLine? (remarks : Bool) (site : Site) : Event → Option String
  | .error message => some (reportLine "ERROR" message site)
  | .debug message => if remarks then some (reportLine "DEBUG" message site) else none
  | .filled tag value =>
    if remarks then some (reportLine "DEBUG" ("<" ++ tag ++ "> was filled with " ++ value) site)
    else none
  | _ => none

namespace Session

/-- Ends a line. -/
def line (text : String) : String := text ++ "\n"

/-- Writes the lines of the events of a world, and keeps the rest of it. -/
def settle (s : Session) (w : World) : Session :=
  let lines := w.trace.filterMap (eventLine? s.remarks s.env.context.site)
  { s with world := { w with trace := [] }, err := s.err ++ String.join (lines.map line) }

/-- A number of levels at which no text is exhausted: each nested text is shorter than the one it is
nested in. -/
def levels (text : String) : Nat := text.length + 1

/-- Fills one text, unless the program has to stop. -/
def fill (s : Session) (text : String) : Session :=
  if s.exit?.isSome then s
  else match (s.env.fillString (levels text) text).run s.world with
    | .ok filled w =>
      let s := s.settle w
      { s with out := s.out ++ line filled }
    | .error _ w => { s.settle w with exit? := some brokenDown }

/-- Stops because of input that is no text. -/
def refuse (s : Session) : Session :=
  { s with err := s.err ++ line (notice notTextMessage), exit? := some badInput }

/-- Fills a line of the input, unless the program has to stop. -/
def fillLine (s : Session) (bytes : List UInt8) : Session :=
  if s.exit?.isSome then s
  else match String.fromUTF8? ⟨bytes.toArray⟩ with
    | some text => s.fill text
    | none => s.refuse

/-- The byte that ends a line. -/
def newline : UInt8 := 10

/-- A line that has ended, without the carriage return that may end it too. -/
def withoutReturn (bytes : List UInt8) : List UInt8 :=
  if bytes.getLast? = some 13 then bytes.dropLast else bytes

/-- Takes more of the input: fills the lines that have ended, and keeps the rest. `read` holds the
bytes of the present line in reverse. -/
def receiveAfter (s : Session) (read : List UInt8) : List UInt8 → Session
  | [] => { s with pending := read.reverse }
  | byte :: rest =>
    if byte = newline then (s.fillLine (withoutReturn read.reverse)).receiveAfter [] rest
    else s.receiveAfter (byte :: read) rest

/-- Takes more of the input. -/
def receive (s : Session) (bytes : List UInt8) : Session := s.receiveAfter s.pending.reverse bytes

/-- Takes the end of the input: a last line may lack its end. -/
def finish (s : Session) : Session :=
  if s.pending.isEmpty then s else { s.fillLine s.pending with pending := [] }

/-- The exit code of a run that has come to its end. -/
def code (s : Session) : Nat := s.exit?.getD 0

end Session

/-- The host of the program: its queue with the definitions of the settings. -/
def host (settings : Settings) : Host :=
  let definitions := settings.definitions.map fun d => (d.1, Value.element d.2)
  (({} : Memory).withQueue queue definitions).host

/-- What the program fills its texts with. -/
def env (settings : Settings) (around : Surroundings) : Env where
  registry := Registry.core
  host := host settings
  context := { settings.context with
    site := { queue := some queue }
    now := around.now
    draw := around.draw }

/-- The run for arguments that cannot be used. -/
def misused (defect : ArgumentDefect) (around : Surroundings) : Session where
  env := env {} around
  err := String.join [Session.line (notice defect.message), Session.line Arguments.usage]
  exit? := some badArguments

/-- The run for arguments, up to the point where the input is needed. -/
def prepare (args : Arguments) (around : Surroundings) : Session :=
  let (found, notices) := settings around args.settings
  let chosen := args.override found
  let opened : Session := {
    env := env chosen around
    remarks := args.debug || args.verbose
    readsInput := args.texts.isEmpty
    err := String.join (notices.map Session.line) }
  match (Pool.create? chosen.workers : Option (Pool Unit)) with
  | some _ => args.texts.foldl Session.fill opened
  | none => { opened with exit? := some brokenDown }

/-- Begins a run of the program. -/
def start (args : List String) (around : Surroundings) : Session :=
  match Arguments.parse args with
  | .ok args => prepare args around
  | .error defect => misused defect around

/-- The whole run of the program on an input. -/
def run (args : List String) (around : Surroundings) (input : List UInt8) : Session :=
  let opened := start args around
  if opened.readsInput then (opened.receive input).finish else opened

end TextTags.Program
