import TextTags.Host.Context
import TextTags.Number.Decimal
import TextTags.Pool.Basic

/-!
# Settings

A file of settings has one pair of a key and a value a line, with a colon between them. Empty lines
and lines that begin with a number sign say nothing. A line that cannot be used is reported with its
number, and the others hold.
-/

namespace TextTags

open Text Number

/-- What a file of settings can set. -/
structure Settings where
  /-- The time limit in seconds. -/
  timeout : Float := defaultTimeout
  /-- Whether the time limit holds without `debug` as well. -/
  timeBoxWhenSilent : Bool := false
  workers : Nat := Pool.defaultWorkers
  /-- Whether every filled tag is reported. -/
  debug : Bool := false
  /-- Whether failures are reported. -/
  showErrors : Bool := true
  /-- Names with their texts, in the order in which the names first came. -/
  definitions : List (String × String) := []

/-- What is wrong with a line of settings. -/
inductive SettingDefect
  | missingColon
  | unknownKey (key : String)
  | invalidValue (key value : String)
deriving DecidableEq

/-- The message for a defect. -/
def SettingDefect.message : SettingDefect → String
  | missingColon => "expected `key: value`"
  | unknownKey key => "unknown key `" ++ key ++ "`"
  | invalidValue key value => "invalid value `" ++ value ++ "` for `" ++ key ++ "`"

/-- A defect with the number of its line, counted from 1. -/
structure LineDefect where
  line : Nat
  defect : SettingDefect
deriving DecidableEq

/-- The message for a defect of a line. -/
def LineDefect.message (d : LineDefect) : String :=
  "line " ++ .ofList (natDigits d.line) ++ ": " ++ d.defect.message

namespace Settings

/-- Reads a truth value, in any letter case. -/
def bool? (value : String) : Option Bool :=
  let word := String.ofList (asciiLowerChars value.toList)
  if ["true", "yes", "on", "1"].contains word then some true
  else if ["false", "no", "off", "0"].contains word then some false
  else none

/-- Reads a number of seconds. -/
def seconds? (value : String) : Option Float := (anyFloat? value.toList).filter Float.isFinite

/-- Reads a positive number of workers, below `2 ^ 64`. -/
def workers? (value : String) : Option Nat :=
  (nat? value.toList).filter fun n => 0 < n && n < Nat.pow 2 64

/-- Sets a definition, in place if its name is there and at the end if it is not. -/
def define (name text : String) : List (String × String) → List (String × String)
  | [] => [(name, text)]
  | d :: rest => if d.1 = name then (name, text) :: rest else d :: define name text rest

/-- What the keys of definitions begin with. -/
def definitionStart : List Char := "definitions.".toList

/-- The name that a key defines, if it is the key of a definition. -/
def definitionName? (key : String) : Option (List Char) :=
  if definitionStart.isPrefixOf key.toList then some (key.toList.drop definitionStart.length)
  else none

/-- Sets a key that is not that of a definition. -/
def setKey (s : Settings) (key value : String) : Except SettingDefect Settings :=
  let use {α : Type} (read : Option α) (set : α → Settings) : Except SettingDefect Settings :=
    match read with
    | some a => .ok (set a)
    | none => .error (.invalidValue key value)
  if key = "tags.timeout" then use (seconds? value) fun x => { s with timeout := x }
  else if key = "tags.timeout_when_silent" then
    use (bool? value) fun b => { s with timeBoxWhenSilent := b }
  else if key = "tags.workers" then use (workers? value) fun n => { s with workers := n }
  else if key = "debug.enabled" then use (bool? value) fun b => { s with debug := b }
  else if key = "debug.show_errors" then use (bool? value) fun b => { s with showErrors := b }
  else .error (.unknownKey key)

/-- Sets a key. The names of definitions are kept in lower case. -/
def set (s : Settings) (key value : String) : Except SettingDefect Settings :=
  match definitionName? key with
  | some [] => .error (.unknownKey key)
  | some name =>
    .ok { s with definitions := define (.ofList (lowerChars name)) value s.definitions }
  | none => s.setKey key value

/-- Applies a line that says something. -/
def applyLine (s : Settings) (line : List Char) : Except SettingDefect Settings :=
  match splitOnce ':' line with
  | none => .error .missingColon
  | some (key, value) => s.set (.ofList (trim key)) (.ofList (trim value))

/-- Whether a line without the blanks around it says nothing. -/
def isIdle (line : List Char) : Bool := line.isEmpty || line.head? == some '#'

/-- Applies lines one after another, the first having the given number. -/
def applyLines (s : Settings) (number : Nat) :
    List (List Char) → Settings × List LineDefect
  | [] => (s, [])
  | raw :: rest =>
    let line := trim raw
    if isIdle line then s.applyLines (number + 1) rest
    else match s.applyLine line with
      | .ok next => next.applyLines (number + 1) rest
      | .error defect =>
        let (final, defects) := s.applyLines (number + 1) rest
        (final, ⟨number, defect⟩ :: defects)

/-- Reads a file of settings: the settings, and what is wrong with it. -/
def ofText (text : String) : Settings × List LineDefect :=
  applyLines {} 1 (splitWhere (· == '\n') text.toList)

/-- The context with these settings. -/
def context (s : Settings) : Context where
  debug := s.debug
  timeout := s.timeout
  showErrors := s.showErrors
  timeBoxWhenSilent := s.timeBoxWhenSilent

end Settings

end TextTags
