import TextTags.Arguments
import TextTags.Time.Moment

/-!
# The program's surroundings

What the program takes from outside: the files it may read its settings from, two variables of the
environment, the clock and the draws of random numbers. The settings come from one file; whatever is
wrong with it is reported and never stops the program.
-/

namespace TextTags.Program

/-- Why a file cannot be read. -/
inductive Unreadable
  | missing
  | notDirectory
  | denied
  | directory
  | nameTooLong
  | notText
  | other (message : String)
deriving DecidableEq

/-- The message where bytes are no text. -/
def notTextMessage : String := "stream did not contain valid UTF-8"

/-- The message for a cause. -/
def Unreadable.message : Unreadable → String
  | missing => "No such file or directory (os error 2)"
  | denied => "Permission denied (os error 13)"
  | notDirectory => "Not a directory (os error 20)"
  | directory => "Is a directory (os error 21)"
  | nameTooLong => "File name too long (os error 36)"
  | notText => notTextMessage
  | other message => message

/-- What stands at a path. -/
inductive FileContent
  | text (content : String)
  /-- Something that cannot be read. -/
  | unreadable (cause : Unreadable)
  /-- Nothing. -/
  | absent (cause : Unreadable)
deriving DecidableEq

/-- Whether there is something at a path. -/
def FileContent.exists : FileContent → Bool
  | absent _ => false
  | _ => true

/-- What the program takes from outside. -/
structure Surroundings where
  read : String → FileContent
  /-- The path of the file of settings that is tried before the usual ones. -/
  preferred : Option String := none
  home : Option String := none
  now : Time := ⟨0⟩
  draw : Draws := .least

/-- A line about something that is wrong. -/
def notice (message : String) : String := "tagfill: " ++ message

/-- The file of settings in the present directory. -/
def localFile : String := "./tagfill.conf"

/-- The file of settings in the home directory. -/
def homeFile (home : String) : String :=
  let separator := if home = "" ∨ home.toList.getLast? = some '/' then "" else "/"
  home ++ separator ++ ".tagfill.conf"

/-- The usual places of a file of settings, the first of them first. -/
def usualFiles (preferred home : Option String) : List String :=
  preferred.toList ++ localFile :: (home.map homeFile).toList

/-- All files that may be read for a choice. -/
def candidates (preferred home : Option String) : SettingsChoice → List String
  | .search => usualFiles preferred home
  | .skip => []
  | .file path => [path]

/-- The settings of one file, and lines about what is wrong with it. -/
def settingsOf (path : String) : FileContent → Settings × List String
  | .text content =>
    let (settings, defects) := Settings.ofText content
    (settings, defects.map fun d => notice (path ++ ": " ++ d.message))
  | .unreadable cause => ({}, [notice ("warning: " ++ path ++ ": " ++ cause.message)])
  | .absent cause => ({}, [notice ("warning: " ++ path ++ ": " ++ cause.message)])

/-- The settings that a choice finds, and lines about what is wrong with their file. -/
def settings (around : Surroundings) : SettingsChoice → Settings × List String
  | .skip => ({}, [])
  | .file path => settingsOf path (around.read path)
  | .search =>
    match (usualFiles around.preferred around.home).find? fun path => (around.read path).exists with
    | some path => settingsOf path (around.read path)
    | none => ({}, [])

end TextTags.Program
