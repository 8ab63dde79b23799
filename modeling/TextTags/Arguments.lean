import TextTags.Settings

/-!
# Arguments

The arguments of the command line are options and texts. Options are letters after a dash, several
of them in one argument if need be; an option with a value takes the rest of its argument, or the
next one. After two dashes alone there are texts only.
-/

namespace TextTags

open Number

/-- Where the file of settings is. -/
inductive SettingsChoice
  /-- The first of the usual places where there is one. -/
  | search
  /-- There is none. -/
  | skip
  | file (path : String)
deriving DecidableEq

/-- What the command line asks for. -/
structure Arguments where
  settings : SettingsChoice := .search
  /-- A time limit in seconds, over that of the settings. -/
  timeout : Option Float := none
  debug : Bool := false
  verbose : Bool := false
  quiet : Bool := false
  /-- The texts to fill, in order. -/
  texts : List String := []

/-- What is wrong with the command line. -/
inductive ArgumentDefect
  | missingArgument (option : Char)
  | badTimeout (value : String)
  | unknownOption (option : Char)
deriving DecidableEq

/-- The message for a defect. -/
def ArgumentDefect.message : ArgumentDefect → String
  | missingArgument option => .ofList ['-', option] ++ " requires an argument"
  | badTimeout value => "invalid timeout: " ++ value
  | unknownOption option => "unknown option: " ++ .ofList ['-', option]

namespace Arguments

/-- Whether an argument begins with a dash. -/
def hasDash (arg : String) : Bool := arg.toList.head? == some '-'

/-- The value of an option: the rest of its argument, or else the next one. -/
def takeValue (option : Char) (attached : List Char) (rest : List String) :
    Except ArgumentDefect (String × List String) :=
  if !attached.isEmpty then .ok (.ofList attached, rest)
  else match rest with
    | next :: others => .ok (next, others)
    | [] => .error (.missingArgument option)

/-- The file that the option for it names: the rest of its argument, or else the next one unless it
is another option. Without a name there is no file. -/
def takeFile (attached : List Char) (rest : List String) : SettingsChoice × List String :=
  if !attached.isEmpty then (.file (.ofList attached), rest)
  else match rest with
    | next :: others => if hasDash next then (.skip, rest) else (.file next, others)
    | [] => (.skip, [])

/-- Sets the time limit. -/
def setTimeout (a : Arguments) (value : String) : Except ArgumentDefect Arguments :=
  match Settings.seconds? value with
  | some x => .ok { a with timeout := some x }
  | none => .error (.badTimeout value)

/-- Reads the options of one argument: the letters after its dash. -/
def options (a : Arguments) (rest : List String) :
    List Char → Except ArgumentDefect (Arguments × List String)
  | [] => .ok (a, rest)
  | option :: more =>
    if option = 'd' then { a with debug := true }.options rest more
    else if option = 'v' then { a with verbose := true }.options rest more
    else if option = 'q' then { a with quiet := true }.options rest more
    else if option = 'f' then
      let (settings, rest) := takeFile more rest
      .ok ({ a with settings }, rest)
    else if option = 't' then do
      let (value, rest) ← takeValue option more rest
      return (← a.setTimeout value, rest)
    else if option = 'e' then do
      let (value, rest) ← takeValue option more rest
      return ({ a with texts := a.texts ++ [value] }, rest)
    else .error (.unknownOption option)

private theorem length_takeValue {option : Char} {attached : List Char} {rest left : List String}
    {value : String} (h : takeValue option attached rest = .ok (value, left)) :
    left.length ≤ rest.length := by
  unfold takeValue at h
  split at h
  · simp_all
  · split at h <;> simp_all

private theorem length_takeFile (attached : List Char) (rest : List String) :
    (takeFile attached rest).2.length ≤ rest.length := by
  unfold takeFile
  split
  · exact Nat.le_refl _
  · split
    · split <;> simp
    · exact Nat.le_refl _

private theorem length_options {a b : Arguments} {rest left : List String} {letters : List Char}
    (h : a.options rest letters = .ok (b, left)) : left.length ≤ rest.length := by
  induction letters generalizing a with
  | nil => simp_all [options]
  | cons option more ih =>
    unfold options at h
    split at h
    · exact ih h
    · split at h
      · exact ih h
      · split at h
        · exact ih h
        · split at h
          · have := length_takeFile more rest
            simp_all
          · split at h
            · cases hv : takeValue option more rest with
              | error => simp [hv, bind, Except.bind] at h
              | ok taken =>
                obtain ⟨value, others⟩ := taken
                have := length_takeValue hv
                cases ht : a.setTimeout value <;>
                  simp_all [bind, Except.bind, pure, Except.pure]
            · split at h
              · cases hv : takeValue option more rest with
                | error => simp [hv, bind, Except.bind] at h
                | ok taken =>
                  obtain ⟨value, others⟩ := taken
                  have := length_takeValue hv
                  simp_all [bind, Except.bind, pure, Except.pure]
              · simp at h

/-- Reads arguments after those read already. -/
def more (a : Arguments) : List String → Except ArgumentDefect Arguments
  | [] => .ok a
  | arg :: rest =>
    if arg = "--" then .ok { a with texts := a.texts ++ rest }
    else if !hasDash arg || arg = "-" then { a with texts := a.texts ++ [arg] }.more rest
    else match _ : a.options rest (arg.toList.drop 1) with
      | .ok (next, left) => next.more left
      | .error defect => .error defect
termination_by args => args.length
decreasing_by
  · simp
  · have := length_options ‹a.options rest (arg.toList.drop 1) = .ok (next, left)›
    simp only [List.length_cons]; omega

/-- Reads the arguments of the command line. -/
def parse (args : List String) : Except ArgumentDefect Arguments := ({} : Arguments).more args

/-- How the command is used. -/
def usage : String := "Usage: tagfill [-f[<file>]] [-t<secs>] [-dvq] [-e<text>]... [<text>...]"

/-- The filter for what is logged. -/
def logFilter (debug verbose : Bool) : String :=
  if verbose then "tagfill=trace" else if debug then "tagfill=debug" else "warn"

/-- The settings of a file with those of the command line over them. -/
def override (a : Arguments) (s : Settings) : Settings :=
  { s with
    timeout := a.timeout.getD s.timeout
    debug := a.debug || s.debug
    showErrors := !a.quiet && s.showErrors }

end Arguments

end TextTags
