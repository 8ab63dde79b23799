import Std.Time.DateTime
import TextTags.Program.Session

/-!
# The command

Reads what the program asks for, and writes what it gives. The input is taken in pieces, so that
each line is filled as soon as it has ended.
-/

namespace TextTags.Command

open Program

/-- The number of an error, which may be given with a minus sign. -/
def errorNumber (code : UInt32) : Nat :=
  if code.toNat < Nat.pow 2 31 then code.toNat else Nat.pow 2 32 - code.toNat

/-- The cause of a failed reading. -/
def causeOf : IO.Error → Unreadable
  | .noFileOrDirectory _ _ _ => .missing
  | .permissionDenied _ _ _ => .denied
  | .inappropriateType _ code _ => if errorNumber code = 20 then .notDirectory else .directory
  | .invalidArgument _ code details =>
    if errorNumber code = 36 then .nameTooLong else .other details
  | other => .other other.toString

/-- Whether a cause means that there is nothing at the path. -/
def meansAbsent : Unreadable → Bool
  | .missing => true
  | .notDirectory => true
  | .nameTooLong => true
  | _ => false

/-- What stands at a path. -/
def readFile (path : String) : IO FileContent := do
  try
    let bytes ← IO.FS.readBinFile path
    match String.fromUTF8? bytes with
    | some content => return .text content
    | none => return .unreadable .notText
  catch e =>
    let cause := causeOf e
    return if meansAbsent cause then .absent cause else .unreadable cause

/-- The present time. -/
def now : IO Time := do
  let stamp ← Std.Time.Timestamp.now
  return ⟨Int64.ofInt stamp.toMillisecondsSinceUnixEpoch.val⟩

/-- A seed for the draws of random numbers. -/
def draw : IO Nat := do
  let bytes ← IO.getRandomBytes 16
  return bytes.toList.foldl (fun n b => 256 * n + b.toNat) 0

/-- The surroundings as far as the arguments need them. -/
def surroundings (args : List String) : IO Surroundings := do
  let preferred ← IO.getEnv "TAGFILL_CONFIG"
  let home ← IO.getEnv "HOME"
  let choice := match Arguments.parse args with
    | .ok a => a.settings
    | .error _ => .skip
  let files ← (candidates preferred home choice).mapM fun path => do
    return (path, ← readFile path)
  return {
    read := fun path => (files.lookup path).getD (.absent .missing)
    preferred := preferred
    home := home
    now := ← now
    draw := ← draw }

/-- Writes what a run has to write, and forgets it. -/
def flush (s : Session) : IO Session := do
  let out ← IO.getStdout
  let err ← IO.getStderr
  out.putStr s.out
  out.flush
  err.putStr s.err
  return { s with out := "", err := "" }

/-- Fills the input piece by piece. -/
partial def feed (s : Session) : IO Session := do
  let s ← flush s
  if s.exit?.isSome then return s
  else
    let bytes ← (← IO.getStdin).read 65536
    if bytes.isEmpty then flush s.finish
    else feed (s.receive bytes.toList)

end TextTags.Command

/-- The command. -/
def main (args : List String) : IO UInt32 := do
  let opened := TextTags.Program.start args (← TextTags.Command.surroundings args)
  let closed ← if opened.readsInput then TextTags.Command.feed opened
    else TextTags.Command.flush opened
  return closed.code.toUInt32
