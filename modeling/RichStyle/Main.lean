import RichStyle.Command.Run
import Std.Time.DateTime.PlainDateTime
import Std.Time.DateTime.Timestamp

/-!
# The program

Runs a command on the files of the system, with the present time, and prints what comes of it.  A
command line that is not understood ends with code 2.
-/

namespace RichStyle

namespace Console

def causeOf : IO.Error → FileCause
  | .noFileOrDirectory _ _ _ => .notFound
  | .alreadyExists _ _ _ => .exists
  | .inappropriateType _ 20 _ => .notDirectory
  | .inappropriateType _ 21 _ => .isDirectory
  | error => .other (toString error)

/-- Does something with the system and keeps the cause if it fails. -/
def attempt {α : Type} (action : IO α) : IO (Except FileCause α) := do
  match ← action.toBaseIO with
  | .ok value => return .ok value
  | .error error => return .error (causeOf error)

def readText (path : String) : IO (Except FileCause String) := do
  match ← attempt (IO.FS.readBinFile path) with
  | .error cause => return .error cause
  | .ok bytes =>
      match String.fromUTF8? bytes with
      | some text => return .ok text
      | none => return .error .invalidText

def isFile (path : String) : IO Bool := do
  match ← attempt (IO.FS.readBinFile path) with
  | .ok _ => return true
  | .error _ => return false

def files : Files IO where
  readText := readText
  isFile := isFile
  createDirs path := attempt (IO.FS.createDirAll path)
  writeText path text := attempt (IO.FS.writeFile path text)

def padded (width n : Nat) : String :=
  String.ofList (Number.paddedDigits width n)

/-- The fraction of a second in thousandths, or finer if it has to be; a whole second has none. -/
def fractionText (nanoseconds : Nat) : String :=
  if nanoseconds = 0 then ""
  else if nanoseconds % 1000000 = 0 then "." ++ padded 3 (nanoseconds / 1000000)
  else if nanoseconds % 1000 = 0 then "." ++ padded 6 (nanoseconds / 1000)
  else "." ++ padded 9 nanoseconds

/-- A date and time of day at the zero meridian. -/
def timeText (t : Std.Time.PlainDateTime) : String :=
  padded 4 t.year.toNat ++ "-" ++ padded 2 t.month.val.toNat ++ "-" ++ padded 2 t.day.val.toNat ++
    "T" ++ padded 2 t.hour.val.toNat ++ ":" ++ padded 2 t.minute.val.toNat ++ ":" ++
    padded 2 t.second.val.toNat ++ fractionText t.nanosecond.val.toNat ++ "+00:00"

def now : IO String := do
  let stamp ← Std.Time.Timestamp.now
  return timeText (.ofWallTime (.ofDuration stamp.toDurationSinceUnixEpoch))

/-- Runs an accepted command line and prints what comes of it. -/
def execute (invocation : Invocation) : IO UInt32 := do
  let directory ← IO.currentDir
  let outcome ← Command.run files directory.toString (← now) invocation
  let level ← IO.getEnv "CSSPP_LOG"
  IO.print outcome.stdout
  IO.eprint (Command.stderr (Command.logRank level invocation) outcome)
  return outcome.code.toUInt32

end Console

end RichStyle

def main (args : List String) : IO UInt32 :=
  match RichStyle.Invocation.read? args with
  | some invocation => RichStyle.Console.execute invocation
  | none => do
      IO.eprintln "csspp: the command line is not understood"
      return 2
