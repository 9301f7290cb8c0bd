import RichStyle.Command
import RichStyle.Record
import RichStyle.Settings

/-!
# Running a command

`build` compiles a file, writes the sheet or prints it, and writes the record.  `check` prints what
is wrong with a file and writes nothing.
-/

namespace RichStyle

namespace Command

inductive Failure where
  | settings (error : SettingsError)
  | file (error : FileError)
  | compile (error : CompileError)
deriving DecidableEq

def Failure.message : Failure → String
  | settings error => error.message
  | file error => error.message
  | compile error => error.message

structure Outcome where
  code : Nat
  stdout : String
  events : List Event
  failure : Option Failure

namespace Outcome

def failed (stdout : String) (events : List Event) (failure : Failure) : Outcome :=
  ⟨1, stdout, events, some failure⟩

def after (o : Outcome) (events : List Event) : Outcome :=
  { o with events := events ++ o.events }

end Outcome

/-- Where the record of a build goes: as told, or beside the sheet, or into the directory set. -/
def recordPath (settings : Settings) (output assets : Option String) : String :=
  match assets with
  | some path => path
  | none =>
      let directory := (output.bind Path.parent?).getD settings.outDir
      Path.join directory settings.assetFileName

/-- The files that a build writes, in order. -/
def buildFiles (settings : Settings) (timestamp : String) (output assets : Option String)
    (compiled : Output) : List (String × String) :=
  let record := (Record.ofOutput timestamp compiled).print
  let sheet :=
    match output with
    | some path => [(path, compiled.css)]
    | none => []
  sheet ++ [(recordPath settings output assets, record)]

variable {m : Type → Type} [Monad m]

def build (files : Files m) (settings : Settings) (timestamp input : String)
    (output assets : Option String) (source : String) : m Outcome := do
  let result := compile settings.banner source
  let events := readingEvents source ++ compiledEvents result
  match result with
  | .error e => return .failed "" events (.compile e)
  | .ok compiled =>
      let events := events ++ compiled.warnings.map (Event.inputWarning input)
      -- the sheet is printed even if the record cannot be written
      let stdout := if output.isSome then "" else compiled.css
      match ← files.writeAll (buildFiles settings timestamp output assets compiled) with
      | .error e => return .failed stdout events (.file e)
      | .ok () =>
          let done :=
            Event.inputCompiled input compiled.counts.rules compiled.counts.warnings
              (recordPath settings output assets)
          return ⟨0, stdout, events ++ [done], none⟩

def checkReport (input : String) (ds : List Diagnostic) : String :=
  String.join (ds.map fun d => input ++ ": " ++ d.text ++ "\n") ++
    (Diagnostic.errorCount ds).repr ++ " error(s), " ++ (Diagnostic.warningCount ds).repr ++
    " warning(s)\n"

def check (input source : String) : Outcome :=
  match RichStyle.check source with
  | .error e => .failed "" (readingEvents source) (.compile e)
  | .ok ds =>
      ⟨if Diagnostic.hasErrors ds then 1 else 0, checkReport input ds, readingEvents source, none⟩

def inputOf : Action → String
  | .build input _ _ => input
  | .check input => input

def perform (files : Files m) (settings : Settings) (timestamp : String) (action : Action)
    (source : String) : m Outcome :=
  match action with
  | .build input output assets => build files settings timestamp input output assets source
  | .check input => pure (check input source)

def run (files : Files m) (directory timestamp : String) (invocation : Invocation) :
    m Outcome := do
  let (events, loaded) ← Settings.discover files invocation.config directory
  match loaded with
  | .error e => return .failed "" events (.settings e)
  | .ok settings =>
      match ← files.read (inputOf invocation.action) with
      | .error e => return .failed "" events (.file e)
      | .ok source => do
          let outcome ← perform files settings timestamp invocation.action source
          return outcome.after events

/-- The least important rank that is logged, by a level's name or number; others log nothing. -/
def rankOfName (name : String) : Nat :=
  match String.ofList (name.toList.map Char.toLower) with
  | "" | "error" | "1" => 1
  | "warn" | "2" => 2
  | "info" | "3" => 3
  | "debug" | "4" => 4
  | "trace" | "5" => 5
  | _ => 0

/-- The least important rank that is logged: as named, or by whether more was asked for. -/
def logRank (name : Option String) (invocation : Invocation) : Nat :=
  match name with
  | some name => rankOfName name
  | none => if invocation.verbose then Level.debug.rank else Level.info.rank

/-- The log of a command, and why it failed. -/
def stderr (rank : Nat) (o : Outcome) : String :=
  let lines := (o.events.filter fun e => e.level.rank ≤ rank).map Event.line
  let failure :=
    match o.failure with
    | some f => "csspp: " ++ f.message ++ "\n"
    | none => ""
  String.join lines ++ failure

end Command

end RichStyle
