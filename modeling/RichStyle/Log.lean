import RichStyle.Compile

/-!
# Events

What happens on the way is told by events.  An event has a level, an origin and a message.
-/

namespace RichStyle

inductive Level where
  | warn
  | info
  | debug
deriving DecidableEq

namespace Level

def name : Level → String
  | warn => "WARN"
  | info => "INFO"
  | debug => "DEBUG"

/-- The more important, the lower. -/
def rank : Level → Nat
  | warn => 2
  | info => 3
  | debug => 4

end Level

inductive Event where
  | importRecorded (target : String)
  | importLeft (target : String)
  | rulesExtracted (rules : Nat)
  | sourceCompiled (rules warnings : UInt64)
  | settingsFound (path : String)
  | moduleWarning (id : String) (warning : Diagnostic)
  | moduleStale (id : String)
  | moduleChanged (file : String)
  | bundleStarted (modules files : Nat)
  | bundleWritten (path : String)
  | inputWarning (input : String) (warning : Diagnostic)
  | inputCompiled (input : String) (rules warnings : UInt64) (recordPath : String)

namespace Event

def level : Event → Level
  | moduleWarning _ _ | inputWarning _ _ => .warn
  | moduleChanged _ | bundleWritten _ | inputCompiled _ _ _ _ => .info
  | _ => .debug

def origin : Event → String
  | importRecorded _ => "csspp_core::theme"
  | importLeft _ | rulesExtracted _ => "csspp_core::parser"
  | sourceCompiled _ _ => "csspp_core::compiler"
  | settingsFound _ => "csspp_core::config"
  | moduleWarning _ _ | moduleStale _ | moduleChanged _ | bundleStarted _ _ | bundleWritten _ =>
      "csspp_core::plugin"
  | inputWarning _ _ | inputCompiled _ _ _ _ => "csspp"

def message : Event → String
  | importRecorded target => "recorded @import \"" ++ target ++ "\" (not inlined)"
  | importLeft target => "import '" ++ target ++ "' left for the bundler"
  | rulesExtracted rules => "extracted " ++ rules.repr ++ " rule(s)"
  | sourceCompiled rules warnings =>
      "compiled " ++ rules.toNat.repr ++ " rule(s), " ++ warnings.toNat.repr ++ " warning(s)"
  | settingsFound path => "using config " ++ path
  | moduleWarning id warning => "[csspp] " ++ id ++ ": " ++ warning.text
  | moduleStale id => "discarding stale compilation of " ++ id
  | moduleChanged file => "[csspp] " ++ file ++ " changed, full reload"
  | bundleStarted modules files =>
      "aggregating " ++ modules.repr ++ " module(s) into a bundle of " ++ files.repr ++ " file(s)"
  | bundleWritten path => "[csspp] wrote " ++ path
  | inputWarning input warning => input ++ ": " ++ warning.text
  | inputCompiled input rules warnings recordPath =>
      "compiled " ++ input ++ " (" ++ rules.toNat.repr ++ " rules, " ++ warnings.toNat.repr ++
        " warnings), assets in " ++ recordPath

/-- A character of a log line; those that could steer a terminal are written by their codes. -/
def safe (c : Char) : List Char :=
  let n := c.toNat
  if n = 0x1B ∨ n = 0x07 ∨ n = 0x08 ∨ n = 0x0C ∨ n = 0x7F then
    ['\\', 'x'] ++ List.replicate (2 - (Nat.toDigits 16 n).length) '0' ++ Nat.toDigits 16 n
  else if 0x80 ≤ n ∧ n ≤ 0x9F then ['\\', 'u', '{'] ++ Nat.toDigits 16 n ++ ['}']
  else [c]

/-- A log line: the level in five places, the origin and the message. -/
def line (e : Event) : String :=
  let name := e.level.name
  String.ofList (List.replicate (5 - name.length) ' ') ++ name ++ " " ++ e.origin ++ ": " ++
    String.ofList (e.message.toList.flatMap safe) ++ "\n"

end Event

def readingEvents (source : String) : List Event :=
  let marked := Source.marked source.toList
  let recorded := marked.imports.map fun t => Event.importRecorded (String.ofList t)
  match Source.prepare source.toList with
  | .error _ => recorded
  | .ok prepared =>
      let left := prepared.imports.map fun t => Event.importLeft (String.ofList t)
      match Sheet.read source.toList with
      | .error _ => recorded ++ left
      | .ok reading => recorded ++ left ++ [.rulesExtracted reading.sheet.rules.length]

def compiledEvents (output : Except CompileError Output) : List Event :=
  match output with
  | .error _ => []
  | .ok o => [.sourceCompiled o.counts.rules o.counts.warnings]

end RichStyle
