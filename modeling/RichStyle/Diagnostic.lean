import RichStyle.Span

/-!
# Diagnostics, faults and errors

A diagnostic says what is wrong with a sheet and where; a fault is why there is no sheet at all.  Either
may be the reason why a compilation fails.
-/

namespace RichStyle

/-!
## Diagnostics

A diagnostic says what is wrong with a sheet and where.  Errors stop a compilation, warnings do not.
A finding is a cause from which a diagnostic is made.
-/

inductive Severity where
  | error
  | warning
deriving DecidableEq

def Severity.text : Severity → String
  | .error => "error"
  | .warning => "warning"

structure Diagnostic where
  severity : Severity
  message : String
  selector : Option String
  property : Option String
  span : Option Span
deriving DecidableEq

namespace Diagnostic

def plain (severity : Severity) (message : String) : Diagnostic :=
  ⟨severity, message, none, none, none⟩

/-- Adds a place, unless it is the unknown one. -/
def placed (d : Diagnostic) (p : Span) : Diagnostic :=
  if p.isUnknown then d else { d with span := some p }

def isError (d : Diagnostic) : Bool :=
  d.severity == .error

/-- The selector and the property as far as they are known, in brackets. -/
def location (d : Diagnostic) : String :=
  match d.selector, d.property with
  | some selector, some property => "[" ++ selector ++ "/" ++ property ++ "]"
  | some selector, none => "[" ++ selector ++ "]"
  | none, some property => "[" ++ property ++ "]"
  | none, none => ""

def text (d : Diagnostic) : String :=
  let place :=
    match d.span with
    | some p => " at " ++ p.text
    | none => ""
  d.severity.text ++ d.location ++ place ++ ": " ++ d.message

def errors (ds : List Diagnostic) : List Diagnostic :=
  ds.filter isError

def errorCount (ds : List Diagnostic) : Nat :=
  (errors ds).length

/-- The number of diagnostics that are no errors. -/
def warningCount (ds : List Diagnostic) : Nat :=
  ds.length - errorCount ds

def hasErrors (ds : List Diagnostic) : Bool :=
  ds.any isError

/-- The diagnostics if none is an error, and otherwise all errors as the failure. -/
def settle (ds : List Diagnostic) : Except (List Diagnostic) (List Diagnostic) :=
  if hasErrors ds then .error (errors ds) else .ok ds

end Diagnostic

/-- What a reading or a check of a sheet can find. -/
inductive Finding where
  /-- A statement outside all rules that opens no block. -/
  | unsupportedStatement (text : String)
  | nestedBlock (header : String)
  /-- A declaration without a colon or without a property. -/
  | malformedDeclaration (text : String)
  /-- A declaration marked as rich whose property is none of the rich ones. -/
  | unknownProperty (property : String)
  /-- A value that its property does not know; `what` names the property. -/
  | invalidValue (what value : String)
  | tooManySides (sides limit : Nat)
  | soundMissing (property : String)
  | outsideUnitInterval (property value : String)
  /-- A light intensity that is neither a number from zero to one nor a mode. -/
  | unknownLight (value : String)
deriving DecidableEq

namespace Finding

def severity : Finding → Severity
  | unsupportedStatement _ | nestedBlock _ | malformedDeclaration _ => .warning
  | outsideUnitInterval _ _ | unknownLight _ => .warning
  | unknownProperty _ | invalidValue _ _ | tooManySides _ _ | soundMissing _ => .error

def message : Finding → String
  | unsupportedStatement text => "unsupported statement '" ++ text ++ "' skipped"
  | nestedBlock header => "nested block '" ++ header ++ "' is not supported and was skipped"
  | malformedDeclaration text => "malformed declaration '" ++ text ++ "' dropped"
  | unknownProperty property => "Unrecognized CSS++ property '" ++ property ++ "'"
  | invalidValue what value => "Invalid " ++ what ++ " value '" ++ value ++ "'"
  | tooManySides sides limit =>
      "polygon side count " ++ sides.repr ++ " exceeds " ++ limit.repr
  | soundMissing property => property ++ " requires a sound file"
  | outsideUnitInterval property value =>
      property ++ " '" ++ value ++ "' should be a number in [0,1]"
  | unknownLight value =>
      "light-intensity '" ++ value ++ "' should be a number in [0,1], 'ambient' or 'directional'"

/-- The diagnostic of a finding outside all rules. -/
def reported (f : Finding) (p : Span) : Diagnostic :=
  (Diagnostic.plain f.severity f.message).placed p

/-- The diagnostic of a finding inside a rule. -/
def reportedIn (f : Finding) (selector : String) (p : Span) : Diagnostic :=
  { f.reported p with selector := some selector }

/-- The diagnostic of a finding about a declaration. -/
def reportedFor (f : Finding) (selector property : String) (p : Span) : Diagnostic :=
  { f.reported p with selector := some selector, property := some property }

end Finding

/-!
## Faults in the block structure of a source

A fault is a cause; its wording is in `Fault.message`.
-/

inductive Fault where
  | themeWithoutName
  | themeWithoutBrace (name : String)
  | themeUnclosed (name : String)
  /-- A closing brace where a rule would start. -/
  | strayClose
  /-- A closing brace after text that opened no block. -/
  | strayCloseAfter (text : String)
  | selectorMissing
  /-- Text at the end of the source that opens no block. -/
  | blockMissing (text : String)
  | blockUnclosed (selector : String)
  | nestedUnclosed (selector : String)
deriving DecidableEq

def Fault.message : Fault → String
  | .themeWithoutName => "@theme requires a name"
  | .themeWithoutBrace name => "expected '\x7b' after @theme " ++ name
  | .themeUnclosed name => "unterminated @theme " ++ name ++ " block"
  | .strayClose => "unexpected '\x7d'"
  | .strayCloseAfter text => "unexpected '\x7d' after '" ++ text ++ "'"
  | .selectorMissing => "missing selector before '\x7b'"
  | .blockMissing text => "expected '\x7b' after '" ++ text ++ "'"
  | .blockUnclosed selector => "unclosed block for selector '" ++ selector ++ "'"
  | .nestedUnclosed selector => "unclosed nested block in '" ++ selector ++ "'"

structure Malformed where
  fault : Fault
  span : Span
deriving DecidableEq

/-! ## Why a compilation fails -/

inductive CompileError where
  | malformed (malformed : Malformed)
  /-- The sheet has values that its properties do not know. -/
  | invalid (diagnostics : List Diagnostic)
  /-- A declaration is marked as rich and its property is none of the rich ones. -/
  | notRich (selector property : String)
deriving DecidableEq

def CompileError.message : CompileError → String
  | .malformed m => "syntax error at " ++ m.span.text ++ ": " ++ m.fault.message
  | .invalid ds =>
      ds.length.repr ++ " validation error(s):\n" ++
        "\n".intercalate (ds.map fun d => "  " ++ d.text)
  | .notRich selector property =>
      "no lowering rule for CSS++ property '" ++ property ++ "' in '" ++ selector ++ "'"

end RichStyle
