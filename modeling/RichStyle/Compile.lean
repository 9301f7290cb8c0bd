import RichStyle.Sheet.Build
import RichStyle.Sheet.Lower

/-!
# Compiling

A source is read, its values are checked, its rich declarations are lowered, and the sheet is
printed.  Nothing is printed if a value is invalid.
-/

namespace RichStyle

/-- How much a compilation went through, in 64-bit counters. -/
structure Counts where
  rules : UInt64
  errors : UInt64
  warnings : UInt64
deriving DecidableEq

namespace Counts

def zero : Counts := ⟨0, 0, 0⟩

def add (a b : Counts) : Counts :=
  ⟨a.rules + b.rules, a.errors + b.errors, a.warnings + b.warnings⟩

def of (rules : List Rule) (ds : List Diagnostic) : Counts :=
  ⟨.ofNat rules.length, .ofNat (Diagnostic.errorCount ds), .ofNat (Diagnostic.warningCount ds)⟩

end Counts

structure Output where
  css : String
  assets : Assets
  warnings : List Diagnostic
  counts : Counts
deriving DecidableEq

structure Analysis where
  sheet : Sheet
  diagnostics : List Diagnostic
deriving DecidableEq

namespace Analysis

/-- The analysis of a sheet that has been read: the warnings of the reading, then the findings. -/
def ofReading (reading : Sheet.Reading) : Analysis :=
  ⟨reading.sheet, reading.warnings ++ Sheet.check reading.sheet.rules⟩

def ofSource (source : String) : Except CompileError Analysis :=
  match Sheet.read source.toList with
  | .ok reading => .ok (ofReading reading)
  | .error malformed => .error (.malformed malformed)

/-- Lowers and prints an analysed sheet without errors. -/
def output (a : Analysis) (banner : Bool) : Except CompileError Output :=
  match Diagnostic.settle a.diagnostics with
  | .error errors => .error (.invalid errors)
  | .ok warnings => do
      let plain ← Sheet.lower a.sheet.rules
      .ok ⟨Sheet.print plain.rules banner, plain.assets, warnings,
        .of a.sheet.rules a.diagnostics⟩

end Analysis

def check (source : String) : Except CompileError (List Diagnostic) := do
  let analysis ← Analysis.ofSource source
  .ok analysis.diagnostics

def compile (banner : Bool) (source : String) : Except CompileError Output := do
  let analysis ← Analysis.ofSource source
  analysis.output banner

end RichStyle
