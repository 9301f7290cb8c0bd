import RichStyle.Compile
import RichStyle.Json.Reader
import RichStyle.Number

/-!
# Records

What is written beside a compiled sheet, and how it is written and read.
-/

namespace RichStyle

/-!
## Writing JSON

Quoted strings, and objects over several lines.  A quote and a backslash are escaped by a backslash,
control characters by a letter or by their code; every other character stands for itself.
-/

namespace Json

/-- A control character by its code in hexadecimal. -/
def codeEscape (n : Nat) : List Char :=
  ['\\', 'u', '0', '0'] ++ List.replicate (2 - (Nat.toDigits 16 n).length) '0' ++ Nat.toDigits 16 n

def escape (c : Char) : List Char :=
  if c = '"' then ['\\', '"']
  else if c = '\\' then ['\\', '\\']
  else if c = '\n' then ['\\', 'n']
  else if c = '\r' then ['\\', 'r']
  else if c = '\t' then ['\\', 't']
  else if c = '\x08' then ['\\', 'b']
  else if c = '\x0c' then ['\\', 'f']
  else if c.toNat < 0x20 then codeEscape c.toNat
  else [c]

def quote (s : List Char) : List Char :=
  '"' :: s.flatMap escape ++ ['"']

/-- A new line indented by so many steps of two spaces. -/
def newLine (level : Nat) : List Char :=
  '\n' :: List.replicate (2 * level) ' '

def printField (level : Nat) (field : String × List Char) : List Char :=
  newLine level ++ quote field.1.toList ++ [':', ' '] ++ field.2

/-- An object with the texts of its fields, which stand one step further in than its brace. -/
def printObject (level : Nat) (fields : List (String × List Char)) : List Char :=
  match fields with
  | [] => ['{', '}']
  | _ =>
      '{' :: [','].intercalate (fields.map (printField (level + 1))) ++ newLine level ++ ['}']

end Json

/-!
## Asset records

A record is what is written beside a compiled sheet: its assets and counts, with the version of the
format and the time of writing.  It is written as JSON over several lines, fields in a fixed order
and table entries in the order of their keys.
-/

structure Record where
  version : String
  timestamp : String
  assets : Assets
  counts : Counts
deriving DecidableEq

namespace Record

def formatVersion : String := "0.1.0"

def stamped (timestamp : String) (assets : Assets) (counts : Counts) : Record :=
  ⟨formatVersion, timestamp, assets, counts⟩

def ofOutput (timestamp : String) (output : Output) : Record :=
  stamped timestamp output.assets output.counts

def printText (s : String) : List Char :=
  Json.quote s.toList

def printCount (n : UInt64) : List Char :=
  Number.digits n.toNat

def printProperties (level : Nat) (properties : Table String) : List Char :=
  Json.printObject level (properties.entries.map fun e => (e.1, printText e.2))

def printSection (level : Nat) (bindings : Section) : List Char :=
  Json.printObject level (bindings.entries.map fun e => (e.1, printProperties (level + 1) e.2))

def printAssets (level : Nat) (assets : Assets) : List Char :=
  Json.printObject level
    [("audio", printSection (level + 1) assets.audio),
     ("textures", printSection (level + 1) assets.textures),
     ("materials", printSection (level + 1) assets.materials)]

def printCounts (level : Nat) (counts : Counts) : List Char :=
  Json.printObject level
    [("rules", printCount counts.rules),
     ("errors", printCount counts.errors),
     ("warnings", printCount counts.warnings)]

def print (r : Record) : String :=
  String.ofList <|
    Json.printObject 0
      [("version", printText r.version),
       ("timestamp", printText r.timestamp),
       ("assets", printAssets 1 r.assets),
       ("metadata", printCounts 1 r.counts)]

/-- The value of a field, or the name of the field if it is missing. -/
def required {α : Type} (name : String) : Option α → Except String α
  | some value => .ok value
  | none => .error name

structure AssetsDraft where
  audio : Option Section
  textures : Option Section
  materials : Option Section

def readSection (s : List Char) : Except Json.Stop (Section × List Char) :=
  Json.readTable (Json.readTable (Json.readText "a string")) s

def assetsForm : Json.Form AssetsDraft Assets where
  title := "struct AssetMap"
  isStrict := false
  isOpen := false
  blank := ⟨none, none, none⟩
  fields :=
    [⟨"audio", fun d => d.audio.isSome, fun d s => do
        let (v, rest) ← readSection s
        .ok ({ d with audio := some v }, rest)⟩,
     ⟨"textures", fun d => d.textures.isSome, fun d s => do
        let (v, rest) ← readSection s
        .ok ({ d with textures := some v }, rest)⟩,
     ⟨"materials", fun d => d.materials.isSome, fun d s => do
        let (v, rest) ← readSection s
        .ok ({ d with materials := some v }, rest)⟩]
  finish d := do
    .ok ⟨← required "audio" d.audio, ← required "textures" d.textures,
      ← required "materials" d.materials⟩

structure CountsDraft where
  rules : Option UInt64
  errors : Option UInt64
  warnings : Option UInt64

def countsForm : Json.Form CountsDraft Counts where
  title := "struct Metadata"
  isStrict := false
  isOpen := false
  blank := ⟨none, none, none⟩
  fields :=
    [⟨"rules", fun d => d.rules.isSome, fun d s => do
        let (v, rest) ← Json.readCount s
        .ok ({ d with rules := some v }, rest)⟩,
     ⟨"errors", fun d => d.errors.isSome, fun d s => do
        let (v, rest) ← Json.readCount s
        .ok ({ d with errors := some v }, rest)⟩,
     ⟨"warnings", fun d => d.warnings.isSome, fun d s => do
        let (v, rest) ← Json.readCount s
        .ok ({ d with warnings := some v }, rest)⟩]
  finish d := do
    .ok ⟨← required "rules" d.rules, ← required "errors" d.errors,
      ← required "warnings" d.warnings⟩

structure Draft where
  version : Option String
  timestamp : Option String
  assets : Option Assets
  counts : Option Counts

def form : Json.Form Draft Record where
  title := "struct AssetIr"
  isStrict := false
  isOpen := false
  blank := ⟨none, none, none, none⟩
  fields :=
    [⟨"version", fun d => d.version.isSome, fun d s => do
        let (v, rest) ← Json.readText "a string" s
        .ok ({ d with version := some v }, rest)⟩,
     ⟨"timestamp", fun d => d.timestamp.isSome, fun d s => do
        let (v, rest) ← Json.readText "a string" s
        .ok ({ d with timestamp := some v }, rest)⟩,
     ⟨"assets", fun d => d.assets.isSome, fun d s => do
        let (v, rest) ← assetsForm.read s
        .ok ({ d with assets := some v }, rest)⟩,
     ⟨"metadata", fun d => d.counts.isSome, fun d s => do
        let (v, rest) ← countsForm.read s
        .ok ({ d with counts := some v }, rest)⟩]
  finish d := do
    .ok ⟨← required "version" d.version, ← required "timestamp" d.timestamp,
      ← required "assets" d.assets, ← required "metadata" d.counts⟩

def read (text : String) : Except Json.Failure Record :=
  form.readDocument text.toList

end Record

end RichStyle
