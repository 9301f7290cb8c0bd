import RichStyle.Number
import RichStyle.Text.Visible

/-!
# What can be wrong with a JSON text

A problem is a cause; its wording is in `Problem.message`.  A reader that stops says what text was
left and how many bytes of it had been looked at; from this the place of the problem follows.
-/

namespace RichStyle

namespace Json

/-- What was being read when a text ended. -/
inductive Unfinished where
  | value
  | object
  | list
  | text
deriving DecidableEq

def Unfinished.name : Unfinished → String
  | value => "a value"
  | object => "an object"
  | list => "a list"
  | text => "a string"

inductive Found where
  | null
  | boolean (value : Bool)
  | integer (value : Int)
  | float (negative : Bool) (size : Magnitude)
  | text (value : List Char)
  | sequence
  | map
deriving DecidableEq

/-- A character of a string in a message. -/
def visible (c : Char) : List Char :=
  if c = '"' then ['\\', '"']
  else if c = '\\' then ['\\', '\\']
  else if c = '\n' then ['\\', 'n']
  else if c = '\r' then ['\\', 'r']
  else if c = '\t' then ['\\', 't']
  else if c = '\x00' then ['\\', '0']
  else if Text.isHidden c then
    ['\\', 'u', '{'] ++ Nat.toDigits 16 c.toNat ++ ['}']
  else [c]

def Found.name : Found → String
  | null => "null"
  | boolean value => if value then "boolean `true`" else "boolean `false`"
  | integer value => "integer `" ++ value.repr ++ "`"
  | float negative size =>
      "floating point `" ++ (if negative then "-" else "") ++ size.messageText ++ "`"
  | text value => String.ofList ("string \"".toList ++ value.flatMap visible ++ ['"'])
  | sequence => "sequence"
  | map => "map"

inductive Problem where
  | unfinished (part : Unfinished)
  | expectedValue
  | expectedIdent
  | expectedColon
  | expectedCommaOrBrace
  | expectedCommaOrBracket
  | keyNotString
  | trailingComma
  | trailingCharacters
  | invalidNumber
  | numberOutOfRange
  | invalidEscape
  | unfinishedHexEscape
  | loneSurrogate
  | controlCharacter
  | wrongType (found : Found) (expected : String)
  | wrongValue (value : Int) (expected : String)
  | wrongLength (length : Nat) (expected : String)
  | unknownField (name : String) (known : List String)
  | duplicateField (name : String)
  | missingField (name : String)
deriving DecidableEq

def Problem.message : Problem → String
  | unfinished part => "EOF while parsing " ++ part.name
  | expectedValue => "expected value"
  | expectedIdent => "expected ident"
  | expectedColon => "expected `:`"
  | expectedCommaOrBrace => "expected `,` or `\x7d`"
  | expectedCommaOrBracket => "expected `,` or `]`"
  | keyNotString => "key must be a string"
  | trailingComma => "trailing comma"
  | trailingCharacters => "trailing characters"
  | invalidNumber => "invalid number"
  | numberOutOfRange => "number out of range"
  | invalidEscape => "invalid escape"
  | unfinishedHexEscape => "unexpected end of hex escape"
  | loneSurrogate => "lone leading surrogate in hex escape"
  | controlCharacter => "control character (\\u0000-\\u001F) found while parsing a string"
  | wrongType found expected => "invalid type: " ++ found.name ++ ", expected " ++ expected
  | wrongValue value expected =>
      "invalid value: integer `" ++ value.repr ++ "`, expected " ++ expected
  | wrongLength length expected =>
      "invalid length " ++ length.repr ++ ", expected " ++ expected
  | unknownField name known =>
      "unknown field `" ++ name ++ "`, expected one of " ++
        ", ".intercalate (known.map fun k => "`" ++ k ++ "`")
  | duplicateField name => "duplicate field `" ++ name ++ "`"
  | missingField name => "missing field `" ++ name ++ "`"

/-- A place in a text: the line from one on, and the bytes since the line began. -/
structure Place where
  line : Nat
  column : Nat
deriving DecidableEq

namespace Place

def start : Place := ⟨1, 0⟩

def step (p : Place) (c : Char) : Place :=
  if c = '\n' then ⟨p.line + 1, 0⟩ else ⟨p.line, p.column + c.utf8Size⟩

def advance (p : Place) (s : List Char) : Place :=
  s.foldl step p

/-- The place after the first bytes of a text, or after all of it if it has fewer. -/
def advanceBytes (p : Place) : Nat → List Char → Place
  | _, [] => p
  | n, c :: s =>
      if n = 0 then p
      else if c.utf8Size ≤ n then (p.step c).advanceBytes (n - c.utf8Size) s
      else ⟨p.line, p.column + n⟩

end Place

/-- Why a reader stopped, the text that was left, and how many of its bytes had been looked at. -/
structure Stop where
  problem : Problem
  rest : List Char
  looked : Nat
deriving DecidableEq

structure Failure where
  problem : Problem
  place : Place
deriving DecidableEq

def Failure.message (f : Failure) : String :=
  f.problem.message ++ " at line " ++ f.place.line.repr ++ " column " ++ f.place.column.repr

/-- The place where a reader of a text stopped. -/
def Stop.failure (source : List Char) (stop : Stop) : Failure :=
  let taken := source.take (source.length - stop.rest.length)
  ⟨stop.problem, (Place.start.advance taken).advanceBytes stop.looked stop.rest⟩

end Json

end RichStyle
