import RichStyle.Json.Skip
import RichStyle.Table

/-!
# Reading tables and records

A table is an object with any keys; of equal keys the last wins.  A record is an object with known
fields, or a list of the fields' values in order.
-/

namespace RichStyle

namespace Json

/-- What stands where a key may stand: the text after a key's opening quote, or the end. -/
inductive NextKey where
  | key (rest : List Char)
  | done (rest : List Char)

/-- Looks for the next key of an object; only a key that is not the first has a comma before it. -/
def nextKey (first : Bool) (s : List Char) : Except Stop NextKey :=
  match skipSpace s with
  | [] => stopAtEnd .object
  | c :: rest =>
      if c = '}' then .ok (.done rest)
      else if first then
        if c = '"' then .ok (.key rest) else stopAt .keyNotString (c :: rest)
      else if c = ',' then
        match skipSpace rest with
        | [] => stopAtEnd .value
        | '"' :: after => .ok (.key after)
        | '}' :: after => stopAt .trailingComma ('}' :: after)
        | other => stopAt .keyNotString other
      else stopAt .expectedCommaOrBrace (c :: rest)

def readColon (s : List Char) : Except Stop (List Char) :=
  match skipSpace s with
  | [] => stopAtEnd .object
  | ':' :: rest => .ok rest
  | other => stopAt .expectedColon other

/-- Reads the entries of an object after its brace; the fuel bounds their number. -/
def readEntries {α : Type} (readValue : List Char → Except Stop (α × List Char)) :
    Nat → Bool → Table α → List Char → Except Stop (Table α × List Char)
  | 0, _, table, s => .ok (table, s)
  | fuel + 1, first, table, s => do
      match ← nextKey first s with
      | .done rest => .ok (table, rest)
      | .key rest =>
          let (key, rest) ← readString rest
          let rest ← readColon rest
          let (value, rest) ← readValue rest
          readEntries readValue fuel false (table.insert (String.ofList key) value) rest

/-- Reads a table.  Every entry takes a character, so the fuel suffices. -/
def readTable {α : Type} (readValue : List Char → Except Stop (α × List Char)) (s : List Char) :
    Except Stop (Table α × List Char) :=
  match skipSpace s with
  | '{' :: rest => readEntries readValue (rest.length + 1) true .empty rest
  | other => mismatch "a map" other

/-- A field of a record that is filled step by step in a draft. -/
structure Field (δ : Type) where
  name : String
  isFilled : δ → Bool
  read : δ → List Char → Except Stop (δ × List Char)

structure Form (δ α : Type) where
  title : String
  fields : List (Field δ)
  /-- Whether a field with another name is refused; otherwise it is passed over. -/
  isStrict : Bool
  /-- Whether a list may leave out fields at its end. -/
  isOpen : Bool
  blank : δ
  /-- The record of a draft, or the first field that is missing. -/
  finish : δ → Except String α

namespace Form

variable {δ α : Type}

/-- Where a problem with an object as a whole shows: after its brace, if that comes next. -/
def afterBrace (s : List Char) : List Char :=
  match skipSpace s with
  | '}' :: rest => rest
  | other => other

def conclude (form : Form δ α) (draft : δ) (rest : List Char) : Except Stop (α × List Char) :=
  match form.finish draft with
  | .ok value => .ok (value, rest)
  | .error name => .error ⟨.missingField name, rest, 0⟩

/-- Reads the fields of an object after its brace; the fuel bounds their number. -/
def readObject (form : Form δ α) :
    Nat → Bool → δ → List Char → Except Stop (α × List Char)
  | 0, _, draft, s => form.conclude draft s
  | fuel + 1, first, draft, s => do
      match ← nextKey first s with
      | .done rest => form.conclude draft rest
      | .key rest =>
          let (key, rest) ← readString rest
          let name := String.ofList key
          match form.fields.find? fun f => f.name == name with
          | none =>
              if form.isStrict then
                let known := form.fields.map Field.name
                .error ⟨.unknownField name known, afterBrace rest, 0⟩
              else do
                let rest ← readColon rest
                let rest ← skipValue rest
                readObject form fuel false draft rest
          | some field =>
              if field.isFilled draft then .error ⟨.duplicateField name, afterBrace rest, 0⟩
              else do
                let rest ← readColon rest
                let (draft, rest) ← field.read draft rest
                readObject form fuel false draft rest

inductive NextElement where
  | element (rest : List Char)
  | done (rest : List Char)

/-- Looks for the next element; only one that is not the first has a comma before it. -/
def nextElement (first : Bool) (s : List Char) : Except Stop NextElement :=
  match skipSpace s with
  | [] => stopAtEnd .list
  | c :: rest =>
      if c = ']' then .ok (.done rest)
      else if first then .ok (.element (c :: rest))
      else if c = ',' then
        match skipSpace rest with
        | [] => stopAtEnd .value
        | ']' :: after => stopAt .trailingComma (']' :: after)
        | other => .ok (.element other)
      else stopAt .expectedCommaOrBracket (c :: rest)

def closeList (s : List Char) : Except Stop (List Char) :=
  match skipSpace s with
  | [] => stopAtEnd .list
  | ']' :: rest => .ok rest
  | ',' :: rest =>
      match skipSpace rest with
      | ']' :: after => stopAt .trailingComma (']' :: after)
      | other => stopAt .trailingCharacters other
  | other => stopAt .trailingCharacters other

def listTitle (form : Form δ α) : String :=
  form.title ++ " with " ++ form.fields.length.repr ++ " elements"

/-- Reads the elements of a list after its bracket, one for each of the fields that are left. -/
def readList (form : Form δ α) :
    List (Field δ) → Bool → δ → List Char → Except Stop (α × List Char)
  | [], _, draft, s => do
      let rest ← closeList s
      form.conclude draft rest
  | field :: fields, first, draft, s => do
      match ← nextElement first s with
      | .done rest =>
          if form.isOpen then form.conclude draft rest
          else
            let count := form.fields.length - (fields.length + 1)
            .error ⟨.wrongLength count form.listTitle, rest, 0⟩
      | .element rest =>
          let (draft, rest) ← field.read draft rest
          readList form fields false draft rest

/-- Reads a record.  Every field takes a character, so the fuel suffices. -/
def read (form : Form δ α) (s : List Char) : Except Stop (α × List Char) :=
  match skipSpace s with
  | '{' :: rest => readObject form (rest.length + 1) true form.blank rest
  | '[' :: rest => readList form form.fields true form.blank rest
  | other => mismatch form.title other

/-- Reads a text that holds one record and nothing else. -/
def readDocument (form : Form δ α) (source : List Char) : Except Failure α :=
  match form.read source with
  | .error stop => .error (stop.failure source)
  | .ok (value, rest) =>
      match skipSpace rest with
      | [] => .ok value
      | other => .error (Stop.failure source ⟨.trailingCharacters, other, 1⟩)

end Form

end Json

end RichStyle
