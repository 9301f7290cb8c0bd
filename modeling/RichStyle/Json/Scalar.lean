import RichStyle.Json.Problem
import RichStyle.Number

/-!
# Reading strings, words and numbers

Each reader takes the text that is left and gives a value and the text after it.
-/

namespace RichStyle

namespace Json

def isSpace (c : Char) : Bool :=
  c == ' ' || c == '\n' || c == '\t' || c == '\r'

def skipSpace (s : List Char) : List Char :=
  s.dropWhile isSpace

def stopAtEnd {α : Type} (part : Unfinished) : Except Stop α :=
  .error ⟨.unfinished part, [], 0⟩

/-- Stops at the next character, which has been looked at. -/
def stopAt {α : Type} (problem : Problem) (s : List Char) : Except Stop α :=
  .error ⟨problem, s, 1⟩

def readWord : List Char → List Char → Except Stop (List Char)
  | [], s => .ok s
  | _ :: _, [] => stopAtEnd .value
  | w :: word, c :: s => if w = c then readWord word s else stopAt .expectedIdent (c :: s)

def hexDigit? (c : Char) : Option Nat :=
  if c.isDigit then some (c.toNat - '0'.toNat)
  else if 'a' ≤ c ∧ c ≤ 'f' then some (c.toNat - 'a'.toNat + 10)
  else if 'A' ≤ c ∧ c ≤ 'F' then some (c.toNat - 'A'.toNat + 10)
  else none

def readHex (s : List Char) : Except Stop (Nat × List Char) :=
  if (s.take 4).foldl (fun size c => size + c.utf8Size) 0 < 4 then stopAtEnd .text
  else
    match s with
    | a :: b :: c :: d :: rest =>
        match hexDigit? a, hexDigit? b, hexDigit? c, hexDigit? d with
        | some a, some b, some c, some d => .ok (((a * 16 + b) * 16 + c) * 16 + d, rest)
        | _, _, _, _ => .error ⟨.invalidEscape, s, 4⟩
    | _ => .error ⟨.invalidEscape, s, 4⟩

/-- Reads the code of a character after `\u`.  Characters beyond four digits take two codes. -/
def readCode (s : List Char) : Except Stop (Char × List Char) := do
  let (high, rest) ← readHex s
  if 0xDC00 ≤ high ∧ high ≤ 0xDFFF then .error ⟨.loneSurrogate, rest, 0⟩
  else if high < 0xD800 ∨ 0xDBFF < high then .ok (Char.ofNat high, rest)
  else
    -- the first of two codes, and the second has to follow at once
    match rest with
    | [] => stopAtEnd .text
    | '\\' :: [] => stopAtEnd .text
    | '\\' :: 'u' :: second => do
        let (low, rest) ← readHex second
        if low < 0xDC00 ∨ 0xDFFF < low then .error ⟨.loneSurrogate, rest, 0⟩
        else .ok (Char.ofNat (0x10000 + (high - 0xD800) * 0x400 + (low - 0xDC00)), rest)
    | '\\' :: other => stopAt .unfinishedHexEscape other
    | other => stopAt .unfinishedHexEscape other

/-- The character that a letter after a backslash stands for, apart from codes. -/
def escaped? : Char → Option Char
  | '"' => some '"'
  | '\\' => some '\\'
  | '/' => some '/'
  | 'b' => some '\x08'
  | 'f' => some '\x0c'
  | 'n' => some '\n'
  | 'r' => some '\r'
  | 't' => some '\t'
  | _ => none

def readEscape : List Char → Except Stop (Char × List Char)
  | [] => stopAtEnd .text
  | c :: s =>
      match escaped? c with
      | some value => .ok (value, s)
      | none => if c = 'u' then readCode s else stopAt .invalidEscape (c :: s)

theorem readHex_rest_le {s rest : List Char} {n : Nat} (h : readHex s = .ok (n, rest)) :
    rest.length ≤ s.length := by
  unfold readHex at h
  split at h
  · cases h
  · split at h
    · split at h
      · simp only [Except.ok.injEq, Prod.mk.injEq] at h
        simp only [← h.2, List.length_cons]
        omega
      · cases h
    · cases h

theorem readCode_rest_le {s rest : List Char} {c : Char} (h : readCode s = .ok (c, rest)) :
    rest.length ≤ s.length := by
  unfold readCode at h
  cases hhigh : readHex s with
  | error stop => simp [hhigh, bind, Except.bind] at h
  | ok high =>
      have hle := readHex_rest_le hhigh
      simp only [hhigh, bind, Except.bind] at h
      split at h
      · cases h
      · split at h
        · simp only [Except.ok.injEq, Prod.mk.injEq] at h
          rw [← h.2]
          exact hle
        · split at h
          · cases h
          · cases h
          · next second hrest =>
              cases hlow : readHex second with
              | error stop => simp [hlow] at h
              | ok low =>
                  have hle' := readHex_rest_le hlow
                  simp only [hlow] at h
                  split at h
                  · cases h
                  · simp only [Except.ok.injEq, Prod.mk.injEq] at h
                    rw [← h.2]
                    have := congrArg List.length hrest
                    simp only [List.length_cons] at this
                    omega
          · cases h
          · cases h

theorem readEscape_rest_le {s rest : List Char} {c : Char} (h : readEscape s = .ok (c, rest)) :
    rest.length ≤ s.length := by
  unfold readEscape at h
  split at h
  · cases h
  · split at h
    · simp only [Except.ok.injEq, Prod.mk.injEq] at h
      rw [← h.2]
      simp
    · split at h
      · have := readCode_rest_le h
        simp only [List.length_cons]
        omega
      · cases h

def readString (s : List Char) : Except Stop (List Char × List Char) :=
  match s with
  | [] => stopAtEnd .text
  | c :: rest =>
      if c = '"' then .ok ([], rest)
      else if c = '\\' then
        match _h : readEscape rest with
        | .error stop => .error stop
        | .ok (value, after) => do
            let (more, after) ← readString after
            .ok (value :: more, after)
      else if c.toNat < 0x20 then stopAt .controlCharacter s
      else do
        let (more, after) ← readString rest
        .ok (c :: more, after)
termination_by s.length
decreasing_by
  · have := readEscape_rest_le _h
    simp only [List.length_cons]
    omega
  · simp

inductive Numeral where
  | natural (value : Nat)
  | minus (size : Nat)
  | float (negative : Bool) (size : Magnitude)
deriving DecidableEq

namespace Numeral

def found : Numeral → Found
  | natural value => .integer value
  | minus size => .integer (-size)
  | float negative size => .float negative size

/-- A digit put after a number that has to stay below `limit`; no answer if it does not fit. -/
def extend? (limit n : Nat) (c : Char) : Option Nat :=
  let next := n * 10 + (c.toNat - '0'.toNat)
  if next < limit then some next else none

/-- Puts digits after a number as long as it stays below `limit`, and gives the digits left over. -/
def extend (limit n : Nat) : List Char → Nat × List Char
  | [] => (n, [])
  | c :: digits =>
      match extend? limit n c with
      | some next => extend limit next digits
      | none => (n, c :: digits)

/-- The largest power of ten that is finite. -/
def maxPower : Nat := 308

/-- `x` times a power of ten, in rounded steps of `maxPower`; no answer if it is too large. -/
def timesPower? (steps : Nat) (x : Magnitude) (exponent : Int) : Option Magnitude :=
  if exponent.natAbs ≤ maxPower then
    let power := Magnitude.nearest (Nat.pow 10 exponent.natAbs) 1
    if 0 ≤ exponent then
      match x.mul power with
      | .finite units => some (.finite units)
      | .infinite => none
    else some (x.div power)
  else if x = .zero then some x
  else if 0 ≤ exponent then none
  else
    match steps with
    | 0 => some .zero
    | steps + 1 =>
        timesPower? steps (x.div (Magnitude.nearest (Nat.pow 10 maxPower) 1)) (exponent + maxPower)

def ofParts (negative : Bool) (significand : Nat) (exponent : Int) (rest : List Char) :
    Except Stop (Numeral × List Char) :=
  match timesPower? 3 (Magnitude.nearest significand 1) exponent with
  | some size => .ok (float negative size, rest)
  | none => .error ⟨.numberOutOfRange, rest, 0⟩

def readExponentDigits (negative : Bool) (significand : Nat) (exponent : Int) (up : Bool)
    (s : List Char) : Except Stop (Numeral × List Char) :=
  let digits := s.takeWhile Char.isDigit
  let rest := s.dropWhile Char.isDigit
  match s with
  | [] => stopAtEnd .value
  | _ =>
      if digits.isEmpty then stopAt .invalidNumber s
      else
        match extend (Nat.pow 2 31) 0 digits with
        | (power, []) =>
            ofParts negative significand (if up then exponent + power else exponent - power) rest
        | (_, surplus) =>
            if significand ≠ 0 ∧ up then .error ⟨.numberOutOfRange, surplus.drop 1 ++ rest, 0⟩
            else .ok (float negative .zero, rest)

def readExponent (negative : Bool) (significand : Nat) (exponent : Int) :
    List Char → Except Stop (Numeral × List Char)
  | '+' :: s => readExponentDigits negative significand exponent true s
  | '-' :: s => readExponentDigits negative significand exponent false s
  | s => readExponentDigits negative significand exponent true s

/-- Reads an exponent if there is one, after a significand that is no whole number. -/
def readPower (negative : Bool) (significand : Nat) (exponent : Int) (s : List Char) :
    Except Stop (Numeral × List Char) :=
  match s with
  | 'e' :: rest => readExponent negative significand exponent rest
  | 'E' :: rest => readExponent negative significand exponent rest
  | _ => ofParts negative significand exponent s

def readFraction (negative : Bool) (significand : Nat) (exponent : Int) (s : List Char) :
    Except Stop (Numeral × List Char) :=
  let digits := s.takeWhile Char.isDigit
  let rest := s.dropWhile Char.isDigit
  if digits.isEmpty then
    match s with
    | [] => stopAtEnd .value
    | _ => stopAt .invalidNumber s
  else
    let (extended, surplus) := extend (Nat.pow 2 64) significand digits
    let used := digits.length - surplus.length
    readPower negative extended (exponent - used) rest

/-- The whole number with a sign; a negative one has to fit into 64 bits, and zero has no sign. -/
def whole (negative : Bool) (size : Nat) : Numeral :=
  if negative then
    if size = 0 ∨ Nat.pow 2 63 < size then float true (Magnitude.nearest size 1)
    else minus size
  else natural size

/-- Reads what follows the digits of a whole number that fits. -/
def readAfterWhole (negative : Bool) (size : Nat) (s : List Char) :
    Except Stop (Numeral × List Char) :=
  match s with
  | '.' :: rest => readFraction negative size 0 rest
  | 'e' :: rest => readExponent negative size 0 rest
  | 'E' :: rest => readExponent negative size 0 rest
  | _ => .ok (whole negative size, s)

/-- Reads a number after its sign.  Digits beyond 64 bits only count towards the power of ten. -/
def read (negative : Bool) (s : List Char) : Except Stop (Numeral × List Char) :=
  match s with
  | [] => stopAtEnd .value
  | '0' :: rest =>
      if (rest.takeWhile Char.isDigit).isEmpty then readAfterWhole negative 0 rest
      else stopAt .invalidNumber rest
  | _ =>
      let digits := s.takeWhile Char.isDigit
      let rest := s.dropWhile Char.isDigit
      if digits.isEmpty then stopAt .invalidNumber s
      else
        let (size, surplus) := extend (Nat.pow 2 64) 0 digits
        -- with digits left over the number is no whole number any more
        if surplus.isEmpty then readAfterWhole negative size rest
        else
          match rest with
          | '.' :: fraction => readFraction negative size surplus.length fraction
          | _ => readPower negative size surplus.length rest

end Numeral

/-- Why a value is refused where something else was expected. -/
def mismatch {α : Type} (expected : String) (s : List Char) : Except Stop α :=
  let wrong (found : Found) (rest : List Char) : Except Stop α :=
    .error ⟨.wrongType found expected, rest, 0⟩
  match s with
  | [] => stopAtEnd .value
  | 'n' :: rest => do wrong .null (← readWord "ull".toList rest)
  | 't' :: rest => do wrong (.boolean true) (← readWord "rue".toList rest)
  | 'f' :: rest => do wrong (.boolean false) (← readWord "alse".toList rest)
  | '-' :: rest => do
      let (numeral, rest) ← Numeral.read true rest
      wrong numeral.found rest
  | '"' :: rest => do
      let (text, rest) ← readString rest
      wrong (.text text) rest
  | '[' :: _ => wrong .sequence s
  | '{' :: _ => wrong .map s
  | c :: _ =>
      if c.isDigit then do
        let (numeral, rest) ← Numeral.read false s
        wrong numeral.found rest
      else stopAt .expectedValue s

def readText (expected : String) (s : List Char) : Except Stop (String × List Char) :=
  match skipSpace s with
  | '"' :: rest => do
      let (text, rest) ← readString rest
      .ok (String.ofList text, rest)
  | other => mismatch expected other

def readFlag (s : List Char) : Except Stop (Bool × List Char) :=
  match skipSpace s with
  | 't' :: rest => do .ok (true, ← readWord "rue".toList rest)
  | 'f' :: rest => do .ok (false, ← readWord "alse".toList rest)
  | other => mismatch "a boolean" other

/-- A number as a 64-bit count, if it is one. -/
def countOf (numeral : Numeral) (rest : List Char) : Except Stop (UInt64 × List Char) :=
  match numeral with
  | .natural value => .ok (.ofNat value, rest)
  | .minus size => .error ⟨.wrongValue (-size) "usize", rest, 0⟩
  | .float negative size => .error ⟨.wrongType (.float negative size) "usize", rest, 0⟩

def readCount (s : List Char) : Except Stop (UInt64 × List Char) :=
  match skipSpace s with
  | [] => stopAtEnd .value
  | '-' :: rest => do
      let (numeral, rest) ← Numeral.read true rest
      countOf numeral rest
  | c :: rest =>
      if c.isDigit then do
        let (numeral, rest) ← Numeral.read false (c :: rest)
        countOf numeral rest
      else mismatch "usize" (c :: rest)

end Json

end RichStyle
