import RichStyle.Json.Scalar

/-!
# Passing over a value

A value that nobody asked for is passed over, but it has to be well formed.  Open lists and objects
are kept on a stack.
-/

namespace RichStyle

namespace Json

def skipString (s : List Char) : Except Stop (List Char) :=
  match s with
  | [] => stopAtEnd .text
  | c :: rest =>
      if c = '"' then .ok rest
      else if c = '\\' then
        match rest with
        | [] => stopAtEnd .text
        | e :: after =>
            if (escaped? e).isSome then skipString after
            else if e = 'u' then
              match _h : readHex after with
              | .error stop => .error stop
              | .ok (_, after) => skipString after
            else stopAt .invalidEscape rest
      else if c.toNat < 0x20 then .error ⟨.controlCharacter, s, 0⟩
      else skipString rest
termination_by s.length
decreasing_by
  · simp only [List.length_cons]
    omega
  · have := readHex_rest_le _h
    simp only [List.length_cons]
    omega
  · simp

def skipExponent (s : List Char) : Except Stop (List Char) :=
  let unsigned :=
    match s with
    | '+' :: rest => rest
    | '-' :: rest => rest
    | _ => s
  if (unsigned.takeWhile Char.isDigit).isEmpty then stopAt .invalidNumber unsigned
  else .ok (unsigned.dropWhile Char.isDigit)

def skipPower : List Char → Except Stop (List Char)
  | 'e' :: rest => skipExponent rest
  | 'E' :: rest => skipExponent rest
  | s => .ok s

def skipFraction : List Char → Except Stop (List Char)
  | '.' :: s =>
      if (s.takeWhile Char.isDigit).isEmpty then stopAt .invalidNumber s
      else skipPower (s.dropWhile Char.isDigit)
  | s => skipPower s

def skipNumber (s : List Char) : Except Stop (List Char) :=
  match s with
  | '0' :: rest =>
      if (rest.takeWhile Char.isDigit).isEmpty then skipFraction rest
      else stopAt .invalidNumber rest
  | _ =>
      if (s.takeWhile Char.isDigit).isEmpty then stopAt .invalidNumber s
      else skipFraction (s.dropWhile Char.isDigit)

/-- A list or an object that is still open. -/
inductive Frame where
  | list
  | object
deriving DecidableEq

namespace Frame

def close : Frame → Char
  | list => ']'
  | object => '}'

def unfinished : Frame → Unfinished
  | list => .list
  | object => .object

/-- What is wrong if neither a comma nor its end follows. -/
def expectedNext : Frame → Problem
  | list => .expectedCommaOrBracket
  | object => .expectedCommaOrBrace

end Frame

/-- Passes over a key and its colon, if the open frame needs one. -/
def skipKey (frame : Frame) (s : List Char) : Except Stop (List Char) :=
  match frame with
  | .list => .ok s
  | .object =>
      match skipSpace s with
      | [] => stopAtEnd .object
      | '"' :: rest => do
          let after ← skipString rest
          match skipSpace after with
          | [] => stopAtEnd .object
          | ':' :: value => .ok value
          | other => stopAt .expectedColon other
      | other => stopAt .keyNotString other

/-- What has to come next: a value, or whatever may follow one. -/
inductive Awaiting where
  | value
  | continuation
deriving DecidableEq

/-- Passes over values until no frame is open; the fuel bounds the number of steps. -/
def skipFrames : Nat → Awaiting → List Frame → List Char → Except Stop (List Char)
  | 0, _, _, s => .ok s
  | _ + 1, .continuation, [], s => .ok s
  | fuel + 1, .continuation, frame :: frames, s =>
      match skipSpace s with
      | [] => stopAtEnd frame.unfinished
      | c :: rest =>
          if c = ',' then do
            let value ← skipKey frame rest
            skipFrames fuel .value (frame :: frames) value
          else if c = frame.close then skipFrames fuel .continuation frames rest
          else stopAt frame.expectedNext (c :: rest)
  | fuel + 1, .value, frames, s =>
      let opened (frame : Frame) (inside : List Char) : Except Stop (List Char) :=
        match skipSpace inside with
        | [] => stopAtEnd frame.unfinished
        | c :: rest =>
            if c = frame.close then skipFrames fuel .continuation frames rest
            else do
              let value ← skipKey frame (c :: rest)
              skipFrames fuel .value (frame :: frames) value
      match skipSpace s with
      | [] => stopAtEnd .value
      | 'n' :: rest => do
          skipFrames fuel .continuation frames (← readWord "ull".toList rest)
      | 't' :: rest => do
          skipFrames fuel .continuation frames (← readWord "rue".toList rest)
      | 'f' :: rest => do
          skipFrames fuel .continuation frames (← readWord "alse".toList rest)
      | '"' :: rest => do skipFrames fuel .continuation frames (← skipString rest)
      | '-' :: rest => do skipFrames fuel .continuation frames (← skipNumber rest)
      | '[' :: rest => opened .list rest
      | '{' :: rest => opened .object rest
      | c :: rest =>
          if c.isDigit then do
            skipFrames fuel .continuation frames (← skipNumber (c :: rest))
          else stopAt .expectedValue (c :: rest)

/-- Passes over one value.  Every step takes a character, so the fuel suffices. -/
def skipValue (s : List Char) : Except Stop (List Char) :=
  skipFrames (s.length + 1) .value [] s

end Json

end RichStyle
