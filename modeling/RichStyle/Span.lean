/-!
# Places in a text

A span is a line and a column, both counted from one; a column counts characters.  Line and
column zero together stand for an unknown place.  `step` and `advance` move a span along a text;
`locate?` finds the place of a byte offset by counting.
-/

namespace RichStyle

structure Span where
  line : Nat
  column : Nat
deriving DecidableEq

namespace Span

/-- The place of something that no source text holds. -/
def unknown : Span := ⟨0, 0⟩

def start : Span := ⟨1, 1⟩

def isUnknown (p : Span) : Bool :=
  p.line == 0 && p.column == 0

def text (p : Span) : String :=
  if p.isUnknown then "<unknown>" else s!"{p.line}:{p.column}"

def step (p : Span) (c : Char) : Span :=
  if c = '\n' then ⟨p.line + 1, 1⟩ else ⟨p.line, p.column + 1⟩

def advance (p : Span) (s : List Char) : Span :=
  s.foldl step p

/-- The place right after a text: its line feeds and the characters of its last line are counted. -/
def after (s : List Char) : Span :=
  ⟨s.count '\n' + 1, (s.reverse.takeWhile (· ≠ '\n')).length + 1⟩

/--
The first `n` bytes of a text in UTF-8, all of it if it has fewer.  There is no answer if the cut
would go through a character.
-/
def takeBytes? : List Char → Nat → Option (List Char)
  | [], _ => some []
  | c :: s, n =>
      if n = 0 then some []
      else if c.utf8Size ≤ n then (takeBytes? s (n - c.utf8Size)).map (c :: ·)
      else none

/-- The place of a byte offset in a text, if the offset does not fall inside a character. -/
def locate? (s : List Char) (offset : Nat) : Option Span :=
  (takeBytes? s offset).map after

@[simp] theorem advance_nil (p : Span) : p.advance [] = p := rfl

@[simp] theorem advance_cons (p : Span) (c : Char) (s : List Char) :
    p.advance (c :: s) = (p.step c).advance s := rfl

theorem advance_append (p : Span) (s t : List Char) :
    p.advance (s ++ t) = (p.advance s).advance t := by
  simp [advance]

end Span

end RichStyle
