import RichStyle.Span
import RichStyle.Text

/-!
# Tokens and clauses

A text is cut into lexemes, and the tokens that they make into clauses.
-/

namespace RichStyle

/-!
## Lexemes and tokens

A text is cut into lexemes: punctuation marks, quoted strings, blanks, comments and runs of ordinary
characters.  A token is a lexeme together with its place.  Cutting loses nothing: the lexemes of a
text, put together again, are the text.
-/

open Text

inductive Kind where
  | openBrace
  | closeBrace
  | openParen
  | closeParen
  | colon
  | semicolon
  | quoted
  | blank
  | comment
  | plain
deriving DecidableEq

namespace Kind

def ofPunctuation? : Char → Option Kind
  | '{' => some openBrace
  | '}' => some closeBrace
  | '(' => some openParen
  | ')' => some closeParen
  | ':' => some colon
  | ';' => some semicolon
  | _ => none

/-- Blanks and comments separate tokens and mean nothing themselves. -/
def isTrivia : Kind → Bool
  | blank | comment => true
  | _ => false

end Kind

structure Lexeme where
  kind : Kind
  text : List Char
deriving DecidableEq

structure Token extends Lexeme where
  span : Span
deriving DecidableEq

namespace Lexeme

/-- The first lexeme of a text that is not empty, and the rest of the text. -/
def first (c : Char) (s : List Char) : Lexeme × List Char :=
  match Kind.ofPunctuation? c with
  | some kind => (⟨kind, [c]⟩, s)
  | none =>
      if isQuote c then
        (⟨.quoted, c :: (quotedRun c s).1⟩, (quotedRun c s).2)
      else if startsComment (c :: s) then
        (⟨.comment, '/' :: '*' :: (commentRun (s.drop 1)).1⟩, (commentRun (s.drop 1)).2)
      else if isBlank c then
        (⟨.blank, c :: (blankRun s).1⟩, (blankRun s).2)
      else
        (⟨.plain, c :: (plainRun s).1⟩, (plainRun s).2)

theorem startsComment_iff {s : List Char} :
    startsComment s = true ↔ ∃ r, s = '/' :: '*' :: r := by
  constructor
  · intro h
    unfold startsComment at h
    split at h
    · exact ⟨_, rfl⟩
    · cases h
  · rintro ⟨r, rfl⟩
    rfl

theorem first_append (c : Char) (s : List Char) :
    (first c s).1.text ++ (first c s).2 = c :: s := by
  unfold first
  split
  · rfl
  · split
    · simp [quotedRun_append]
    · split
      · next h =>
          obtain ⟨r, hr⟩ := startsComment_iff.1 h
          obtain ⟨rfl, rfl⟩ := List.cons.inj hr
          simp [commentRun_append]
      · split
        · simp [blankRun_append]
        · simp [plainRun_append]

theorem first_text_ne_nil (c : Char) (s : List Char) : (first c s).1.text ≠ [] := by
  unfold first
  split
  · simp
  · split
    · simp
    · split
      · simp
      · split <;> simp

theorem first_rest_lt (c : Char) (s : List Char) :
    (first c s).2.length < (c :: s).length := by
  have hlen := congrArg List.length (first_append c s)
  have hpos := List.length_pos_iff.2 (first_text_ne_nil c s)
  rw [List.length_append] at hlen
  omega

def split : List Char → List Lexeme
  | [] => []
  | c :: s => (first c s).1 :: split (first c s).2
termination_by s => s.length
decreasing_by exact first_rest_lt c s

def join (lexemes : List Lexeme) : List Char :=
  lexemes.flatMap Lexeme.text

theorem join_split (s : List Char) : join (split s) = s := by
  fun_induction split s with
  | case1 => rfl
  | case2 c s ih =>
      simp only [join, List.flatMap_cons] at ih ⊢
      rw [ih]
      exact first_append c s

end Lexeme

namespace Token

/-- Gives each lexeme its place, the first one `p`. -/
def place (p : Span) : List Lexeme → List Token
  | [] => []
  | lexeme :: lexemes => ⟨lexeme, p⟩ :: place (p.advance lexeme.text) lexemes

def ofText (s : List Char) : List Token :=
  place .start (Lexeme.split s)

def isTrivia (t : Token) : Bool :=
  t.kind.isTrivia

/-- The first token that means something. -/
def firstSolid? (tokens : List Token) : Option Token :=
  tokens.find? fun t => !t.isTrivia

/-- Whether another space would be one too many after `s`. -/
def endsSpaced (before : Bool) (s : List Char) : Bool :=
  match s.getLast? with
  | none => before
  | some c => c == ' '

/--
The text of the tokens without comments, with each run of blanks made one space.  No space is
written where `spaced` holds, that is at the start and after a space.
-/
def joinFrom (spaced : Bool) : List Token → List Char
  | [] => []
  | t :: tokens =>
      match t.kind with
      | .comment => joinFrom spaced tokens
      | .blank => if spaced then joinFrom true tokens else ' ' :: joinFrom true tokens
      | _ => t.text ++ joinFrom (endsSpaced spaced t.text) tokens

/-- The normal form of the tokens' text: no comments, single spaces, no blank at either end. -/
def render (tokens : List Token) : String :=
  String.ofList (trimEnd (joinFrom true tokens))

theorem place_map_toLexeme (p : Span) (lexemes : List Lexeme) :
    (place p lexemes).map Token.toLexeme = lexemes := by
  induction lexemes generalizing p with
  | nil => rfl
  | cons lexeme lexemes ih => simp [place, ih]

end Token

/-!
## Clauses

A clause is a run of tokens up to the mark that ends it: a brace, or a semicolon outside
parentheses.  Cutting a token list into clauses leaves the tokens after the last mark.
-/

inductive Ending where
  | semicolon
  | openBrace
  | closeBrace
deriving DecidableEq

/-- The tokens in front of a mark, the mark, and its place. -/
structure Clause where
  body : List Token
  ending : Ending
  mark : Span

/-- Clauses in order, and the tokens after the last of them. -/
structure Clauses where
  ended : List Clause
  tail : List Token

namespace Ending

/-- The ending that a token makes at a parenthesis depth. -/
def of? (depth : Nat) : Kind → Option Ending
  | .openBrace => some openBrace
  | .closeBrace => some closeBrace
  | .semicolon => if depth = 0 then some semicolon else none
  | _ => none

end Ending

/-- The parenthesis depth after a token; a surplus closing parenthesis leaves it at zero. -/
def Kind.parenDepth (depth : Nat) : Kind → Nat
  | .openParen => depth + 1
  | .closeParen => depth - 1
  | _ => depth

namespace Clauses

def push (t : Token) (cs : Clauses) : Clauses :=
  match cs.ended with
  | [] => ⟨[], t :: cs.tail⟩
  | c :: rest => ⟨{ c with body := t :: c.body } :: rest, cs.tail⟩

/-- Cuts tokens into clauses, the first of which starts at a parenthesis depth. -/
def split (depth : Nat) : List Token → Clauses
  | [] => ⟨[], []⟩
  | t :: tokens =>
      match Ending.of? depth t.kind with
      | some ending =>
          let cs := split 0 tokens
          ⟨⟨[], ending, t.span⟩ :: cs.ended, cs.tail⟩
      | none => (split (t.kind.parenDepth depth) tokens).push t

end Clauses

namespace Clause

/-- The place of the first token that means something, which may be the mark. -/
def start (c : Clause) : Span :=
  match Token.firstSolid? c.body with
  | some t => t.span
  | none => c.mark

end Clause

end RichStyle
