import RichStyle.Diagnostic
import RichStyle.Sheet
import RichStyle.Source
import RichStyle.Token

/-!
# Building a sheet

The clauses of a source are read one after the other.  Outside all rules a clause that ends with an
opening brace is a selector; inside a rule a clause is a declaration.  Blocks inside a rule are
passed over.
-/

namespace RichStyle

namespace Declaration

/-- Cuts tokens at the first colon outside parentheses. -/
def cutColon? (depth : Nat) : List Token → Option (List Token × List Token)
  | [] => none
  | t :: tokens =>
      if t.kind = .colon ∧ depth = 0 then some ([], tokens)
      else (cutColon? (t.kind.parenDepth depth) tokens).map fun cut => (t :: cut.1, cut.2)

/-- The declaration that a clause stands for, which starts at `p`. -/
def ofTokens? (tokens : List Token) (p : Span) : Option Declaration := do
  let (before, after) ← cutColon? 0 tokens
  let property := Token.render before
  if property.isEmpty then none else some (classified property (Token.render after) p)

end Declaration

structure Built where
  rules : List Rule
  warnings : List Diagnostic
deriving DecidableEq

namespace Built

def empty : Built := ⟨[], []⟩

def withRule (rule : Rule) (b : Built) : Built :=
  { b with rules := rule :: b.rules }

def withWarnings (warnings : List Diagnostic) (b : Built) : Built :=
  { b with warnings := warnings ++ b.warnings }

end Built

/-- Where in the block structure the next clause stands. -/
inductive Scope where
  | outside
  | inside (rule : Rule)
  /-- In a block inside a rule, so many blocks deep. -/
  | nested (rule : Rule) (depth : Nat)

namespace Sheet

/-- The declaration or the warning that a clause inside a rule gives; blank clauses give none. -/
def clauseContent (selector : String) (tokens : List Token) :
    List Declaration × List Diagnostic :=
  match Token.firstSolid? tokens with
  | none => ([], [])
  | some first =>
      match Declaration.ofTokens? tokens first.span with
      | some d => ([d], [])
      | none =>
          let finding := Finding.malformedDeclaration (Token.render tokens)
          ([], [finding.reportedIn selector first.span])

/-- A rule with one more clause, and the warnings about it. -/
def extendRule (rule : Rule) (tokens : List Token) : Rule × List Diagnostic :=
  let content := clauseContent rule.selector tokens
  ({ rule with declarations := rule.declarations ++ content.1 }, content.2)

/-- The place of the warning about a block inside a rule. -/
def nestedSpan (rule : Rule) (c : Clause) : Span :=
  match Token.firstSolid? c.body with
  | some t => t.span
  | none => rule.span

/-- Reads clauses from a scope on; `tail` are the tokens after the last clause. -/
def build (tail : List Token) : Scope → List Clause → Except Malformed Built
  | .outside, [] =>
      match Token.firstSolid? tail with
      | none => .ok .empty
      | some t => .error ⟨.blockMissing (Token.render tail), t.span⟩
  | .inside rule, [] => .error ⟨.blockUnclosed rule.selector, rule.span⟩
  | .nested rule _, [] => .error ⟨.nestedUnclosed rule.selector, rule.span⟩
  | .outside, c :: cs =>
      let text := Token.render c.body
      match c.ending with
      | .semicolon => do
          let built ← build tail .outside cs
          .ok (built.withWarnings [(Finding.unsupportedStatement text).reported c.start])
      | .closeBrace =>
          let fault :=
            if (Token.firstSolid? c.body).isSome then .strayCloseAfter text else .strayClose
          .error ⟨fault, c.start⟩
      | .openBrace =>
          if text.isEmpty then .error ⟨.selectorMissing, c.start⟩
          else build tail (.inside ⟨text, [], c.start⟩) cs
  | .inside rule, c :: cs =>
      match c.ending with
      | .semicolon => do
          let extended := extendRule rule c.body
          let built ← build tail (.inside extended.1) cs
          .ok (built.withWarnings extended.2)
      -- the last declaration of a rule may do without a semicolon
      | .closeBrace => do
          let extended := extendRule rule c.body
          let built ← build tail .outside cs
          .ok ((built.withRule extended.1).withWarnings extended.2)
      | .openBrace => do
          let finding := Finding.nestedBlock (Token.render c.body)
          let built ← build tail (.nested rule 0) cs
          .ok (built.withWarnings [finding.reportedIn rule.selector (nestedSpan rule c)])
  -- what stands in a nested block is passed over up to the brace that closes it
  | .nested rule depth, c :: cs =>
      match c.ending, depth with
      | .semicolon, _ => build tail (.nested rule depth) cs
      | .openBrace, _ => build tail (.nested rule (depth + 1)) cs
      | .closeBrace, 0 => build tail (.inside rule) cs
      | .closeBrace, outer + 1 => build tail (.nested rule outer) cs

def ofTokens (tokens : List Token) : Except Malformed Built :=
  let clauses := Clauses.split 0 tokens
  build clauses.tail .outside clauses.ended

structure Reading where
  sheet : Sheet
  warnings : List Diagnostic
deriving DecidableEq

def read (source : List Char) : Except Malformed Reading := do
  let prepared ← Source.prepare source
  let built ← ofTokens (Token.ofText prepared.text)
  .ok ⟨⟨built.rules, prepared.imports.map String.ofList⟩, built.warnings⟩

end Sheet

end RichStyle
