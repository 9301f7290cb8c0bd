import RichStyle.Diagnostic
import RichStyle.Text
import RichStyle.Text.Word

/-!
# Sources

Before a source is cut into tokens its comments are removed, its imports are marked and its themes
are written out, in this order.
-/

namespace RichStyle

/-!
## Removing comments

Comments outside quoted strings are removed.  The line feeds inside them stay, so that what follows
keeps its line.
-/

namespace Source

open Text

/-- A text without its comments; of each comment only the line feeds are left. -/
def withoutComments : List Char → List Char
  | [] => []
  | c :: s =>
      if isQuote c then
        c :: (quotedRun c s).1 ++ withoutComments (quotedRun c s).2
      else if startsComment (c :: s) then
        -- the first character of `s` is the star of the opening mark
        (commentRun (s.drop 1)).1.filter (· == '\n') ++
          withoutComments (commentRun (s.drop 1)).2
      else
        c :: withoutComments s
termination_by s => s.length
decreasing_by
  · exact Nat.lt_succ_of_le (quotedRun_rest_le c s)
  · have h := commentRun_rest_le (s.drop 1)
    rw [List.length_drop] at h
    simp only [List.length_cons]
    omega
  · exact Nat.lt_succ_self _

end Source

/-!
## Import lines

A line that holds nothing but `@import`, a quoted path (bare or in `url(…)`) and a semicolon imports
the path.  It is replaced by a comment that names the path; the path itself is put on record and never
followed.
-/

namespace Source

open Text

def splitLines : List Char → List (List Char)
  | [] => []
  | c :: s =>
      if c = '\n' then [c] :: splitLines s
      else
        match splitLines s with
        | [] => [[c]]
        | line :: lines => (c :: line) :: lines

/-- The inside of `url(…)`, without blanks around it; any other text as it stands. -/
def unwrapUrl (s : List Char) : List Char :=
  match (dropLeading? "url(".toList s).bind (dropTrailing? [')']) with
  | some inside => trim inside
  | none => s

/-- The path that a line imports, if it is an import. -/
def importTarget? (line : List Char) : Option (List Char) := do
  let statement ← dropLeading? "@import".toList (trim line)
  let literal ← dropTrailing? [';'] (trimStart statement)
  unwrapQuotes? (unwrapUrl (trim literal))

def importMark (target : List Char) : List Char :=
  "/* @import \"".toList ++ target ++ "\" (not inlined) */".toList

/-- A line without its line feed, and the line feed if it has one. -/
def cutLineFeed (line : List Char) : List Char × List Char :=
  match dropTrailing? ['\n'] line with
  | some content => (content, ['\n'])
  | none => (line, [])

/-- A text with its imports marked, and the imported paths in order. -/
structure Marked where
  text : List Char
  imports : List (List Char)

/-- Replaces a line by its mark if it is an import. -/
def markLine (line : List Char) : Marked :=
  let cut := cutLineFeed line
  match importTarget? cut.1 with
  | some target => ⟨importMark target ++ cut.2, [target]⟩
  | none => ⟨line, []⟩

/-- Replaces every import line of a text by its mark. -/
def markImports (s : List Char) : Marked :=
  let lines := (splitLines s).map markLine
  ⟨lines.flatMap Marked.text, lines.flatMap Marked.imports⟩

theorem splitLines_flatten (s : List Char) : (splitLines s).flatten = s := by
  induction s with
  | nil => rfl
  | cons c s ih =>
      unfold splitLines
      split
      · simp [ih]
      · split
        · next h => simpa [h] using ih
        · next h => simpa [h] using ih

end Source

/-!
## Themes

`@theme name { key: value; … }` declares a named set of variables.  Each theme is written out as a
rule for `:root[data-theme="name"]` whose declarations are the variables, followed by the line feeds
of the block, so that what comes after it keeps its line.
-/

namespace Source

open Text

structure Theme where
  name : List Char
  entries : List (List Char × List Char)

def themeKeyword : List Char :=
  "@theme".toList

def isNameChar (c : Char) : Bool :=
  isWord c || c == '-' || c == '_'

/-- Cuts a text at the first place outside quoted strings where the rest satisfies `here`. -/
def cutOutsideQuotes (here : List Char → Bool) : List Char → Option (List Char × List Char)
  | [] => none
  | c :: s =>
      if isQuote c then
        (cutOutsideQuotes here (quotedRun c s).2).map fun cut =>
          (c :: (quotedRun c s).1 ++ cut.1, cut.2)
      else if here (c :: s) then some ([], c :: s)
      else (cutOutsideQuotes here s).map fun cut => (c :: cut.1, cut.2)
termination_by s => s.length
decreasing_by
  · exact Nat.lt_succ_of_le (quotedRun_rest_le c s)
  · exact Nat.lt_succ_self _

theorem cutOutsideQuotes_append {here : List Char → Bool} {s before rest : List Char}
    (h : cutOutsideQuotes here s = some (before, rest)) : before ++ rest = s := by
  fun_induction cutOutsideQuotes here s generalizing before rest with
  | case1 => simp at h
  | case2 c s hq ih =>
      obtain ⟨cut, hcut, heq⟩ := Option.map_eq_some_iff.1 h
      obtain ⟨rfl, rfl⟩ := Prod.mk.inj heq
      have hrest := ih hcut
      simp only [List.cons_append, List.append_assoc, hrest, quotedRun_append]
  | case3 c s hq hhere =>
      obtain ⟨rfl, rfl⟩ := Prod.mk.inj (Option.some.inj h)
      rfl
  | case4 c s hq hhere ih =>
      obtain ⟨cut, hcut, heq⟩ := Option.map_eq_some_iff.1 h
      obtain ⟨rfl, rfl⟩ := Prod.mk.inj heq
      simp [ih hcut]

theorem cutOutsideQuotes_here {here : List Char → Bool} {s before rest : List Char}
    (h : cutOutsideQuotes here s = some (before, rest)) : here rest = true := by
  fun_induction cutOutsideQuotes here s generalizing before rest with
  | case1 => simp at h
  | case2 c s hq ih =>
      obtain ⟨cut, hcut, heq⟩ := Option.map_eq_some_iff.1 h
      obtain ⟨rfl, rfl⟩ := Prod.mk.inj heq
      exact ih hcut
  | case3 c s hq hhere =>
      obtain ⟨rfl, rfl⟩ := Prod.mk.inj (Option.some.inj h)
      exact hhere
  | case4 c s hq hhere ih =>
      obtain ⟨cut, hcut, heq⟩ := Option.map_eq_some_iff.1 h
      obtain ⟨rfl, rfl⟩ := Prod.mk.inj heq
      exact ih hcut

/-- Puts a text in front of the first part of a list of parts. -/
def extendFirst (s : List Char) : List (List Char) → List (List Char)
  | [] => [s]
  | part :: parts => (s ++ part) :: parts

/-- The parenthesis depth after a character; a surplus closing parenthesis leaves it at zero. -/
def parenDepth (depth : Nat) (c : Char) : Nat :=
  if c = '(' then depth + 1 else if c = ')' then depth - 1 else depth

/-- Cuts a text at each semicolon outside quoted strings and parentheses. -/
def splitEntries (depth : Nat) : List Char → List (List Char)
  | [] => [[]]
  | c :: s =>
      if isQuote c then
        extendFirst (c :: (quotedRun c s).1) (splitEntries depth (quotedRun c s).2)
      else if c = ';' ∧ depth = 0 then [] :: splitEntries 0 s
      else extendFirst [c] (splitEntries (parenDepth depth c) s)
termination_by s => s.length
decreasing_by
  · exact Nat.lt_succ_of_le (quotedRun_rest_le c s)
  · exact Nat.lt_succ_self _
  · exact Nat.lt_succ_self _

namespace Theme

/-- The variable that an entry declares.  Dashes in front of the key do not belong to it. -/
def variableOf? (entry : List Char) : Option (List Char × List Char) :=
  let value := entry.dropWhile (· ≠ ':')
  let key := (trim (entry.takeWhile (· ≠ ':'))).dropWhile (· = '-')
  if value.isEmpty || key.isEmpty then none
  else some (key, trim (value.drop 1))

def variablesOf (body : List Char) : List (List Char × List Char) :=
  (splitEntries 0 body).filterMap variableOf?

/-- The rule that a theme stands for, on one line. -/
def render (theme : Theme) : List Char :=
  ":root[data-theme=\"".toList ++ theme.name ++ "\"] \x7b ".toList ++
    (theme.entries.flatMap fun v =>
      "--theme-".toList ++ v.1 ++ ": ".toList ++ v.2 ++ "; ".toList) ++
    ['}']

/-- A theme, the text of its block after the keyword, and what follows the block. -/
structure Block where
  theme : Theme
  source : List Char
  rest : List Char

/-- Reads the block of a theme whose keyword stands at `p`; the text starts after the keyword. -/
def read (p : Span) (s : List Char) : Except Malformed Block :=
  let gap := blankRun s
  let name := gap.2.takeWhile isNameChar
  let afterName := gap.2.dropWhile isNameChar
  let space := blankRun afterName
  let header := gap.1 ++ name ++ space.1
  if name.isEmpty then
    .error ⟨.themeWithoutName, p⟩
  else
    match space.2 with
    | '{' :: inside =>
        match cutOutsideQuotes (startsWith ['}']) inside with
        | some (body, tail) =>
            .ok ⟨⟨name, variablesOf body⟩, header ++ '{' :: body ++ ['}'], tail.drop 1⟩
        | none => .error ⟨.themeUnclosed (String.ofList name), p⟩
    | _ => .error ⟨.themeWithoutBrace (String.ofList name), (p.advance themeKeyword).advance header⟩

theorem read_append {p : Span} {s : List Char} {block : Block}
    (h : read p s = .ok block) : block.source ++ block.rest = s := by
  have hgap := blankRun_append s
  have hname : (blankRun s).2.takeWhile isNameChar ++ (blankRun s).2.dropWhile isNameChar =
      (blankRun s).2 := by simp
  have hspace := blankRun_append ((blankRun s).2.dropWhile isNameChar)
  unfold read at h
  simp only at h
  split at h
  · cases h
  · split at h
    · next inside hinside =>
        split at h
        · next body tail hcut =>
            obtain rfl := Except.ok.inj h
            have happ := cutOutsideQuotes_append hcut
            obtain ⟨r, hr⟩ := startsWith_iff.1 (cutOutsideQuotes_here hcut)
            subst hr
            simp only [List.cons_append, List.nil_append, List.drop_one, List.tail_cons,
              List.append_assoc] at happ ⊢
            rw [happ, ← hinside, hspace, hname, hgap]
        · cases h
    · cases h

end Theme

def startsBlank : List Char → Bool
  | [] => false
  | c :: _ => isBlank c

theorem length_after_keyword {s before rest : List Char}
    (h : cutOutsideQuotes (startsWith themeKeyword) s = some (before, rest)) :
    (rest.drop themeKeyword.length).length < s.length := by
  have happ := congrArg List.length (cutOutsideQuotes_append h)
  obtain ⟨r, rfl⟩ := startsWith_iff.1 (cutOutsideQuotes_here h)
  simp only [List.length_append, List.length_drop] at happ ⊢
  have hkey : themeKeyword.length = 6 := by decide
  omega

/-- Writes out every theme of a text that starts at `p`. -/
def expandThemes (p : Span) (s : List Char) : Except Malformed (List Char) :=
  match _hcut : cutOutsideQuotes (startsWith themeKeyword) s with
  | none => .ok s
  | some (before, rest) =>
      let place := p.advance before
      let after := rest.drop themeKeyword.length
      if startsBlank after then
        match _hread : Theme.read place after with
        | .error malformed => .error malformed
        | .ok block => do
            let source := themeKeyword ++ block.source
            let expanded ← expandThemes (place.advance source) block.rest
            .ok (before ++ block.theme.render ++ source.filter (· == '\n') ++ expanded)
      -- without a blank behind it the keyword is part of something else
      else do
        let expanded ← expandThemes (place.advance themeKeyword) after
        .ok (before ++ themeKeyword ++ expanded)
termination_by s.length
decreasing_by
  · have hlen := congrArg List.length (Theme.read_append _hread)
    have hlt : after.length < s.length := length_after_keyword _hcut
    rw [List.length_append] at hlen
    omega
  · exact length_after_keyword _hcut

end Source

/-! ## Prepared sources -/

namespace Source

structure Prepared where
  text : List Char
  imports : List (List Char)

def marked (source : List Char) : Marked :=
  markImports (withoutComments source)

/-- Prepares a source.  Faults are placed in the text whose themes are written out. -/
def prepare (source : List Char) : Except Malformed Prepared := do
  let text ← expandThemes .start (marked source).text
  .ok ⟨text, (marked source).imports⟩

end Source

end RichStyle
