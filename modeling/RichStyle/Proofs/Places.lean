import RichStyle.Proofs.Steps

/-!
# Sheets elsewhere

How tokens are read depends on their lexemes alone.  Tokens whose places are moved are read in the
same way, and every place in the result is moved likewise.  Places so many lines further down are the
common case.
-/

namespace RichStyle

/-! ## Moving places -/

def Token.move (f : Span → Span) (t : Token) : Token :=
  { t with span := f t.span }

def Clause.move (f : Span → Span) (c : Clause) : Clause :=
  ⟨c.body.map (Token.move f), c.ending, f c.mark⟩

def Declaration.move (f : Span → Span) (d : Declaration) : Declaration :=
  { d with span := f d.span }

def Rule.move (f : Span → Span) (r : Rule) : Rule :=
  ⟨r.selector, r.declarations.map (Declaration.move f), f r.span⟩

def Diagnostic.move (f : Span → Span) (d : Diagnostic) : Diagnostic :=
  { d with span := d.span.map f }

def Malformed.move (f : Span → Span) (e : Malformed) : Malformed :=
  { e with span := f e.span }

def Built.move (f : Span → Span) (b : Built) : Built :=
  ⟨b.rules.map (Rule.move f), b.warnings.map (Diagnostic.move f)⟩

def Scope.move (f : Span → Span) : Scope → Scope
  | .outside => .outside
  | .inside rule => .inside (rule.move f)
  | .nested rule depth => .nested (rule.move f) depth

/-- The place so many lines further down. -/
def Span.down (n : Nat) (p : Span) : Span :=
  ⟨p.line + n, p.column⟩

abbrev Rule.down (n : Nat) : Rule → Rule :=
  Rule.move (Span.down n)

abbrev Diagnostic.down (n : Nat) : Diagnostic → Diagnostic :=
  Diagnostic.move (Span.down n)

/-! ## Places of tokens -/

namespace Span

theorem step_down (n : Nat) (p : Span) (c : Char) : (p.down n).step c = (p.step c).down n := by
  unfold step down
  split
  · simp only [Span.mk.injEq, and_true]
    omega
  · rfl

theorem advance_down (n : Nat) (p : Span) (s : List Char) :
    (p.down n).advance s = (p.advance s).down n := by
  induction s generalizing p with
  | nil => rfl
  | cons c s ih => rw [advance_cons, advance_cons, step_down, ih]

theorem line_le_advance (p : Span) (s : List Char) : p.line ≤ (p.advance s).line := by
  induction s generalizing p with
  | nil => exact Nat.le_refl _
  | cons c s ih =>
      have hstep : p.line ≤ (p.step c).line := by
        unfold step
        split <;> simp
      exact Nat.le_trans hstep (ih (p.step c))

theorem advance_of_single_line {s : List Char} (p : Span) (h : '\n' ∉ s) :
    p.advance s = ⟨p.line, p.column + s.length⟩ := by
  induction s generalizing p with
  | nil => rfl
  | cons c s ih =>
      rw [List.mem_cons, not_or] at h
      have hc : c ≠ '\n' := fun hc => h.1 hc.symm
      rw [advance_cons, ih (p.step c) h.2, step, if_neg hc, List.length_cons]
      simp only [Span.mk.injEq, true_and]
      omega

/-- After a line feed a place is in the first column. -/
theorem advance_feed (p : Span) (s : List Char) :
    p.advance (s ++ ['\n']) = ⟨p.line + (s ++ ['\n']).count '\n', 1⟩ := by
  have hline : ∀ q : Span, (q.advance s).line = q.line + s.count '\n' := by
    induction s with
    | nil => exact fun q => rfl
    | cons c s ih =>
        intro q
        rw [advance_cons, ih, List.count_cons, step]
        by_cases hc : c = '\n'
        · subst hc
          simp only [if_true, beq_self_eq_true]
          omega
        · simp [hc]
  rw [advance_append, advance_cons, advance_nil, step, if_pos rfl, hline, List.count_append]
  rfl

end Span

namespace Token

theorem place_append (p : Span) (a b : List Lexeme) :
    place p (a ++ b) = place p a ++ place (p.advance (Lexeme.join a)) b := by
  induction a generalizing p with
  | nil => rfl
  | cons l a ih =>
      rw [List.cons_append, place, place, ih, Lexeme.join_cons, Span.advance_append, List.cons_append]

theorem place_down (n : Nat) (p : Span) (lexemes : List Lexeme) :
    place (p.down n) lexemes = (place p lexemes).map (move (Span.down n)) := by
  induction lexemes generalizing p with
  | nil => rfl
  | cons l lexemes ih =>
      rw [place, place, List.map_cons, Span.advance_down, ih]
      rfl

theorem line_pos_of_place {p : Span} {lexemes : List Lexeme} (hp : 0 < p.line) :
    ∀ t ∈ place p lexemes, 0 < t.span.line := by
  induction lexemes generalizing p with
  | nil => simp [place]
  | cons l lexemes ih =>
      rw [place, List.forall_mem_cons]
      exact ⟨hp, ih (Nat.lt_of_lt_of_le hp (p.line_le_advance l.text))⟩

/-! ## Texts of tokens -/

section Texts

variable (f : Span → Span)

theorem map_kind_move (tokens : List Token) :
    (tokens.map (move f)).map (·.kind) = tokens.map (·.kind) := by
  rw [List.map_map]
  rfl

theorem joinFrom_move (spaced : Bool) (tokens : List Token) :
    joinFrom spaced (tokens.map (move f)) = joinFrom spaced tokens := by
  induction tokens generalizing spaced with
  | nil => rfl
  | cons t tokens ih =>
      rw [List.map_cons, joinFrom, joinFrom]
      simp only [ih]
      rfl

theorem render_move (tokens : List Token) : render (tokens.map (move f)) = render tokens := by
  rw [render, joinFrom_move, render]

theorem firstSolid?_move (tokens : List Token) :
    firstSolid? (tokens.map (move f)) = (firstSolid? tokens).map (move f) := by
  rw [firstSolid?, List.find?_map]
  rfl

end Texts

/-- The place of the first token that means something, or another place if there is none. -/
def firstPlace (tokens : List Token) (otherwise : Span) : Span :=
  match firstSolid? tokens with
  | some t => t.span
  | none => otherwise

theorem firstPlace_move (f : Span → Span) (tokens : List Token) (p : Span) :
    firstPlace (tokens.map (move f)) (f p) = f (firstPlace tokens p) := by
  unfold firstPlace
  rw [firstSolid?_move]
  cases firstSolid? tokens <;> rfl

theorem firstSolid?_mem {tokens : List Token} {t : Token} (h : firstSolid? tokens = some t) :
    t ∈ tokens :=
  List.mem_of_find?_eq_some h

theorem line_pos_of_firstPlace {tokens : List Token} {p : Span}
    (htokens : ∀ t ∈ tokens, 0 < t.span.line) (hp : 0 < p.line) :
    0 < (firstPlace tokens p).line := by
  unfold firstPlace
  cases hfirst : firstSolid? tokens with
  | none => exact hp
  | some t => exact htokens t (firstSolid?_mem hfirst)

end Token

/-! ## Reading elsewhere -/

namespace Declaration

variable (f : Span → Span)

theorem cutColon?_move (depth : Nat) (tokens : List Token) :
    cutColon? depth (tokens.map (Token.move f)) = (cutColon? depth tokens).map fun cut =>
      (cut.1.map (Token.move f), cut.2.map (Token.move f)) := by
  induction tokens generalizing depth with
  | nil => rfl
  | cons t tokens ih =>
      rw [List.map_cons, cutColon?, cutColon?]
      by_cases h : t.kind = .colon ∧ depth = 0
      · rw [if_pos h, if_pos (by exact h)]
        rfl
      · rw [if_neg h, if_neg (by exact h)]
        have hrest := ih (t.kind.parenDepth depth)
        change (cutColon? (t.kind.parenDepth depth) _).map _ = _
        rw [hrest, Option.map_map, Option.map_map]
        rfl

theorem ofTokens?_move (tokens : List Token) (p : Span) :
    ofTokens? (tokens.map (Token.move f)) (f p) = (ofTokens? tokens p).map (Declaration.move f) := by
  unfold ofTokens?
  rw [cutColon?_move]
  cases cutColon? 0 tokens with
  | none => rfl
  | some cut =>
      simp only [Option.map_some, Option.bind_eq_bind, Option.bind_some, Token.render_move]
      split
      · rfl
      · simp only [Option.map_some, classified, Declaration.move]

end Declaration

/-- Moving a place leaves it a place: known places stay known. -/
def Span.Keeps (f : Span → Span) : Prop :=
  ∀ p : Span, 0 < p.line → 0 < (f p).line

namespace Finding

variable {f : Span → Span} {p : Span} (finding : Finding) (hf : Span.Keeps f) (hp : 0 < p.line)

include hf hp

theorem reported_move : finding.reported (f p) = (finding.reported p).move f := by
  have hknown {q : Span} (hq : 0 < q.line) : q.isUnknown = false := by
    have hne : q.line ≠ 0 := by omega
    simp [Span.isUnknown, hne]
  simp [reported, Diagnostic.placed, hknown hp, hknown (hf p hp), Diagnostic.move]

theorem reportedIn_move (selector : String) :
    finding.reportedIn selector (f p) = (finding.reportedIn selector p).move f := by
  rw [reportedIn, reported_move finding hf hp]
  rfl

end Finding

namespace Sheet

/-- The rule around a clause has a place. -/
def Scope.Placed : Scope → Prop
  | .outside => True
  | .inside rule => 0 < rule.span.line
  | .nested rule _ => 0 < rule.span.line

section Move

variable {f : Span → Span} (hf : Span.Keeps f)

include hf

theorem extendRule_move {tokens : List Token} (htokens : ∀ t ∈ tokens, 0 < t.span.line)
    (rule : Rule) :
    extendRule (rule.move f) (tokens.map (Token.move f)) =
      ((extendRule rule tokens).1.move f, (extendRule rule tokens).2.map (Diagnostic.move f)) := by
  have hcontent : clauseContent rule.selector (tokens.map (Token.move f)) =
      ((clauseContent rule.selector tokens).1.map (Declaration.move f),
        (clauseContent rule.selector tokens).2.map (Diagnostic.move f)) := by
    unfold clauseContent
    rw [Token.firstSolid?_move]
    cases hfirst : Token.firstSolid? tokens with
    | none => rfl
    | some t =>
        have ht := htokens t (Token.firstSolid?_mem hfirst)
        have hdecl := Declaration.ofTokens?_move f tokens t.span
        have hspan : (t.move f).span = f t.span := rfl
        simp only [Option.map_some, hspan, hdecl]
        cases Declaration.ofTokens? tokens t.span with
        | some d => rfl
        | none =>
            simp only [Option.map_none, List.map_nil, List.map_cons, Token.render_move]
            rw [← Finding.reportedIn_move _ hf ht]
  have hselector : (rule.move f).selector = rule.selector := rfl
  simp only [extendRule, hselector, hcontent]
  simp [Rule.move]

theorem step_move {scope : Scope} {c : Clause} (hbody : ∀ t ∈ c.body, 0 < t.span.line)
    (hmark : 0 < c.mark.line) (hscope : Scope.Placed scope) :
    step (scope.move f) (c.move f) =
      ((step scope c).map fun next => (next.1.move f, next.2.move f)).mapError (Malformed.move f) := by
  obtain ⟨body, ending, mark⟩ := c
  cases scope with
  | outside =>
      have hstart : 0 < (Clause.start ⟨body, ending, mark⟩).line :=
        Token.line_pos_of_firstPlace hbody hmark
      have hat : (Clause.move f ⟨body, ending, mark⟩).start =
          f (Clause.start ⟨body, ending, mark⟩) := Token.firstPlace_move f body mark
      cases ending with
      | semicolon =>
          simp only [step, Scope.move, Clause.move, Token.render_move] at hat ⊢
          rw [hat, Finding.reported_move _ hf hstart]
          rfl
      | closeBrace =>
          simp only [step, Scope.move, Clause.move, Token.render_move, Token.firstSolid?_move,
            Option.isSome_map] at hat ⊢
          rw [hat]
          rfl
      | openBrace =>
          simp only [step, Scope.move, Clause.move, Token.render_move] at hat ⊢
          rw [hat]
          split <;> rfl
  | inside rule =>
      have hextend := extendRule_move hf hbody rule
      cases ending with
      | semicolon =>
          simp only [step, Scope.move, Clause.move, hextend]
          rfl
      | closeBrace =>
          simp only [step, Scope.move, Clause.move, hextend]
          rfl
      | openBrace =>
          have hat : nestedSpan (rule.move f) (Clause.move f ⟨body, .openBrace, mark⟩) =
              f (nestedSpan rule ⟨body, .openBrace, mark⟩) :=
            Token.firstPlace_move f body rule.span
          have hpos : 0 < (nestedSpan rule ⟨body, .openBrace, mark⟩).line :=
            Token.line_pos_of_firstPlace hbody hscope
          simp only [step, Scope.move, Clause.move, Token.render_move] at hat ⊢
          rw [hat, Finding.reportedIn_move _ hf hpos]
          rfl
  | nested rule depth =>
      cases ending with
      | semicolon => rfl
      | openBrace => rfl
      | closeBrace => cases depth <;> rfl

end Move

theorem step_placed {scope next : Scope} {c : Clause} {given : Built}
    (hbody : ∀ t ∈ c.body, 0 < t.span.line) (hmark : 0 < c.mark.line) (hscope : Scope.Placed scope)
    (h : step scope c = .ok (next, given)) : Scope.Placed next := by
  have hholds (scope : Scope) : Scope.Holds (fun rule => 0 < rule.span.line) scope ↔
      Scope.Placed scope := by
    cases scope <;> rfl
  have hopen : 0 < c.start.line := Token.line_pos_of_firstPlace hbody hmark
  exact (hholds next).1
    ((step_spec h).holds (fun _ _ => hopen) (fun _ hrule => hrule) ((hholds scope).2 hscope)).1

/-- Tokens elsewhere give the same rules and warnings, or the same fault, elsewhere. -/
theorem buildTokens_move {f : Span → Span} {tokens : List Token} {scope : Scope}
    (hf : Span.Keeps f) (htokens : ∀ t ∈ tokens, 0 < t.span.line) (hscope : Scope.Placed scope) :
    buildTokens (scope.move f) (tokens.map (Token.move f)) =
      ((buildTokens scope tokens).map (Built.move f)).mapError (Malformed.move f) := by
  induction tokens using Clauses.induction_on generalizing scope with
  | tail tokens final hdepth =>
      have hdepth' := hdepth
      rw [← Token.map_kind_move f] at hdepth'
      rw [buildTokens, buildTokens, Clauses.split_tail hdepth, Clauses.split_tail hdepth']
      cases scope with
      | outside =>
          simp only [build, Scope.move, Token.firstSolid?_move, Token.render_move]
          cases Token.firstSolid? tokens <;> rfl
      | inside rule => rfl
      | nested rule depth => rfl
  | ended body t rest final ending hbody ht ih =>
      have hplaced : ∀ u ∈ body, 0 < u.span.line := fun u hu => htokens u (List.mem_append_left _ hu)
      have hmark : 0 < t.span.line := htokens t (by simp)
      have hstep := step_move (c := ⟨body, ending, t.span⟩) hf hplaced hmark hscope
      have hbody' := hbody
      rw [← Token.map_kind_move f] at hbody'
      rw [List.map_append, List.map_cons, buildTokens_step _ hbody ht,
        buildTokens_step (t := t.move f) _ hbody' ht]
      change step (scope.move f) (Clause.move f ⟨body, ending, t.span⟩) >>= _ = _
      rw [hstep]
      cases hnext : step scope ⟨body, ending, t.span⟩ with
      | error e => rfl
      | ok next =>
          have hlater := ih (fun u hu => htokens u (by simp [hu]))
            (step_placed hplaced hmark hscope hnext)
          simp only [Except.map, Except.mapError, bind, Except.bind, hlater]
          cases buildTokens next.1 rest with
          | error e => rfl
          | ok later => simp [Built.move, Built.append]

theorem buildTokens_down {tokens : List Token} {scope : Scope} {built : Built} (n : Nat)
    (htokens : ∀ t ∈ tokens, 0 < t.span.line) (hscope : Scope.Placed scope)
    (h : buildTokens scope tokens = .ok built) :
    buildTokens (scope.move (Span.down n)) (tokens.map (Token.move (Span.down n))) =
      .ok (built.move (Span.down n)) := by
  have hkeeps : Span.Keeps (Span.down n) := fun p hp => Nat.add_pos_left hp n
  rw [buildTokens_move hkeeps htokens hscope, h]
  rfl

end Sheet

end RichStyle
