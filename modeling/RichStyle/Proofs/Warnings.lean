import RichStyle.Proofs.Origins
import RichStyle.Proofs.Recompile

/-!
# The order of warnings

A reading visits one clause after the other, so its warnings come in the order of the clauses.  Only a
block without a header is reported elsewhere, at the start of its rule.  The findings of the check come
in the order of the declarations, and all of them after the warnings of the reading.
-/

namespace RichStyle

/-! ## Places in order -/

namespace Span

variable {p q : Span}

instance : Decidable (p.Before q) :=
  inferInstanceAs (Decidable (p.line < q.line ∨ p.line = q.line ∧ p.column < q.column))

theorem before_irrefl (p : Span) : ¬ p.Before p := by
  unfold Before
  omega

theorem Before.asymm (h : p.Before q) : ¬ q.Before p := fun h' => before_irrefl p (h.trans h')

theorem before_advance (p : Span) {s : List Char} (h : s ≠ []) : p.Before (p.advance s) := by
  induction s generalizing p with
  | nil => exact absurd rfl h
  | cons c s ih =>
      rw [advance_cons]
      cases s with
      | nil => exact p.before_step c
      | cons d s => exact (p.before_step c).trans (ih _ (List.cons_ne_nil d s))

end Span

theorem Token.pairwise_place {lexemes : List Lexeme} (p : Span) (h : ∀ l ∈ lexemes, l.text ≠ []) :
    (∀ t ∈ place p lexemes, t.span = p ∨ p.Before t.span) ∧
      (place p lexemes).Pairwise fun t u => t.span.Before u.span := by
  induction lexemes generalizing p with
  | nil => exact ⟨by simp [place], .nil⟩
  | cons l lexemes ih =>
      obtain ⟨hl, hrest⟩ := List.forall_mem_cons.1 h
      obtain ⟨hafter, hsorted⟩ := ih (p.advance l.text) hrest
      have hnext := p.before_advance hl
      have hlater : ∀ t ∈ place (p.advance l.text) lexemes, p.Before t.span := by
        intro t ht
        rcases hafter t ht with heq | hbefore
        · rw [heq]
          exact hnext
        · exact hnext.trans hbefore
      rw [place, List.forall_mem_cons, List.pairwise_cons]
      exact ⟨⟨.inl rfl, fun t ht => .inr (hlater t ht)⟩, hlater, hsorted⟩

theorem Token.pairwise_ofText (s : List Char) :
    (ofText s).Pairwise fun t u => t.span.Before u.span :=
  (pairwise_place .start (text_ne_nil_of_split s)).2

namespace Clauses

variable {tokens : List Token}

theorem exists_start {c : Clause} (h : c ∈ (split 0 tokens).ended) :
    ∃ t ∈ tokens, c.start = t.span := by
  induction tokens using Clauses.induction_on with
  | tail tokens final hdepth =>
      rw [split_tail hdepth] at h
      cases h
  | ended body t rest final ending hbody ht ih =>
      rw [split_ended hbody ht] at h
      rcases List.mem_cons.1 h with rfl | h
      · unfold Clause.start
        split
        · next u hu => exact ⟨u, List.mem_append_left _ (Token.firstSolid?_mem hu), rfl⟩
        · exact ⟨t, by simp, rfl⟩
      · obtain ⟨u, hu, hstart⟩ := ih h
        exact ⟨u, by simp [hu], hstart⟩

/-- Clauses start one after the other. -/
theorem pairwise_start (h : tokens.Pairwise fun t u => t.span.Before u.span) :
    (split 0 tokens).ended.Pairwise fun c d => c.start.Before d.start := by
  induction tokens using Clauses.induction_on with
  | tail tokens final hdepth =>
      rw [split_tail hdepth]
      exact .nil
  | ended body t rest final ending hbody ht ih =>
      obtain ⟨hbodies, hrest, hcross⟩ := List.pairwise_append.1 h
      obtain ⟨hmark, hsorted⟩ := List.pairwise_cons.1 hrest
      rw [split_ended hbody ht, List.pairwise_cons]
      refine ⟨fun d hd => ?_, ih hsorted⟩
      obtain ⟨u, hu, hstart⟩ := exists_start hd
      rw [hstart, Clause.start]
      split
      · next first hfirst => exact hcross first (Token.firstSolid?_mem hfirst) u (by simp [hu])
      · exact hmark u hu

end Clauses

/-! ## The course of a reading -/

/-- The rule around a clause. -/
def Scope.rule? : Scope → Option Rule
  | .outside => none
  | .inside rule => some rule
  | .nested rule _ => some rule

/-- The declarations so far of the rule around a clause. -/
def Scope.declarations : Scope → List Declaration
  | .outside => []
  | .inside rule => rule.declarations
  | .nested rule _ => rule.declarations

/-- A clause and the scope in which it is read. -/
structure Visit where
  scope : Scope
  clause : Clause

namespace Visit

/-- What a clause gives. -/
def given (v : Visit) : Built :=
  match Sheet.step v.scope v.clause with
  | .ok next => next.2
  | .error _ => .empty

/-- The declarations that a clause gives to the rule around it. -/
def declarations (v : Visit) : List Declaration :=
  match v.scope, v.clause.ending with
  | .inside _, .openBrace => []
  | .inside rule, _ => (Sheet.clauseContent rule.selector v.clause.body).1
  | _, _ => []

/-- The place of the warnings about a clause. -/
def place (v : Visit) : Span :=
  match v.scope, v.clause.ending with
  | .inside rule, .openBrace => Sheet.nestedSpan rule v.clause
  | _, _ => v.clause.start

/-- The clause opens a block inside a rule, and nothing stands in front of the brace. -/
def Headless (v : Visit) : Prop :=
  ∃ rule, v.scope = .inside rule ∧ v.clause.ending = .openBrace ∧
    Token.firstSolid? v.clause.body = none

/-- There is a warning about the clause. -/
def Warns (v : Visit) : Prop :=
  v.given.warnings ≠ []

/-- `w` opens a block without a header in a rule about which there has been another warning, at `v`. -/
def Upset (v w : Visit) : Prop :=
  v.Warns ∧ ¬ v.Headless ∧ w.Headless ∧
    ∃ rule later, v.scope = .inside rule ∧ w.scope = .inside later ∧ rule.span = later.span

end Visit

namespace Sheet

/-- The clauses of a reading, each with the scope in which it is read. -/
def visits : Scope → List Clause → List Visit
  | _, [] => []
  | scope, c :: cs =>
      ⟨scope, c⟩ ::
        match step scope c with
        | .ok next => visits next.1 cs
        | .error _ => []

/-- The visits of a whole reading. -/
def visitsOf (tokens : List Token) : List Visit :=
  visits .outside (Clauses.split 0 tokens).ended

variable {tail : List Token} {scope next : Scope} {c : Clause} {cs : List Clause} {built : Built}

theorem build_cons_eq_ok (h : build tail scope (c :: cs) = .ok built) :
    ∃ next given later, step scope c = .ok (next, given) ∧ build tail next cs = .ok later ∧
      built = given.append later := by
  rw [build_cons] at h
  obtain ⟨⟨next, given⟩, hstep, hrest⟩ := except_bind_eq_ok.1 h
  cases hlater : build tail next cs with
  | error e =>
      rw [hlater] at hrest
      cases hrest
  | ok later =>
      rw [hlater] at hrest
      exact ⟨next, given, later, hstep, hlater, (Except.ok.inj hrest).symm⟩

theorem visits_cons {given : Built} (h : step scope c = .ok (next, given)) :
    visits scope (c :: cs) = ⟨scope, c⟩ :: visits next cs := by
  rw [visits, h]

theorem given_of_step {given : Built} (h : step scope c = .ok (next, given)) :
    Visit.given ⟨scope, c⟩ = given := by
  rw [Visit.given, h]

theorem build_nil_eq_ok (h : build tail scope [] = .ok built) :
    scope = .outside ∧ built = .empty := by
  cases scope with
  | outside =>
      rw [build] at h
      split at h
      · exact ⟨rfl, (Except.ok.inj h).symm⟩
      · cases h
  | inside rule => cases h
  | nested rule depth => cases h

/-- The warnings of a reading are those about its clauses, in order. -/
theorem warnings_of_build (h : build tail scope cs = .ok built) :
    built.warnings = (visits scope cs).flatMap fun v => v.given.warnings := by
  induction cs generalizing scope built with
  | nil =>
      obtain ⟨-, rfl⟩ := build_nil_eq_ok h
      rfl
  | cons c cs ih =>
      obtain ⟨next, given, later, hstep, hlater, rfl⟩ := build_cons_eq_ok h
      rw [visits_cons hstep, List.flatMap_cons, given_of_step hstep, ← ih hlater]
      rfl

theorem Stepped.declarations {rules : List Rule} (h : Stepped scope c next rules) :
    rules.flatMap Rule.declarations ++ next.declarations =
      scope.declarations ++ Visit.declarations ⟨scope, c⟩ := by
  cases h with
  | skipped | opened | passed | deepened | left | risen => simp [Scope.declarations, Visit.declarations]
  | extended hending => simp [Scope.declarations, Visit.declarations, hending, extendRule]
  | closed hending => simp [Scope.declarations, Visit.declarations, hending, extendRule]
  | entered hending => simp [Scope.declarations, Visit.declarations, hending]

/-- The declarations of a sheet are those that its clauses give, in order. -/
theorem declarations_of_build (h : build tail scope cs = .ok built) :
    built.rules.flatMap Rule.declarations =
      scope.declarations ++ (visits scope cs).flatMap Visit.declarations := by
  induction cs generalizing scope built with
  | nil =>
      obtain ⟨rfl, rfl⟩ := build_nil_eq_ok h
      rfl
  | cons c cs ih =>
      obtain ⟨next, given, later, hstep, hlater, rfl⟩ := build_cons_eq_ok h
      rw [visits_cons hstep, List.flatMap_cons, ← List.append_assoc, ← (step_spec hstep).declarations,
        Built.append_rules, List.flatMap_append, ih hlater, List.append_assoc]

/-! ## Rules around clauses -/

/-- The rule around a clause is the one around the clause before, or the clause before opens it. -/
theorem Stepped.rule {rules : List Rule} {rule : Rule} (h : Stepped scope c next rules)
    (hrule : next.rule? = some rule) :
    (∃ before, scope.rule? = some before ∧ before.span = rule.span) ∨
      scope = .outside ∧ rule.span = c.start := by
  cases h with
  | skipped | closed => cases hrule
  | opened =>
      obtain rfl := Option.some.inj hrule
      exact .inr ⟨rfl, rfl⟩
  | extended | entered | passed | deepened | left | risen =>
      obtain rfl := Option.some.inj hrule
      exact .inl ⟨_, rfl, rfl⟩

theorem rule_of_visit {v : Visit} {rule : Rule} (h : v ∈ visits scope cs)
    (hrule : v.scope.rule? = some rule) :
    (∃ before, scope.rule? = some before ∧ before.span = rule.span) ∨
      ∃ d ∈ cs, rule.span = d.start := by
  induction cs generalizing scope with
  | nil => cases h
  | cons c cs ih =>
      rw [visits] at h
      rcases List.mem_cons.1 h with rfl | h
      · exact .inl ⟨rule, hrule, rfl⟩
      · split at h
        · next next hstep =>
            rcases ih h with ⟨before, hbefore, hspan⟩ | ⟨d, hd, hspan⟩
            · rcases (step_spec hstep).rule hbefore with ⟨first, hfirst, heq⟩ | ⟨-, heq⟩
              · exact .inl ⟨first, hfirst, heq.trans hspan⟩
              · exact .inr ⟨c, by simp, hspan.symm.trans heq⟩
            · exact .inr ⟨d, by simp [hd], hspan⟩
        · cases h

theorem clause_of_visit {v : Visit} (h : v ∈ visits scope cs) : v.clause ∈ cs := by
  induction cs generalizing scope with
  | nil => cases h
  | cons c cs ih =>
      rw [visits] at h
      rcases List.mem_cons.1 h with rfl | h
      · exact List.mem_cons_self
      · split at h
        · exact List.mem_cons_of_mem _ (ih h)
        · cases h

end Sheet

/-- The rule around starts in front of some clauses. -/
def Scope.InFront (scope : Scope) (cs : List Clause) : Prop :=
  ∀ rule, scope.rule? = some rule → ∀ c ∈ cs, rule.span.Before c.start

namespace Visit

/-- The rule around a clause starts in front of it. -/
def Within (v : Visit) : Prop :=
  ∀ rule, v.scope.rule? = some rule → rule.span.Before v.clause.start

/-- `w` is a later clause than `v`.  The rule around it, if there is one, is the rule around `v`, or it
starts with or behind the clause of `v` and the rule around `v` starts before it. -/
structure Precedes (v w : Visit) : Prop where
  start : v.clause.start.Before w.clause.start
  rule : ∀ later, w.scope.rule? = some later →
    (∃ rule, v.scope.rule? = some rule ∧ rule.span = later.span) ∨
      ¬ later.span.Before v.clause.start ∧
        ∀ rule, v.scope.rule? = some rule → rule.span.Before later.span

end Visit

namespace Sheet

variable {scope next : Scope} {c : Clause} {cs : List Clause}

theorem Stepped.inFront {rules : List Rule} (h : Stepped scope c next rules)
    (hc : ∀ d ∈ cs, c.start.Before d.start) (hscope : scope.InFront (c :: cs)) : next.InFront cs := by
  intro rule hrule d hd
  rcases h.rule hrule with ⟨before, hbefore, hspan⟩ | ⟨-, hspan⟩
  · rw [← hspan]
    exact hscope before hbefore d (List.mem_cons_of_mem c hd)
  · rw [hspan]
    exact hc d hd

theorem within_of_visit (hcs : cs.Pairwise fun c d => c.start.Before d.start)
    (hscope : scope.InFront cs) : ∀ v ∈ visits scope cs, v.Within := by
  induction cs generalizing scope with
  | nil => simp [visits]
  | cons c cs ih =>
      obtain ⟨hc, hrest⟩ := List.pairwise_cons.1 hcs
      rw [visits, List.forall_mem_cons]
      refine ⟨fun rule hrule => hscope rule hrule c List.mem_cons_self, ?_⟩
      split
      · next next hstep => exact ih hrest ((step_spec hstep).inFront hc hscope)
      · simp

theorem precedes_of_visits (hcs : cs.Pairwise fun c d => c.start.Before d.start)
    (hscope : scope.InFront cs) : (visits scope cs).Pairwise Visit.Precedes := by
  induction cs generalizing scope with
  | nil => exact .nil
  | cons c cs ih =>
      obtain ⟨hc, hrest⟩ := List.pairwise_cons.1 hcs
      rw [visits, List.pairwise_cons]
      cases hstep : step scope c with
      | error e => exact ⟨by simp, .nil⟩
      | ok next =>
          have hstepped := step_spec hstep
          refine ⟨fun w hw => ⟨hc _ (clause_of_visit hw), fun later hlater => ?_⟩,
            ih hrest (hstepped.inFront hc hscope)⟩
          rcases rule_of_visit hw hlater with ⟨between, hbetween, hspan⟩ | ⟨d, hd, hspan⟩
          · rcases hstepped.rule hbetween with ⟨rule, hrule, heq⟩ | ⟨houtside, heq⟩
            · exact .inl ⟨rule, hrule, heq.trans hspan⟩
            · -- the clause of this visit opens the rule
              rw [← hspan, heq, houtside]
              exact .inr ⟨Span.before_irrefl c.start, fun rule hrule => nomatch hrule⟩
          · -- a later clause opens the rule
            rw [hspan]
            refine .inr ⟨(hc d hd).asymm, fun rule hrule => ?_⟩
            exact (hscope rule hrule c List.mem_cons_self).trans (hc d hd)

end Sheet

/-! ## Places of warnings -/

namespace Diagnostic

/-- The place of a diagnostic. -/
def place (d : Diagnostic) : Span :=
  d.span.getD .unknown

/-- No diagnostic is placed before an earlier one. -/
def InOrder (ds : List Diagnostic) : Prop :=
  ds.Pairwise fun d e => ¬ e.place.Before d.place

instance (ds : List Diagnostic) : Decidable (InOrder ds) :=
  inferInstanceAs (Decidable (ds.Pairwise fun d e => ¬ e.place.Before d.place))

theorem isSome_span {d : Diagnostic} (h : 0 < d.place.line) : d.span.isSome = true := by
  unfold place at h
  cases hspan : d.span with
  | none =>
      rw [hspan] at h
      cases h
  | some p => rfl

end Diagnostic

namespace Finding

variable (f : Finding) (selector property : String) (p : Span)

@[simp] theorem place_reported : (f.reported p).place = p := by
  unfold reported Diagnostic.placed
  split
  · next h =>
      obtain ⟨hline, hcolumn⟩ : p.line = 0 ∧ p.column = 0 := by simpa [Span.isUnknown] using h
      cases p
      cases hline
      cases hcolumn
      rfl
  · rfl

@[simp] theorem place_reportedIn : (f.reportedIn selector p).place = p := f.place_reported p

@[simp] theorem place_reportedFor : (f.reportedFor selector property p).place = p :=
  f.place_reported p

end Finding

theorem Clause.start_of_firstSolid {c : Clause} {t : Token} (h : Token.firstSolid? c.body = some t) :
    c.start = t.span := by
  rw [start, h]

namespace Sheet

theorem place_of_clauseContent {selector : String} {c : Clause} :
    (∀ d ∈ (clauseContent selector c.body).1, d.span = c.start) ∧
      ∀ w ∈ (clauseContent selector c.body).2, w.place = c.start := by
  unfold clauseContent
  cases hfirst : Token.firstSolid? c.body with
  | none => simp
  | some t =>
      rw [Clause.start_of_firstSolid hfirst]
      cases hd : Declaration.ofTokens? c.body t.span with
      | none => simp [hd]
      | some d =>
          obtain ⟨before, colon, after, -, -, hclassified⟩ := Declaration.exists_of_ofTokens hd
          have hspan : d.span = t.span := by rw [hclassified, Declaration.classified]
          simp [hd, hspan]

end Sheet

namespace Visit

variable {v w : Visit}

theorem place_of_declaration {d : Declaration} (h : d ∈ v.declarations) : d.span = v.clause.start := by
  unfold declarations at h
  split at h
  · cases h
  · exact Sheet.place_of_clauseContent.1 d h
  · cases h

theorem place_of_warning {e : Diagnostic} (h : e ∈ v.given.warnings) : e.place = v.place := by
  obtain ⟨scope, body, ending, mark⟩ := v
  cases scope with
  | outside =>
      cases ending with
      | semicolon =>
          obtain rfl := List.mem_singleton.1 h
          exact Finding.place_reported _ _
      | closeBrace => cases h
      | openBrace =>
          rw [given, Sheet.step] at h
          by_cases hempty : (Token.render body).isEmpty = true
          · simp [hempty, Built.empty] at h
          · simp [hempty, Built.empty] at h
  | inside rule =>
      cases ending with
      | semicolon => exact Sheet.place_of_clauseContent.2 e h
      | closeBrace => exact Sheet.place_of_clauseContent.2 e h
      | openBrace =>
          obtain rfl := List.mem_singleton.1 h
          exact Finding.place_reportedIn _ _ _
  | nested rule depth =>
      cases ending with
      | semicolon => cases h
      | openBrace => cases h
      | closeBrace => cases depth <;> cases h

theorem exists_warning (h : v.Headless) : ∃ e, e ∈ v.given.warnings := by
  obtain ⟨scope, body, ending, mark⟩ := v
  obtain ⟨rule, rfl, rfl, -⟩ := h
  exact ⟨_, List.mem_singleton.2 rfl⟩

theorem place_of_headless {rule : Rule} (h : v.Headless) (hscope : v.scope = .inside rule) :
    v.place = rule.span := by
  obtain ⟨scope, body, ending, mark⟩ := v
  obtain ⟨-, -, rfl, hbody⟩ := h
  obtain rfl := hscope
  simp only [place, Sheet.nestedSpan, hbody]

theorem place_of_not_headless (h : ¬ v.Headless) : v.place = v.clause.start := by
  unfold place
  split
  · next rule hscope hending =>
      cases hfirst : Token.firstSolid? v.clause.body with
      | none => exact absurd ⟨rule, hscope, hending, hfirst⟩ h
      | some t => rw [Clause.start_of_firstSolid hfirst, Sheet.nestedSpan, hfirst]
  · rfl

theorem place_cases (v : Visit) : v.place = v.clause.start ∨
    ∃ rule, v.scope = .inside rule ∧ v.Headless ∧ v.place = rule.span := by
  by_cases h : v.Headless
  · obtain ⟨rule, hscope, hrest⟩ := h
    exact .inr ⟨rule, hscope, ⟨rule, hscope, hrest⟩, place_of_headless ⟨rule, hscope, hrest⟩ hscope⟩
  · exact .inl (place_of_not_headless h)

theorem scope_of_warns {rule : Rule} (h : v.Warns) (hrule : v.scope.rule? = some rule) :
    v.scope = .inside rule := by
  obtain ⟨scope, body, ending, mark⟩ := v
  cases scope with
  | outside => cases hrule
  | inside rule => exact congrArg Scope.inside (Option.some.inj hrule)
  | nested rule depth =>
      refine absurd ?_ h
      cases ending with
      | semicolon => rfl
      | openBrace => rfl
      | closeBrace => cases depth <;> rfl

/-- Warnings about an earlier clause are placed before those about a later one, unless the later clause
upsets the order. -/
theorem Precedes.inOrder_iff (h : v.Precedes w) (hv : v.Within) :
    (∀ d ∈ v.given.warnings, ∀ e ∈ w.given.warnings, ¬ e.place.Before d.place) ↔ ¬ v.Upset w := by
  constructor
  · intro horder hupset
    obtain ⟨hwarns, hheaded, hheadless, rule, later, hrule, hlater, hspan⟩ := hupset
    obtain ⟨d, hd⟩ := List.exists_mem_of_ne_nil _ hwarns
    obtain ⟨e, he⟩ := exists_warning hheadless
    apply horder d hd e he
    rw [place_of_warning hd, place_of_warning he, place_of_headless hheadless hlater,
      place_of_not_headless hheaded, ← hspan]
    exact hv rule (by rw [hrule]; rfl)
  · intro hupset d hd e he hbefore
    have hwarns : v.Warns := List.ne_nil_of_mem hd
    rw [place_of_warning hd, place_of_warning he] at hbefore
    by_cases hheadless : w.Headless
    · obtain ⟨later, hlater, hrest⟩ := hheadless
      rw [place_of_headless ⟨later, hlater, hrest⟩ hlater] at hbefore
      rcases h.rule later (by rw [hlater]; rfl) with ⟨rule, hrule, hspan⟩ | ⟨hstart, hrules⟩
      · have hscope := scope_of_warns hwarns hrule
        by_cases hheaded : v.Headless
        · rw [place_of_headless hheaded hscope, hspan] at hbefore
          exact Span.before_irrefl _ hbefore
        · exact hupset ⟨hwarns, hheaded, ⟨later, hlater, hrest⟩, rule, later, hscope, hlater, hspan⟩
      · rcases v.place_cases with hplace | ⟨rule, hscope, -, hplace⟩
        · rw [hplace] at hbefore
          exact hstart hbefore
        · rw [hplace] at hbefore
          exact (hrules rule (by rw [hscope]; rfl)).asymm hbefore
    · rw [place_of_not_headless hheadless] at hbefore
      rcases v.place_cases with hplace | ⟨rule, hscope, -, hplace⟩
      · rw [hplace] at hbefore
        exact h.start.asymm hbefore
      · rw [hplace] at hbefore
        exact ((hv rule (by rw [hscope]; rfl)).trans h.start).asymm hbefore

end Visit

/-! ## Readings -/

namespace Sheet

variable {s : List Char} {tokens : List Token} {built : Built}

theorem warnings_of_ofTokens (h : ofTokens tokens = .ok built) :
    built.warnings = (visitsOf tokens).flatMap fun v => v.given.warnings :=
  warnings_of_build h

theorem declarations_of_ofTokens (h : ofTokens tokens = .ok built) :
    built.rules.flatMap Rule.declarations = (visitsOf tokens).flatMap Visit.declarations :=
  declarations_of_build h

theorem visitsOf_ofText (s : List Char) :
    (∀ v ∈ visitsOf (Token.ofText s), v.Within) ∧
      (visitsOf (Token.ofText s)).Pairwise Visit.Precedes := by
  have hstarts := Clauses.pairwise_start (Token.pairwise_ofText s)
  have hscope : Scope.outside.InFront (Clauses.split 0 (Token.ofText s)).ended := by
    intro rule hrule
    cases hrule
  exact ⟨within_of_visit hstarts hscope, precedes_of_visits hstarts hscope⟩

/-- The warnings of a reading are in order unless a clause upsets them. -/
theorem inOrder_warnings_iff (h : ofTokens (Token.ofText s) = .ok built) :
    Diagnostic.InOrder built.warnings ↔
      (visitsOf (Token.ofText s)).Pairwise fun v w => ¬ v.Upset w := by
  obtain ⟨hwithin, hprecedes⟩ := visitsOf_ofText s
  have hone : ∀ v ∈ visitsOf (Token.ofText s),
      v.given.warnings.Pairwise fun d e => ¬ e.place.Before d.place := by
    intro v _
    refine List.pairwise_of_forall_mem_list fun d hd e he => ?_
    rw [Visit.place_of_warning hd, Visit.place_of_warning he]
    exact Span.before_irrefl _
  rw [Diagnostic.InOrder, warnings_of_ofTokens h, List.pairwise_flatMap, and_iff_right hone]
  constructor
  · intro horder
    exact (hprecedes.and (List.Pairwise.and_mem.1 horder)).imp fun hboth =>
      (hboth.1.inOrder_iff (hwithin _ hboth.2.1)).1 hboth.2.2.2
  · intro hupset
    exact (hprecedes.and (List.Pairwise.and_mem.1 hupset)).imp fun hboth =>
      (hboth.1.inOrder_iff (hwithin _ hboth.2.1)).2 hboth.2.2.2

/-- The declarations of a sheet are placed one after the other. -/
theorem pairwise_declarations (h : ofTokens (Token.ofText s) = .ok built) :
    (built.rules.flatMap Rule.declarations).Pairwise fun d e => ¬ e.span.Before d.span := by
  obtain ⟨-, hprecedes⟩ := visitsOf_ofText s
  rw [declarations_of_ofTokens h]
  refine List.pairwise_flatMap.2 ⟨fun v _ => ?_, hprecedes.imp fun hvw d hd e he => ?_⟩
  · refine List.pairwise_of_forall_mem_list fun d hd e he => ?_
    rw [Visit.place_of_declaration hd, Visit.place_of_declaration he]
    exact Span.before_irrefl _
  · rw [Visit.place_of_declaration hd, Visit.place_of_declaration he]
    exact hvw.start.asymm

theorem check_sublist (rules : List Rule) :
    ((check rules).map Diagnostic.place).Sublist
      ((rules.flatMap Rule.declarations).map Declaration.span) := by
  have hone (selector : String) (ds : List Declaration) :
      ((ds.filterMap (Declaration.diagnostic? selector)).map Diagnostic.place).Sublist
        (ds.map Declaration.span) := by
    induction ds with
    | nil => exact .slnil
    | cons d ds ih =>
        cases hd : d.diagnostic? selector with
        | none =>
            rw [List.filterMap_cons_none hd]
            exact ih.cons _
        | some e =>
            have hplace : e.place = d.span := by
              unfold Declaration.diagnostic? at hd
              split at hd
              · obtain ⟨f, -, rfl⟩ := Option.map_eq_some_iff.1 hd
                exact f.place_reportedFor _ _ _
              · cases hd
            rw [List.filterMap_cons_some hd, List.map_cons, List.map_cons, hplace]
            exact ih.cons_cons _
  induction rules with
  | nil => exact .slnil
  | cons r rules ih =>
      rw [check, List.flatMap_cons, List.flatMap_cons, List.map_append, List.map_append]
      exact (hone r.selector r.declarations).append ih

/-- What is wrong with the values of a sheet is in order. -/
theorem inOrder_check (h : ofTokens (Token.ofText s) = .ok built) :
    Diagnostic.InOrder (check built.rules) := by
  have hspans : ((built.rules.flatMap Rule.declarations).map Declaration.span).Pairwise
      fun p q => ¬ q.Before p := List.pairwise_map.2 (pairwise_declarations h)
  exact List.pairwise_map.1 (hspans.sublist (check_sublist built.rules))

theorem line_pos_of_visit {v : Visit} (h : v ∈ visitsOf (Token.ofText s)) :
    0 < v.clause.start.line ∧ 0 < v.place.line := by
  have hstart : ∀ c ∈ (Clauses.split 0 (Token.ofText s)).ended, 0 < c.start.line := by
    intro c hc
    obtain ⟨t, ht, hspan⟩ := Clauses.exists_start hc
    rw [hspan]
    exact Token.line_pos_of_place Nat.one_pos t ht
  refine ⟨hstart _ (clause_of_visit h), ?_⟩
  rcases v.place_cases with hplace | ⟨rule, hscope, -, hplace⟩
  · rw [hplace]
    exact hstart _ (clause_of_visit h)
  · rcases rule_of_visit h (show v.scope.rule? = some rule by rw [hscope]; rfl) with
      ⟨before, hbefore, -⟩ | ⟨c, hc, hspan⟩
    · cases hbefore
    · rw [hplace, hspan]
      exact hstart c hc

/-- Every diagnostic about a sheet has a place. -/
theorem line_pos_of_diagnostic (h : ofTokens (Token.ofText s) = .ok built) :
    ∀ d ∈ built.warnings ++ check built.rules, 0 < d.place.line := by
  intro d hd
  rcases List.mem_append.1 hd with hd | hd
  · rw [warnings_of_ofTokens h] at hd
    obtain ⟨v, hv, hd⟩ := List.mem_flatMap.1 hd
    rw [Visit.place_of_warning hd]
    exact (line_pos_of_visit hv).2
  · have hplace := (check_sublist built.rules).subset (List.mem_map_of_mem hd)
    obtain ⟨e, he, hspan⟩ := List.mem_map.1 hplace
    rw [declarations_of_ofTokens h] at he
    obtain ⟨v, hv, he⟩ := List.mem_flatMap.1 he
    rw [← hspan, Visit.place_of_declaration he]
    exact (line_pos_of_visit hv).1

end Sheet

/-- The warnings of a compilation are those of the reading and behind them those of the check.  All of
them have a place.  Those of the check are always in order.  All together they are in order exactly if no
block without a header comes after another warning about its rule, and no warning of the check is placed
before one of the reading. -/
theorem warnings_inOrder_iff {banner : Bool} {source : String} {output : Output}
    (h : compile banner source = .ok output) :
    ∃ prepared built, Source.prepare source.toList = .ok prepared ∧
      Sheet.ofTokens (Token.ofText prepared.text) = .ok built ∧
      output.warnings = built.warnings ++ Sheet.check built.rules ∧
      (∀ w ∈ output.warnings, w.span.isSome = true) ∧
      Diagnostic.InOrder (Sheet.check built.rules) ∧
      (Diagnostic.InOrder output.warnings ↔
        ((Sheet.visitsOf (Token.ofText prepared.text)).Pairwise fun v w => ¬ v.Upset w) ∧
        ∀ v ∈ built.warnings, ∀ w ∈ Sheet.check built.rules, ¬ w.place.Before v.place) := by
  obtain ⟨reading, plain, hread, -, -, -, hwarnings⟩ := exists_of_compile h
  obtain ⟨text, built, htext, hbuilt, rfl⟩ := Sheet.read_eq_ok_iff.1 hread
  have hcheck := Sheet.inOrder_check hbuilt
  refine ⟨_, built, Source.prepare_eq_ok_iff.2 ⟨text, htext, rfl⟩, hbuilt, hwarnings, ?_, hcheck, ?_⟩
  · intro w hw
    rw [hwarnings] at hw
    exact Diagnostic.isSome_span (Sheet.line_pos_of_diagnostic hbuilt w hw)
  · rw [hwarnings, Diagnostic.InOrder, List.pairwise_append, ← Sheet.inOrder_warnings_iff hbuilt]
    exact and_congr_right fun _ => and_iff_right hcheck

/-- A block without a header is the first thing that is wrong with its rule, and a value is the last; in
the other source such a block comes behind a declaration without a colon. -/
theorem warnings_inOrder_iff_headless :
    let nested := (Finding.nestedBlock "").reportedIn ".a" ⟨1, 1⟩
    let dropped := (Finding.malformedDeclaration "b").reportedIn ".a"
    let light := (Finding.unknownLight "3").reportedFor ".a" "light-intensity" ⟨1, 8⟩
    (∃ output, compile false ".a\x7b\x7b\x7db;light-intensity:3\x7d" = .ok output ∧
      output.warnings = [nested, dropped ⟨1, 6⟩, light] ∧ Diagnostic.InOrder output.warnings ∧
      (Sheet.visitsOf (Token.ofText ".a\x7b\x7b\x7db;light-intensity:3\x7d".toList)).Pairwise
        fun v w => ¬ v.Upset w) ∧
    ∃ output, compile false ".a\x7bb;\x7b\x7d\x7d" = .ok output ∧
      output.warnings = [dropped ⟨1, 4⟩, nested] ∧ ¬ Diagnostic.InOrder output.warnings ∧
      ¬ (Sheet.visitsOf (Token.ofText ".a\x7bb;\x7b\x7d\x7d".toList)).Pairwise
        fun v w => ¬ v.Upset w := by
  intro nested dropped light
  have happly (s : String) (ws : List Diagnostic) (built : Built)
      (hwarnings : (compile false s).map Output.warnings = .ok ws)
      (htext : (Source.prepare s.toList).map Source.Prepared.text = .ok s.toList)
      (hbuilt : Sheet.ofTokens (Token.ofText s.toList) = .ok built) :
      ∃ output, compile false s = .ok output ∧ output.warnings = ws ∧
        (Diagnostic.InOrder ws ↔
          ((Sheet.visitsOf (Token.ofText s.toList)).Pairwise fun v w => ¬ v.Upset w) ∧
          ∀ v ∈ built.warnings, ∀ w ∈ Sheet.check built.rules, ¬ w.place.Before v.place) := by
    cases houtput : compile false s with
    | error e =>
        rw [houtput] at hwarnings
        cases hwarnings
    | ok output =>
        obtain ⟨prepared, given, hprepared, hgiven, -, -, -, hiff⟩ := warnings_inOrder_iff houtput
        rw [hprepared] at htext
        rw [houtput] at hwarnings
        rw [Except.ok.inj htext] at hgiven hiff
        obtain rfl := Except.ok.inj (hbuilt.symm.trans hgiven)
        obtain rfl := Except.ok.inj hwarnings
        exact ⟨output, rfl, rfl, hiff⟩
  constructor
  · obtain ⟨output, houtput, hwarnings, hiff⟩ := happly ".a\x7b\x7b\x7db;light-intensity:3\x7d"
      [nested, dropped ⟨1, 6⟩, light]
      ⟨[⟨".a", [⟨"light-intensity", "3", true, ⟨1, 8⟩⟩], ⟨1, 1⟩⟩], [nested, dropped ⟨1, 6⟩]⟩
      (by decide +kernel) (by decide +kernel) (by decide +kernel)
    have horder : Diagnostic.InOrder [nested, dropped ⟨1, 6⟩, light] := by decide +kernel
    exact ⟨output, houtput, hwarnings, hwarnings ▸ horder, (hiff.1 horder).1⟩
  · obtain ⟨output, houtput, hwarnings, hiff⟩ := happly ".a\x7bb;\x7b\x7d\x7d"
      [dropped ⟨1, 4⟩, nested] ⟨[⟨".a", [], ⟨1, 1⟩⟩], [dropped ⟨1, 4⟩, nested]⟩
      (by decide +kernel) (by decide +kernel) (by decide +kernel)
    have horder : ¬ Diagnostic.InOrder [dropped ⟨1, 4⟩, nested] := by decide +kernel
    refine ⟨output, houtput, hwarnings, hwarnings ▸ horder, fun hupset => horder (hiff.2 ⟨hupset, ?_⟩)⟩
    -- nothing is wrong with the values of this source
    intro v _ w hw
    cases hw

/-- A value is reported behind what stands further down, and a block without a header is reported at the
start of its rule behind what stands in front of it. -/
theorem warnings_out_of_order :
    let light := (Finding.unknownLight "3").reportedFor ".a" "light-intensity" ⟨1, 4⟩
    let dropped := (Finding.malformedDeclaration "b").reportedIn ".a"
    let nested := (Finding.nestedBlock "").reportedIn ".a" ⟨1, 1⟩
    ((compile true ".a\x7blight-intensity:3;b\x7d").map Output.warnings = .ok [dropped ⟨1, 22⟩, light] ∧
      ¬ Diagnostic.InOrder [dropped ⟨1, 22⟩, light]) ∧
    (compile true ".a\x7bb;\x7b\x7d\x7d").map Output.warnings = .ok [dropped ⟨1, 4⟩, nested] ∧
      ¬ Diagnostic.InOrder [dropped ⟨1, 4⟩, nested] := by
  decide +kernel

end RichStyle
