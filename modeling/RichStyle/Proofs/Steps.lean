import RichStyle.Proofs.Reading
import RichStyle.Proofs.Written

/-!
# Reading as a run of steps

Reading clauses is a state machine: the state is the scope, and each clause either is a fault or
leads to the next scope and gives rules and warnings.  What holds of one step carries over to a whole
reading by induction over the clauses.
-/

namespace RichStyle

namespace Built

/-- What one part of a source gives, followed by what the next part gives. -/
def append (a b : Built) : Built :=
  ⟨a.rules ++ b.rules, a.warnings ++ b.warnings⟩

@[simp] theorem append_rules (a b : Built) : (a.append b).rules = a.rules ++ b.rules := rfl

@[simp] theorem append_warnings (a b : Built) :
    (a.append b).warnings = a.warnings ++ b.warnings := rfl

@[simp] theorem empty_append (b : Built) : empty.append b = b := rfl

theorem append_assoc (a b c : Built) : (a.append b).append c = a.append (b.append c) := by
  simp [append]

end Built

theorem Token.firstSolid?_eq_none_iff {tokens : List Token} :
    firstSolid? tokens = none ↔ ∀ t ∈ tokens, t.isTrivia = true := by
  simp [firstSolid?]

namespace Sheet

/-- The scope after a clause, with what the clause gives. -/
def step : Scope → Clause → Except Malformed (Scope × Built)
  | .outside, c =>
      let text := Token.render c.body
      match c.ending with
      | .semicolon =>
          .ok (.outside, ⟨[], [(Finding.unsupportedStatement text).reported c.start]⟩)
      | .closeBrace =>
          let fault :=
            if (Token.firstSolid? c.body).isSome then .strayCloseAfter text else .strayClose
          .error ⟨fault, c.start⟩
      | .openBrace =>
          if text.isEmpty then .error ⟨.selectorMissing, c.start⟩
          else .ok (.inside ⟨text, [], c.start⟩, .empty)
  | .inside rule, c =>
      let extended := extendRule rule c.body
      match c.ending with
      | .semicolon => .ok (.inside extended.1, ⟨[], extended.2⟩)
      | .closeBrace => .ok (.outside, ⟨[extended.1], extended.2⟩)
      | .openBrace =>
          let finding := Finding.nestedBlock (Token.render c.body)
          .ok (.nested rule 0, ⟨[], [finding.reportedIn rule.selector (nestedSpan rule c)]⟩)
  | .nested rule depth, c =>
      match c.ending, depth with
      | .semicolon, _ => .ok (.nested rule depth, .empty)
      | .openBrace, _ => .ok (.nested rule (depth + 1), .empty)
      | .closeBrace, 0 => .ok (.inside rule, .empty)
      | .closeBrace, outer + 1 => .ok (.nested rule outer, .empty)

/-- Reading is taking one step after the other. -/
theorem build_cons (tail : List Token) (scope : Scope) (c : Clause) (cs : List Clause) :
    build tail scope (c :: cs) =
      step scope c >>= fun next => (build tail next.1 cs).map next.2.append := by
  have hbind {x : Except Malformed Built} {f g : Built → Built} (h : ∀ b, f b = g b) :
      (x >>= fun b => .ok (f b)) = x.map g := by
    cases x with
    | error e => rfl
    | ok b => exact congrArg Except.ok (h b)
  have hid (x : Except Malformed Built) : x = x.map Built.empty.append := by
    cases x <;> rfl
  obtain ⟨body, ending, mark⟩ := c
  cases scope with
  | outside =>
      cases ending with
      | semicolon => exact hbind fun b => rfl
      | closeBrace => rfl
      | openBrace =>
          rw [build, step]
          simp only
          split
          · rfl
          · exact hid _
  | inside rule =>
      cases ending with
      | semicolon => exact hbind fun b => rfl
      | closeBrace => exact hbind fun b => rfl
      | openBrace => exact hbind fun b => rfl
  | nested rule depth =>
      cases ending with
      | semicolon => exact hid _
      | openBrace => exact hid _
      | closeBrace => cases depth <;> exact hid _

theorem buildTokens_step {final : Nat} {body rest : List Token} {t : Token} {ending : Ending}
    (scope : Scope) (hbody : Kind.depthAfter? 0 (body.map (·.kind)) = some final)
    (ht : Ending.of? final t.kind = some ending) :
    buildTokens scope (body ++ t :: rest) =
      step scope ⟨body, ending, t.span⟩ >>= fun next =>
        (buildTokens next.1 rest).map next.2.append := by
  rw [buildTokens_ended scope hbody ht, build_cons]
  rfl

theorem buildTokens_step_eq_ok {final : Nat} {body rest : List Token} {t : Token}
    {ending : Ending} {scope : Scope} {built : Built}
    (hbody : Kind.depthAfter? 0 (body.map (·.kind)) = some final)
    (ht : Ending.of? final t.kind = some ending) :
    buildTokens scope (body ++ t :: rest) = .ok built ↔
      ∃ next given later, step scope ⟨body, ending, t.span⟩ = .ok (next, given) ∧
        buildTokens next rest = .ok later ∧ built = given.append later := by
  rw [buildTokens_step scope hbody ht, except_bind_eq_ok]
  constructor
  · rintro ⟨⟨next, given⟩, hstep, hrest⟩
    cases hlater : buildTokens next rest with
    | error e =>
        rw [hlater] at hrest
        contradiction
    | ok later =>
        rw [hlater] at hrest
        exact ⟨next, given, later, hstep, hlater, (Except.ok.inj hrest).symm⟩
  · rintro ⟨next, given, later, hstep, hlater, rfl⟩
    exact ⟨(next, given), hstep, by rw [hlater]; rfl⟩

/-- Tokens after the last clause are read only outside all rules, and only if they mean nothing. -/
theorem buildTokens_tail_eq_ok {tokens : List Token} {final : Nat} {scope : Scope} {built : Built}
    (h : Kind.depthAfter? 0 (tokens.map (·.kind)) = some final) :
    buildTokens scope tokens = .ok built ↔
      scope = .outside ∧ (∀ t ∈ tokens, t.isTrivia = true) ∧ built = .empty := by
  rw [buildTokens, Clauses.split_tail h, ← Token.firstSolid?_eq_none_iff]
  cases scope with
  | outside => cases hfirst : Token.firstSolid? tokens <;> simp [build, hfirst, eq_comm]
  | inside rule => simp [build]
  | nested rule depth => simp [build]

/-- What a step does to the scope and which rules it gives, one case for each scope and ending. -/
inductive Stepped : Scope → Clause → Scope → List Rule → Prop
  | skipped {c : Clause} (h : c.ending = .semicolon) : Stepped .outside c .outside []
  | opened {c : Clause} (h : c.ending = .openBrace) (hne : Token.render c.body ≠ "") :
      Stepped .outside c (.inside ⟨Token.render c.body, [], c.start⟩) []
  | extended {c : Clause} {rule : Rule} (h : c.ending = .semicolon) :
      Stepped (.inside rule) c (.inside (extendRule rule c.body).1) []
  | closed {c : Clause} {rule : Rule} (h : c.ending = .closeBrace) :
      Stepped (.inside rule) c .outside [(extendRule rule c.body).1]
  | entered {c : Clause} {rule : Rule} (h : c.ending = .openBrace) :
      Stepped (.inside rule) c (.nested rule 0) []
  | passed {c : Clause} {rule : Rule} {depth : Nat} (h : c.ending = .semicolon) :
      Stepped (.nested rule depth) c (.nested rule depth) []
  | deepened {c : Clause} {rule : Rule} {depth : Nat} (h : c.ending = .openBrace) :
      Stepped (.nested rule depth) c (.nested rule (depth + 1)) []
  | left {c : Clause} {rule : Rule} (h : c.ending = .closeBrace) :
      Stepped (.nested rule 0) c (.inside rule) []
  | risen {c : Clause} {rule : Rule} {depth : Nat} (h : c.ending = .closeBrace) :
      Stepped (.nested rule (depth + 1)) c (.nested rule depth) []

theorem step_spec {scope next : Scope} {c : Clause} {given : Built}
    (h : step scope c = .ok (next, given)) : Stepped scope c next given.rules := by
  obtain ⟨body, ending, mark⟩ := c
  cases scope with
  | outside =>
      cases ending with
      | semicolon =>
          obtain ⟨rfl, rfl⟩ := Prod.mk.inj (Except.ok.inj h)
          exact .skipped rfl
      | closeBrace => cases h
      | openBrace =>
          rw [step] at h
          simp only at h
          split at h
          · cases h
          · next hne =>
              obtain ⟨rfl, rfl⟩ := Prod.mk.inj (Except.ok.inj h)
              exact .opened rfl fun hempty => hne (by rw [hempty]; rfl)
  | inside rule =>
      cases ending with
      | semicolon =>
          obtain ⟨rfl, rfl⟩ := Prod.mk.inj (Except.ok.inj h)
          exact .extended rfl
      | closeBrace =>
          obtain ⟨rfl, rfl⟩ := Prod.mk.inj (Except.ok.inj h)
          exact .closed rfl
      | openBrace =>
          obtain ⟨rfl, rfl⟩ := Prod.mk.inj (Except.ok.inj h)
          exact .entered rfl
  | nested rule depth =>
      cases ending with
      | semicolon =>
          obtain ⟨rfl, rfl⟩ := Prod.mk.inj (Except.ok.inj h)
          exact .passed rfl
      | openBrace =>
          obtain ⟨rfl, rfl⟩ := Prod.mk.inj (Except.ok.inj h)
          exact .deepened rfl
      | closeBrace =>
          cases depth with
          | zero =>
              obtain ⟨rfl, rfl⟩ := Prod.mk.inj (Except.ok.inj h)
              exact .left rfl
          | succ outer =>
              obtain ⟨rfl, rfl⟩ := Prod.mk.inj (Except.ok.inj h)
              exact .risen rfl

/-- What holds of the rule around a clause. -/
def Scope.Holds (P : Rule → Prop) : Scope → Prop
  | .outside => True
  | .inside rule => P rule
  | .nested rule _ => P rule

section Holds

variable {P : Rule → Prop} {scope : Scope}

/-- What holds of a rule that a clause opens, and is kept when a clause extends the rule, holds of the
rules of a step. -/
theorem Stepped.holds {next : Scope} {c : Clause} {rules : List Rule} (h : Stepped scope c next rules)
    (hopen : c.ending = .openBrace → Token.render c.body ≠ "" → P ⟨Token.render c.body, [], c.start⟩)
    (hextend : ∀ rule, P rule → P (extendRule rule c.body).1) (hscope : Scope.Holds P scope) :
    Scope.Holds P next ∧ ∀ rule ∈ rules, P rule := by
  cases h with
  | skipped => exact ⟨trivial, by simp⟩
  | opened h hne => exact ⟨hopen h hne, by simp⟩
  | @extended c rule h => exact ⟨hextend rule hscope, by simp⟩
  | @closed c rule h => exact ⟨trivial, by simpa using hextend rule hscope⟩
  | entered | passed | deepened | left | risen => exact ⟨hscope, by simp⟩

/-- What each clause of some tokens keeps holds after them; the tokens that end no clause are left to be
read with what follows. -/
theorem buildTokens_run {I : Scope → Prop} {front rest : List Token} {built : Built}
    (hstep : ∀ c ∈ (Clauses.split 0 front).ended, ∀ scope next rules, I scope →
      Stepped scope c next rules → I next ∧ ∀ rule ∈ rules, P rule)
    (hscope : I scope) (h : buildTokens scope (front ++ rest) = .ok built) :
    ∃ next later, I next ∧
      buildTokens next ((Clauses.split 0 front).tail ++ rest) = .ok later ∧
      ∀ rule ∈ built.rules, P rule ∨ rule ∈ later.rules := by
  induction front using Clauses.induction_on generalizing scope built with
  | tail front final hdepth =>
      rw [Clauses.split_tail hdepth]
      exact ⟨scope, built, hscope, h, fun rule hrule => .inr hrule⟩
  | ended body t front final ending hbody ht ih =>
      rw [Clauses.split_ended hbody ht] at hstep ⊢
      rw [List.append_assoc, List.cons_append] at h
      obtain ⟨next, given, later, hnext, hlater, rfl⟩ := (buildTokens_step_eq_ok hbody ht).1 h
      obtain ⟨hscope', hgiven⟩ := hstep _ List.mem_cons_self scope next _ hscope (step_spec hnext)
      obtain ⟨last, rules, hlast, hrules, hsub⟩ :=
        ih (fun c hc => hstep c (List.mem_cons_of_mem _ hc)) hscope' hlater
      refine ⟨last, rules, hlast, hrules, fun rule hrule => ?_⟩
      rcases List.mem_append.1 hrule with hrule | hrule
      · exact .inl (hgiven rule hrule)
      · exact hsub rule hrule

theorem buildTokens_holds {tokens : List Token} {built : Built}
    (hopen : ∀ c ∈ (Clauses.split 0 tokens).ended, c.ending = .openBrace →
      Token.render c.body ≠ "" → P ⟨Token.render c.body, [], c.start⟩)
    (hextend : ∀ c ∈ (Clauses.split 0 tokens).ended, ∀ rule, P rule → P (extendRule rule c.body).1)
    (hscope : Scope.Holds P scope) (h : buildTokens scope tokens = .ok built) :
    ∀ rule ∈ built.rules, P rule := by
  rw [← List.append_nil tokens] at h
  obtain ⟨next, later, -, hlater, hrules⟩ := buildTokens_run (I := Scope.Holds P) (P := P)
    (fun c hc _ _ _ hholds h => h.holds (hopen c hc) (hextend c hc) hholds) hscope h
  obtain ⟨final, hfinal⟩ := Clauses.depthAfter?_tail tokens
  rw [List.append_nil] at hlater
  obtain ⟨-, -, rfl⟩ := (buildTokens_tail_eq_ok hfinal).1 hlater
  exact fun rule hrule => (hrules rule hrule).elim id (by simp [Built.empty])

end Holds

end Sheet

end RichStyle
