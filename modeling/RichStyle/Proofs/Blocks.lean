import Mathlib.Data.List.Infix
import Mathlib.Data.List.TakeWhile
import RichStyle.Proofs.Steps

/-!
# The block grammar

Which token lists are read without a fault is a matter of kinds alone: braces must be balanced,
every block outside all others needs a header, and nothing may be left over after the last
statement.  `WellBlocked` says so by counting over prefixes; reading goes clause by clause.
-/

namespace RichStyle

open Text

namespace Kind

/-- The number of braces opened less the number of braces closed. -/
def braceDepth (ks : List Kind) : Int :=
  ks.count openBrace - ks.count closeBrace

/-- Whether a kind after `before` ends a statement outside all blocks; `since` are the kinds after
the last such end. -/
def endsStatement (before since : List Kind) (k : Kind) : Bool :=
  match k with
  | closeBrace => braceDepth (before ++ [closeBrace]) == 0
  | semicolon => braceDepth before == 0 && since.foldl parenDepth 0 == 0
  | _ => false

/-- The kinds since the last end of a statement, found from the last kind backwards. -/
def sinceEndOfReverse : List Kind → List Kind
  | [] => []
  | k :: before =>
      if endsStatement before.reverse (sinceEndOfReverse before) k then []
      else sinceEndOfReverse before ++ [k]

/-- The kinds since the last end of a statement outside all blocks. -/
def sinceEnd (ks : List Kind) : List Kind :=
  sinceEndOfReverse ks.reverse

/-- Kinds whose braces are balanced, with a header in front of every outermost block and nothing
but blanks and comments after the last statement. -/
structure WellBlocked (ks : List Kind) : Prop where
  nonneg : ∀ before ∈ ks.inits, 0 ≤ braceDepth before
  closed : braceDepth ks = 0
  headed : ∀ before ∈ ks.inits, before ++ [openBrace] <+: ks → braceDepth before = 0 →
    ∃ k ∈ sinceEnd before, k.isTrivia = false
  ended : ∀ k ∈ sinceEnd ks, k.isTrivia = true

instance (ks : List Kind) : Decidable (WellBlocked ks) :=
  decidable_of_iff ((∀ before ∈ ks.inits, 0 ≤ braceDepth before) ∧ braceDepth ks = 0 ∧
      (∀ before ∈ ks.inits, before ++ [openBrace] <+: ks → braceDepth before = 0 →
        ∃ k ∈ sinceEnd before, k.isTrivia = false) ∧ ∀ k ∈ sinceEnd ks, k.isTrivia = true)
    ⟨fun ⟨h₁, h₂, h₃, h₄⟩ => ⟨h₁, h₂, h₃, h₄⟩, fun h => ⟨h.nonneg, h.closed, h.headed, h.ended⟩⟩

/-! ## One kind at a time -/

@[simp] theorem braceDepth_nil : braceDepth [] = 0 := rfl

theorem braceDepth_append (a b : List Kind) : braceDepth (a ++ b) = braceDepth a + braceDepth b := by
  simp only [braceDepth, List.count_append]
  omega

@[simp] theorem braceDepth_openBrace : braceDepth [openBrace] = 1 := rfl

@[simp] theorem braceDepth_closeBrace : braceDepth [closeBrace] = -1 := rfl

@[simp] theorem braceDepth_semicolon : braceDepth [semicolon] = 0 := rfl

@[simp] theorem sinceEnd_nil : sinceEnd [] = [] := rfl

theorem sinceEnd_concat (ks : List Kind) (k : Kind) :
    sinceEnd (ks ++ [k]) = if endsStatement ks (sinceEnd ks) k then [] else sinceEnd ks ++ [k] := by
  rw [sinceEnd, List.reverse_append, List.reverse_singleton, List.singleton_append,
    sinceEndOfReverse, List.reverse_reverse]
  rfl

/-- What a kind must satisfy after `before`. -/
def Admits (before : List Kind) (k : Kind) : Prop :=
  (k = closeBrace → 0 < braceDepth before) ∧
    (k = openBrace → braceDepth before = 0 → ∃ j ∈ sinceEnd before, j.isTrivia = false)

/-- What kinds must satisfy, one after the other, after `before`. -/
def Accepted (before : List Kind) : List Kind → Prop
  | [] => braceDepth before = 0 ∧ ∀ k ∈ sinceEnd before, k.isTrivia = true
  | k :: ks => Admits before k ∧ Accepted (before ++ [k]) ks

theorem admits_of_not_brace {before : List Kind} {k : Kind}
    (hk : k ≠ openBrace ∧ k ≠ closeBrace) : Admits before k :=
  ⟨fun h => absurd h hk.2, fun h => absurd h hk.1⟩

/-- Counting over prefixes from `before` on is the same as going on kind by kind. -/
theorem accepted_iff {before ks : List Kind} (hbefore : 0 ≤ braceDepth before) :
    Accepted before ks ↔
      (∀ a, a <+: ks → 0 ≤ braceDepth (before ++ a)) ∧ braceDepth (before ++ ks) = 0 ∧
        (∀ a, a ++ [openBrace] <+: ks → braceDepth (before ++ a) = 0 →
          ∃ k ∈ sinceEnd (before ++ a), k.isTrivia = false) ∧
        ∀ k ∈ sinceEnd (before ++ ks), k.isTrivia = true := by
  induction ks generalizing before with
  | nil => simp [Accepted, hbefore]
  | cons k ks ih =>
      have hlist (a : List Kind) : before ++ [k] ++ a = before ++ k :: a := by simp
      have hnext : 0 ≤ braceDepth (before ++ [k]) ↔ (k = closeBrace → 0 < braceDepth before) := by
        rw [braceDepth_append]
        generalize braceDepth before = depth at hbefore ⊢
        cases k <;> simp [braceDepth] <;> omega
      -- a prefix of `k :: ks` is empty or starts with `k`, and the rest of it is one of `ks`
      constructor
      · rintro ⟨hk, hks⟩
        obtain ⟨hnonneg, hclosed, hheaded, hended⟩ := (ih (hnext.2 hk.1)).1 hks
        simp only [hlist] at hnonneg hclosed hheaded hended
        refine ⟨fun a ha => ?_, hclosed, fun a ha hzero => ?_, hended⟩
        · rcases List.prefix_cons_iff.1 ha with rfl | ⟨a, rfl, htail⟩
          · simpa using hbefore
          · exact hnonneg a htail
        · cases a with
          | nil =>
              obtain ⟨rfl, -⟩ := List.cons_prefix_cons.1 ha
              exact (List.append_nil before).symm ▸ hk.2 rfl (by simpa using hzero)
          | cons j a =>
              obtain ⟨rfl, htail⟩ := List.cons_prefix_cons.1 ha
              exact hheaded a htail hzero
      · rintro ⟨hnonneg, hclosed, hheaded, hended⟩
        have hk : 0 ≤ braceDepth (before ++ [k]) := hnonneg [k] ⟨ks, rfl⟩
        refine ⟨⟨hnext.1 hk, fun hopen hzero => ?_⟩, (ih hk).2 ?_⟩
        · subst hopen
          simpa using hheaded [] ⟨ks, rfl⟩ (by simpa using hzero)
        · simp only [hlist]
          exact ⟨fun a ha => hnonneg (k :: a) (List.cons_prefix_cons.2 ⟨rfl, ha⟩), hclosed,
            fun a ha => hheaded (k :: a) (List.cons_prefix_cons.2 ⟨rfl, ha⟩), hended⟩

theorem wellBlocked_iff {ks : List Kind} : WellBlocked ks ↔ Accepted [] ks := by
  rw [accepted_iff (by simp)]
  simp only [List.nil_append]
  constructor
  · intro h
    refine ⟨fun a ha => h.nonneg a ((List.mem_inits a ks).2 ha), h.closed, fun a ha hzero => ?_,
      h.ended⟩
    exact h.headed a ((List.mem_inits a ks).2 ((List.prefix_append a _).trans ha)) ha hzero
  · rintro ⟨hnonneg, hclosed, hheaded, hended⟩
    exact ⟨fun a ha => hnonneg a ((List.mem_inits a ks).1 ha), hclosed, fun a _ => hheaded a, hended⟩

/-! ## One clause at a time -/

theorem braceDepth_of_depthAfter? {depth final : Nat} {ks : List Kind}
    (h : depthAfter? depth ks = some final) : braceDepth ks = 0 := by
  have hbrace := not_brace_of_depthAfter? h
  have hopen : ks.count openBrace = 0 := List.count_eq_zero.2 fun hmem => (hbrace _ hmem).1 rfl
  have hclose : ks.count closeBrace = 0 := List.count_eq_zero.2 fun hmem => (hbrace _ hmem).2 rfl
  simp [braceDepth, hopen, hclose]

theorem accepted_append {depth final : Nat} {before ks : List Kind} (more : List Kind)
    (h : depthAfter? depth ks = some final) :
    Accepted before (ks ++ more) ↔ Accepted (before ++ ks) more := by
  have hbrace := not_brace_of_depthAfter? h
  clear h
  induction ks generalizing before with
  | nil => simp
  | cons k ks ih =>
      obtain ⟨hk, hks⟩ := List.forall_mem_cons.1 hbrace
      have hrest : Accepted (before ++ [k]) (ks ++ more) ↔ Accepted (before ++ [k] ++ ks) more :=
        ih hks
      simp only [List.cons_append, Accepted, hrest, admits_of_not_brace hk, true_and,
        List.append_assoc, List.nil_append]

/-- Outside all blocks, kinds that end no clause end no statement. -/
theorem sinceEnd_append {depth final : Nat} {before ks : List Kind}
    (hbefore : braceDepth before = 0) (hdepth : (sinceEnd before).foldl parenDepth 0 = depth)
    (h : depthAfter? depth ks = some final) : sinceEnd (before ++ ks) = sinceEnd before ++ ks := by
  induction ks generalizing before depth with
  | nil => simp
  | cons k ks ih =>
      rw [depthAfter?] at h
      split at h
      · contradiction
      next hk =>
        have hends : endsStatement before (sinceEnd before) k = false := by
          cases k <;> simp_all [endsStatement, Ending.of?]
        have hsince : sinceEnd (before ++ [k]) = sinceEnd before ++ [k] := by
          simp [sinceEnd_concat, hends]
        have hzero : braceDepth (before ++ [k]) = 0 := by
          rw [braceDepth_append, hbefore]
          cases k <;> simp_all [braceDepth, Ending.of?]
        have hrun := ih hzero (by simp [hsince, hdepth]) h
        simpa [hsince] using hrun

end Kind

/-! ## What is written out is empty only if it means nothing -/

theorem Text.trimEnd_eq_nil_iff {s : List Char} :
    trimEnd s = [] ↔ ∀ c ∈ s, isBlank c = true := by
  simp [trimEnd, List.dropWhile_eq_nil_iff]

/-- A lexeme of a text that means something does not start with a blank. -/
theorem Lexeme.exists_solid_start {s : List Char} {l : Lexeme} (h : l ∈ split s)
    (hl : l.kind.isTrivia = false) : ∃ c r, l.text = c :: r ∧ isBlank c = false := by
  fun_induction split s with
  | case1 => simp at h
  | case2 c s ih =>
      rcases List.mem_cons.1 h with rfl | h
      · have hfirst := first_spec c s
        generalize first c s = found at hfirst hl
        cases hfirst with
        | mark hk => exact ⟨c, [], rfl, not_blank_of_punctuation (isPunctuation_of_kind hk)⟩
        | quoted hq => exact ⟨c, _, rfl, not_blank_of_quote hq⟩
        | comment hc hs => contradiction
        | blank hb => contradiction
        | plain hd hs => exact ⟨c, _, rfl, not_blank_of_ordinary hd⟩
      · exact ih h

namespace Token

/-- Tokens whose text shows that they mean something, if they do. -/
def ShowsSolid (t : Token) : Prop :=
  t.isTrivia = false → ∃ c r, t.text = c :: r ∧ isBlank c = false

theorem showsSolid_ofText {s : List Char} : ∀ t ∈ ofText s, t.ShowsSolid := by
  intro t ht hsolid
  have hmem : t.toLexeme ∈ Lexeme.split s := by
    rw [← place_map_toLexeme .start (Lexeme.split s)]
    exact List.mem_map_of_mem ht
  exact Lexeme.exists_solid_start hmem hsolid

theorem blank_joinFrom_iff {tokens : List Token} (h : ∀ t ∈ tokens, t.ShowsSolid) (spaced : Bool) :
    (∀ c ∈ joinFrom spaced tokens, isBlank c = true) ↔ ∀ t ∈ tokens, t.isTrivia = true := by
  induction tokens generalizing spaced with
  | nil => simp [joinFrom]
  | cons t tokens ih =>
      obtain ⟨ht, hrest⟩ := List.forall_mem_cons.1 h
      by_cases hblank : t.kind = .blank
      · rw [joinFrom_blank hblank]
        split <;> simp [ih hrest, isTrivia, hblank, Kind.isTrivia]
      · by_cases hcomment : t.kind = .comment
        · rw [joinFrom, hcomment]
          simp [ih hrest, isTrivia, hcomment, Kind.isTrivia]
        · have hsolid : t.isTrivia = false := by
            cases hkind : t.kind <;> simp_all [isTrivia, Kind.isTrivia]
          obtain ⟨c, r, htext, hc⟩ := ht hsolid
          simp [joinFrom_solid hblank hcomment, htext, hc, hsolid]

theorem render_eq_empty_iff {tokens : List Token} (h : ∀ t ∈ tokens, t.ShowsSolid) :
    render tokens = "" ↔ ∀ t ∈ tokens, t.isTrivia = true := by
  rw [render, ← String.ofList_nil, String.ofList_inj, trimEnd_eq_nil_iff, blank_joinFrom_iff h]

end Token

/-! ## Reading clauses -/

/-- The number of blocks around a clause that is read in a scope. -/
def Scope.depth : Scope → Nat
  | .outside => 0
  | .inside _ => 1
  | .nested _ depth => depth + 2

open Kind (braceDepth sinceEnd Admits Accepted)

/-- The kinds that have been read when a clause is read in a scope. -/
structure Scope.Fits (scope : Scope) (before : List Kind) : Prop where
  depth_eq : braceDepth before = scope.depth
  fresh : scope.depth = 0 → sinceEnd before = []

theorem Scope.fits_outside : Scope.outside.Fits [] :=
  ⟨rfl, fun _ => rfl⟩

namespace Sheet

section Clause

variable {scope : Scope} {before body : List Kind} {final : Nat}
  (hbody : Kind.depthAfter? 0 body = some final)
include hbody

theorem braceDepth_clause (before : List Kind) :
    braceDepth (before ++ body) = braceDepth before := by
  rw [Kind.braceDepth_append, Kind.braceDepth_of_depthAfter? hbody, Int.add_zero]

theorem sinceEnd_clause (h : scope.Fits before) (hzero : scope.depth = 0) :
    sinceEnd (before ++ body) = body := by
  have hdepth : braceDepth before = 0 := by rw [h.depth_eq, hzero, Int.ofNat_zero]
  have hfresh := h.fresh hzero
  rw [Kind.sinceEnd_append hdepth (by rw [hfresh]; rfl) hbody, hfresh, List.nil_append]

end Clause

section Step

variable {scope next : Scope} {given : Built} {body : List Token} {ending : Ending} {t : Token}
  {before : List Kind} {final : Nat}

/-- A step opens or closes the block that its mark opens or closes. -/
theorem depth_step (ht : Ending.of? final t.kind = some ending)
    (h : step scope ⟨body, ending, t.span⟩ = .ok (next, given)) :
    (next.depth : Int) = scope.depth + braceDepth [t.kind] := by
  rcases Ending.eq_kind ht with ⟨rfl, hk⟩ | ⟨rfl, hk⟩ | ⟨rfl, hk, -⟩ <;> rw [hk]
  · cases scope with
    | outside =>
        simp only [step] at h
        split at h
        · contradiction
        · cases h
          rfl
    | inside rule =>
        cases h
        rfl
    | nested rule depth =>
        cases h
        simp only [Scope.depth, Kind.braceDepth_openBrace]
        omega
  · cases scope with
    | outside => contradiction
    | inside rule =>
        cases h
        rfl
    | nested rule depth =>
        cases depth <;> cases h <;> simp only [Scope.depth, Kind.braceDepth_closeBrace] <;> omega
  · cases scope <;> cases h <;> simp [Scope.depth]

variable (hscope : scope.Fits before)
  (hbody : Kind.depthAfter? 0 (body.map (·.kind)) = some final)
  (ht : Ending.of? final t.kind = some ending)
include hscope hbody ht

/-- A step keeps together the scope and the kinds that have been read. -/
theorem fits_step (h : step scope ⟨body, ending, t.span⟩ = .ok (next, given)) :
    next.Fits (before ++ body.map (·.kind) ++ [t.kind]) := by
  have hclause := braceDepth_clause hbody before
  have hdepth : braceDepth (before ++ body.map (·.kind) ++ [t.kind]) = next.depth := by
    rw [Kind.braceDepth_append, hclause, hscope.depth_eq, depth_step ht h]
  refine ⟨hdepth, fun hzero => ?_⟩
  rw [hzero] at hdepth
  have hends : Kind.endsStatement (before ++ body.map (·.kind))
      (sinceEnd (before ++ body.map (·.kind))) t.kind = true := by
    have hnext := depth_step ht h
    rcases Ending.eq_kind ht with ⟨-, hk⟩ | ⟨-, hk⟩ | ⟨-, hk, hfinal⟩
    · rw [hk, Kind.braceDepth_openBrace] at hnext
      omega
    · rw [hk] at hdepth ⊢
      simp only [Kind.endsStatement, hdepth]
      rfl
    · rw [hk, Kind.braceDepth_semicolon] at hnext
      have houter : scope.depth = 0 := by omega
      have hparens := Kind.depthAfter?_eq_foldl hbody
      rw [hfinal] at hparens
      simp [hk, Kind.endsStatement, hclause, hscope.depth_eq, houter,
        sinceEnd_clause hbody hscope houter, hparens]
  rw [Kind.sinceEnd_concat, if_pos hends]

/-- A step succeeds exactly if the mark of its clause is admitted. -/
theorem exists_step_iff (hsolid : ∀ u ∈ body, u.ShowsSolid) :
    (∃ next given, step scope ⟨body, ending, t.span⟩ = .ok (next, given)) ↔
      Admits (before ++ body.map (·.kind)) t.kind := by
  have hdepth : braceDepth (before ++ body.map (·.kind)) = scope.depth := by
    rw [braceDepth_clause hbody, hscope.depth_eq]
  rcases Ending.eq_kind ht with ⟨rfl, hk⟩ | ⟨rfl, hk⟩ | ⟨rfl, hk, -⟩ <;> rw [hk]
  · cases scope with
    | outside =>
        have hempty := Token.render_eq_empty_iff hsolid
        have hsince := sinceEnd_clause hbody hscope rfl
        by_cases hheader : Token.render body = ""
        · have hnone := hempty.1 hheader
          simpa [step, Admits, hheader, hdepth, hsince, Scope.depth, Token.isTrivia] using hnone
        · have hsome : ∃ u ∈ body, u.isTrivia = false := by
            simpa using mt hempty.2 hheader
          simpa [step, Admits, hheader, hdepth, hsince, Scope.depth, Token.isTrivia] using hsome
    | inside rule => simp [step, Admits, hdepth, Scope.depth]
    | nested rule depth =>
        have hne : (depth : Int) + 2 ≠ 0 := by omega
        simp [step, Admits, hdepth, Scope.depth, hne]
  · cases scope with
    | outside => simp [step, Admits, hdepth, Scope.depth]
    | inside rule => simp [step, Admits, hdepth, Scope.depth]
    | nested rule depth =>
        have hpos : 0 < braceDepth (before ++ body.map (·.kind)) := by
          rw [hdepth]
          exact Int.natCast_pos.2 (Nat.succ_pos _)
        cases depth <;> simp [step, Admits, hpos]
  · have hadmits : Admits (before ++ body.map (·.kind)) .semicolon :=
      Kind.admits_of_not_brace (by decide)
    cases scope <;> simp [step, hadmits]

end Step

/-- Tokens after the last clause are in their place only outside all rules, and only if they mean
nothing. -/
theorem exists_buildTokens_tail_iff {tokens : List Token} {final : Nat}
    (h : Kind.depthAfter? 0 (tokens.map (·.kind)) = some final) (scope : Scope) :
    (∃ built, buildTokens scope tokens = .ok built) ↔
      scope.depth = 0 ∧ ∀ t ∈ tokens, t.isTrivia = true := by
  simp only [buildTokens_tail_eq_ok h]
  cases scope <;> simp [Scope.depth]

theorem exists_buildTokens_iff {tokens : List Token} {scope : Scope} {before : List Kind}
    (hsolid : ∀ t ∈ tokens, t.ShowsSolid) (hscope : scope.Fits before) :
    (∃ built, buildTokens scope tokens = .ok built) ↔ Accepted before (tokens.map (·.kind)) := by
  induction tokens using Clauses.induction_on generalizing scope before with
  | tail tokens final h =>
      rw [exists_buildTokens_tail_iff h, ← List.append_nil (tokens.map _),
        Kind.accepted_append [] h, Accepted, braceDepth_clause h, hscope.depth_eq, Int.natCast_eq_zero]
      refine and_congr_right fun hzero => ?_
      rw [sinceEnd_clause h hscope hzero]
      simp [Token.isTrivia]
  | ended body t rest final ending hbody ht ih =>
      have hrest : ∀ u ∈ rest, u.ShowsSolid := fun u hu => hsolid u (by simp [hu])
      have hok := exists_step_iff hscope hbody ht fun u hu => hsolid u (List.mem_append_left _ hu)
      rw [List.map_append, List.map_cons, Kind.accepted_append _ hbody, Accepted, ← hok]
      simp only [buildTokens_step_eq_ok hbody ht]
      constructor
      · rintro ⟨built, next, given, later, hstep, hlater, -⟩
        exact ⟨⟨next, given, hstep⟩,
          (ih hrest (fits_step hscope hbody ht hstep)).1 ⟨later, hlater⟩⟩
      · rintro ⟨⟨next, given, hstep⟩, haccepted⟩
        obtain ⟨later, hlater⟩ := (ih hrest (fits_step hscope hbody ht hstep)).2 haccepted
        exact ⟨_, next, given, later, hstep, hlater, rfl⟩

/-- A text is read without a fault exactly if its tokens are well blocked. -/
theorem exists_ofTokens_iff_wellBlocked (s : List Char) :
    (∃ built, ofTokens (Token.ofText s) = .ok built) ↔ Kind.WellBlocked (Lexeme.kinds s) := by
  have hkinds := map_kind_eq (Token.place_map_toLexeme .start (Lexeme.split s))
  rw [Kind.wellBlocked_iff, ← hkinds]
  exact exists_buildTokens_iff Token.showsSolid_ofText Scope.fits_outside

example : Kind.WellBlocked (Lexeme.kinds "a(;\x7bb\x7bc\x7d;\x7d;d)\x7b\x7d".toList) := by
  decide +kernel

end Sheet

end RichStyle
