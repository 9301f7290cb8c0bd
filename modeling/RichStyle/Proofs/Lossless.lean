import Mathlib.Data.List.DropRight
import RichStyle.Proofs.Blocks
import RichStyle.Proofs.Rereading

/-!
# Reading without loss

What is written out from the tokens of a clause is cut into the same tokens again, blanks apart.  So
a reading without warnings keeps every token of its text: printing the rules gives them back in
their order, with nothing but blanks and semicolons added or left out.
-/

namespace RichStyle

open Text
open Source (Absent)

namespace Lexeme

/-- The lexemes other than blanks and semicolons. -/
def content (lexemes : List Lexeme) : List Lexeme :=
  lexemes.filter fun l => l.kind != .blank && l.kind != .semicolon

@[simp] theorem content_nil : content [] = [] := rfl

@[simp] theorem content_append (a b : List Lexeme) : content (a ++ b) = content a ++ content b :=
  List.filter_append a b

theorem content_cons (l : Lexeme) (ls : List Lexeme) :
    content (l :: ls) = content [l] ++ content ls :=
  content_append [l] ls

@[simp] theorem content_openBrace (s : List Char) :
    content [⟨.openBrace, s⟩] = [⟨.openBrace, s⟩] := rfl

@[simp] theorem content_closeBrace (s : List Char) :
    content [⟨.closeBrace, s⟩] = [⟨.closeBrace, s⟩] := rfl

@[simp] theorem content_semicolon (s : List Char) : content [⟨.semicolon, s⟩] = [] := rfl

theorem content_of_blank {ls : List Lexeme} (h : ∀ l ∈ ls, l.kind = .blank) : content ls = [] := by
  rw [content, List.filter_eq_nil_iff]
  intro l hl
  simp [h l hl]

theorem Segmented.of_infix {a b : List Lexeme} (h : Segmented b) (hab : a <:+: b) : Segmented a :=
  ⟨fun l hl => h.whole l (hab.subset hl), h.chain.infix hab⟩

/-- A punctuation mark is the only whole lexeme of its kind. -/
theorem Whole.eq_mark {l : Lexeme} {c : Char} (h : Whole l)
    (hc : Kind.ofPunctuation? c = some l.kind) : l = ⟨l.kind, [c]⟩ := by
  have hkind := mark_kind hc
  cases h with
  | mark hd => rw [eq_of_kind hc hd]
  | quoted => exact absurd rfl hkind.2.2.1
  | comment => exact absurd rfl hkind.2.2.2
  | blank => exact absurd rfl hkind.2.1
  | plain => exact absurd rfl hkind.1

theorem eq_mark {s : List Char} {l : Lexeme} {c : Char} (h : l ∈ split s)
    (hc : Kind.ofPunctuation? c = some l.kind) : l = ⟨l.kind, [c]⟩ := by
  have hkind := mark_kind hc
  have hclosed : l.isClosed = true := by
    unfold isClosed
    split <;> simp_all
  exact (whole_of_isClosed h hclosed).eq_mark hc

end Lexeme

open Lexeme (content Segmented Tidy)

/-! ## What is written out is cut into the same tokens -/

/-- A list is a core between elements with a property that neither end of the core has. -/
theorem exists_core {α : Type} (p : α → Bool) (xs : List α) :
    ∃ lead core trail, xs = lead ++ (core ++ trail) ∧ (∀ x ∈ lead, p x = true) ∧
      (∀ x ∈ trail, p x = true) ∧ (∀ x ∈ core.head?, p x = false) ∧
      ∀ x ∈ core.getLast?, p x = false := by
  refine ⟨xs.takeWhile p, (xs.dropWhile p).rdropWhile p, (xs.dropWhile p).rtakeWhile p, ?_,
    List.all_eq_true.1 List.all_takeWhile, fun x hx => List.mem_rtakeWhile_imp hx, ?_, ?_⟩
  · rw [List.rdropWhile_append_rtakeWhile, List.takeWhile_append_dropWhile]
  · intro x hx
    obtain ⟨core, hcore⟩ := List.head?_eq_some_iff.1 hx
    obtain ⟨trail, hrest⟩ := List.rdropWhile_prefix p (l := xs.dropWhile p)
    have hhead := List.head?_dropWhile_not p xs
    rw [← hrest, hcore] at hhead
    exact hhead
  · intro x hx
    obtain ⟨hne, rfl⟩ := List.mem_getLast?_eq_getLast hx
    simpa using List.rdropWhile_last_not p _ hne

namespace Token

/-- The token with one space for its text if it is a blank. -/
def spaced (t : Token) : Token :=
  if t.kind = .blank then { t with text := [' '] } else t

theorem spaced_kind (t : Token) : t.spaced.kind = t.kind := by
  unfold spaced
  split <;> rfl

theorem spaced_of_not_blank {t : Token} (h : t.kind ≠ .blank) : t.spaced = t :=
  if_neg h

theorem joinFrom_map_spaced (before : Bool) (tokens : List Token) :
    joinFrom before (tokens.map spaced) = joinFrom before tokens := by
  induction tokens generalizing before with
  | nil => rfl
  | cons t tokens ih =>
      by_cases hblank : t.kind = .blank
      · rw [List.map_cons, joinFrom_blank hblank, joinFrom_blank (by rw [spaced_kind, hblank]), ih]
      · rw [List.map_cons, spaced_of_not_blank hblank, joinFrom, joinFrom]
        simp only [ih]

theorem whole_spaced {t : Token} (h : Lexeme.Whole t.toLexeme) :
    Lexeme.Whole t.spaced.toLexeme := by
  unfold spaced
  split
  · next hblank =>
      change Lexeme.Whole ⟨t.kind, [' ']⟩
      rw [hblank]
      exact .blank (by simp)
  · exact h

/-- Whole tokens without braces and comments, as they stand between two marks. -/
structure Piece (tokens : List Token) : Prop where
  segmented : Segmented (tokens.map toLexeme)
  inner : ∀ t ∈ tokens, t.kind ≠ .openBrace ∧ t.kind ≠ .closeBrace ∧ t.kind ≠ .comment

theorem Piece.of_infix {a b : List Token} (h : Piece b) (hab : a <:+: b) : Piece a :=
  ⟨h.segmented.of_infix (hab.map toLexeme), fun t ht => h.inner t (hab.subset ht)⟩

theorem Piece.tidy_spaced {core : List Token} (h : Piece core)
    (hhead : ∀ t ∈ core.head?, t.kind ≠ .blank) (hlast : ∀ t ∈ core.getLast?, t.kind ≠ .blank) :
    Tidy ((core.map spaced).map toLexeme) := by
  have hkind (l : Lexeme) (hl : l ∈ (core.map spaced).map toLexeme) :
      ∃ t ∈ core, l = t.spaced.toLexeme := by
    simpa [eq_comm] using hl
  refine ⟨⟨⟨?_, ?_⟩, ?_, ?_, ?_⟩, ?_⟩
  · intro l hl
    obtain ⟨t, ht, rfl⟩ := hkind l hl
    exact whole_spaced (h.segmented.whole _ (List.mem_map_of_mem ht))
  · have hchain := h.segmented.chain
    rw [List.isChain_map] at hchain
    rw [List.isChain_map, List.isChain_map]
    refine hchain.imp fun t u htu => ?_
    simpa only [Lexeme.Follows, spaced_kind] using htu
  · intro l hl
    obtain ⟨t, ht, rfl⟩ := hkind l hl
    rw [spaced_kind]
    exact h.inner t ht
  · intro l hl hblank
    obtain ⟨t, ht, rfl⟩ := hkind l hl
    rw [spaced_kind] at hblank
    simp [spaced, hblank]
  · intro l hl
    obtain ⟨t, ht, rfl⟩ : ∃ t ∈ core.head?, t.spaced.toLexeme = l := by simpa using hl
    rw [spaced_kind]
    exact hhead t ht
  · intro l hl
    obtain ⟨t, ht, rfl⟩ : ∃ t ∈ core.getLast?, t.spaced.toLexeme = l := by simpa using hl
    rw [spaced_kind]
    exact hlast t ht

theorem content_spaced (tokens : List Token) :
    content ((tokens.map spaced).map toLexeme) = content (tokens.map toLexeme) := by
  induction tokens with
  | nil => rfl
  | cons t tokens ih =>
      have hhead : content [t.spaced.toLexeme] = content [t.toLexeme] := by
        by_cases hblank : t.kind = .blank
        · rw [Lexeme.content_of_blank (by simp [spaced_kind, hblank]),
            Lexeme.content_of_blank (by simpa using hblank)]
        · rw [spaced_of_not_blank hblank]
      rw [List.map_cons, List.map_cons, Lexeme.content_cons, hhead, ih, List.map_cons,
        ← Lexeme.content_cons]

/-- A piece between blanks is written out with its own blanks made single spaces. -/
theorem Piece.render_spaced {lead core trail : List Token} (h : Piece core)
    (hlead : ∀ t ∈ lead, t.kind = .blank) (htrail : ∀ t ∈ trail, t.kind = .blank)
    (hhead : ∀ t ∈ core.head?, t.kind ≠ .blank) (hlast : ∀ t ∈ core.getLast?, t.kind ≠ .blank) :
    render (lead ++ (core ++ trail)) =
      String.ofList (Lexeme.join ((core.map spaced).map toLexeme)) := by
  have hkind {ts : List Token} (hts : ∀ t ∈ ts, t.kind = .blank) :
      ∀ t ∈ ts.map spaced, t.kind = .blank := by simpa [spaced_kind] using hts
  have hspaced := render_tidy _ (hkind hlead) (hkind htrail) (h.tidy_spaced hhead hlast)
  rwa [← List.map_append, ← List.map_append, render, joinFrom_map_spaced] at hspaced

theorem Piece.split_render {tokens : List Token} (h : Piece tokens) :
    Tidy (Lexeme.split (render tokens).toList) ∧
      content (Lexeme.split (render tokens).toList) = content (tokens.map toLexeme) := by
  obtain ⟨lead, core, trail, rfl, hlead, htrail, hhead, hlast⟩ :=
    exists_core (fun t : Token => decide (t.kind = .blank)) tokens
  simp only [decide_eq_true_eq, decide_eq_false_iff_not] at hlead htrail hhead hlast
  have hcore : Piece core := h.of_infix ⟨lead, trail, by simp⟩
  have htidy := hcore.tidy_spaced hhead hlast
  have hblank {ts : List Token} (hts : ∀ t ∈ ts, t.kind = .blank) :
      content (ts.map toLexeme) = [] := Lexeme.content_of_blank (by simpa using hts)
  rw [hcore.render_spaced hlead htrail hhead hlast, String.toList_ofList,
    Lexeme.split_join htidy.segmented, content_spaced]
  exact ⟨htidy, by simp [hblank hlead, hblank htrail]⟩

/-- Tokens with which the tokens of a text end. -/
def Lexed (tokens : List Token) : Prop :=
  ∃ s before, (before ++ tokens).map toLexeme = Lexeme.split s

section Lexed

variable {body rest : List Token} {t : Token}

theorem lexed_ofText (s : List Char) : Lexed (ofText s) :=
  ⟨s, [], place_map_toLexeme .start _⟩

theorem Lexed.after (h : Lexed (body ++ t :: rest)) : Lexed rest := by
  obtain ⟨s, before, h⟩ := h
  exact ⟨s, before ++ body ++ [t], by simpa using h⟩

/-- Tokens in front of another one are whole. -/
theorem Lexed.segmented (h : Lexed (body ++ t :: rest)) : Segmented (body.map toLexeme) := by
  obtain ⟨s, before, h⟩ := h
  have hcut : Lexeme.split s =
      (before ++ body).map toLexeme ++ t.toLexeme :: rest.map toLexeme := by
    rw [← h]
    simp
  have hwhole : Segmented ((before ++ body).map toLexeme) := by
    have hchain := Lexeme.split_chain s
    rw [hcut] at hchain
    exact ⟨Lexeme.split_whole hcut, (List.isChain_append.1 hchain).1⟩
  exact hwhole.of_infix ⟨before.map toLexeme, [], by simp⟩

theorem Lexed.eq_mark (h : Lexed (body ++ t :: rest)) (c : Char) {kind : Kind}
    (hkind : t.kind = kind) (hc : Kind.ofPunctuation? c = some kind) :
    t.toLexeme = ⟨kind, [c]⟩ := by
  obtain ⟨s, before, h⟩ := h
  have hmem : t.toLexeme ∈ Lexeme.split s := by
    rw [← h]
    simp
  subst hkind
  exact Lexeme.eq_mark hmem hc

end Lexed

theorem content_of_trivia {tokens : List Token} (h : ∀ t ∈ tokens, t.isTrivia = true)
    (hcomment : ∀ t ∈ tokens, t.kind ≠ .comment) : content (tokens.map toLexeme) = [] := by
  refine Lexeme.content_of_blank ?_
  simp only [List.mem_map, forall_exists_index, and_imp, forall_apply_eq_imp_iff₂]
  intro t ht
  have htrivia := h t ht
  have hne := hcomment t ht
  cases hkind : t.kind <;> simp_all [isTrivia, Kind.isTrivia]

end Token

/-! ## Declarations and selectors -/

theorem Declaration.content_lexemes (d : Declaration) :
    content d.lexemes = content (Lexeme.split d.property.toList) ++
      ⟨.colon, [':']⟩ :: content (Lexeme.split d.value.toList) := by
  simp [lexemes, content]

/-- What a rule has been read from, up to the clause that is read next. -/
def Rule.openContent (r : Rule) : List Lexeme :=
  content (Lexeme.split r.selector.toList) ++
    ⟨.openBrace, ['{']⟩ :: content (r.declarations.flatMap Declaration.lexemes)

theorem Rule.content_lexemes (r : Rule) :
    content r.lexemes = r.openContent ++ [⟨.closeBrace, ['}']⟩] := by
  simp [lexemes, openContent, content]

theorem absent_of_tidy {text : String} (h : Tidy (Lexeme.split text.toList)) :
    Absent startsComment text.toList :=
  Source.absent_startsComment_iff.2 fun l hl => (h.inner l hl).2.2

namespace Sheet

section Clause

variable {body : List Token} {final : Nat} {rule : Rule} (hpiece : Token.Piece body)
  (hbody : Kind.depthAfter? 0 (body.map (·.kind)) = some final)
include hpiece hbody

theorem sound_of_piece (ending : Ending) (mark : Span) : Clause.Sound ⟨body, ending, mark⟩ :=
  ⟨fun _ ht => hpiece.segmented.whole _ (List.mem_map_of_mem ht), final, hbody⟩

theorem declaration_of_piece {p : Span} {d : Declaration}
    (h : Declaration.ofTokens? body p = some d) :
    d.Printable ∧ content d.lexemes = content (body.map Token.toLexeme) := by
  have hwhole : ∀ t ∈ body, Lexeme.Whole t.toLexeme := fun t ht =>
    hpiece.segmented.whole _ (List.mem_map_of_mem ht)
  have hwritten := (Declaration.asRead_of_tokens hwhole hbody h).toWritten
  obtain ⟨⟨before, after⟩, hcut, hd⟩ := Option.bind_eq_some_iff.1 h
  obtain ⟨t, rfl, ht, -, -⟩ := Declaration.cutColon?_spec hcut
  simp only at hd
  split at hd
  · contradiction
  · obtain rfl := Option.some.inj hd
    have hbefore : Token.Piece before := hpiece.of_infix ⟨[], t :: after, by simp⟩
    have hafter : Token.Piece after := hpiece.of_infix ⟨before ++ [t], [], by simp⟩
    have hcolon : t.toLexeme = ⟨.colon, [':']⟩ := by
      have hmark : Kind.ofPunctuation? ':' = some t.kind := by rw [ht]; rfl
      rw [(hwhole t (by simp)).eq_mark hmark, ht]
    refine ⟨hwritten.printable (absent_of_tidy hbefore.split_render.1)
      (absent_of_tidy hafter.split_render.1), ?_⟩
    rw [Declaration.content_lexemes]
    simp only [Declaration.classified, hbefore.split_render.2, hafter.split_render.2]
    simp [hcolon, content]

/-- A clause that brings no warning adds itself to what its rule has been read from. -/
theorem extendRule_of_piece (hrule : rule.Printable) (h : (extendRule rule body).2 = []) :
    (extendRule rule body).1.Printable ∧ (extendRule rule body).1.openContent =
      rule.openContent ++ content (body.map Token.toLexeme) := by
  unfold extendRule clauseContent at h ⊢
  cases hfirst : Token.firstSolid? body with
  | none =>
      have hempty := Token.content_of_trivia (Token.firstSolid?_eq_none_iff.1 hfirst)
        fun t ht => (hpiece.inner t ht).2.2
      simpa [hempty] using hrule
  | some t =>
      simp only [hfirst] at h ⊢
      cases hd : Declaration.ofTokens? body t.span with
      | none => simp [hd] at h
      | some d =>
          obtain ⟨hprintable, hcontent⟩ := declaration_of_piece hpiece hbody hd
          refine ⟨⟨hrule.selector, hrule.selector_ne, hrule.selector_open, ?_⟩, ?_⟩
          · intro e he
            rcases List.mem_append.1 he with he | he
            · exact hrule.declarations e he
            · rwa [List.mem_singleton.1 he]
          · simp [Rule.openContent, hcontent]

theorem selector_of_piece (p : Span) (hne : Token.render body ≠ "") :
    Rule.Printable ⟨Token.render body, [], p⟩ ∧
      content (Lexeme.split (Token.render body).toList) = content (body.map Token.toLexeme) := by
  obtain ⟨htidy, hcontent⟩ := hpiece.split_render
  obtain ⟨⟨⟨marks, hmarks, depth, hdepth⟩, -⟩, -⟩ :=
    asRead_of_selector (sound_of_piece hpiece hbody .openBrace .unknown) hne
  refine ⟨⟨htidy, by simpa using hne, ⟨depth, ?_⟩, by simp⟩, hcontent⟩
  rw [hmarks.depthAfter?_kinds (absent_of_tidy htidy), hdepth]

end Clause

/-! ## Steps without warnings -/

/-- The rule that is being read can be printed so far, and no block is passed over. -/
def Scope.Kept : Scope → Prop
  | .outside => True
  | .inside rule => rule.Printable
  | .nested _ _ => False

/-- What the rule that is being read has been read from. -/
def Scope.content : Scope → List Lexeme
  | .outside => []
  | .inside rule | .nested rule _ => rule.openContent

/-- A step without warnings gives on what it reads or keeps it in its scope. -/
theorem step_lossless {scope next : Scope} {given : Built} {body rest : List Token} {t : Token}
    {ending : Ending} {final : Nat} (hlexed : Token.Lexed (body ++ t :: rest))
    (hcomment : ∀ u ∈ body, u.kind ≠ .comment)
    (hbody : Kind.depthAfter? 0 (body.map (·.kind)) = some final)
    (ht : Ending.of? final t.kind = some ending) (hscope : Scope.Kept scope)
    (h : step scope ⟨body, ending, t.span⟩ = .ok (next, given)) (hwarnings : given.warnings = []) :
    Scope.Kept next ∧ (∀ r ∈ given.rules, r.Printable) ∧
      Scope.content scope ++ Lexeme.content ((body ++ [t]).map Token.toLexeme) =
        Lexeme.content (given.rules.flatMap Rule.lexemes) ++ Scope.content next := by
  have hpiece : Token.Piece body := by
    refine ⟨hlexed.segmented, fun u hu => ?_⟩
    obtain ⟨hopen, hclose⟩ := Kind.not_brace_of_depthAfter? hbody _ (List.mem_map_of_mem hu)
    exact ⟨hopen, hclose, hcomment u hu⟩
  rcases Ending.eq_kind ht with ⟨rfl, hk⟩ | ⟨rfl, hk⟩ | ⟨rfl, hk, -⟩
  · have hmark := hlexed.eq_mark '{' hk rfl
    cases scope with
    | outside =>
        simp only [step] at h
        split at h
        · contradiction
        · next hne =>
            cases h
            obtain ⟨hprintable, hcontent⟩ := selector_of_piece hpiece hbody
              (Clause.mk body .openBrace t.span).start (by simpa using hne)
            refine ⟨hprintable, by simp [Built.empty], ?_⟩
            simp [Scope.content, Rule.openContent, hcontent, hmark, Built.empty]
    | inside rule =>
        -- a nested block would be skipped with a warning
        cases h
        simp at hwarnings
    | nested rule depth => exact hscope.elim
  · have hmark := hlexed.eq_mark '}' hk rfl
    cases scope with
    | outside => contradiction
    | inside rule =>
        cases h
        obtain ⟨hprintable, hcontent⟩ := extendRule_of_piece hpiece hbody hscope hwarnings
        refine ⟨trivial, by simpa using hprintable, ?_⟩
        simp [Scope.content, Rule.content_lexemes, hcontent, hmark]
    | nested rule depth => exact hscope.elim
  · have hmark := hlexed.eq_mark ';' hk rfl
    cases scope with
    | outside =>
        cases h
        simp at hwarnings
    | inside rule =>
        cases h
        obtain ⟨hprintable, hcontent⟩ := extendRule_of_piece hpiece hbody hscope hwarnings
        refine ⟨hprintable, by simp, ?_⟩
        simp [Scope.content, hcontent, hmark]
    | nested rule depth => exact hscope.elim

theorem buildTokens_lossless {tokens : List Token} {scope : Scope} {built : Built}
    (hlexed : Token.Lexed tokens) (hcomment : ∀ t ∈ tokens, t.kind ≠ .comment)
    (hscope : Scope.Kept scope) (h : buildTokens scope tokens = .ok built)
    (hwarnings : built.warnings = []) :
    (∀ r ∈ built.rules, r.Printable) ∧ Lexeme.content (built.rules.flatMap Rule.lexemes) =
      Scope.content scope ++ Lexeme.content (tokens.map Token.toLexeme) := by
  induction tokens using Clauses.induction_on generalizing scope built with
  | tail tokens final hdepth =>
      obtain ⟨rfl, htrivia, rfl⟩ := (buildTokens_tail_eq_ok hdepth).1 h
      simp [Built.empty, Scope.content, Token.content_of_trivia htrivia hcomment]
  | ended body t rest final ending hbody ht ih =>
      obtain ⟨next, given, later, hstep, hlater, rfl⟩ := (buildTokens_step_eq_ok hbody ht).1 h
      obtain ⟨hgiven, hrest⟩ := List.append_eq_nil_iff.1 hwarnings
      obtain ⟨hnext, hprintable, hcontent⟩ := step_lossless hlexed
        (fun u hu => hcomment u (by simp [hu])) hbody ht hscope hstep hgiven
      obtain ⟨hprintableRest, hcontentRest⟩ := ih hlexed.after (fun u hu => hcomment u (by simp [hu]))
        hnext hlater hrest
      refine ⟨fun r hr => ?_, ?_⟩
      · exact (List.mem_append.1 hr).elim (hprintable r) (hprintableRest r)
      · have hlist : (body ++ t :: rest).map Token.toLexeme =
            (body ++ [t]).map Token.toLexeme ++ rest.map Token.toLexeme := by
          simp
        rw [hlist, Lexeme.content_append, ← List.append_assoc, hcontent, List.append_assoc,
          ← hcontentRest, Built.append_rules, List.flatMap_append, Lexeme.content_append]

/-- A text that is read without warnings has the tokens of the sheet that is read from it. -/
theorem content_print {s : List Char} {built : Built}
    (hcomment : ∀ l ∈ Lexeme.split s, l.kind ≠ .comment)
    (h : ofTokens (Token.ofText s) = .ok built) (hwarnings : built.warnings = []) :
    Lexeme.content (Lexeme.split (print built.rules false).toList) =
      Lexeme.content (Lexeme.split s) := by
  have hlexemes := Token.place_map_toLexeme .start (Lexeme.split s)
  have htokens : ∀ t ∈ Token.ofText s, t.kind ≠ .comment := by
    intro t ht
    refine hcomment t.toLexeme ?_
    rw [← hlexemes]
    exact List.mem_map_of_mem ht
  have hscope : Scope.Kept .outside := trivial
  obtain ⟨hprintable, hcontent⟩ :=
    buildTokens_lossless (Token.lexed_ofText s) htokens hscope h hwarnings
  rw [split_print hprintable, hcontent, Token.ofText, hlexemes]
  rfl

/-- Strings and parentheses keep their braces, colons and semicolons, and a parenthesis that closes
nothing stays. -/
theorem content_print_nested :
    let s := "a>b \x7bc:d(e;\"\x7d\") )\n;; f(g:h) : i\x7d\np\x7b\x7d".toList
    let built : Built :=
      ⟨[⟨"a>b", [.classified "c" "d(e;\"\x7d\") )" ⟨1, 6⟩, .classified "f(g:h)" "i" ⟨2, 4⟩], ⟨1, 1⟩⟩,
        ⟨"p", [], ⟨3, 1⟩⟩], []⟩
    (∀ l ∈ Lexeme.split s, l.kind ≠ .comment) ∧ ofTokens (Token.ofText s) = .ok built ∧
      Lexeme.content (Lexeme.split (print built.rules false).toList) =
        Lexeme.content (Lexeme.split s) := by
  intro s built
  have hcomment : ∀ l ∈ Lexeme.split s, l.kind ≠ .comment := by decide +kernel
  have hread : ofTokens (Token.ofText s) = .ok built := by decide +kernel
  exact ⟨hcomment, hread, content_print hcomment hread rfl⟩

end Sheet

end RichStyle
