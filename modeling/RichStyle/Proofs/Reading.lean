import RichStyle.Proofs.Printing

/-!
# Reading a printed sheet

What the clauses of a printed sheet do, one after the other: a selector opens a rule, a declaration
extends it, a closing brace ends it.  Together they give back the sheet that was printed, classified
anew.
-/

namespace RichStyle

open Text
open Lexeme (kinds Tidy)

namespace Declaration

/-- The declaration without its place. -/
def placeless (d : Declaration) : Declaration :=
  { d with span := .unknown }

/-- The declaration with its property classified anew. -/
def reclassified (d : Declaration) : Declaration :=
  classified d.property d.value d.span

end Declaration

namespace Rule

/-- The rule without its places. -/
def placeless (r : Rule) : Rule :=
  ⟨r.selector, r.declarations.map Declaration.placeless, .unknown⟩

/-- The rule with its properties classified anew. -/
def reclassified (r : Rule) : Rule :=
  { r with declarations := r.declarations.map Declaration.reclassified }

end Rule

theorem Text.ofList_ne_empty {x : List Char} (h : x ≠ []) : String.ofList x ≠ "" := by
  intro hempty
  rw [← String.ofList_nil] at hempty
  exact h (String.ofList_injective hempty)

/-- Tidy lexemes, if there are any, have a text. -/
theorem Lexeme.Tidy.join_ne_nil {lexemes : List Lexeme} (h : Tidy lexemes) (hne : lexemes ≠ []) :
    join lexemes ≠ [] := by
  intro hnil
  obtain ⟨l, ls, rfl⟩ := List.exists_cons_of_ne_nil hne
  rw [join_cons] at hnil
  exact (h.segmented.whole l (by simp)).text_ne_nil (List.append_eq_nil_iff.1 hnil).1

namespace Sheet

/-- Reads the clauses of some tokens from a scope on. -/
def buildTokens (scope : Scope) (tokens : List Token) : Except Malformed Built :=
  build (Clauses.split 0 tokens).tail scope (Clauses.split 0 tokens).ended

theorem buildTokens_ended {depth : Nat} {body rest : List Token} {t : Token} {ending : Ending}
    (scope : Scope) (hbody : Kind.depthAfter? 0 (body.map (·.kind)) = some depth)
    (ht : Ending.of? depth t.kind = some ending) :
    buildTokens scope (body ++ t :: rest) =
      build (Clauses.split 0 rest).tail scope
        (⟨body, ending, t.span⟩ :: (Clauses.split 0 rest).ended) := by
  rw [buildTokens, Clauses.split_ended hbody ht]

/-! ## One clause at a time -/

theorem buildTokens_end {tokens : List Token} (h : ∀ t ∈ tokens, t.kind = .blank) :
    buildTokens .outside tokens = .ok .empty := by
  have hdepth : Kind.depthAfter? 0 (tokens.map (·.kind)) = some 0 :=
    Kind.depthAfter?_blanks (by simpa using h) 0
  have hsolid : Token.firstSolid? tokens = none := by
    rw [Token.firstSolid?, List.find?_eq_none]
    intro t ht
    simp [Token.isTrivia, h t ht, Kind.isTrivia]
  rw [buildTokens, Clauses.split_tail hdepth]
  simp [build, hsolid]

theorem buildTokens_selector {lead selector : List Token} {gap t : Token} {depth : Nat}
    (rest : List Token) (hlead : ∀ u ∈ lead, u.kind = .blank) (hselector : Tidy (selector.map Token.toLexeme))
    (hne : selector ≠ []) (hdepth : Kind.depthAfter? 0 (selector.map (·.kind)) = some depth)
    (hgap : gap.kind = .blank) (ht : t.kind = .openBrace) :
    ∃ p, buildTokens .outside (lead ++ (selector ++ gap :: t :: rest)) =
      buildTokens (.inside ⟨String.ofList (Lexeme.join (selector.map Token.toLexeme)), [], p⟩)
        rest := by
  have hrender := Token.render_tidy [gap] hlead (by simpa using hgap) hselector
  have hbody : Kind.depthAfter? 0 ((lead ++ (selector ++ [gap])).map (·.kind)) = some depth := by
    have hblank : Kind.depthAfter? 0 (lead.map (·.kind)) = some 0 :=
      Kind.depthAfter?_blanks (by simpa using hlead) 0
    simp [Kind.depthAfter?_append, hblank, hdepth, hgap, Kind.depthAfter?, Ending.of?,
      Kind.parenDepth]
  have hend : Ending.of? depth t.kind = some .openBrace := by
    rw [ht]
    rfl
  have hlist : lead ++ (selector ++ gap :: t :: rest) = lead ++ (selector ++ [gap]) ++ t :: rest := by
    simp
  have htext := Text.ofList_ne_empty (hselector.join_ne_nil (by simpa using hne))
  refine ⟨(Clause.mk (lead ++ (selector ++ [gap])) .openBrace t.span).start, ?_⟩
  rw [hlist, buildTokens_ended .outside hbody hend, build, hrender]
  simp [htext, buildTokens]

/-- Tokens with a colon have a first token that means something. -/
theorem firstSolid?_colon (before after : List Token) {t : Token} (ht : t.kind = .colon) :
    ∃ first, Token.firstSolid? (before ++ t :: after) = some first := by
  rw [← Option.isSome_iff_exists, Token.firstSolid?, List.find?_isSome]
  exact ⟨t, by simp, by simp [Token.isTrivia, ht, Kind.isTrivia]⟩

theorem extendRule_colon {before : List Token} {t : Token} (rule : Rule) (after : List Token)
    (ht : t.kind = .colon) (hhide : Kind.hidesColons 0 (before.map (·.kind)) = true)
    (hdepth : (before.map (·.kind)).foldl Kind.parenDepth 0 = 0)
    (hne : Token.render before ≠ "") :
    ∃ p, extendRule rule (before ++ t :: after) =
      ({ rule with declarations := rule.declarations ++
        [Declaration.classified (Token.render before) (Token.render after) p] }, []) := by
  obtain ⟨first, hfirst⟩ := firstSolid?_colon before after ht
  refine ⟨first.span, ?_⟩
  have hcut := Declaration.cutColon?_append after ht hhide hdepth
  have hdecl : Declaration.ofTokens? (before ++ t :: after) first.span =
      some (.classified (Token.render before) (Token.render after) first.span) := by
    simp [Declaration.ofTokens?, hcut, hne]
  simp [extendRule, clauseContent, hfirst, hdecl]

theorem Built.withWarnings_nil (b : Built) : b.withWarnings [] = b := rfl

/-- A declaration that ends with a semicolon extends its rule. -/
theorem buildTokens_declaration {before after : List Token} {t mark : Token} (rule : Rule)
    (rest : List Token)
    (ht : t.kind = .colon) (hbefore : Kind.depthAfter? 0 (before.map (·.kind)) = some 0)
    (hhide : Kind.hidesColons 0 (before.map (·.kind)) = true)
    (hne : Token.render before ≠ "")
    (hafter : Kind.depthAfter? 0 (after.map (·.kind)) = some 0) (hmark : mark.kind = .semicolon) :
    ∃ p, buildTokens (.inside rule) (before ++ t :: (after ++ mark :: rest)) =
      buildTokens (.inside { rule with declarations := rule.declarations ++
        [Declaration.classified (Token.render before) (Token.render after) p] }) rest := by
  obtain ⟨p, hextend⟩ := extendRule_colon rule after ht hhide
    (Kind.depthAfter?_eq_foldl hbefore) hne
  have hbody : Kind.depthAfter? 0 ((before ++ t :: after).map (·.kind)) = some 0 := by
    simp [Kind.depthAfter?_append, hbefore, Kind.depthAfter?, ht, Ending.of?, Kind.parenDepth,
      hafter]
  have hend : Ending.of? 0 mark.kind = some .semicolon := by
    rw [hmark]
    rfl
  have hlist : before ++ t :: (after ++ mark :: rest) = before ++ t :: after ++ mark :: rest := by
    simp
  refine ⟨p, ?_⟩
  rw [hlist, buildTokens_ended (.inside rule) hbody hend, build]
  simp only [hextend, Built.withWarnings_nil]
  exact bind_pure _

theorem buildTokens_close {mark : Token} (rule : Rule) (lead rest : List Token)
    (hlead : ∀ u ∈ lead, u.kind = .blank) (hmark : mark.kind = .closeBrace) :
    buildTokens (.inside rule) (lead ++ mark :: rest) =
      (buildTokens .outside rest).map (Built.withRule rule) := by
  have hbody : Kind.depthAfter? 0 (lead.map (·.kind)) = some 0 :=
    Kind.depthAfter?_blanks (by simpa using hlead) 0
  have hend : Ending.of? 0 mark.kind = some .closeBrace := by
    rw [hmark]
    rfl
  have hsolid : Token.firstSolid? lead = none := by
    rw [Token.firstSolid?, List.find?_eq_none]
    intro u hu
    simp [Token.isTrivia, hlead u hu, Kind.isTrivia]
  have hextend : extendRule rule lead = (rule, []) := by
    simp [extendRule, clauseContent, hsolid]
  rw [buildTokens_ended (.inside rule) hbody hend, build, buildTokens]
  simp only [hextend, Built.withWarnings_nil]
  cases build (Clauses.split 0 rest).tail .outside (Clauses.split 0 rest).ended <;> rfl

/-! ## One declaration, one rule, one sheet -/

theorem map_kind_eq {tokens : List Token} {s : List Char}
    (h : tokens.map Token.toLexeme = Lexeme.split s) : tokens.map (·.kind) = kinds s := by
  rw [kinds, ← h, List.map_map]
  rfl

theorem render_piece {tokens : List Token} {text : String} (lead : List Token)
    (hlead : ∀ t ∈ lead, t.kind = .blank) (htext : Tidy (Lexeme.split text.toList))
    (h : tokens.map Token.toLexeme = Lexeme.split text.toList) :
    Token.render (lead ++ tokens) = text := by
  have hrender := Token.render_tidy [] hlead (by simp) (h ▸ htext)
  rwa [List.append_nil, h, Lexeme.join_split, String.ofList_toList] at hrender

/-- The tokens of a printed declaration, cut at its colon and after its value. -/
theorem exists_declaration_tokens {d : Declaration} {tokens : List Token} {more : List Lexeme}
    (hd : d.Printable) (h : tokens.map Token.toLexeme = d.lexemes ++ more) :
    ∃ before colon gap after mark rest,
      tokens = before ++ colon :: (gap :: after ++ mark :: rest) ∧
      Token.render before = d.property ∧
      Kind.depthAfter? 0 (before.map (·.kind)) = some 0 ∧
      Kind.hidesColons 0 (before.map (·.kind)) = true ∧ colon.kind = .colon ∧
      gap.kind = .blank ∧ after.map Token.toLexeme = Lexeme.split d.value.toList ∧
      mark.toLexeme = ⟨.semicolon, [';']⟩ ∧ rest.map Token.toLexeme = more := by
  simp only [Declaration.lexemes, List.cons_append, List.append_assoc, List.nil_append] at h
  obtain ⟨lead, tokens, rfl, hlead, h⟩ := List.map_eq_cons_iff.1 h
  obtain ⟨before, tokens, rfl, hbefore, h⟩ := List.map_eq_append_iff.1 h
  obtain ⟨colon, tokens, rfl, hcolon, h⟩ := List.map_eq_cons_iff.1 h
  obtain ⟨gap, tokens, rfl, hgap, h⟩ := List.map_eq_cons_iff.1 h
  obtain ⟨after, tokens, rfl, hafter, h⟩ := List.map_eq_append_iff.1 h
  obtain ⟨mark, rest, rfl, hmark, hrest⟩ := List.map_eq_cons_iff.1 h
  have hblank : lead.kind = .blank := congrArg Lexeme.kind hlead
  refine ⟨lead :: before, colon, gap, after, mark, rest, rfl, ?_, ?_, ?_,
    congrArg Lexeme.kind hcolon, congrArg Lexeme.kind hgap, hafter, hmark, hrest⟩
  · exact render_piece [lead] (by simpa using hblank) hd.property hbefore
  · simpa [hblank, map_kind_eq hbefore] using hd.property_closed
  · simpa [hblank, map_kind_eq hbefore] using hd.property_colons

theorem buildTokens_printed_declaration {d : Declaration} {tokens : List Token}
    {more : List Lexeme} (rule : Rule) (hd : d.Printable) (hclosed : d.Closed)
    (h : tokens.map Token.toLexeme = d.lexemes ++ more) :
    ∃ p rest, rest.map Token.toLexeme = more ∧
      buildTokens (.inside rule) tokens = buildTokens (.inside { rule with
        declarations := rule.declarations ++ [Declaration.classified d.property d.value p] })
        rest := by
  obtain ⟨before, colon, gap, after, mark, rest, rfl, hproperty, hdepth, hhide, hcolon, hgap,
    hafter, hmark, hrest⟩ := exists_declaration_tokens hd h
  have hvalue := render_piece [gap] (by simpa using hgap) (hd.value.tidy hclosed.unpadded) hafter
  have hend : Kind.depthAfter? 0 ((gap :: after).map (·.kind)) = some 0 := by
    simpa [hgap, map_kind_eq hafter] using hclosed.depth
  have hne : Token.render before ≠ "" := hproperty ▸ hd.property_ne_empty
  obtain ⟨p, hbuild⟩ := buildTokens_declaration rule rest hcolon hdepth hhide hne hend
    (congrArg Lexeme.kind hmark)
  rw [hproperty, show Token.render (gap :: after) = d.value from hvalue] at hbuild
  exact ⟨p, rest, hrest, hbuild⟩

/-- The declarations of a printed rule extend the rule by themselves, at places of their own. -/
theorem buildTokens_declarations {ds : List Declaration} {tokens : List Token}
    {more : List Lexeme} (rule : Rule) (hds : ∀ d ∈ ds, d.Printable) (hclosed : ∀ d ∈ ds, d.Closed)
    (h : tokens.map Token.toLexeme = ds.flatMap Declaration.lexemes ++ more) :
    ∃ es rest, rest.map Token.toLexeme = more ∧
      es.map Declaration.placeless = ds.map (fun d => d.reclassified.placeless) ∧
      buildTokens (.inside rule) tokens =
        buildTokens (.inside { rule with declarations := rule.declarations ++ es }) rest := by
  induction ds generalizing tokens rule with
  | nil => exact ⟨[], tokens, h, by simp, by simp⟩
  | cons d ds ih =>
      rw [List.flatMap_cons, List.append_assoc] at h
      obtain ⟨p, tokens', htokens, hstep⟩ :=
        buildTokens_printed_declaration rule (hds d (by simp)) (hclosed d (by simp)) h
      obtain ⟨es, rest, hrest, hes, hrun⟩ :=
        ih _ (fun e he => hds e (by simp [he])) (fun e he => hclosed e (by simp [he])) htokens
      refine ⟨.classified d.property d.value p :: es, rest, hrest, ?_, ?_⟩
      · have hd : (Declaration.classified d.property d.value p).placeless =
            d.reclassified.placeless := by
          simp only [Declaration.placeless, Declaration.reclassified, Declaration.classified]
        rw [List.map_cons, List.map_cons, hes, hd]
      · rw [hstep, hrun]
        simp

/-- A printed selector, with the brace after it, opens its rule. -/
theorem buildTokens_printed_selector {r : Rule} {lead tokens : List Token} {more : List Lexeme}
    (hr : r.Printable) (hlead : ∀ t ∈ lead, t.kind = .blank)
    (h : tokens.map Token.toLexeme = Lexeme.split r.selector.toList ++
      ⟨.blank, [' ']⟩ :: ⟨.openBrace, ['{']⟩ :: more) :
    ∃ p rest, rest.map Token.toLexeme = more ∧
      buildTokens .outside (lead ++ tokens) =
        buildTokens (.inside ⟨r.selector, [], p⟩) rest := by
  obtain ⟨selector, tokens, rfl, hselector, h⟩ := List.map_eq_append_iff.1 h
  obtain ⟨gap, tokens, rfl, hgap, h⟩ := List.map_eq_cons_iff.1 h
  obtain ⟨mark, rest, rfl, hmark, hrest⟩ := List.map_eq_cons_iff.1 h
  obtain ⟨depth, hdepth⟩ := hr.selector_open
  have hne : selector ≠ [] := by
    rintro rfl
    exact hr.split_ne_nil hselector.symm
  obtain ⟨p, hbuild⟩ := buildTokens_selector rest hlead
    (by simpa [hselector] using hr.selector) hne (by rwa [map_kind_eq hselector])
    (congrArg Lexeme.kind hgap) (congrArg Lexeme.kind hmark)
  rw [hselector, Lexeme.join_split, String.ofList_toList] at hbuild
  exact ⟨p, rest, hrest, hbuild⟩

/-- A printed rule, after blanks, is read back and leaves a blank. -/
theorem buildTokens_rule {r : Rule} {lead tokens : List Token} {more : List Lexeme}
    (hr : r.Printable) (hclosed : ∀ d ∈ r.declarations, d.Closed)
    (hlead : ∀ t ∈ lead, t.kind = .blank)
    (h : tokens.map Token.toLexeme = r.lexemes ++ more) :
    ∃ q gap rest, q.placeless = r.reclassified.placeless ∧ gap.kind = .blank ∧
      rest.map Token.toLexeme = more ∧
      buildTokens .outside (lead ++ tokens) =
        (buildTokens .outside (gap :: rest)).map (Built.withRule q) := by
  simp only [Rule.lexemes, List.cons_append, List.append_assoc, List.nil_append] at h
  obtain ⟨p, tokens, htokens, hopen⟩ := buildTokens_printed_selector hr hlead h
  obtain ⟨es, tokens, htokens, hes, hrun⟩ :=
    buildTokens_declarations ⟨r.selector, [], p⟩ hr.declarations hclosed htokens
  obtain ⟨line, tokens, rfl, hline, htokens⟩ := List.map_eq_cons_iff.1 htokens
  obtain ⟨mark, tokens, rfl, hmark, htokens⟩ := List.map_eq_cons_iff.1 htokens
  obtain ⟨gap, rest, rfl, hgap, hrest⟩ := List.map_eq_cons_iff.1 htokens
  have hclose := buildTokens_close ⟨r.selector, es, p⟩ [line] (gap :: rest)
    (by simpa using congrArg Lexeme.kind hline) (congrArg Lexeme.kind hmark)
  refine ⟨⟨r.selector, es, p⟩, gap, rest, ?_, congrArg Lexeme.kind hgap, hrest, ?_⟩
  · simp [Rule.placeless, Rule.reclassified, hes]
  · rw [hopen, hrun]
    exact hclose

/-- Printed rules are read back one after the other. -/
theorem buildTokens_rules {rules : List Rule} {lead tokens : List Token} {more : List Lexeme}
    (hrules : ∀ r ∈ rules, r.Printable) (hclosed : ∀ r ∈ rules, ∀ d ∈ r.declarations, d.Closed)
    (hlead : ∀ t ∈ lead, t.kind = .blank)
    (h : tokens.map Token.toLexeme = rules.flatMap Rule.lexemes ++ more) :
    ∃ qs gaps rest, qs.map Rule.placeless = rules.map (fun r => r.reclassified.placeless) ∧
      (∀ t ∈ gaps, t.kind = .blank) ∧ rest.map Token.toLexeme = more ∧
      buildTokens .outside (lead ++ tokens) = (buildTokens .outside (gaps ++ rest)).map
        fun b => { b with rules := qs ++ b.rules } := by
  induction rules generalizing lead tokens with
  | nil =>
      refine ⟨[], lead, tokens, by simp, hlead, h, ?_⟩
      cases buildTokens .outside (lead ++ tokens) <;> rfl
  | cons r rules ih =>
      rw [List.flatMap_cons, List.append_assoc] at h
      obtain ⟨q, gap, tokens, hq, hgap, htokens, hstep⟩ :=
        buildTokens_rule (hrules r (by simp)) (hclosed r (by simp)) hlead h
      have hblank : ∀ t ∈ [gap], t.kind = .blank := by simpa using hgap
      obtain ⟨qs, gaps, rest, hqs, hgaps, hrest, hrun⟩ := ih (fun p hp => hrules p (by simp [hp]))
        (fun p hp => hclosed p (by simp [hp])) hblank htokens
      refine ⟨q :: qs, gaps, rest, by simp [hq, hqs], hgaps, hrest, ?_⟩
      rw [hstep, show gap :: tokens = [gap] ++ tokens from rfl, hrun]
      cases buildTokens .outside (gaps ++ rest) <;> rfl

/-- A printed sheet, after blanks, is read back. -/
theorem buildTokens_print {rules : List Rule} {lead tokens : List Token}
    (hrules : ∀ r ∈ rules, r.Printable) (hclosed : ∀ r ∈ rules, ∀ d ∈ r.declarations, d.Closed)
    (hlead : ∀ t ∈ lead, t.kind = .blank)
    (h : tokens.map Token.toLexeme = rules.flatMap Rule.lexemes) :
    ∃ qs, qs.map Rule.placeless = rules.map (fun r => r.reclassified.placeless) ∧
      buildTokens .outside (lead ++ tokens) = .ok ⟨qs, []⟩ := by
  rw [← List.append_nil (rules.flatMap Rule.lexemes)] at h
  obtain ⟨qs, gaps, rest, hqs, hgaps, hrest, hrun⟩ := buildTokens_rules hrules hclosed hlead h
  obtain rfl : rest = [] := List.map_eq_nil_iff.1 hrest
  refine ⟨qs, hqs, ?_⟩
  rw [hrun, List.append_nil, buildTokens_end hgaps]
  simp [Except.map, Built.empty]

/-- What is left of the banner are its line feeds. -/
theorem prepare_print {rules : List Rule} (withBanner : Bool)
    (h : Source.Inert (print rules false).toList) :
    Source.prepare (print rules withBanner).toList =
      .ok ⟨(if withBanner then ['\n', '\n'] else []) ++ (print rules false).toList, []⟩ := by
  cases withBanner with
  | false => exact Source.prepare_of_inert h
  | true =>
      have hcomment := Source.prepare_comment " Generated by csspp - do not edit */".toList
        h.newline.newline (by decide)
      have hprint : (print rules true).toList = '/' :: '*' ::
          (" Generated by csspp - do not edit */".toList ++
            '\n' :: '\n' :: (print rules false).toList) := by
        simp [print, banner]
      rw [hprint, hcomment]
      rfl

/-- The tokens of a printed sheet are those of its rules, perhaps after a blank. -/
theorem exists_print_tokens {rules : List Rule} (withBanner : Bool)
    (hrules : ∀ r ∈ rules, r.Printable) (h : Source.Inert (print rules false).toList) :
    ∃ lead tokens, (∀ t ∈ lead, t.kind = .blank) ∧
      tokens.map Token.toLexeme = rules.flatMap Rule.lexemes ∧
      read (print rules withBanner).toList =
        (buildTokens .outside (lead ++ tokens)).map fun b => ⟨⟨b.rules, []⟩, b.warnings⟩ := by
  have hread : ∀ text, Source.prepare (print rules withBanner).toList = .ok ⟨text, []⟩ →
      read (print rules withBanner).toList =
        (buildTokens .outside (Token.ofText text)).map fun b => ⟨⟨b.rules, []⟩, b.warnings⟩ := by
    intro text htext
    rw [read, htext]
    change (buildTokens .outside (Token.ofText text) >>= _) = _
    cases buildTokens .outside (Token.ofText text) <;> rfl
  have hplace : ∀ text, (Token.ofText text).map Token.toLexeme = Lexeme.split text :=
    fun text => Token.place_map_toLexeme .start _
  cases withBanner with
  | false =>
      refine ⟨[], Token.ofText (print rules false).toList, by simp, ?_, ?_⟩
      · rw [hplace, split_print hrules]
      · exact hread _ (prepare_print false h)
  | true =>
      have hfeeds := (hplace ('\n' :: '\n' :: (print rules false).toList)).trans
        (split_feeds hrules)
      obtain ⟨lead, tokens, htokens, hlead, hmap⟩ := List.map_eq_cons_iff.1 hfeeds
      refine ⟨[lead], tokens, by simpa using congrArg Lexeme.kind hlead, hmap, ?_⟩
      rw [hread _ (prepare_print true h)]
      exact congrArg (Except.map _ <| buildTokens .outside ·) htokens

/-- Reading a printed sheet gives the sheet, its properties classified anew. -/
theorem read_print {rules : List Rule} (withBanner : Bool) (hrules : ∀ r ∈ rules, r.Printable)
    (hclosed : ∀ r ∈ rules, ∀ d ∈ r.declarations, d.Closed)
    (h : Source.Inert (print rules false).toList) :
    ∃ qs, qs.map Rule.placeless = rules.map (fun r => r.reclassified.placeless) ∧
      read (print rules withBanner).toList = .ok ⟨⟨qs, []⟩, []⟩ := by
  obtain ⟨lead, tokens, hlead, htokens, hread⟩ := exists_print_tokens withBanner hrules h
  obtain ⟨qs, hqs, hbuild⟩ := buildTokens_print hrules hclosed hlead htokens
  exact ⟨qs, hqs, by rw [hread, hbuild]; rfl⟩

end Sheet

end RichStyle
