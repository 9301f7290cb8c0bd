import RichStyle.Proofs.Reading
import RichStyle.Proofs.Written

/-!
# Reading printed values again

Written rules are printed in pieces that can be told apart, if no comment opens in the text.  Such a
text is read back up to the first value that does not end where its semicolon was printed: the value
that is read there is shorter or longer than the one that was printed.
-/

namespace RichStyle

open Text
open Source (Absent startsBlank absent_cons_iff absent_quote_iff)
open Lexeme (kinds Neat)

/-! ## Pieces of an inert text -/

theorem Text.startsComment_append {s : List Char} (t : List Char) (h : startsComment s = true) :
    startsComment (s ++ t) = true := by
  obtain ⟨r, rfl⟩ := Lexeme.startsComment_iff.1 h
  rfl

namespace Orderly

variable {marks : List Kind} {s t : List Char}

/-- Where no comment opens in a text, none opens in an orderly part of it and in the rest. -/
theorem absent_append (h : Orderly marks s) (habsent : Absent startsComment (s ++ t)) :
    Absent startsComment s ∧ Absent startsComment t := by
  have hcons {c : Char} {s : List Char} (hc : isQuote c = false)
      (ih : Absent startsComment (s ++ t) → Absent startsComment s ∧ Absent startsComment t)
      (h : Absent startsComment (c :: (s ++ t))) :
      Absent startsComment (c :: s) ∧ Absent startsComment t := by
    obtain ⟨hhere, hrest⟩ := (absent_cons_iff hc).1 h
    obtain ⟨hs, ht⟩ := ih hrest
    refine ⟨(absent_cons_iff hc).2 ⟨?_, hs⟩, ht⟩
    rw [Bool.eq_false_iff] at hhere ⊢
    exact fun hstart => hhere (startsComment_append t hstart)
  induction h with
  | nil => exact ⟨Source.absent_nil, habsent⟩
  | mark hk hopen hclose hs ih =>
      exact hcons (Lexeme.not_quote_of_punctuation (Lexeme.isPunctuation_of_kind hk)) ih habsent
  | plain hc hs ih =>
      simp only [isDelimiter, Bool.or_eq_false_iff] at hc
      exact hcons hc.1.2 ih habsent
  | space hb hs ih => exact hcons rfl ih habsent
  | @quoted q u marks s hq hu hs ih =>
      rw [List.cons_append, List.append_assoc, absent_quote_iff hq,
        quotedRun_of_closes _ hq hu] at habsent
      rw [absent_quote_iff hq, quotedRun_of_closes _ hq hu]
      exact ih habsent

theorem kinds_filter (h : Orderly marks s) (habsent : Absent startsComment s) :
    (kinds s).filter Kind.isMark = marks :=
  (h.split habsent).2

theorem depthAfter?_kinds (h : Orderly marks s) (habsent : Absent startsComment s) :
    Kind.depthAfter? 0 (kinds s) = Kind.depthAfter? 0 marks := by
  rw [← Kind.depthAfter?_filter, h.kinds_filter habsent]

end Orderly

theorem Declaration.Written.printable {d : Declaration} (h : d.Written)
    (hproperty : Absent startsComment d.property.toList)
    (hvalue : Absent startsComment d.value.toList) : d.Printable := by
  obtain ⟨marks, hmarks, hdepth, hcolons⟩ := h.property
  obtain ⟨more, hmore⟩ := h.value
  have hneat := hmarks.neat hproperty h.property_unpadded.start
  refine ⟨hneat.tidy h.property_unpadded, by simpa using h.property_ne, ?_, ?_,
    hmore.neat hvalue h.value_start⟩
  · rw [hmarks.depthAfter?_kinds hproperty, hdepth]
  · rw [← Kind.hidesColons_filter, hmarks.kinds_filter hproperty, hcolons]

namespace Sheet

theorem printable_declarations {ds : List Declaration} {rest : List Char}
    (hds : ∀ d ∈ ds, d.Written)
    (h : Absent startsComment ((String.join (ds.map printDeclaration)).toList ++ rest)) :
    (∀ d ∈ ds, d.Printable) ∧ Absent startsComment rest := by
  induction ds with
  | nil => exact ⟨by simp, by simpa using h⟩
  | cons d ds ih =>
      have hd := hds d (by simp)
      obtain ⟨marks, hmarks, -⟩ := hd.property
      obtain ⟨more, hmore⟩ := hd.value
      have htext : Absent startsComment ("  ".toList ++ (d.property.toList ++ (": ".toList ++
          (d.value.toList ++ (";\n".toList ++
            ((String.join (ds.map printDeclaration)).toList ++ rest)))))) := by
        simpa [printDeclaration, String.toList_join] using h
      obtain ⟨hproperty, htext⟩ := hmarks.absent_append (htext.of_append (by simp [isQuote]))
      obtain ⟨hvalue, htext⟩ := hmore.absent_append (htext.of_append (by simp [isQuote]))
      obtain ⟨hprintable, hrest⟩ := ih (fun e he => hds e (by simp [he]))
        (htext.of_append (by simp [isQuote]))
      exact ⟨List.forall_mem_cons.2 ⟨hd.printable hproperty hvalue, hprintable⟩, hrest⟩

/-- Written rules are printable if no comment opens where they are printed. -/
theorem printable_of_written {rules : List Rule} (hrules : ∀ r ∈ rules, r.Written)
    (h : Absent startsComment (print rules false).toList) : ∀ r ∈ rules, r.Printable := by
  induction rules with
  | nil => simp
  | cons r rules ih =>
      have hr := hrules r (by simp)
      obtain ⟨marks, hmarks, depth, hdepth⟩ := hr.selector
      have htext : Absent startsComment (r.selector.toList ++ (" \x7b\n".toList ++
          ((String.join (r.declarations.map printDeclaration)).toList ++ ("\x7d\n\n".toList ++
            (print rules false).toList)))) := by
        simpa [print, printRule, String.toList_join] using h
      obtain ⟨hselector, htext⟩ := hmarks.absent_append htext
      obtain ⟨hds, htext⟩ := printable_declarations hr.declarations
        (htext.of_append (by simp [isQuote]))
      have hneat := hmarks.neat hselector hr.selector_unpadded.start
      refine List.forall_mem_cons.2 ⟨⟨hneat.tidy hr.selector_unpadded, by simpa using hr.selector_ne,
        ⟨depth, ?_⟩, hds⟩, ?_⟩
      · rw [hmarks.depthAfter?_kinds hselector, hdepth]
      · exact ih (fun q hq => hrules q (by simp [hq])) (htext.of_append (by simp [isQuote]))

end Sheet

/-! ## A value that does not end at its semicolon -/

/-- In front of a semicolon, trimming shows. -/
theorem Text.trimEnd_semicolon {x a b : List Char} (h : trimEnd x ++ ';' :: a = x ++ ';' :: b) :
    trimEnd x = x ∧ a = b := by
  obtain ⟨blanks, hx, hblanks⟩ := exists_trimEnd x
  cases blanks with
  | nil =>
      rw [List.append_nil] at hx
      rw [← hx] at h
      exact ⟨hx.symm, by simpa using h⟩
  | cons c blanks =>
      have hc := hblanks c (by simp)
      have htail : trimEnd x ++ ';' :: a = trimEnd x ++ ((c :: blanks) ++ ';' :: b) := by
        rw [h, ← List.append_assoc, ← hx]
      have hsemicolon := (List.cons.inj (List.append_cancel_left htail)).1
      rw [← hsemicolon] at hc
      contradiction

theorem Text.trimEnd_append_semicolon (x z : List Char) :
    trimEnd (x ++ ';' :: z) = x ++ ';' :: trimEnd z := by
  obtain ⟨blanks, hz, hblanks⟩ := exists_trimEnd z
  have htext : x ++ ';' :: z = (x ++ ';' :: trimEnd z) ++ blanks := by
    conv_lhs => rw [hz]
    simp
  rw [htext, trimEnd_append ?_ hblanks]
  intro c hc
  have hlast : c = ';' ∨ c ∈ (trimEnd z).getLast? := by
    cases hz : (trimEnd z).getLast? with
    | none =>
        rw [List.getLast?_append, List.getLast?_cons, hz] at hc
        exact .inl (by simpa using hc.symm)
    | some d =>
        rw [List.getLast?_append, List.getLast?_cons, hz] at hc
        exact .inr (by simpa using hc)
  rcases hlast with rfl | hlast
  · decide
  · exact getLast_trimEnd z c hlast

/-- A lexeme that starts with a line feed is a blank. -/
theorem Lexeme.blank_of_newline {l : Lexeme} {s : List Char} (hl : Whole l)
    (h : l.text = '\n' :: s) : l.kind = .blank := by
  by_contra hkind
  have hstop := hl.stopsBlank hkind []
  rw [h] at hstop
  simp at hstop

namespace Sheet

variable {v u w : List Char} {gap mark t : Token} {after rest body : List Token}

/-- The value is read up to a semicolon inside it: a line feed would have to follow there. -/
theorem not_reread_shorter (hgap : gap.kind = .blank) (hv : Neat (Lexeme.split v))
    (hafter : (body ++ t :: rest).map Token.toLexeme = Lexeme.split v) (ht : t.kind = .semicolon) :
    (Token.render (gap :: body)).toList ++ ';' :: '\n' :: u ≠ v ++ ';' :: '\n' :: w := by
  intro h
  have htext : v = Lexeme.join (body.map Token.toLexeme) ++ (t.text ++
      Lexeme.join (rest.map Token.toLexeme)) := by
    rw [← Lexeme.join_split v, ← hafter]
    simp
  rw [← hafter, List.map_append, List.map_cons] at hv
  have hmark : t.text = [';'] := (hv.segmented.whole t.toLexeme (by simp)).text_semicolon ht
  rw [Token.render_neat hgap hv.left, htext, hmark, List.append_assoc] at h
  obtain ⟨-, hfeed⟩ := trimEnd_semicolon h
  cases rest with
  | nil => simp at hfeed
  | cons l rest =>
      have hl : Lexeme.Whole l.toLexeme := hv.segmented.whole _ (by simp)
      obtain ⟨c, s, hs⟩ := List.exists_cons_of_ne_nil hl.text_ne_nil
      have hc : '\n' = c := by
        rw [List.map_cons, Lexeme.join_cons, hs] at hfeed
        exact (List.cons.inj hfeed).1
      rw [← hc] at hs
      have hspace := hv.spaced l.toLexeme (by simp) (Lexeme.blank_of_newline hl hs)
      rw [hs] at hspace
      simp at hspace

/-- The value is read past its semicolon: a space or a semicolon would follow there. -/
theorem not_reread_longer (hgap : gap.kind = .blank) (hv : Neat (Lexeme.split v))
    (hafter : after.map Token.toLexeme = Lexeme.split v)
    (hmark : mark.toLexeme = ⟨.semicolon, [';']⟩) (ht : t.kind = .blank) :
    (Token.render (gap :: (after ++ mark :: t :: rest))).toList ++ ';' :: '\n' :: u ≠
      v ++ ';' :: '\n' :: w := by
  intro h
  rw [← hafter] at hv
  obtain ⟨spaced, hjoin⟩ := Token.joinFrom_neat [gap] (by simpa using hgap) hv
    (mark :: t :: rest)
  have hmarked : Token.joinFrom spaced (mark :: t :: rest) =
      ';' :: ' ' :: Token.joinFrom true rest := by
    have hkind : mark.kind = .semicolon := congrArg Lexeme.kind hmark
    have htext : mark.text = [';'] := congrArg Lexeme.text hmark
    have hends : Token.endsSpaced spaced [';'] = false := rfl
    rw [Token.joinFrom_solid (by simp [hkind]) (by simp [hkind]), htext, hends,
      Token.joinFrom_blank ht]
    rfl
  rw [hafter, Lexeme.join_split, hmarked] at hjoin
  rw [Token.render, String.toList_ofList, ← List.singleton_append, hjoin,
    trimEnd_append_semicolon, List.append_assoc, List.cons_append] at h
  have hfeed := (List.cons.inj (List.append_cancel_left h)).2
  obtain ⟨blanks, hspace, -⟩ := exists_trimEnd (' ' :: Token.joinFrom true rest)
  cases htrim : trimEnd (' ' :: Token.joinFrom true rest) with
  | nil =>
      rw [htrim] at hfeed
      simp at hfeed
  | cons c s =>
      rw [htrim] at hfeed hspace
      have hnewline := (List.cons.inj hfeed).1
      have hblank := (List.cons.inj hspace).1
      rw [hnewline] at hblank
      simp at hblank

theorem unpadded_of_reread (hgap : gap.kind = .blank) (hv : Neat (Lexeme.split v))
    (hafter : after.map Token.toLexeme = Lexeme.split v) (hstart : startsBlank v = false)
    (h : (Token.render (gap :: after)).toList ++ ';' :: '\n' :: u = v ++ ';' :: '\n' :: w) :
    Unpadded v := by
  rw [Token.render_neat hgap (hafter ▸ hv), hafter, Lexeme.join_split] at h
  obtain ⟨htrim, -⟩ := trimEnd_semicolon h
  rw [← htrim]
  exact unpadded_trimEnd hstart

/-- A value that is read again as it was printed was read up to its own semicolon. -/
theorem closed_of_reread {d : Declaration} {final : Nat} {ending : Ending} {next : Token}
    {others : List Token} (hd : d.Printable) (hstart : startsBlank d.value.toList = false)
    (hgap : gap.kind = .blank) (hafter : after.map Token.toLexeme = Lexeme.split d.value.toList)
    (hmark : mark.toLexeme = ⟨.semicolon, [';']⟩) (hnext : next.kind = .blank)
    (hcut : gap :: (after ++ mark :: next :: rest) = body ++ t :: others)
    (hdepth : Kind.depthAfter? 0 (body.map (·.kind)) = some final)
    (hend : Ending.of? final t.kind = some ending)
    (h : (Token.render body).toList ++ ';' :: '\n' :: u = d.value.toList ++ ';' :: '\n' :: w) :
    d.Closed := by
  have hblank {s : Token} (hs : s.kind = .blank) : Ending.of? final s.kind ≠ some ending := by
    simp [hs, Ending.of?]
  obtain ⟨tokens, rfl⟩ : ∃ tokens, body = gap :: tokens := by
    cases body with
    | nil => exact absurd hend ((List.cons.inj hcut).1 ▸ hblank hgap)
    | cons first tokens => exact ⟨tokens, by rw [(List.cons.inj hcut).1]⟩
  have hkinds : Kind.depthAfter? 0 (tokens.map (·.kind)) = some final := by
    simpa [hgap] using hdepth
  have hclosed (htokens : tokens = after) (hlast : t = mark) : d.Closed := by
    subst htokens hlast
    refine ⟨?_, unpadded_of_reread hgap hd.value hafter hstart h⟩
    have hzero : final = 0 := by
      have hkind : t.kind = .semicolon := congrArg Lexeme.kind hmark
      by_contra hne
      simp [hkind, Ending.of?, hne] at hend
    rw [← map_kind_eq hafter, hkinds, hzero]
  -- the clause ends after the semicolon of the value, at it, or inside the value
  rcases List.append_eq_append_iff.1 (List.cons.inj hcut).2 with
    ⟨between, hbody, hrest⟩ | ⟨between, hbody, hrest⟩
  · cases between with
    | nil => exact hclosed (by simpa using hbody) (List.cons.inj hrest).1.symm
    | cons b between =>
        obtain ⟨rfl, hothers⟩ := List.cons.inj hrest
        cases between with
        | nil => exact absurd hend ((List.cons.inj hothers).1 ▸ hblank hnext)
        | cons c between =>
            obtain ⟨rfl, -⟩ := List.cons.inj hothers
            rw [hbody] at h
            exact absurd h (not_reread_longer hgap hd.value hafter hmark hnext)
  · cases between with
    | nil => exact hclosed (by simpa using hbody.symm) (List.cons.inj hrest).1
    | cons b between =>
        obtain ⟨rfl, -⟩ := List.cons.inj hrest
        rw [hbody] at hafter
        have hinner := hd.value.inner t.toLexeme (by simp [← hafter])
        have ht : t.kind = .semicolon := by
          cases hkind : t.kind <;> simp_all [Ending.of?]
        exact absurd h (not_reread_shorter hgap hd.value hafter ht)

/-! ## What a rule keeps while it is read -/

/-- The rule that is being read, if there is one. -/
def currentRule? : Scope → Option Rule
  | .outside => none
  | .inside rule | .nested rule _ => some rule

/-- The declarations that a rule has got so far are its first ones in the end. -/
theorem build_extends {tail : List Token} {scope : Scope} {cs : List Clause} {built : Built}
    {rule : Rule} (hscope : currentRule? scope = some rule)
    (h : build tail scope cs = .ok built) :
    ∃ more rules, built.rules =
      { rule with declarations := rule.declarations ++ more } :: rules := by
  fun_induction build tail scope cs generalizing rule built
  case case9 current c cs hend extended ih =>
    obtain rfl := Option.some.inj hscope
    obtain ⟨b, hb, hbuilt⟩ := except_bind_eq_ok.1 h
    obtain rfl := Except.ok.inj hbuilt
    obtain ⟨more, rules, hrules⟩ := ih rfl hb
    refine ⟨(clauseContent current.selector c.body).1 ++ more, rules, hrules.trans ?_⟩
    simp [extended, extendRule]
  case case10 current c cs hend extended ih =>
    obtain rfl := Option.some.inj hscope
    obtain ⟨b, hb, hbuilt⟩ := except_bind_eq_ok.1 h
    obtain rfl := Except.ok.inj hbuilt
    exact ⟨(clauseContent current.selector c.body).1, b.rules, rfl⟩
  case case11 current c cs hend finding ih =>
    obtain rfl := Option.some.inj hscope
    obtain ⟨b, hb, hbuilt⟩ := except_bind_eq_ok.1 h
    obtain rfl := Except.ok.inj hbuilt
    have hrules := ih rfl hb
    exact hrules
  case case12 ih | case13 ih | case14 ih | case15 ih =>
    obtain rfl := Option.some.inj hscope
    exact ih rfl h
  -- the remaining cases are outside all rules or faults
  all_goals contradiction

/-- A clause with a colon either extends its rule or brings a warning. -/
theorem exists_reread {before tokens : List Token} {colon : Token} {rule : Rule} {built : Built}
    (hcolon : colon.kind = .colon) (hbefore : Kind.depthAfter? 0 (before.map (·.kind)) = some 0)
    (hhide : Kind.hidesColons 0 (before.map (·.kind)) = true) (hne : Token.render before ≠ "")
    (h : buildTokens (.inside rule) (before ++ colon :: tokens) = .ok built)
    (hwarnings : built.warnings = []) :
    ∃ body t others final ending, tokens = body ++ t :: others ∧
      Kind.depthAfter? 0 (body.map (·.kind)) = some final ∧
      Ending.of? final t.kind = some ending ∧
      ∃ p more rules, built.rules = ⟨rule.selector, rule.declarations ++
        .classified (Token.render before) (Token.render body) p :: more, rule.span⟩ :: rules := by
  have hdepth (body : List Token) : Kind.depthAfter? 0 ((before ++ colon :: body).map (·.kind)) =
      Kind.depthAfter? 0 (body.map (·.kind)) := by
    simp [Kind.depthAfter?_append, hbefore, Kind.depthAfter?, hcolon, Ending.of?, Kind.parenDepth]
  rcases Clauses.exists_ended 0 tokens with ⟨final, htail⟩ | ⟨body, t, others, final, e, rfl, hbody, ht⟩
  · rw [← hdepth] at htail
    rw [buildTokens, Clauses.split_tail htail] at h
    contradiction
  · obtain ⟨p, hextend⟩ := extendRule_colon rule body hcolon hhide
      (Kind.depthAfter?_eq_foldl hbefore) hne
    refine ⟨body, t, others, final, e, rfl, hbody, ht, p, ?_⟩
    rw [← List.cons_append, ← List.append_assoc,
      buildTokens_ended (.inside rule) ((hdepth body).trans hbody) ht] at h
    cases e with
    | semicolon =>
        rw [build] at h
        simp only [hextend] at h
        obtain ⟨b, hb, hbuilt⟩ := except_bind_eq_ok.1 h
        obtain rfl := Except.ok.inj hbuilt
        obtain ⟨more, rules, hrules⟩ := build_extends rfl hb
        exact ⟨more, rules, hrules.trans (by simp)⟩
    | closeBrace =>
        rw [build] at h
        simp only [hextend] at h
        obtain ⟨b, hb, hbuilt⟩ := except_bind_eq_ok.1 h
        obtain rfl := Except.ok.inj hbuilt
        exact ⟨[], b.rules, rfl⟩
    | openBrace =>
        rw [build] at h
        obtain ⟨b, hb, hbuilt⟩ := except_bind_eq_ok.1 h
        obtain rfl := Except.ok.inj hbuilt
        simp [Built.withWarnings] at hwarnings

/-! ## The first value that may not end -/

/-- The lexemes up to a declaration, those of the declaration, a blank and the rest. -/
theorem lexemes_cut (before after : List Rule) (ds more : List Declaration) (selector : String)
    (place : Span) (d : Declaration) :
    ∃ next others, next.kind = Kind.blank ∧
      (before ++ ⟨selector, ds ++ d :: more, place⟩ :: after).flatMap Rule.lexemes =
        before.flatMap Rule.lexemes ++ (Lexeme.split selector.toList ++ ⟨.blank, [' ']⟩ ::
          ⟨.openBrace, ['{']⟩ :: (ds.flatMap Declaration.lexemes ++
            (d.lexemes ++ next :: others))) := by
  cases more with
  | nil =>
      refine ⟨⟨.blank, ['\n']⟩, ⟨.closeBrace, ['}']⟩ :: ⟨.blank, ['\n', '\n']⟩ ::
        after.flatMap Rule.lexemes, rfl, ?_⟩
      simp [Rule.lexemes]
  | cons e more =>
      refine ⟨⟨.blank, ['\n', ' ', ' ']⟩, e.lexemes.tail ++ (more.flatMap Declaration.lexemes ++
        ⟨.blank, ['\n']⟩ :: ⟨.closeBrace, ['}']⟩ :: ⟨.blank, ['\n', '\n']⟩ ::
        after.flatMap Rule.lexemes), rfl, ?_⟩
      simp [Rule.lexemes, Declaration.lexemes]

variable {before after rules : List Rule} {ds more : List Declaration} {selector : String}
  {place : Span} {d : Declaration} {withBanner : Bool}

/-- Up to a first declaration that need not be closed, a printed sheet is read back.  That
declaration gets the text of its clause for a value. -/
theorem exists_read_print {reading : Reading}
    (hrules : rules = before ++ ⟨selector, ds ++ d :: more, place⟩ :: after)
    (hprintable : ∀ r ∈ rules, r.Printable)
    (hinert : Source.Inert (print rules false).toList)
    (hbefore : ∀ r ∈ before, ∀ e ∈ r.declarations, e.Closed) (hds : ∀ e ∈ ds, e.Closed)
    (hstart : startsBlank d.value.toList = false)
    (h : read (print rules withBanner).toList = .ok reading) (hwarnings : reading.warnings = []) :
    ∃ qs es p q others rest, ∃ value : String,
      qs.map Rule.placeless = before.map (fun r => r.reclassified.placeless) ∧
      es.map Declaration.placeless = ds.map (fun e => e.reclassified.placeless) ∧
      reading.sheet.rules =
        qs ++ ⟨selector, es ++ .classified d.property value p :: others, q⟩ :: rest ∧
      ∀ u w, value.toList ++ ';' :: '\n' :: u = d.value.toList ++ ';' :: '\n' :: w → d.Closed := by
  obtain ⟨lead, tokens, hlead, htokens, hread⟩ := exists_print_tokens withBanner hprintable hinert
  obtain ⟨blank, lexemes, hblank, hlexemes⟩ := lexemes_cut before after ds more selector place d
  rw [hrules, hlexemes] at htokens
  have hr : Rule.Printable ⟨selector, ds ++ d :: more, place⟩ := hprintable _ (by simp [hrules])
  have hd : d.Printable := hr.declarations d (by simp)
  -- rules, selector and declarations in front are read back; the declaration is cut at its colon
  obtain ⟨qs, gaps, tokens, hqs, hgaps, htokens, hrun⟩ :=
    buildTokens_rules (fun r hr => hprintable r (by simp [hrules, hr])) hbefore hlead htokens
  obtain ⟨q, tokens, htokens, hselector⟩ := buildTokens_printed_selector hr hgaps htokens
  obtain ⟨es, tokens, htokens, hes, hextend⟩ := buildTokens_declarations ⟨selector, [], q⟩
    (fun e he => hr.declarations e (by simp [he])) hds htokens
  obtain ⟨front, colon, gap, back, mark, tokens, rfl, hproperty, hdepth, hhide, hcolon, hgap, hback,
    hmark, hrest⟩ := exists_declaration_tokens hd htokens
  obtain ⟨next, rest, rfl, hnext, -⟩ := List.map_eq_cons_iff.1 hrest
  rw [h, hrun, hselector, hextend] at hread
  cases hbuilt : buildTokens (.inside ⟨selector, [] ++ es, q⟩)
      (front ++ colon :: (gap :: back ++ mark :: next :: rest)) with
  | error e =>
      rw [hbuilt] at hread
      contradiction
  | ok built =>
      rw [hbuilt] at hread
      obtain rfl := Except.ok.inj hread
      have hne : Token.render front ≠ "" := hproperty ▸ hd.property_ne_empty
      obtain ⟨body, t, others, final, ending, hcut, hbody, ht, p, later, rules', hbuiltRules⟩ :=
        exists_reread hcolon hdepth hhide hne hbuilt hwarnings
      refine ⟨qs, es, p, q, later, rules', Token.render body, hqs, hes, ?_, fun u w htext => ?_⟩
      · rw [hproperty] at hbuiltRules
        exact congrArg (qs ++ ·) hbuiltRules
      · exact closed_of_reread hd hstart hgap hback hmark
          ((congrArg Lexeme.kind hnext).trans hblank) hcut hbody ht htext

end Sheet

end RichStyle
