import RichStyle.Proofs.Places
import RichStyle.Proofs.Themes

/-!
# Sources put together

Each stage of reading is followed across the seam of two texts.  Lines and comments of the second
text are found as in the second text alone, a blank at the end of the first text takes up the blanks at
the start of the second, and blanks and comments in front of the next rule change nothing.
-/

namespace RichStyle

open Text

/-! ## Lexemes -/

namespace Lexeme

theorem stopsAt_dropWhile (w t : List Char) : StopsAt ⟨.blank, w⟩ (t.dropWhile isBlank) := by
  refine ⟨fun hk => by contradiction, fun _ => ?_⟩
  rw [List.takeWhile_eq_nil_iff]
  intro hpos
  simpa using List.dropWhile_get_zero_not isBlank t hpos

theorem split_append_blank {s w : List Char} {before : List Lexeme} (t : List Char)
    (h : split s = before ++ [⟨.blank, w⟩]) :
    split (s ++ t) =
      before ++ ⟨.blank, w ++ t.takeWhile isBlank⟩ :: split (t.dropWhile isBlank) := by
  have hblank : Whole ⟨.blank, w ++ t.takeWhile isBlank⟩ := by
    have hw : Whole ⟨.blank, w⟩ := whole_of_isClosed (s := s) (by simp [h]) rfl
    cases hw with
    | mark hk => exact absurd rfl (mark_kind hk).2.1
    | @blank c v hw =>
        have hall : ∀ x ∈ (c :: v) ++ t.takeWhile isBlank, isBlank x = true := by
          intro x hx
          rcases List.mem_append.1 hx with hx | hx
          · exact hw x hx
          · exact List.mem_takeWhile_imp hx
        exact .blank hall
  have hsegmented : Segmented (before ++ [⟨.blank, w ++ t.takeWhile isBlank⟩]) := by
    have hchain := split_chain s
    rw [h, List.isChain_append] at hchain
    constructor
    · intro l hl
      rcases List.mem_append.1 hl with hl | hl
      · exact split_whole h l hl
      · rw [List.mem_singleton.1 hl]
        exact hblank
    · rw [List.isChain_append]
      exact ⟨hchain.1, by simp, by simpa [Follows] using hchain.2.2⟩
  have htext : s ++ t =
      join (before ++ [⟨.blank, w ++ t.takeWhile isBlank⟩]) ++ t.dropWhile isBlank := by
    have hs := join_split s
    rw [h] at hs
    conv_lhs => rw [← hs, ← List.takeWhile_append_dropWhile (p := isBlank) (l := t)]
    simp
  have hstop := stopsAt_dropWhile (w ++ t.takeWhile isBlank) t
  rw [htext, split_join_append hsegmented (by simpa using hstop), List.append_assoc]
  rfl

/-- The blanks at the start of a text are a lexeme of their own. -/
theorem exists_split_blanks (t : List Char) :
    ∃ lead, split t = lead ++ split (t.dropWhile isBlank) ∧ join lead = t.takeWhile isBlank ∧
      ∀ l ∈ lead, l.kind = .blank := by
  cases ht : t.takeWhile isBlank with
  | nil =>
      have hdrop := List.takeWhile_append_dropWhile (p := isBlank) (l := t)
      rw [ht, List.nil_append] at hdrop
      exact ⟨[], by rw [hdrop, List.nil_append], rfl, by simp⟩
  | cons c w =>
      have hall : ∀ x ∈ c :: w, isBlank x = true := by
        rw [← ht]
        exact fun x hx => List.mem_takeWhile_imp hx
      have hsegmented : Segmented [⟨.blank, c :: w⟩] := ⟨by simpa using .blank hall, by simp⟩
      have hsplit := split_join_append hsegmented (by simpa using stopsAt_dropWhile (c :: w) t)
      rw [join_cons, join_nil, List.append_nil] at hsplit
      refine ⟨[⟨.blank, c :: w⟩], ?_, by simp, by simp⟩
      rw [← hsplit, ← ht, List.takeWhile_append_dropWhile]

theorem Whole.unquoted {l : Lexeme} (h : Whole l) (hquoted : l.kind ≠ .quoted)
    (hcomment : l.kind ≠ .comment) : ∀ c ∈ l.text, isQuote c = false := by
  cases h with
  | mark hk => simpa using not_quote_of_punctuation (isPunctuation_of_kind hk)
  | quoted => exact absurd rfl hquoted
  | comment => exact absurd rfl hcomment
  | blank h => exact fun c hc => (Source.not_quote_of_blank (h c hc)).1
  | plain h =>
      intro c hc
      have hd := h.ordinary c hc
      simp only [isDelimiter, Bool.or_eq_false_iff] at hd
      exact hd.1.2

theorem settled_join {lexemes : List Lexeme} (hwhole : ∀ l ∈ lexemes, Whole l)
    (hcomment : ∀ l ∈ lexemes, l.kind ≠ .comment) : Source.Settled (join lexemes) := by
  refine Source.Settled.flatMap fun l hl => ?_
  by_cases hquoted : l.kind = .quoted
  · cases hwhole l hl with
    | @quoted q s hq hs =>
        have hclosed := Source.Settled.quoted hq hs .nil
        rwa [List.append_nil] at hclosed
    | mark hk => exact absurd hquoted (mark_kind hk).2.2.1
    | comment | blank | plain => cases hquoted
  · exact Source.settled_of_unquoted ((hwhole l hl).unquoted hquoted (hcomment l hl))

end Lexeme

/-! ## Tokens -/

section Lead

variable {lead : List Token} (hlead : ∀ t ∈ lead, t.isTrivia = true) (tokens : List Token)

include hlead

theorem Token.render_lead : render (lead ++ tokens) = render tokens := by
  rw [render, joinFrom_lead hlead, render]

theorem Token.firstSolid?_lead : firstSolid? (lead ++ tokens) = firstSolid? tokens := by
  rw [firstSolid?, List.find?_append, ← firstSolid?, firstSolid?_eq_none_iff.2 hlead]
  rfl

theorem Token.depthAfter?_lead (depth : Nat) :
    Kind.depthAfter? depth ((lead ++ tokens).map (·.kind)) =
      Kind.depthAfter? depth (tokens.map (·.kind)) := by
  have hmarks : (lead.map (·.kind)).filter Kind.isMark = [] := by
    rw [List.filter_eq_nil_iff]
    intro k hk
    obtain ⟨t, ht, rfl⟩ := List.mem_map.1 hk
    have htrivia := hlead t ht
    unfold Token.isTrivia at htrivia
    cases hkind : t.kind <;> simp_all [Kind.isTrivia, Kind.isMark]
  rw [List.map_append, Kind.depthAfter?_append, ← Kind.depthAfter?_filter depth (lead.map _), hmarks]
  rfl

/-- Blanks and comments in front of a rule change nothing. -/
theorem Sheet.buildTokens_lead : buildTokens .outside (lead ++ tokens) = buildTokens .outside tokens := by
  rcases Clauses.exists_ended 0 tokens with ⟨final, h⟩ | ⟨body, t, rest, final, ending, rfl, hbody, ht⟩
  · have hlong := h
    rw [← Token.depthAfter?_lead hlead] at hlong
    rw [buildTokens, buildTokens, Clauses.split_tail h, Clauses.split_tail hlong, build, build,
      Token.firstSolid?_lead hlead, Token.render_lead hlead]
  · have hlong := hbody
    rw [← Token.depthAfter?_lead hlead] at hlong
    have hstep : step .outside ⟨lead ++ body, ending, t.span⟩ =
        step .outside ⟨body, ending, t.span⟩ := by
      simp only [step, Clause.start, Token.firstSolid?_lead hlead, Token.render_lead hlead]
    rw [← List.append_assoc, buildTokens_step _ hlong ht, buildTokens_step _ hbody ht, hstep]

end Lead

namespace Sheet

theorem buildTokens_append {a gap gap' : List Token} {scope : Scope} {built : Built}
    (b : List Token) (hgap : ∀ t ∈ gap, t.isTrivia = true) (hgap' : ∀ t ∈ gap', t.isTrivia = true)
    (h : buildTokens scope (a ++ gap) = .ok built) :
    buildTokens scope (a ++ (gap' ++ b)) = (buildTokens .outside b).map built.append := by
  induction a using Clauses.induction_on generalizing scope built with
  | tail a final hdepth =>
      have hlong : Kind.depthAfter? 0 ((a ++ gap).map (·.kind)) = some final := by
        have hend := Token.depthAfter?_lead hgap [] final
        rw [List.append_nil] at hend
        rw [List.map_append, Kind.depthAfter?_append, hdepth]
        exact hend
      obtain ⟨rfl, htrivia, rfl⟩ := (buildTokens_tail_eq_ok hlong).1 h
      have hlead : ∀ t ∈ a ++ gap', t.isTrivia = true := by
        intro t ht
        rcases List.mem_append.1 ht with ht | ht
        · exact htrivia t (List.mem_append_left gap ht)
        · exact hgap' t ht
      rw [← List.append_assoc, buildTokens_lead hlead]
      cases buildTokens .outside b <;> rfl
  | ended body t rest final ending hbody ht ih =>
      rw [List.append_assoc, List.cons_append] at h ⊢
      obtain ⟨next, given, later, hstep, hlater, rfl⟩ := (buildTokens_step_eq_ok hbody ht).1 h
      rw [buildTokens_step scope hbody ht, hstep]
      change (buildTokens next _).map given.append = _
      rw [ih hlater]
      cases buildTokens .outside b with
      | error e => rfl
      | ok later' => exact congrArg Except.ok (Built.append_assoc given later later').symm

/-- The last token of a text that is read means nothing or ends a clause. -/
theorem last_of_buildTokens {tokens : List Token} {t : Token} {scope : Scope} {built : Built}
    (h : buildTokens scope (tokens ++ [t]) = .ok built) :
    t.isTrivia = true ∨ ∃ depth ending, Ending.of? depth t.kind = some ending := by
  induction tokens using Clauses.induction_on generalizing scope built with
  | tail tokens final hdepth =>
      cases hending : Ending.of? final t.kind with
      | some ending => exact .inr ⟨final, ending, hending⟩
      | none =>
          have hlong : Kind.depthAfter? 0 ((tokens ++ [t]).map (·.kind)) =
              some (t.kind.parenDepth final) := by
            rw [List.map_append, Kind.depthAfter?_append, hdepth]
            simp [Kind.depthAfter?, hending]
          exact .inl (((buildTokens_tail_eq_ok hlong).1 h).2.1 t (by simp))
  | ended body u rest final ending hbody hu ih =>
      rw [List.append_assoc, List.cons_append] at h
      obtain ⟨next, given, later, hstep, hlater, rfl⟩ := (buildTokens_step_eq_ok hbody hu).1 h
      exact ih hlater

/-- A text after another one that ends with a blank is read from outside all rules on. -/
theorem ofTokens_append {s w : List Char} {before : List Lexeme} {built : Built} (t : List Char)
    (hs : Lexeme.split s = before ++ [⟨.blank, w⟩]) (h : ofTokens (Token.ofText s) = .ok built) :
    ofTokens (Token.ofText (s ++ t)) =
      (buildTokens .outside (Token.place (Span.start.advance s) (Lexeme.split t))).map
        built.append := by
  have hplaced {ls : List Lexeme} (p : Span) (hls : ∀ l ∈ ls, l.kind = .blank) :
      ∀ u ∈ Token.place p ls, u.isTrivia = true := by
    intro u hu
    have hmem := List.mem_map_of_mem (f := Token.toLexeme) hu
    rw [Token.place_map_toLexeme] at hmem
    exact Token.isTrivia_of_blank (hls _ hmem)
  obtain ⟨lead, hlead, hjoin, hblank⟩ := Lexeme.exists_split_blanks t
  have hend : Span.start.advance s =
      (Span.start.advance (Lexeme.join before)).advance w := by
    rw [← Lexeme.join_split s, hs, Lexeme.join_append, Span.advance_append]
    simp
  have hshort : Token.ofText s =
      Token.place .start before ++ Token.place (Span.start.advance (Lexeme.join before))
        [⟨.blank, w⟩] := by
    rw [Token.ofText, hs, Token.place_append]
  have hlong : Token.ofText (s ++ t) =
      Token.place .start before ++ (Token.place (Span.start.advance (Lexeme.join before))
        [⟨.blank, w ++ t.takeWhile isBlank⟩] ++
          Token.place ((Span.start.advance s).advance (t.takeWhile isBlank))
            (Lexeme.split (t.dropWhile isBlank))) := by
    rw [Token.ofText, Lexeme.split_append_blank t hs, Token.place_append, hend, ← Span.advance_append]
    rfl
  rw [hshort] at h
  rw [hlong, hlead, Token.place_append, hjoin, buildTokens_lead (hplaced _ hblank)]
  exact buildTokens_append _ (hplaced _ (by simp)) (hplaced _ (by simp)) h

/-- What is read and ends with a line feed ends with a blank. -/
theorem exists_blank_end {s : List Char} {built : Built}
    (h : ofTokens (Token.ofText s) = .ok built) (hfeed : ['\n'] <:+ s)
    (hcomment : ∀ l ∈ (Lexeme.split s).getLast?, l.kind ≠ .comment) :
    ∃ before w, Lexeme.split s = before ++ [⟨.blank, w⟩] := by
  have hjoin := Lexeme.join_split s
  rcases List.eq_nil_or_concat (Lexeme.split s) with hnil | ⟨before, l, hsplit⟩
  · rw [hnil] at hjoin
    subst hjoin
    simp at hfeed
  · rw [List.concat_eq_append] at hsplit
    rw [hsplit] at hcomment hjoin
    have hlast : l.kind ≠ .comment := hcomment l (by simp)
    -- the last token ends a clause or is trivia, so it is no string that is left open
    have hquoted : l.kind ≠ .quoted := by
      intro hl
      rw [Token.ofText, hsplit, Token.place_append] at h
      rcases last_of_buildTokens h with htrivia | ⟨depth, ending, hending⟩
      · simp [Token.isTrivia, hl, Kind.isTrivia] at htrivia
      · simp [hl, Ending.of?] at hending
    have hclosed : l.isClosed = true := by
      unfold Lexeme.isClosed
      split <;> simp_all
    have hwhole : l.Whole := Lexeme.whole_of_isClosed (s := s) (by simp [hsplit]) hclosed
    have hmem : '\n' ∈ l.text := by
      have hsuffix : l.text <:+ s := ⟨Lexeme.join before, by simpa using hjoin⟩
      have hend := Source.getLast?_of_suffix hsuffix hwhole.text_ne_nil
      rw [← Source.getLast?_of_suffix hfeed (by simp)] at hend
      exact List.mem_of_getLast? hend
    cases hwhole with
    | mark hk =>
        rw [← List.mem_singleton.1 hmem] at hk
        contradiction
    | quoted hq hs => contradiction
    | comment hc => contradiction
    | blank hb => exact ⟨before, _, hsplit⟩
    | plain hp =>
        have hdelimiter : isDelimiter '\n' = true := by decide
        rw [hp.ordinary _ hmem] at hdelimiter
        contradiction

end Sheet

/-! ## Lines -/

namespace Source

theorem splitLines_append (a b : List Char) :
    splitLines (a ++ ['\n'] ++ b) = splitLines (a ++ ['\n']) ++ splitLines b := by
  induction a with
  | nil => simp [splitLines]
  | cons c a ih =>
      rw [List.cons_append, List.cons_append, splitLines, ih, splitLines]
      by_cases hc : c = '\n'
      · rw [if_pos hc, if_pos hc, List.cons_append]
      · rw [if_neg hc, if_neg hc]
        cases hlines : splitLines (a ++ ['\n']) with
        | nil =>
            have hflat := splitLines_flatten (a ++ ['\n'])
            rw [hlines] at hflat
            simp at hflat
        | cons line lines => rfl

theorem markImports_append (a b : List Char) :
    markImports (a ++ ['\n'] ++ b) =
      ⟨(markImports (a ++ ['\n'])).text ++ (markImports b).text,
        (markImports (a ++ ['\n'])).imports ++ (markImports b).imports⟩ := by
  simp only [markImports, splitLines_append, List.map_append, List.flatMap_append]

theorem marked_append {a : List Char} (b : List Char) (ha : Settled (a ++ ['\n']))
    (hcomment : Absent startsComment (a ++ ['\n'])) :
    marked (a ++ ['\n'] ++ b) =
      ⟨(marked (a ++ ['\n'])).text ++ (marked b).text,
        (marked (a ++ ['\n'])).imports ++ (marked b).imports⟩ := by
  have hsees : SeesOnly startsComment (a ++ ['\n']) b := by
    rw [startsComment_eq]
    exact seesOnly_startsWith (by simp)
  rw [marked, withoutComments_append ha hsees hcomment, markImports_append, marked, marked,
    withoutComments_of_absent hcomment]

end Source

/-! ## Stages of a reading -/

theorem Source.prepare_eq_ok_iff {s : List Char} {prepared : Prepared} :
    prepare s = .ok prepared ↔
      ∃ t, Expanded (marked s).text t ∧ prepared = ⟨t, (marked s).imports⟩ := by
  rw [prepare, except_bind_eq_ok]
  simp only [expandThemes_eq_ok_iff, Except.ok.injEq]
  exact exists_congr fun t => and_congr_right fun _ => eq_comm

theorem Sheet.read_eq_ok_iff {s : List Char} {reading : Reading} :
    read s = .ok reading ↔
      ∃ t built, Source.Expanded (Source.marked s).text t ∧
        ofTokens (Token.ofText t) = .ok built ∧
        reading = ⟨⟨built.rules, (Source.marked s).imports.map String.ofList⟩, built.warnings⟩ := by
  rw [read, except_bind_eq_ok]
  constructor
  · rintro ⟨prepared, hprepared, h⟩
    obtain ⟨t, ht, rfl⟩ := Source.prepare_eq_ok_iff.1 hprepared
    obtain ⟨built, hbuilt, hreading⟩ := except_bind_eq_ok.1 h
    exact ⟨t, built, ht, hbuilt, (Except.ok.inj hreading).symm⟩
  · rintro ⟨t, built, ht, hbuilt, rfl⟩
    refine ⟨_, Source.prepare_eq_ok_iff.2 ⟨t, ht, rfl⟩, ?_⟩
    simp only [hbuilt]
    rfl

end RichStyle
