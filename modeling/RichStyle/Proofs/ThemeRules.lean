import RichStyle.Proofs.LineFeeds
import RichStyle.Proofs.Openings

/-!
# Rules of themes

A theme is written out where it stands, whatever stands around it.  A clause of the text around the
themes declares none of their variables, and the inside of a theme has no brace that would end its
rule.  So the variables of a theme are declared in the rule that the theme opens.  That rule has the
selector of the theme behind whatever stands in front of the theme in its clause.
-/

namespace RichStyle

open Text

/-- Whether a declaration is that of a variable of a theme. -/
def Declaration.IsThemed (d : Declaration) : Prop :=
  "--theme-".toList <+: d.property.toList

/-! ## Reading tokens with themes in them -/

/-- Tokens no part of which declares a variable of a theme. -/
def Token.Unthemed (tokens : List Token) : Prop :=
  ∀ body, body <:+: tokens → ∀ p d, Declaration.ofTokens? body p = some d → ¬ d.IsThemed

/-- A rule has variables of themes only if `P` holds of it. -/
def Rule.Guarded (P : Rule → Prop) (rule : Rule) : Prop :=
  P rule ∨ ∀ d ∈ rule.declarations, ¬ d.IsThemed

namespace Sheet

/-- Tokens with themes written out among them.  `P` holds of the rules that the themes open. -/
inductive Laid (P : Rule → Prop) : List Token → Prop
  | text {tokens : List Token} (h : Token.Unthemed tokens) : Laid P tokens
  | block {front header entries rest : List Token} {opening closing : Token}
      (hfront : Token.Unthemed front)
      (hheader : ∀ depth, Kind.depthAfter? depth (header.map (·.kind)) = some depth)
      (hrule : ∀ p, P ⟨Token.render ((Clauses.split 0 front).tail ++ header), [], p⟩)
      (hopening : opening.kind = .openBrace) (hentries : ∀ t ∈ entries, t.kind ≠ .closeBrace)
      (hclosing : closing.kind = .closeBrace) (hrest : Laid P rest) :
      Laid P (front ++ (header ++ opening :: (entries ++ closing :: rest)))

/-- Inside a theme: the rule that the theme opens, or a block in some other rule. -/
def Scope.InTheme (P : Rule → Prop) : Scope → Prop
  | .outside => False
  | .inside rule => P rule
  | .nested rule _ => rule.Guarded P

section Laid

variable {P : Rule → Prop} (hextend : ∀ rule body, P rule → P (extendRule rule body).1)
  {scope next : Scope} {c : Clause} {rules : List Rule}

include hextend in
theorem guarded_extendRule {rule : Rule} {body : List Token}
    (hbody : ∀ p d, Declaration.ofTokens? body p = some d → ¬ d.IsThemed) (h : rule.Guarded P) :
    (extendRule rule body).1.Guarded P := by
  rcases h with h | h
  · exact .inl (hextend rule body h)
  · right
    intro d hd
    rcases mem_extendRule hd with hd | ⟨t, -, hd⟩
    · exact h d hd
    · exact hbody t.span d hd

include hextend in
theorem Stepped.guarded (h : Stepped scope c next rules)
    (hbody : ∀ p d, Declaration.ofTokens? c.body p = some d → ¬ d.IsThemed)
    (hscope : Scope.Holds (Rule.Guarded P) scope) :
    Scope.Holds (Rule.Guarded P) next ∧ ∀ rule ∈ rules, rule.Guarded P :=
  h.holds (fun _ _ => .inr (by simp)) (fun _ hrule => guarded_extendRule hextend hbody hrule) hscope

/-- The brace of a theme opens its rule, or a block where there is a rule already. -/
theorem Stepped.inTheme_of_opening (h : Stepped scope c next rules) (hc : c.ending = .openBrace)
    (hrule : P ⟨Token.render c.body, [], c.start⟩) (hscope : Scope.Holds (Rule.Guarded P) scope) :
    Scope.InTheme P next ∧ rules = [] := by
  cases h with
  | opened => exact ⟨hrule, rfl⟩
  | entered | deepened => exact ⟨hscope, rfl⟩
  | skipped h | extended h | closed h | passed h | left h | risen h =>
      rw [hc] at h
      cases h

include hextend in
theorem Stepped.inTheme (h : Stepped scope c next rules) (hc : c.ending ≠ .closeBrace)
    (hscope : Scope.InTheme P scope) : Scope.InTheme P next ∧ rules = [] := by
  cases h with
  | skipped | opened => exact hscope.elim
  | extended => exact ⟨hextend _ _ hscope, rfl⟩
  | entered => exact ⟨.inl hscope, rfl⟩
  | passed | deepened => exact ⟨hscope, rfl⟩
  | closed h | left h | risen h => exact absurd h hc

include hextend in
theorem Stepped.guarded_of_closing (h : Stepped scope c next rules) (hc : c.ending = .closeBrace)
    (hscope : Scope.InTheme P scope) :
    Scope.Holds (Rule.Guarded P) next ∧ ∀ rule ∈ rules, rule.Guarded P := by
  cases h with
  | closed => exact ⟨trivial, by simpa using .inl (hextend _ _ hscope)⟩
  | left | risen => exact ⟨hscope, by simp⟩
  | skipped h | opened h | extended h | entered h | passed h | deepened h =>
      rw [hc] at h
      cases h

theorem ending_of_entries {entries : List Token} (h : ∀ t ∈ entries, t.kind ≠ .closeBrace) :
    ∀ c ∈ (Clauses.split 0 entries).ended, c.ending ≠ .closeBrace := by
  induction entries using Clauses.induction_on with
  | tail entries final hdepth =>
      rw [Clauses.split_tail hdepth]
      simp
  | ended body t rest final ending hbody ht ih =>
      rw [Clauses.split_ended hbody ht]
      refine List.forall_mem_cons.2 ⟨?_, ih fun u hu => h u (by simp [hu])⟩
      intro hclose
      have hkind := h t (by simp)
      rcases Ending.eq_kind ht with ⟨he, -⟩ | ⟨-, hk⟩ | ⟨he, -⟩
      · rw [he] at hclose
        cases hclose
      · exact hkind hk
      · rw [he] at hclose
        cases hclose

include hextend in
/-- Variables of themes are declared only in rules that themes open. -/
theorem Laid.guarded {tokens : List Token} {built : Built} (h : Laid P tokens)
    (hscope : Scope.Holds (Rule.Guarded P) scope) (hbuild : buildTokens scope tokens = .ok built) :
    ∀ rule ∈ built.rules, rule.Guarded P := by
  induction h generalizing scope built with
  | text h =>
      exact buildTokens_holds (fun _ _ _ _ => .inr (by simp))
        (fun c hc _ => guarded_extendRule hextend (h c.body (Clauses.body_isInfix hc))) hscope hbuild
  | @block front header entries rest opening closing hfront hheader hrule hopening hentries hclosing
      hrest ih =>
      -- the text in front of the theme
      obtain ⟨scope₁, later₁, hscope₁, hlater₁, hrules₁⟩ := buildTokens_run
        (I := Scope.Holds (Rule.Guarded P)) (P := Rule.Guarded P) (fun c hc _ _ _ hholds h =>
          h.guarded hextend (hfront c.body (Clauses.body_isInfix hc)) hholds) hscope hbuild
      -- its selector
      obtain ⟨depth, hdepth⟩ := Clauses.depthAfter?_tail front
      have hbody : Kind.depthAfter? 0
          (((Clauses.split 0 front).tail ++ header).map (·.kind)) = some depth := by
        rw [List.map_append, Kind.depthAfter?_append, hdepth]
        exact hheader depth
      have hopen : Ending.of? depth opening.kind = some .openBrace := by
        rw [hopening]
        rfl
      rw [← List.append_assoc] at hlater₁
      obtain ⟨scope₂, given₂, later₂, hstep₂, hlater₂, rfl⟩ :=
        (buildTokens_step_eq_ok hbody hopen).1 hlater₁
      obtain ⟨hscope₂, hgiven₂⟩ := (step_spec hstep₂).inTheme_of_opening rfl (hrule _) hscope₁
      -- its variables
      obtain ⟨scope₃, later₃, hscope₃, hlater₃, hrules₃⟩ := buildTokens_run
        (I := Scope.InTheme P) (P := Rule.Guarded P) (fun c hc _ _ _ hin h => by
          obtain ⟨hnext, hnone⟩ := h.inTheme hextend (ending_of_entries hentries c hc) hin
          exact ⟨hnext, by simp [hnone]⟩) hscope₂ hlater₂
      -- and its end
      obtain ⟨final, hfinal⟩ := Clauses.depthAfter?_tail entries
      have hclose : Ending.of? final closing.kind = some .closeBrace := by
        rw [hclosing]
        rfl
      obtain ⟨scope₄, given₄, later₄, hstep₄, hlater₄, rfl⟩ :=
        (buildTokens_step_eq_ok hfinal hclose).1 hlater₃
      obtain ⟨hscope₄, hgiven₄⟩ := (step_spec hstep₄).guarded_of_closing hextend rfl hscope₃
      have hlast := ih hscope₄ hlater₄
      intro rule hmem
      rcases hrules₁ rule hmem with h | hmem
      · exact h
      · rw [Built.append_rules, hgiven₂, List.nil_append] at hmem
        rcases hrules₃ rule hmem with h | hmem
        · exact h
        · rcases List.mem_append.1 hmem with hmem | hmem
          · exact hgiven₄ rule hmem
          · exact hlast rule hmem

end Laid

end Sheet

/-! ## Texts with themes in them -/

theorem ordinary_themeWord : ∀ c ∈ "--theme-".toList, isDelimiter c = false := by
  simp [isDelimiter, isPunctuation, isQuote, isBlank]

/-- Where a text does not hold the word for variables of themes, no clause of it declares one. -/
theorem Token.unthemed_place {s : List Char} (p : Span)
    (hapart : (Lexeme.split s).IsChain Source.Apart) (hword : ¬ "--theme-".toList <:+: s) :
    Token.Unthemed (Token.place p (Lexeme.split s)) := by
  intro body hbody q d hd hthemed
  obtain ⟨before, t, after, rfl, -, rfl⟩ := Declaration.exists_of_ofTokens hd
  have hfront : before <:+: Token.place p (Lexeme.split s) :=
    List.IsInfix.trans ⟨[], t :: after, by simp⟩ hbody
  have hlexemes : before.map Token.toLexeme <:+: Lexeme.split s := by
    rw [← Token.place_map_toLexeme p (Lexeme.split s)]
    exact hfront.map _
  have hproperty : "--theme-".toList <+: trimEnd (Token.joinFrom true before) := by
    simpa [Declaration.IsThemed, Declaration.classified, Token.render] using hthemed
  obtain ⟨trail, htrail, -⟩ := exists_trimEnd (Token.joinFrom true before)
  have hstart : "--theme-".toList <+: Token.joinFrom true before := by
    rw [htrail]
    exact hproperty.trans (List.prefix_append _ _)
  have hfollows := List.IsChain.infix (Lexeme.split_chain s) hlexemes
  have hcomments := List.IsChain.infix hapart hlexemes
  exact hword (Token.isInfix_of_isPrefix_joinFrom (by simp) ordinary_themeWord
    (fun u hu => hlexemes.subset (List.mem_map_of_mem hu)) hfollows hcomments hstart)

namespace Source

open Lexeme (split)

/-- The selector of a theme. -/
def Theme.selector (theme : Theme) : List Char :=
  ":root[data-theme=\"".toList ++ theme.name ++ "\"]".toList

/-- What stands behind the last clause of a text, as it is written in a selector. -/
def leadOf (s : List Char) : List Char :=
  Token.joinFrom true (Clauses.split 0 (Token.ofText s)).tail

namespace Theme

theorem join_header (theme : Theme) : Lexeme.join theme.header = theme.selector ++ [' '] := by
  unfold header selector
  simp

theorem render_header {theme : Theme} (hname : ∀ c ∈ theme.name, isNameChar c = true)
    (tokens : List Token) (p : Span) :
    Token.render (tokens ++ Token.place p theme.header) =
      String.ofList (Token.joinFrom true tokens ++ theme.selector) := by
  have hsegmented := segmented_header hname
  have hmap := Token.place_map_toLexeme p theme.header
  have hmem : ∀ t ∈ Token.place p theme.header, t.toLexeme ∈ theme.header := by
    intro t ht
    rw [← hmap]
    exact List.mem_map_of_mem ht
  have hcomment : ∀ l ∈ theme.header, l.kind ≠ .comment := by simp [header]
  have hspace : ∀ l ∈ theme.header, l.kind = .blank → l.text = [' '] := by simp [header]
  have hhead : ∀ t ∈ (Token.place p theme.header).head?, t.kind ≠ .blank := by
    simp [header, Token.place]
  obtain ⟨after, hafter⟩ := Token.exists_joinFrom_append true tokens (Token.place p theme.header)
  obtain ⟨last, hlast⟩ := Token.joinFrom_append (fun t ht => hsegmented.whole _ (hmem t ht))
    (by rw [hmap]; exact hsegmented.chain) (fun t ht => hcomment _ (hmem t ht))
    (fun t ht => hspace _ (hmem t ht)) after (fun _ => hhead) []
  rw [List.append_nil, hmap, join_header, Token.joinFrom, List.append_nil] at hlast
  have hend : ∀ c ∈ (Token.joinFrom true tokens ++ theme.selector).getLast?, isBlank c = false := by
    have hbracket : isBlank ']' = false := by decide
    have hselector : Token.joinFrom true tokens ++ theme.selector =
        (Token.joinFrom true tokens ++ (":root[data-theme=\"".toList ++ theme.name ++ ['"'])) ++
          [']'] := by
      unfold selector
      simp
    rw [hselector, List.getLast?_concat]
    simpa using hbracket
  rw [Token.render, hafter, hlast, ← List.append_assoc, trimEnd_append hend (by simp)]

theorem depthAfter?_header (theme : Theme) (p : Span) (depth : Nat) :
    Kind.depthAfter? depth ((Token.place p theme.header).map (·.kind)) = some depth := rfl

/-- The tokens of a theme written out behind a text. -/
theorem exists_place_render {theme : Theme} {x : List Char} (p : Span)
    (hx : ∀ l ∈ split x, Lexeme.Whole l) (hname : ∀ c ∈ theme.name, isNameChar c = true)
    (hentries : ∀ l ∈ split (' ' :: theme.entries.flatMap assignment),
      Lexeme.Whole l ∧ l.kind ≠ .closeBrace) :
    ∃ q opening entries closing r, opening.kind = .openBrace ∧
      (∀ t ∈ entries, t.kind ≠ .closeBrace) ∧ closing.kind = .closeBrace ∧
      ∀ y, Token.place p (split (x ++ (theme.render ++ y))) =
        Token.place p (split x) ++ (Token.place q theme.header ++
          opening :: (entries ++ closing :: Token.place r (split y))) := by
  have hinside (q : Span) : ∀ t ∈ Token.place q (split (' ' :: theme.entries.flatMap assignment)),
      t.kind ≠ .closeBrace := by
    intro t ht
    have hlexeme := List.mem_map_of_mem (f := Token.toLexeme) ht
    rw [Token.place_map_toLexeme] at hlexeme
    exact (hentries _ hlexeme).2
  have hplace (y : List Char) := congrArg (Token.place p)
    (split_render hx hname (fun l hl => (hentries l hl).1) y)
  simp only [Token.place_append, Token.place] at hplace
  exact ⟨_, _, _, _, _, rfl, hinside _, rfl, hplace⟩

end Theme

theorem not_mem_of_blank {c : Char} (h : isBlank c = true) : c ∉ "--theme-".toList := by
  intro hc
  rw [not_blank_of_ordinary (ordinary_themeWord c hc)] at h
  cases h

/-- A text whose themes are written out is laid out as one in which each theme opens the rule that `P`
holds of. -/
theorem Outlined.laid {P : Rule → Prop} {s blanks : List Char} {outline : List Segment} {p : Span}
    (h : Outlined s outline) (hquiet : Quiet (split s)) (hword : ¬ "--theme-".toList <:+: s)
    (hcomment : ∀ theme source, .block theme source ∈ outline → Absent startsComment source)
    (hblanks : ∀ c ∈ blanks, isBlank c = true)
    (hrule : ∀ front theme source later, outline = front ++ .block theme source :: later → ∀ q,
      P ⟨String.ofList (Token.joinFrom true (Clauses.split 0 (Token.place p
        (split (blanks ++ front.flatMap Segment.written)))).tail ++ theme.selector), [], q⟩) :
    Sheet.Laid P (Token.place p (split (blanks ++ outline.flatMap Segment.written))) := by
  have hforeign (b : List Char) (hb : ∀ c ∈ b, isBlank c = true) :
      ∀ c ∈ b, c ∉ "--theme-".toList := fun c hc => not_mem_of_blank (hb c hc)
  induction h generalizing blanks p with
  | @done s habsent =>
      have htext : blanks ++ [Segment.copied s].flatMap Segment.written = blanks ++ s := by
        simp [Segment.written]
      rw [htext]
      exact .text (Token.unthemed_place p (apart_append_blanks hblanks hquiet.apart)
        (not_infix_foreign_append (hforeign blanks hblanks) hword))
  | @block q s before after block later hcut hread hrest ih =>
      have hsource := hcomment block.theme (themeKeyword ++ block.source) (by simp)
      obtain ⟨-, -, -, -, hname, -, -, -⟩ := Theme.read_spec hread
      obtain ⟨hwhole, hapart⟩ := whole_before hquiet hcut
      have hs : s = before ++ (themeKeyword ++ (block.source ++ block.rest)) := by
        rw [Theme.read_append hread]
        exact (cutOutsideQuotes_append hcut).symm
      -- what follows the block is as quiet as the text
      obtain ⟨lexemes, u, hsplit, -⟩ := exists_opening hquiet.idle hcut
      have hsuffix : split block.rest <:+ split s := by
        rw [hsplit]
        exact ((split_rest_suffix hread hsource).trans (List.suffix_cons _ _)).trans
          (List.suffix_append _ _)
      have hbefore : ¬ "--theme-".toList <:+: before := fun hw =>
        hword (hw.trans ⟨[], _, hs.symm⟩)
      have hlater : ¬ "--theme-".toList <:+: block.rest := fun hw =>
        hword (hw.trans ⟨before ++ (themeKeyword ++ block.source), [], by rw [hs]; simp⟩)
      have hfeeds : ∀ c ∈ (themeKeyword ++ block.source).filter (· == '\n'), isBlank c = true := by
        intro c hc
        obtain ⟨-, hc⟩ := List.mem_filter.1 hc
        rw [beq_iff_eq.1 hc]
        decide
      obtain ⟨r, opening, entries, closing, t, hopening, hentries, hclosing, hplace⟩ :=
        Theme.exists_place_render p (whole_append_blanks hblanks hwhole) hname
          (whole_entries hread hsource)
      have htext (segments : List Segment) :
          blanks ++ (Segment.copied before :: .block block.theme (themeKeyword ++ block.source) ::
            segments).flatMap Segment.written = (blanks ++ before) ++ (block.theme.render ++
              ((themeKeyword ++ block.source).filter (· == '\n') ++
                segments.flatMap Segment.written)) := by
        simp [Segment.written]
      rw [htext, hplace]
      refine .block (Token.unthemed_place p (apart_append_blanks hblanks hapart)
        (not_infix_foreign_append (hforeign blanks hblanks) hbefore))
        (block.theme.depthAfter?_header r) (fun place => ?_) hopening hentries hclosing
        (ih (hquiet.of_suffix hsuffix) hlater (fun theme source hm => hcomment theme source (by simp [hm]))
          hfeeds fun front theme source rest hlist place => ?_)
      · rw [Theme.render_header hname]
        have hfirst := hrule [.copied before] block.theme (themeKeyword ++ block.source) later rfl place
        simpa [Segment.written] using hfirst
      · -- the closing brace of the block ends what stands in front of later themes
        have hfront := hrule (.copied before :: .block block.theme (themeKeyword ++ block.source) ::
          front) theme source rest (by rw [hlist]; rfl) place
        rwa [htext, hplace, ← List.cons_append, ← List.append_assoc, ← List.append_assoc,
          Clauses.tail_append_closing hclosing] at hfront

/-! ## Imports -/

theorem not_infix_importMark {target : List Char} (h : ¬ "--theme-".toList <:+: target) :
    ¬ "--theme-".toList <:+: importMark target := by
  have hmark : importMark target = "/* @import ".toList ++ '"' ::
      (target ++ '"' :: " (not inlined) */".toList) := by
    unfold importMark
    simp
  have hquote : '"' ∉ "--theme-".toList := by simp
  have hdash : '-' ∈ "--theme-".toList := by simp
  have hfront : ¬ "--theme-".toList <:+: "/* @import ".toList := fun hw =>
    absurd (hw.subset hdash) (by simp)
  have hback : ¬ "--theme-".toList <:+: " (not inlined) */".toList := fun hw =>
    absurd (hw.subset hdash) (by simp)
  rw [hmark]
  exact not_infix_append hquote hfront (not_infix_append hquote h hback)

theorem cutLineFeed_append {x feed : List Char} (hx : '\n' ∉ x) (hfeed : feed = [] ∨ feed = ['\n']) :
    cutLineFeed (x ++ feed) = (x, feed) := by
  unfold cutLineFeed
  rcases hfeed with rfl | rfl
  · rw [List.append_nil]
    split
    · next content hcontent =>
        rw [dropTrailing?_eq_some_iff.1 hcontent] at hx
        exact absurd (by simp) hx
    · rfl
  · rw [dropTrailing?_eq_some_iff.2 rfl]

theorem exists_markLine {x feed : List Char} (hx : '\n' ∉ x) (hfeed : feed = [] ∨ feed = ['\n'])
    (h : ¬ "--theme-".toList <:+: x) :
    ∃ y, (markLine (x ++ feed)).text = y ++ feed ∧ ¬ "--theme-".toList <:+: y := by
  unfold markLine
  rw [cutLineFeed_append hx hfeed]
  simp only
  split
  · next target htarget =>
      exact ⟨_, rfl, not_infix_importMark fun hw => h (hw.trans (importTarget_isInfix htarget))⟩
  · exact ⟨x, rfl, h⟩

theorem splitLines_of_not_mem {s : List Char} (hs : s ≠ []) (h : '\n' ∉ s) : splitLines s = [s] := by
  induction s with
  | nil => exact absurd rfl hs
  | cons c s ih =>
      rw [List.mem_cons, not_or] at h
      rw [splitLines, if_neg fun hc => h.1 hc.symm]
      by_cases hnil : s = []
      · subst hnil
        rfl
      · rw [ih hnil h.2]

/-- Marking imports brings in no word for variables of themes. -/
theorem not_infix_markImports {s : List Char} (h : ¬ "--theme-".toList <:+: s) :
    ¬ "--theme-".toList <:+: (markImports s).text := by
  induction hn : s.length using Nat.strongRecOn generalizing s with
  | _ n ih =>
      by_cases hs : s = []
      · subst hs
        exact h
      by_cases hfeed : '\n' ∈ s
      · -- the first line ends with its line feed, which is no part of the word
        obtain ⟨x, t, rfl, hx⟩ := List.eq_append_cons_of_mem hfeed
        obtain ⟨y, hline, hy⟩ := exists_markLine hx (.inr rfl) fun hw =>
          h (hw.trans ⟨[], '\n' :: t, by simp⟩)
        have hrest := ih t.length (by simp [← hn]; omega) (fun hw =>
          h (hw.trans ⟨x ++ ['\n'], [], by simp⟩)) rfl
        have htext : (markImports (x ++ '\n' :: t)).text = y ++ '\n' :: (markImports t).text := by
          have happ := congrArg Marked.text (markImports_append x t)
          rw [List.append_assoc, List.singleton_append] at happ
          rw [happ]
          simp [markImports, splitLines_single hx, hline]
        rw [htext]
        exact not_infix_append (by simp) hy hrest
      · obtain ⟨y, hline, hy⟩ := exists_markLine hfeed (.inl rfl) h
        have htext : (markImports s).text = y := by
          rw [List.append_nil, List.append_nil] at hline
          simp [markImports, splitLines_of_not_mem hs hfeed, hline]
        rwa [htext]

/-! ## Selectors of themes -/

theorem Outlined.isNameChar_name {s source : List Char} {outline : List Segment} {theme : Theme}
    (h : Outlined s outline) (hmem : .block theme source ∈ outline) :
    ∀ c ∈ theme.name, isNameChar c = true := by
  induction h with
  | done => simp at hmem
  | block hcut hread hrest ih =>
      obtain ⟨-, -, -, -, hname, -, -, -⟩ := Theme.read_spec hread
      simp only [List.mem_cons, reduceCtorEq, false_or, Segment.block.injEq] at hmem
      rcases hmem with ⟨rfl, -⟩ | hmem
      · exact hname
      · exact ih hmem

theorem Theme.selector_eq (theme : Theme) : theme.selector =
    ':' :: ("root[data-theme=\"".toList ++ theme.name ++ "\"]".toList) := by
  unfold selector
  simp

/-- The selector of a theme has its only colon in front. -/
theorem Theme.eq_nil_of_selector {lead : List Char} {a b : Theme}
    (hname : ∀ c ∈ b.name, isNameChar c = true) (h : lead ++ a.selector = b.selector) :
    lead = [] := by
  cases lead with
  | nil => rfl
  | cons c lead =>
      have hcolon : ':' ∉ b.name := fun hmem => absurd (hname _ hmem) (by decide)
      rw [selector_eq, selector_eq, List.cons_append] at h
      obtain ⟨-, htail⟩ := List.cons.inj h
      have hmem : ':' ∈ "root[data-theme=\"".toList ++ b.name ++ "\"]".toList := by
        rw [← htail]
        simp
      simp [hcolon] at hmem

/-- Whether no comment opens in a segment that is the block of a theme. -/
def Segment.isUncommented : Segment → Bool
  | copied _ => true
  | block _ s => (cutOutsideQuotes startsComment s).isNone

/-- Texts whose comments have no part in strings, words and themes, and stand in no block of a theme. -/
structure Tame (s : List Char) : Prop where
  quiet : Quiet (split s)
  blocks : ∀ segment ∈ segments s, segment.isUncommented = true

theorem Tame.absent {s source : List Char} {theme : Theme} (h : Tame s)
    (hmem : .block theme source ∈ segments s) : Absent startsComment source :=
  Option.isNone_iff_eq_none.1 (h.blocks _ hmem)

end Source

open Source

/-- The selector of a rule is that of a theme among some segments, behind what stands in front of the
theme in its clause. -/
def Rule.OpenedIn (segments : List Segment) (rule : Rule) : Prop :=
  ∃ before theme source after, segments = before ++ .block theme source :: after ∧
    rule.selector = String.ofList (leadOf (before.flatMap Segment.written) ++ theme.selector)

namespace Sheet

/--
Variables of themes are declared only in rules that themes open.  The selector of such a rule is what
stands in front of the theme in its clause and then the selector of the theme; it is the selector of a
theme alone if and only if nothing stands there.
-/
theorem theme_scoped {s : List Char} {reading : Reading}
    (hword : ¬ "--theme-".toList <:+: withoutComments s) (htame : Tame (marked s).text)
    (hread : read s = .ok reading) :
    ∀ rule ∈ reading.sheet.rules, ∀ d ∈ rule.declarations, d.IsThemed →
      ∃ before theme source after,
        segments (marked s).text = before ++ .block theme source :: after ∧
        rule.selector =
          String.ofList (leadOf (before.flatMap Segment.written) ++ theme.selector) ∧
        ((∃ other text, .block other text ∈ segments (marked s).text ∧
            rule.selector = String.ofList other.selector) ↔
          leadOf (before.flatMap Segment.written) = []) := by
  obtain ⟨t, built, ht, hbuilt, rfl⟩ := read_eq_ok_iff.1 hread
  obtain ⟨outline, houtline, rfl⟩ := ht.exists_outlined
  have hsegments := houtline.segments_eq
  have hblocks (theme : Theme) (source : List Char) (hmem : .block theme source ∈ outline) :
      Absent startsComment source := htame.absent (hsegments ▸ hmem)
  rw [hsegments]
  have hblanks : ∀ c ∈ ([] : List Char), isBlank c = true := by simp
  have hlaid : Laid (Rule.OpenedIn outline) (Token.ofText (outline.flatMap Segment.written)) :=
    houtline.laid htame.quiet (not_infix_markImports hword) hblocks hblanks
      fun front theme source later hlist q => ⟨front, theme, source, later, hlist, rfl⟩
  have hscope : Scope.Holds (Rule.Guarded (Rule.OpenedIn outline)) .outside := trivial
  have hguarded := hlaid.guarded (fun _ _ hrule => hrule) hscope hbuilt
  intro rule hrule d hd hthemed
  rcases hguarded rule hrule with ⟨before, theme, source, after, hlist, hselector⟩ | hnone
  · refine ⟨before, theme, source, after, hlist, hselector, ?_⟩
    constructor
    · rintro ⟨other, text, hmem, hother⟩
      rw [hselector] at hother
      exact Theme.eq_nil_of_selector (houtline.isNameChar_name hmem) (String.ofList_injective hother)
    · intro hlead
      refine ⟨theme, source, by simp [hlist], ?_⟩
      rw [hselector, hlead, List.nil_append]
  · exact absurd hthemed (hnone d hd)

/-- Of two themes the first stands alone, although a brace stands in one of its values; the second has
the selector of a rule in front of it. -/
theorem theme_scoped_two :
    let s := ("@import 'a.css';\n/* c */.y\x7bz:w\x7d @theme dark \x7bfg:\"\x7d\"\x7d\n".toList ++
      ".x @theme n \x7ba:b\x7d".toList)
    let dark : Rule := ⟨":root[data-theme=\"dark\"]", [⟨"--theme-fg", "\"\x7d\"", false, ⟨2, 36⟩⟩], ⟨2, 9⟩⟩
    let other : Rule := ⟨".x :root[data-theme=\"n\"]", [⟨"--theme-a", "b", false, ⟨3, 28⟩⟩], ⟨3, 1⟩⟩
    ¬ "--theme-".toList <:+: withoutComments s ∧ Tame (marked s).text ∧
      read s = .ok ⟨⟨[⟨".y", [⟨"z", "w", false, ⟨2, 4⟩⟩], ⟨2, 1⟩⟩, dark, other], ["a.css"]⟩, []⟩ ∧
      dark.OpenedIn (segments (marked s).text) ∧ other.OpenedIn (segments (marked s).text) := by
  intro s dark other
  have hword : ¬ "--theme-".toList <:+: withoutComments s := by decide +kernel
  have hmark : Idle ⟨.comment, importMark "a.css".toList⟩ :=
    ⟨(settled_iff_even (by decide +kernel) (by decide +kernel)).2 (by decide +kernel),
      by unfold Absent; decide +kernel⟩
  have hcomments : (Lexeme.split (marked s).text).all (fun l =>
      l.kind != .comment || l == ⟨.comment, importMark "a.css".toList⟩) = true := by decide +kernel
  have hsources : (segments (marked s).text).all Segment.isUncommented = true := by decide +kernel
  have htame : Tame (marked s).text := by
    refine ⟨⟨fun l hl hkind => ?_, by decide +kernel⟩, List.all_eq_true.1 hsources⟩
    have hl' := List.all_eq_true.1 hcomments l hl
    simp only [hkind, bne_self_eq_false, Bool.false_or, beq_iff_eq] at hl'
    rw [hl']
    exact hmark
  have hread : read s = .ok ⟨⟨[⟨".y", [⟨"z", "w", false, ⟨2, 4⟩⟩], ⟨2, 1⟩⟩, dark, other],
      ["a.css"]⟩, []⟩ := by decide +kernel
  have hscoped := theme_scoped hword htame hread
  obtain ⟨a, theme, source, b, hlist, hselector, -⟩ :=
    hscoped dark (by simp) _ List.mem_cons_self (by unfold Declaration.IsThemed; decide +kernel)
  obtain ⟨a', theme', source', b', hlist', hselector', -⟩ :=
    hscoped other (by simp) _ List.mem_cons_self (by unfold Declaration.IsThemed; decide +kernel)
  exact ⟨hword, htame, hread, ⟨a, theme, source, b, hlist, hselector⟩,
    ⟨a', theme', source', b', hlist', hselector'⟩⟩

/-- A theme behind the selector of a rule makes a rule whose selector is not that of a theme. -/
theorem theme_unscoped :
    let s := ".x @theme n \x7ba:b\x7d".toList
    ¬ "--theme-".toList <:+: withoutComments s ∧
      read s = .ok ⟨⟨[⟨".x :root[data-theme=\"n\"]", [⟨"--theme-a", "b", false, ⟨1, 28⟩⟩], ⟨1, 1⟩⟩],
        []⟩, []⟩ ∧
      ∀ theme : Theme, ".x :root[data-theme=\"n\"]" ≠ String.ofList theme.selector := by
  intro s
  refine ⟨by decide +kernel, by decide +kernel, fun theme h => ?_⟩
  have hstart : (String.ofList theme.selector).toList.head? = some ':' := by
    rw [String.toList_ofList, Theme.selector_eq, List.head?_cons]
  rw [← h] at hstart
  revert hstart
  decide +kernel

end Sheet

end RichStyle
