import RichStyle.Proofs.Entries

/-!
# Themes among lexemes

Themes are looked for in a text that is not yet cut into lexemes, by a scanner that knows strings but
no comments.  Where comments close the strings that they open and open no theme, the scanner finds
the keyword at the end of a word, and the block after it is a run of lexemes.
-/

namespace RichStyle

open Text

namespace Source

/-! ## Passing over lexemes -/

section Pass

variable {here : List Char → Bool} {a b : List Char}

theorem cutOutsideQuotes_unquoted (ha : ∀ c ∈ a, isQuote c = false) :
    (∃ u v, a = u ++ v ∧ v ≠ [] ∧ cutOutsideQuotes here (a ++ b) = some (u, v ++ b)) ∨
      cutOutsideQuotes here (a ++ b) =
        (cutOutsideQuotes here b).map fun cut => (a ++ cut.1, cut.2) := by
  induction a with
  | nil =>
      right
      cases hb : cutOutsideQuotes here b <;> simp [hb]
  | cons c a ih =>
      have hc := ha c (by simp)
      rw [List.cons_append, cutOutsideQuotes, if_neg (by simp [hc])]
      by_cases hhere : here (c :: (a ++ b)) = true
      · rw [if_pos hhere]
        exact .inl ⟨[], c :: a, rfl, by simp, rfl⟩
      · rw [if_neg hhere]
        rcases ih fun d hd => ha d (by simp [hd]) with ⟨u, v, rfl, hv, hcut⟩ | hcut
        · rw [hcut]
          exact .inl ⟨c :: u, v, rfl, hv, rfl⟩
        · rw [hcut, Option.map_map]
          exact .inr rfl

/-- A theme cannot open in a text and end after it if the text ends with a character that is foreign to
the keyword. -/
theorem seesOnly_startsTheme (ha : ∀ c ∈ a.getLast?, c ∉ themeKeyword) :
    SeesOnly startsTheme a b := by
  intro u hu hne
  have hword := seesOnly_startsWith (b := b) ha u hu hne
  rw [startsTheme, startsTheme, hword]
  cases hstart : startsWith themeKeyword u with
  | false => rfl
  | true =>
      obtain ⟨r, rfl⟩ := startsWith_iff.1 hstart
      cases r with
      | cons d r => simp [startsBlank]
      | nil =>
          -- the text would end with the keyword
          refine absurd ?_ (ha 'e' ?_)
          · simp [themeKeyword_eq]
          · rw [← getLast?_of_suffix hu hne]
            simp [themeKeyword_eq]

theorem startsTheme_of_ne {c : Char} (s : List Char) (hc : c ≠ '@') : startsTheme (c :: s) = false := by
  rw [Bool.eq_false_iff]
  intro h
  obtain ⟨r, hr⟩ := startsWith_iff.1 (startsWith_keyword_of_startsTheme h)
  rw [themeKeyword_eq] at hr
  exact hc (List.cons.inj hr).1

end Pass

/-- A comment that closes the strings it opens and opens no theme. -/
structure Idle (l : Lexeme) : Prop where
  settled : Settled l.text
  absent : Absent startsTheme l.text

section First

open Lexeme (first split join Whole)

variable {c : Char} {s : List Char}

theorem cutOutsideQuotes_comment {u : List Char}
    (h : Idle ⟨.comment, '/' :: '*' :: (commentRun u).1⟩) :
    cutOutsideQuotes startsTheme ('/' :: '*' :: u) =
      (cutOutsideQuotes startsTheme (commentRun u).2).map fun cut =>
        ('/' :: '*' :: (commentRun u).1 ++ cut.1, cut.2) := by
  have hsees : SeesOnly startsTheme ('/' :: '*' :: (commentRun u).1) (commentRun u).2 := by
    by_cases hrest : (commentRun u).2 = []
    · intro v hv hne
      rw [hrest, List.append_nil]
    · apply seesOnly_startsTheme
      have hclosed := closesComment_of_rest hrest
      have hlast := closesComment_getLast hclosed
      have hne : (commentRun u).1 ≠ [] := by
        intro hnil
        rw [hnil] at hlast
        cases hlast
      have hend : ('/' :: '*' :: (commentRun u).1).getLast? = some '/' := by
        rw [List.getLast?_cons_of_ne_nil (by simp), List.getLast?_cons_of_ne_nil hne, hlast]
      rw [hend]
      simp [themeKeyword_eq]
  have hcut := cutOutsideQuotes_append_of_none h.settled hsees h.absent
  conv_lhs => rw [← commentRun_append u]
  exact hcut

/-- Only in a word may a theme open. -/
theorem cutOutsideQuotes_first (hplain : (first c s).1.kind ≠ .plain)
    (hidle : (first c s).1.kind = .comment → Idle (first c s).1) :
    cutOutsideQuotes startsTheme (c :: s) =
      (cutOutsideQuotes startsTheme (first c s).2).map fun cut =>
        ((first c s).1.text ++ cut.1, cut.2) := by
  have hfirst := Lexeme.first_spec c s
  generalize first c s = found at hfirst hplain hidle
  cases hfirst with
  | mark hk =>
      have hc : isQuote c = false :=
        Lexeme.not_quote_of_punctuation (Lexeme.isPunctuation_of_kind hk)
      have hat : c ≠ '@' := by
        rintro rfl
        cases hk
      rw [cutOutsideQuotes, if_neg (by simp [hc]), startsTheme_of_ne s hat]
      rfl
  | quoted hq => rw [cutOutsideQuotes, if_pos hq]
  | comment hc hs =>
      subst hc hs
      exact cutOutsideQuotes_comment (hidle rfl)
  | blank hb =>
      have hall : ∀ d ∈ c :: s.takeWhile isBlank, isBlank d = true :=
        List.forall_mem_cons.2 ⟨hb, fun d hd => List.mem_takeWhile_imp hd⟩
      have hnone : ∀ u, u <:+ c :: s.takeWhile isBlank → u ≠ [] →
          startsTheme (u ++ s.dropWhile isBlank) = false := by
        intro u hu hne
        obtain ⟨d, v, rfl⟩ := List.exists_cons_of_ne_nil hne
        apply startsTheme_of_ne
        rintro rfl
        have hblank := hall '@' (hu.subset List.mem_cons_self)
        revert hblank
        decide
      have hskip := cutOutsideQuotes_skip (fun d hd => (not_quote_of_blank (hall d hd)).1) hnone
      rwa [List.cons_append, List.takeWhile_append_dropWhile] at hskip
  | plain => exact absurd rfl hplain

/-- The keyword of a theme stands at the end of a word. -/
theorem exists_word_of_cut {before rest : List Char}
    (hidle : ∀ l ∈ split s, l.kind = .comment → Idle l)
    (hcut : cutOutsideQuotes startsTheme s = some (before, rest)) :
    ∃ lexemes u v r, split s = lexemes ++ ⟨.plain, u ++ v⟩ :: split r ∧
      before = join lexemes ++ u ∧ rest = v ++ r ∧ v ≠ [] ∧ stopsPlain r = true := by
  fun_induction split s generalizing before rest with
  | case1 => simp [cutOutsideQuotes] at hcut
  | case2 c s ih =>
      obtain ⟨hfirst, hlater⟩ := List.forall_mem_cons.1 hidle
      have hstep (hpass : cutOutsideQuotes startsTheme (c :: s) =
          (cutOutsideQuotes startsTheme (first c s).2).map fun cut =>
            ((first c s).1.text ++ cut.1, cut.2)) :
          ∃ lexemes u v r, (first c s).1 :: split (first c s).2 =
            lexemes ++ ⟨.plain, u ++ v⟩ :: split r ∧ before = join lexemes ++ u ∧ rest = v ++ r ∧
            v ≠ [] ∧ stopsPlain r = true := by
        rw [hpass] at hcut
        obtain ⟨⟨front, back⟩, hlatercut, heq⟩ := Option.map_eq_some_iff.1 hcut
        obtain ⟨rfl, rfl⟩ := Prod.mk.inj heq
        obtain ⟨lexemes, u, v, r, hsplit, rfl, rfl, hv, hr⟩ := ih hlater hlatercut
        exact ⟨(first c s).1 :: lexemes, u, v, r, by rw [hsplit]; rfl, by simp, rfl, hv, hr⟩
      by_cases hplain : (first c s).1.kind = .plain
      · have hkind : (first c s).1.kind ≠ .quoted ∧ (first c s).1.kind ≠ .comment := by
          rw [hplain]
          decide
        have hwhole := Lexeme.first_whole (.inr (Lexeme.isClosed_of_kind hkind.1 hkind.2))
        have happ := Lexeme.first_append c s
        rcases @cutOutsideQuotes_unquoted startsTheme _ (first c s).2
          (hwhole.unquoted hkind.1 hkind.2) with ⟨u, v, huv, hv, hhit⟩ | hpass
        · rw [happ, hcut] at hhit
          obtain ⟨rfl, rfl⟩ := Prod.mk.inj (Option.some.inj hhit)
          refine ⟨[], before, v, (first c s).2, ?_, rfl, rfl, hv,
            (Lexeme.first_stopsAt c s).1 hplain⟩
          rw [← huv, ← hplain]
          rfl
        · rw [happ] at hpass
          exact hstep hpass
      · exact hstep (cutOutsideQuotes_first hplain hfirst)

end First

/-! ## Blocks among lexemes -/

/-- A comment does not stand directly behind a word. -/
def Apart (l m : Lexeme) : Prop :=
  m.kind = .comment → l.kind ≠ .plain

instance : DecidableRel Apart := fun l m =>
  inferInstanceAs (Decidable (m.kind = .comment → l.kind ≠ .plain))

/-- Lexemes whose comments have no part in strings, themes and words. -/
structure Quiet (lexemes : List Lexeme) : Prop where
  idle : ∀ l ∈ lexemes, l.kind = .comment → Idle l
  apart : lexemes.IsChain Apart

theorem Quiet.of_suffix {a b : List Lexeme} (h : Quiet b) (hab : a <:+ b) : Quiet a where
  idle l hl := h.idle l (hab.subset hl)
  apart := h.apart.infix hab.isInfix

section Opening

open Lexeme (split join Whole Segmented)

variable {s before after : List Char} {p : Span} {block : Theme.Block}

theorem plain_of_whole {t : List Char} (h : Whole ⟨.plain, t⟩) : Plain t := by
  cases h with
  | mark hk => exact absurd rfl (Lexeme.mark_kind hk).1
  | plain h => exact h

theorem exists_opening (hidle : ∀ l ∈ split s, l.kind = .comment → Idle l)
    (hcut : cutOutsideQuotes startsTheme s = some (before, themeKeyword ++ after)) :
    ∃ lexemes u, split s = lexemes ++ ⟨.plain, u ++ themeKeyword⟩ :: split after ∧
      before = join lexemes ++ u := by
  obtain ⟨lexemes, u, v, r, hsplit, hbefore, hrest, -, hr⟩ := exists_word_of_cut hidle hcut
  have hblank : startsBlank after = true := by
    rw [← startsTheme_keyword]
    exact cutOutsideQuotes_here hcut
  have hafter : stopsPlain after = true := by
    cases after with
    | nil => rfl
    | cons c after =>
        have hc : isBlank c = true := hblank
        simp [stopsPlain, isDelimiter, hc]
  have hword : Plain (u ++ v) :=
    plain_of_whole (Lexeme.whole_of_isClosed (s := s) (by simp [hsplit]) rfl)
  have hv : Plain v := ⟨fun c hc => hword.ordinary c (List.mem_append_right u hc),
    fun hcomment => hword.noComment (hcomment.trans (List.suffix_append u v).isInfix)⟩
  have hkeyword : Plain themeKeyword := by
    rw [themeKeyword_eq]
    exact Lexeme.plain_of_ordinary (by simp [isDelimiter, isPunctuation, isQuote, isBlank]) (by simp)
  -- the rest of the word up to where it stops is the keyword
  have hrun := plainRun_of_plain hv hr
  rw [← hrest, plainRun_of_plain hkeyword hafter] at hrun
  obtain ⟨rfl, rfl⟩ := Prod.mk.inj hrun
  exact ⟨lexemes, u, hsplit, hbefore⟩

/-- The text in front of a theme consists of whole lexemes, with no comment directly behind a word. -/
theorem whole_before (hquiet : Quiet (split s))
    (hcut : cutOutsideQuotes startsTheme s = some (before, themeKeyword ++ after)) :
    (∀ l ∈ split before, Whole l) ∧ (split before).IsChain Apart := by
  obtain ⟨lexemes, u, hsplit, rfl⟩ := exists_opening hquiet.idle hcut
  have hwhole := Lexeme.split_whole hsplit
  have hchain := Lexeme.split_chain s
  have hapart := hquiet.apart
  rw [hsplit, List.isChain_append] at hchain hapart
  by_cases hu : u = []
  · rw [hu, List.append_nil, Lexeme.split_join ⟨hwhole, hchain.1⟩]
    exact ⟨hwhole, hapart.1⟩
  · have hword : Plain (u ++ themeKeyword) :=
      plain_of_whole (Lexeme.whole_of_isClosed (s := s) (by simp [hsplit]) rfl)
    have hplain : Whole ⟨.plain, u⟩ := Lexeme.whole_of_plain hu
      ⟨fun d hd => hword.ordinary d (List.mem_append_left _ hd),
        fun hcomment => hword.noComment (hcomment.trans (List.prefix_append _ _).isInfix)⟩
    have hall : ∀ l ∈ lexemes ++ [⟨.plain, u⟩], Whole l := by
      rw [List.forall_mem_append]
      exact ⟨hwhole, by simpa using hplain⟩
    have hsegmented : Segmented (lexemes ++ [⟨.plain, u⟩]) := by
      refine ⟨hall, ?_⟩
      rw [List.isChain_append]
      exact ⟨hchain.1, by simp, by simpa [Lexeme.Follows] using hchain.2.2⟩
    have hjoin : join lexemes ++ u = join (lexemes ++ [⟨.plain, u⟩]) := by simp
    rw [hjoin, Lexeme.split_join hsegmented]
    refine ⟨hall, ?_⟩
    rw [List.isChain_append]
    exact ⟨hapart.1, by simp, by simp [Apart]⟩

section Block

variable (hread : Theme.read p after = .ok block)
  (hcomment : Absent startsComment (themeKeyword ++ block.source))

include hread hcomment

theorem exists_body : ∃ header body, block.source = header ++ '{' :: body ++ ['}'] ∧
    block.theme.entries = Theme.variablesOf body ∧ Settled (header ++ '{' :: body) ∧
    Settled body ∧ Absent startsComment (header ++ '{' :: body) ∧ Absent startsComment body ∧
    Absent (startsWith ['}']) body := by
  obtain ⟨header, body, hsource, hheader, -, hentries, hbody, hbrace⟩ := Theme.read_spec hread
  have hfront : Absent startsComment (header ++ '{' :: body) := by
    have hkeyword : ∀ c ∈ themeKeyword, isQuote c = false := by simp [themeKeyword_eq, isQuote]
    have hblock := hcomment.of_append hkeyword
    rw [hsource, startsComment_eq] at hblock
    rw [startsComment_eq]
    exact absent_word_of_append (by decide) hblock
  have hinside := (absent_cons_iff (by decide)).1 (hfront.of_append hheader)
  exact ⟨header, body, hsource, hentries,
    (settled_of_unquoted hheader).append (.plain (by decide) hbody), hbody, hfront, hinside.2, hbrace⟩

/-- What follows a block is cut into lexemes as if it stood alone. -/
theorem split_rest_suffix : split block.rest <:+ split after := by
  obtain ⟨header, body, hsource, -, hsettled, -, habsent, -⟩ := exists_body hread hcomment
  have hwhole := Lexeme.whole_of_settled hsettled habsent
  have hafter : after = (header ++ '{' :: body) ++ '}' :: block.rest := by
    rw [← Theme.read_append hread, hsource]
    simp
  rw [hafter, Lexeme.split_append_mark hwhole rfl]
  exact (List.suffix_cons _ _).trans (List.suffix_append _ _)

/-- The variables of a theme are whole lexemes without a closing brace. -/
theorem whole_entries : ∀ l ∈ split (' ' :: block.theme.entries.flatMap Theme.assignment),
    Whole l ∧ l.kind ≠ .closeBrace := by
  obtain ⟨header, body, -, hentries, -, hbody, -, habsent, hbrace⟩ := exists_body hread hcomment
  rw [hentries]
  have hsettled : Settled (' ' :: (Theme.variablesOf body).flatMap Theme.assignment) :=
    .plain (by decide) (Settled.flatMap fun v hv => Theme.settled_assignment hbody hv)
  have hcomments : Absent startsComment
      (' ' :: (Theme.variablesOf body).flatMap Theme.assignment) := by
    rw [startsComment_eq] at habsent ⊢
    exact (absent_cons_iff (by decide)).2 ⟨rfl,
      Theme.absent_assignments (by decide) (by simp) hbody habsent⟩
  have hbraces : Absent (startsWith ['}'])
      (' ' :: (Theme.variablesOf body).flatMap Theme.assignment) :=
    (absent_cons_iff (by decide)).2 ⟨rfl,
      Theme.absent_assignments (by decide) (by simp) hbody hbrace⟩
  exact fun l hl => ⟨Lexeme.whole_of_settled hsettled hcomments l hl,
    Lexeme.ne_closeBrace_of_absent hbraces hcomments l hl⟩

end Block

end Opening

/-! ## Blanks in front -/

section Blanks

open Lexeme (split Whole)

variable {blanks s : List Char} (hblanks : ∀ c ∈ blanks, isBlank c = true)

include hblanks

/-- Blanks in front of a text change no lexeme but its first blanks. -/
theorem exists_split_append_blanks :
    ∃ lead rest, split (blanks ++ s) = lead ++ rest ∧ rest <:+ split s ∧
      ∀ l ∈ lead, l.kind = .blank := by
  obtain ⟨lead, hlead, -, hkind⟩ := Lexeme.exists_split_blanks (blanks ++ s)
  obtain ⟨own, hown, -, -⟩ := Lexeme.exists_split_blanks s
  rw [List.dropWhile_append_of_pos hblanks] at hlead
  exact ⟨lead, _, hlead, ⟨own, hown.symm⟩, hkind⟩

theorem whole_append_blanks (h : ∀ l ∈ split s, Whole l) : ∀ l ∈ split (blanks ++ s), Whole l := by
  obtain ⟨lead, rest, hsplit, hrest, hlead⟩ := exists_split_append_blanks (s := s) hblanks
  intro l hl
  have hmem := hl
  rw [hsplit] at hmem
  rcases List.mem_append.1 hmem with hmem | hmem
  · have hkind := hlead l hmem
    exact Lexeme.whole_of_isClosed hl
      (Lexeme.isClosed_of_kind (by simp [hkind]) (by simp [hkind]))
  · exact h l (hrest.subset hmem)

theorem apart_append_blanks (h : (split s).IsChain Apart) :
    (split (blanks ++ s)).IsChain Apart := by
  obtain ⟨lead, rest, hsplit, hrest, hlead⟩ := exists_split_append_blanks (s := s) hblanks
  rw [hsplit]
  have htail : rest.IsChain Apart := h.infix hrest.isInfix
  clear hsplit
  induction lead with
  | nil => exact htail
  | cons l lead ih =>
      have hl : l.kind = .blank := hlead l (by simp)
      rw [List.cons_append, List.isChain_cons]
      exact ⟨fun m _ _ => by simp [hl], ih fun k hk => hlead k (by simp [hk])⟩

end Blanks

end Source

/-! ## Words -/

theorem Lexeme.exists_delimiter {s : List Char} {l : Lexeme} (h : l ∈ split s)
    (hplain : l.kind ≠ .plain) (hcomment : l.kind ≠ .comment) :
    ∃ c r, l.text = c :: r ∧ isDelimiter c = true := by
  fun_induction split s with
  | case1 => cases h
  | case2 c s ih =>
      rcases List.mem_cons.1 h with rfl | h
      · have hfirst := first_spec c s
        generalize first c s = found at hfirst hplain hcomment
        cases hfirst with
        | mark hk => exact ⟨c, [], rfl, by simp [isDelimiter, isPunctuation_of_kind hk]⟩
        | quoted hq => exact ⟨c, _, rfl, by simp [isDelimiter, hq]⟩
        | comment => exact absurd rfl hcomment
        | blank hb => exact ⟨c, _, rfl, by simp [isDelimiter, hb]⟩
        | plain => exact absurd rfl hplain
      · exact ih h

theorem Lexeme.text_isInfix {s : List Char} {l : Lexeme} (h : l ∈ split s) : l.text <:+: s := by
  obtain ⟨before, after, hsplit⟩ := List.append_of_mem h
  refine ⟨join before, join after, ?_⟩
  have hjoin := join_split s
  rw [hsplit] at hjoin
  simpa using hjoin

section Word

variable {s word : List Char} {tokens : List Token}

/-- Ordinary characters do not start what is written out where no word stands. -/
theorem Token.eq_nil_of_isPrefix_joinFrom (hword : ∀ c ∈ word, isDelimiter c = false)
    (hmem : ∀ t ∈ tokens, t.toLexeme ∈ Lexeme.split s)
    (hhead : ∀ t ∈ tokens.head?, t.kind ≠ .plain ∧ t.kind ≠ .comment)
    (h : word <+: Token.joinFrom false tokens) : word = [] := by
  cases word with
  | nil => rfl
  | cons c w =>
      have hc := hword c (by simp)
      cases tokens with
      | nil => simp [Token.joinFrom] at h
      | cons t tokens =>
          obtain ⟨hplain, hcomment⟩ := hhead t (by simp)
          by_cases hb : t.kind = .blank
          · rw [Token.joinFrom_blank hb, if_neg (by simp)] at h
            obtain ⟨rfl, -⟩ := List.cons_prefix_cons.1 h
            exact absurd hc (by decide)
          · obtain ⟨d, r, htext, hd⟩ := Lexeme.exists_delimiter (hmem t (by simp)) hplain hcomment
            rw [Token.joinFrom_solid hb hcomment, htext] at h
            obtain ⟨rfl, -⟩ := List.cons_prefix_cons.1 h
            rw [hc] at hd
            cases hd

/-- A word that tokens start with when they are written out stands in their text, where no comment
parts a word. -/
theorem Token.isInfix_of_isPrefix_joinFrom (hne : word ≠ [])
    (hword : ∀ c ∈ word, isDelimiter c = false)
    (hmem : ∀ t ∈ tokens, t.toLexeme ∈ Lexeme.split s)
    (hfollows : (tokens.map Token.toLexeme).IsChain Lexeme.Follows)
    (hapart : (tokens.map Token.toLexeme).IsChain Source.Apart)
    (h : word <+: Token.joinFrom true tokens) : word <:+: s := by
  induction tokens with
  | nil => exact absurd (List.prefix_nil.1 h) hne
  | cons t tokens ih =>
      have hrest : ∀ u ∈ tokens, u.toLexeme ∈ Lexeme.split s := fun u hu => hmem u (by simp [hu])
      rw [List.map_cons, List.isChain_cons] at hfollows hapart
      by_cases htrivia : t.isTrivia = true
      · rw [← List.singleton_append, Token.joinFrom_lead (by simpa using htrivia)] at h
        exact ih hrest hfollows.2 hapart.2 h
      · have hb : t.kind ≠ .blank := fun hk => htrivia (by simp [Token.isTrivia, Kind.isTrivia, hk])
        have hcomment : t.kind ≠ .comment := fun hk =>
          htrivia (by simp [Token.isTrivia, Kind.isTrivia, hk])
        have hin : t.toLexeme ∈ Lexeme.split s := hmem t (by simp)
        rw [Token.joinFrom_solid hb hcomment] at h
        by_cases hplain : t.kind = .plain
        · have hwhole := Lexeme.whole_of_isClosed hin
            (Lexeme.isClosed_of_kind (by simp [hplain]) (by simp [hplain]))
          rw [Token.endsSpaced_of_whole hwhole hb] at h
          obtain ⟨v, hv⟩ := h
          rcases List.append_eq_append_iff.1 hv with ⟨w, htext, -⟩ | ⟨w, rfl, hrun⟩
          · have hstart : word <+: t.text := ⟨w, htext.symm⟩
            exact hstart.isInfix.trans (Lexeme.text_isInfix hin)
          · -- what follows the word neither goes on with it nor is dropped
            have hhead : ∀ u ∈ tokens.head?, u.kind ≠ .plain ∧ u.kind ≠ .comment := by
              intro u hu
              have hnext : u.toLexeme ∈ (tokens.map Token.toLexeme).head? := by
                simpa using ⟨u, hu, rfl⟩
              exact ⟨(hfollows.1 _ hnext).1 hplain, fun hk => hapart.1 _ hnext hk hplain⟩
            have hnil := Token.eq_nil_of_isPrefix_joinFrom
              (fun c hc => hword c (List.mem_append_right _ hc)) hrest hhead ⟨v, hrun.symm⟩
            rw [hnil, List.append_nil]
            exact Lexeme.text_isInfix hin
        · obtain ⟨d, r, htext, hd⟩ := Lexeme.exists_delimiter hin hplain hcomment
          obtain ⟨c, w, rfl⟩ := List.exists_cons_of_ne_nil hne
          rw [htext, List.cons_append] at h
          obtain ⟨rfl, -⟩ := List.cons_prefix_cons.1 h
          rw [hword c (by simp)] at hd
          cases hd

end Word

end RichStyle
