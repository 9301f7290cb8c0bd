import RichStyle.Proofs.Lexemes

/-!
# One cutting for each text

What lexemes look like is said here apart from the scanner: marks, strings, comments, blanks and
ordinary runs, and the strings and comments that the end of a text leaves open.  Every text is cut
into such lexemes, and in one way only.
-/

namespace RichStyle

open Text

/-- The character that a mark of a kind consists of. -/
def Kind.mark? : Kind → Option Char
  | openBrace => some '{'
  | closeBrace => some '}'
  | openParen => some '('
  | closeParen => some ')'
  | colon => some ':'
  | semicolon => some ';'
  | quoted | blank | comment | plain => none

theorem Kind.ofPunctuation?_eq_some_iff {c : Char} {kind : Kind} :
    ofPunctuation? c = some kind ↔ kind.mark? = some c := by
  constructor
  · intro h
    unfold ofPunctuation? at h
    split at h <;> cases h <;> rfl
  · intro h
    cases kind <;> cases h <;> rfl

namespace Lexeme

/-! ## What lexemes look like -/

/--
What may stand between the quotes of a string: characters other than the quote and the backslash,
and pairs of a backslash and any character.
-/
inductive QuotedBody (q : Char) : List Char → Prop
  | nil : QuotedBody q []
  | char {c : Char} {s : List Char} (hc : c ≠ q) (hslash : c ≠ '\\') (hs : QuotedBody q s) :
      QuotedBody q (c :: s)
  | escape (c : Char) {s : List Char} (hs : QuotedBody q s) : QuotedBody q ('\\' :: c :: s)

/-- A lexeme with its end.  The `*/` of a comment is the first one after its `/*`. -/
inductive Complete : Lexeme → Prop
  | mark {kind : Kind} {c : Char} (h : kind.mark? = some c) : Complete ⟨kind, [c]⟩
  | quoted {q : Char} {body : List Char} (hq : isQuote q = true) (h : QuotedBody q body) :
      Complete ⟨.quoted, q :: (body ++ [q])⟩
  | comment {body : List Char} (h : ¬ ['*', '/'] <:+: body ++ ['*']) :
      Complete ⟨.comment, '/' :: '*' :: (body ++ ['*', '/'])⟩
  | blank {s : List Char} (hne : s ≠ []) (h : ∀ c ∈ s, isBlank c = true) : Complete ⟨.blank, s⟩
  | plain {s : List Char} (hne : s ≠ []) (h : ∀ c ∈ s, isDelimiter c = false)
      (hopen : ¬ ['/', '*'] <:+: s) : Complete ⟨.plain, s⟩

/-- A lexeme that lacks its end.  A string may even lack the character after a backslash. -/
inductive CutOff : Lexeme → Prop
  | quoted {q : Char} {body : List Char} (hq : isQuote q = true) (h : QuotedBody q body) :
      CutOff ⟨.quoted, q :: body⟩
  | escape {q : Char} {body : List Char} (hq : isQuote q = true) (h : QuotedBody q body) :
      CutOff ⟨.quoted, q :: (body ++ ['\\'])⟩
  | comment {body : List Char} (h : ¬ ['*', '/'] <:+: body) : CutOff ⟨.comment, '/' :: '*' :: body⟩

/-- Lexemes of which only the last may lack its end, with no two runs of one kind side by side. -/
structure Grammatical (lexemes : List Lexeme) : Prop where
  complete : ∀ l ∈ lexemes.dropLast, Complete l
  last : ∀ l ∈ lexemes.getLast?, Complete l ∨ CutOff l
  chain : lexemes.IsChain Follows

/-! ## Strings and comments -/

theorem quotedRun_append_body {q : Char} {body : List Char} (h : QuotedBody q body)
    (s : List Char) :
    quotedRun q (body ++ s) = (body ++ (quotedRun q s).1, (quotedRun q s).2) := by
  induction h with
  | nil => rfl
  | char hc hslash hs ih => rw [List.cons_append, quotedRun_cons hslash, if_neg hc, ih]; rfl
  | escape c hs ih => simp [quotedRun, ih]

theorem closesQuote_append_body {q : Char} {body : List Char} (hq : isQuote q = true)
    (h : QuotedBody q body) : closesQuote q (body ++ [q]) = true := by
  induction h with
  | nil => simp [closesQuote_cons (quote_ne_backslash hq)]
  | char hc hslash hs ih => rw [List.cons_append, closesQuote_cons hslash, if_neg hc, ih]
  | escape c hs ih => simpa [closesQuote] using ih

/-- A string is read up to its quote; one that is never closed is read up to the end. -/
theorem quotedRun_form {q : Char} (s : List Char) :
    ∃ body, QuotedBody q body ∧ ((quotedRun q s).1 = body ++ [q] ∨
      (quotedRun q s).2 = [] ∧ ((quotedRun q s).1 = body ∨ (quotedRun q s).1 = body ++ ['\\'])) := by
  fun_induction quotedRun q s with
  | case1 => exact ⟨[], .nil, .inr ⟨rfl, .inl rfl⟩⟩
  | case2 c s run ih =>
      obtain ⟨body, hbody, hrun⟩ := ih
      refine ⟨'\\' :: c :: body, .escape c hbody, ?_⟩
      simpa [run] using hrun
  | case3 s => exact ⟨[], .nil, .inl rfl⟩
  | case4 c s hne hcq run ih =>
      by_cases hslash : c = '\\'
      · -- a backslash in this case is the last character of the text
        subst hslash
        cases s with
        | nil => exact ⟨[], .nil, .inr ⟨rfl, .inr rfl⟩⟩
        | cons d s => exact absurd rfl (hne d s rfl)
      · obtain ⟨body, hbody, hrun⟩ := ih
        refine ⟨c :: body, .char hcq hslash hbody, ?_⟩
        simpa [run] using hrun

/-- What stands in front of a text in which no `*/` starts does not bring one about by `c`. -/
theorem not_isInfix_cons {c : Char} {s : List Char} (hs : ¬ ['*', '/'] <:+: s)
    (h : ∀ r, c = '*' → s = '/' :: r → False) : ¬ ['*', '/'] <:+: c :: s := by
  intro hi
  rcases List.infix_cons_iff.1 hi with ⟨r, hr⟩ | hi
  · obtain ⟨hc, hr⟩ := List.cons.inj hr
    exact h r hc.symm hr.symm
  · exact hs hi

/-- A comment is read up to its first `*/`; one that is never closed is read up to the end. -/
theorem commentRun_form (s : List Char) :
    (∃ body, (commentRun s).1 = body ++ ['*', '/'] ∧ ¬ ['*', '/'] <:+: body ++ ['*']) ∨
      (commentRun s).2 = [] ∧ ¬ ['*', '/'] <:+: (commentRun s).1 := by
  fun_induction commentRun s with
  | case1 => exact .inr ⟨rfl, by simp⟩
  | case2 s => exact .inl ⟨[], rfl, by simp [List.infix_cons_iff]⟩
  | case3 c s hne run ih =>
      have hopen : ∀ r, c = '*' → run.1 = '/' :: r → False := by
        intro r hc hr
        have hs := commentRun_append s
        have hrun : (commentRun s).1 = '/' :: r := hr
        rw [hrun] at hs
        exact hne _ hc hs.symm
      rcases ih with ⟨body, hrun, hbody⟩ | ⟨hrest, hrun⟩
      · refine .inl ⟨c :: body, by simp [run, hrun], not_isInfix_cons hbody ?_⟩
        intro r hc hr
        cases body with
        | nil => cases hr
        | cons d body =>
            obtain ⟨rfl, -⟩ := List.cons.inj hr
            exact hopen (body ++ ['*', '/']) hc hrun
      · exact .inr ⟨hrest, not_isInfix_cons hrun hopen⟩

theorem commentRun_of_not_isInfix {s : List Char} (h : ¬ ['*', '/'] <:+: s) :
    commentRun s = (s, []) := by
  induction s with
  | nil => rfl
  | cons c s ih =>
      have hs : ¬ ['*', '/'] <:+: s := fun hi => h (List.infix_cons hi)
      have hopen : ∀ r, c = '*' → s = '/' :: r → False := by
        rintro r rfl rfl
        exact h ⟨[], r, rfl⟩
      rw [commentRun_cons hopen, ih hs]

/-! ## Every text is cut by the grammar -/

theorem Whole.complete_of_run {l : Lexeme} (h : Whole l) (hl : l.kind = .blank ∨ l.kind = .plain) :
    Complete l := by
  cases h with
  | mark hk => exact .mark (Kind.ofPunctuation?_eq_some_iff.1 hk)
  | quoted => simp at hl
  | comment => simp at hl
  | blank h => exact .blank (by simp) h
  | plain h => exact .plain (by simp) h.ordinary h.noComment

theorem first_form (c : Char) (s : List Char) :
    Complete (first c s).1 ∨ (first c s).2 = [] ∧ CutOff (first c s).1 := by
  have hfirst := first_spec c s
  have hwhole := first_whole (c := c) (s := s)
  generalize first c s = found at hfirst hwhole
  cases hfirst with
  | mark hk => exact .inl (.mark (Kind.ofPunctuation?_eq_some_iff.1 hk))
  | quoted hq =>
      obtain ⟨body, hbody, hrun | ⟨hrest, hrun | hrun⟩⟩ := quotedRun_form (q := c) s
      · rw [hrun]
        exact .inl (.quoted hq hbody)
      · rw [hrun]
        exact .inr ⟨hrest, .quoted hq hbody⟩
      · rw [hrun]
        exact .inr ⟨hrest, .escape hq hbody⟩
  | @comment u hc hs =>
      rcases commentRun_form u with ⟨body, hrun, hbody⟩ | ⟨hrest, hbody⟩
      · rw [hrun]
        exact .inl (.comment hbody)
      · exact .inr ⟨hrest, .comment hbody⟩
  | blank hb => exact .inl ((hwhole (.inr rfl)).complete_of_run (.inl rfl))
  | plain hd hs => exact .inl ((hwhole (.inr rfl)).complete_of_run (.inr rfl))

theorem grammatical_split (s : List Char) : Grammatical (split s) := by
  refine ⟨?_, ?_, split_chain s⟩
  · fun_induction split s with
    | case1 => simp
    | case2 c s ih =>
        cases hrest : (first c s).2 with
        | nil => simp [split]
        | cons d t =>
            have hcut : (first c s).2 ≠ [] := by simp [hrest]
            have hfirst : Complete (first c s).1 :=
              (first_form c s).resolve_right fun h => hcut h.1
            rw [hrest, split] at ih
            rw [split, List.dropLast_cons_cons]
            exact List.forall_mem_cons.2 ⟨hfirst, ih⟩
  · fun_induction split s with
    | case1 => simp
    | case2 c s ih =>
        cases hrest : (first c s).2 with
        | nil =>
            intro l hl
            obtain rfl : (first c s).1 = l := by simpa [split] using hl
            exact (first_form c s).imp_right And.right
        | cons d t =>
            rw [hrest, split] at ih
            rw [split, List.getLast?_cons_cons]
            exact ih

/-! ## The lexemes of the grammar are found again -/

theorem Complete.whole {l : Lexeme} (h : Complete l) : Whole l := by
  cases h with
  | mark h => exact .mark (Kind.ofPunctuation?_eq_some_iff.2 h)
  | quoted hq h => exact .quoted hq (closesQuote_append_body hq h)
  | comment h => exact .comment (closesComment_of_not_isInfix h)
  | @blank s hne h =>
      obtain ⟨c, t, rfl⟩ := List.exists_cons_of_ne_nil hne
      exact .blank h
  | @plain s hne h hopen =>
      obtain ⟨c, t, rfl⟩ := List.exists_cons_of_ne_nil hne
      exact .plain ⟨h, hopen⟩

theorem CutOff.split_text {l : Lexeme} (h : CutOff l) : split l.text = [l] := by
  cases h with
  | @quoted q body hq h =>
      have hrun : quotedRun q body = (body, []) := by
        simpa [quotedRun] using quotedRun_append_body h []
      have hmark := ofPunctuation_of_ordinary (not_punctuation_of_quote hq)
      simp [split, first, hmark, hq, hrun]
  | @escape q body hq h =>
      have hslash : ('\\' : Char) ≠ q := (quote_ne_backslash hq).symm
      have hrun : quotedRun q (body ++ ['\\']) = (body ++ ['\\'], []) := by
        simpa [quotedRun, hslash] using quotedRun_append_body h ['\\']
      have hmark := ofPunctuation_of_ordinary (not_punctuation_of_quote hq)
      simp [split, first, hmark, hq, hrun]
  | comment h =>
      have hrun := commentRun_of_not_isInfix h
      simp [split, first, Kind.ofPunctuation?, isQuote, startsComment, hrun]

/-- Whatever stands in front of a string or a comment ends there. -/
theorem CutOff.stopsAt {l : Lexeme} (h : CutOff l) (m : Lexeme) : StopsAt m l.text := by
  cases h with
  | quoted hq h => simp [StopsAt, stopsPlain, isDelimiter, hq, not_blank_of_quote hq]
  | escape hq h => simp [StopsAt, stopsPlain, isDelimiter, hq, not_blank_of_quote hq]
  | comment h =>
      have hslash : isBlank '/' = false := by decide
      simp [StopsAt, stopsPlain, startsComment, hslash]

theorem Grammatical.split_join {lexemes : List Lexeme} (h : Grammatical lexemes) :
    split (join lexemes) = lexemes := by
  rcases List.eq_nil_or_concat lexemes with rfl | ⟨before, l, rfl⟩
  · simp [join, split]
  · rw [List.concat_eq_append] at h ⊢
    obtain ⟨hcomplete, hlast, hchain⟩ := h
    have hwhole : ∀ m ∈ before, Whole m := fun m hm => (hcomplete m (by simpa using hm)).whole
    rcases hlast l (by simp) with hl | hl
    · apply Lexeme.split_join
      refine ⟨fun m hm => ?_, hchain⟩
      rcases List.mem_append.1 hm with hm | hm
      · exact hwhole m hm
      · rw [List.mem_singleton.1 hm]
        exact hl.whole
    · have hbefore : Segmented before := ⟨hwhole, hchain.left_of_append⟩
      have hsplit := split_join_append hbefore (r := l.text) fun m _ => hl.stopsAt m
      simpa [join, hl.split_text] using hsplit

end Lexeme

/--
The tokens of a text are lexemes of the grammar that make up the text, and no other lexemes of the
grammar make it up.
-/
theorem Token.ofText_eq_iff (s : List Char) (lexemes : List Lexeme) :
    (Token.ofText s).map Token.toLexeme = lexemes ↔
      Lexeme.join lexemes = s ∧ Lexeme.Grammatical lexemes := by
  rw [ofText, place_map_toLexeme]
  constructor
  · rintro rfl
    exact ⟨Lexeme.join_split s, Lexeme.grammatical_split s⟩
  · rintro ⟨rfl, h⟩
    exact h.split_join

end RichStyle
