import RichStyle.Proofs.Scanners

/-!
# Modes

What a character of a text is depends on the characters in front of it: it stands in the text
itself, in a string or in a comment.  A mode says which, and one character at a time leads from mode
to mode.  The remover of comments and the cutter of lexemes look ahead each in its own way; both
see strings and comments where the modes are those of strings and comments.
-/

namespace RichStyle

open Text

/-- Where the next character of a text stands. -/
inductive Mode where
  /-- Outside strings and comments. -/
  | code
  /-- Outside strings and comments, after a slash. -/
  | slash
  /-- In a string opened by this quote. -/
  | quoted (q : Char)
  /-- In a string opened by this quote, after a backslash. -/
  | escaped (q : Char)
  /-- In a comment. -/
  | comment
  /-- In a comment, after a star. -/
  | star
deriving DecidableEq

namespace Mode

/-- The mode after a character outside strings and comments. -/
def enter (c : Char) : Mode :=
  if isQuote c then quoted c else if c = '/' then slash else code

/-- The mode after one more character. -/
def step : Mode → Char → Mode
  | code, c => enter c
  | slash, c => if c = '*' then comment else enter c
  | quoted q, c => if c = '\\' then escaped q else if c = q then code else quoted q
  | escaped q, _ => quoted q
  | comment, c => if c = '*' then star else comment
  | star, c => if c = '/' then code else if c = '*' then star else comment

/-- Whether a character stays when comments are removed; `s` is the text after it. -/
def keeps : Mode → Char → List Char → Bool
  | code, c, s => !startsComment (c :: s)
  | slash, c, s => c != '*' && !startsComment (c :: s)
  | quoted _, _, _ => true
  | escaped _, _, _ => true
  | comment, c, _ => c == '\n'
  | star, c, _ => c == '\n'

/-- What stays of a text when its comments are removed, one character after the other. -/
def kept (m : Mode) : List Char → List Char
  | [] => []
  | c :: s => if m.keeps c s then c :: kept (m.step c) s else kept (m.step c) s

@[simp] theorem kept_nil (m : Mode) : m.kept [] = [] := rfl

theorem kept_cons (m : Mode) (c : Char) (s : List Char) :
    m.kept (c :: s) = if m.keeps c s then c :: (m.step c).kept s else (m.step c).kept s := rfl

/-- A slash means nothing unless a star follows it. -/
theorem kept_slash {s : List Char} (h : ∀ r, s ≠ '*' :: r) : slash.kept s = code.kept s := by
  cases s with
  | nil => rfl
  | cons c s =>
      have hc : c ≠ '*' := fun hc => h s (by rw [hc])
      simp [kept_cons, keeps, step, hc]

/-- A star in a comment means nothing unless a slash follows it. -/
theorem kept_star {s : List Char} (h : ∀ r, s ≠ '/' :: r) : star.kept s = comment.kept s := by
  cases s with
  | nil => rfl
  | cons c s =>
      have hc : c ≠ '/' := fun hc => h s (by rw [hc])
      simp [kept_cons, keeps, step, hc]

theorem kept_quoted {q : Char} (hq : isQuote q = true) (s : List Char) :
    (quoted q).kept s = (quotedRun q s).1 ++ code.kept (quotedRun q s).2 := by
  fun_induction quotedRun q s with
  | case1 => rfl
  | case2 c s run ih =>
      simpa [kept_cons, keeps, step] using ih
  | case3 s =>
      have hslash := quote_ne_backslash hq
      simp [kept_cons, keeps, step, hslash]
  | case4 c s hne hcq run ih =>
      cases s with
      | nil => simp [kept_cons, keeps, run, quotedRun]
      | cons d s =>
          have hslash : c ≠ '\\' := fun hc => hne d s hc rfl
          simpa [kept_cons, keeps, step, hslash, hcq] using ih

theorem kept_comment (s : List Char) :
    comment.kept s = (commentRun s).1.filter (· == '\n') ++ code.kept (commentRun s).2 := by
  fun_induction commentRun s with
  | case1 => rfl
  | case2 s => simp [kept_cons, keeps, step]
  | case3 c s hne run ih =>
      have hnext : (comment.step c).kept s = comment.kept s := by
        by_cases hc : c = '*'
        · subst hc
          exact kept_star fun r hr => hne r rfl hr
        · simp [step, hc]
      rw [kept_cons, hnext, ih, List.filter_cons]
      by_cases hc : c = '\n' <;> simp [keeps, hc, run]

theorem kept_plain {c : Char} {s : List Char} (hq : isQuote c = false)
    (hs : startsComment (c :: s) = false) : code.kept (c :: s) = c :: code.kept s := by
  have hnext : (enter c).kept s = code.kept s := by
    by_cases hc : c = '/'
    · subst hc
      refine kept_slash fun r hr => ?_
      rw [hr] at hs
      cases hs
    · simp [enter, hq, hc]
  simp [kept_cons, keeps, step, hs, hnext]

/-- The remover of comments keeps what the modes keep. -/
theorem kept_code (s : List Char) : code.kept s = Source.withoutComments s := by
  fun_induction Source.withoutComments s with
  | case1 => rfl
  | case2 c s hq ih =>
      have hs : startsComment (c :: s) = false := by
        refine Source.startsComment_of_ne_slash s ?_
        rintro rfl
        cases hq
      simp [kept_cons, keeps, step, enter, hs, hq, kept_quoted hq, ih]
  | case3 c s hq hs ih =>
      obtain ⟨u, hu⟩ := Lexeme.startsComment_iff.1 hs
      obtain ⟨rfl, rfl⟩ := List.cons.inj hu
      simp only [List.drop_one, List.tail_cons] at ih ⊢
      rw [← ih, ← kept_comment]
      rfl
  | case4 c s hq hs ih =>
      rw [kept_plain (by simpa using hq) (by simpa using hs), ih]

end Mode

/-! ## Lexemes -/

namespace Lexeme

/-- What stays of a lexeme when comments are removed. -/
def uncommented (l : Lexeme) : List Char :=
  if l.kind = .comment then List.replicate (l.text.count '\n') '\n' else l.text

theorem kept_plainRun (s : List Char) :
    Mode.code.kept s = (plainRun s).1 ++ Mode.code.kept (plainRun s).2 := by
  fun_induction plainRun s with
  | case1 => rfl
  | case2 c s hstop => rfl
  | case3 c s hstop run ih =>
      simp only [isDelimiter, Bool.or_eq_true, not_or, Bool.not_eq_true] at hstop
      rw [Mode.kept_plain hstop.1.1.2 hstop.2, ih]
      rfl

theorem kept_blankRun (s : List Char) :
    Mode.code.kept s = s.takeWhile isBlank ++ Mode.code.kept (s.dropWhile isBlank) := by
  induction s with
  | nil => rfl
  | cons c s ih =>
      cases hb : isBlank c with
      | false => simp [hb]
      | true =>
          have hslash : c ≠ '/' := by
            rintro rfl
            revert hb
            decide
          have hq : isQuote c = false := by
            rw [Bool.eq_false_iff]
            intro hq
            rw [not_blank_of_quote hq] at hb
            cases hb
          rw [Mode.kept_plain hq (Source.startsComment_of_ne_slash s hslash), ih]
          simp [hb]

/-- The first lexeme of a text ends where the modes say that it ends. -/
theorem kept_first (c : Char) (s : List Char) :
    Mode.code.kept (c :: s) = (first c s).1.uncommented ++ Mode.code.kept (first c s).2 := by
  have hfirst := first_spec c s
  generalize first c s = found at hfirst
  cases hfirst with
  | mark hk =>
      have hp := isPunctuation_of_kind hk
      have hslash : c ≠ '/' := by
        rintro rfl
        cases hp
      rw [Mode.kept_plain (not_quote_of_punctuation hp) (Source.startsComment_of_ne_slash s hslash)]
      simp [uncommented, (mark_kind hk).2.2.2]
  | quoted hq =>
      have hs : startsComment (c :: s) = false := by
        refine Source.startsComment_of_ne_slash s ?_
        rintro rfl
        cases hq
      simp [Mode.kept_cons, Mode.keeps, Mode.step, Mode.enter, hs, hq, Mode.kept_quoted hq,
        uncommented]
  | @comment u hc hs =>
      subst hc hs
      have hopen : Mode.code.kept ('/' :: '*' :: u) = Mode.comment.kept u := rfl
      rw [hopen, Mode.kept_comment, List.filter_beq]
      simp [uncommented]
  | blank hb =>
      have hrun := kept_blankRun (c :: s)
      simpa [hb, uncommented] using hrun
  | plain hd hs =>
      have hrun := kept_plainRun (c :: s)
      simp only [plainRun, hd, hs, Bool.or_self] at hrun
      simpa [uncommented] using hrun

theorem kept_split (s : List Char) :
    Mode.code.kept s = (split s).flatMap uncommented := by
  fun_induction split s with
  | case1 => rfl
  | case2 c s ih => rw [kept_first, ih, List.flatMap_cons]

end Lexeme

/-- Removing comments and cutting into tokens agree on what a comment is: of a text its tokens stay,
with each comment replaced by its line feeds.  This is also what the modes keep of it. -/
theorem Source.withoutComments_eq_tokens (s : List Char) :
    withoutComments s = (Token.ofText s).flatMap (fun t => t.uncommented) ∧
      withoutComments s = Mode.code.kept s := by
  have htokens : (Token.ofText s).flatMap (fun t => t.uncommented) =
      (Lexeme.split s).flatMap Lexeme.uncommented := by
    conv_rhs => rw [← Token.place_map_toLexeme .start (Lexeme.split s), List.flatMap_map]
    rfl
  rw [htokens, ← Lexeme.kept_split, Mode.kept_code]
  exact ⟨rfl, rfl⟩

end RichStyle
