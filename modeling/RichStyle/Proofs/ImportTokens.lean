import RichStyle.Proofs.LineFeeds
import RichStyle.Proofs.Spacing
import RichStyle.Proofs.Stripping

/-!
# Imports and the tokens around them

An import is found by the two ends of its line.  What stands between the first and the last quote is
taken for a path, whatever tokens it is made of, and so is a line inside a string.  The tokens of the
line are those of an import statement exactly if it starts outside strings, its path is one string,
and the keyword does not run into the word after it.
-/

namespace RichStyle

open Text

/-- Blanks, or nothing. -/
abbrev Text.Blanks := { w : List Char // ∀ c ∈ w, isBlank c = true }

/-- The parts of a line that imports a path.  The path may be wrapped in `url(…)`. -/
structure ImportLine where
  lead : Blanks
  gap : Blanks
  wrap : Option (Blanks × Blanks)
  quote : Char
  isQuote_quote : isQuote quote = true
  target : List Char
  space : Blanks
  trail : Blanks

namespace ImportLine

/-- The path in its quotes. -/
def literal (form : ImportLine) : List Char :=
  form.quote :: (form.target ++ [form.quote])

/-- What wraps the path in front. -/
def opening (form : ImportLine) : List Char :=
  match form.wrap with
  | none => []
  | some (inner, _) => "url(".toList ++ inner.1

/-- What wraps the path behind. -/
def closing (form : ImportLine) : List Char :=
  match form.wrap with
  | none => []
  | some (_, inner) => inner.1 ++ [')']

/-- The line. -/
def text (form : ImportLine) : List Char :=
  form.lead.1 ++ ("@import".toList ++ (form.gap.1 ++ (form.opening ++ (form.literal ++
    (form.closing ++ (form.space.1 ++ ';' :: form.trail.1))))))

/-- The tokens of an import statement. -/
def lexemes (form : ImportLine) : List Lexeme :=
  let opening := [⟨.plain, "url".toList⟩, ⟨.openParen, ['(']⟩]
  let closing := [⟨.closeParen, [')']⟩]
  ⟨.plain, "@import".toList⟩ :: ((if form.wrap.isSome then opening else []) ++
    ⟨.quoted, form.literal⟩ :: ((if form.wrap.isSome then closing else []) ++
      [⟨.semicolon, [';']⟩]))

end ImportLine

/-! ## Which lines are imports -/

namespace Source

theorem unwrapUrl_cases (s : List Char) :
    (∃ inside, s = "url(".toList ++ (inside ++ [')']) ∧ unwrapUrl s = trim inside) ∨
      unwrapUrl s = s := by
  unfold unwrapUrl
  split
  · next inside h =>
      obtain ⟨r, hr, hinside⟩ := Option.bind_eq_some_iff.1 h
      rw [dropTrailing?_eq_some_iff] at hinside
      rw [dropLeading?_eq_some_iff, hinside] at hr
      exact .inl ⟨inside, hr, rfl⟩
  · exact .inr rfl

theorem exists_trimStart (s : List Char) :
    ∃ lead, s = lead ++ trimStart s ∧ ∀ c ∈ lead, isBlank c = true :=
  ⟨s.takeWhile isBlank, List.takeWhile_append_dropWhile.symm, fun _ hc => List.mem_takeWhile_imp hc⟩

theorem unwrapUrl_of_ne {c : Char} {s : List Char} (hc : c ≠ 'u') : unwrapUrl (c :: s) = c :: s := by
  rcases unwrapUrl_cases (c :: s) with ⟨inside, heq, -⟩ | h
  · exact absurd (List.cons.inj heq).1 hc
  · exact h

theorem unwrapUrl_url (inside : List Char) :
    unwrapUrl ("url(".toList ++ (inside ++ [')'])) = trim inside := by
  unfold unwrapUrl
  rw [dropLeading?_eq_some_iff.2 rfl, Option.bind_some, dropTrailing?_eq_some_iff.2 rfl]

/-- What a line imports shows its parts. -/
theorem exists_importLine {line target : List Char} (h : importTarget? line = some target) :
    ∃ form : ImportLine, form.text = line ∧ form.target = target := by
  obtain ⟨statement, hstatement, h⟩ := Option.bind_eq_some_iff.1 h
  obtain ⟨path, hpath, h⟩ := Option.bind_eq_some_iff.1 h
  obtain ⟨q, hq, hliteral⟩ := unwrapQuotes?_eq_some_iff.1 h
  obtain ⟨lead, trail, hline, hlead, htrail⟩ := exists_trim line
  obtain ⟨gap, hgap, hgapBlank⟩ := exists_trimStart statement
  obtain ⟨extra, space, htrim, hextra, hspace⟩ := exists_trim path
  have hgap' : ∀ c ∈ gap ++ extra, isBlank c = true := by
    intro c hc
    rcases List.mem_append.1 hc with hc | hc
    · exact hgapBlank c hc
    · exact hextra c hc
  have hwhole : line = lead ++ ("@import".toList ++ ((gap ++ extra) ++ (trim path ++
      (space ++ ';' :: trail)))) := by
    rw [hline, dropLeading?_eq_some_iff.1 hstatement, hgap, dropTrailing?_eq_some_iff.1 hpath]
    conv_lhs => rw [htrim]
    simp
  rcases unwrapUrl_cases (trim path) with ⟨inside, hurl, hinside⟩ | hbare
  · obtain ⟨front, back, hpad, hfront, hback⟩ := exists_trim inside
    refine ⟨⟨⟨lead, hlead⟩, ⟨gap ++ extra, hgap'⟩, some (⟨front, hfront⟩, ⟨back, hback⟩), q, hq,
      target, ⟨space, hspace⟩, ⟨trail, htrail⟩⟩, ?_, rfl⟩
    rw [hwhole, hurl, hpad, ← hinside, hliteral]
    simp [ImportLine.text, ImportLine.opening, ImportLine.closing, ImportLine.literal]
  · refine ⟨⟨⟨lead, hlead⟩, ⟨gap ++ extra, hgap'⟩, none, q, hq, target, ⟨space, hspace⟩,
      ⟨trail, htrail⟩⟩, ?_, rfl⟩
    rw [hwhole, ← hbare, hliteral]
    simp [ImportLine.text, ImportLine.opening, ImportLine.closing, ImportLine.literal]

end Source

namespace ImportLine

variable (form : ImportLine)

theorem getLast_literal : form.literal.getLast? = some form.quote := by
  rw [literal, ← List.cons_append, List.getLast?_concat]

theorem unwrapUrl_wrapped :
    Source.unwrapUrl (form.opening ++ (form.literal ++ form.closing)) = form.literal := by
  have hblank := Lexeme.not_blank_of_quote form.isQuote_quote
  have hne : form.quote ≠ 'u' := by
    intro h
    have hq := form.isQuote_quote
    rw [h] at hq
    cases hq
  unfold opening closing
  split
  · rw [List.nil_append, List.append_nil]
    exact Source.unwrapUrl_of_ne hne
  · next front back hwrap =>
      have hwrapped : "url(".toList ++ front.1 ++ (form.literal ++ (back.1 ++ [')'])) =
          "url(".toList ++ ((front.1 ++ (form.literal ++ back.1)) ++ [')']) := by simp
      rw [hwrapped, Source.unwrapUrl_url]
      apply Lexeme.trim_append front.2 back.2
      · simpa [literal] using hblank
      · simpa [getLast_literal] using hblank

/-- The path in its wrapping has no blanks at its ends. -/
theorem wrapped_unpadded :
    (∀ c ∈ (form.opening ++ (form.literal ++ form.closing)).head?, isBlank c = false) ∧
      ∀ c ∈ (form.opening ++ (form.literal ++ form.closing)).getLast?, isBlank c = false := by
  have hblank := Lexeme.not_blank_of_quote form.isQuote_quote
  have hurl : isBlank 'u' = false := by decide
  have hparen : isBlank ')' = false := by decide
  unfold opening closing
  split
  · constructor
    · simpa [literal] using hblank
    · simpa [getLast_literal] using hblank
  · next front back hwrap =>
      constructor
      · simpa using hurl
      · rw [← List.append_assoc, ← List.append_assoc, List.getLast?_concat]
        simpa using hparen

theorem importTarget_text : Source.importTarget? form.text = some form.target := by
  obtain ⟨hhead, hlast⟩ := form.wrapped_unpadded
  have hunwrap := form.unwrapUrl_wrapped
  generalize hw : form.opening ++ (form.literal ++ form.closing) = wrapped at hhead hlast hunwrap
  have htext : form.text = form.lead.1 ++ (("@import".toList ++ (form.gap.1 ++
      ((wrapped ++ form.space.1) ++ [';']))) ++ form.trail.1) := by
    rw [← hw]
    simp [text]
  have hline : trim form.text =
      "@import".toList ++ (form.gap.1 ++ ((wrapped ++ form.space.1) ++ [';'])) := by
    have hat : isBlank '@' = false := by decide
    have hend : isBlank ';' = false := by decide
    rw [htext]
    apply Lexeme.trim_append form.lead.2 form.trail.2
    · simpa using hat
    · rw [← List.append_assoc, ← List.append_assoc, List.getLast?_concat]
      simpa using hend
  have hstart : trimStart (form.gap.1 ++ ((wrapped ++ form.space.1) ++ [';'])) =
      (wrapped ++ form.space.1) ++ [';'] := by
    have hne : wrapped ≠ [] := by
      rw [← hw]
      simp [literal]
    obtain ⟨c, x, rfl⟩ := List.exists_cons_of_ne_nil hne
    have hc : isBlank c = false := hhead c (by simp)
    unfold trimStart
    rw [List.dropWhile_append_of_pos form.gap.2]
    simp [hc]
  have hpath : trim (wrapped ++ form.space.1) = wrapped :=
    Lexeme.trim_append (a := []) (by simp) form.space.2 hhead hlast
  unfold Source.importTarget?
  rw [hline, dropLeading?_eq_some_iff.2 rfl, Option.bind_eq_bind, Option.bind_some, hstart,
    dropTrailing?_eq_some_iff.2 rfl, Option.bind_some, hpath, hunwrap]
  exact unwrapQuotes?_eq_some_iff.2 ⟨form.quote, form.isQuote_quote, rfl⟩

end ImportLine

namespace Source

/-- A line is an import by its two ends. -/
theorem importTarget_eq_some_iff {line target : List Char} :
    importTarget? line = some target ↔
      ∃ form : ImportLine, form.text = line ∧ form.target = target := by
  constructor
  · exact exists_importLine
  · rintro ⟨form, rfl, rfl⟩
    exact form.importTarget_text

end Source

/-! ## The tokens of an import line -/

namespace Lexeme

theorem solid_of_blank {lexemes : List Lexeme} (h : ∀ l ∈ lexemes, l.kind = .blank) :
    solid lexemes = [] := by
  rw [solid, List.filter_eq_nil_iff]
  intro l hl
  simp [h l hl, Kind.isTrivia]

theorem solid_split_dropWhile (s : List Char) :
    solid (split (s.dropWhile isBlank)) = solid (split s) := by
  obtain ⟨lead, hsplit, -, hlead⟩ := exists_split_blanks s
  rw [hsplit, solid_append, solid_of_blank hlead, List.nil_append]

/-- Blanks in front of a text are none of its tokens. -/
theorem solid_split_blanks (w : Blanks) (s : List Char) :
    solid (split (w.1 ++ s)) = solid (split s) := by
  rw [← solid_split_dropWhile, List.dropWhile_append_of_pos w.2, solid_split_dropWhile]

theorem Whole.solid_split {l : Lexeme} (hl : Whole l) (hsolid : l.kind.isTrivia = false)
    {r : List Char} (hr : StopsAt l r) :
    solid (split (l.text ++ r)) = l :: solid (split r) := by
  rw [hl.split_append hr]
  simp [solid, hsolid]

theorem solid_split_mark {c : Char} {kind : Kind} (hk : Kind.ofPunctuation? c = some kind)
    (r : List Char) : solid (split (c :: r)) = ⟨kind, [c]⟩ :: solid (split r) := by
  obtain ⟨hplain, hblank, -, hcomment⟩ := mark_kind hk
  have hstop : StopsAt ⟨kind, [c]⟩ r := ⟨fun h => absurd h hplain, fun h => absurd h hblank⟩
  have hsolid : kind.isTrivia = false := by cases kind <;> simp_all [Kind.isTrivia]
  exact (Whole.mark hk).solid_split hsolid hstop

/-- A text whose last lexeme is a blank has the tokens of another text behind its own. -/
theorem solid_split_append {s : List Char} (hlast : ∀ l ∈ (split s).getLast?, l.kind = .blank)
    (r : List Char) : solid (split (s ++ r)) = solid (split s) ++ solid (split r) := by
  rcases List.eq_nil_or_concat (split s) with hnil | ⟨before, ⟨kind, w⟩, hsplit⟩
  · have hs := join_split s
    rw [hnil, join_nil] at hs
    rw [hnil, ← hs]
    rfl
  · rw [List.concat_eq_append] at hsplit
    obtain rfl : kind = .blank := hlast ⟨kind, w⟩ (by simp [hsplit])
    have hblank (v : List Char) : solid [⟨.blank, v⟩] = [] := rfl
    rw [split_append_blank r hsplit, hsplit, solid_append, solid_append, hblank, solid_cons, hblank,
      solid_split_dropWhile, List.append_nil, List.nil_append]

/-- A quote ends whatever stands in front of it. -/
theorem split_append_quote {s u : List Char} {q : Char} (h : ∀ l ∈ split s, Whole l)
    (hq : isQuote q = true) : split (s ++ q :: u) = split s ++ split (q :: u) := by
  refine split_append_of_whole h fun l _ => ⟨?_, ?_⟩
  · intro _
    simp [stopsPlain, isDelimiter, hq]
  · intro _
    simp [not_blank_of_quote hq]

theorem solid_split_quote {q : Char} (s : List Char) (hq : isQuote q = true) :
    solid (split (q :: s)) =
      ⟨.quoted, q :: (quotedRun q s).1⟩ :: solid (split (quotedRun q s).2) := by
  have hfirst : first q s = (⟨.quoted, q :: (quotedRun q s).1⟩, (quotedRun q s).2) := by
    simp [first, ofPunctuation_of_ordinary (not_punctuation_of_quote hq), hq]
  rw [split, hfirst]
  rfl

/-- A text in quotes with something behind it is one token exactly if the last quote closes it. -/
theorem solid_split_literal_iff {q : Char} {s r : List Char} (hq : isQuote q = true) (hr : r ≠ []) :
    solid (split (q :: (s ++ r))) = ⟨.quoted, q :: s⟩ :: solid (split r) ↔
      closesQuote q s = true := by
  rw [solid_split_quote _ hq]
  constructor
  · intro h
    obtain ⟨hrun, -⟩ := List.cons.inj h
    have hrun : (quotedRun q (s ++ r)).1 = s := by simpa using hrun
    have happ := quotedRun_append q (s ++ r)
    rw [hrun, List.append_cancel_left_eq] at happ
    have hcloses := closesQuote_of_rest (q := q) (s := s ++ r) (by rw [happ]; exact hr)
    rwa [hrun] at hcloses
  · intro h
    rw [quotedRun_of_closes r hq h]

end Lexeme

namespace ImportLine

open Lexeme (solid split Whole StopsAt solid_split_blanks solid_split_mark)

variable (form : ImportLine)

theorem solid_split_closing (r : List Char) :
    solid (split (form.closing ++ (form.space.1 ++ ';' :: (form.trail.1 ++ r)))) =
      (if form.wrap.isSome then [⟨.closeParen, [')']⟩] else []) ++
        ⟨.semicolon, [';']⟩ :: solid (split r) := by
  have hsemicolon : Kind.ofPunctuation? ';' = some .semicolon := rfl
  have hparen : Kind.ofPunctuation? ')' = some .closeParen := rfl
  have hend : solid (split (form.space.1 ++ ';' :: (form.trail.1 ++ r))) =
      ⟨.semicolon, [';']⟩ :: solid (split r) := by
    rw [solid_split_blanks, solid_split_mark hsemicolon, solid_split_blanks]
  unfold closing
  split
  · next hwrap => simp [hwrap, hend]
  · next front back hwrap =>
      rw [List.append_assoc, solid_split_blanks, List.singleton_append, solid_split_mark hparen,
        hend, hwrap]
      rfl

theorem whole_word {word : List Char} (hne : word ≠ [])
    (h : (word.all fun c => !isDelimiter c && c != '/') = true) : Whole ⟨.plain, word⟩ := by
  simp only [List.all_eq_true, Bool.and_eq_true, Bool.not_eq_true', bne_iff_ne] at h
  exact Lexeme.whole_of_plain hne
    (Lexeme.plain_of_ordinary (fun c hc => (h c hc).1) fun hslash => (h _ hslash).2 rfl)

/-- A keyword that a word follows at once is not the keyword. -/
theorem solid_split_glued (hwrap : form.wrap.isSome = true) (r : List Char) :
    ∃ lexemes, solid (split ("@import".toList ++ (form.opening ++ r))) =
      ⟨.plain, "@importurl".toList⟩ :: lexemes := by
  obtain ⟨⟨front, back⟩, hwrap⟩ := Option.isSome_iff_exists.1 hwrap
  have htext : "@import".toList ++ (form.opening ++ r) =
      "@importurl".toList ++ '(' :: (front.1 ++ r) := by
    simp [opening, hwrap]
  rw [htext]
  exact ⟨_, (whole_word (by decide) (by decide)).solid_split rfl ⟨fun _ => rfl, fun h => by cases h⟩⟩

theorem solid_split_opening (hgap : form.wrap.isSome = true → form.gap.1 ≠ []) (r : List Char) :
    solid (split ("@import".toList ++ (form.gap.1 ++ (form.opening ++ (form.literal ++ r))))) =
      ⟨.plain, "@import".toList⟩ ::
        ((if form.wrap.isSome then [⟨.plain, "url".toList⟩, ⟨.openParen, ['(']⟩] else []) ++
          solid (split (form.literal ++ r))) := by
  have hopen : solid (split (form.opening ++ (form.literal ++ r))) =
      (if form.wrap.isSome then [⟨.plain, "url".toList⟩, ⟨.openParen, ['(']⟩] else []) ++
        solid (split (form.literal ++ r)) := by
    have hparen : Kind.ofPunctuation? '(' = some .openParen := rfl
    unfold opening
    split
    · next hwrap => simp [hwrap]
    · next front back hwrap =>
        have htext : "url(".toList ++ front.1 ++ (form.literal ++ r) =
            "url".toList ++ '(' :: (front.1 ++ (form.literal ++ r)) := by simp
        have hword : Whole ⟨.plain, "url".toList⟩ := whole_word (by decide) (by decide)
        rw [htext, hword.solid_split rfl ⟨fun _ => rfl, fun h => by cases h⟩, solid_split_mark hparen,
          solid_split_blanks, hwrap]
        rfl
  have hstop : StopsAt ⟨.plain, "@import".toList⟩
      (form.gap.1 ++ (form.opening ++ (form.literal ++ r))) := by
    refine ⟨fun _ => ?_, fun h => by cases h⟩
    cases hg : form.gap.1 with
    | nil =>
        have hwrap : form.wrap = none := by
          rw [← Option.not_isSome_iff_eq_none]
          exact fun h => hgap h hg
        simp [opening, hwrap, literal, stopsPlain, isDelimiter, form.isQuote_quote]
    | cons c gap =>
        have hc : isBlank c = true := form.gap.2 c (by simp [hg])
        simp [stopsPlain, isDelimiter, hc]
  have hword : Whole ⟨.plain, "@import".toList⟩ := whole_word (by decide) (by decide)
  rw [hword.solid_split rfl hstop, solid_split_blanks, hopen]

/-- When the tokens of an import line are those of an import statement. -/
theorem solid_split_text_iff (r : List Char) :
    solid (split (form.text ++ r)) = form.lexemes ++ solid (split r) ↔
      (form.wrap.isSome = true → form.gap.1 ≠ []) ∧
        closesQuote form.quote (form.target ++ [form.quote]) = true := by
  have htext : form.text ++ r = form.lead.1 ++ ("@import".toList ++ (form.gap.1 ++ (form.opening ++
      (form.literal ++ (form.closing ++ (form.space.1 ++ ';' :: (form.trail.1 ++ r))))))) := by
    simp [text]
  have hlexemes : form.lexemes ++ solid (split r) =
      ⟨.plain, "@import".toList⟩ ::
        ((if form.wrap.isSome then [⟨.plain, "url".toList⟩, ⟨.openParen, ['(']⟩] else []) ++
          ⟨.quoted, form.literal⟩ ::
            solid (split (form.closing ++ (form.space.1 ++ ';' :: (form.trail.1 ++ r))))) := by
    rw [solid_split_closing]
    simp [lexemes]
  rw [htext, hlexemes, solid_split_blanks]
  by_cases hgap : form.wrap.isSome = true → form.gap.1 ≠ []
  · rw [solid_split_opening form hgap, List.cons_inj_right, List.append_cancel_left_eq]
    rw [and_iff_right hgap]
    exact Lexeme.solid_split_literal_iff form.isQuote_quote (by simp)
  · simp only [hgap, false_and, iff_false]
    obtain ⟨hwrap, hnil⟩ : form.wrap.isSome = true ∧ form.gap.1 = [] := by simpa using hgap
    rw [hnil, List.nil_append]
    obtain ⟨lexemes, hglued⟩ := form.solid_split_glued hwrap
      (form.literal ++ (form.closing ++ (form.space.1 ++ ';' :: (form.trail.1 ++ r))))
    rw [hglued]
    intro h
    have hword := (List.cons.inj h).1
    revert hword
    decide

theorem text_ne_nil : form.text ≠ [] := by
  simp [text]

end ImportLine

/-! ## Where a line starts -/

namespace Source

open Lexeme (solid split Whole)

theorem absent_comment_of_append {a b : List Char} (h : Absent startsComment (a ++ b)) :
    Absent startsComment a := by
  rw [startsComment_eq] at h ⊢
  exact absent_word_of_append (by decide) h

/-- The tokens of a text are tokens of a longer text only if its strings are closed. -/
theorem settled_of_solid {a r : List Char} {lexemes : List Lexeme}
    (hcomment : Absent startsComment (a ++ r)) (hr : r ≠ [])
    (h : solid (split (a ++ r)) = solid (split a) ++ lexemes) : Settled a := by
  rcases settled_or_leavesOpen a with ha | ⟨x, q, u, rfl, hx, hq, hu⟩
  · exact ha
  · have hwhole : ∀ l ∈ split x, Whole l :=
      Lexeme.whole_of_settled hx (absent_comment_of_append (absent_comment_of_append hcomment))
    rw [List.append_assoc, List.cons_append, Lexeme.split_append_quote hwhole hq,
      Lexeme.split_append_quote hwhole hq, Lexeme.solid_append, Lexeme.solid_append,
      Lexeme.solid_split_quote _ hq, Lexeme.solid_split_quote _ hq, List.append_assoc,
      List.append_cancel_left_eq] at h
    have hopen : closesQuote q (quotedRun q u).1 = false := by simpa [leavesOpen] using hu
    have hrun : (quotedRun q (u ++ r)).1 = (quotedRun q u).1 := by
      simpa using (List.cons.inj h).1
    -- the open string takes in all of the text, and so would end there
    have hrest : (quotedRun q u).2 = [] := by
      by_contra hne
      rw [closesQuote_of_rest hne] at hopen
      cases hopen
    have hall := quotedRun_append q u
    rw [hrest, List.append_nil] at hall
    have happ := quotedRun_append q (u ++ r)
    rw [hrun, hall, List.append_cancel_left_eq] at happ
    have hcloses := closesQuote_of_rest (q := q) (s := u ++ r) (by rw [happ]; exact hr)
    rw [hrun, hopen] at hcloses
    cases hcloses

/-- A line in front of another one ends with a line feed. -/
theorem feed_of_splitLines {s line : List Char} {before after : List (List Char)}
    (h : splitLines s = before ++ line :: after) : ∀ l ∈ before, ∃ x, l = x ++ ['\n'] := by
  induction s generalizing before with
  | nil => simp [splitLines] at h
  | cons c s ih =>
      cases before with
      | nil => simp
      | cons first before =>
          rw [splitLines] at h
          split at h
          · next hc =>
              obtain ⟨rfl, hrest⟩ := List.cons.inj h
              exact List.forall_mem_cons.2 ⟨⟨[], by simp [hc]⟩, ih hrest⟩
          · split at h
            · simp at h
            · next x lines hlines =>
                obtain ⟨rfl, hrest⟩ := List.cons.inj h
                have hlines' : splitLines s = (x :: before) ++ line :: after := by
                  rw [hlines, hrest]
                  rfl
                have hboth := ih hlines'
                obtain ⟨⟨y, rfl⟩, htail⟩ := List.forall_mem_cons.1 hboth
                exact List.forall_mem_cons.2 ⟨⟨c :: y, rfl⟩, htail⟩

theorem getLast_before {s line : List Char} {before after : List (List Char)}
    (h : splitLines s = before ++ line :: after) : ∀ c ∈ before.flatten.getLast?, c = '\n' := by
  intro c hc
  rcases List.eq_nil_or_concat before with rfl | ⟨lines, last, rfl⟩
  · simp at hc
  · obtain ⟨x, rfl⟩ := feed_of_splitLines h last (by simp)
    simpa [← List.append_assoc, eq_comm] using hc

/-- Lines outside strings have the tokens of the lines behind them after their own. -/
theorem solid_split_lines {a r : List Char} (ha : Settled a) (hcomment : Absent startsComment (a ++ r))
    (hlast : ∀ c ∈ a.getLast?, c = '\n') :
    solid (split (a ++ r)) = solid (split a) ++ solid (split r) := by
  have hwhole : ∀ l ∈ split a, Whole l :=
    Lexeme.whole_of_settled ha (absent_comment_of_append hcomment)
  refine Lexeme.solid_split_append (fun l hl => ?_) r
  have hl' := hwhole l (List.mem_of_getLast? hl)
  by_contra hkind
  obtain ⟨c, hc, hblank⟩ := hl'.getLast hkind
  have hsuffix : l.text <:+ a := by
    obtain ⟨lexemes, hsplit⟩ := List.getLast?_eq_some_iff.1 hl
    refine ⟨Lexeme.join lexemes, ?_⟩
    rw [← Lexeme.join_split a, hsplit]
    simp
  rw [getLast?_of_suffix hsuffix hl'.text_ne_nil] at hc
  rw [hlast c hc] at hblank
  cases hblank

/-! ## Marking imports -/

/-- A line, with the mark in its place if it is an import. -/
def swapped (line : List Char) : List Char :=
  match importTarget? line with
  | some target => importMark target ++ (cutLineFeed line).2
  | none => line

theorem importTarget_cutLineFeed (line : List Char) :
    importTarget? (cutLineFeed line).1 = importTarget? line := by
  have htrim : trim (cutLineFeed line).1 = trim line := by
    unfold cutLineFeed
    split
    · next content h =>
        rw [dropTrailing?_eq_some_iff.1 h]
        exact (Lexeme.trim_pad content (a := []) (b := ['\n']) (by simp) (by simp)).symm
    · rfl
  unfold importTarget?
  rw [htrim]

theorem markLine_eq (line : List Char) :
    markLine line = ⟨swapped line, (importTarget? line).toList⟩ := by
  unfold markLine swapped
  simp only [importTarget_cutLineFeed]
  cases importTarget? line <;> rfl

theorem markImports_eq (s : List Char) :
    markImports s = ⟨(splitLines s).flatMap swapped, (splitLines s).filterMap importTarget?⟩ := by
  unfold markImports
  simp only [List.flatMap_map, markLine_eq, List.filterMap_eq_flatMap_toList]

theorem not_comment_of_not_mem {s : List Char} (h : '/' ∉ s) :
    ∀ t ∈ Token.ofText s, t.kind ≠ .comment := by
  rw [Token.forall_ofText s fun l => l.kind ≠ .comment, ← absent_startsComment_iff, startsComment_eq]
  exact absent_of_not_mem (by simp) h

/--
Lines that are imports are swapped for marks and their paths are put on record; every other line is
copied.  A line is an import by its two ends, and its tokens are those of an import statement with
this path exactly if it starts outside strings, its keyword stands alone and its last quote is the
one that closes the first.
-/
theorem markImports_tokens_iff (s : List Char) (hcomment : ∀ t ∈ Token.ofText s, t.kind ≠ .comment) :
    markImports s = ⟨(splitLines s).flatMap swapped, (splitLines s).filterMap importTarget?⟩ ∧
    ∀ before line after, splitLines s = before ++ line :: after →
      (∀ target, importTarget? line = some target ↔
        ∃ form : ImportLine, form.text = line ∧ form.target = target) ∧
      ∀ form : ImportLine, form.text = line →
        (Token.solid (Token.ofText s) = Token.solid (Token.ofText before.flatten) ++
            (form.lexemes ++ Token.solid (Token.ofText after.flatten)) ↔
          Settled before.flatten ∧ (form.wrap.isSome = true → form.gap.1 ≠ []) ∧
            closesQuote form.quote (form.target ++ [form.quote]) = true) := by
  refine ⟨markImports_eq s, ?_⟩
  intro before line after hlines
  refine ⟨fun target => importTarget_eq_some_iff, ?_⟩
  rintro form rfl
  have hs : s = before.flatten ++ (form.text ++ after.flatten) := by
    rw [← splitLines_flatten s, hlines]
    simp
  have habsent : Absent startsComment s :=
    absent_startsComment_iff.2 ((Token.forall_ofText s fun l => l.kind ≠ .comment).1 hcomment)
  simp only [Token.solid_ofText]
  rw [hs] at habsent ⊢
  rw [← form.solid_split_text_iff after.flatten]
  constructor
  · intro h
    have hsettled := settled_of_solid habsent (by simp [form.text_ne_nil]) h
    rw [solid_split_lines hsettled habsent (getLast_before hlines), List.append_cancel_left_eq] at h
    exact ⟨hsettled, h⟩
  · rintro ⟨hsettled, h⟩
    rw [solid_split_lines hsettled habsent (getLast_before hlines), h]

/-- An import in the middle of a text, wrapped and with blanks around its path. -/
theorem markImports_tokens_iff_wrapped :
    let s := "a\n @import url( 'b;c' );\nd".toList
    (∀ t ∈ Token.ofText s, t.kind ≠ .comment) ∧
      markImports s = ⟨"a\n/* @import \"b;c\" (not inlined) */\nd".toList, ["b;c".toList]⟩ ∧
      Token.solid (Token.ofText s) = Token.solid (Token.ofText "a\n".toList) ++
        ([⟨.plain, "@import".toList⟩, ⟨.plain, "url".toList⟩, ⟨.openParen, ['(']⟩,
          ⟨.quoted, "'b;c'".toList⟩, ⟨.closeParen, [')']⟩, ⟨.semicolon, [';']⟩] ++
            Token.solid (Token.ofText "d".toList)) := by
  intro s
  have hcomment : ∀ t ∈ Token.ofText s, t.kind ≠ .comment := not_comment_of_not_mem (by decide)
  obtain ⟨hmarked, htokens⟩ := markImports_tokens_iff s hcomment
  refine ⟨hcomment, hmarked.trans (congrArg₂ Marked.mk (by decide) (by decide)), ?_⟩
  let space : Blanks := ⟨[' '], by simp⟩
  let form : ImportLine := ⟨space, space, some (space, space), '\'', rfl, "b;c".toList, ⟨[], by simp⟩,
    ⟨['\n'], by simp⟩⟩
  have hsettled : Settled "a\n".toList := settled_literal (by decide)
  exact ((htokens ["a\n".toList] form.text ["d".toList] (by decide)).2 form rfl).2
    ⟨hsettled, fun _ => by decide, by decide⟩

/-- A rule between two strings is taken for part of a path. -/
theorem markImports_swallows_rule :
    let s := "@import \"a\"; .x\x7bb:c\x7d \"\";".toList
    (∀ t ∈ Token.ofText s, t.kind ≠ .comment) ∧
      Token.solid (Token.ofText s) =
        [⟨.plain, "@import".toList⟩, ⟨.quoted, "\"a\"".toList⟩, ⟨.semicolon, [';']⟩,
          ⟨.plain, ".x".toList⟩, ⟨.openBrace, ['{']⟩, ⟨.plain, ['b']⟩, ⟨.colon, [':']⟩,
          ⟨.plain, ['c']⟩, ⟨.closeBrace, ['}']⟩, ⟨.quoted, "\"\"".toList⟩, ⟨.semicolon, [';']⟩] ∧
      markImports s =
        ⟨"/* @import \"a\"; .x\x7bb:c\x7d \"\" (not inlined) */".toList,
          ["a\"; .x\x7bb:c\x7d \"".toList]⟩ := by
  intro s
  refine ⟨not_comment_of_not_mem (by decide), by decide +kernel, ?_⟩
  exact (markImports_eq s).trans (congrArg₂ Marked.mk (by decide) (by decide))

end Source

end RichStyle
