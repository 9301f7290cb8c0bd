import RichStyle.Proofs.Lexemes
import RichStyle.Source

/-!
# Texts that preparation leaves alone

The comment remover, the import marker and the theme expander each look for something of their own.
A text in which none of them finds anything is inert: preparing it changes nothing.
-/

namespace RichStyle

/-! ## Words in a text -/

section Words

variable {word : List Char}

/-- A word that stands on neither side of a character foreign to it stands nowhere. -/
theorem not_infix_append {a b : List Char} {c : Char} (hc : c ∉ word) (ha : ¬ word <:+: a)
    (hb : ¬ word <:+: b) : ¬ word <:+: a ++ c :: b := by
  have hnil : ∀ w, w <+: c :: b → c ∉ w → w = [] := by
    intro w hw hcw
    rcases List.prefix_cons_iff.1 hw with h | ⟨t, rfl, -⟩
    · exact h
    · exact absurd (by simp) hcw
  intro h
  rcases List.infix_append_iff.1 h with h | h | ⟨w₁, w₂, rfl, h₁, h₂⟩
  · exact ha h
  · rcases List.infix_cons_iff.1 h with h | h
    · rw [hnil word h hc] at ha
      exact ha List.nil_infix
    · exact hb h
  · rw [hnil w₂ h₂ (fun hmem => hc (by simp [hmem])), List.append_nil] at ha
    exact ha h₁.isInfix

theorem not_infix_cons {b : List Char} {c : Char} (hc : c ∉ word) (hb : ¬ word <:+: b) :
    ¬ word <:+: c :: b := by
  have hnil : ¬ word <:+: [] := fun h => hb (h.trans List.nil_infix)
  exact not_infix_append (a := []) hc hnil hb

theorem not_infix_foreign_append {a b : List Char} (ha : ∀ c ∈ a, c ∉ word)
    (hb : ¬ word <:+: b) : ¬ word <:+: a ++ b := by
  induction a with
  | nil => exact hb
  | cons c a ih =>
      exact not_infix_cons (ha c (by simp)) (ih fun d hd => ha d (by simp [hd]))

end Words

/-- Every text is what trimming leaves of it, with blanks after it. -/
theorem Text.exists_trimEnd (s : List Char) :
    ∃ trail, s = trimEnd s ++ trail ∧ ∀ c ∈ trail, isBlank c = true := by
  refine ⟨(s.reverse.takeWhile isBlank).reverse, ?_, fun c hc => ?_⟩
  · rw [trimEnd, ← List.reverse_append, List.takeWhile_append_dropWhile, List.reverse_reverse]
  · exact List.all_eq_true.1 List.all_takeWhile c (List.mem_reverse.1 hc)

namespace Source

open Text

/-- Nowhere outside quoted strings does the rest of a text satisfy `here`. -/
def Absent (here : List Char → Bool) (s : List Char) : Prop :=
  cutOutsideQuotes here s = none

instance (here : List Char → Bool) (s : List Char) : Decidable (Absent here s) :=
  inferInstanceAs (Decidable (cutOutsideQuotes here s = none))

section Absent

variable {here there : List Char → Bool} {c : Char} {s t : List Char}

@[simp] theorem absent_nil : Absent here [] := by
  simp [Absent, cutOutsideQuotes]

theorem absent_cons_iff (hc : isQuote c = false) :
    Absent here (c :: s) ↔ here (c :: s) = false ∧ Absent here s := by
  unfold Absent
  rw [cutOutsideQuotes]
  cases hhere : here (c :: s) <;> simp [hc]

theorem absent_quote_iff (hc : isQuote c = true) :
    Absent here (c :: s) ↔ Absent here (quotedRun c s).2 := by
  unfold Absent
  rw [cutOutsideQuotes]
  simp [hc]

theorem Absent.of_append (ht : ∀ c ∈ t, isQuote c = false) (h : Absent here (t ++ s)) :
    Absent here s := by
  induction t with
  | nil => exact h
  | cons c t ih =>
      have hrest := ((absent_cons_iff (ht c (by simp))).1 h).2
      exact ih (fun d hd => ht d (by simp [hd])) hrest

/-- What is absent from a text is absent from the text after any place outside quoted strings. -/
theorem Absent.of_cut {before rest : List Char}
    (hcut : cutOutsideQuotes there s = some (before, rest)) (h : Absent here s) :
    Absent here rest := by
  fun_induction cutOutsideQuotes there s generalizing before rest with
  | case1 => simp at hcut
  | case2 c s hq ih =>
      obtain ⟨cut, hrest, heq⟩ := Option.map_eq_some_iff.1 hcut
      obtain ⟨rfl, rfl⟩ := Prod.mk.inj heq
      exact ih hrest ((absent_quote_iff hq).1 h)
  | case3 c s hq hthere =>
      obtain ⟨rfl, rfl⟩ := Prod.mk.inj (Option.some.inj hcut)
      exact h
  | case4 c s hq hthere ih =>
      obtain ⟨cut, hrest, heq⟩ := Option.map_eq_some_iff.1 hcut
      obtain ⟨rfl, rfl⟩ := Prod.mk.inj heq
      exact ih hrest ((absent_cons_iff (by simpa using hq)).1 h).2

/-- Where a word is absent from a text as a whole it is absent outside quoted strings. -/
theorem absent_of_not_infix (word : List Char) (h : ¬ word <:+: s)
    (hword : ∀ r, here r = true → startsWith word r = true) : Absent here s := by
  unfold Absent
  cases hcut : cutOutsideQuotes here s with
  | none => rfl
  | some cut =>
      obtain ⟨r, hr⟩ := startsWith_iff.1 (hword _ (cutOutsideQuotes_here hcut))
      have happ := cutOutsideQuotes_append hcut
      rw [hr, ← List.append_assoc] at happ
      exact absurd ⟨cut.1, r, happ⟩ h

theorem absent_of_not_mem {word : List Char} {c : Char} (hc : c ∈ word) (h : c ∉ s) :
    Absent (startsWith word) s :=
  absent_of_not_infix word (fun hw => h (hw.subset hc)) fun _ hr => hr

end Absent

/-! ## Comments -/

theorem withoutComments_of_absent {s : List Char} (h : Absent startsComment s) :
    withoutComments s = s := by
  fun_induction withoutComments s with
  | case1 => rfl
  | case2 c s hq ih =>
      have hrest := ih ((absent_quote_iff hq).1 h)
      rw [hrest, List.cons_append, quotedRun_append]
  | case3 c s hq hcomment ih =>
      have hc := ((absent_cons_iff (by simpa using hq)).1 h).1
      rw [hcomment] at hc
      contradiction
  | case4 c s hq hcomment ih => rw [ih ((absent_cons_iff (by simpa using hq)).1 h).2]

/-- A comment in front of a text leaves its line feeds. -/
theorem withoutComments_comment {t : List Char} (s : List Char) (h : closesComment t = true) :
    withoutComments ('/' :: '*' :: (t ++ s)) = t.filter (· == '\n') ++ withoutComments s := by
  rw [withoutComments]
  simp [isQuote, startsComment, commentRun_of_closes s h]

theorem startsComment_of_ne_slash {c : Char} (s : List Char) (hc : c ≠ '/') :
    startsComment (c :: s) = false := by
  rw [Bool.eq_false_iff]
  intro h
  obtain ⟨u, hu⟩ := Lexeme.startsComment_iff.1 h
  exact hc (List.cons.inj hu).1

theorem absent_startsComment_dropWhile (s : List Char) :
    Absent startsComment s ↔ Absent startsComment (s.dropWhile isBlank) := by
  induction s with
  | nil => rfl
  | cons c s ih =>
      cases hb : isBlank c with
      | false => simp [hb]
      | true =>
          have hq : isQuote c = false := by
            rw [Bool.eq_false_iff]
            intro hq
            rw [Lexeme.not_blank_of_quote hq] at hb
            contradiction
          have hc : c ≠ '/' := by
            rintro rfl
            revert hb
            decide
          rw [absent_cons_iff hq, List.dropWhile_cons_of_pos hb, ← ih]
          simp [startsComment_of_ne_slash s hc]

theorem absent_startsComment_plainRun (s : List Char) :
    Absent startsComment s ↔ Absent startsComment (plainRun s).2 := by
  fun_induction plainRun s with
  | case1 => rfl
  | case2 c s hcond => rfl
  | case3 c s hcond run ih =>
      simp only [isDelimiter, Bool.or_eq_true, not_or, Bool.not_eq_true] at hcond
      rw [absent_cons_iff hcond.1.1.2, hcond.2, ih]
      simp [run]

/-- No comment opens in a text if its first lexeme is none and none opens in the rest. -/
theorem absent_startsComment_first (c : Char) (s : List Char) :
    Absent startsComment (c :: s) ↔
      (Lexeme.first c s).1.kind ≠ .comment ∧ Absent startsComment (Lexeme.first c s).2 := by
  have hfirst := Lexeme.first_spec c s
  generalize Lexeme.first c s = found at hfirst
  cases hfirst with
  | mark hk =>
      have hp := Lexeme.isPunctuation_of_kind hk
      have hc : c ≠ '/' := by
        rintro rfl
        contradiction
      rw [absent_cons_iff (Lexeme.not_quote_of_punctuation hp), startsComment_of_ne_slash s hc]
      simp [(Lexeme.mark_kind hk).2.2.2]
  | quoted hq => simp [absent_quote_iff hq]
  | comment hc hs =>
      subst hc hs
      rw [absent_cons_iff (by decide)]
      simp [startsComment]
  | blank hb =>
      have hdrop := absent_startsComment_dropWhile (c :: s)
      rw [List.dropWhile_cons_of_pos hb] at hdrop
      simp [hdrop]
  | plain hd hs =>
      have hrun := absent_startsComment_plainRun (c :: s)
      simp only [plainRun, hd, hs, Bool.or_self] at hrun
      simpa using hrun

/-- Comments open outside quoted strings exactly where lexemes are comments. -/
theorem absent_startsComment_iff {s : List Char} :
    Absent startsComment s ↔ ∀ l ∈ Lexeme.split s, l.kind ≠ .comment := by
  fun_induction Lexeme.split s with
  | case1 => simp
  | case2 c s ih => rw [absent_startsComment_first, ih, List.forall_mem_cons]

/-! ## Imports -/

theorem markLine_of_none {line : List Char} (h : importTarget? (cutLineFeed line).1 = none) :
    markLine line = ⟨line, []⟩ := by
  simp [markLine, h]

theorem markImports_of_none {s : List Char}
    (h : ∀ line ∈ splitLines s, importTarget? (cutLineFeed line).1 = none) :
    markImports s = ⟨s, []⟩ := by
  have hlines : (splitLines s).map markLine = (splitLines s).map fun line => ⟨line, []⟩ :=
    List.map_congr_left fun line hline => markLine_of_none (h line hline)
  have htext : ((splitLines s).flatMap fun line => line) = s := by
    have hflat := splitLines_flatten s
    rwa [← List.flatMap_id] at hflat
  simp only [markImports, hlines, List.flatMap_map, htext]
  simp

theorem cutLineFeed_isInfix (line : List Char) : (cutLineFeed line).1 <:+: line := by
  unfold cutLineFeed
  split
  · next content h =>
      rw [dropTrailing?_eq_some_iff.1 h]
      exact List.infix_append_left
  · exact List.infix_rfl

/-- Trimming takes away blanks at both ends. -/
theorem exists_trim (s : List Char) :
    ∃ lead trail, s = lead ++ (trim s ++ trail) ∧ (∀ c ∈ lead, isBlank c = true) ∧
      ∀ c ∈ trail, isBlank c = true := by
  obtain ⟨trail, htrail, hblank⟩ := exists_trimEnd (trimStart s)
  refine ⟨s.takeWhile isBlank, trail, ?_, List.all_eq_true.1 List.all_takeWhile, hblank⟩
  rw [trim, ← htrail, trimStart, List.takeWhile_append_dropWhile]

theorem trim_isInfix (s : List Char) : trim s <:+: s := by
  obtain ⟨lead, trail, hs, -⟩ := exists_trim s
  exact ⟨lead, trail, by rw [List.append_assoc, ← hs]⟩

/-- A text without the word `@import` has no import line. -/
theorem importTarget_of_not_infix {s line : List Char} (h : ¬ "@import".toList <:+: s)
    (hline : line ∈ splitLines s) : importTarget? (cutLineFeed line).1 = none := by
  unfold importTarget?
  cases hstart : dropLeading? "@import".toList (trim (cutLineFeed line).1) with
  | none => rfl
  | some rest =>
      have hword : "@import".toList <:+: trim (cutLineFeed line).1 := by
        rw [dropLeading?_eq_some_iff.1 hstart]
        exact List.infix_append_left
      have htext : line <:+: s := by
        have hmem := List.infix_of_mem_flatten hline
        rwa [splitLines_flatten] at hmem
      exact absurd (((hword.trans (trim_isInfix _)).trans (cutLineFeed_isInfix line)).trans htext) h

/-! ## Themes -/

/-- Whether a theme opens here. -/
def startsTheme (s : List Char) : Bool :=
  startsWith themeKeyword s && startsBlank (s.drop themeKeyword.length)

theorem themeKeyword_eq : themeKeyword = ['@', 't', 'h', 'e', 'm', 'e'] := by decide

/-- Where no theme opens, a theme keyword is followed by something else than a blank. -/
theorem Absent.after_keyword {s before rest : List Char} (h : Absent startsTheme s)
    (hcut : cutOutsideQuotes (startsWith themeKeyword) s = some (before, rest)) :
    startsBlank (rest.drop themeKeyword.length) = false ∧
      Absent startsTheme (rest.drop themeKeyword.length) := by
  have hrest := h.of_cut hcut
  have hstart := cutOutsideQuotes_here hcut
  obtain ⟨r, rfl⟩ := startsWith_iff.1 hstart
  have htheme : startsTheme (themeKeyword ++ r) = false := by
    rw [themeKeyword_eq, List.cons_append] at hrest ⊢
    exact ((absent_cons_iff (by decide)).1 hrest).1
  rw [List.drop_left]
  refine ⟨?_, hrest.of_append (by simp [themeKeyword_eq, isQuote])⟩
  rwa [startsTheme, hstart, List.drop_left, Bool.true_and] at htheme

theorem expandThemes_of_absent {s : List Char} (p : Span) (h : Absent startsTheme s) :
    expandThemes p s = .ok s := by
  fun_induction expandThemes p s with
  | case1 p s hcut => rfl
  | case2 p s before rest hcut place after hblank malformed hread =>
      rw [(h.after_keyword hcut).1] at hblank
      contradiction
  | case3 p s before rest hcut place after hblank block hread source ih =>
      rw [(h.after_keyword hcut).1] at hblank
      contradiction
  | case4 p s before rest hcut place after hblank ih =>
      have hafter : expandThemes (place.advance themeKeyword) after = .ok after :=
        ih (h.after_keyword hcut).2
      have hkeyword : themeKeyword ++ after = rest := by
        obtain ⟨r, rfl⟩ := startsWith_iff.1 (cutOutsideQuotes_here hcut)
        simp [after]
      rw [hafter]
      change Except.ok (before ++ themeKeyword ++ after) = _
      rw [List.append_assoc, hkeyword, cutOutsideQuotes_append hcut]

/-! ## Inert texts -/

/-- A text in which there is nothing to prepare. -/
structure Inert (s : List Char) : Prop where
  noComment : Absent startsComment s
  noImport : ∀ line ∈ splitLines s, importTarget? (cutLineFeed line).1 = none
  noTheme : Absent startsTheme s

theorem prepare_of_inert {s : List Char} (h : Inert s) : prepare s = .ok ⟨s, []⟩ := by
  have hmarked : marked s = ⟨s, []⟩ := by
    rw [marked, withoutComments_of_absent h.noComment, markImports_of_none h.noImport]
  rw [prepare, hmarked, expandThemes_of_absent .start h.noTheme]
  rfl

theorem Inert.newline {s : List Char} (h : Inert s) : Inert ('\n' :: s) where
  noComment := (absent_cons_iff (by decide)).2 ⟨rfl, h.noComment⟩
  noImport := by
    intro line hline
    rw [splitLines, if_pos rfl] at hline
    rcases List.mem_cons.1 hline with rfl | hline
    · decide
    · exact h.noImport line hline
  noTheme := (absent_cons_iff (by decide)).2 ⟨rfl, h.noTheme⟩

/-- Of a comment in front of an inert text nothing is left but its line feeds. -/
theorem prepare_comment {s : List Char} (t : List Char) (hs : Inert s)
    (ht : closesComment t = true) :
    prepare ('/' :: '*' :: (t ++ s)) = .ok ⟨t.filter (· == '\n') ++ s, []⟩ := by
  have hfeeds : Inert (t.filter (· == '\n') ++ s) := by
    clear ht
    induction t with
    | nil => exact hs
    | cons c t ih =>
        by_cases hc : c = '\n'
        · subst hc
          exact ih.newline
        · simpa [List.filter_cons, hc] using ih
  have hprepare := prepare_of_inert hfeeds
  have hstrip : withoutComments ('/' :: '*' :: (t ++ s)) =
      withoutComments (t.filter (· == '\n') ++ s) := by
    rw [withoutComments_comment s ht, withoutComments_of_absent hfeeds.noComment,
      withoutComments_of_absent hs.noComment]
  have hmarked : marked ('/' :: '*' :: (t ++ s)) = marked (t.filter (· == '\n') ++ s) := by
    rw [marked, hstrip, marked]
  rw [← hprepare, prepare, hmarked, prepare]

end Source

end RichStyle
