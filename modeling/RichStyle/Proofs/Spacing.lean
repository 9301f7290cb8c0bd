import RichStyle.Proofs.Entries
import RichStyle.Proofs.Forms

/-!
# Blanks of a text

A text is written out without blanks at its ends and with one space for each run of blanks outside
strings.  Blanks at the ends of a text are lexemes of their own, so that trimming takes away nothing
else, and the text that is written out is that of the lexemes with their blanks made single spaces.
-/

namespace RichStyle

open Text
open Source (Absent)

namespace Source

/-- Each run of blanks outside strings made one space. -/
def collapse : List Char → List Char
  | [] => []
  | c :: s =>
      if isQuote c then c :: (quotedRun c s).1 ++ collapse (quotedRun c s).2
      else if isBlank c then ' ' :: collapse (s.dropWhile isBlank)
      else c :: collapse s
termination_by s => s.length
decreasing_by
  · exact Nat.lt_succ_of_le (quotedRun_rest_le c s)
  · exact Nat.lt_succ_of_le (List.length_dropWhile_le isBlank s)
  · exact Nat.lt_succ_self _

theorem collapse_quote {c : Char} {s : List Char} (hq : isQuote c = true) :
    collapse (c :: s) = c :: (quotedRun c s).1 ++ collapse (quotedRun c s).2 := by
  rw [collapse, if_pos hq]

theorem collapse_blank {c : Char} {s : List Char} (hb : isBlank c = true) :
    collapse (c :: s) = ' ' :: collapse (s.dropWhile isBlank) := by
  rw [collapse, if_neg (by simp [(not_quote_of_blank hb).1]), if_pos hb]

theorem collapse_cons {c : Char} {s : List Char} (hq : isQuote c = false)
    (hb : isBlank c = false) : collapse (c :: s) = c :: collapse s := by
  rw [collapse, if_neg (by simp [hq]), if_neg (by simp [hb])]

theorem collapse_plainRun (s : List Char) :
    collapse s = (plainRun s).1 ++ collapse (plainRun s).2 := by
  fun_induction plainRun s with
  | case1 => rfl
  | case2 c s hstop => rfl
  | case3 c s hstop run ih =>
      simp only [isDelimiter, Bool.or_eq_true, not_or, Bool.not_eq_true] at hstop
      rw [collapse_cons hstop.1.1.2 hstop.1.2, ih]
      rfl

end Source

namespace Lexeme

open Source (collapse)

/-- The text of a lexeme, with one space for a blank. -/
def spacedText (l : Lexeme) : List Char :=
  if l.kind = .blank then [' '] else l.text

theorem collapse_first {c : Char} {s : List Char} (h : (first c s).1.kind ≠ .comment) :
    collapse (c :: s) = (first c s).1.spacedText ++ collapse (first c s).2 := by
  have hfirst := first_spec c s
  generalize first c s = found at hfirst h
  cases hfirst with
  | mark hk =>
      have hp := isPunctuation_of_kind hk
      rw [Source.collapse_cons (not_quote_of_punctuation hp) (not_blank_of_punctuation hp)]
      simp [spacedText, (mark_kind hk).2.1]
  | quoted hq =>
      rw [Source.collapse_quote hq]
      simp [spacedText]
  | comment => exact absurd rfl h
  | blank hb =>
      rw [Source.collapse_blank hb]
      rfl
  | plain hd hs =>
      have hrun := Source.collapse_plainRun (c :: s)
      simp only [plainRun, hd, hs, Bool.or_self] at hrun
      simpa [spacedText] using hrun

/-- Runs of blanks outside strings are the blanks among the lexemes. -/
theorem collapse_eq {s : List Char} (h : Absent startsComment s) :
    collapse s = (split s).flatMap spacedText := by
  fun_induction split s with
  | case1 => rw [collapse, List.flatMap_nil]
  | case2 c s ih =>
      obtain ⟨hkind, hrest⟩ := (Source.absent_startsComment_first c s).1 h
      rw [collapse_first hkind, ih hrest, List.flatMap_cons]

/-! ## Trimming -/

theorem trim_append {a x b : List Char} (ha : ∀ c ∈ a, isBlank c = true)
    (hb : ∀ c ∈ b, isBlank c = true) (hhead : ∀ c ∈ x.head?, isBlank c = false)
    (hlast : ∀ c ∈ x.getLast?, isBlank c = false) : trim (a ++ (x ++ b)) = x := by
  unfold trim trimStart
  rw [List.dropWhile_append_of_pos ha]
  cases x with
  | nil =>
      have hdrop : b.dropWhile isBlank = [] := by simpa [List.dropWhile_eq_nil_iff] using hb
      rw [List.nil_append, hdrop]
      rfl
  | cons c x =>
      have hc : isBlank c = false := hhead c (by simp)
      rw [List.cons_append, List.dropWhile_cons_of_neg (by simp [hc]), ← List.cons_append]
      exact trimEnd_append hlast hb

theorem trim_of_unpadded {s : List Char} (h : Unpadded s) {a b : List Char}
    (ha : ∀ c ∈ a, isBlank c = true) (hb : ∀ c ∈ b, isBlank c = true) : trim (a ++ (s ++ b)) = s := by
  refine trim_append ha hb (fun c hc => ?_) h.finish
  obtain ⟨t, ht⟩ := List.head?_eq_some_iff.1 hc
  have hstart := h.start
  rw [ht] at hstart
  exact hstart

/-- Blanks at the ends of a text do not matter to what it is trimmed to. -/
theorem trim_pad (s : List Char) {a b : List Char} (ha : ∀ c ∈ a, isBlank c = true)
    (hb : ∀ c ∈ b, isBlank c = true) : trim (a ++ (s ++ b)) = trim s := by
  obtain ⟨lead, trail, hs, hlead, htrail⟩ := Source.exists_trim s
  have htext : a ++ (s ++ b) = (a ++ lead) ++ (trim s ++ (trail ++ b)) := by
    conv_lhs => rw [hs]
    simp
  rw [htext]
  exact trim_of_unpadded (unpadded_trim s) (List.forall_mem_append.2 ⟨ha, hlead⟩)
    (List.forall_mem_append.2 ⟨htrail, hb⟩)

theorem trim_trim (s : List Char) : trim (trim s) = trim s := by
  obtain ⟨lead, trail, hs, hlead, htrail⟩ := Source.exists_trim s
  conv_rhs => rw [hs]
  rw [trim_pad (trim s) hlead htrail]

theorem Whole.head {l : Lexeme} (h : Whole l) (hl : l.kind ≠ .blank) :
    ∀ c ∈ l.text.head?, isBlank c = false := by
  cases h with
  | mark hk => simpa using not_blank_of_punctuation (isPunctuation_of_kind hk)
  | quoted hq => simpa using not_blank_of_quote hq
  | comment => simpa using show isBlank '/' = false by decide
  | blank => exact absurd rfl hl
  | plain h => simpa using not_blank_of_ordinary (h.ordinary _ (by simp))

theorem Segmented.trim_join {core : List Lexeme} (h : Segmented core)
    (hhead : ∀ l ∈ core.head?, l.kind ≠ .blank) (hlast : ∀ l ∈ core.getLast?, l.kind ≠ .blank)
    {a b : List Char} (ha : ∀ c ∈ a, isBlank c = true) (hb : ∀ c ∈ b, isBlank c = true) :
    trim (a ++ (join core ++ b)) = join core := by
  apply trim_append ha hb
  · cases core with
    | nil => simp
    | cons l core =>
        have hl := h.whole l (by simp)
        obtain ⟨c, s, ht⟩ := List.exists_cons_of_ne_nil hl.text_ne_nil
        have hc := hl.head (hhead l (by simp))
        simpa [ht] using hc
  · rcases List.eq_nil_or_concat core with rfl | ⟨before, l, rfl⟩
    · simp
    · obtain ⟨c, hc, hblank⟩ := (h.whole l (by simp)).getLast (hlast l (by simp))
      simpa [List.getLast?_append, hc] using hblank

/-- Trimming takes away the blanks at the ends of a text and leaves the lexemes between them. -/
theorem exists_split_trim {s : List Char} (h : ∀ l ∈ split s, Whole l) :
    ∃ lead trail, split s = lead ++ (split (trim s) ++ trail) ∧
      (∀ l ∈ lead, l.kind = .blank) ∧ (∀ l ∈ trail, l.kind = .blank) ∧
      (∀ l ∈ (split (trim s)).head?, l.kind ≠ .blank) ∧
      ∀ l ∈ (split (trim s)).getLast?, l.kind ≠ .blank := by
  obtain ⟨lead, core, trail, hsplit, hlead, htrail, hhead, hlast⟩ :=
    exists_core (fun l : Lexeme => decide (l.kind = .blank)) (split s)
  simp only [decide_eq_true_eq, decide_eq_false_iff_not] at hlead htrail hhead hlast
  have hsegmented : Segmented (split s) := ⟨h, split_chain s⟩
  have hcore : Segmented core := hsegmented.of_infix ⟨lead, trail, by simp [hsplit]⟩
  have hblank {ls : List Lexeme} (hls : ∀ l ∈ ls, l ∈ split s ∧ l.kind = .blank) :
      ∀ c ∈ join ls, isBlank c = true := by
    intro c hc
    obtain ⟨l, hl, hc⟩ := List.mem_flatMap.1 hc
    exact (h l (hls l hl).1).of_blank (hls l hl).2 c hc
  have htrim : trim s = join core := by
    rw [← join_split s, hsplit, join_append, join_append]
    apply hcore.trim_join hhead hlast
    · exact hblank fun l hl => ⟨by simp [hsplit, hl], hlead l hl⟩
    · exact hblank fun l hl => ⟨by simp [hsplit, hl], htrail l hl⟩
  rw [htrim, split_join hcore]
  exact ⟨lead, trail, hsplit, hlead, htrail, hhead, hlast⟩

theorem kinds_trim {s : List Char} (h : ∀ l ∈ split s, Whole l) :
    (kinds (trim s)).filter Kind.isMark = (kinds s).filter Kind.isMark := by
  obtain ⟨lead, trail, hsplit, hlead, htrail, -⟩ := exists_split_trim h
  have hnone {ls : List Lexeme} (hls : ∀ l ∈ ls, l.kind = .blank) :
      (ls.map Lexeme.kind).filter Kind.isMark = [] := by
    rw [List.filter_eq_nil_iff]
    intro k hk
    obtain ⟨l, hl, rfl⟩ := List.mem_map.1 hk
    rw [hls l hl]
    decide
  unfold kinds
  rw [hsplit]
  simp [hnone hlead, hnone htrail]

end Lexeme

namespace Token

open Source (collapse)

/-- A piece is written out as its text, trimmed and with single spaces. -/
theorem Piece.render_eq {tokens : List Token} {s : List Char} (h : Piece tokens)
    (hs : tokens.map toLexeme = Lexeme.split s) :
    render tokens = String.ofList (collapse (trim s)) := by
  have hwhole : ∀ l ∈ Lexeme.split s, Lexeme.Whole l := hs ▸ h.segmented.whole
  obtain ⟨lead, trail, hsplit, hlead, htrail, hhead, hlast⟩ := Lexeme.exists_split_trim hwhole
  rw [hsplit] at hs
  obtain ⟨lead, rest, rfl, rfl, hrest⟩ := List.map_eq_append_iff.1 hs
  obtain ⟨core, trail, rfl, hcore, rfl⟩ := List.map_eq_append_iff.1 hrest
  have hpiece : Piece core := h.of_infix ⟨lead, trail, by simp⟩
  have hcomment : Absent startsComment (trim s) := by
    rw [Source.absent_startsComment_iff, ← hcore, List.forall_mem_map]
    exact fun t ht => (hpiece.inner t ht).2.2
  have htext (t : Token) : t.spaced.text = t.toLexeme.spacedText := by
    unfold spaced Lexeme.spacedText
    split <;> rfl
  rw [← hcore] at hhead hlast
  rw [hpiece.render_spaced (by simpa using hlead) (by simpa using htrail) (by simpa using hhead)
    (by simpa using hlast), Lexeme.collapse_eq hcomment, ← hcore]
  simp [Lexeme.join, List.flatMap_map, htext]

end Token

end RichStyle
