import RichStyle.Proofs.Themes

/-!
# Segments

A text whose themes are written out falls into segments: stretches that are copied, and the blocks of
themes between them.  What is written for a block has the line feeds of the block behind it, and
those of the keys and values of the theme besides.
-/

namespace RichStyle

open Text

namespace Source

/-! ## Places where a theme opens -/

section Cut

variable {here there : List Char → Bool} {s a b before rest after : List Char}

theorem Absent.narrow (hle : ∀ r, there r = true → here r = true) (h : Absent here s) :
    Absent there s := by
  fun_induction cutOutsideQuotes here s with
  | case1 => exact absent_nil
  | case2 c s hq ih => exact (absent_quote_iff hq).2 (ih ((absent_quote_iff hq).1 h))
  | case3 c s hq hhere =>
      rw [((absent_cons_iff (by simpa using hq)).1 h).1] at hhere
      cases hhere
  | case4 c s hq hhere ih =>
      have hc : isQuote c = false := by simpa using hq
      have hthere : there (c :: s) = false := by
        rw [Bool.eq_false_iff]
        exact fun hr => hhere (hle _ hr)
      exact (absent_cons_iff hc).2 ⟨hthere, ih ((absent_cons_iff hc).1 h).2⟩

theorem cutOutsideQuotes_narrow (hle : ∀ r, there r = true → here r = true)
    (h : cutOutsideQuotes here s = some (before, rest)) (hrest : there rest = true) :
    cutOutsideQuotes there s = some (before, rest) := by
  fun_induction cutOutsideQuotes here s generalizing before rest with
  | case1 => simp at h
  | case2 c s hq ih =>
      obtain ⟨cut, hcut, heq⟩ := Option.map_eq_some_iff.1 h
      obtain ⟨rfl, rfl⟩ := Prod.mk.inj heq
      rw [cutOutsideQuotes, if_pos hq, ih hcut hrest]
      rfl
  | case3 c s hq hhere =>
      obtain ⟨rfl, rfl⟩ := Prod.mk.inj (Option.some.inj h)
      rw [cutOutsideQuotes, if_neg hq, if_pos hrest]
  | case4 c s hq hhere ih =>
      obtain ⟨cut, hcut, heq⟩ := Option.map_eq_some_iff.1 h
      obtain ⟨rfl, rfl⟩ := Prod.mk.inj heq
      rw [cutOutsideQuotes, if_neg hq, if_neg fun hr => hhere (hle _ hr), ih hcut hrest]
      rfl

/-- Characters at which nothing is found are passed over. -/
theorem cutOutsideQuotes_skip (ha : ∀ c ∈ a, isQuote c = false)
    (hhere : ∀ u, u <:+ a → u ≠ [] → here (u ++ b) = false) :
    cutOutsideQuotes here (a ++ b) =
      (cutOutsideQuotes here b).map fun cut => (a ++ cut.1, cut.2) := by
  induction a with
  | nil => cases hb : cutOutsideQuotes here b <;> simp [hb]
  | cons c a ih =>
      have hc := ha c (by simp)
      have hstart := hhere (c :: a) List.suffix_rfl (by simp)
      have hrest := ih (fun d hd => ha d (by simp [hd]))
        fun u hu hne => hhere u (hu.trans (List.suffix_cons c a)) hne
      rw [List.cons_append] at hstart
      rw [List.cons_append, cutOutsideQuotes, if_neg (by simp [hc]), if_neg (by simp [hstart]), hrest,
        Option.map_map]
      rfl

theorem startsWith_keyword_of_startsTheme {r : List Char} (h : startsTheme r = true) :
    startsWith themeKeyword r = true :=
  (Bool.and_eq_true_iff.1 h).1

theorem startsTheme_keyword (after : List Char) :
    startsTheme (themeKeyword ++ after) = startsBlank after := by
  rw [startsTheme, startsWith_iff.2 ⟨after, rfl⟩, List.drop_left, Bool.true_and]

theorem exists_of_startsTheme {r : List Char} (h : startsTheme r = true) :
    ∃ after, r = themeKeyword ++ after ∧ startsBlank after = true := by
  obtain ⟨after, rfl⟩ := startsWith_iff.1 (startsWith_keyword_of_startsTheme h)
  exact ⟨after, rfl, by rwa [startsTheme_keyword] at h⟩

/-- A keyword that opens no theme is passed over. -/
theorem cutOutsideQuotes_keyword (hblank : startsBlank after = false) :
    cutOutsideQuotes startsTheme (themeKeyword ++ after) =
      (cutOutsideQuotes startsTheme after).map fun cut => (themeKeyword ++ cut.1, cut.2) := by
  refine cutOutsideQuotes_skip (by simp [themeKeyword_eq, isQuote]) fun u hu hne => ?_
  rw [Bool.eq_false_iff]
  intro hstart
  rw [themeKeyword_eq] at hu
  rcases List.suffix_cons_iff.1 hu with rfl | hu
  · rw [← themeKeyword_eq, startsTheme_keyword, hblank] at hstart
    cases hstart
  · -- the keyword has no other `@` in it
    obtain ⟨c, v, rfl⟩ := List.exists_cons_of_ne_nil hne
    obtain ⟨r, hr⟩ := startsWith_iff.1 (startsWith_keyword_of_startsTheme hstart)
    rw [themeKeyword_eq] at hr
    obtain ⟨rfl, -⟩ := List.cons.inj hr
    exact absurd (hu.subset (List.mem_cons_self)) (by decide)

theorem cutOutsideQuotes_word
    (h : cutOutsideQuotes (startsWith themeKeyword) s = some (before, themeKeyword ++ after))
    (hblank : startsBlank after = false) :
    cutOutsideQuotes startsTheme s =
      (cutOutsideQuotes startsTheme after).map fun cut =>
        (before ++ (themeKeyword ++ cut.1), cut.2) := by
  fun_induction cutOutsideQuotes (startsWith themeKeyword) s generalizing before with
  | case1 => simp at h
  | case2 c s hq ih =>
      obtain ⟨cut, hcut, heq⟩ := Option.map_eq_some_iff.1 h
      obtain ⟨first, rest⟩ := cut
      obtain ⟨rfl, rfl⟩ := Prod.mk.inj heq
      rw [cutOutsideQuotes, if_pos hq, ih hcut, Option.map_map]
      simp [Function.comp_def]
  | case3 c s hq hhere =>
      obtain ⟨rfl, hrest⟩ := Prod.mk.inj (Option.some.inj h)
      rw [hrest, cutOutsideQuotes_keyword hblank]
      simp
  | case4 c s hq hhere ih =>
      obtain ⟨cut, hcut, heq⟩ := Option.map_eq_some_iff.1 h
      obtain ⟨first, rest⟩ := cut
      obtain ⟨rfl, rfl⟩ := Prod.mk.inj heq
      rw [cutOutsideQuotes, if_neg hq, if_neg fun hr => hhere (startsWith_keyword_of_startsTheme hr),
        ih hcut, Option.map_map]
      simp [Function.comp_def]

end Cut

/-! ## The segments of a text -/

/-- A stretch of a text whose themes are written out. -/
inductive Segment where
  /-- Text that is copied. -/
  | copied (s : List Char)
  /-- A theme, and the text of its block from the keyword on. -/
  | block (theme : Theme) (source : List Char)

/-- The keys and values of a theme, one after the other. -/
def Theme.words (theme : Theme) : List Char :=
  theme.entries.flatMap fun v => v.1 ++ v.2

namespace Segment

/-- The text of a segment. -/
def source : Segment → List Char
  | copied s => s
  | block _ s => s

/-- What is written for a segment. -/
def written : Segment → List Char
  | copied s => s
  | block theme s => theme.render ++ s.filter (· == '\n')

/-- The keys and values that are written for a segment. -/
def words : Segment → List Char
  | copied _ => []
  | block theme _ => theme.words

/-- Puts a text in front of segments. -/
def prepend (a : List Char) : List Segment → List Segment
  | copied s :: segments => copied (a ++ s) :: segments
  | segments => copied a :: segments

end Segment

/-- The segments of a text; a block that cannot be read is copied with all that follows it. -/
def segments (s : List Char) : List Segment :=
  match _hcut : cutOutsideQuotes startsTheme s with
  | none => [.copied s]
  | some (before, rest) =>
      match _hread : Theme.read .start (rest.drop themeKeyword.length) with
      | .error _ => [.copied s]
      | .ok block =>
          .copied before :: .block block.theme (themeKeyword ++ block.source) :: segments block.rest
termination_by s.length
decreasing_by
  have hlen := congrArg List.length (Theme.read_append _hread)
  obtain ⟨after, rfl, -⟩ := exists_of_startsTheme (cutOutsideQuotes_here _hcut)
  have happ := congrArg List.length (cutOutsideQuotes_append _hcut)
  have hkey : themeKeyword.length = 6 := by decide
  simp only [List.length_append, List.drop_left] at hlen happ
  omega

/-- `Outlined s segments`: the text `s` falls into these segments, and all its blocks are read. -/
inductive Outlined : List Char → List Segment → Prop
  | done {s : List Char} (h : Absent startsTheme s) : Outlined s [.copied s]
  | block {p : Span} {s before after : List Char} {block : Theme.Block} {later : List Segment}
      (hcut : cutOutsideQuotes startsTheme s = some (before, themeKeyword ++ after))
      (hread : Theme.read p after = .ok block) (hrest : Outlined block.rest later) :
      Outlined s (.copied before :: .block block.theme (themeKeyword ++ block.source) :: later)

theorem Outlined.segments_eq {s : List Char} {outline : List Segment} (h : Outlined s outline) :
    segments s = outline := by
  induction h with
  | done h =>
      rw [segments]
      split
      · rfl
      · next hcut =>
          rw [h] at hcut
          cases hcut
  | @block p s before after block later hcut hread hrest ih =>
      rw [segments]
      split
      · next hnone =>
          rw [hcut] at hnone
          cases hnone
      · next before' rest' hsome =>
          rw [hcut] at hsome
          obtain ⟨rfl, rfl⟩ := Prod.mk.inj (Option.some.inj hsome)
          rw [List.drop_left]
          split
          · next herror =>
              rw [Theme.read_place .start hread] at herror
              cases herror
          · next block' hblock =>
              rw [Theme.read_place .start hread] at hblock
              obtain rfl := Except.ok.inj hblock
              rw [ih]

/-- A keyword without a blank after it belongs to the text that is copied. -/
theorem Outlined.word {s before after : List Char} {outline : List Segment}
    (hcut : cutOutsideQuotes (startsWith themeKeyword) s = some (before, themeKeyword ++ after))
    (hblank : startsBlank after = false) (h : Outlined after outline) :
    Outlined s (Segment.prepend (before ++ themeKeyword) outline) := by
  have hword := cutOutsideQuotes_word hcut hblank
  cases h with
  | done h =>
      rw [show cutOutsideQuotes startsTheme after = none from h] at hword
      have hs : s = before ++ themeKeyword ++ after := by
        rw [opening_eq hcut, List.append_assoc]
      rw [Segment.prepend, ← hs]
      exact .done hword
  | block hcut' hread hrest =>
      rw [hcut', Option.map_some] at hword
      rw [Segment.prepend]
      exact .block (by simpa using hword) hread hrest

theorem Segment.flatMap_prepend (f : Segment → List Char) (a : List Char)
    (hf : ∀ s, f (.copied s) = s) (outline : List Segment) :
    (prepend a outline).flatMap f = a ++ outline.flatMap f := by
  unfold prepend
  split <;> simp [hf]

/-- What is written out of a text is what is written for its segments. -/
theorem Expanded.exists_outlined {s t : List Char} (h : Expanded s t) :
    ∃ outline, Outlined s outline ∧ t = outline.flatMap Segment.written := by
  induction h with
  | done h =>
      exact ⟨_, .done (h.narrow fun _ => startsWith_keyword_of_startsTheme), by
        simp [Segment.written]⟩
  | @theme p s before after expanded block hcut hblank hread hrest ih =>
      obtain ⟨outline, houtline, rfl⟩ := ih
      have hcut' := cutOutsideQuotes_narrow (fun _ => startsWith_keyword_of_startsTheme) hcut
        ((startsTheme_keyword after).trans hblank)
      exact ⟨_, .block hcut' hread houtline, by simp [Segment.written]⟩
  | @word s before after expanded hcut hblank hrest ih =>
      obtain ⟨outline, houtline, rfl⟩ := ih
      refine ⟨_, houtline.word hcut hblank, ?_⟩
      rw [Segment.flatMap_prepend _ _ fun _ => rfl, List.append_assoc]

theorem Outlined.source_eq {s : List Char} {outline : List Segment} (h : Outlined s outline) :
    outline.flatMap Segment.source = s := by
  induction h with
  | done h => simp [Segment.source]
  | block hcut hread hrest ih =>
      rw [List.flatMap_cons, List.flatMap_cons, ih]
      simp only [Segment.source, List.append_assoc, Theme.read_append hread]
      exact cutOutsideQuotes_append hcut

end Source

end RichStyle
