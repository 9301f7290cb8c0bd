import RichStyle.Proofs.ImportLines
import RichStyle.Proofs.Modes
import RichStyle.Proofs.Segments

/-!
# Line feeds

Preparing a source is meant to keep its lines.  Removing comments and marking imports keep every line
feed.  For a theme the line feeds of its block are written, and once more those that stand in its
keys and values: what follows moves down by so many lines.
-/

namespace RichStyle

open Text

theorem Lexeme.count_uncommented (l : Lexeme) : l.uncommented.count '\n' = l.text.count '\n' := by
  unfold uncommented
  split
  · exact List.count_replicate_self
  · rfl

theorem count_flatMap {α : Type} {f g : α → List Char} {xs : List α} (c : Char)
    (h : ∀ x ∈ xs, (f x).count c = (g x).count c) :
    (xs.flatMap f).count c = (xs.flatMap g).count c := by
  induction xs with
  | nil => rfl
  | cons x xs ih =>
      rw [List.flatMap_cons, List.flatMap_cons, List.count_append, List.count_append,
        h x (by simp), ih fun y hy => h y (by simp [hy])]

namespace Source

/-! ## Comments -/

theorem count_withoutComments (s : List Char) : (withoutComments s).count '\n' = s.count '\n' := by
  rw [← Mode.kept_code, Lexeme.kept_split,
    count_flatMap '\n' fun l _ => Lexeme.count_uncommented l]
  exact congrArg (List.count '\n') (Lexeme.join_split s)

/-! ## Imports -/

/-- A line is a text without line feeds, with or without a line feed at its end. -/
theorem exists_of_mem_splitLines {s line : List Char} (h : line ∈ splitLines s) :
    ∃ x, '\n' ∉ x ∧ (line = x ∨ line = x ++ ['\n']) := by
  induction s generalizing line with
  | nil => simp [splitLines] at h
  | cons c s ih =>
      rw [splitLines] at h
      split at h
      · next hc =>
          rcases List.mem_cons.1 h with rfl | h
          · exact ⟨[], by simp, .inr (by simp [hc])⟩
          · exact ih h
      · next hc =>
          have hc' : '\n' ≠ c := fun h => hc h.symm
          split at h
          · exact ⟨[c], by simpa using hc', .inl (by simpa using h)⟩
          · next first lines hlines =>
              rcases List.mem_cons.1 h with rfl | h
              · have hmem : first ∈ splitLines s := by simp [hlines]
                obtain ⟨x, hx, hfirst⟩ := ih hmem
                refine ⟨c :: x, by simp [hc', hx], ?_⟩
                rcases hfirst with rfl | rfl
                · exact .inl rfl
                · exact .inr rfl
              · exact ih (by simp [hlines, h])

theorem cutLineFeed_spec {s line : List Char} (h : line ∈ splitLines s) :
    '\n' ∉ (cutLineFeed line).1 ∧ line = (cutLineFeed line).1 ++ (cutLineFeed line).2 := by
  obtain ⟨x, hx, hline⟩ := exists_of_mem_splitLines h
  unfold cutLineFeed
  split
  · next content hcontent =>
      have heq := dropTrailing?_eq_some_iff.1 hcontent
      refine ⟨?_, heq⟩
      rcases hline with rfl | rfl
      · exact absurd (by simp [heq]) hx
      · rwa [← List.append_cancel_right heq]
  · next hnone =>
      refine ⟨?_, by simp⟩
      rcases hline with rfl | rfl
      · exact hx
      · rw [dropTrailing?_eq_some_iff.2 rfl] at hnone
        cases hnone

theorem dropLeading?_isInfix {lead s r : List Char} (h : dropLeading? lead s = some r) :
    r <:+: s := by
  rw [dropLeading?_eq_some_iff.1 h]
  exact (List.suffix_append lead r).isInfix

theorem dropTrailing?_isInfix {trail s r : List Char} (h : dropTrailing? trail s = some r) :
    r <:+: s := by
  rw [dropTrailing?_eq_some_iff.1 h]
  exact (List.prefix_append r trail).isInfix

theorem unwrapUrl_isInfix (s : List Char) : unwrapUrl s <:+: s := by
  unfold unwrapUrl
  split
  · next inside h =>
      obtain ⟨r, hr, hinside⟩ := Option.bind_eq_some_iff.1 h
      exact ((trim_isInfix inside).trans (dropTrailing?_isInfix hinside)).trans
        (dropLeading?_isInfix hr)
  · exact List.infix_rfl

theorem unwrapQuotes?_isInfix {s r : List Char} (h : unwrapQuotes? s = some r) : r <:+: s := by
  unfold unwrapQuotes? at h
  split at h
  · cases h
  · next q s =>
      split at h
      · obtain rfl := Option.some.inj h
        exact (List.dropLast_prefix s).isInfix.trans (List.suffix_cons q s).isInfix
      · cases h

/-- The path of an import is part of its line. -/
theorem importTarget_isInfix {line target : List Char} (h : importTarget? line = some target) :
    target <:+: line := by
  obtain ⟨statement, hstatement, h⟩ := Option.bind_eq_some_iff.1 h
  obtain ⟨literal, hliteral, h⟩ := Option.bind_eq_some_iff.1 h
  have hpath := (unwrapQuotes?_isInfix h).trans (unwrapUrl_isInfix (trim literal))
  have hrest := (hpath.trans (trim_isInfix literal)).trans (dropTrailing?_isInfix hliteral)
  exact ((hrest.trans (List.dropWhile_suffix isBlank).isInfix).trans
    (dropLeading?_isInfix hstatement)).trans (trim_isInfix line)

theorem count_markLine {s line : List Char} (h : line ∈ splitLines s) :
    (markLine line).text.count '\n' = line.count '\n' := by
  obtain ⟨hcontent, hline⟩ := cutLineFeed_spec h
  unfold markLine
  simp only
  split
  · next target htarget =>
      have hmark : '\n' ∉ importMark target :=
        not_mem_importMark (by decide) fun hmem =>
          hcontent ((importTarget_isInfix htarget).subset hmem)
      conv_rhs => rw [hline]
      rw [List.count_append, List.count_append, List.count_eq_zero.2 hmark,
        List.count_eq_zero.2 hcontent]
  · rfl

theorem count_markImports (s : List Char) : (markImports s).text.count '\n' = s.count '\n' := by
  have hlines : ((splitLines s).flatMap fun line => line) = s := by
    have hflat := splitLines_flatten s
    rwa [← List.flatMap_id] at hflat
  have htext : (markImports s).text = (splitLines s).flatMap fun line => (markLine line).text := by
    simp only [markImports, List.flatMap_map]
  conv_rhs => rw [← hlines]
  rw [htext]
  exact count_flatMap '\n' fun line hline => count_markLine hline

/-! ## Themes -/

theorem Theme.count_render {theme : Theme} (h : '\n' ∉ theme.name) :
    theme.render.count '\n' = theme.words.count '\n' := by
  have hentries (entries : List (List Char × List Char)) :
      (entries.flatMap fun v => "--theme-".toList ++ v.1 ++ ": ".toList ++ v.2 ++ "; ".toList).count
        '\n' = (entries.flatMap fun v => v.1 ++ v.2).count '\n' := by
    refine count_flatMap '\n' fun v _ => ?_
    have hlead : "--theme-".toList.count '\n' = 0 := by decide
    have hsep : ": ".toList.count '\n' = 0 := by decide
    have hend : "; ".toList.count '\n' = 0 := by decide
    rw [List.count_append, List.count_append, List.count_append, List.count_append, hlead, hsep, hend,
      List.count_append]
    omega
  have hlead : ":root[data-theme=\"".toList.count '\n' = 0 := by decide
  have hopen : "\"] \x7b ".toList.count '\n' = 0 := by decide
  have hclose : ['}'].count '\n' = 0 := by decide
  unfold render words
  rw [List.count_append, List.count_append, List.count_append, List.count_append, hlead, hopen, hclose,
    hentries, List.count_eq_zero.2 h]
  omega

theorem Outlined.count_written {s : List Char} {outline : List Segment} (h : Outlined s outline) :
    ∀ segment ∈ outline,
      segment.written.count '\n' = segment.source.count '\n' + segment.words.count '\n' := by
  induction h with
  | done h => simp [Segment.written, Segment.source, Segment.words]
  | @block p s before after block later hcut hread hrest ih =>
      obtain ⟨header, body, -, -, hname, -⟩ := Theme.read_spec hread
      have hfeed : '\n' ∉ block.theme.name := fun hmem => absurd (hname _ hmem) (by decide)
      refine List.forall_mem_cons.2 ⟨rfl, List.forall_mem_cons.2 ⟨?_, ih⟩⟩
      simp only [Segment.written, Segment.source, Segment.words]
      rw [List.count_append, List.count_filter (p := (· == '\n')) (beq_self_eq_true _),
        Theme.count_render hfeed]
      omega

theorem count_flatMap_written {segments : List Segment}
    (h : ∀ segment ∈ segments,
      segment.written.count '\n' = segment.source.count '\n' + segment.words.count '\n') :
    (segments.flatMap Segment.written).count '\n' =
      (segments.flatMap Segment.source).count '\n' +
        (segments.flatMap Segment.words).count '\n' := by
  induction segments with
  | nil => rfl
  | cons segment segments ih =>
      have hhead := h segment (by simp)
      have htail := ih fun other hother => h other (by simp [hother])
      simp only [List.flatMap_cons, List.count_append]
      omega

theorem not_mem_words_iff {segments : List Segment} {c : Char} :
    c ∉ segments.flatMap Segment.words ↔
      ∀ theme source, .block theme source ∈ segments →
        ∀ v ∈ theme.entries, c ∉ v.1 ∧ c ∉ v.2 := by
  constructor
  · intro h theme source hmem v hv
    have hwords : c ∉ theme.words := fun hc => h (List.mem_flatMap.2 ⟨_, hmem, hc⟩)
    constructor
    · exact fun hc => hwords (List.mem_flatMap.2 ⟨v, hv, List.mem_append_left _ hc⟩)
    · exact fun hc => hwords (List.mem_flatMap.2 ⟨v, hv, List.mem_append_right _ hc⟩)
  · intro h hc
    obtain ⟨segment, hmem, hc⟩ := List.mem_flatMap.1 hc
    cases segment with
    | copied s => cases hc
    | block theme source =>
        obtain ⟨v, hv, hc⟩ := List.mem_flatMap.1 hc
        rcases List.mem_append.1 hc with hc | hc
        · exact (h theme source hmem v hv).1 hc
        · exact (h theme source hmem v hv).2 hc

/-- Each stage of preparing a source and its line feeds.  Removing comments and marking imports keep
their number.  Writing out themes adds, up to the end of any segment, the line feeds of the keys and
values; so the lines of a source are kept exactly if every key and every value is on one line. -/
theorem count_feeds (s : List Char) :
    (withoutComments s).count '\n' = s.count '\n' ∧
    (markImports s).text.count '\n' = s.count '\n' ∧
    (∀ p t, expandThemes p s = .ok t →
      s = (segments s).flatMap Segment.source ∧ t = (segments s).flatMap Segment.written ∧
        ∀ front, front <+: segments s →
          (front.flatMap Segment.written).count '\n' =
            (front.flatMap Segment.source).count '\n' +
              (front.flatMap Segment.words).count '\n') ∧
    ∀ prepared, prepare s = .ok prepared →
      (prepared.text.count '\n' = s.count '\n' ↔
        ∀ theme source, .block theme source ∈ segments (marked s).text →
          ∀ v ∈ theme.entries, '\n' ∉ v.1 ∧ '\n' ∉ v.2) := by
  refine ⟨count_withoutComments s, count_markImports s, ?_, ?_⟩
  · intro p t h
    obtain ⟨outline, houtline, rfl⟩ := (expandThemes_eq_ok_iff.1 h).exists_outlined
    rw [houtline.segments_eq]
    refine ⟨houtline.source_eq.symm, rfl, fun front hfront => ?_⟩
    exact count_flatMap_written fun segment hmem =>
      houtline.count_written segment (hfront.subset hmem)
  · intro prepared h
    obtain ⟨t, ht, rfl⟩ := prepare_eq_ok_iff.1 h
    obtain ⟨outline, houtline, rfl⟩ := ht.exists_outlined
    have hcount := count_flatMap_written houtline.count_written
    have hmarked : (marked s).text.count '\n' = s.count '\n' :=
      (count_markImports _).trans (count_withoutComments s)
    rw [houtline.source_eq, hmarked] at hcount
    rw [houtline.segments_eq, ← not_mem_words_iff, ← List.count_eq_zero, hcount]
    omega

/-- A comment and a theme over several lines: with every entry on one line the lines are kept. -/
theorem count_feeds_one_line :
    let s := "/*\n*/@theme n \x7b\n a: b;\n c: d\n\x7d\n.x\x7b\x7d".toList
    let t := ("\n:root[data-theme=\"n\"] \x7b --theme-a: b; --theme-c: d; \x7d".toList ++
      "\n\n\n\n.x\x7b\x7d".toList)
    prepare s = .ok ⟨t, (marked s).imports⟩ ∧ t.count '\n' = s.count '\n' ∧
      (∀ theme source, .block theme source ∈ segments (marked s).text →
        ∀ v ∈ theme.entries, '\n' ∉ v.1 ∧ '\n' ∉ v.2) ∧
      (((segments (marked s).text).take 2).flatMap Segment.written).count '\n' =
        (((segments (marked s).text).take 2).flatMap Segment.source).count '\n' +
          (((segments (marked s).text).take 2).flatMap Segment.words).count '\n' := by
  intro s t
  have hexpand : expandThemes .start (marked s).text = .ok t := by decide +kernel
  have hprepare : prepare s = .ok ⟨t, (marked s).imports⟩ :=
    prepare_eq_ok_iff.2 ⟨t, expandThemes_eq_ok_iff.1 hexpand, rfl⟩
  have hcount : t.count '\n' = s.count '\n' := by decide +kernel
  exact ⟨hprepare, hcount, ((count_feeds s).2.2.2 _ hprepare).1 hcount,
    ((count_feeds (marked s).text).2.2.1 _ _ hexpand).2.2 _ (List.take_prefix 2 _)⟩

/-- A value over two lines is written out with its line feed, and the block's line feeds are written
behind it once more. -/
theorem prepare_adds_feed :
    let s := "@theme x \x7ba:b\nc\x7d\n.y\x7bz:w\x7d".toList
    let t := ":root[data-theme=\"x\"] \x7b --theme-a: b\nc; \x7d\n\n.y\x7bz:w\x7d".toList
    prepare s = .ok ⟨t, (marked s).imports⟩ ∧ t.count '\n' = s.count '\n' + 1 := by
  intro s t
  have hexpand : expandThemes .start (marked s).text = .ok t := by decide +kernel
  exact ⟨prepare_eq_ok_iff.2 ⟨t, expandThemes_eq_ok_iff.1 hexpand, rfl⟩, by decide +kernel⟩

end Source

end RichStyle
