import RichStyle.Proofs.Roundtrip
import RichStyle.Proofs.Spacing
import RichStyle.Proofs.ThemeRules

/-!
# Themes mean what they say

A block of entries is cut twice: as it stands, at its closing brace and at its semicolons, and again
when its rule has been written out, into tokens and clauses.  Both cuttings are followed along the
lexemes of the entries.  They agree, so that each entry becomes a declaration of its own.
-/

namespace RichStyle

open Text

/-! ## Characters of names and keys -/

namespace Text

theorem isAlphanum_iff {c : Char} :
    c.isAlphanum = true ↔ (65 ≤ c.toNat ∧ c.toNat ≤ 90) ∨ (97 ≤ c.toNat ∧ c.toNat ≤ 122) ∨
      (48 ≤ c.toNat ∧ c.toNat ≤ 57) := by
  have hdef : c.isAlphanum = ((decide (65 ≤ c.val ∧ c.val ≤ 90) ||
      (decide (97 ≤ c.val) && decide (c.val ≤ 122))) ||
        (decide (48 ≤ c.val) && decide (c.val ≤ 57))) := rfl
  simp only [hdef, UInt32.le_iff_toNat_le, Bool.or_eq_true, Bool.and_eq_true, decide_eq_true_eq,
    or_assoc]
  rfl

theorem not_delimiter_of_isAlphanum {c : Char}
    (h : (c.isAlphanum || c == '-' || c == '_') = true) : isDelimiter c = false ∧ c ≠ '/' := by
  have hrange : (48 ≤ c.toNat ∧ c.toNat ≤ 57) ∨ (65 ≤ c.toNat ∧ c.toNat ≤ 90) ∨
      (97 ≤ c.toNat ∧ c.toNat ≤ 122) ∨ c.toNat = 45 ∨ c.toNat = 95 := by
    simp only [Bool.or_eq_true, isAlphanum_iff, beq_iff_eq] at h
    rcases h with (h | rfl) | rfl
    · omega
    · decide
    · decide
  have hne (d : Char) (hd : d.toNat < 45 ∨ 45 < d.toNat ∧ d.toNat < 48 ∨
      57 < d.toNat ∧ d.toNat < 65 ∨ 122 < d.toNat) : c ≠ d := by
    rintro rfl
    omega
  have hblank : isBlank c = false := by
    simp only [isBlank, Bool.or_eq_false_iff, Bool.and_eq_false_iff, decide_eq_false_iff_not,
      beq_eq_false_iff_ne]
    omega
  simp [isDelimiter, isPunctuation, isQuote, hblank, hne]

/-- Ranges of the code points of blanks beyond ASCII. -/
def blankRanges : List (Nat × Nat) :=
  [(0x85, 0x85), (0xA0, 0xA0), (0x1680, 0x1680), (0x2000, 0x200A), (0x2028, 0x2029),
   (0x202F, 0x202F), (0x205F, 0x205F), (0x3000, 0x3000)]

theorem exists_blankRange {c : Char} (h : isBlank c = true) (hc : ¬ c.toNat < 0x80) :
    ∃ b ∈ blankRanges, b.1 ≤ c.toNat ∧ c.toNat ≤ b.2 := by
  simp only [isBlank, Bool.or_eq_true, Bool.and_eq_true, decide_eq_true_eq, beq_iff_eq] at h
  simp only [blankRanges, List.mem_cons, List.not_mem_nil, or_false, exists_eq_or_imp,
    exists_eq_left]
  omega

set_option maxRecDepth 20000 in
theorem wordRanges_apart :
    (wordRanges.all fun r => blankRanges.all fun b => r.2 < b.1 || b.2 < r.1) = true := by
  rfl

theorem not_word_of_blank {c : Char} (h : isBlank c = true) : isWord c = false := by
  unfold isWord
  split
  · simp only [isBlank, Bool.or_eq_true, Bool.and_eq_true, decide_eq_true_eq, beq_iff_eq] at h
    rw [Bool.eq_false_iff]
    intro halnum
    rw [isAlphanum_iff] at halnum
    omega
  · next hc =>
      obtain ⟨b, hb, hrange⟩ := exists_blankRange h hc
      rw [List.any_eq_false]
      intro r hr
      have hapart := List.all_eq_true.1 (List.all_eq_true.1 wordRanges_apart r hr) b hb
      simp only [Bool.or_eq_true, decide_eq_true_eq] at hapart
      simp only [Bool.and_eq_true, decide_eq_true_eq]
      omega

end Text

namespace Source.Theme

open Lexeme (split join kinds Whole)

theorem not_blank_of_isNameChar {c : Char} (h : isNameChar c = true) : isBlank c = false := by
  rw [Bool.eq_false_iff]
  intro hb
  simp only [isNameChar, not_word_of_blank hb, Bool.false_or, Bool.or_eq_true, beq_iff_eq] at h
  rcases h with rfl | rfl <;> cases hb

/-! ## Blocks as they are written -/

/-- Keys of ASCII letters, digits, dashes and underscores, with no dash in front. -/
structure IsKey (key : List Char) : Prop where
  ne_nil : key ≠ []
  chars : ∀ c ∈ key, (c.isAlphanum || c == '-' || c == '_') = true
  head : key.head? ≠ some '-'

/--
Values on one line whose strings are closed and whose parentheses are balanced.  Outside strings
they have no braces and no comments, and no semicolons but in parentheses.
-/
structure IsValue (value : List Char) : Prop where
  oneLine : '\n' ∉ value
  settled : Settled value
  inner : ∀ k ∈ kinds value, k ≠ .openBrace ∧ k ≠ .closeBrace ∧ k ≠ .comment
  balanced : Kind.Balanced (kinds value)
  semicolons : Kind.Enclosed .semicolon (kinds value)

/-- An entry as it stands in a block. -/
def entryText (entry : List Char × List Char) : List Char :=
  entry.1 ++ ": ".toList ++ entry.2 ++ "; ".toList

/-- The block of a theme, on one line. -/
def blockText (name : List Char) (entries : List (List Char × List Char)) : List Char :=
  "@theme ".toList ++ name ++ " \x7b ".toList ++ entries.flatMap entryText ++ ['}']

theorem entryText_eq (entry : List Char × List Char) :
    entryText entry = entry.1 ++ ':' :: (' ' :: entry.2 ++ ';' :: [' ']) := by
  unfold entryText
  simp

theorem assignment_eq_entryText (v : List Char × List Char) :
    assignment v = entryText ("--theme-".toList ++ v.1, v.2) := by
  rw [entryText_eq, assignment_eq]
  simp

/-! ## The lexemes of the entries -/

/-- The lexemes of an entry, with the blank in front of it. -/
def entryLexemes (entry : List Char × List Char) : List Lexeme :=
  ⟨.blank, [' ']⟩ :: ⟨.plain, entry.1⟩ :: ⟨.colon, [':']⟩ ::
    (split (' ' :: entry.2) ++ [⟨.semicolon, [';']⟩])

/-- Entries whose key is one word and whose value leaves no string open. -/
def IsEntry (entry : List Char × List Char) : Prop :=
  Whole ⟨.plain, entry.1⟩ ∧ ∀ l ∈ split (' ' :: entry.2), Whole l

theorem whole_space : Whole ⟨.blank, [' ']⟩ :=
  .blank (by simp)

theorem split_key {key : List Char} (h : Whole ⟨.plain, key⟩) :
    split (' ' :: key) = [⟨.blank, [' ']⟩, ⟨.plain, key⟩] := by
  have hsegmented : Lexeme.Segmented [⟨.blank, [' ']⟩, ⟨.plain, key⟩] := by
    constructor
    · simpa using ⟨whole_space, h⟩
    · simp [Lexeme.Follows]
  simpa using Lexeme.split_join hsegmented

theorem split_entries {entries : List (List Char × List Char)} (h : ∀ e ∈ entries, IsEntry e) :
    split (' ' :: entries.flatMap entryText) =
      entries.flatMap entryLexemes ++ [⟨.blank, [' ']⟩] := by
  induction entries with
  | nil =>
      have hsplit := whole_space.split_append (Lexeme.stopsAt_nil _)
      simpa [split] using hsplit
  | cons e entries ih =>
      obtain ⟨hkey, hvalue⟩ := h e (by simp)
      have hrest := ih fun d hd => h d (by simp [hd])
      have htext : ' ' :: (e :: entries).flatMap entryText =
          ' ' :: e.1 ++ ':' :: (' ' :: e.2 ++ ';' :: ' ' :: entries.flatMap entryText) := by
        rw [List.flatMap_cons, entryText_eq]
        simp
      have hwhole : ∀ l ∈ split (' ' :: e.1), Whole l := by
        rw [split_key hkey]
        simpa using ⟨whole_space, hkey⟩
      rw [htext, Lexeme.split_append_mark hwhole rfl, Lexeme.split_append_mark hvalue rfl, hrest,
        split_key hkey]
      simp [entryLexemes]

theorem whole_entries {entries : List (List Char × List Char)} (h : ∀ e ∈ entries, IsEntry e) :
    ∀ l ∈ split (' ' :: entries.flatMap entryText), Whole l := by
  rw [split_entries h]
  intro l hl
  rcases List.mem_append.1 hl with hl | hl
  · obtain ⟨e, he, hl⟩ := List.mem_flatMap.1 hl
    obtain ⟨hkey, hvalue⟩ := h e he
    have hcolon : Whole ⟨.colon, [':']⟩ := .mark rfl
    have hsemi : Whole ⟨.semicolon, [';']⟩ := .mark rfl
    simp only [entryLexemes, List.mem_cons, List.mem_append, List.not_mem_nil, or_false] at hl
    rcases hl with rfl | rfl | rfl | hl | rfl
    · exact whole_space
    · exact hkey
    · exact hcolon
    · exact hvalue l hl
    · exact hsemi
  · rw [List.mem_singleton.1 hl]
    exact whole_space

end Source.Theme

/-! ## Cutting a block at its semicolons -/

namespace Source

open Lexeme (split join kinds Whole)

theorem extendFirst_nil (depth : Nat) (s : List Char) :
    extendFirst [] (splitEntries depth s) = splitEntries depth s := by
  obtain ⟨first, rest, heq, -⟩ := splitEntries_spec depth s
  rw [heq]
  rfl

theorem extendFirst_append (a b : List Char) (parts : List (List Char)) :
    extendFirst a (extendFirst b parts) = extendFirst (a ++ b) parts := by
  cases parts <;> simp [extendFirst]

theorem splitEntries_run {t : List Char}
    (h : ∀ c ∈ t, isQuote c = false ∧ isPunctuation c = false) (depth : Nat) (r : List Char) :
    splitEntries depth (t ++ r) = extendFirst t (splitEntries depth r) := by
  induction t with
  | nil => rw [List.nil_append, extendFirst_nil]
  | cons c t ih =>
      obtain ⟨hq, hp⟩ := h c (by simp)
      have hc : c ≠ ';' ∧ c ≠ '(' ∧ c ≠ ')' := by
        refine ⟨?_, ?_, ?_⟩ <;> rintro rfl <;> cases hp
      have hdepth : parenDepth depth c = depth := by simp [parenDepth, hc.2.1, hc.2.2]
      rw [List.cons_append, splitEntries, if_neg (by simp [hq]), if_neg fun hend => hc.1 hend.1,
        hdepth, ih fun d hd => h d (by simp [hd]), extendFirst_append, List.singleton_append]

theorem splitEntries_whole {l : Lexeme} {depth : Nat} (h : Whole l) (hl : l.kind ≠ .comment)
    (hopen : Ending.of? depth l.kind = none) (r : List Char) :
    splitEntries depth (l.text ++ r) =
      extendFirst l.text (splitEntries (l.kind.parenDepth depth) r) := by
  cases h with
  | @mark c kind hk =>
      have hq := Lexeme.not_quote_of_punctuation (Lexeme.isPunctuation_of_kind hk)
      rw [List.singleton_append, splitEntries, if_neg (by simp [hq])]
      unfold Kind.ofPunctuation? at hk
      split at hk <;> cases hk <;> simp_all [Ending.of?, parenDepth, Kind.parenDepth]
  | quoted hq hs =>
      rw [List.cons_append, splitEntries, if_pos hq, quotedRun_of_closes r hq hs]
      rfl
  | comment => exact absurd rfl hl
  | blank h =>
      refine splitEntries_run (fun c hc => ?_) depth r
      have hmark := Orderly.not_mark_of_blank (h c hc)
      exact ⟨hmark.1, Lexeme.not_punctuation_of_kind hmark.2⟩
  | plain h =>
      refine splitEntries_run (fun c hc => ?_) depth r
      have hd := h.ordinary c hc
      simp only [isDelimiter, Bool.or_eq_false_iff] at hd
      exact ⟨hd.1.2, hd.1.1⟩

/-- Semicolons that end no clause end no entry. -/
theorem splitEntries_join {lexemes : List Lexeme} {depth final : Nat} (h : ∀ l ∈ lexemes, Whole l)
    (hcomment : ∀ l ∈ lexemes, l.kind ≠ .comment)
    (hdepth : Kind.depthAfter? depth (lexemes.map Lexeme.kind) = some final) (r : List Char) :
    splitEntries depth (join lexemes ++ r) = extendFirst (join lexemes) (splitEntries final r) := by
  induction lexemes generalizing depth with
  | nil =>
      obtain rfl : depth = final := Option.some.inj hdepth
      rw [Lexeme.join_nil, List.nil_append, extendFirst_nil]
  | cons l lexemes ih =>
      rw [List.map_cons, Kind.depthAfter?] at hdepth
      cases hopen : Ending.of? depth l.kind with
      | some ending => simp [hopen] at hdepth
      | none =>
          rw [hopen] at hdepth
          rw [Lexeme.join_cons, List.append_assoc,
            splitEntries_whole (h l (by simp)) (hcomment l (by simp)) hopen,
            ih (fun m hm => h m (by simp [hm])) (fun m hm => hcomment m (by simp [hm])) hdepth,
            extendFirst_append]

namespace Theme

theorem IsKey.ordinary {key : List Char} (h : IsKey key) {c : Char} (hc : c ∈ key) :
    isDelimiter c = false ∧ c ≠ '/' :=
  not_delimiter_of_isAlphanum (h.chars c hc)

theorem IsKey.not_mem {key : List Char} (h : IsKey key) {c : Char} (hc : isDelimiter c = true) :
    c ∉ key := by
  intro hmem
  rw [(h.ordinary hmem).1] at hc
  cases hc

theorem variableOf_entry {key : List Char} (h : IsKey key) (value : List Char) :
    variableOf? (' ' :: key ++ ':' :: value) = some (key, trim value) := by
  have hcolon : ∀ c ∈ ' ' :: key, decide (c ≠ ':') = true := by
    intro c hc
    rcases List.mem_cons.1 hc with rfl | hc
    · decide
    · have hne : c ≠ ':' := by
        rintro rfl
        exact h.not_mem (by decide) hc
      simpa using hne
  have hkey : trim (' ' :: key) = key := by
    have hblank : ∀ c ∈ key, isBlank c = false := fun c hc => not_blank_of_ordinary (h.ordinary hc).1
    have htrim := Lexeme.trim_append (a := [' ']) (x := key) (b := []) (by simp) (by simp)
      (fun c hc => hblank c (List.mem_of_mem_head? hc))
      (fun c hc => hblank c (List.mem_of_getLast? hc))
    simpa using htrim
  have hdash : key.dropWhile (· = '-') = key := by
    obtain ⟨c, s, hs⟩ := List.exists_cons_of_ne_nil h.ne_nil
    have hc : c ≠ '-' := by
      rintro rfl
      exact h.head (by simp [hs])
    rw [hs, List.dropWhile_cons_of_neg (by simpa using hc)]
  have hne : key.isEmpty = false := by simpa using h.ne_nil
  unfold variableOf?
  simp only [List.takeWhile_append_of_pos hcolon, List.dropWhile_append_of_pos hcolon]
  simp [hkey, hdash, hne]

/-- Texts that stay in one clause and leave it outside strings and parentheses. -/
structure Fits (value : List Char) : Prop where
  settled : Settled value
  inner : ∀ l ∈ split value, l.kind ≠ .openBrace ∧ l.kind ≠ .closeBrace ∧ l.kind ≠ .comment
  depth : Kind.depthAfter? 0 (kinds value) = some 0

theorem Fits.whole {value : List Char} (h : Fits value) : ∀ l ∈ split value, Whole l :=
  Lexeme.whole_of_settled h.settled (absent_startsComment_iff.2 fun l hl => (h.inner l hl).2.2)

theorem IsValue.fits {value : List Char} (h : IsValue value) : Fits value where
  settled := h.settled
  inner := fun l hl => h.inner l.kind (List.mem_map_of_mem hl)
  depth := h.balanced.depthAfter? h.semicolons fun k hk => ⟨(h.inner k hk).1, (h.inner k hk).2.1⟩

theorem Fits.trim {value : List Char} (h : Fits value) : Fits (trim value) := by
  obtain ⟨lead, trail, hsplit, -⟩ := Lexeme.exists_split_trim h.whole
  have hmem : ∀ l ∈ split (Text.trim value), l ∈ split value := by
    intro l hl
    rw [hsplit]
    simp [hl]
  constructor
  · have hsettled := Lexeme.settled_join (fun l hl => h.whole l (hmem l hl))
      fun l hl => (h.inner l (hmem l hl)).2.2
    rwa [Lexeme.join_split] at hsettled
  · exact fun l hl => h.inner l (hmem l hl)
  · rw [← Kind.depthAfter?_filter, Lexeme.kinds_trim h.whole, Kind.depthAfter?_filter]
    exact h.depth

theorem Fits.space {value : List Char} (h : Fits value) : Fits (' ' :: value) := by
  obtain ⟨lead, hlead, -, hblank⟩ := Lexeme.exists_split_blanks (' ' :: value)
  obtain ⟨lead', hlead', -, hblank'⟩ := Lexeme.exists_split_blanks value
  rw [List.dropWhile_cons_of_pos (by decide)] at hlead
  have hkinds {ls : List Lexeme} (hls : ∀ l ∈ ls, l.kind = .blank) :
      Kind.depthAfter? 0 (ls.map Lexeme.kind) = some 0 :=
    Kind.depthAfter?_blanks (by simpa using hls) 0
  constructor
  · exact .plain (by decide) h.settled
  · intro l hl
    rw [hlead] at hl
    rcases List.mem_append.1 hl with hl | hl
    · simp [hblank l hl]
    · exact h.inner l (by simp [hlead', hl])
  · have hdepth := h.depth
    unfold kinds at hdepth ⊢
    rw [hlead', List.map_append, Kind.depthAfter?_append, hkinds hblank'] at hdepth
    rw [hlead, List.map_append, Kind.depthAfter?_append, hkinds hblank]
    exact hdepth

/-- A key is one word, also with ordinary characters in front of it. -/
theorem IsKey.whole_append {key lead : List Char} (h : IsKey key)
    (hlead : ∀ c ∈ lead, isDelimiter c = false ∧ c ≠ '/') : Whole ⟨.plain, lead ++ key⟩ := by
  have hall : ∀ c ∈ lead ++ key, isDelimiter c = false ∧ c ≠ '/' := by
    intro c hc
    rcases List.mem_append.1 hc with hc | hc
    · exact hlead c hc
    · exact h.ordinary hc
  refine Lexeme.whole_of_plain (by simp [h.ne_nil]) (Lexeme.plain_of_ordinary ?_ ?_)
  · exact fun c hc => (hall c hc).1
  · exact fun hc => (hall _ hc).2 rfl

theorem IsKey.whole_key {key : List Char} (h : IsKey key) : Whole ⟨.plain, key⟩ := by
  simpa using h.whole_append (List.forall_mem_nil _)

/-- The entries of a block, each with its key and its value. -/
def IsBlock (entries : List (List Char × List Char)) : Prop :=
  ∀ e ∈ entries, IsKey e.1 ∧ Fits e.2

theorem splitEntries_semicolon (s : List Char) :
    splitEntries 0 (';' :: s) = [] :: splitEntries 0 s := by
  rw [splitEntries]
  simp [isQuote]

theorem trim_space (value : List Char) : trim (' ' :: value) = trim value := by
  simp [trim, trimStart]

/-- Cutting a block at its semicolons gives its entries, the last one empty. -/
theorem variablesOf_entries {entries : List (List Char × List Char)} (h : IsBlock entries) :
    variablesOf (' ' :: entries.flatMap entryText) = entries.map fun e => (e.1, trim e.2) := by
  unfold variablesOf
  induction entries with
  | nil =>
      have hlast := splitEntries_run (t := [' ']) (by simp [isQuote, isPunctuation]) 0 []
      rw [List.append_nil, splitEntries] at hlast
      rw [List.flatMap_nil, hlast]
      rfl
  | cons e entries ih =>
      obtain ⟨hkey, hvalue⟩ := h e (by simp)
      have hrest := ih fun d hd => h d (by simp [hd])
      let front : List Lexeme := [⟨.blank, [' ']⟩, ⟨.plain, e.1⟩, ⟨.colon, [':']⟩]
      have hjoin : join (front ++ split (' ' :: e.2)) = ' ' :: e.1 ++ ':' :: ' ' :: e.2 := by
        simp [front, Lexeme.join_split]
      have hcolon : Whole ⟨.colon, [':']⟩ := .mark rfl
      have hwhole : ∀ l ∈ front ++ split (' ' :: e.2), Whole l := by
        intro l hl
        rcases List.mem_append.1 hl with hl | hl
        · have hfront : ∀ l ∈ front, Whole l := by
            simpa [front] using ⟨whole_space, hkey.whole_key, hcolon⟩
          exact hfront l hl
        · exact hvalue.space.whole l hl
      have hcomment : ∀ l ∈ front ++ split (' ' :: e.2), l.kind ≠ .comment := by
        intro l hl
        rcases List.mem_append.1 hl with hl | hl
        · have hfront : ∀ l ∈ front, l.kind ≠ .comment := by simp [front]
          exact hfront l hl
        · exact (hvalue.space.inner l hl).2.2
      have hdepth : Kind.depthAfter? 0 ((front ++ split (' ' :: e.2)).map Lexeme.kind) = some 0 :=
        hvalue.space.depth
      have hcut := splitEntries_join hwhole hcomment hdepth (';' :: ' ' :: entries.flatMap entryText)
      have htext : ' ' :: (e :: entries).flatMap entryText =
          ' ' :: e.1 ++ ':' :: ' ' :: e.2 ++ ';' :: ' ' :: entries.flatMap entryText := by
        rw [List.flatMap_cons, entryText_eq]
        simp
      rw [hjoin, splitEntries_semicolon, extendFirst, List.append_nil] at hcut
      rw [htext, hcut, List.filterMap_cons_some (variableOf_entry hkey _), trim_space, hrest]
      rfl

/-! ## Reading a block -/

theorem IsBlock.isEntry {entries : List (List Char × List Char)} (h : IsBlock entries) :
    ∀ e ∈ entries, IsEntry e :=
  fun e he => ⟨(h e he).1.whole_key, (h e he).2.space.whole⟩

theorem IsBlock.inner {entries : List (List Char × List Char)} (h : IsBlock entries) :
    ∀ l ∈ split (' ' :: entries.flatMap entryText),
      l.kind ≠ .openBrace ∧ l.kind ≠ .closeBrace ∧ l.kind ≠ .comment := by
  rw [split_entries h.isEntry]
  intro l hl
  rcases List.mem_append.1 hl with hl | hl
  · obtain ⟨e, he, hl⟩ := List.mem_flatMap.1 hl
    simp only [entryLexemes, List.mem_cons, List.mem_append, List.not_mem_nil, or_false] at hl
    rcases hl with rfl | rfl | rfl | hl | rfl
    · simp
    · simp
    · simp
    · exact (h e he).2.space.inner l hl
    · simp
  · rw [List.mem_singleton.1 hl]
    simp

theorem IsBlock.absent {entries : List (List Char × List Char)} (h : IsBlock entries) :
    Absent startsComment (' ' :: entries.flatMap entryText) :=
  absent_startsComment_iff.2 fun l hl => (h.inner l hl).2.2

theorem IsBlock.settled {entries : List (List Char × List Char)} (h : IsBlock entries) :
    Settled (' ' :: entries.flatMap entryText) := by
  have hsettled := Lexeme.settled_join (whole_entries h.isEntry) fun l hl => (h.inner l hl).2.2
  rwa [Lexeme.join_split] at hsettled

/-- A mark that is none of the lexemes of a text is not in it outside strings. -/
theorem absent_mark {s : List Char} {c : Char} {kind : Kind} (hk : Kind.ofPunctuation? c = some kind)
    (hcomment : Absent startsComment s) (h : ∀ l ∈ split s, l.kind ≠ kind) :
    Absent (startsWith [c]) s := by
  have hq := Lexeme.not_quote_of_punctuation (Lexeme.isPunctuation_of_kind hk)
  rw [absent_word_iff hq]
  intro x y hs hx
  have hcomment' : Absent startsComment x := by
    rw [startsComment_eq] at hcomment ⊢
    exact absent_word_of_append (by decide) (hs ▸ hcomment)
  have hsplit := Lexeme.split_append_mark (Lexeme.whole_of_settled hx hcomment') hk y
  refine h ⟨kind, [c]⟩ ?_ rfl
  rw [hs, List.singleton_append, hsplit]
  simp

theorem cut_block {entries : List (List Char × List Char)} (h : IsBlock entries) :
    cutOutsideQuotes (startsWith ['}']) (' ' :: entries.flatMap entryText ++ ['}']) =
      some (' ' :: entries.flatMap entryText, ['}']) := by
  have habsent := absent_mark (c := '}') rfl h.absent fun l hl => (h.inner l hl).2.1
  have hend : cutOutsideQuotes (startsWith ['}']) ['}'] = some ([], ['}']) := by
    rw [cutOutsideQuotes, if_neg (by decide), if_pos (by decide)]
  rw [cutOutsideQuotes_append_of_none h.settled (seesOnly_char '}' _ _) habsent, hend]
  simp

/-- The theme that a block declares. -/
def declared (name : List Char) (entries : List (List Char × List Char)) : Theme :=
  ⟨name, entries.map fun e => (e.1, trim e.2)⟩

/-- The text of a block behind its keyword. -/
def blockTail (name : List Char) (entries : List (List Char × List Char)) : List Char :=
  ' ' :: (name ++ ' ' :: '{' :: (' ' :: entries.flatMap entryText ++ ['}']))

theorem read_block {name : List Char} {entries : List (List Char × List Char)} (p : Span)
    (hne : name ≠ []) (hname : ∀ c ∈ name, isNameChar c = true) (h : IsBlock entries) :
    read p (blockTail name entries) =
      .ok ⟨declared name entries, blockTail name entries, []⟩ := by
  unfold blockTail
  generalize hinside : ' ' :: entries.flatMap entryText ++ ['}'] = inside
  have hgap : blankRun (' ' :: (name ++ ' ' :: '{' :: inside)) =
      ([' '], name ++ ' ' :: '{' :: inside) := by
    obtain ⟨c, s, rfl⟩ := List.exists_cons_of_ne_nil hne
    have hc := not_blank_of_isNameChar (hname c (by simp))
    simp [blankRun, hc]
  have hspace : isNameChar ' ' = false := by decide
  have htake : (name ++ ' ' :: '{' :: inside).takeWhile isNameChar = name := by
    rw [List.takeWhile_append_of_pos hname, List.takeWhile_cons_of_neg (by simp [hspace]),
      List.append_nil]
  have hdrop : (name ++ ' ' :: '{' :: inside).dropWhile isNameChar = ' ' :: '{' :: inside := by
    rw [List.dropWhile_append_of_pos hname, List.dropWhile_cons_of_neg (by simp [hspace])]
  have hbrace : blankRun (' ' :: '{' :: inside) = ([' '], '{' :: inside) := by
    have hb : isBlank '{' = false := by decide
    simp [blankRun, hb]
  have hcut := cut_block h
  rw [hinside] at hcut
  unfold read
  simp only [hgap, htake, hdrop, hbrace, hcut]
  rw [if_neg (by simpa using hne), variablesOf_entries h, ← hinside]
  simp [declared]

theorem blockText_eq (name : List Char) (entries : List (List Char × List Char)) :
    blockText name entries = themeKeyword ++ blockTail name entries := by
  unfold blockText blockTail themeKeyword
  simp

theorem absent_append_of_ne_slash {a b : List Char} (ha : ∀ c ∈ a, isQuote c = false ∧ c ≠ '/')
    (hb : Absent startsComment b) : Absent startsComment (a ++ b) := by
  induction a with
  | nil => exact hb
  | cons c a ih =>
      obtain ⟨hq, hc⟩ := ha c (by simp)
      rw [List.cons_append, absent_cons_iff hq]
      exact ⟨startsComment_of_ne_slash _ hc, ih fun d hd => ha d (by simp [hd])⟩

section Block

variable {name : List Char} {entries : List (List Char × List Char)} (hne : name ≠ [])
  (hname : ∀ c ∈ name, isNameChar c = true) (h : IsBlock entries)
  (hfeed : ∀ e ∈ entries, '\n' ∉ e.2)

include hname h hfeed in
theorem not_mem_blockTail : '\n' ∉ blockTail name entries := by
  unfold blockTail
  intro hmem
  have hbody : '\n' ∈ entries.flatMap entryText := by
    have hmem' : '\n' ∈ name ∨ '\n' ∈ entries.flatMap entryText := by simpa using hmem
    refine hmem'.resolve_left fun hn => ?_
    have hc := hname _ hn
    revert hc
    decide
  obtain ⟨e, he, hmem⟩ := List.mem_flatMap.1 hbody
  rw [entryText_eq] at hmem
  have hmem' : '\n' ∈ e.1 ∨ '\n' ∈ e.2 := by simpa using hmem
  rcases hmem' with hkey | hvalue
  · exact (h e he).1.not_mem (by decide) hkey
  · exact hfeed e he hvalue

include hname h in
theorem absent_blockText : Absent startsComment (blockText name entries) := by
  have hend : Absent startsComment (' ' :: entries.flatMap entryText ++ ['}']) := by
    rw [absent_startsComment_iff, Lexeme.split_append_mark (whole_entries h.isEntry) rfl]
    intro l hl
    rcases List.mem_append.1 hl with hl | hl
    · exact (h.inner l hl).2.2
    · have hbrace : l = ⟨.closeBrace, ['}']⟩ := by simpa [split] using hl
      rw [hbrace]
      simp
  have hfront : ∀ c ∈ themeKeyword ++ ' ' :: (name ++ [' ', '{']), isQuote c = false ∧ c ≠ '/' := by
    rw [themeKeyword_eq]
    intro c hc
    have hc' : c ∈ ['@', 't', 'h', 'e', 'm', 'e', ' ', '{'] ∨ c ∈ name := by
      simp only [List.mem_append, List.mem_cons, List.not_mem_nil, or_false] at hc ⊢
      tauto
    rcases hc' with hc | hc
    · have hall : (['@', 't', 'h', 'e', 'm', 'e', ' ', '{'].all fun c =>
          !isQuote c && c != '/') = true := by decide
      simpa using List.all_eq_true.1 hall c hc
    · have hchar := hname c hc
      constructor
      · rw [Bool.eq_false_iff]
        intro hq
        simp only [isQuote, Bool.or_eq_true, beq_iff_eq] at hq
        rcases hq with rfl | rfl <;> revert hchar <;> decide
      · rintro rfl
        revert hchar
        decide
  have htext : blockText name entries =
      (themeKeyword ++ ' ' :: (name ++ [' ', '{'])) ++ (' ' :: entries.flatMap entryText ++ ['}']) := by
    rw [blockText_eq]
    simp [blockTail]
  rw [htext]
  exact absent_append_of_ne_slash hfront hend

theorem importTarget_block : importTarget? (blockText name entries) = none := by
  have htext : blockText name entries =
      '@' :: ("theme".toList ++ (' ' :: (name ++ ' ' :: '{' :: ' ' :: entries.flatMap entryText)) ++
        ['}']) := by
    rw [blockText_eq, themeKeyword_eq]
    simp [blockTail]
  have htrim : trim (blockText name entries) = blockText name entries := by
    rw [htext]
    exact trim_of_solid (by decide) (by decide)
  have hlead : dropLeading? "@import".toList (trim (blockText name entries)) = none := by
    rw [htrim, htext]
    rfl
  unfold importTarget?
  rw [hlead]
  rfl

include hname h hfeed in
/-- A block on one line has neither comments nor imports. -/
theorem marked_block : marked (blockText name entries) = ⟨blockText name entries, []⟩ := by
  have hline : '\n' ∉ blockText name entries := by
    rw [blockText_eq, themeKeyword_eq]
    simpa using not_mem_blockTail hname h hfeed
  have hne : blockText name entries ≠ [] := by simp [blockText_eq, blockTail]
  have hcut : (cutLineFeed (blockText name entries)).1 = blockText name entries := by
    have hcut := cutLineFeed_append hline (.inl rfl)
    rw [List.append_nil] at hcut
    rw [hcut]
  unfold marked
  rw [withoutComments_of_absent (absent_blockText hname h)]
  apply markImports_of_none
  rw [splitLines_of_not_mem hne hline, List.forall_mem_singleton, hcut]
  exact importTarget_block

include hne hname h hfeed in
/-- A block is written out as the rule of its theme. -/
theorem expanded_block :
    Expanded (blockText name entries) (render (declared name entries)) := by
  have hcut : cutOutsideQuotes (startsWith themeKeyword) (blockText name entries) =
      some ([], themeKeyword ++ blockTail name entries) := by
    have hstart : startsWith themeKeyword (themeKeyword ++ blockTail name entries) = true :=
      startsWith_iff.2 ⟨_, rfl⟩
    rw [blockText_eq]
    rw [themeKeyword_eq] at hstart ⊢
    rw [List.cons_append] at hstart ⊢
    rw [cutOutsideQuotes, if_neg (by decide), if_pos hstart]
  have hfeeds : (themeKeyword ++ blockTail name entries).filter (· == '\n') = [] := by
    rw [List.filter_eq_nil_iff]
    intro c hc hc'
    obtain rfl : c = '\n' := by simpa using hc'
    rw [themeKeyword_eq] at hc
    exact not_mem_blockTail hname h hfeed (by simpa using hc)
  have hexpanded := Expanded.theme hcut rfl (read_block .start hne hname h) (.done absent_nil)
  rw [hfeeds] at hexpanded
  simpa using hexpanded

end Block

end Theme

end Source

/-! ## The rule of a block -/

theorem Property.isRich_of_dash (s : List Char) : isRich (String.ofList ('-' :: s)) = false := by
  have hname (p : Property) : p.name.toList.head? ≠ some '-' := by
    cases p <;> decide
  have hdash : isBlank '-' = false := by decide
  obtain ⟨t, ht⟩ : ∃ t, trim ('-' :: s) = '-' :: t := by
    obtain ⟨a, b, hs, ha, hb⟩ := Source.exists_trim ('-' :: s)
    cases a with
    | cons c a =>
        obtain ⟨rfl, -⟩ := List.cons.inj hs
        rw [ha '-' (by simp)] at hdash
        cases hdash
    | nil =>
        cases ht : trim ('-' :: s) with
        | nil =>
            rw [ht] at hs
            obtain rfl : '-' :: s = b := by simpa using hs
            rw [hb '-' (by simp)] at hdash
            cases hdash
        | cons c t =>
            rw [ht] at hs
            obtain ⟨rfl, -⟩ := List.cons.inj hs
            exact ⟨t, rfl⟩
  rw [isRich_eq_isSome, ofName?, Option.isSome_eq_false_iff, Option.isNone_iff_eq_none,
    List.find?_eq_none]
  intro p _ hp
  apply hname p
  have heq : p.name = normalName (String.ofList ('-' :: s)) := by simpa using hp
  rw [heq]
  simp [normalName, ht]

namespace Sheet

open Lexeme (split join kinds Whole)
open Source.Theme (entryLexemes Fits)
open Source (collapse)

/-- The declaration of an entry extends its rule. -/
theorem buildTokens_entry {e : List Char × List Char} {tokens : List Token} {more : List Lexeme}
    (rule : Rule) (hkey : Whole ⟨.plain, e.1⟩) (hvalue : Fits e.2)
    (h : tokens.map Token.toLexeme = entryLexemes e ++ more) :
    ∃ p rest, rest.map Token.toLexeme = more ∧
      buildTokens (.inside rule) tokens = buildTokens (.inside { rule with
        declarations := rule.declarations ++ [Declaration.classified (String.ofList e.1)
          (String.ofList (collapse (trim e.2))) p] }) rest := by
  simp only [entryLexemes, List.cons_append, List.append_assoc, List.nil_append] at h
  obtain ⟨lead, tokens, rfl, hlead, h⟩ := List.map_eq_cons_iff.1 h
  obtain ⟨word, tokens, rfl, hword, h⟩ := List.map_eq_cons_iff.1 h
  obtain ⟨colon, tokens, rfl, hcolon, h⟩ := List.map_eq_cons_iff.1 h
  obtain ⟨after, tokens, rfl, hafter, h⟩ := List.map_eq_append_iff.1 h
  obtain ⟨mark, rest, rfl, hmark, hrest⟩ := List.map_eq_cons_iff.1 h
  have hblank : lead.kind = .blank := congrArg Lexeme.kind hlead
  have hplain : word.kind = .plain := congrArg Lexeme.kind hword
  have hproperty : Token.render [lead, word] = String.ofList e.1 := by
    have hlexemes : [word].map Token.toLexeme = [⟨.plain, e.1⟩] := by simp [hword]
    have htidy : Lexeme.Tidy ([word].map Token.toLexeme) := by
      rw [hlexemes]
      exact ⟨⟨⟨by simpa using hkey, by simp⟩, by simp, by simp, by simp⟩, by simp⟩
    have hblanks : ∀ t ∈ [lead], t.kind = .blank := by simpa using hblank
    have hrender := Token.render_tidy [] hblanks (by simp) htidy
    simpa [hword] using hrender
  have hpiece : Token.Piece after := by
    constructor
    · rw [hafter]
      exact ⟨hvalue.space.whole, Lexeme.split_chain _⟩
    · intro t ht
      exact hvalue.space.inner t.toLexeme (hafter ▸ List.mem_map_of_mem ht)
  have hvalue' : Token.render after = String.ofList (collapse (trim e.2)) := by
    rw [hpiece.render_eq hafter, Source.Theme.trim_space]
  have hne : Token.render [lead, word] ≠ "" := by
    rw [hproperty]
    exact Text.ofList_ne_empty hkey.text_ne_nil
  have hkinds : [lead, word].map (·.kind) = [.blank, .plain] := by simp [hblank, hplain]
  have hbefore : Kind.depthAfter? 0 ([lead, word].map (·.kind)) = some 0 := by
    rw [hkinds]
    rfl
  have hhide : Kind.hidesColons 0 ([lead, word].map (·.kind)) = true := by
    rw [hkinds]
    rfl
  have hdepth : Kind.depthAfter? 0 (after.map (·.kind)) = some 0 := by
    rw [map_kind_eq hafter]
    exact hvalue.space.depth
  obtain ⟨p, hbuild⟩ := buildTokens_declaration rule rest (congrArg Lexeme.kind hcolon) hbefore hhide
    hne hdepth (congrArg Lexeme.kind hmark)
  rw [hproperty, hvalue'] at hbuild
  exact ⟨p, rest, hrest, hbuild⟩

theorem buildTokens_entries {entries : List (List Char × List Char)} {tokens : List Token}
    {more : List Lexeme} (rule : Rule) (hkeys : ∀ e ∈ entries, Whole ⟨.plain, e.1⟩)
    (hvalues : ∀ e ∈ entries, Fits e.2)
    (h : tokens.map Token.toLexeme = entries.flatMap entryLexemes ++ more) :
    ∃ ds rest, rest.map Token.toLexeme = more ∧
      ds.map Declaration.placeless = entries.map (fun e => (Declaration.classified
        (String.ofList e.1) (String.ofList (collapse (trim e.2))) .start).placeless) ∧
      buildTokens (.inside rule) tokens =
        buildTokens (.inside { rule with declarations := rule.declarations ++ ds }) rest := by
  induction entries generalizing tokens rule with
  | nil => exact ⟨[], tokens, h, by simp, by simp⟩
  | cons e entries ih =>
      rw [List.flatMap_cons, List.append_assoc] at h
      obtain ⟨p, tokens', htokens, hstep⟩ :=
        buildTokens_entry rule (hkeys e (by simp)) (hvalues e (by simp)) h
      obtain ⟨ds, rest, hrest, hds, hrun⟩ := ih _ (fun d hd => hkeys d (by simp [hd]))
        (fun d hd => hvalues d (by simp [hd])) htokens
      refine ⟨.classified (String.ofList e.1) (String.ofList (collapse (trim e.2))) p :: ds, rest,
        hrest, ?_, ?_⟩
      · rw [List.map_cons, List.map_cons, hds]
        simp only [Declaration.placeless, Declaration.classified]
      · rw [hstep, hrun]
        simp

/-- The tokens of a theme written out open its rule. -/
theorem buildTokens_header {theme : Source.Theme} {tokens : List Token} {more : List Lexeme}
    (hname : ∀ c ∈ theme.name, Source.isNameChar c = true)
    (h : tokens.map Token.toLexeme = theme.header ++ ⟨.openBrace, ['{']⟩ :: more) :
    ∃ p rest, rest.map Token.toLexeme = more ∧
      buildTokens .outside tokens =
        buildTokens (.inside ⟨String.ofList theme.selector, [], p⟩) rest := by
  obtain ⟨core, hheader, hkinds⟩ : ∃ core, theme.header = core ++ [⟨.blank, [' ']⟩] ∧
      core.map Lexeme.kind = [.colon, .plain, .quoted, .plain] :=
    ⟨theme.header.dropLast, rfl, rfl⟩
  have hsegmented : Lexeme.Segmented core := by
    have hwhole := Source.Theme.segmented_header hname
    exact hwhole.of_infix ⟨[], [⟨.blank, [' ']⟩], by simp [hheader]⟩
  have hjoin : join core = theme.selector := by
    have hheader' := Source.Theme.join_header theme
    rw [hheader, Lexeme.join_append] at hheader'
    simpa using hheader'
  have hkind : ∀ l ∈ core, l.kind ∈ [Kind.colon, .plain, .quoted, .plain] := by
    intro l hl
    rw [← hkinds]
    exact List.mem_map_of_mem hl
  have hblank : ∀ l ∈ core, l.kind ≠ .blank := by
    intro l hl hk
    have hmem := hkind l hl
    rw [hk] at hmem
    revert hmem
    decide
  have htidy : Lexeme.Tidy core := by
    refine ⟨⟨hsegmented, ?_, ?_, ?_⟩, ?_⟩
    · intro l hl
      have hmem := hkind l hl
      refine ⟨?_, ?_, ?_⟩ <;> intro hk <;> rw [hk] at hmem <;> revert hmem <;> decide
    · exact fun l hl hk => absurd hk (hblank l hl)
    · exact fun l hl => hblank l (List.mem_of_mem_head? hl)
    · exact fun l hl => hblank l (List.mem_of_getLast? hl)
  rw [hheader, List.append_assoc] at h
  obtain ⟨selector, tokens, rfl, hselector, h⟩ := List.map_eq_append_iff.1 h
  obtain ⟨gap, tokens, rfl, hgap, h⟩ := List.map_eq_cons_iff.1 h
  obtain ⟨mark, rest, rfl, hmark, hrest⟩ := List.map_eq_cons_iff.1 h
  have hne : selector ≠ [] := by
    rintro rfl
    rw [← hselector] at hkinds
    cases hkinds
  have hdepth : Kind.depthAfter? 0 (selector.map (·.kind)) = some 0 := by
    have hmap : selector.map (·.kind) = (selector.map Token.toLexeme).map Lexeme.kind := by
      rw [List.map_map]
      rfl
    rw [hmap, hselector, hkinds]
    rfl
  have hlead : ∀ u ∈ ([] : List Token), u.kind = .blank := by simp
  obtain ⟨p, hbuild⟩ := buildTokens_selector rest hlead (hselector ▸ htidy) hne hdepth
    (congrArg Lexeme.kind hgap) (congrArg Lexeme.kind hmark)
  rw [hselector, hjoin] at hbuild
  exact ⟨p, rest, hrest, hbuild⟩

/-- The entries of a block as they are written out. -/
def writtenEntries (entries : List (List Char × List Char)) : List (List Char × List Char) :=
  entries.map fun e => ("--theme-".toList ++ e.1, trim e.2)

open Source.Theme in
theorem split_declared {name : List Char} {entries : List (List Char × List Char)}
    (hname : ∀ c ∈ name, Source.isNameChar c = true)
    (h : ∀ e ∈ writtenEntries entries, IsEntry e) :
    split (render (declared name entries)) =
      header (declared name entries) ++ ⟨.openBrace, ['{']⟩ ::
        ((writtenEntries entries).flatMap entryLexemes ++
          [⟨.blank, [' ']⟩, ⟨.closeBrace, ['}']⟩]) := by
  have hwritten : (declared name entries).entries.flatMap assignment =
      (writtenEntries entries).flatMap entryText := by
    unfold writtenEntries declared
    rw [List.flatMap_map, List.flatMap_map]
    exact List.flatMap_congr fun e _ => assignment_eq_entryText _
  have hwhole := whole_entries h
  have hnil : ∀ l ∈ split [], Whole l := by simp [split]
  rw [← hwritten] at hwhole
  have hsplit := split_render hnil hname hwhole []
  rw [hwritten, split_entries h] at hsplit
  simpa [split] using hsplit

open Source.Theme in
/-- The tokens of a theme written out give its rule. -/
theorem exists_rule_of_declared {name : List Char} {entries : List (List Char × List Char)}
    (hname : ∀ c ∈ name, Source.isNameChar c = true) (h : IsBlock entries) :
    ∃ rule, ofTokens (Token.ofText (render (declared name entries))) = .ok ⟨[rule], []⟩ ∧
      rule.selector = String.ofList (declared name entries).selector ∧
      rule.declarations.map Declaration.placeless = (writtenEntries entries).map (fun e =>
        (Declaration.classified (String.ofList e.1) (String.ofList (collapse (trim e.2)))
          .start).placeless) := by
  have hword : ∀ c ∈ "--theme-".toList, isDelimiter c = false ∧ c ≠ '/' :=
    fun c hc => ⟨ordinary_themeWord c hc, by rintro rfl; revert hc; decide⟩
  have hkeys : ∀ e ∈ writtenEntries entries, Whole ⟨.plain, e.1⟩ := by
    unfold writtenEntries
    rw [List.forall_mem_map]
    exact fun e he => (h e he).1.whole_append hword
  have hvalues : ∀ e ∈ writtenEntries entries, Fits e.2 := by
    unfold writtenEntries
    rw [List.forall_mem_map]
    exact fun e he => (h e he).2.trim
  have htokens : (Token.ofText (render (declared name entries))).map Token.toLexeme = _ :=
    (Token.place_map_toLexeme .start _).trans
      (split_declared hname fun e he => ⟨hkeys e he, (hvalues e he).space.whole⟩)
  obtain ⟨p, tokens, htokens, hopen⟩ := buildTokens_header hname htokens
  obtain ⟨ds, tokens, htokens, hds, hrun⟩ := buildTokens_entries
    ⟨String.ofList (declared name entries).selector, [], p⟩ hkeys hvalues htokens
  obtain ⟨gap, tokens, rfl, hgap, htokens⟩ := List.map_eq_cons_iff.1 htokens
  obtain ⟨mark, rest, rfl, hmark, hrest⟩ := List.map_eq_cons_iff.1 htokens
  obtain rfl : rest = [] := List.map_eq_nil_iff.1 hrest
  have hclose := buildTokens_close ⟨String.ofList (declared name entries).selector, ds, p⟩ [gap] []
    (by simpa using congrArg Lexeme.kind hgap) (congrArg Lexeme.kind hmark)
  refine ⟨⟨String.ofList (declared name entries).selector, ds, p⟩, ?_, rfl, hds⟩
  change buildTokens .outside _ = _
  rw [hopen, hrun]
  refine hclose.trans ?_
  rw [buildTokens_end (by simp)]
  rfl

open Source.Theme in
/--
A theme is read as one rule.  Its selector is that of the theme, and each of its declarations is that
of an entry, whose value is trimmed and has its blanks made single spaces.
-/
theorem read_theme {name : List Char} {entries : List (List Char × List Char)} (hne : name ≠ [])
    (hname : ∀ c ∈ name, Source.isNameChar c = true)
    (hentries : ∀ e ∈ entries, IsKey e.1 ∧ IsValue e.2) :
    ∃ rule, read (blockText name entries) = .ok ⟨⟨[rule], []⟩, []⟩ ∧
      rule.selector = ":root[data-theme=\"" ++ String.ofList name ++ "\"]" ∧
      rule.declarations.map (fun d => (d.property, d.value, d.rich)) =
        entries.map fun e =>
          ("--theme-" ++ String.ofList e.1, String.ofList (collapse (trim e.2)), false) := by
  have hblock : IsBlock entries := fun e he => ⟨(hentries e he).1, (hentries e he).2.fits⟩
  have hfeed : ∀ e ∈ entries, '\n' ∉ e.2 := fun e he => (hentries e he).2.oneLine
  obtain ⟨rule, hbuilt, hselector, hdeclarations⟩ := exists_rule_of_declared hname hblock
  refine ⟨rule, ?_, ?_, ?_⟩
  · rw [read_eq_ok_iff, marked_block hname hblock hfeed]
    exact ⟨_, _, expanded_block hne hname hblock hfeed, hbuilt, rfl⟩
  · rw [hselector]
    unfold selector declared
    simp [← String.toList_inj]
  · have hplaceless : rule.declarations.map (fun d => (d.property, d.value, d.rich)) =
        (rule.declarations.map Declaration.placeless).map fun d => (d.property, d.value, d.rich) := by
      rw [List.map_map]
      rfl
    rw [hplaceless, hdeclarations, writtenEntries, List.map_map, List.map_map]
    refine List.map_congr_left fun e _ => ?_
    have hword : String.ofList ("--theme-".toList ++ e.1) = "--theme-" ++ String.ofList e.1 := by
      simp [← String.toList_inj]
    have hrich : Property.isRich (String.ofList ("--theme-".toList ++ e.1)) = false := by
      have hdash : "--theme-".toList = '-' :: "-theme-".toList := by decide
      rw [hdash, List.cons_append]
      exact Property.isRich_of_dash _
    rw [Function.comp_apply, Function.comp_apply, Declaration.placeless, Declaration.classified,
      hrich, hword, Lexeme.trim_trim]

open Source.Theme in
/-- Strings keep their blanks, braces and semicolons, and parentheses keep their semicolons. -/
theorem read_theme_quoted :
    let key := "a-1".toList
    let value := " f( x ;y)  \"; \x7d  /*\"".toList
    (IsKey key ∧ IsValue value) ∧
      ∃ rule, read (blockText ['n'] [(key, value)]) = .ok ⟨⟨[rule], []⟩, []⟩ ∧
        rule.selector = ":root[data-theme=\"n\"]" ∧
        rule.declarations.map (fun d => (d.property, d.value, d.rich)) =
          [("--theme-a-1", "f( x ;y) \"; \x7d  /*\"", false)] := by
  intro key value
  have hkey : IsKey key :=
    ⟨by decide, List.all_eq_true.1 (by decide), by decide⟩
  have hsettled : Source.Settled value := by
    have hopen : Source.Settled " f( x ;y)  ".toList := Source.settled_literal (by decide)
    exact hopen.append (.quoted (t := "; \x7d  /*\"".toList) (by decide) (by decide) .nil)
  have hvalue : IsValue value :=
    ⟨by decide, hsettled, by decide +kernel, by decide +kernel, by decide +kernel⟩
  have hentries : ∀ e ∈ [(key, value)], IsKey e.1 ∧ IsValue e.2 := by
    simpa using ⟨hkey, hvalue⟩
  have hname : ∀ c ∈ ['n'], Source.isNameChar c = true := List.all_eq_true.1 (by decide)
  obtain ⟨rule, hread, hselector, hdeclarations⟩ := read_theme (by simp) hname hentries
  refine ⟨⟨hkey, hvalue⟩, rule, hread, hselector, hdeclarations.trans ?_⟩
  decide +kernel

end Sheet

end RichStyle
