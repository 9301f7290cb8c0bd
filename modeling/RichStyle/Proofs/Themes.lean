import Mathlib.Data.List.Infix
import RichStyle.Proofs.Settled

/-!
# Themes written out

Writing out the themes of a text is a run over its blocks.  `Expanded` says what the run does without
places.  From it follows that strings are neither opened nor closed on the way, that no comment
comes up, and that a text whose strings are closed can be written out apart from what follows it.
-/

namespace RichStyle

open Text

namespace Source

/-! ## Entries of a block -/

theorem splitEntries_spec (depth : Nat) (s : List Char) :
    ∃ first rest, splitEntries depth s = first :: rest ∧ first <+: s ∧
      ∀ e ∈ rest, ∃ a b, s = a ++ (e ++ b) ∧ Settled a := by
  fun_induction splitEntries depth s with
  | case1 => exact ⟨[], [], rfl, List.nil_prefix, by simp⟩
  | case2 depth c s hq ih =>
      obtain ⟨first, rest, heq, hfirst, hrest⟩ := ih
      have hrun : c :: s = c :: (quotedRun c s).1 ++ (quotedRun c s).2 := by
        rw [List.cons_append, quotedRun_append]
      rw [heq, hrun]
      refine ⟨_, rest, rfl, (List.prefix_append_right_inj _).2 hfirst, ?_⟩
      intro e he
      obtain ⟨a, b, hs, ha⟩ := hrest e he
      have hcloses : closesQuote c (quotedRun c s).1 = true := by
        refine closesQuote_of_rest fun hnil => ?_
        rw [hnil, splitEntries] at heq
        rw [← (List.cons.inj heq).2] at he
        cases he
      refine ⟨c :: ((quotedRun c s).1 ++ a), b, ?_, .quoted hq hcloses ha⟩
      rw [hs]
      simp
  | case3 depth c s hq hend ih =>
      have hc : isQuote c = false := by simpa using hq
      obtain ⟨first, rest, heq, ⟨b, hfirst⟩, hrest⟩ := ih
      refine ⟨[], _, rfl, List.nil_prefix, ?_⟩
      intro e he
      rw [heq] at he
      rcases List.mem_cons.1 he with rfl | he
      · exact ⟨[c], b, by rw [hfirst]; rfl, .plain hc .nil⟩
      · obtain ⟨a, b, hs, ha⟩ := hrest e he
        exact ⟨c :: a, b, by rw [hs]; rfl, .plain hc ha⟩
  | case4 depth c s hq hend ih =>
      have hc : isQuote c = false := by simpa using hq
      obtain ⟨first, rest, heq, hfirst, hrest⟩ := ih
      rw [heq]
      refine ⟨_, rest, rfl, List.cons_prefix_cons.2 ⟨rfl, hfirst⟩, ?_⟩
      intro e he
      obtain ⟨a, b, hs, ha⟩ := hrest e he
      exact ⟨c :: a, b, by rw [hs]; rfl, .plain hc ha⟩

/-- In front of an entry all strings are closed. -/
theorem exists_of_mem_splitEntries {depth : Nat} {s e : List Char} (h : e ∈ splitEntries depth s) :
    ∃ a b, s = a ++ (e ++ b) ∧ Settled a := by
  obtain ⟨first, rest, heq, ⟨b, hfirst⟩, hrest⟩ := splitEntries_spec depth s
  rw [heq] at h
  rcases List.mem_cons.1 h with rfl | h
  · exact ⟨[], b, hfirst.symm, .nil⟩
  · exact hrest e h

theorem Settled.splitEntries {s : List Char} (h : Settled s) (depth : Nat) :
    ∀ e ∈ splitEntries depth s, Settled e := by
  induction h generalizing depth with
  | nil => simpa [Source.splitEntries] using Settled.nil
  | @plain c s hc hs ih =>
      rw [Source.splitEntries, if_neg (by simp [hc])]
      by_cases hend : c = ';' ∧ depth = 0
      · rw [if_pos hend, List.forall_mem_cons]
        exact ⟨.nil, ih 0⟩
      · have hrest := ih (parenDepth depth c)
        obtain ⟨first, rest, heq, -⟩ := splitEntries_spec (parenDepth depth c) s
        rw [heq, List.forall_mem_cons] at hrest
        rw [if_neg hend, heq, extendFirst, List.forall_mem_cons]
        exact ⟨.plain hc hrest.1, hrest.2⟩
  | @quoted q t s hq ht hs ih =>
      have hrest := ih depth
      obtain ⟨first, rest, heq, -⟩ := splitEntries_spec depth s
      rw [heq, List.forall_mem_cons] at hrest
      rw [Source.splitEntries, if_pos hq, quotedRun_of_closes s hq ht, heq, extendFirst,
        List.forall_mem_cons]
      exact ⟨.quoted hq ht hrest.1, hrest.2⟩

namespace Theme

theorem exists_of_variableOf {entry : List Char} {v : List Char × List Char}
    (h : variableOf? entry = some v) :
    ∃ before after, entry = before ++ ':' :: after ∧
      v = ((trim before).dropWhile (· = '-'), trim after) := by
  unfold variableOf? at h
  simp only at h
  split at h
  · cases h
  · next hne =>
      have hentry := List.takeWhile_append_dropWhile (p := (· ≠ ':')) (l := entry)
      cases hvalue : entry.dropWhile (· ≠ ':') with
      | nil =>
          rw [hvalue] at hne
          simp at hne
      | cons c after =>
          have hc : c = ':' := by
            have hhead := List.head?_dropWhile_not (fun d => decide (d ≠ ':')) entry
            rw [hvalue] at hhead
            simpa using hhead
          subst hc
          rw [hvalue] at h hentry
          exact ⟨_, after, hentry.symm, (Option.some.inj h).symm⟩

theorem variableOf_isInfix {entry : List Char} {v : List Char × List Char}
    (h : variableOf? entry = some v) : v.1 <:+: entry ∧ v.2 <:+: entry := by
  obtain ⟨before, after, rfl, rfl⟩ := exists_of_variableOf h
  constructor
  · exact ((List.dropWhile_suffix _).isInfix.trans (trim_isInfix before)).trans
      (List.prefix_append _ _).isInfix
  · exact (trim_isInfix after).trans
      ((List.suffix_cons ':' after).trans (List.suffix_append before _)).isInfix

theorem variablesOf_isInfix {body : List Char} {v : List Char × List Char}
    (h : v ∈ variablesOf body) : v.1 <:+: body ∧ v.2 <:+: body := by
  obtain ⟨e, he, hv⟩ := List.mem_filterMap.1 h
  obtain ⟨a, b, hs, -⟩ := exists_of_mem_splitEntries he
  have hbody : e <:+: body := ⟨a, b, by rw [hs, List.append_assoc]⟩
  exact ⟨(variableOf_isInfix hv).1.trans hbody, (variableOf_isInfix hv).2.trans hbody⟩

/-- An entry is its key and its value, with a colon and other characters around them that have no part
in any string. -/
theorem exists_parts {entry : List Char} {v : List Char × List Char}
    (h : variableOf? entry = some v) :
    ∃ lead gap trail, entry = lead ++ (v.1 ++ (gap ++ (v.2 ++ trail))) ∧ gap ≠ [] ∧
      (∀ c ∈ lead, isPassive c = true) ∧ (∀ c ∈ gap, isPassive c = true) ∧
      ∀ c ∈ trail, isPassive c = true := by
  obtain ⟨before, after, rfl, rfl⟩ := exists_of_variableOf h
  obtain ⟨a, b, hbefore, ha, hb⟩ := exists_trim before
  obtain ⟨c, d, hafter, hc, hd⟩ := exists_trim after
  have hkey := List.takeWhile_append_dropWhile (p := (· = '-')) (l := trim before)
  refine ⟨a ++ (trim before).takeWhile (· = '-'), b ++ ':' :: c, d, ?_, by simp, ?_, ?_, ?_⟩
  · conv_lhs => rw [hbefore, hafter, ← hkey]
    simp only [List.append_assoc, List.cons_append]
  · intro x hx
    rcases List.mem_append.1 hx with hx | hx
    · exact isPassive_of_blank (ha x hx)
    · have hdash : x = '-' := by simpa using List.mem_takeWhile_imp hx
      subst hdash
      decide
  · intro x hx
    rcases List.mem_append.1 hx with hx | hx
    · exact isPassive_of_blank (hb x hx)
    · rcases List.mem_cons.1 hx with rfl | hx
      · decide
      · exact isPassive_of_blank (hc x hx)
  · exact fun x hx => isPassive_of_blank (hd x hx)

/-- A variable is written out with the strings of its entry, wherever its colon stands. -/
theorem settled_variable {entry : List Char} {v : List Char × List Char} (hentry : Settled entry)
    (h : variableOf? entry = some v) : Settled (v.1 ++ ": ".toList ++ v.2 ++ "; ".toList) := by
  have hend : Settled "; ".toList := settled_literal (by decide)
  have hsep : ∀ c ∈ ": ".toList, isPassive c = true := by simp [isPassive, isQuote]
  obtain ⟨lead, gap, trail, rfl, hne, hlead, hgap, htrail⟩ := exists_parts h
  rw [(settled_of_passive hlead).append_iff, settled_gap_iff hgap hsep hne (by decide),
    ← List.append_assoc, ← List.append_assoc, settled_trail_iff htrail] at hentry
  exact hentry.append hend

theorem closesQuote_name {name : List Char} (h : ∀ c ∈ name, isNameChar c = true) :
    closesQuote '"' (name ++ ['"']) = true := by
  refine closesQuote_of_plain (by decide) (fun hmem => ?_) (fun hmem => ?_)
  · exact absurd (h _ hmem) (by decide)
  · exact absurd (h _ hmem) (by decide)

/-- How a variable is written. -/
def assignment (v : List Char × List Char) : List Char :=
  "--theme-".toList ++ v.1 ++ ": ".toList ++ v.2 ++ "; ".toList

theorem settled_assignment {body : List Char} {v : List Char × List Char} (hbody : Settled body)
    (h : v ∈ variablesOf body) : Settled (assignment v) := by
  obtain ⟨e, he, hvar⟩ := List.mem_filterMap.1 h
  have hlead : Settled "--theme-".toList := settled_literal (by decide)
  have hvariable := hlead.append (settled_variable (hbody.splitEntries 0 e he) hvar)
  rw [← List.append_assoc, ← List.append_assoc, ← List.append_assoc] at hvariable
  exact hvariable

theorem settled_render {name body : List Char} (hname : ∀ c ∈ name, isNameChar c = true)
    (hbody : Settled body) : Settled (render ⟨name, variablesOf body⟩) := by
  have hentries : Settled ((variablesOf body).flatMap assignment) :=
    Settled.flatMap fun v hv => settled_assignment hbody hv
  have hheader : Settled (":root[data-theme=\"".toList ++ name ++ "\"] \x7b ".toList) := by
    have hlead : Settled ":root[data-theme=".toList := settled_literal (by decide)
    have hbrace : Settled "] \x7b ".toList := settled_literal (by decide)
    have hquoted := hlead.append (.quoted (by decide) (closesQuote_name hname) hbrace)
    simpa using hquoted
  exact (hheader.append hentries).append (settled_literal (by decide))

/-! ## Blocks -/

theorem run_append {p : Char → Bool} {s : List Char} (b : List Char) (h : s.dropWhile p ≠ []) :
    (s ++ b).takeWhile p = s.takeWhile p ∧ (s ++ b).dropWhile p = s.dropWhile p ++ b := by
  induction s with
  | nil => contradiction
  | cons c s ih =>
      cases hc : p c with
      | false => simp [hc]
      | true =>
          rw [List.dropWhile_cons_of_pos hc] at h
          simpa [hc] using ih h

theorem read_spec {p : Span} {s : List Char} {block : Block} (h : read p s = .ok block) :
    ∃ header body, block.source = header ++ '{' :: body ++ ['}'] ∧
      (∀ c ∈ header, isQuote c = false) ∧ (∀ c ∈ block.theme.name, isNameChar c = true) ∧
      block.theme.entries = variablesOf body ∧ Settled body ∧
      Absent (startsWith ['}']) body := by
  have hname (t : List Char) : ∀ c ∈ t.takeWhile isNameChar, isNameChar c = true :=
    fun c hc => List.mem_takeWhile_imp hc
  have hunquoted (t : List Char) : ∀ c ∈ t.takeWhile isNameChar, isQuote c = false := by
    intro c hc
    rw [Bool.eq_false_iff]
    intro hq
    simp only [isQuote, Bool.or_eq_true, beq_iff_eq] at hq
    have hword := hname t c hc
    rcases hq with rfl | rfl <;> revert hword <;> decide
  have hblank (t : List Char) : ∀ c ∈ (blankRun t).1, isQuote c = false :=
    fun c hc => (not_quote_of_blank (List.mem_takeWhile_imp hc)).1
  unfold read at h
  simp only at h
  split at h
  · cases h
  · split at h
    · split at h
      · next body tail hcut =>
          obtain rfl := Except.ok.inj h
          have habsent := Absent.of_cut_before hcut (seesOnly_char '}' body tail) rfl
          refine ⟨_, body, rfl, ?_, hname _, rfl, settled_of_cut hcut, habsent⟩
          intro c hc
          rcases List.mem_append.1 hc with hc | hc
          · rcases List.mem_append.1 hc with hc | hc
            · exact hblank _ c hc
            · exact hunquoted _ c hc
          · exact hblank _ c hc
      · cases h
    · cases h

/-- A block that is read does not depend on its place or on what follows it. -/
theorem read_extend {p : Span} {s : List Char} {block : Block} (q : Span) (b : List Char)
    (h : read p s = .ok block) : read q (s ++ b) = .ok { block with rest := block.rest ++ b } := by
  unfold read at h
  simp only at h
  split at h
  · cases h
  · next hname =>
      split at h
      · next inside hinside =>
          split at h
          · next body tail hcut =>
              obtain rfl := Except.ok.inj h
              -- a brace comes after every run, so no run takes up any of `b`
              have hafter : (blankRun s).2.dropWhile isNameChar ≠ [] := by
                intro hnil
                rw [hnil] at hinside
                contradiction
              have hgap : s.dropWhile isBlank ≠ [] := by
                intro hnil
                rw [blankRun, hnil] at hafter
                contradiction
              have hspace : ((blankRun s).2.dropWhile isNameChar).dropWhile isBlank ≠ [] := by
                intro hnil
                rw [blankRun, hnil] at hinside
                contradiction
              have htail : tail.drop 1 ++ b = (tail ++ b).drop 1 := by
                obtain ⟨r, rfl⟩ := startsWith_iff.1 (cutOutsideQuotes_here hcut)
                rfl
              have hinside' : (blankRun ((blankRun s).2.dropWhile isNameChar ++ b)).2 =
                  '{' :: (inside ++ b) := by
                have hrun := (run_append b hspace).2
                rw [blankRun, hrun]
                change (blankRun _).2 ++ b = _
                rw [hinside, List.cons_append]
              have hgap' : blankRun (s ++ b) = ((blankRun s).1, (blankRun s).2 ++ b) := by
                rw [blankRun, (run_append b hgap).1, (run_append b hgap).2, blankRun]
              have hspace' : (blankRun ((blankRun s).2.dropWhile isNameChar ++ b)).1 =
                  (blankRun ((blankRun s).2.dropWhile isNameChar)).1 := (run_append b hspace).1
              have hcut' := cutOutsideQuotes_append_of_some (seesOnly_char '}' inside b) hcut
              unfold read
              simp only [hgap', (run_append b hafter).1, (run_append b hafter).2, hinside', hspace',
                hcut', htail]
              rw [if_neg hname]
          · cases h
      · cases h

theorem read_place {p : Span} {s : List Char} {block : Block} (q : Span)
    (h : read p s = .ok block) : read q s = .ok block := by
  simpa using read_extend q [] h

theorem settled_of_read {p : Span} {s : List Char} {block : Block} (h : read p s = .ok block) :
    Settled block.source ∧ Settled block.theme.render := by
  obtain ⟨header, body, hsource, hheader, hname, hentries, hbody, -⟩ := read_spec h
  have hopen : Settled ('{' :: body) := .plain (by decide) hbody
  have hclose : Settled ['}'] := settled_literal (by decide)
  have htheme : block.theme = ⟨block.theme.name, variablesOf body⟩ := by rw [← hentries]
  constructor
  · rw [hsource]
    exact ((settled_of_unquoted hheader).append hopen).append hclose
  · rw [htheme]
    exact settled_render hname hbody

/-! ## Words that writing out does not make -/

/-- The characters that are written around names, keys and values. -/
def glue : List Char :=
  ":root[data-theme=\"] \x7b;\x7d".toList

section Words

variable {word : List Char} (hglue : ∀ c ∈ glue, c ∉ word)

include hglue

theorem not_infix_entries {entries : List (List Char × List Char)} {rest : List Char}
    (hentries : ∀ v ∈ entries, ¬ word <:+: v.1 ∧ ¬ word <:+: v.2) (hrest : ¬ word <:+: rest) :
    ¬ word <:+: (entries.flatMap fun v =>
      "--theme-".toList ++ v.1 ++ ": ".toList ++ v.2 ++ "; ".toList) ++ rest := by
  induction entries with
  | nil => exact hrest
  | cons v entries ih =>
      obtain ⟨hkey, hvalue⟩ := hentries v (by simp)
      have htail := ih fun w hw => hentries w (by simp [hw])
      have hspace := hglue ' ' (by decide)
      have hfrom := not_infix_append (hglue ':' (by decide)) hkey (not_infix_cons hspace
        (not_infix_append (hglue ';' (by decide)) hvalue (not_infix_cons hspace htail)))
      have hlead : "--theme-".toList ⊆ glue := by decide
      have hentry := not_infix_foreign_append (fun c hc => hglue c (hlead hc)) hfrom
      simpa using hentry

theorem not_infix_render {theme : Theme} {rest : List Char} (hname : ∀ c ∈ theme.name, c ∉ word)
    (hentries : ∀ v ∈ theme.entries, ¬ word <:+: v.1 ∧ ¬ word <:+: v.2)
    (hrest : ¬ word <:+: rest) : ¬ word <:+: theme.render ++ rest := by
  have hlead : ":root[data-theme=\"".toList ⊆ glue := by decide
  have hbrace : "\"] \x7b ".toList ⊆ glue := by decide
  have hend : ¬ word <:+: '}' :: rest := not_infix_cons (hglue '}' (by decide)) hrest
  have hbody := not_infix_entries hglue hentries hend
  have hopen := not_infix_foreign_append (fun c hc => hglue c (hbrace hc)) hbody
  have hheader := not_infix_foreign_append (fun c hc => hglue c (hlead hc))
    (not_infix_foreign_append hname hopen)
  unfold render
  simpa only [List.append_assoc, List.cons_append, List.nil_append] using hheader

end Words

end Theme

/-! ## One theme after the other -/

/-- What is left to write out from a theme keyword on; `after` is the text after the keyword. -/
def expandOpening (place : Span) (after : List Char) : Except Malformed (List Char) :=
  if startsBlank after then do
    let block ← Theme.read place after
    let source := themeKeyword ++ block.source
    let expanded ← expandThemes (place.advance source) block.rest
    .ok (block.theme.render ++ source.filter (· == '\n') ++ expanded)
  else do
    let expanded ← expandThemes (place.advance themeKeyword) after
    .ok (themeKeyword ++ expanded)

theorem expandThemes_eq (p : Span) (s : List Char) :
    expandThemes p s =
      match cutOutsideQuotes (startsWith themeKeyword) s with
      | none => .ok s
      | some cut =>
          (expandOpening (p.advance cut.1) (cut.2.drop themeKeyword.length)).map (cut.1 ++ ·) := by
  rw [expandThemes]
  split
  · next hcut => rw [hcut]
  · next before rest hcut =>
      rw [hcut]
      simp only [expandOpening]
      split
      · split
        · next hread =>
            rw [hread]
            rfl
        · next block hread =>
            rw [hread]
            simp only [bind, Except.bind]
            cases expandThemes ((p.advance before).advance (themeKeyword ++ block.source))
              block.rest <;> simp [Except.map]
      · simp only [bind, Except.bind]
        cases expandThemes ((p.advance before).advance themeKeyword)
          (rest.drop themeKeyword.length) <;> simp [Except.map]

/-- `Expanded s t`: with its themes written out, the text `s` is `t`. -/
inductive Expanded : List Char → List Char → Prop
  | done {s : List Char} (h : Absent (startsWith themeKeyword) s) : Expanded s s
  | theme {p : Span} {s before after expanded : List Char} {block : Theme.Block}
      (hcut : cutOutsideQuotes (startsWith themeKeyword) s = some (before, themeKeyword ++ after))
      (hblank : startsBlank after = true) (hread : Theme.read p after = .ok block)
      (hrest : Expanded block.rest expanded) :
      Expanded s (before ++ (block.theme.render ++
        (themeKeyword ++ block.source).filter (· == '\n') ++ expanded))
  | word {s before after expanded : List Char}
      (hcut : cutOutsideQuotes (startsWith themeKeyword) s = some (before, themeKeyword ++ after))
      (hblank : startsBlank after = false) (hrest : Expanded after expanded) :
      Expanded s (before ++ (themeKeyword ++ expanded))

theorem expandThemes_eq_ok_iff {p : Span} {s t : List Char} :
    expandThemes p s = .ok t ↔ Expanded s t := by
  constructor
  · intro h
    fun_induction expandThemes p s generalizing t
    case case1 p s hcut =>
        obtain rfl := Except.ok.inj h
        exact .done hcut
    case case2 p s before rest hcut place after hblank malformed hread =>
        cases h
    case case3 p s before rest hcut place after hblank block hread source ih =>
        obtain ⟨r, rfl⟩ := startsWith_iff.1 (cutOutsideQuotes_here hcut)
        cases hexpanded : expandThemes (place.advance source) block.rest with
        | error e =>
            rw [hexpanded] at h
            cases h
        | ok expanded =>
            rw [hexpanded] at h
            obtain rfl := Except.ok.inj h
            simp only [after, List.drop_left] at hblank hread
            rw [List.append_assoc, List.append_assoc, ← List.append_assoc block.theme.render]
            exact .theme hcut hblank hread (ih hexpanded)
    case case4 p s before rest hcut place after hblank ih =>
        obtain ⟨r, rfl⟩ := startsWith_iff.1 (cutOutsideQuotes_here hcut)
        cases hexpanded : expandThemes (place.advance themeKeyword) after with
        | error e =>
            rw [hexpanded] at h
            cases h
        | ok expanded =>
            have hrest := ih hexpanded
            rw [hexpanded] at h
            obtain rfl := Except.ok.inj h
            simp only [after, List.drop_left] at hblank hrest
            rw [List.append_assoc]
            exact .word hcut (by simpa using hblank) hrest
  · intro h
    induction h generalizing p with
    | done h =>
        rw [expandThemes_eq, h]
    | theme hcut hblank hread hrest ih =>
        rw [expandThemes_eq, hcut]
        simp only [List.drop_left, expandOpening, hblank, if_true, Theme.read_place _ hread, bind,
          Except.bind, ih]
        rfl
    | word hcut hblank hrest ih =>
        rw [expandThemes_eq, hcut]
        simp only [List.drop_left, expandOpening, hblank, bind, Except.bind, ih]
        rfl

theorem settled_keyword : Settled themeKeyword :=
  settled_literal (by decide)

theorem settled_feeds (s : List Char) : Settled (s.filter (· == '\n')) := by
  refine settled_of_unquoted fun c hc => ?_
  have hfeed : c = '\n' := by simpa using (List.mem_filter.1 hc).2
  subst hfeed
  decide

section Opening

variable {p : Span} {s before after : List Char} {block : Theme.Block}
  (hcut : cutOutsideQuotes (startsWith themeKeyword) s = some (before, themeKeyword ++ after))

include hcut

theorem opening_eq : s = before ++ (themeKeyword ++ after) :=
  (cutOutsideQuotes_append hcut).symm

theorem opening_block_eq (hread : Theme.read p after = .ok block) :
    s = before ++ (themeKeyword ++ (block.source ++ block.rest)) := by
  rw [Theme.read_append hread, ← opening_eq hcut]

theorem settled_opening_iff : Settled s ↔ Settled after := by
  rw [opening_eq hcut, (settled_of_cut hcut).append_iff, settled_keyword.append_iff]

theorem settled_opening_block_iff (hread : Theme.read p after = .ok block) :
    Settled s ↔ Settled block.rest := by
  rw [settled_opening_iff hcut, ← Theme.read_append hread,
    (Theme.settled_of_read hread).1.append_iff]

end Opening

/-- Writing out themes neither opens nor closes a string. -/
theorem Expanded.settled_iff {s t : List Char} (h : Expanded s t) : Settled t ↔ Settled s := by
  induction h with
  | done h => rfl
  | theme hcut hblank hread hrest ih =>
      rw [settled_opening_block_iff hcut hread, ← ih, (settled_of_cut hcut).append_iff,
        ((Theme.settled_of_read hread).2.append (settled_feeds _)).append_iff]
  | word hcut hblank hrest ih =>
      rw [settled_opening_iff hcut, ← ih, (settled_of_cut hcut).append_iff,
        settled_keyword.append_iff]

/-! ## Texts written out part by part -/

theorem expandThemes_append_of_absent {a b : List Char} (p : Span) (ha : Settled a)
    (hsees : SeesOnly (startsWith themeKeyword) a b) (h : Absent (startsWith themeKeyword) a) :
    expandThemes p (a ++ b) = (expandThemes (p.advance a) b).map (a ++ ·) := by
  rw [expandThemes_eq, cutOutsideQuotes_append_of_none ha hsees h, expandThemes_eq (p.advance a)]
  cases cutOutsideQuotes (startsWith themeKeyword) b with
  | none => rfl
  | some cut =>
      simp only [Option.map_some, Span.advance_append]
      cases expandOpening _ _ <;> simp [Except.map]

/-- A settled text is written out apart from what follows it. -/
theorem Expanded.append {a t : List Char} (h : Expanded a t) (p : Span) (b : List Char)
    (ha : Settled a) (hlast : ∀ c ∈ a.getLast?, c ∉ themeKeyword) :
    expandThemes p (a ++ b) = (expandThemes (p.advance a) b).map (t ++ ·) := by
  have hforeign {u s : List Char} (hs : ∀ c ∈ s.getLast?, c ∉ themeKeyword) (hu : u <:+ s) :
      ∀ c ∈ u.getLast?, c ∉ themeKeyword := by
    cases u with
    | nil => simp
    | cons c u => rwa [getLast?_of_suffix hu (by simp)]
  induction h generalizing p with
  | done h => exact expandThemes_append_of_absent p ha (seesOnly_startsWith hlast) h
  | @theme q s before after expanded block hcut hblank hread hrest ih =>
      have hcut' := cutOutsideQuotes_append_of_some (seesOnly_startsWith (b := b) hlast) hcut
      have hblank' : startsBlank (after ++ b) = true := by
        cases after with
        | nil => contradiction
        | cons c after => exact hblank
      have htext := opening_block_eq hcut hread
      have hsuffix : block.rest <:+ s :=
        ⟨before ++ (themeKeyword ++ block.source), by simp only [htext, List.append_assoc]⟩
      have htail := ih ((p.advance before).advance (themeKeyword ++ block.source))
        ((settled_opening_block_iff hcut hread).1 ha) (hforeign hlast hsuffix)
      have hplace : ((p.advance before).advance (themeKeyword ++ block.source)).advance block.rest =
          p.advance s := by
        simp only [htext, Span.advance_append]
      rw [hplace] at htail
      rw [expandThemes_eq, hcut', List.append_assoc]
      simp only [List.drop_left, expandOpening, hblank', if_true, Theme.read_extend _ b hread, bind,
        Except.bind, htail]
      cases expandThemes (p.advance s) b <;> simp [Except.map]
  | @word s before after expanded hcut hblank hrest ih =>
      have hcut' := cutOutsideQuotes_append_of_some (seesOnly_startsWith (b := b) hlast) hcut
      have htext := opening_eq hcut
      have hblank' : startsBlank (after ++ b) = false := by
        cases after with
        | nil =>
            -- a text cannot end with the keyword, so a character follows that is no blank
            refine absurd ?_ (hlast 'e' ?_)
            · simp [themeKeyword_eq]
            · simp [htext, themeKeyword_eq]
        | cons c after => exact hblank
      have hsuffix : after <:+ s :=
        ⟨before ++ themeKeyword, by simp only [htext, List.append_assoc]⟩
      have htail := ih ((p.advance before).advance themeKeyword)
        ((settled_opening_iff hcut).1 ha) (hforeign hlast hsuffix)
      have hplace : ((p.advance before).advance themeKeyword).advance after = p.advance s := by
        simp only [htext, Span.advance_append]
      rw [hplace] at htail
      rw [expandThemes_eq, hcut', List.append_assoc]
      simp only [List.drop_left, expandOpening, hblank', bind, Except.bind, htail]
      cases expandThemes (p.advance s) b <;> simp [Except.map]

theorem suffix_of_append_cons {x a b : List Char} {c : Char} (hc : c ∉ x)
    (hab : x <:+ a ++ c :: b) : x <:+ b := by
  rcases List.suffix_or_suffix_of_suffix hab (List.suffix_append a (c :: b)) with hx | hx
  · rcases List.suffix_cons_iff.1 hx with rfl | hx
    · exact absurd (by simp) hc
    · exact hx
  · exact absurd (hx.subset (by simp)) hc

/-- The end of a text stays as it is if it holds neither the end of a block nor of the keyword. -/
theorem Expanded.suffix {s t x : List Char} (h : Expanded s t) (hbrace : '}' ∉ x) (hkey : 'e' ∉ x)
    (hx : x <:+ s) : x <:+ t := by
  induction h with
  | done h => exact hx
  | @theme p s before after expanded block hcut hblank hread hrest ih =>
      obtain ⟨header, body, hsource, -⟩ := Theme.read_spec hread
      have htext : s = (before ++ (themeKeyword ++ (header ++ '{' :: body))) ++ '}' :: block.rest := by
        simp [opening_block_eq hcut hread, hsource]
      have htail := ih (suffix_of_append_cons hbrace (htext ▸ hx))
      exact (htail.trans (List.suffix_append _ _)).trans (List.suffix_append _ _)
  | @word s before after expanded hcut hblank hrest ih =>
      have htext : s = (before ++ ['@', 't', 'h', 'e', 'm']) ++ 'e' :: after := by
        simp [opening_eq hcut, themeKeyword_eq]
      have htail := ih (suffix_of_append_cons hkey (htext ▸ hx))
      exact (htail.trans (List.suffix_append _ _)).trans (List.suffix_append _ _)

theorem Theme.not_infix_of_read {p : Span} {s word rest : List Char} {block : Theme.Block}
    (h : Theme.read p s = .ok block) (hword : ∀ c ∈ word, c ∉ Theme.glue ∧ isNameChar c = false)
    (hsource : ¬ word <:+: block.source) (hrest : ¬ word <:+: rest) :
    ¬ word <:+: block.theme.render ++ rest := by
  obtain ⟨header, body, heq, -, hchars, hentries, -⟩ := Theme.read_spec h
  have hbody : body <:+: block.source := ⟨header ++ ['{'], ['}'], by simp [heq]⟩
  refine Theme.not_infix_render (fun c hc hmem => (hword c hmem).1 hc) ?_ ?_ hrest
  · intro c hc hmem
    have hno := (hword c hmem).2
    rw [hchars c hc] at hno
    cases hno
  · intro v hv
    rw [hentries] at hv
    obtain ⟨hkey, hvalue⟩ := Theme.variablesOf_isInfix hv
    exact ⟨fun hw => hsource ((hw.trans hkey).trans hbody),
      fun hw => hsource ((hw.trans hvalue).trans hbody)⟩

/-- Writing out themes makes no comments. -/
theorem Expanded.not_infix_comment {s t : List Char} (h : Expanded s t)
    (hs : ¬ ['/', '*'] <:+: s) : ¬ ['/', '*'] <:+: t := by
  induction h with
  | done h => exact hs
  | @theme p s before after expanded block hcut hblank hread hrest ih =>
      have htext := opening_block_eq hcut hread
      have hbefore : before <:+: s := ⟨[], _, htext.symm⟩
      have hsource : block.source <:+: s := ⟨before ++ themeKeyword, block.rest, by simp [htext]⟩
      have htail : block.rest <:+: s :=
        ⟨before ++ (themeKeyword ++ block.source), [], by simp [htext]⟩
      have hfeeds : ∀ c ∈ (themeKeyword ++ block.source).filter (· == '\n'), c ∉ ['/', '*'] := by
        intro c hc
        have hfeed : c = '\n' := by simpa using (List.mem_filter.1 hc).2
        subst hfeed
        decide
      have hexpanded := not_infix_foreign_append hfeeds (ih fun hw => hs (hw.trans htail))
      have hmark : ∀ c ∈ ['/', '*'], c ∉ Theme.glue ∧ isNameChar c = false :=
        List.forall_mem_cons.2 ⟨by decide, List.forall_mem_singleton.2 (by decide)⟩
      have hrender := Theme.not_infix_of_read hread hmark (fun hw => hs (hw.trans hsource)) hexpanded
      obtain ⟨r, hr⟩ : ∃ r, block.theme.render = ':' :: r := ⟨_, rfl⟩
      rw [hr, List.cons_append] at hrender
      rw [List.append_assoc, hr, List.cons_append]
      exact not_infix_append (by decide) (fun hw => hs (hw.trans hbefore))
        fun hw => hrender (List.infix_cons hw)
  | @word s before after expanded hcut hblank hrest ih =>
      have htext := opening_eq hcut
      have hbefore : before <:+: s := ⟨[], _, htext.symm⟩
      have htail : after <:+: s := ⟨before ++ themeKeyword, [], by simp [htext]⟩
      have hword : ∀ c ∈ ['t', 'h', 'e', 'm', 'e'], c ∉ ['/', '*'] := by simp
      rw [themeKeyword_eq, List.cons_append]
      exact not_infix_append (by decide) (fun hw => hs (hw.trans hbefore))
        (not_infix_foreign_append hword (ih fun hw => hs (hw.trans htail)))

theorem eq_append_feed {x before rest : List Char} {c : Char} (hc : c ≠ '\n')
    (h : before ++ c :: rest = x ++ ['\n']) :
    ∃ r, rest = r ++ ['\n'] ∧ x = before ++ c :: r := by
  have hfeed : ['\n'] <:+ before ++ c :: rest := by
    rw [h]
    exact List.suffix_append x _
  obtain ⟨r, rfl⟩ := suffix_of_append_cons (by simpa using hc) hfeed
  have hcancel : x ++ ['\n'] = (before ++ c :: r) ++ ['\n'] := by
    rw [← h]
    simp
  exact ⟨r, rfl, List.append_cancel_right hcancel⟩

/-- Of a single line a single line is made. -/
theorem Expanded.single_line {s t x : List Char} (h : Expanded s t) (hs : s = x ++ ['\n'])
    (hx : '\n' ∉ x) : ∃ y, t = y ++ ['\n'] ∧ '\n' ∉ y := by
  induction h generalizing x with
  | done h => exact ⟨x, hs, hx⟩
  | @theme p s before after expanded block hcut hblank hread hrest ih =>
      obtain ⟨header, body, hsource, -⟩ := Theme.read_spec hread
      have htext : s = (before ++ (themeKeyword ++ (header ++ '{' :: body))) ++ '}' :: block.rest := by
        simp [opening_block_eq hcut hread, hsource]
      obtain ⟨r, hr, rfl⟩ := eq_append_feed (by decide) (htext.symm.trans hs)
      have hr' : '\n' ∉ r := fun hmem => hx (by simp [hmem])
      have hbefore : '\n' ∉ before := fun hmem => hx (by simp [hmem])
      have hblock : '\n' ∉ block.source := by
        intro hmem
        have hparts : '\n' ∈ header ∨ '\n' ∈ body := by simpa [hsource] using hmem
        rcases hparts with hmem | hmem <;> exact hx (by simp [hmem])
      obtain ⟨y, rfl, hy⟩ := ih hr hr'
      have hfeeds : (themeKeyword ++ block.source).filter (· == '\n') = [] := by
        rw [List.filter_eq_nil_iff]
        intro c hc hfeed
        have hc' : c = '\n' := by simpa using hfeed
        subst hc'
        rcases List.mem_append.1 hc with hmem | hmem
        · revert hmem
          decide
        · exact hblock hmem
      have hrender : '\n' ∉ block.theme.render := by
        rw [← List.singleton_infix_iff] at hblock ⊢
        have hword : ¬ ['\n'] <:+: block.theme.render ++ [] :=
          Theme.not_infix_of_read hread (List.forall_mem_singleton.2 (by decide)) hblock (by simp)
        rwa [List.append_nil] at hword
      exact ⟨before ++ (block.theme.render ++ y), by simp [hfeeds], by simp [hbefore, hrender, hy]⟩
  | @word s before after expanded hcut hblank hrest ih =>
      have htext : s = (before ++ ['@', 't', 'h', 'e', 'm']) ++ 'e' :: after := by
        simp [opening_eq hcut, themeKeyword_eq]
      obtain ⟨r, hr, rfl⟩ := eq_append_feed (by decide) (htext.symm.trans hs)
      have hbefore : '\n' ∉ before := fun hmem => hx (by simp [hmem])
      obtain ⟨y, rfl, hy⟩ := ih hr fun hmem => hx (by simp [hmem])
      exact ⟨before ++ (themeKeyword ++ y), by simp, by simp [hbefore, hy, themeKeyword_eq]⟩

/-! ## Themes without a name -/

theorem Theme.place_of_themeWithoutName {p q : Span} {s : List Char}
    (h : read p s = .error ⟨.themeWithoutName, q⟩) : q = p := by
  unfold read at h
  simp only at h
  split at h
  · exact (Malformed.mk.inj (Except.error.inj h)).2.symm
  · split at h
    · split at h
      · cases h
      · cases (Malformed.mk.inj (Except.error.inj h)).1
    · cases (Malformed.mk.inj (Except.error.inj h)).1

/-- A theme without a name is reported where its keyword stands outside all strings. -/
theorem exists_of_themeWithoutName {p q : Span} {s : List Char}
    (h : expandThemes p s = .error ⟨.themeWithoutName, q⟩) :
    ∃ before after, s = before ++ (themeKeyword ++ after) ∧ Settled before ∧ q = p.advance before := by
  fun_induction expandThemes p s
  case case1 p s hcut => cases h
  case case2 p s before rest hcut place after hblank malformed hread =>
    obtain ⟨r, rfl⟩ := startsWith_iff.1 (cutOutsideQuotes_here hcut)
    obtain rfl := Except.error.inj h
    exact ⟨before, r, opening_eq hcut, settled_of_cut hcut, Theme.place_of_themeWithoutName hread⟩
  case case3 p s before rest hcut place after hblank block hread source ih =>
    obtain ⟨r, rfl⟩ := startsWith_iff.1 (cutOutsideQuotes_here hcut)
    cases hexpanded : expandThemes (place.advance source) block.rest with
    | ok expanded =>
        rw [hexpanded] at h
        cases h
    | error e =>
        rw [hexpanded] at h
        obtain rfl := Except.error.inj h
        obtain ⟨first, later, hrest, hsettled, hq⟩ := ih hexpanded
        simp only [after, List.drop_left] at hread
        refine ⟨before ++ (source ++ first), later, ?_, ?_, ?_⟩
        · rw [opening_block_eq hcut hread, hrest]
          simp only [source, List.append_assoc]
        · exact (settled_of_cut hcut).append
            ((settled_keyword.append (Theme.settled_of_read hread).1).append hsettled)
        · simp only [hq, place, source, Span.advance_append]
  case case4 p s before rest hcut place after hblank ih =>
    obtain ⟨r, rfl⟩ := startsWith_iff.1 (cutOutsideQuotes_here hcut)
    cases hexpanded : expandThemes (place.advance themeKeyword) after with
    | ok expanded =>
        rw [hexpanded] at h
        cases h
    | error e =>
        rw [hexpanded] at h
        obtain rfl := Except.error.inj h
        obtain ⟨first, later, hrest, hsettled, hq⟩ := ih hexpanded
        simp only [after, List.drop_left] at hrest
        refine ⟨before ++ (themeKeyword ++ first), later, ?_, ?_, ?_⟩
        · rw [opening_eq hcut, hrest]
          simp only [List.append_assoc]
        · exact (settled_of_cut hcut).append (settled_keyword.append hsettled)
        · simp only [hq, place, Span.advance_append]

end Source

end RichStyle
