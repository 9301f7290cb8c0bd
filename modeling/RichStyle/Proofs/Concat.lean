import RichStyle.Proofs.Recompile
import RichStyle.Proofs.Seams

/-!
# Compiling sources put together

A source that ends with a line feed and holds neither comments nor imports can be read and compiled
apart from what follows it.  That it can be read means that at its end no string, no theme and no
block is open.
-/

namespace RichStyle

open Text

/-! ## Reading -/

section Read

variable {a : List Char} (hcomment : ¬ ['/', '*'] <:+: a ++ ['\n'])

include hcomment

theorem Source.absent_startsComment_of_not_isInfix : Absent startsComment (a ++ ['\n']) :=
  absent_of_not_infix ['/', '*'] hcomment fun r hr => by rwa [startsComment_eq] at hr

/-- A line feed at the end of a text that is read stands outside all strings. -/
theorem Sheet.exists_settled_end {t : List Char} {built : Built}
    (ht : Source.Expanded (a ++ ['\n']) t) (h : ofTokens (Token.ofText t) = .ok built) :
    Source.Settled (a ++ ['\n']) ∧
      ∃ before w x, Lexeme.split t = before ++ [⟨.blank, w⟩] ∧ t = x ++ ['\n'] := by
  obtain ⟨x, rfl⟩ := ht.suffix (by decide) (by decide) (List.suffix_append a ['\n'])
  have hkinds := Source.absent_startsComment_iff.1
    (Source.absent_startsComment_of_not_isInfix (ht.not_infix_comment hcomment))
  obtain ⟨before, w, hsplit⟩ := exists_blank_end h (List.suffix_append x _) fun l hl =>
    hkinds l (List.mem_of_getLast? hl)
  -- only the last lexeme can be left open, and it is a blank
  have hwhole : ∀ l ∈ Lexeme.split (x ++ ['\n']), l.Whole := by
    intro l hl
    have hlast : l ∈ before ∨ l = ⟨.blank, w⟩ := by simpa [hsplit] using hl
    rcases hlast with hbefore | rfl
    · exact Lexeme.split_whole hsplit l hbefore
    · exact Lexeme.whole_of_isClosed hl rfl
  have hsettled := Lexeme.settled_join hwhole hkinds
  rw [Lexeme.join_split] at hsettled
  exact ⟨ht.settled_iff.1 hsettled, before, w, x, hsplit, rfl⟩

variable (himport : ¬ "@import".toList <:+: a ++ ['\n'])

include himport

theorem Source.marked_of_not_isInfix : marked (a ++ ['\n']) = ⟨a ++ ['\n'], []⟩ := by
  rw [marked, withoutComments_of_absent (absent_startsComment_of_not_isInfix hcomment),
    markImports_of_none fun line hline => importTarget_of_not_infix himport hline]

/-- Two sources are read one after the other. -/
theorem Sheet.read_append {b : List Char} {ra rb : Reading} (ha : read (a ++ ['\n']) = .ok ra)
    (hb : read b = .ok rb) :
    ∃ pa, Source.prepare (a ++ ['\n']) = .ok pa ∧
      read (a ++ ['\n'] ++ b) =
        .ok ⟨⟨ra.sheet.rules ++ rb.sheet.rules.map (Rule.down (pa.text.count '\n')),
          rb.sheet.imports⟩,
          ra.warnings ++ rb.warnings.map (Diagnostic.down (pa.text.count '\n'))⟩ := by
  have hmarked := Source.marked_of_not_isInfix hcomment himport
  obtain ⟨ta, builtA, hta, hbuiltA, rfl⟩ := read_eq_ok_iff.1 ha
  obtain ⟨tb, builtB, htb, hbuiltB, rfl⟩ := read_eq_ok_iff.1 hb
  refine ⟨_, Source.prepare_eq_ok_iff.2 ⟨ta, hta, rfl⟩, ?_⟩
  rw [hmarked] at hta
  obtain ⟨hsettled, before, w, x, hsplit, hfeed⟩ := exists_settled_end hcomment hta hbuiltA
  have hboth := Source.marked_append b hsettled
    (Source.absent_startsComment_of_not_isInfix hcomment)
  rw [hmarked, List.nil_append] at hboth
  have htext : Source.Expanded (a ++ ['\n'] ++ (Source.marked b).text) (ta ++ tb) := by
    rw [← Source.expandThemes_eq_ok_iff (p := .start),
      hta.append .start _ hsettled (by simp [Source.themeKeyword_eq]),
      Source.expandThemes_eq_ok_iff.2 htb]
    rfl
  -- after the line feed the second text starts in the first column again
  have hplace : Span.start.advance ta = Span.start.down (ta.count '\n') := by
    rw [hfeed, Span.advance_feed]
    rfl
  have hlater : buildTokens .outside ((Token.ofText tb).map (Token.move (.down (ta.count '\n')))) =
      .ok (builtB.move (.down (ta.count '\n'))) := by
    have houtside : Scope.Placed .outside := trivial
    exact buildTokens_down _ (Token.line_pos_of_place Nat.one_pos) houtside hbuiltB
  have hbuilt : ofTokens (Token.ofText (ta ++ tb)) =
      .ok (builtA.append (builtB.move (.down (ta.count '\n')))) := by
    rw [ofTokens_append tb hsplit hbuiltA, hplace, Token.place_down, ← Token.ofText, hlater]
    rfl
  refine read_eq_ok_iff.2 ⟨ta ++ tb, _, by rw [hboth]; exact htext, hbuilt, ?_⟩
  rw [hboth]
  rfl

end Read

/-! ## Lowering -/

def Lowered.move (f : Span → Span) : Lowered → Lowered
  | plain ds => plain (ds.map (Declaration.move f))
  | asset kind property value => asset kind property value

section Move

variable (f : Span → Span)

namespace Declaration

@[simp] theorem move_property (d : Declaration) : (d.move f).property = d.property := rfl

@[simp] theorem move_rich (d : Declaration) : (d.move f).rich = d.rich := rfl

@[simp] theorem move_trimmed (d : Declaration) : (d.move f).trimmed = d.trimmed := rfl

theorem finding?_move (d : Declaration) : (d.move f).finding? = d.finding? := by
  unfold finding?
  rw [move_property, move_trimmed]

theorem lower_move {d : Declaration} {selector : String} {l : Lowered}
    (h : d.lower selector = .ok l) : (d.move f).lower selector = .ok (l.move f) := by
  obtain ⟨property, hname, ⟨forms, hforms, rfl⟩ | ⟨hforms, kind, hkind, rfl⟩⟩ :=
    lower_eq_ok_iff.1 h
  · refine lower_eq_ok_iff.2 ⟨property, hname, .inl ⟨forms, hforms, ?_⟩⟩
    simp only [Lowered.move, List.map_map, Function.comp_def, classified, Declaration.move]
  · exact lower_eq_ok_iff.2 ⟨property, hname, .inr ⟨hforms, kind, hkind, rfl⟩⟩

theorem lowerIfRich_move {d : Declaration} {selector : String} {l : Lowered}
    (h : d.lowerIfRich selector = .ok l) : (d.move f).lowerIfRich selector = .ok (l.move f) := by
  rcases lowerIfRich_eq_ok_iff.1 h with ⟨hrich, hl⟩ | ⟨hrich, rfl⟩
  · exact lowerIfRich_eq_ok_iff.2 (.inl ⟨hrich, lower_move f hl⟩)
  · exact lowerIfRich_eq_ok_iff.2 (.inr ⟨hrich, rfl⟩)

theorem isError_of_diagnostic_move {d : Declaration} {selector : String} {e : Diagnostic}
    (he : (d.move f).diagnostic? selector = some e)
    (h : ∀ e ∈ d.diagnostic? selector, e.isError = false) : e.isError = false := by
  unfold diagnostic? at he h
  rw [move_rich, finding?_move] at he
  split at he
  · next hd =>
      obtain ⟨found, hfound, rfl⟩ := Option.map_eq_some_iff.1 he
      rw [if_pos hd, hfound] at h
      have hplain := h _ rfl
      rw [Finding.isError_reportedFor] at hplain ⊢
      exact hplain
  · cases he

end Declaration

namespace Sheet

theorem errorFree_move {rules : List Rule} (h : ∀ e ∈ check rules, e.isError = false) :
    ∀ e ∈ check (rules.map (Rule.move f)), e.isError = false := by
  intro e he
  obtain ⟨r', hr', he⟩ := List.mem_flatMap.1 he
  obtain ⟨r, hr, rfl⟩ := List.mem_map.1 hr'
  obtain ⟨d', hd', he⟩ := List.mem_filterMap.1 he
  obtain ⟨d, hd, rfl⟩ := List.mem_map.1 hd'
  exact Declaration.isError_of_diagnostic_move f he fun e he => h e (mem_check hr hd he)

theorem lowerRule_move {r : Rule} {l : LoweredRule} (h : lowerRule r = .ok l) :
    lowerRule (r.move f) = .ok (l.1.move f, l.2.map (Lowered.move f)) := by
  obtain ⟨ls, hls, hl⟩ := except_bind_eq_ok.1 h
  obtain rfl := Except.ok.inj hl
  refine except_bind_eq_ok.2 ⟨ls.map (Lowered.move f), ?_, rfl⟩
  rw [mapM_eq_ok_iff] at hls ⊢
  rw [Rule.move, List.forall₂_map_left_iff, List.forall₂_map_right_iff]
  exact hls.imp fun d l hl => Declaration.lowerIfRich_move f hl

theorem keptRule_move (l : LoweredRule) :
    keptRule (l.1.move f, l.2.map (Lowered.move f)) = (keptRule l).move f := by
  have hkept (l : Lowered) : (l.move f).declarations = l.declarations.map (Declaration.move f) := by
    cases l <;> rfl
  simp only [keptRule, Rule.move, List.flatMap_map, hkept, List.map_flatMap]

theorem lower_move {rules : List Rule} {plain : Plain} (h : lower rules = .ok plain) :
    ∃ later, lower (rules.map (Rule.move f)) = .ok later ∧
      later.rules = plain.rules.map (Rule.move f) := by
  obtain ⟨ls, hls, hplain⟩ := except_bind_eq_ok.1 h
  obtain rfl := Except.ok.inj hplain
  have hmap : (rules.map (Rule.move f)).mapM lowerRule =
      .ok (ls.map fun l => (l.1.move f, l.2.map (Lowered.move f))) := by
    rw [mapM_eq_ok_iff] at hls ⊢
    rw [List.forall₂_map_left_iff, List.forall₂_map_right_iff]
    exact hls.imp fun r l hl => lowerRule_move f hl
  refine ⟨_, except_bind_eq_ok.2 ⟨_, hmap, rfl⟩, ?_⟩
  simp only [List.map_map, Function.comp_def, keptRule_move]

theorem print_move (rules : List Rule) :
    print (rules.map (Rule.move f)) false = print rules false := by
  have hdeclaration (d : Declaration) : printDeclaration (d.move f) = printDeclaration d := rfl
  have hrule (r : Rule) : printRule (r.move f) = printRule r := by
    simp only [printRule, Rule.move, List.map_map, Function.comp_def, hdeclaration]
  simp only [print, List.map_map, Function.comp_def, hrule]

end Sheet

end Move

namespace Sheet

theorem check_append (rules more : List Rule) : check (rules ++ more) = check rules ++ check more := by
  simp [check]

theorem lower_append {rules more : List Rule} {plain plain' : Plain} (h : lower rules = .ok plain)
    (h' : lower more = .ok plain') :
    ∃ both, lower (rules ++ more) = .ok both ∧ both.rules = plain.rules ++ plain'.rules := by
  obtain ⟨ls, hls, hplain⟩ := except_bind_eq_ok.1 h
  obtain ⟨ls', hls', hplain'⟩ := except_bind_eq_ok.1 h'
  obtain rfl := Except.ok.inj hplain
  obtain rfl := Except.ok.inj hplain'
  have hboth : (rules ++ more).mapM lowerRule = .ok (ls ++ ls') := by
    rw [mapM_eq_ok_iff] at hls hls' ⊢
    exact List.rel_append hls hls'
  exact ⟨_, except_bind_eq_ok.2 ⟨_, hboth, rfl⟩, by simp⟩

theorem print_append (rules more : List Rule) :
    print (rules ++ more) false = print rules false ++ print more false := by
  simp [print]

end Sheet

/-! ## Compiling -/

theorem exists_compile_of_read {a b source : String} {ra rb : Sheet.Reading} {oa ob : Output}
    {n : Nat} {imports : List String} (ha : Sheet.read a.toList = .ok ra)
    (hb : Sheet.read b.toList = .ok rb)
    (hread : Sheet.read source.toList =
      .ok ⟨⟨ra.sheet.rules ++ rb.sheet.rules.map (Rule.down n), imports⟩,
        ra.warnings ++ rb.warnings.map (Diagnostic.down n)⟩)
    (hoa : compile false a = .ok oa) (hob : compile false b = .ok ob) :
    ∃ o, compile false source = .ok o ∧ o.css = oa.css ++ ob.css := by
  have hfreeA := errorFree_of_compile ha hoa
  have hfreeB := errorFree_of_compile hb hob
  have hfree : ∀ d ∈ (Analysis.ofReading ⟨⟨ra.sheet.rules ++ rb.sheet.rules.map (Rule.down n),
      imports⟩, ra.warnings ++ rb.warnings.map (Diagnostic.down n)⟩).diagnostics,
      d.isError = false := by
    simp only [Analysis.ofReading, List.forall_mem_append, Sheet.check_append] at hfreeA hfreeB ⊢
    refine ⟨⟨hfreeA.1, ?_⟩, hfreeA.2, Sheet.errorFree_move (Span.down n) hfreeB.2⟩
    simpa [Diagnostic.move, Diagnostic.isError] using hfreeB.1
  obtain ⟨ra', plainA, ha', hlowerA, hcssA, -⟩ := exists_of_compile hoa
  obtain ⟨rb', plainB, hb', hlowerB, hcssB, -⟩ := exists_of_compile hob
  obtain rfl := Except.ok.inj (ha.symm.trans ha')
  obtain rfl := Except.ok.inj (hb.symm.trans hb')
  obtain ⟨later, hlater, hrules⟩ := Sheet.lower_move (Span.down n) hlowerB
  obtain ⟨both, hboth, hbothRules⟩ := Sheet.lower_append hlowerA hlater
  obtain ⟨plain, hplain, houtput⟩ := Analysis.output_of_errorFree false hfree
  obtain rfl := Except.ok.inj (hboth.symm.trans hplain)
  refine ⟨_, (compile_of_read false hread).trans houtput, ?_⟩
  simp only [hbothRules, hrules, Sheet.print_append, Sheet.print_move, hcssA, hcssB]

/-- A source that ends with a line feed and holds neither comments nor imports is read and compiled
apart from the source after it. -/
theorem compile_append {a b : String} (hfeed : a.toList.getLast? = some '\n')
    (hcomment : ¬ "/*".toList <:+: a.toList) (himport : ¬ "@import".toList <:+: a.toList) :
    (∀ ra rb, Sheet.read a.toList = .ok ra → Sheet.read b.toList = .ok rb →
      ∃ pa, Source.prepare a.toList = .ok pa ∧
        Sheet.read (a ++ b).toList =
          .ok ⟨⟨ra.sheet.rules ++ rb.sheet.rules.map (Rule.down (pa.text.count '\n')),
            rb.sheet.imports⟩,
            ra.warnings ++ rb.warnings.map (Diagnostic.down (pa.text.count '\n'))⟩) ∧
    (∀ oa ob, compile false a = .ok oa → compile false b = .ok ob →
      ∃ o, compile false (a ++ b) = .ok o ∧ o.css = oa.css ++ ob.css) := by
  obtain ⟨x, hx⟩ := List.getLast?_eq_some_iff.1 hfeed
  have hword : "/*".toList = ['/', '*'] := rfl
  rw [hx] at hcomment himport
  rw [hword] at hcomment
  rw [String.toList_append, hx]
  refine ⟨fun ra rb ha hb => Sheet.read_append hcomment himport ha hb, ?_⟩
  intro oa ob hoa hob
  obtain ⟨ra, -, ha, -⟩ := exists_of_compile hoa
  obtain ⟨rb, -, hb, -⟩ := exists_of_compile hob
  have hread := ha
  rw [hx] at hread
  obtain ⟨pa, -, hboth⟩ := Sheet.read_append hcomment himport hread hb
  rw [← hx, ← String.toList_append] at hboth
  exact exists_compile_of_read ha hb hboth hoa hob

/-- A theme is written out on more lines than it had if a value of it goes over two lines; what comes
after it moves down with it. -/
theorem compile_append_theme :
    let a := "@theme n \x7ba:b\nc\x7d\n;\n"
    let b := "@import 'p';\n.r\x7bdepth:1rem;c\x7d"
    let theme : Rule := ⟨":root[data-theme=\"n\"]", [⟨"--theme-a", "b c", false, ⟨1, 25⟩⟩], ⟨1, 1⟩⟩
    let rule (line : Nat) : Rule := ⟨".r", [⟨"depth", "1rem", true, ⟨line, 4⟩⟩], ⟨line, 1⟩⟩
    let skipped := (Finding.unsupportedStatement "").reported ⟨4, 1⟩
    let dropped (line : Nat) := (Finding.malformedDeclaration "c").reportedIn ".r" ⟨line, 15⟩
    let css := ":root[data-theme=\"n\"] \x7b\n  --theme-a: b c;\n\x7d\n\n"
    let css' := ".r \x7b\n  box-shadow: 0 1rem 2rem rgba(0,0,0,.15);\n\x7d\n\n"
    Sheet.read a.toList = .ok ⟨⟨[theme], []⟩, [skipped]⟩ ∧
      Sheet.read b.toList = .ok ⟨⟨[rule 2], ["p"]⟩, [dropped 2]⟩ ∧
      Sheet.read (a ++ b).toList = .ok ⟨⟨[theme, rule 6], ["p"]⟩, [skipped, dropped 6]⟩ ∧
      ∃ o, compile false (a ++ b) = .ok o ∧ o.css = css ++ css' := by
  intro a b theme rule skipped dropped css css'
  have ha : Sheet.read a.toList = .ok ⟨⟨[theme], []⟩, [skipped]⟩ := by decide +kernel
  have hb : Sheet.read b.toList = .ok ⟨⟨[rule 2], ["p"]⟩, [dropped 2]⟩ := by decide +kernel
  have hoa : compile false a = .ok ⟨css, .empty, [skipped], ⟨1, 0, 1⟩⟩ := by decide +kernel
  have hob : compile false b = .ok ⟨css', .empty, [dropped 2], ⟨1, 0, 1⟩⟩ := by decide +kernel
  have hlines : (Source.prepare a.toList).toOption.map (·.text.count '\n') = some 4 := by
    decide +kernel
  obtain ⟨hread, hcompile⟩ :=
    compile_append (a := a) (b := b) (by decide +kernel) (by decide +kernel) (by decide +kernel)
  obtain ⟨pa, hpa, hboth⟩ := hread _ _ ha hb
  rw [hpa] at hlines
  have hcount : pa.text.count '\n' = 4 := Option.some.inj hlines
  rw [hcount] at hboth
  exact ⟨ha, hb, hboth, hcompile _ _ hoa hob⟩

end RichStyle
