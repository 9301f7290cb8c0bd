import RichStyle.Proofs.Forms
import RichStyle.Proofs.Rereading

/-!
# Compiling what was compiled

The rules that a compilation prints are written and plain.  If nothing in their text is taken for a
comment, an import or a theme, compiling the text again gives the same text exactly if every value
ends where its semicolon was printed.
-/

namespace RichStyle

/-! ## Compiling plain rules -/

namespace Sheet

theorem printDeclaration_placeless (d : Declaration) :
    printDeclaration d.placeless = printDeclaration d := rfl

theorem printDeclaration_reclassified (d : Declaration) :
    printDeclaration d.reclassified = printDeclaration d := by
  simp only [printDeclaration, Declaration.reclassified, Declaration.classified]

section Declarations

variable {ds es : List Declaration}
  (h : es.map Declaration.placeless = ds.map fun d => d.reclassified.placeless)
include h

theorem printDeclaration_of_placeless : es.map printDeclaration = ds.map printDeclaration := by
  have hprint := congrArg (List.map printDeclaration) h
  simpa only [List.map_map, Function.comp_def, printDeclaration_placeless,
    printDeclaration_reclassified] using hprint

theorem notRich_of_placeless (hds : ∀ d ∈ ds, d.IsPlain) : ∀ e ∈ es, e.rich = false := by
  intro e he
  have hmem : e.placeless ∈ ds.map fun d => d.reclassified.placeless := by
    rw [← h]
    exact List.mem_map_of_mem he
  obtain ⟨d, hd, hplaceless⟩ := List.mem_map.1 hmem
  calc e.rich = e.placeless.rich := rfl
    _ = d.reclassified.placeless.rich := by rw [hplaceless]
    _ = Property.isRich d.property := by
      simp only [Declaration.placeless, Declaration.reclassified, Declaration.classified]
    _ = false := (hds d hd).property_plain

end Declarations

theorem placeless_declarations {q r : Rule} (h : q.placeless = r.reclassified.placeless) :
    q.declarations.map Declaration.placeless =
      r.declarations.map fun d => d.reclassified.placeless := by
  have hds := congrArg Rule.declarations h
  simpa only [Rule.placeless, Rule.reclassified, List.map_map, Function.comp_def] using hds

theorem printRule_of_placeless {q r : Rule} (h : q.placeless = r.reclassified.placeless) :
    printRule q = printRule r := by
  have hselector : q.placeless.selector = r.reclassified.placeless.selector := by rw [h]
  change q.selector = r.selector at hselector
  rw [printRule, printRule, hselector, printDeclaration_of_placeless (placeless_declarations h)]

section Rules

variable {rules qs : List Rule}
  (h : qs.map Rule.placeless = rules.map fun r => r.reclassified.placeless)
include h

/-- Rules that differ only in their places and in what they are taken for are printed alike. -/
theorem print_of_placeless (withBanner : Bool) : print qs withBanner = print rules withBanner := by
  have hall : List.Forall₂ (fun q r => q.placeless = r.reclassified.placeless) qs rules := by
    rw [← List.forall₂_eq_eq_eq, List.forall₂_map_left_iff, List.forall₂_map_right_iff] at h
    exact h
  have hprint : qs.map printRule = rules.map printRule := by
    rw [← List.forall₂_eq_eq_eq, List.forall₂_map_left_iff, List.forall₂_map_right_iff]
    exact hall.imp fun _ _ => printRule_of_placeless
  rw [print, print, hprint]

theorem notRich_of_placeless_rules (hrules : ∀ r ∈ rules, r.IsPlain) :
    ∀ q ∈ qs, ∀ d ∈ q.declarations, d.rich = false := by
  intro q hq
  have hmem : q.placeless ∈ rules.map fun r => r.reclassified.placeless := by
    rw [← h]
    exact List.mem_map_of_mem hq
  obtain ⟨r, hr, hplaceless⟩ := List.mem_map.1 hmem
  exact notRich_of_placeless (placeless_declarations hplaceless.symm) (hrules r hr).isPlain

end Rules

end Sheet

section Compile

variable {rules : List Rule} {withBanner : Bool}

theorem exists_of_compile {source : String} {output : Output}
    (h : compile withBanner source = .ok output) :
    ∃ reading plain, Sheet.read source.toList = .ok reading ∧
      Sheet.lower reading.sheet.rules = .ok plain ∧
      output.css = Sheet.print plain.rules withBanner ∧ output.assets = plain.assets ∧
      output.warnings = reading.warnings ++ Sheet.check reading.sheet.rules := by
  cases hread : Sheet.read source.toList with
  | error malformed =>
      rw [compile_of_malformed withBanner hread] at h
      contradiction
  | ok reading =>
      rw [compile_of_read withBanner hread] at h
      by_cases herror : ∃ d ∈ (Analysis.ofReading reading).diagnostics, d.isError = true
      · rw [Analysis.output_of_error withBanner herror] at h
        contradiction
      · obtain ⟨plain, hplain, houtput⟩ := Analysis.output_of_errorFree withBanner
          (by simpa using herror)
        obtain rfl := Except.ok.inj (houtput.symm.trans h)
        exact ⟨reading, plain, rfl, hplain, rfl, rfl, rfl⟩

/-- Compiling printed rules gives them back if they are plain and closed. -/
theorem compile_print (hplain : ∀ r ∈ rules, r.IsPlain) (hprintable : ∀ r ∈ rules, r.Printable)
    (hclosed : ∀ r ∈ rules, ∀ d ∈ r.declarations, d.Closed)
    (hinert : Source.Inert (Sheet.print rules false).toList) :
    ∃ again, compile withBanner (Sheet.print rules withBanner) = .ok again ∧
      again.css = Sheet.print rules withBanner ∧ again.assets = .empty ∧ again.warnings = [] := by
  obtain ⟨qs, hqs, hread⟩ := Sheet.read_print withBanner hprintable hclosed hinert
  have hrich := Sheet.notRich_of_placeless_rules hqs hplain
  have hcheck := Sheet.check_of_notRich hrich
  have hdiagnostics : (Analysis.ofReading ⟨⟨qs, []⟩, []⟩).diagnostics = [] := by
    simp [Analysis.ofReading, hcheck]
  obtain ⟨plain, hlower, houtput⟩ := Analysis.output_of_errorFree withBanner
    (by rw [hdiagnostics]; simp)
  rw [Sheet.lower_of_notRich hrich] at hlower
  obtain rfl := Except.ok.inj hlower
  refine ⟨_, (compile_of_read withBanner hread).trans houtput, ?_, rfl, ?_⟩
  · exact Sheet.print_of_placeless hqs withBanner
  · exact hdiagnostics

end Compile

/-! ## Compiling a compiled text -/

/-- A property holds throughout a list if each element inherits it from those in front of it. -/
theorem forall_mem_of_before {α : Type} {good : α → Prop} {xs : List α}
    (h : ∀ before x after, xs = before ++ x :: after → (∀ y ∈ before, good y) → good x) :
    ∀ x ∈ xs, good x := by
  have hall : ∀ before after, xs = before ++ after → (∀ y ∈ before, good y) →
      ∀ x ∈ after, good x := by
    intro before after
    induction after generalizing before with
    | nil => simp
    | cons x after ih =>
        intro hxs hbefore
        have hx := h before x after hxs hbefore
        refine List.forall_mem_cons.2 ⟨hx, ih (before ++ [x]) (by simpa using hxs) ?_⟩
        simpa [or_imp, forall_and] using ⟨hbefore, hx⟩
  exact hall [] xs rfl (by simp)

namespace Sheet

/-- What is printed up to a value, the value and the rest of the text. -/
theorem print_cut (before after : List Rule) (ds more : List Declaration) (selector : String)
    (p : Span) (d : Declaration) (withBanner : Bool) :
    ∃ rest, (print (before ++ ⟨selector, ds ++ d :: more, p⟩ :: after) withBanner).toList =
      (print before withBanner ++ selector ++ " \x7b\n" ++ String.join (ds.map printDeclaration) ++
        "  " ++ d.property ++ ": ").toList ++ (d.value.toList ++ ';' :: '\n' :: rest) := by
  refine ⟨(String.join (more.map printDeclaration) ++ "\x7d\n\n" ++
    String.join (after.map printRule)).toList, ?_⟩
  simp [print, printRule, printDeclaration, String.toList_join]

variable {before after rules : List Rule} {ds more : List Declaration} {selector : String}
  {place : Span} {d : Declaration} {withBanner : Bool}

/-- A declaration is closed if all in front of it are and if compiling changes nothing. -/
theorem closed_of_compile_print {again : Output}
    (hrules : rules = before ++ ⟨selector, ds ++ d :: more, place⟩ :: after)
    (hplain : ∀ r ∈ rules, r.IsPlain) (hprintable : ∀ r ∈ rules, r.Printable)
    (hinert : Source.Inert (print rules false).toList)
    (hbefore : ∀ r ∈ before, ∀ e ∈ r.declarations, e.Closed) (hds : ∀ e ∈ ds, e.Closed)
    (h : compile withBanner (print rules withBanner) = .ok again)
    (hcss : again.css = print rules withBanner) (hwarnings : again.warnings = []) : d.Closed := by
  obtain ⟨reading, plain, hread, hlower, hprint, -, hall⟩ := exists_of_compile h
  have hnone : reading.warnings = [] := (List.append_eq_nil_iff.1 (hall.symm.trans hwarnings)).1
  have hr : Rule.IsPlain ⟨selector, ds ++ d :: more, place⟩ := hplain _ (by simp [hrules])
  have hd : d.IsPlain := hr.isPlain d (by simp)
  obtain ⟨qs, es, p, q, others, rest, value, hqs, hes, hreading, hclosed⟩ :=
    exists_read_print hrules hprintable hinert hbefore hds hd.value_start hread hnone
  -- nothing that was read up to the new value is rich, so lowering keeps it
  have hrich : ∀ e ∈ es ++ [.classified d.property value p], e.rich = false := by
    intro e he
    rcases List.mem_append.1 he with he | he
    · exact notRich_of_placeless hes (fun f hf => hr.isPlain f (by simp [hf])) e he
    · obtain rfl := List.mem_singleton.1 he
      simpa only [Declaration.classified] using hd.property_plain
  have hlist (others : List Declaration) : es ++ .classified d.property value p :: others =
      es ++ [.classified d.property value p] ++ others := by
    simp
  rw [hreading, hlist] at hlower
  obtain ⟨kept, last, hkept⟩ := exists_of_lower_append
    (notRich_of_placeless_rules hqs fun r hr => hplain r (by simp [hrules, hr])) hrich hlower
  rw [← hlist] at hkept
  -- both texts are alike up to the value
  obtain ⟨u, hu⟩ := print_cut qs last es kept selector q (.classified d.property value p) withBanner
  obtain ⟨w, hw⟩ := print_cut before after ds more selector place d withBanner
  have htext := congrArg String.toList (hprint.symm.trans hcss)
  rw [hkept, hrules, hu, hw, print_of_placeless hqs, printDeclaration_of_placeless hes] at htext
  exact hclosed u w (List.append_cancel_left htext)

end Sheet

/-- Compiling what was compiled changes nothing exactly if every value that was printed ends where
its semicolon stands, provided that nothing in the printed rules is taken for a comment, an import or
a theme. -/
theorem recompile_unchanged_iff {withBanner : Bool} {source : String} {output : Output}
    (h : compile withBanner source = .ok output) :
    ∃ reading plain, Sheet.read source.toList = .ok reading ∧
      Sheet.lower reading.sheet.rules = .ok plain ∧
      output.css = Sheet.print plain.rules withBanner ∧
      (Source.Inert (Sheet.print plain.rules false).toList →
        ((∃ again, compile withBanner output.css = .ok again ∧ again.css = output.css ∧
          again.assets = .empty ∧ again.warnings = []) ↔
        ∀ r ∈ plain.rules, ∀ d ∈ r.declarations, d.Closed)) := by
  obtain ⟨reading, plain, hread, hlower, hcss, -, -⟩ := exists_of_compile h
  refine ⟨reading, plain, hread, hlower, hcss, fun hinert => ?_⟩
  have hplain := Sheet.isPlain_of_lower (Sheet.read_asRead hread) hlower
  have hprintable := Sheet.printable_of_written (fun r hr => (hplain r hr).toWritten)
    hinert.noComment
  rw [hcss]
  constructor
  · rintro ⟨again, hagain, hsame, -, hwarnings⟩
    refine forall_mem_of_before fun before r after hrules hbefore => ?_
    refine forall_mem_of_before fun ds d more hds hclosed => ?_
    have hcut : plain.rules = before ++ ⟨r.selector, ds ++ d :: more, r.span⟩ :: after := by
      rw [hrules, ← hds]
    exact Sheet.closed_of_compile_print hcut hplain hprintable hinert hbefore hclosed hagain hsame
      hwarnings
  · intro hclosed
    exact compile_print hplain hprintable hclosed hinert

/-- A semicolon in parentheses ends no value. -/
theorem recompile_unchanged_iff_nested :
    let css := ".a \x7b\n  b: url(x;y);\n  border-radius: 50%;\n\x7d\n\n"
    compile false ".a\x7bb:url(x;y);shape:circle\x7d" = .ok ⟨css, .empty, [], ⟨1, 0, 0⟩⟩ ∧
      Source.Inert css.toList ∧
      ∃ again, compile false css = .ok again ∧ again.css = css ∧ again.assets = .empty ∧
        again.warnings = [] := by
  have hcompile : compile false ".a\x7bb:url(x;y);shape:circle\x7d" =
      .ok ⟨".a \x7b\n  b: url(x;y);\n  border-radius: 50%;\n\x7d\n\n", .empty, [], ⟨1, 0, 0⟩⟩ := by
    decide +kernel
  have hinert : Source.Inert
      ".a \x7b\n  b: url(x;y);\n  border-radius: 50%;\n\x7d\n\n".toList :=
    ⟨by decide +kernel, by decide +kernel, by decide +kernel⟩
  obtain ⟨reading, plain, hread, hlower, hcss, hiff⟩ := recompile_unchanged_iff hcompile
  refine ⟨hcompile, hinert, (hiff ?_).2 ?_⟩
  · rwa [← hcss]
  · have hclosed : ((Sheet.read ".a\x7bb:url(x;y);shape:circle\x7d".toList).toOption.bind fun q =>
        (Sheet.lower q.sheet.rules).toOption).all fun q =>
          decide (∀ r ∈ q.rules, ∀ d ∈ r.declarations, d.Closed) := by
      decide +kernel
    rw [hread] at hclosed
    simpa [Except.toOption, hlower] using hclosed

/-- What a compilation printed may be changed by the next one: where a value left a parenthesis
open, bared a semicolon or ended with a space, and where the text holds a comment, an import or a
theme. -/
theorem recompile_changes :
    let css (source : String) := (compile false source).map Output.css
    ∀ p ∈ [(".a\x7bb:(c\x7d", ".a \x7b\n  b: (c;\n\x7d\n\n"),
      (".a\x7bshape:rounded-rect(1;b:c)\x7d", ".a \x7b\n  border-radius: 1;b:c;\n\x7d\n\n"),
      (".a\x7bglow-color:\x7d",
        ".a \x7b\n  box-shadow: 0 0 20px ;\n  filter: brightness(1.2);\n\x7d\n\n"),
      (".a\x7bb:///**/* *//**/*c*/d\x7d", ".a \x7b\n  b: /*c*/d;\n\x7d\n\n"),
      (".a\x7b@import \"x\": \"y\"\x7d", ".a \x7b\n  @import \"x\": \"y\";\n\x7d\n\n"),
      (".a @theme\x7bb:c\x7d", ".a @theme \x7b\n  b: c;\n\x7d\n\n")],
      css p.1 = .ok p.2 ∧ css p.2 ≠ .ok p.2 := by
  decide +kernel

end RichStyle
