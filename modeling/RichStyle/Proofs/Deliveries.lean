import RichStyle.Proofs.Commands
import RichStyle.Proofs.Paths
import RichStyle.Proofs.Recompile

/-!
# What a build leaves behind

A build that ends well has written its record where it belongs and has changed no file but the two that
it is to write.  It has also left the sheet, unless both paths lead to one file: the record is written
last, and a sheet never has the text of a record.
-/

namespace RichStyle

/-! ## A sheet is no record -/

theorem Orderly.head?_ne {marks : List Kind} {s : List Char} (h : Orderly marks s) :
    s.head? ≠ some '{' := by
  intro hhead
  cases h with
  | nil => cases hhead
  | mark hk hopen hclose hs =>
      obtain rfl := Option.some.inj hhead
      exact hopen (Option.some.inj hk).symm
  | plain hc hs =>
      obtain rfl := Option.some.inj hhead
      cases hc
  | space hb hs => cases hhead
  | quoted hq ht hs =>
      obtain rfl := Option.some.inj hhead
      cases hq

theorem Sheet.head?_print {rules : List Rule} (h : ∀ r ∈ rules, r.Written) (withBanner : Bool) :
    (print rules withBanner).toList.head? ≠ some '{' := by
  cases withBanner with
  | true => simp [print, banner]
  | false =>
      cases rules with
      | nil => simp [print]
      | cons r rules =>
          have hr := h r List.mem_cons_self
          obtain ⟨marks, horderly, -⟩ := hr.selector
          have hne : r.selector.toList ≠ [] := by simpa using hr.selector_ne
          obtain ⟨c, s, hcons⟩ := List.exists_cons_of_ne_nil hne
          have hhead := horderly.head?_ne
          rw [hcons] at hhead
          simpa [print, printRule, String.toList_join, hcons] using hhead

theorem Record.head?_print (r : Record) : r.print.toList.head? = some '{' := by
  rw [print, String.toList_ofList]
  rfl

/-- The text of a compiled sheet is never that of a record. -/
theorem css_ne_print {banner : Bool} {source : String} {output : Output}
    (h : compile banner source = .ok output) (record : Record) : output.css ≠ record.print := by
  obtain ⟨reading, plain, hread, hlower, hcss, -, -⟩ := exists_of_compile h
  have hplain := Sheet.isPlain_of_lower (Sheet.read_asRead hread) hlower
  have hhead := Sheet.head?_print (fun r hr => (hplain r hr).toWritten) banner
  intro heq
  rw [← hcss, heq] at hhead
  exact hhead record.head?_print

namespace Command

open FileTree (files)

/-! ## Where a record stands -/

section Place

variable {settings : Settings} {left : FileTree}

/-- Without a path of its own a record stands in the directory of the sheet. -/
theorem place?_record_beside {sheet : String} {names : List String}
    (hname : Path.IsName settings.assetFileName) (hplace : left.place? sheet = some names) :
    left.place? (recordPath settings (some sheet) none) =
      some (names.dropLast ++ [settings.assetFileName]) := by
  obtain ⟨directory, hparent, hdirectory⟩ := FileTree.directory?_parent hplace
  have hrecord : recordPath settings (some sheet) none =
      Path.join directory settings.assetFileName := by
    simp [recordPath, hparent]
  rw [hrecord, FileTree.place?_join hname, hdirectory]
  rfl

/-- Without a sheet it stands in the directory that is set. -/
theorem place?_record_set (hname : Path.IsName settings.assetFileName) :
    left.place? (recordPath settings none none) =
      (left.directory? settings.outDir).map (· ++ [settings.assetFileName]) :=
  FileTree.place?_join hname settings.outDir

end Place

/-! ## What is written -/

section Written

variable {t left : FileTree} {settings : Settings} {timestamp : String} {output assets : Option String}
  {compiled : Output}
  (h : t.WroteAll (buildFiles settings timestamp output assets compiled) left)
include h

/-- The record is written last, so nothing is written in its place. -/
theorem readText_record :
    left.readText (recordPath settings output assets) =
      .ok (Record.ofOutput timestamp compiled).print :=
  h.last _ _ [] rfl (by simp)

theorem node?_of_elsewhere {names : List String}
    (hsheet : ∀ sheet ∈ output, left.place? sheet ≠ some names)
    (hrecord : left.place? (recordPath settings output assets) ≠ some names) (content : ByteArray) :
    left.node? names = some (.file content) ↔ t.node? names = some (.file content) := by
  refine h.others names (fun e he => ?_) content
  cases output with
  | none =>
      obtain rfl := List.mem_singleton.1 he
      exact hrecord
  | some sheet =>
      rcases List.mem_cons.1 he with rfl | he
      · exact hsheet sheet rfl
      · obtain rfl := List.mem_singleton.1 he
        exact hrecord

end Written

section Sheet

variable {t left : FileTree} {settings : Settings} {timestamp source sheet : String}
  {assets : Option String} {compiled : Output}
  (h : t.WroteAll (buildFiles settings timestamp (some sheet) assets compiled) left)
include h

theorem exists_place_sheet : ∃ names, left.place? sheet = some names :=
  h.placed (sheet, compiled.css) List.mem_cons_self

/-- The sheet stays exactly if the record is written elsewhere. -/
theorem readText_sheet_iff (hcompile : compile settings.banner source = .ok compiled) :
    left.readText sheet = .ok compiled.css ↔
      left.place? sheet ≠ left.place? (recordPath settings (some sheet) assets) := by
  constructor
  · intro hread hsame
    obtain ⟨names, hplace⟩ := exists_place_sheet h
    have hrecord := readText_record h
    rw [← FileTree.readText_congr hplace (hsame ▸ hplace), hread] at hrecord
    exact css_ne_print hcompile _ (Except.ok.inj hrecord)
  · intro hne
    refine h.last [] (sheet, compiled.css) _ rfl fun later hlater => ?_
    obtain rfl := List.mem_singleton.1 hlater
    exact Ne.symm hne

end Sheet

/-- A build that ends well has compiled the text that its input had.  The sheet is printed, or it is
written to the path that is given and stays there exactly if that path and the path of the record do not
lead to one file.  The record stands at its path, which without one of its own is beside the sheet, or in
the directory that is set.  No other file has changed. -/
theorem build_delivers {t left : FileTree} {directory timestamp input : String}
    {config output assets : Option String} {verbose : Bool} {outcome : Outcome}
    (h : run files directory timestamp ⟨config, verbose, .build input output assets⟩ t =
      (outcome, left)) (hcode : outcome.code = 0) :
    ∃ events settings source compiled,
      Settings.discover files config directory t = ((events, .ok settings), t) ∧
      t.readText input = .ok source ∧ compile settings.banner source = .ok compiled ∧
      let record := recordPath settings output assets
      (output = none → outcome.stdout = compiled.css) ∧
      (∀ sheet ∈ output,
        (left.readText sheet = .ok compiled.css ↔ left.place? sheet ≠ left.place? record)) ∧
      left.readText record = .ok (Record.ofOutput timestamp compiled).print ∧
      (assets = none → Path.IsName settings.assetFileName →
        (∀ sheet ∈ output, ∃ names, left.place? sheet = some names ∧
          left.place? record = some (names.dropLast ++ [settings.assetFileName])) ∧
        (output = none → left.place? record =
          (left.directory? settings.outDir).map (· ++ [settings.assetFileName]))) ∧
      ∀ names, (∀ sheet ∈ output, left.place? sheet ≠ some names) → left.place? record ≠ some names →
        ∀ content, left.node? names = some (.file content) ↔ t.node? names = some (.file content) := by
  obtain ⟨log, result, hattempt⟩ := exists_attempts t directory config input
  cases result with
  | error failure =>
      rw [run_build_of_error timestamp verbose output assets hattempt] at h
      cases h
      cases hcode
  | ok done =>
      obtain ⟨settings, compiled⟩ := done
      obtain ⟨_, written, _, hrun, hwrite, hzero, hstdout, -⟩ :=
        run_build_of_ok timestamp verbose output assets hattempt
      cases hrun.symm.trans h
      rw [hzero.1 hcode] at hwrite
      have hwrote := FileTree.wroteAll_of_writeAll hwrite
      cases hattempt with
      | @compiled events _ source _ hsettings hread hcompile =>
          refine ⟨events, settings, source, compiled, hsettings, hread, hcompile, ?_, ?_,
            readText_record hwrote, ?_, fun names => node?_of_elsewhere hwrote⟩
          · rintro rfl
            exact hstdout
          · rintro sheet rfl
            exact readText_sheet_iff hwrote hcompile
          · rintro rfl hname
            constructor
            · rintro sheet rfl
              obtain ⟨names, hplace⟩ := exists_place_sheet hwrote
              exact ⟨names, hplace, place?_record_beside hname hplace⟩
            · rintro rfl
              exact place?_record_set hname

theorem build_delivers_beside :
    let t : FileTree := ⟨["w"], [(["w", "a.csspp"], .file ".a\x7bb:c;texture:url(x)\x7d".toUTF8)]⟩
    let built := run files "/w" "now" ⟨none, false, .build "a.csspp" (some "d/e/../a.css") none⟩ t
    built.1.code = 0 ∧ ∃ compiled, compile true ".a\x7bb:c;texture:url(x)\x7d" = .ok compiled ∧
      built.2.readText "d/e/../a.css" = .ok compiled.css ∧
      built.2.place? "d/e/../a.css" = some ["w", "d", "a.css"] ∧
      built.2.place? "d/e/../csspp-assets.json" = some ["w", "d", "csspp-assets.json"] ∧
      built.2.readText "d/e/../csspp-assets.json" = .ok (Record.ofOutput "now" compiled).print := by
  intro t built
  have hcode : built.1.code = 0 := by decide +kernel
  have hload : (Settings.discover files none "/w" t).1.2 = .ok .default := by decide +kernel
  have hinput : t.readText "a.csspp" = .ok ".a\x7bb:c;texture:url(x)\x7d" := by decide +kernel
  have hplace : built.2.place? "d/e/../a.css" = some ["w", "d", "a.css"] := by decide +kernel
  have hrecord : recordPath .default (some "d/e/../a.css") none = "d/e/../csspp-assets.json" := by
    decide +kernel
  have hrun : run files "/w" "now" ⟨none, false, .build "a.csspp" (some "d/e/../a.css") none⟩ t =
      (built.1, built.2) := rfl
  generalize built.1 = outcome, built.2 = left at *
  obtain ⟨events, settings, source, compiled, hsettings, hread, hcompile, -, hsheet, htext, hbeside, -⟩ :=
    build_delivers hrun hcode
  rw [hsettings] at hload
  obtain rfl : settings = .default := Except.ok.inj hload
  obtain rfl := Except.ok.inj (hread.symm.trans hinput)
  obtain ⟨names, hnames, hstands⟩ := (hbeside rfl ⟨by decide, by decide, by decide, by decide⟩).1 _ rfl
  obtain rfl := Option.some.inj (hnames.symm.trans hplace)
  rw [hrecord] at hsheet htext hstands
  refine ⟨hcode, compiled, hcompile, (hsheet _ rfl).2 ?_, hplace, hstands, htext⟩
  rw [hplace, hstands]
  decide

/-- A build can end well and lose the sheet: where both paths are the same, and where they lead to one
file in different words. -/
theorem build_loses_sheet :
    let t : FileTree := ⟨["w"], [(["w", "a.csspp"], .file ".a\x7bb:c\x7d".toUTF8)]⟩
    let css := "/* Generated by csspp - do not edit */\n\n.a \x7b\n  b: c;\n\x7d\n\n"
    (compile true ".a\x7bb:c\x7d").map Output.css = .ok css ∧
    ∀ paths ∈ [("x", some "x"), ("d/../csspp-assets.json", none)],
      let built := run files "/w" "now" ⟨none, false, .build "a.csspp" (some paths.1) paths.2⟩ t
      built.1.code = 0 ∧ built.2.readText paths.1 ≠ .ok css := by
  decide +kernel

end Command

end RichStyle
