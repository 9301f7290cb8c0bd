import RichStyle.Command.Run
import RichStyle.Proofs.Files
import RichStyle.Proofs.Lowering

/-!
# What commands do to a tree of files

Both commands load settings, read a file and compile or check it; all this leaves the files as they are.
Only a build that has compiled its source writes, first the sheet and then the record.
-/

namespace RichStyle

/-! ## Reading changes nothing -/

section State

variable {σ α β : Type}

/-- A computation that leaves the state as it is. -/
def KeepsState (x : StateM σ α) : Prop :=
  ∀ t, (x t).2 = t

theorem KeepsState.pure (a : α) : KeepsState (Pure.pure a : StateM σ α) := fun _ => rfl

theorem KeepsState.bind {x : StateM σ α} {f : α → StateM σ β} (hx : KeepsState x)
    (hf : ∀ a, KeepsState (f a)) : KeepsState (x >>= f) := by
  intro t
  have hstate : (x >>= f) t = f (x t).1 (x t).2 := rfl
  rw [hstate, hf, hx]

end State

namespace FileTree

theorem read_eq (path : String) (t : FileTree) :
    files.read path t = ((t.readText path).mapError (FileError.mk path), t) := by
  simp only [Files.read, bind, StateT.bind, files]
  cases t.readText path <;> rfl

theorem keepsState_load (path : String) : KeepsState (Settings.load files path) := by
  refine .bind (fun t => by rw [read_eq]) fun result => ?_
  cases result with
  | error e => exact .pure _
  | ok text =>
      simp only
      split
      · exact .pure _
      · exact .pure _

theorem keepsState_discover (config : Option String) (directory : String) :
    KeepsState (Settings.discover files config directory) := by
  cases config with
  | some path => exact (keepsState_load path).bind fun _ => .pure _
  | none =>
      refine .bind (fun t => rfl) fun found => ?_
      split
      · exact (keepsState_load _).bind fun _ => .pure _
      · exact .pure _

end FileTree

namespace Command

open FileTree (files)

/-! ## What comes before writing -/

/-- How far a command gets with a file before anything is written, and what it has told by then: to a
failure, or to the settings and the compiled source. -/
inductive Attempts (t : FileTree) (directory : String) (config : Option String) (input : String) :
    List Event → Except Failure (Settings × Output) → Prop where
  | noSettings {events : List Event} {e : SettingsError}
      (hsettings : Settings.discover files config directory t = ((events, .error e), t)) :
      Attempts t directory config input events (.error (.settings e))
  | noInput {events : List Event} {settings : Settings} {cause : FileCause}
      (hsettings : Settings.discover files config directory t = ((events, .ok settings), t))
      (hread : t.readText input = .error cause) :
      Attempts t directory config input events (.error (.file ⟨input, cause⟩))
  | refused {events : List Event} {settings : Settings} {source : String} {e : CompileError}
      (hsettings : Settings.discover files config directory t = ((events, .ok settings), t))
      (hread : t.readText input = .ok source) (hcompile : compile settings.banner source = .error e) :
      Attempts t directory config input (events ++ readingEvents source) (.error (.compile e))
  | compiled {events : List Event} {settings : Settings} {source : String} {output : Output}
      (hsettings : Settings.discover files config directory t = ((events, .ok settings), t))
      (hread : t.readText input = .ok source)
      (hcompile : compile settings.banner source = .ok output) :
      Attempts t directory config input (events ++ readingEvents source) (.ok (settings, output))

theorem exists_attempts (t : FileTree) (directory : String) (config : Option String)
    (input : String) : ∃ events result, Attempts t directory config input events result := by
  have hstate := FileTree.keepsState_discover config directory t
  cases hsettings : Settings.discover files config directory t with
  | mk found left =>
      obtain ⟨events, loaded⟩ := found
      rw [hsettings] at hstate
      obtain rfl : left = t := hstate
      cases loaded with
      | error e => exact ⟨events, _, .noSettings hsettings⟩
      | ok settings =>
          cases hread : left.readText input with
          | error cause => exact ⟨events, _, .noInput hsettings hread⟩
          | ok source =>
              cases hcompile : compile settings.banner source with
              | error e => exact ⟨_, _, .refused hsettings hread hcompile⟩
              | ok output => exact ⟨_, _, .compiled hsettings hread hcompile⟩

section Runs

variable {t : FileTree} {directory input : String} {config : Option String} {events : List Event}
  {result : Except Failure (Settings × Output)} (timestamp : String) (verbose : Bool) (action : Action)

theorem run_of_noSettings {e : SettingsError}
    (hsettings : Settings.discover files config directory t = ((events, .error e), t)) :
    run files directory timestamp ⟨config, verbose, action⟩ t =
      (.failed "" events (.settings e), t) := by
  simp only [run, bind, StateT.bind, hsettings]
  rfl

theorem run_of_noInput {settings : Settings} {cause : FileCause}
    (hsettings : Settings.discover files config directory t = ((events, .ok settings), t))
    (hread : t.readText (inputOf action) = .error cause) :
    run files directory timestamp ⟨config, verbose, action⟩ t =
      (.failed "" events (.file ⟨inputOf action, cause⟩), t) := by
  simp only [run, bind, StateT.bind, hsettings, FileTree.read_eq, hread, Except.mapError]
  rfl

theorem run_of_source {settings : Settings} {source : String}
    (hsettings : Settings.discover files config directory t = ((events, .ok settings), t))
    (hread : t.readText (inputOf action) = .ok source) :
    run files directory timestamp ⟨config, verbose, action⟩ t =
      ((perform files settings timestamp action source t).1.after events,
        (perform files settings timestamp action source t).2) := by
  simp only [run, bind, StateT.bind, hsettings, FileTree.read_eq, hread, Except.mapError]
  rfl

/-! ## Checks -/

/-- A check finds no errors exactly if the source compiles. -/
theorem check_code_iff (banner : Bool) (input source : String) :
    (check input source).code = 0 ↔ ∃ output, compile banner source = .ok output := by
  cases hread : Sheet.read source.toList with
  | error malformed =>
      rw [check, check_of_malformed hread, compile_of_malformed banner hread]
      simp [Outcome.failed]
  | ok reading =>
      rw [check, check_of_read hread, compile_of_read banner hread]
      simp only
      cases herrors : Diagnostic.hasErrors (Analysis.ofReading reading).diagnostics with
      | false =>
          obtain ⟨plain, -, houtput⟩ :=
            Analysis.output_of_errorFree banner (Diagnostic.hasErrors_eq_false_iff.1 herrors)
          simp [houtput]
      | true =>
          rw [Analysis.output_of_error banner (List.any_eq_true.1 herrors)]
          simp

/-- A check changes nothing, and it ends well exactly if the source compiles. -/
theorem run_check (h : Attempts t directory config input events result) :
    (run files directory timestamp ⟨config, verbose, .check input⟩ t).2 = t ∧
      ((run files directory timestamp ⟨config, verbose, .check input⟩ t).1.code = 0 ↔
        ∃ settings output, result = .ok (settings, output)) := by
  cases h with
  | noSettings hsettings =>
      rw [run_of_noSettings timestamp verbose (.check input) hsettings]
      simp [Outcome.failed]
  | noInput hsettings hread =>
      rw [run_of_noInput timestamp verbose (.check input) hsettings hread]
      simp [Outcome.failed]
  | @refused events settings source e hsettings hread hcompile =>
      have hcode := check_code_iff settings.banner input source
      rw [hcompile] at hcode
      rw [run_of_source timestamp verbose (.check input) hsettings hread]
      exact ⟨rfl, hcode.trans (by simp)⟩
  | @compiled events settings source output hsettings hread hcompile =>
      have hcode := check_code_iff settings.banner input source
      rw [hcompile] at hcode
      rw [run_of_source timestamp verbose (.check input) hsettings hread]
      exact ⟨rfl, hcode.trans (by simp)⟩

/-! ## Builds -/

variable (output assets : Option String)

/-- A build that fails before it writes anything prints nothing and changes nothing. -/
theorem run_build_of_error {failure : Failure}
    (h : Attempts t directory config input events (.error failure)) :
    run files directory timestamp ⟨config, verbose, .build input output assets⟩ t =
      (.failed "" events failure, t) := by
  cases h with
  | noSettings hsettings =>
      exact run_of_noSettings timestamp verbose (.build input output assets) hsettings
  | noInput hsettings hread =>
      exact run_of_noInput timestamp verbose (.build input output assets) hsettings hread
  | @refused events settings source e hsettings hread hcompile =>
      have hbuild : build files settings timestamp input output assets source t =
          (.failed "" (readingEvents source) (.compile e), t) := by
        simp only [build, hcompile, compiledEvents, List.append_nil]
        rfl
      rw [run_of_source timestamp verbose (.build input output assets) hsettings hread, perform, hbuild]
      rfl

/-- What a build has told about a compiled source when it starts to write. -/
def compiledLog (input source : String) (compiled : Output) : List Event :=
  readingEvents source ++ compiledEvents (.ok compiled) ++
    compiled.warnings.map (Event.inputWarning input)

theorem mem_compiledLog (input source : String) (compiled : Output) :
    .sourceCompiled compiled.counts.rules compiled.counts.warnings ∈
      compiledLog input source compiled := by
  simp [compiledLog, compiledEvents]

section Compiled

variable {settings : Settings} {source : String} {compiled : Output} {left : FileTree}
  (hcompile : compile settings.banner source = .ok compiled)
include hcompile

theorem build_of_unwritten {e : FileError}
    (hwrite : files.writeAll (buildFiles settings timestamp output assets compiled) t =
      (.error e, left)) :
    build files settings timestamp input output assets source t =
      (.failed (if output.isSome then "" else compiled.css) (compiledLog input source compiled)
        (.file e), left) := by
  simp only [build, hcompile, bind, StateT.bind, hwrite]
  rfl

theorem build_of_written
    (hwrite : files.writeAll (buildFiles settings timestamp output assets compiled) t =
      (.ok (), left)) :
    build files settings timestamp input output assets source t =
      (⟨0, if output.isSome then "" else compiled.css,
        compiledLog input source compiled ++ [.inputCompiled input compiled.counts.rules
          compiled.counts.warnings (recordPath settings output assets)], none⟩, left) := by
  simp only [build, hcompile, bind, StateT.bind, hwrite]
  rfl

end Compiled

/-- Otherwise it tells that the source is compiled and writes its files, and it ends well exactly if
all of them could be written. -/
theorem run_build_of_ok {settings : Settings} {compiled : Output}
    (h : Attempts t directory config input events (.ok (settings, compiled))) :
    ∃ outcome written left,
      run files directory timestamp ⟨config, verbose, .build input output assets⟩ t = (outcome, left) ∧
      files.writeAll (buildFiles settings timestamp output assets compiled) t = (written, left) ∧
      (outcome.code = 0 ↔ written = .ok ()) ∧
      outcome.stdout = (if output.isSome then "" else compiled.css) ∧
      .sourceCompiled compiled.counts.rules compiled.counts.warnings ∈ outcome.events := by
  cases h with
  | @compiled events _ source _ hsettings hread hcompile =>
      have htold := mem_compiledLog input source compiled
      rw [run_of_source timestamp verbose (.build input output assets) hsettings hread, perform]
      cases hwrite : files.writeAll (buildFiles settings timestamp output assets compiled) t with
      | mk written left =>
          cases written with
          | error e =>
              rw [build_of_unwritten timestamp output assets hcompile hwrite]
              refine ⟨_, _, _, rfl, rfl, by simp [Outcome.after, Outcome.failed], rfl, ?_⟩
              exact List.mem_append_right _ htold
          | ok =>
              rw [build_of_written timestamp output assets hcompile hwrite]
              refine ⟨_, _, _, rfl, rfl, by simp [Outcome.after], rfl, ?_⟩
              exact List.mem_append_right _ (List.mem_append_left _ htold)

/-! ## What is told -/

/-- Finding settings tells at most where they were found. -/
theorem settingsFound_of_discover {loaded : Except SettingsError Settings}
    (h : Settings.discover files config directory t = ((events, loaded), t)) :
    ∀ e ∈ events, ∃ path, e = .settingsFound path := by
  have hevents : events = (Settings.discover files config directory t).1.1 := by rw [h]
  rw [hevents]
  cases config with
  | some path =>
      intro e hmem
      cases hmem
  | none =>
      simp only [Settings.discover, bind, StateT.bind, files]
      cases t.isFile (Path.join directory Settings.fileName) with
      | true =>
          intro e hmem
          exact ⟨_, List.mem_singleton.1 hmem⟩
      | false =>
          intro e hmem
          cases hmem

theorem not_mem_readingEvents (source : String) (rules warnings : UInt64) :
    .sourceCompiled rules warnings ∉ readingEvents source := by
  unfold readingEvents
  simp only
  split
  · simp
  · split
    · simp
    · simp

/-- A command that fails before it writes anything has not told that the source is compiled. -/
theorem not_mem_of_error {failure : Failure}
    (h : Attempts t directory config input events (.error failure)) (rules warnings : UInt64) :
    .sourceCompiled rules warnings ∉ events := by
  have hdiscover {events : List Event} {loaded : Except SettingsError Settings}
      (h : Settings.discover files config directory t = ((events, loaded), t)) :
      .sourceCompiled rules warnings ∉ events := by
    intro hmem
    obtain ⟨path, hpath⟩ := settingsFound_of_discover h _ hmem
    cases hpath
  cases h with
  | noSettings hsettings => exact hdiscover hsettings
  | noInput hsettings hread => exact hdiscover hsettings
  | @refused events settings source e hsettings hread hcompile =>
      rw [List.mem_append, not_or]
      exact ⟨hdiscover hsettings, not_mem_readingEvents source rules warnings⟩

end Runs

/-- A check leaves all files and directories as they are.  It ends with code 0 exactly if the settings
can be loaded, the file can be read and its text compiles, and also exactly if a build with the same
settings tells that the source is compiled.  If one of the three fails, such a build ends with code 1,
prints nothing and leaves all files and directories as they are. -/
theorem check_predicts_build (t : FileTree) (directory : String) (config : Option String)
    (verbose : Bool) (input timestamp later : String) (output assets : Option String) :
    let checked := run files directory timestamp ⟨config, verbose, .check input⟩ t
    let built := run files directory later ⟨config, verbose, .build input output assets⟩ t
    checked.2 = t ∧
    (checked.1.code = 0 ↔
      ∃ events settings compiled, Attempts t directory config input events (.ok (settings, compiled))) ∧
    (checked.1.code = 0 ↔ ∃ rules warnings, .sourceCompiled rules warnings ∈ built.1.events) ∧
    ∀ events failure, Attempts t directory config input events (.error failure) →
      built.1.code = 1 ∧ built.1.stdout = "" ∧ built.1.failure = some failure ∧ built.2 = t := by
  intro checked built
  have hfailed {events : List Event} {failure : Failure}
      (h : Attempts t directory config input events (.error failure)) :
      built = (.failed "" events failure, t) :=
    run_build_of_error later verbose output assets h
  -- both commands get to the same result before either of them does something of its own
  obtain ⟨events, result, h⟩ := exists_attempts t directory config input
  obtain ⟨hunchanged, hcode⟩ := run_check timestamp verbose h
  refine ⟨hunchanged, ⟨fun hzero => ?_, ?_⟩, hcode.trans ?_, fun events failure h => ?_⟩
  · obtain ⟨settings, compiled, rfl⟩ := hcode.1 hzero
    exact ⟨events, settings, compiled, h⟩
  · rintro ⟨events, settings, compiled, h⟩
    exact (run_check timestamp verbose h).2.2 ⟨settings, compiled, rfl⟩
  · cases result with
    | error failure =>
        have htold := not_mem_of_error h
        rw [hfailed h]
        simpa [Outcome.failed] using htold
    | ok done =>
        obtain ⟨settings, compiled⟩ := done
        obtain ⟨outcome, written, left, hbuilt, -, -, -, htold⟩ :=
          run_build_of_ok later verbose output assets h
        have hevents : built.1.events = outcome.events := congrArg (fun b => b.1.events) hbuilt
        exact ⟨fun _ => ⟨_, _, hevents ▸ htold⟩, fun _ => ⟨settings, compiled, rfl⟩⟩
  · rw [hfailed h]
    exact ⟨rfl, rfl, rfl, rfl⟩

theorem check_predicts_build_refused :
    let t : FileTree := ⟨["w"], [(["w", "a.csspp"], .file ".a\x7bdepth:x\x7d".toUTF8),
      (["w", "c.json"], .file "\x7b\"banner\":false\x7d".toUTF8)]⟩
    let depth := (Finding.invalidValue "depth" "x").reportedFor ".a" "depth" ⟨1, 4⟩
    let built := run files "/w" "" ⟨some "c.json", false, .build "a.csspp" (some "d/a.css") none⟩ t
    built.1.code = 1 ∧ built.1.stdout = "" ∧ built.1.failure = some (.compile (.invalid [depth])) ∧
      built.2 = t := by
  intro t depth built
  have hload : (Settings.load files "c.json" t).1 =
      .ok ⟨".csspp", "csspp-assets.json", "dist", false⟩ := by
    decide +kernel
  have hsettings : Settings.discover files (some "c.json") "/w" t =
      (([], .ok ⟨".csspp", "csspp-assets.json", "dist", false⟩), t) :=
    Prod.ext (congrArg (Prod.mk []) hload) (FileTree.keepsState_discover _ _ t)
  have hread : t.readText "a.csspp" = .ok ".a\x7bdepth:x\x7d" := by decide +kernel
  have hcompile : compile false ".a\x7bdepth:x\x7d" = .error (.invalid [depth]) := by decide +kernel
  have hattempt : Attempts t "/w" (some "c.json") "a.csspp" _ (.error (.compile (.invalid [depth]))) :=
    .refused hsettings hread hcompile
  exact (check_predicts_build t _ _ false _ "" "" (some "d/a.css") none).2.2.2 _ _ hattempt

end Command

end RichStyle
