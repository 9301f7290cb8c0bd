import RichStyle.Proofs.Files
import RichStyle.Proofs.Hosting
import RichStyle.Proofs.Records

/-!
# Asking for the record

A request for the record waits as long as a compilation is in flight.  Once it is answered, the
record that can be read from the file is the one of the modules at that moment, and the session has
not changed, whatever happened to the files.
-/

namespace RichStyle

namespace Session

variable {σ : Type}

/-- Where the record is written. -/
def bundlePath (settings : Settings) (directory : Option String) : String :=
  Path.join (directory.getD settings.outDir) settings.assetFileName

/-- What may come of a request for the record of `s`, and how it leaves the files. -/
inductive Delivered (files : Files (StateM σ)) (settings : Settings) (timestamp : String)
    (s : Session) (directory : Option String) (found : σ) : Bundled → σ → Prop where
  /-- Without modules no file is touched. -/
  | none (hmodules : s.modules.entries = []) :
      Delivered files settings timestamp s directory found .none found
  /-- The file holds a text from which the assets and counts of all modules can be read. -/
  | written {text : String} {left : σ} (hmodules : s.modules.entries ≠ [])
      (hcontent : (files.readText (bundlePath settings directory) left).1 = .ok text)
      (hrecord : Record.read text = .ok ⟨Record.formatVersion, timestamp, s.merged.1, s.merged.2⟩) :
      Delivered files settings timestamp s directory found
        (.written (bundlePath settings directory) text) left
  /-- The directory could not be made, or the file could not be written. -/
  | failed {e : FileError} {left : σ} (hmodules : s.modules.entries ≠ [])
      (herror : files.WritesIn (directory.getD settings.outDir) (bundlePath settings directory)
        (s.record timestamp).print found (.error e) left) :
      Delivered files settings timestamp s directory found (.failed e) left

/--
Every request made of `asked` is answered with the record of `s`, and leaves `s` with nothing
changed but its phase.
-/
def Answers (files : Files (StateM σ)) (settings : Settings) (s asked : Session) : Prop :=
  ∀ timestamp directory bundle found, ∃ result events left,
    asked.requestBundle files settings timestamp directory bundle found =
        (some ({ s with phase := .idle }, result, events), left) ∧
      Delivered files settings timestamp s directory found result left

section Requests

variable {files : Files (StateM σ)} {settings : Settings} {s : Session}

theorem writeBundle_delivers (hfiles : files.Faithful) (timestamp : String) (s : Session)
    (phase : Phase) (directory : Option String) (bundle : List String) (found : σ) :
    ∃ result events left,
      writeBundle files settings timestamp { s with phase := phase } directory bundle found =
          (({ s with phase := .idle }, result, events), left) ∧
        Delivered files settings timestamp s directory found result left := by
  by_cases hmodules : s.modules.entries = []
  · refine ⟨.none, [], found, ?_, .none hmodules⟩
    have hempty : s.modules.isEmpty = true := List.isEmpty_iff.2 hmodules
    rw [writeBundle, if_pos hempty]
    rfl
  · have hempty : s.modules.isEmpty = false := by simpa [Table.isEmpty] using hmodules
    have hwrites := files.writesIn (directory.getD settings.outDir) (bundlePath settings directory)
      (s.record timestamp).print found
    cases hwrite : files.writeIn (directory.getD settings.outDir) (bundlePath settings directory)
        (s.record timestamp).print found with
    | mk outcome left =>
        rw [hwrite] at hwrites
        simp only [bundlePath, record, merged] at hwrite
        simp only [writeBundle, hempty, Bool.false_eq_true, if_false, bind, StateT.bind, gather,
          record, merged, hwrite, settle]
        cases outcome with
        | error e => exact ⟨_, _, _, rfl, .failed hmodules hwrites⟩
        | ok =>
            refine ⟨_, _, _, rfl, .written hmodules ?_ (Record.read_print _)⟩
            cases hwrites with
            | written hmake hwrite => exact hfiles hwrite

theorem answers_of_free (hfiles : files.Faithful) (h : s.inFlight = 0) (phase : Phase) :
    Answers files settings s { s with phase := phase } := by
  intro timestamp directory bundle found
  obtain ⟨result, events, left, hwrite, hdelivered⟩ :=
    writeBundle_delivers hfiles timestamp s phase directory bundle found
  refine ⟨result, events, left, ?_, hdelivered⟩
  rw [requestBundle_of_free, hwrite]
  exact h

end Requests

/-- What a host can rely on when it asks for the record after some moves. -/
structure Barrier (files : Files (StateM σ)) (settings : Settings) (moves : List (Move σ))
    (s : Session) : Prop where
  /-- As long as some compilation has not ended, a request waits and touches no file. -/
  waits : ∀ i, OpenAt moves i → ∀ timestamp directory bundle found,
    s.requestBundle files settings timestamp directory bundle found = (none, found)
  /-- As soon as all have ended, it is answered. -/
  answers : (∀ i, ¬ OpenAt moves i) → Answers files settings s s
  /-- The session that it leaves, whether it failed or not, still answers with the same record. -/
  again : (∀ i, ¬ OpenAt moves i) → Answers files settings s { s with phase := .idle }

/-- After every run of a host, a request for the record waits for what is in flight. -/
theorem host_barrier {files : Files (StateM σ)} {settings : Settings} {moves : List (Move σ)}
    {c : Course} (hfiles : files.Faithful) (h : Course.host files settings moves = some c) :
    Barrier files settings moves c.session := by
  have htickets := tickets_host h
  refine ⟨?_, ?_, ?_⟩
  · intro i hi timestamp directory bundle found
    apply requestBundle_of_busy
    apply Nat.pos_of_ne_zero
    intro hzero
    exact htickets.inFlight_eq_zero_iff.1 hzero i hi
  · intro hnone
    exact answers_of_free hfiles (htickets.inFlight_eq_zero_iff.2 hnone) c.session.phase
  · intro hnone
    exact answers_of_free hfiles (htickets.inFlight_eq_zero_iff.2 hnone) .idle

/--
A file stands where the directory should be, so a request fails; the next one, on other files,
delivers the record.
-/
theorem host_barrier_retry :
    let output : Output := ⟨"", .empty, [], ⟨1, 0, 0⟩⟩
    let moves : List (Move FileTree) := [.act (.begin "a.csspp"), .act (.conclude 0 (.ok output))]
    let blocked : FileTree := (FileTree.empty []).add "dist" (.file .empty)
    ∃ c, Course.host FileTree.files .default moves = some c ∧
      Barrier FileTree.files .default moves c.session ∧
      (match (c.session.requestBundle FileTree.files .default "now" none [] blocked).1 with
        | some (after, .failed e, _) =>
            match (after.requestBundle FileTree.files .default "now" none [] (.empty [])).1 with
            | some (_, .written path _, _) => some (e, path)
            | _ => none
        | _ => none) = some (⟨"dist", .exists⟩, "dist/csspp-assets.json") := by
  intro output moves blocked
  have hhost : (Course.host FileTree.files .default moves).map
      (fun c => match (c.session.requestBundle FileTree.files .default "now" none [] blocked).1 with
        | some (after, .failed e, _) =>
            match (after.requestBundle FileTree.files .default "now" none [] (.empty [])).1 with
            | some (_, .written path _, _) => some (e, path)
            | _ => none
        | _ => none) = some (some (⟨"dist", .exists⟩, "dist/csspp-assets.json")) := by
    decide +kernel
  obtain ⟨c, hc, hseen⟩ := Option.map_eq_some_iff.1 hhost
  exact ⟨c, hc, host_barrier FileTree.faithful_files hc, hseen⟩

end Session

end RichStyle
