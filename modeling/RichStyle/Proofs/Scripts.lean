import RichStyle.Proofs.Hosting
import RichStyle.Session.Script

/-!
# Scripts as runs of a host

In a script, what happens during a compilation is listed inside its step; a host makes one move after
the other.  Every script takes its session and its files where some moves take them, each request
finding the files as the one before it left them.  So what holds after every run of a host holds after
every script.
-/

namespace RichStyle

namespace Session

/-! ## Moves over one tree of files -/

/-- Moves of a host whose requests find and leave one tree of files. -/
inductive Trace (settings : Settings) (timestamp : String) :
    Course → FileTree → List (Move FileTree) → Course → FileTree → Prop
  | nil {c : Course} {files : FileTree} : Trace settings timestamp c files [] c files
  | act {c d e : Course} {files left : FileTree} {action : Action} {moves : List (Move FileTree)}
      (hstep : c.step settings action = some d)
      (hrest : Trace settings timestamp d files moves e left) :
      Trace settings timestamp c files (.act action :: moves) e left
  | request {c d e : Course} {files left : FileTree} {moves : List (Move FileTree)}
      (directory : Option String) (bundle : List String)
      (hmove : c.move FileTree.files settings (.request timestamp directory bundle files) = some d)
      (hrest : Trace settings timestamp d
        (c.session.requestBundle FileTree.files settings timestamp directory bundle files).2
        moves e left) :
      Trace settings timestamp c files (.request timestamp directory bundle files :: moves) e left

section Trace

variable {settings : Settings} {timestamp : String} {c d e : Course} {files between left : FileTree}
  {moves more : List (Move FileTree)}

theorem Trace.foldlM (h : Trace settings timestamp c files moves d left) :
    moves.foldlM (Course.move FileTree.files settings) c = some d := by
  induction h with
  | nil => rfl
  | act hstep _ ih =>
      rw [List.foldlM_cons, Course.move, hstep]
      exact ih
  | request directory bundle hmove _ ih =>
      rw [List.foldlM_cons, hmove]
      exact ih

theorem Trace.append (h : Trace settings timestamp c files moves d between)
    (hmore : Trace settings timestamp d between more e left) :
    Trace settings timestamp c files (moves ++ more) e left := by
  induction h with
  | nil => exact hmore
  | act hstep _ ih => exact .act hstep (ih hmore)
  | request directory bundle hmove _ ih => exact .request directory bundle hmove (ih hmore)

end Trace

/--
From a course and some files a host comes to the session and the files of a world, and leaves the
compilations that are going on as they are.
-/
def Course.Comes (settings : Settings) (timestamp : String) (c : Course) (files : FileTree)
    (w : World) : Prop :=
  ∃ moves d, Trace settings timestamp c files moves d w.files ∧ d.session = w.session ∧
    d.going = c.going ∧ c.clock ≤ d.clock

/-- The places of compilations that are going on lie in the past. -/
def Course.Dated (c : Course) : Prop :=
  ∀ g ∈ c.going, g.place < c.clock

section Script

variable {settings : Settings} {timestamp : String} {c : Course} {w : World}

/-! ## Coming to a world -/

theorem Course.comes_here (hc : c.session = w.session) : c.Comes settings timestamp w.files w :=
  ⟨[], c, .nil, hc, rfl, Nat.le_refl _⟩

theorem Course.Comes.trans {files : FileTree} {v : World} (h : c.Comes settings timestamp files w)
    (hdated : c.Dated)
    (hlater : ∀ d : Course, d.session = w.session → d.Dated → d.Comes settings timestamp w.files v) :
    c.Comes settings timestamp files v := by
  obtain ⟨moves, d, htrace, hsession, hgoing, hclock⟩ := h
  have hd : d.Dated := fun g hg => Nat.lt_of_lt_of_le (hdated g (hgoing ▸ hg)) hclock
  obtain ⟨more, e, hmore, hsession', hgoing', hclock'⟩ := hlater d hsession hd
  exact ⟨moves ++ more, e, htrace.append hmore, hsession', hgoing'.trans hgoing,
    Nat.le_trans hclock hclock'⟩

theorem Course.comes_hotUpdate (hc : c.session = w.session) (file : String) :
    c.Comes settings timestamp w.files ⟨(w.session.hotUpdate settings file).1, w.files⟩ :=
  ⟨[.act (.hotUpdate file)], _, .act rfl .nil, by rw [hc], rfl, Nat.le_succ _⟩

/-- The world that a request leaves; one that has to wait changes nothing. -/
def World.afterRequest (settings : Settings) (timestamp : String) (w : World)
    (directory : Option String) (bundle : List String) : World :=
  match w.requestBundle settings timestamp directory bundle with
  | none => w
  | some (later, _, _) => later

theorem Course.comes_request (hc : c.session = w.session) (directory : Option String)
    (bundle : List String) :
    c.Comes settings timestamp w.files (w.afterRequest settings timestamp directory bundle) := by
  let next : Course :=
    ⟨(w.afterRequest settings timestamp directory bundle).session, c.going, c.clock + 1⟩
  have hmove : c.move FileTree.files settings (.request timestamp directory bundle w.files) =
        some next ∧
      (c.session.requestBundle FileTree.files settings timestamp directory bundle w.files).2 =
        (w.afterRequest settings timestamp directory bundle).files := by
    unfold next move World.afterRequest World.requestBundle
    simp only [hc]
    by_cases hbusy : 0 < w.session.inFlight
    · simp [requestBundle_of_busy FileTree.files settings timestamp directory bundle w.files hbusy]
    · have hfree : w.session.inFlight = 0 := by omega
      simp [requestBundle_of_free FileTree.files settings timestamp directory bundle w.files hfree]
  refine ⟨[.request timestamp directory bundle w.files], next, .request directory bundle hmove.1 ?_,
    rfl, rfl, Nat.le_succ _⟩
  rw [hmove.2]
  exact .nil

theorem Course.comes_release (pending : List Pending) (hc : c.session = w.session)
    (hdated : c.Dated) :
    c.Comes settings timestamp w.files (release settings timestamp w pending).1 := by
  induction pending generalizing c w with
  | nil => exact comes_here hc
  | cons p pending ih =>
      cases p with
      | done report => exact ih hc hdated
      | waiting directory bundle =>
          have hworld : (release settings timestamp w (.waiting directory bundle :: pending)).1 =
              (release settings timestamp (w.afterRequest settings timestamp directory bundle)
                pending).1 := by
            rw [release, World.afterRequest]
            cases w.requestBundle settings timestamp directory bundle <;> rfl
          rw [hworld]
          exact (comes_request hc directory bundle).trans hdated fun _ => ih

/-- A compilation begins, the host comes to another world, and the compilation ends there. -/
theorem Course.comes_transform {id : String} {v : World} (result : Except CompileError Output)
    (howns : settings.owns id = true) (hc : c.session = w.session) (hdated : c.Dated)
    (hduring : ∀ d : Course, d.session = (w.session.begin id).2 → d.Dated →
      d.Comes settings timestamp w.files v) :
    c.Comes settings timestamp w.files
      ⟨(v.session.conclude (w.session.begin id).1 id result).1, v.files⟩ := by
  let g : Going := ⟨c.clock, id, (w.session.begin id).1⟩
  let begun : Course := ⟨(w.session.begin id).2, g :: c.going, c.clock + 1⟩
  have hbegin : c.step settings (.begin id) = some begun := by
    rw [step, if_pos howns, hc]
  have hbegun : begun.Dated :=
    List.forall_mem_cons.2 ⟨Nat.lt_succ_self _, fun e he => Nat.lt_succ_of_lt (hdated e he)⟩
  obtain ⟨moves, d, htrace, hsession, hgoing, hclock⟩ := hduring begun rfl hbegun
  -- the compilation is found by its place, and no other one has this place
  have hfind : d.find? c.clock = some g := by
    rw [find?, hgoing]
    exact List.find?_cons_of_pos (beq_self_eq_true _)
  have hothers : (g :: c.going).filter (·.place ≠ c.clock) = c.going := by
    rw [List.filter_cons_of_neg (by simp [g]), List.filter_eq_self]
    exact fun e he => by simpa using Nat.ne_of_lt (hdated e he)
  let ended : Course := ⟨(v.session.conclude g.ticket id result).1, c.going, d.clock + 1⟩
  have hconclude : d.step settings (.conclude c.clock result) = some ended := by
    rw [step, hfind, hgoing, hsession]
    exact congrArg (fun going => some (Course.mk _ going _)) hothers
  refine ⟨.act (.begin id) :: (moves ++ [.act (.conclude c.clock result)]), ended,
    .act hbegin (htrace.append (.act hconclude .nil)), rfl, rfl, ?_⟩
  have hlater : c.clock + 1 ≤ d.clock := hclock
  exact Nat.le_succ_of_le (Nat.le_of_succ_le hlater)

/-- The same, and requests that had to wait are made again. -/
theorem Course.comes_transform_release {id : String} {v : World}
    (result : Except CompileError Output) (pending : List Pending) (howns : settings.owns id = true)
    (hc : c.session = w.session) (hdated : c.Dated)
    (hduring : ∀ d : Course, d.session = (w.session.begin id).2 → d.Dated →
      d.Comes settings timestamp w.files v) :
    c.Comes settings timestamp w.files (release settings timestamp
      ⟨(v.session.conclude (w.session.begin id).1 id result).1, v.files⟩ pending).1 :=
  (comes_transform result howns hc hdated hduring).trans hdated fun _ hd hlater =>
    comes_release pending hd hlater

/-! ## Scripts -/

mutual

theorem comes_runStep (step : Step) {c : Course} {w : World} (hc : c.session = w.session)
    (hdated : c.Dated) :
    c.Comes settings timestamp w.files (runStep settings timestamp w step).1 := by
  cases step with
  | look => exact Course.comes_here hc
  | hotUpdate file => exact Course.comes_hotUpdate hc file
  | writeBundle directory bundle =>
      have hworld : (runStep settings timestamp w (.writeBundle directory bundle)).1 =
          w.afterRequest settings timestamp directory bundle := by
        rw [runStep, World.afterRequest]
        cases w.requestBundle settings timestamp directory bundle <;> rfl
      rw [hworld]
      exact Course.comes_request hc directory bundle
  | transform id code during =>
      by_cases howns : settings.owns id = true
      · cases during with
        | none =>
            rw [runStep, if_pos howns]
            exact Course.comes_transform _ howns hc hdated fun d hd _ =>
              Course.comes_here (w := ⟨(w.session.begin id).2, w.files⟩) hd
        | some during =>
            rw [runStep, if_pos howns]
            let begun : World := ⟨(w.session.begin id).2, w.files⟩
            -- nothing happens during a compilation whose source cannot be read
            cases Analysis.ofSource code with
            | error e =>
                exact Course.comes_transform_release _ [] howns hc hdated
                  fun d hd _ => Course.comes_here (w := begun) hd
            | ok analysis =>
                exact Course.comes_transform_release _ (runSteps settings timestamp begun during).2
                  howns hc hdated fun d hd hlater => comes_runSteps during (w := begun) hd hlater
      · cases during with
        | none =>
            rw [runStep, if_neg howns]
            exact Course.comes_here hc
        | some during =>
            rw [runStep, if_neg howns]
            exact Course.comes_here hc

theorem comes_runSteps (steps : List Step) {c : Course} {w : World} (hc : c.session = w.session)
    (hdated : c.Dated) :
    c.Comes settings timestamp w.files (runSteps settings timestamp w steps).1 := by
  cases steps with
  | nil => exact Course.comes_here hc
  | cons step steps =>
      rw [runSteps]
      exact (comes_runStep step hc hdated).trans hdated fun d hd hlater =>
        comes_runSteps steps hd hlater

end

/-- Every script takes a new session and its files where some moves of a host take them. -/
theorem runScript_trace (settings : Settings) (timestamp : String) (files : FileTree)
    (steps : List Step) :
    ∃ moves c, Trace settings timestamp .start files moves c
        (runScript settings timestamp ⟨.start, files⟩ steps).1.files ∧
      c.session = (runScript settings timestamp ⟨.start, files⟩ steps).1.session ∧
      c.going = [] := by
  have hdated : Course.Dated .start := by simp [Course.Dated, Course.start]
  have hcomes : Course.start.Comes settings timestamp files
      (runSteps settings timestamp ⟨.start, files⟩ steps).1 :=
    comes_runSteps steps (w := ⟨.start, files⟩) rfl hdated
  obtain ⟨moves, c, htrace, hsession, hgoing, -⟩ := hcomes
  exact ⟨moves, c, htrace, hsession, hgoing⟩

/-- The session of a script is the session of a host, and no compilation is going on in the end. -/
theorem exists_host_runScript (settings : Settings) (timestamp : String) (files : FileTree)
    (steps : List Step) :
    ∃ moves c, Course.host FileTree.files settings moves = some c ∧
      c.session = (runScript settings timestamp ⟨.start, files⟩ steps).1.session ∧
      c.going = [] := by
  obtain ⟨moves, c, htrace, hsession, hgoing⟩ := runScript_trace settings timestamp files steps
  exact ⟨moves, c, htrace.foldlM, hsession, hgoing⟩

/-- After a script nothing is in flight, and the invariants of a host's session hold. -/
theorem runScript_settled (settings : Settings) (timestamp : String) (files : FileTree)
    (steps : List Step) :
    let s := (runScript settings timestamp ⟨.start, files⟩ steps).1.session
    s.inFlight = 0 ∧ InPhase s ∧ Numbered s := by
  intro s
  obtain ⟨moves, c, hhost, hsession, hgoing⟩ := exists_host_runScript settings timestamp files steps
  have hcounted := (tickets_host hhost).counted
  rw [hgoing] at hcounted
  have hs : c.session = s := hsession
  rw [← hs]
  exact ⟨hcounted, inPhase_host hhost, numbered_host hhost⟩

end Script

end Session

end RichStyle
