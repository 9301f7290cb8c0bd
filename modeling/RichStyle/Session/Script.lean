import RichStyle.Files.Tree
import RichStyle.Session

/-!
# Scripts of a build host

A script lists what a host does with a session.  While a module is being compiled other things may
happen: they are listed with it, and take place after the module has been read and before its values
are checked.  A request for the record that has to wait is made again when a compilation has ended.
-/

namespace RichStyle

namespace Session

inductive Step where
  | transform (id code : String) (during : Option (List Step))
  | hotUpdate (file : String)
  | writeBundle (directory : Option String) (bundle : List String)
  | look

inductive Outcome where
  | transformed (result : Transformed)
  | updated (isSource : Bool) (reloads : List String)
  | bundled (result : Bundled)
  | looked

structure View where
  merged : Assets × Counts
  phase : Phase
  retained : Nat

/-- What can be seen after a step: nothing of the session if the step had to wait. -/
inductive Report where
  | report (outcome : Outcome) (events : List Event) (view : Option View)
      (during : Option (List Report))

structure World where
  session : Session
  files : FileTree

def view (s : Session) : View :=
  ⟨s.merged, s.phase, s.modules.entries.length⟩

namespace World

/-- Asks for the record of all modules; no answer if the request has to wait. -/
def requestBundle (settings : Settings) (timestamp : String) (w : World)
    (directory : Option String) (bundle : List String) : Option (World × Bundled × List Event) :=
  match Session.requestBundle FileTree.files settings timestamp w.session directory bundle
      w.files with
  | (none, _) => none
  | (some (session, result, events), files) => some (⟨session, files⟩, result, events)

end World

/-- A report, or a request for the record that has to wait. -/
inductive Pending where
  | done (report : Report)
  | waiting (directory : Option String) (bundle : List String)

def Pending.report? : Pending → Option Report
  | done report => some report
  | waiting _ _ => none

/-- Makes the requests again that had to wait, and gives those that still have to. -/
def release (settings : Settings) (timestamp : String) :
    World → List Pending → World × List Report × List Pending
  | w, [] => (w, [], [])
  | w, .done report :: pending =>
      let (w, reports, left) := release settings timestamp w pending
      (w, report :: reports, left)
  | w, .waiting directory bundle :: pending =>
      match w.requestBundle settings timestamp directory bundle with
      | none =>
          let (w, reports, left) := release settings timestamp w pending
          (w, reports, .waiting directory bundle :: left)
      | some (w, result, events) =>
          let (w, reports, left) := release settings timestamp w pending
          (w, .report (.bundled result) events none none :: reports, left)

mutual

/-- Carries out a step: its report comes first, then the requests in it that have to wait. -/
def runStep (settings : Settings) (timestamp : String) (w : World) : Step → World × List Pending
  | .look => (w, [.done (.report .looked [] (some w.session.view) none)])
  | .hotUpdate file =>
      let (session, isSource, events) := w.session.hotUpdate settings file
      let reloads := if isSource then [file] else []
      (⟨session, w.files⟩,
        [.done (.report (.updated isSource reloads) events (some session.view) none)])
  | .writeBundle directory bundle =>
      match w.requestBundle settings timestamp directory bundle with
      | none => (w, [.waiting directory bundle])
      | some (w, result, events) =>
          (w, [.done (.report (.bundled result) events (some w.session.view) none)])
  | .transform id code none =>
      if settings.owns id then
        let (ticket, session) := w.session.begin id
        let result := compile settings.banner code
        let (session, outcome, events) := session.conclude ticket id result
        let w := ⟨session, w.files⟩
        (w, [.done (.report (.transformed outcome)
          (readingEvents code ++ compiledEvents result ++ events) (some session.view) none)])
      else (w, [.done (.report (.transformed .none) [] (some w.session.view) none)])
  | .transform id code (some during) =>
      if settings.owns id then
        let (ticket, session) := w.session.begin id
        -- a source that cannot be read fails before anything else can happen
        let isRead :=
          match Analysis.ofSource code with
          | .ok _ => true
          | .error _ => false
        let (w, pending) :=
          if isRead then runSteps settings timestamp ⟨session, w.files⟩ during
          else (⟨session, w.files⟩, [])
        let result := compile settings.banner code
        let (session, outcome, events) := w.session.conclude ticket id result
        let (w, reports, left) := release settings timestamp ⟨session, w.files⟩ pending
        (w, .done (.report (.transformed outcome)
          (readingEvents code ++ compiledEvents result ++ events) (some w.session.view)
          (some reports)) :: left)
      else (w, [.done (.report (.transformed .none) [] (some w.session.view) (some []))])

def runSteps (settings : Settings) (timestamp : String) (w : World) :
    List Step → World × List Pending
  | [] => (w, [])
  | step :: steps =>
      let (w, first) := runStep settings timestamp w step
      let (w, pending) := runSteps settings timestamp w steps
      (w, first ++ pending)

end

/-- Carries out a script.  A request that is never answered has no report. -/
def runScript (settings : Settings) (timestamp : String) (w : World) (steps : List Step) :
    World × List Report :=
  let (w, pending) := runSteps settings timestamp w steps
  (w, pending.filterMap Pending.report?)

end Session

end RichStyle
