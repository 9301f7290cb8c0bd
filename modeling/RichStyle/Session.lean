import RichStyle.Files
import RichStyle.Log
import RichStyle.Record
import RichStyle.Settings

/-!
# Sessions

A build host compiles modules one by one, perhaps several at a time, tells when a file has changed,
and asks for the record of all modules at the end.  A session keeps the assets of each module that
has been compiled.  A compilation holds a ticket; if its file changes before it finishes, its result
is discarded.

The compilations in flight, the changes of a file and the modules that have finished are counted
without a limit: no session goes through as many as `2 ^ 64` steps.
-/

namespace RichStyle

inductive Phase where
  | idle
  | transforming
  | bundling
deriving DecidableEq

structure Retained where
  assets : Assets
  counts : Counts
  seq : Nat
deriving DecidableEq

structure Session where
  phase : Phase
  /-- The number of compilations that have begun and not ended. -/
  inFlight : Nat
  /-- The modules that have been compiled since the last change. -/
  modules : Table Retained
  /-- How often each file has changed. -/
  generations : Table Nat
  nextSeq : Nat
deriving DecidableEq

/-- The right to finish a compilation, as long as its file does not change. -/
structure Ticket where
  key : String
  generation : Nat
deriving DecidableEq

namespace Session

def start : Session := ⟨.idle, 0, .empty, .empty, 0⟩

def generation (s : Session) (key : String) : Nat :=
  (s.generations.get? key).getD 0

def begin (s : Session) (id : String) : Ticket × Session :=
  let key := Settings.moduleKey id
  (⟨key, s.generation key⟩, { s with phase := .transforming, inFlight := s.inFlight + 1 })

/-- Ends a compilation without a result. -/
def abandon (s : Session) : Session :=
  { s with inFlight := s.inFlight - 1 }

def isStale (s : Session) (ticket : Ticket) : Bool :=
  s.generation ticket.key != ticket.generation

/-- Keeps the result of a module as the last one so far. -/
def retain (s : Session) (key : String) (assets : Assets) (counts : Counts) : Session :=
  { s with modules := s.modules.insert key ⟨assets, counts, s.nextSeq⟩, nextSeq := s.nextSeq + 1 }

/-- Ends a compilation; its result is kept unless the ticket is stale. -/
def finish (s : Session) (ticket : Ticket) (assets : Assets) (counts : Counts) : Session :=
  let ended := s.abandon
  if s.isStale ticket then ended else ended.retain ticket.key assets counts

/-- A file has changed: nothing that was kept counts any more. -/
def change (s : Session) (file : String) : Session :=
  let key := Settings.moduleKey file
  { s with modules := .empty, generations := s.generations.insert key (s.generation key + 1) }

def inOrder (modules : List Retained) : List Retained :=
  modules.mergeSort fun a b => a.seq ≤ b.seq

/-- Merges modules in the order in which they finished; the last one to bind a selector wins. -/
def mergeModules (modules : List Retained) : Assets × Counts :=
  (inOrder modules).foldl (fun acc r => (acc.1.merge r.assets, acc.2.add r.counts))
    (.empty, .zero)

def merged (s : Session) : Assets × Counts :=
  mergeModules (s.modules.entries.map Prod.snd)

def record (s : Session) (timestamp : String) : Record :=
  .stamped timestamp s.merged.1 s.merged.2

inductive Transformed where
  /-- The module is not a source file, or its file changed in the meantime. -/
  | none
  | module (code : String)
  | failed (error : CompileError)

def moduleCode (css : String) : String :=
  String.ofList ("export default ".toList ++ Json.quote css.toList ++ [';'])

/-- Ends a compilation: the session, what came of it, and the events. -/
def conclude (s : Session) (ticket : Ticket) (id : String)
    (result : Except CompileError Output) : Session × Transformed × List Event :=
  match result with
  | .error e => (s.abandon, .failed e, [])
  | .ok output =>
      let warned := output.warnings.map (Event.moduleWarning id)
      let ended := s.finish ticket output.assets output.counts
      -- a stale result is discarded, and its warnings are told all the same
      if s.isStale ticket then (ended, .none, warned ++ [.moduleStale id])
      else (ended, .module (moduleCode output.css), warned)

/-- A file has changed: whether it is a source file, and the events. -/
def hotUpdate (settings : Settings) (s : Session) (file : String) :
    Session × Bool × List Event :=
  if settings.owns file then (s.change file, true, [.moduleChanged file]) else (s, false, [])

def gather (s : Session) : Session :=
  { s with phase := .bundling }

def settle (s : Session) : Session :=
  { s with phase := .idle }

inductive Bundled where
  /-- No module has been compiled. -/
  | none
  | written (path text : String)
  | failed (error : FileError)

/-- Writes the record of all modules, unless there are none. -/
def writeBundle {m : Type → Type} [Monad m] (files : Files m) (settings : Settings)
    (timestamp : String) (s : Session) (directory : Option String) (bundle : List String) :
    m (Session × Bundled × List Event) := do
  if s.modules.isEmpty then
    return (s.settle, .none, [])
  else
    let s := s.gather
    let started := Event.bundleStarted s.modules.entries.length bundle.length
    let directory := directory.getD settings.outDir
    let path := Path.join directory settings.assetFileName
    let text := (s.record timestamp).print
    match ← files.writeIn directory path text with
    | .error e => return (s.settle, .failed e, [started])
    | .ok () => return (s.settle, .written path text, [started, .bundleWritten path])

/--
Asks for the record of all modules.  As long as a compilation is in flight there is no answer: the
request has to wait and to be made again.
-/
def requestBundle {m : Type → Type} [Monad m] (files : Files m) (settings : Settings)
    (timestamp : String) (s : Session) (directory : Option String) (bundle : List String) :
    m (Option (Session × Bundled × List Event)) := do
  if 0 < s.inFlight then return none
  else return some (← s.writeBundle files settings timestamp directory bundle)

end Session

end RichStyle
