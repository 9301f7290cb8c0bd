/-!
# Files

Paths, and what a program may do with the files that they name.
-/

namespace RichStyle

/-!
## Paths

A path is a string of names with slashes between them.  Empty names and names that are a single dot
do not count, except for a dot at the start.
-/

namespace Path

/-- A reversed path without slashes and single dots at its end. -/
def trimTail : List Char → List Char
  | '/' :: s => trimTail s
  | '.' :: '/' :: s => trimTail s
  | s => s

/-- The path of the directory that holds a path's last name; the root and nothing have none. -/
def parent? (path : String) : Option String :=
  let last := trimTail path.toList.reverse
  if last.isEmpty then none
  else
    match last.dropWhile (· ≠ '/') with
    | [] => some ""
    | before =>
        let rest := trimTail before
        some (if rest.isEmpty then "/" else String.ofList rest.reverse)

def isAbsolute (path : String) : Bool :=
  path.toList.head? == some '/'

/-- A path inside a directory; one that starts at the root stands for itself. -/
def join (directory path : String) : String :=
  if isAbsolute path then path
  else if directory.isEmpty || directory.toList.getLast? = some '/' then directory ++ path
  else directory ++ "/" ++ path

def splitNames : List Char → List (List Char)
  | [] => [[]]
  | c :: s =>
      if c = '/' then [] :: splitNames s
      else
        match splitNames s with
        | [] => [[c]]
        | name :: names => (c :: name) :: names

/-- The names of a path that count. -/
def names (path : String) : List String :=
  ((splitNames path.toList).filter fun n => !n.isEmpty && n != ['.']).map String.ofList

def endsWithSlash (path : String) : Bool :=
  path.toList.getLast? == some '/'

/-- Whether the last name of a path, counted or not, is a single dot. -/
def endsWithDot (path : String) : Bool :=
  match path.toList.reverse.dropWhile (· = '/') with
  | ['.'] => true
  | '.' :: '/' :: _ => true
  | _ => false

end Path

/-!
## Access to files

`Files` is what a program may do with files, whatever they are kept in.  A failure names the path
and the cause.
-/

inductive FileCause where
  | notFound
  | exists
  | notDirectory
  | isDirectory
  | invalidText
  /-- Any other cause, in the words of the system. -/
  | other (text : String)
deriving DecidableEq

def FileCause.message : FileCause → String
  | notFound => "No such file or directory (os error 2)"
  | .exists => "File exists (os error 17)"
  | notDirectory => "Not a directory (os error 20)"
  | isDirectory => "Is a directory (os error 21)"
  | invalidText => "stream did not contain valid UTF-8"
  | other text => text

structure FileError where
  path : String
  cause : FileCause
deriving DecidableEq

def FileError.message (e : FileError) : String :=
  "failed to access '" ++ e.path ++ "': " ++ e.cause.message

structure Files (m : Type → Type) where
  readText : String → m (Except FileCause String)
  isFile : String → m Bool
  /-- Makes a directory and those that hold it. -/
  createDirs : String → m (Except FileCause Unit)
  /-- Makes a file with a text, or gives a file another text. -/
  writeText : String → String → m (Except FileCause Unit)

namespace Files

variable {m : Type → Type} [Monad m]

def read (files : Files m) (path : String) : m (Except FileError String) := do
  match ← files.readText path with
  | .ok text => return .ok text
  | .error cause => return .error ⟨path, cause⟩

def write (files : Files m) (path text : String) : m (Except FileError Unit) := do
  match ← files.writeText path text with
  | .ok () => return .ok ()
  | .error cause => return .error ⟨path, cause⟩

/-- Writes a file in a directory that is made first. -/
def writeIn (files : Files m) (directory path text : String) : m (Except FileError Unit) := do
  match ← files.createDirs directory with
  | .error cause => return .error ⟨directory, cause⟩
  | .ok () => files.write path text

/-- Writes a file; the directory that the path names is made first. -/
def writeNew (files : Files m) (path text : String) : m (Except FileError Unit) :=
  match Path.parent? path with
  | none => files.write path text
  | some directory =>
      if directory.isEmpty then files.write path text
      else files.writeIn directory path text

/-- Writes files one after the other, up to the first that fails. -/
def writeAll (files : Files m) : List (String × String) → m (Except FileError Unit)
  | [] => return .ok ()
  | entry :: entries => do
      match ← files.writeNew entry.1 entry.2 with
      | .error e => return .error e
      | .ok () => files.writeAll entries

end Files

end RichStyle
