import RichStyle.Files

/-!
# File trees

A tree of directories and files in memory, with a working directory somewhere in it.  A path is
followed name by name, from the root if it starts with a slash and otherwise from the working
directory; every name before the last has to be a directory.
-/

namespace RichStyle

inductive Node where
  | directory
  | file (content : ByteArray)

instance : DecidableEq Node
  | .directory, .directory => isTrue rfl
  | .directory, .file _ => isFalse nofun
  | .file _, .directory => isFalse nofun
  | .file ⟨a⟩, .file ⟨b⟩ => decidable_of_iff (a = b) ⟨fun h => h ▸ rfl, fun h => by cases h; rfl⟩

/-- A tree: the names that lead from the root to its working directory, and what stands where. -/
structure FileTree where
  directory : List String
  nodes : List (List String × Node)

namespace FileTree

/--
What stands at a list of names from the root on.  All that leads to the working directory is a
directory.
-/
def node? (t : FileTree) (names : List String) : Option Node :=
  if names.isPrefixOf t.directory then some .directory else t.nodes.lookup names

def set (t : FileTree) (names : List String) (node : Node) : FileTree :=
  { t with nodes := (names, node) :: t.nodes.filter fun e => e.1 != names }

/-- Where a path leads: into a directory, and there to a name or to the directory itself. -/
structure Target where
  directory : List String
  name : Option String
  /-- Whether the path can only name a directory. -/
  asDirectory : Bool

/-- Follows names from a directory on.  Going up from the root leads to the root. -/
def follow (t : FileTree) (directory : List String) : List String → Except FileCause (List String)
  | [] => .ok directory
  | ".." :: names => t.follow directory.dropLast names
  | name :: names =>
      match t.node? (directory ++ [name]) with
      | some .directory => t.follow (directory ++ [name]) names
      | some (.file _) => .error .notDirectory
      | none => .error .notFound

def origin (t : FileTree) (path : String) : List String :=
  if Path.isAbsolute path then [] else t.directory

def target (t : FileTree) (path : String) : Except FileCause Target := do
  if path.isEmpty then .error .notFound
  else
    let names := Path.names path
    match names.getLast? with
    | none => .ok ⟨t.origin path, none, true⟩
    | some last =>
        -- such a path ends in a directory that has to be there
        if last = ".." || Path.endsWithDot path then
          .ok ⟨← t.follow (t.origin path) names, none, true⟩
        else
          .ok ⟨← t.follow (t.origin path) names.dropLast, some last, Path.endsWithSlash path⟩

def Target.names (target : Target) : List String :=
  target.directory ++ target.name.toList

def isDirectory (t : FileTree) (path : String) : Bool :=
  match t.target path with
  | .error _ => false
  | .ok target =>
      match t.node? target.names with
      | some .directory => true
      | _ => false

def content (t : FileTree) (path : String) : Except FileCause ByteArray := do
  let target ← t.target path
  match t.node? target.names with
  | none => .error .notFound
  | some .directory => .error .isDirectory
  | some (.file content) => if target.asDirectory then .error .notDirectory else .ok content

def readText (t : FileTree) (path : String) : Except FileCause String := do
  let content ← t.content path
  match String.fromUTF8? content with
  | some text => .ok text
  | none => .error .invalidText

def isFile (t : FileTree) (path : String) : Bool :=
  match t.content path with
  | .ok _ => true
  | .error _ => false

/-- The tree with a text in the file that a path leads to, which need not be there. -/
def writeText (t : FileTree) (path text : String) : Except FileCause FileTree := do
  let target ← t.target path
  if target.asDirectory then .error .isDirectory
  else
    match t.node? target.names with
    | some .directory => .error .isDirectory
    | _ => .ok (t.set target.names (.file text.toUTF8))

def createDir (t : FileTree) (path : String) : Except FileCause FileTree := do
  let target ← t.target path
  match t.node? target.names with
  | some _ => .error .exists
  | none => .ok (t.set target.names .directory)

/-- The tree with a new directory, if there is none yet. -/
def ensureDir (t : FileTree) (path : String) : Except FileCause FileTree :=
  match t.createDir path with
  | .ok made => .ok made
  -- what is in the way may be the directory itself
  | .error cause => if t.isDirectory path then .ok t else .error cause

/--
The tree with a directory and those that hold it, and what came of it.  The fuel bounds the number
of directories.
-/
def createDirsWithin : Nat → FileTree → String → Except FileCause Unit × FileTree
  | 0, t, _ => (.error .notFound, t)
  | fuel + 1, t, path =>
      if path.isEmpty then (.ok (), t)
      else
        match t.ensureDir path with
        | .ok made => (.ok (), made)
        -- the directory above is made first, and then this one is tried once more
        | .error .notFound =>
            match Path.parent? path with
            | none => (.error .notFound, t)
            | some directory =>
                match createDirsWithin fuel t directory with
                | (.error cause, left) => (.error cause, left)
                | (.ok (), left) =>
                    match left.ensureDir path with
                    | .ok made => (.ok (), made)
                    | .error cause => (.error cause, left)
        | .error cause => (.error cause, t)

/-- The tree with a directory and those that hold it.  A parent is shorter, so the fuel suffices. -/
def createDirs (t : FileTree) (path : String) : Except FileCause Unit × FileTree :=
  createDirsWithin (path.length + 1) t path

def files : Files (StateM FileTree) where
  readText path := fun t => (t.readText path, t)
  isFile path := fun t => (t.isFile path, t)
  createDirs path := fun t => t.createDirs path
  writeText path text := fun t =>
    match t.writeText path text with
    | .ok written => (.ok (), written)
    | .error cause => (.error cause, t)

def empty (directory : List String) : FileTree := ⟨directory, []⟩

def workingPath (t : FileTree) : String :=
  "/" ++ "/".intercalate t.directory

/-- Follows names from a directory on and makes the directories that are missing. -/
def addDirs (t : FileTree) (directory : List String) : List String → FileTree × List String
  | [] => (t, directory)
  | ".." :: names => t.addDirs directory.dropLast names
  | name :: names =>
      let next := directory ++ [name]
      let made := if (t.node? next).isSome then t else t.set next .directory
      made.addDirs next names

/-- Puts a node at a path, with the directories on the way. -/
def add (t : FileTree) (path : String) (node : Node) : FileTree :=
  let names := Path.names path
  match names.getLast? with
  | none => t
  | some ".." => (t.addDirs (t.origin path) names).1
  | some last =>
      let (made, directory) := t.addDirs (t.origin path) names.dropLast
      made.set (directory ++ [last]) node

/--
The files below the working directory that an earlier tree did not hold with the same content, with
their paths.
-/
def changes (before after : FileTree) : List (String × ByteArray) :=
  after.nodes.filterMap fun e =>
    match e.2, after.directory.isPrefixOf? e.1 with
    | .file content, some names =>
        if before.node? e.1 = some (.file content) then none
        else some ("/".intercalate names, content)
    | _, _ => none

end FileTree

end RichStyle
