import DocTree.Failure
import DocTree.Path

/-!
# Files and directories

A tree of files in which texts are read. The entries of a directory are kept in the order of
their names.
-/

namespace DocTree

/-- A **file**, known by its text if its bytes are one, or a **directory** with named entries. -/
inductive Entry where
  | file (text : Option String)
  | directory (entries : List (String × Entry))

namespace Entry

def entries : Entry → List (String × Entry)
  | .file _ => []
  | .directory entries => entries

def isDirectory : Entry → Bool
  | .file _ => false
  | .directory _ => true

/-- Entries in which the one of a name is set, in the order of names. -/
def setEntry (name : String) (entry : Entry) : List (String × Entry) → List (String × Entry)
  | [] => [(name, entry)]
  | (n, e) :: rest =>
    if n = name then (name, entry) :: rest
    else if name < n then (name, entry) :: (n, e) :: rest
    else (n, e) :: setEntry name entry rest

/-- A directory with an entry at a path. Missing directories are made. An empty last component makes
a directory only. -/
def insert (entry : Entry) : List String → Entry → Entry
  | [], _ => entry
  | [""], found => .directory found.entries
  | name :: rest, found =>
    let below := (found.entries.lookup name).getD (.directory [])
    .directory (setEntry name (insert entry rest below) found.entries)

mutual

/-- An entry **in order**: entries in it are in the order of their names. Of several with one name
the first counts. -/
def sorted : Entry → Entry
  | .file text => .file text
  | .directory entries => .directory (sortedEntries entries)

/-- Entries in the order of their names, and what is in them in order as well. -/
def sortedEntries : List (String × Entry) → List (String × Entry)
  | [] => []
  | (name, entry) :: rest => setEntry name (sorted entry) (sortedEntries rest)

end

end Entry

/-- A **working directory** and its path from the root on. -/
structure Files where
  home : String
  top : Entry

namespace Files

/-- What components lead to from the last of some directories, the others being those above
it. -/
def walk : List Entry → List String → Except Failure Entry
  | [], _ => .error .fileNotFound
  | here :: _, [] => .ok here
  | .file _ :: _, _ :: _ => .error .notDirectory
  | .directory entries :: above, name :: rest =>
    if name.isEmpty || name = "." then walk (.directory entries :: above) rest
    else if name = ".." then walk above rest
    else
      match entries.lookup name with
      | some entry => walk (entry :: .directory entries :: above) rest
      | none => .error .fileNotFound

/-- The components of a path after those of the working directory. -/
def componentsBelow : List String → List String → Option (List String)
  | [], path => some path
  | _ :: _, [] => none
  | h :: home, p :: path => if h = p then componentsBelow home path else none

/-- What a **path leads to**. Outside the working directory there is nothing. -/
def find (files : Files) (path : String) : Except Failure Entry :=
  if path.isEmpty then .error .fileNotFound
  else if Text.startsWith path "/" then
    match componentsBelow (Path.components files.home) (Path.components path) with
    | some below => walk [files.top] below
    | none => .error .fileNotFound
  else walk [files.top] (Path.components path)

def isFile (files : Files) (path : String) : Bool :=
  match files.find path with
  | .ok (.file _) => true
  | _ => false

def isDirectory (files : Files) (path : String) : Bool :=
  match files.find path with
  | .ok (.directory _) => true
  | _ => false

def uniform (text : String) : String := String.ofList (Text.unifyLineEnds text.toList)

/-- The **text** of a file, with uniform line ends. -/
def readText (files : Files) (path : String) : Except Failure String := do
  match ← files.find path with
  | .file (some text) => return uniform text
  | .file none => throw .undecodable
  | .directory _ => throw .isDirectory

def list (files : Files) (path : String) : Except Failure (List (String × Entry)) := do
  match ← files.find path with
  | .file _ => throw .notDirectory
  | .directory entries => return entries

/-- The files with a **text written** to a path below the working directory. -/
def write (files : Files) (path text : String) : Files :=
  let steps := (Path.components path).filter fun name => name ≠ "" ∧ name ≠ "."
  { files with top := Entry.insert (.file (some text)) steps files.top }

def absolute (files : Files) (path : String) : String := Path.absolute files.home path

end Files

end DocTree
