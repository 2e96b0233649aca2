import DocTree.Code.SourceFile
import DocTree.Code.Thin

/-!
# Directories of source files

A directory becomes a node over those of its directories in which there are source files, and its
source files. Hidden entries and what is built or installed are left out.
-/

namespace DocTree.Code

/-- The names of directories that hold no sources. -/
def installedNames : List String :=
  ["__pycache__", "node_modules", "venv", ".venv", "env", ".env"]

def ignoredNames : List String := installedNames ++ [".git", "target", "build", "out"]

def isIgnored (name : String) : Bool := Text.startsWith name "." || ignoredNames.contains name

/-- The node of a source file in a directory; there is none if its text cannot be read. -/
def entryNode (around : Surroundings) (path : String) : Option String → Run (Option Value)
  | none => return none
  | some text =>
    match Language.ofName? path with
    | none => return none
    | some language => do return some (← fileNode around language path (Files.uniform text))

def fileNodes (around : Surroundings) (path : String) : List (String × Entry) → Run (List Value)
  | [] => return []
  | (name, .file text) :: rest => do
    let here ← if isIgnored name || !Text.endsWithAny name sourceEndings then pure none
      else entryNode around (Path.join path name) text
    return here.toList ++ (← fileNodes around path rest)
  | (_, .directory _) :: rest => fileNodes around path rest

mutual

/-- The node of a **directory**; a file has none. -/
def directoryNode (around : Surroundings) (path : String) : Entry → Run (Option Value)
  | .file _ => return none
  | .directory entries => do
    let directories ← directoryNodes around path entries
    let files ← fileNodes around path entries
    return some (.object [("title", .str (Path.baseName (Path.normalize path))),
      ("type", .str "directory"), ("path", .str path), ("nodes", .list (directories ++ files))])

/-- The nodes of the directories among entries in which there are source files. -/
def directoryNodes (around : Surroundings) (path : String) :
    List (String × Entry) → Run (List Value)
  | [] => return []
  | (name, entry) :: rest => do
    let here ← if isIgnored name then pure none
      else directoryNode around (Path.join path name) entry
    let kept ← here.toList.filterM fun node => do return (← hasFiles node)
    return kept ++ (← directoryNodes around path rest)

end

/-- The tree of the **directory** at a path, with everything in it in the order of names. -/
def directoryTree (around : Surroundings) (path : String) : Run (Option Value) := do
  let entries ← around.files.list path
  directoryNode around path (Entry.directory entries).sorted

mutual

def pythonFilesIn (path : String) : Entry → List String
  | .file _ => if Text.endsWith path ".py" then [path] else []
  | .directory entries => pythonFilesAmong path entries

/-- The paths of the Python files among entries, but for those that are left out. -/
def pythonFilesAmong (path : String) : List (String × Entry) → List String
  | [] => []
  | (name, entry) :: rest =>
    let isLeftOut := entry.isDirectory &&
      (Text.startsWith name "." || installedNames.contains name)
    (if isLeftOut then [] else pythonFilesIn (Path.join path name) entry) ++
      pythonFilesAmong path rest

end

/-- The paths of the **Python files** below a path, in order. -/
def pythonFiles (files : Files) (path : String) : List String :=
  match files.list path with
  | .ok entries => (pythonFilesAmong path entries).mergeSort fun a b => !(b < a)
  | .error _ => []

end DocTree.Code
