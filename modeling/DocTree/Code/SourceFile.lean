import DocTree.Code.JavaOutline
import DocTree.Code.KotlinOutline
import DocTree.Code.PythonOutline
import DocTree.Code.SyntaxTree
import DocTree.Files

/-!
# Source files

A source file becomes a node whose children are the nodes of its outline. The language is known
by the end of the file's name.
-/

namespace DocTree.Code

inductive Language where
  | java
  | kotlin
  | native
  | python
deriving DecidableEq

def nativeEndings : List String := [".c", ".h", ".cpp", ".hpp", ".cc", ".cxx"]

def sourceEndings : List String := [".py", ".java", ".kt"] ++ nativeEndings

/-- The language of a file by its **name**. -/
def Language.ofName? (name : String) : Option Language :=
  if Text.endsWith name ".java" then some .java
  else if Text.endsWith name ".kt" then some .kotlin
  else if Text.endsWithAny name nativeEndings then some .native
  else if Text.endsWith name ".py" then some .python
  else none

/-- What outlines need besides the text: files, syntax trees of C and C++ files, last imports, and a
reader of Java. -/
structure Surroundings where
  files : Files
  trees : List (Option SyntaxTree) := []
  lastImports : Kotlin.LastImports := {}
  readJava : Java.Reader := Java.readFile

/-- Whether a file of a name is read as C, or else as C++. -/
def nativeName (path : String) : Value :=
  let extension := String.ofList (Text.lowerList (Path.splitExtension path).2.toList)
  .str (if extension = ".c" || extension = ".h" then "c" else "cpp")

/-- The nodes of the **outline** of a source text. -/
def outline (around : Surroundings) (language : Language) (path source : String) :
    Run (List Value) :=
  match language with
  | .java => do return Node.values (← Java.outline around.readJava source)
  | .kotlin => do return (← Kotlin.outline around.lastImports source)
  | .native => do return Node.values (← nativeOutline around.trees (nativeName path))
  | .python => do return Node.values (← Python.outline source)

/-- The node of a **source text**. Only in Python files the lines of a node may be without an
end. -/
def fileNode (around : Surroundings) (language : Language) (path source : String) : Run Value := do
  let lines := Text.lines source
  let nodes ← outline around language path source
  let nodes ← addTexts (language ≠ .python) lines (.list nodes)
  return .object [("title", .str (Path.baseName path)), ("type", .str "file"),
    ("path", .str path), ("start_line", .int 1), ("end_line", .ofNat lines.length),
    ("text", .str source), ("nodes", nodes)]

/-- The tree of the **file** at a path, if its language is known and its text can be read. -/
def fileTree (around : Surroundings) (path : String) : Run (Option Value) :=
  match Language.ofName? path with
  | none => return none
  | some language =>
    match around.files.readText path with
    | .ok source => do return some (← fileNode around language path source)
    | .error _ => return none

end DocTree.Code
