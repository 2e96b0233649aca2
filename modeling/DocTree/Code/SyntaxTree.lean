import DocTree.Code.Node
import DocTree.Session

/-!
# Outlines of C and C++ files

The syntax trees of C and C++ files are given. An outline contracts the nodes whose types are not
kept, and runs of includes at the top become groups.
-/

namespace DocTree.Code

/-- A **syntax tree**: its type, its rows, its text, the trees below it, and some that are known by
a name. -/
inductive SyntaxTree where
  | mk (type : String) (first last : Int) (text : String) (children : List SyntaxTree)
      (fields : List (String × SyntaxTree))
deriving Inhabited

namespace SyntaxTree

def text : SyntaxTree → String
  | .mk _ _ _ text _ _ => text

def fieldText? (fields : List (String × SyntaxTree)) (name : String) : Option String :=
  (fields.lookup name).map text

/-- The kind of a tree of a type, below a node of a kind. A function below a class or structure is a
method. -/
def kindOf? (above : Option Kind) (type : String) : Option Kind :=
  if type = "function_definition" || type = "template_function" then
    if above = some .classDecl || above = some .structDecl then some .methodDecl
    else some .functionDecl
  else if type = "class_specifier" then some .classDecl
  else if type = "struct_specifier" then some .structDecl
  else if type = "namespace_definition" then some .namespaceDecl
  else if type = "preproc_include" then some .includeLine
  else none

/-- What a node of a kind is called, as far as the tree says. -/
def givenTitle (kind : Kind) (text : String) (fields : List (String × SyntaxTree)) : String :=
  match kind with
  | .functionDecl | .methodDecl => ((fieldText? fields "declarator").map (· ++ "()")).getD ""
  | .classDecl | .structDecl => (fieldText? fields "name").getD "<anonymous>"
  | .includeLine => Text.trim text
  | _ => (fieldText? fields "name").getD ""

/-- The title of a node; one that has no other is called by its kind. -/
def titleOf (kind : Kind) (text : String) (fields : List (String × SyntaxTree)) : String :=
  let title := givenTitle kind text fields
  if title.isEmpty then kind.text else title

mutual

/-- The nodes of a tree that are **kept**, below a node of a kind. -/
def contract (above : Option Kind) : SyntaxTree → List Node
  | .mk type first last text children fields =>
    match kindOf? above type with
    | some kind =>
      [.mk (titleOf kind text fields) kind (first + 1) (last + 1) []
        (contractAll (some kind) children)]
    | none => contractAll above children

def contractAll (above : Option Kind) : List SyntaxTree → List Node
  | [] => []
  | t :: rest => contract above t ++ contractAll above rest

end

end SyntaxTree

/-- An include as an import; its title begins with the word for it. -/
def includeAsImport : Node → Node
  | .mk title _ first last details children =>
    let title := if Text.startsWith title "#include" then title else "#include " ++ title
    .mk title .importLine first last details children

/-- Nodes with their runs of **includes in groups**; `run` is the run so far. -/
def groupIncludes (run : List Node) : List Node → List Node
  | [] => importGroup run
  | n :: rest =>
    if n.kind = .includeLine then groupIncludes (run ++ [includeAsImport n]) rest
    else importGroup run ++ n :: groupIncludes [] rest

/-- The nodes of a **tree**. -/
def SyntaxTree.outline (tree : SyntaxTree) : List Node :=
  groupIncludes [] (tree.contract none)

/-- The syntax tree of the next file that is parsed, if it has one, of those of all files in their
order. -/
def nextTree (trees : List (Option SyntaxTree)) : Run (Option SyntaxTree) := do
  let count := (← get).parses
  modify fun ledger => { ledger with parses := count + 1 }
  return (trees[count]?).join

/-- The nodes of a file in a **language**. Without a tree there are none, and a line is printed. -/
def nativeOutline (trees : List (Option SyntaxTree)) (language : Value) : Run (List Node) := do
  if language = .str "c" || language = .str "cpp" then
    match ← nextTree trees with
    | some tree => return tree.outline
    | none =>
      Run.printLine ("Error parsing " ++ language.display ++ " code: no parser")
      return []
  else return []

end DocTree.Code
