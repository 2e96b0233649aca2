import DocTree.Code.Node
import DocTree.Code.PythonParser
import DocTree.Code.PythonPrinter

/-!
# Outlines of Python files

The classes and functions of a module with signatures, descriptions and decorators, and its imports
in groups. Definitions in the blocks of other statements are not shown.
-/

namespace DocTree.Python

open Code

def ofPoints (points : List Nat) : String := String.ofList (points.map Char.ofNat)

/-- The **text at the beginning** of a body. -/
def docstring : List Statement → Value
  | .expression (.constant (.text _ points)) :: _ => .str (ofPoints points)
  | _ => .null

/-- The decorators that are names, members or calls. -/
def decorators : List Expr → Except Failure (List String)
  | [] => .ok []
  | .name id :: rest => do return ("@" ++ id) :: (← decorators rest)
  | .member value name :: rest => do
    let text ← Print.text (.member value name)
    return ("@" ++ text) :: (← decorators rest)
  | .call function arguments keywords :: rest => do
    let text ← Print.text (.call function arguments keywords)
    return ("@" ++ text) :: (← decorators rest)
  | _ :: rest => decorators rest

def details (all : List Expr) (body : List Statement) : Except Failure Fields := do
  return [("docstring", docstring body), ("decorators", .ofTexts (← decorators all))]

mutual

/-- The node of a **definition**; other statements have none. A function in the body of a class
is a method. -/
def definition (inClass : Bool) : Statement → Except Failure (Option Node)
  | .classDef lines head body => do
    let details ← details head.decorators body
    let children ← definitions true body
    return some (.mk head.name .classDecl lines.first lines.last details children)
  | .functionDef lines head body => do
    let signature ← Print.signature head
    let details ← details head.decorators body
    let children ← definitions false body
    let kind := if inClass then .methodDecl else .functionDecl
    return some (.mk (head.name ++ "()") kind lines.first lines.last
      (("signature", .str signature) :: details) children)
  | _ => .ok none

def definitions (inClass : Bool) : List Statement → Except Failure (List Node)
  | [] => .ok []
  | s :: rest => do
    let node ← definition inClass s
    return node.toList ++ (← definitions inClass rest)

end

/-- The node of an import; other statements have none. -/
def importNode? : Statement → Option Node
  | .importModules lines names =>
    some (importNode (Print.importModules names) lines.first lines.last)
  | .importFrom lines level source names =>
    some (importNode (Print.importFrom level source names) lines.first lines.last)
  | _ => none

/-- The nodes of the statements of a module, after the imports `pending`. -/
def outlineFrom (pending : List Node) : List Statement → Except Failure (List Node)
  | [] => .ok (importGroup pending)
  | s :: rest =>
    match importNode? s with
    | some node => outlineFrom (pending ++ [node]) rest
    | none => do
      let node ← definition false s
      return importGroup pending ++ node.toList ++ (← outlineFrom [] rest)

/-- The nodes of a **module**. -/
def outlineOf (body : List Statement) : Except Failure (List Node) := outlineFrom [] body

/-- The nodes of a **source text**. -/
def outline (source : String) : Except Failure (List Node) :=
  if source.toList.contains (Char.ofNat 0) then .ok []
  else
    match parseModule? source with
    | some body => outlineOf body
    | none => .ok []

end DocTree.Python
