import DocTree.Value.Arith

/-!
# Nodes of source files

What is found in a source file: declarations with the lines they take up, nested as in the
source, and the imports of the file, gathered in groups.
-/

namespace DocTree.Code

inductive Kind where
  | importGroup
  | importLine
  | includeLine
  | classDecl
  | structDecl
  | interfaceDecl
  | objectDecl
  | enumDecl
  | namespaceDecl
  | functionDecl
  | methodDecl
deriving DecidableEq

def Kind.text : Kind → String
  | .importGroup => "imports"
  | .importLine => "import"
  | .includeLine => "include"
  | .classDecl => "class"
  | .structDecl => "struct"
  | .interfaceDecl => "interface"
  | .objectDecl => "object"
  | .enumDecl => "enum"
  | .namespaceDecl => "namespace"
  | .functionDecl => "function"
  | .methodDecl => "method"

/-- A **node**: its title, kind, first and last line, further details, and the nodes below it. -/
inductive Node where
  | mk (title : String) (kind : Kind) (first last : Int) (details : Fields)
      (children : List Node)

namespace Node

def title : Node → String
  | .mk title _ _ _ _ _ => title

def kind : Node → Kind
  | .mk _ kind _ _ _ _ => kind

def first : Node → Int
  | .mk _ _ first _ _ _ => first

def last : Node → Int
  | .mk _ _ _ last _ _ => last

def children : Node → List Node
  | .mk _ _ _ _ _ children => children

/-- The fields of a node before its children. -/
def ownFields (title : String) (kind : Kind) (first last : Int) (details : Fields) : Fields :=
  [("title", .str title), ("type", .str kind.text), ("start_line", .int first),
    ("end_line", .int last)] ++ details

mutual

/-- A node as a **value**. -/
def value : Node → Value
  | .mk title kind first last details children =>
    .object (ownFields title kind first last details ++ [("nodes", .list (values children))])

def values : List Node → List Value
  | [] => []
  | n :: rest => value n :: values rest

end

end Node

def importNode (title : String) (first last : Int) : Node :=
  .mk title .importLine first last [] []

/-- Consecutive imports as **one node**; none if there are no imports. -/
def importGroup : List Node → List Node
  | [] => []
  | first :: rest =>
    let last := (rest.getLast?).getD first
    [.mk "Imports" .importGroup first.first last.last [] (first :: rest)]

/-! ### Source texts -/

/-- The end of the lines of a node. If `clipped` is set, it is held within the file and not missing.
-/
def endOf (clipped : Bool) (count : Nat) (last : Value) : Except Failure Int := do
  if clipped then
    if ← Value.less (.int count) last then return count else last.integer
  else if last.isNull then return count
  else last.integer

def textOf (clipped : Bool) (lines : List String) (node : Value) : Except Failure String := do
  let first ← (← node.field "start_line").sub (.int 1)
  let last ← endOf clipped lines.length (← node.field "end_line")
  return Text.join "\n" (Value.sliceList lines (← first.integer) last)

mutual

/-- A node with the **source text** of its lines, and those below it with theirs. -/
def addText (clipped : Bool) (lines : List String) : Value → Except Failure Value
  | .object fields => do
    let text ← textOf clipped lines (.object fields)
    let fields ← addTextBelow clipped lines fields
    return .object (Fields.set fields "text" (.str text))
  | _ => .error .wrongKind

def addTextList (clipped : Bool) (lines : List String) :
    List Value → Except Failure (List Value)
  | [] => .ok []
  | v :: rest => do
    let v ← addText clipped lines v
    return v :: (← addTextList clipped lines rest)

def addTextBelow (clipped : Bool) (lines : List String) :
    List (String × Value) → Except Failure (List (String × Value))
  | [] => .ok []
  | (k, v) :: rest => do
    if k = "nodes" then return (k, ← addTexts clipped lines v) :: rest
    else return (k, v) :: (← addTextBelow clipped lines rest)

def addTexts (clipped : Bool) (lines : List String) : Value → Except Failure Value
  | .list items => do return .list (← addTextList clipped lines items)
  | .object fields => if fields.isEmpty then .ok (.object fields) else .error .wrongKind
  | .str s => if s.isEmpty then .ok (.str s) else .error .wrongKind
  | _ => .error .wrongKind

end

end DocTree.Code
