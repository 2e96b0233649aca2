import DocTree.Code.JavaParser
import DocTree.Code.Node

/-!
# Outlines of Java files

The types of a file with their members, and its imports as one group. A method reaches to the line
after its last statement begins, and a type as far as its children. An enumeration has none.
-/

namespace DocTree.Java

open Code

/-- What the node of a declaration says besides its lines. -/
def About.details (about : About) : Fields :=
  [("docstring", (about.doc.map Value.str).getD .null), ("decorators", .ofTexts about.marks)]

/-- The signature of a method: its result, if it has one, its name and its parameters. -/
def Method.signature (m : Method) : String :=
  let parameters := m.parameters.map fun (type, name) => type ++ " " ++ name
  let result := (m.result.map (· ++ " ")).getD ""
  result ++ m.name ++ "(" ++ Text.join ", " parameters ++ ")"

/-- The last line of a method that begins on a line. -/
def Method.endLine (m : Method) (first : Nat) : Nat :=
  match m.lastLine with
  | some line => line + 1
  | none => first

def methodNode (m : Method) (about : About) : Node :=
  .mk (m.name ++ "()") .methodDecl about.line (m.endLine about.line)
    (("signature", .str m.signature) :: about.details) []

def TypeKind.nodeKind : TypeKind → Kind
  | .classType => .classDecl
  | .interfaceType => .interfaceDecl
  | .enumType => .enumDecl

/-- The node of a **type** with its children, which is as long as the farthest of them. -/
def typeNode (kind : TypeKind) (name : String) (about : About) (children : List Node) : Node :=
  let last := children.foldl (fun last child => max last child.last) (about.line : Int)
  .mk name kind.nodeKind about.line last about.details children

mutual

/-- The node of a declaration; what is neither a type nor a method has none. -/
def memberNode : Declaration → List Node
  | .type .enumType name about _ => [typeNode .enumType name about []]
  | .type kind name about members => [typeNode kind name about (memberNodes members)]
  | .method m about => [methodNode m about]
  | .other => []

def memberNodes : List Declaration → List Node
  | [] => []
  | d :: rest => memberNode d ++ memberNodes rest

end

def Import.title (i : Import) : String :=
  "import " ++ (if i.isStatic then "static " else "") ++ i.path ++
    (if i.isWildcard then ".*" else "")

/-- The nodes of a **file**. -/
def outlineOf (file : File) : List Node :=
  importGroup (file.imports.map fun i => importNode i.title i.line i.line) ++
    memberNodes file.types

/-! ### Source texts -/

/-- Why a source text is **no file**: it is rejected, which is tolerated, or reading it fails. -/
inductive ReadFault where
  | rejected
  | failure (why : Failure)
deriving DecidableEq

/-- A reader of source texts. -/
abbrev Reader := String → Except ReadFault File

/-- Reads a source text as a **file**. Only a bad token, or an end within its imports, is a failure.
-/
def readFile : Reader := fun source =>
  match tokens source with
  | .error .unreadable => .error (.failure .unreadableToken)
  | .error .notACharacter => .error (.failure (.complaint .notACharacter))
  | .error .brokenOff => .error .rejected
  | .ok tokens =>
    match file tokens with
    | .ok file => .ok file
    | .error .exhausted => .error (.failure .tokensExhausted)
    | .error _ => .error .rejected

/-- The nodes of a **source text**. One that is rejected has none. -/
def outline (read : Reader) (source : String) : Except Failure (List Node) :=
  match read source with
  | .ok file => .ok (outlineOf file)
  | .error .rejected => .ok []
  | .error (.failure why) => .error why

end DocTree.Java
