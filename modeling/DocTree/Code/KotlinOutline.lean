import DocTree.Code.KotlinLine
import DocTree.Forest

/-!
# Outlines of Kotlin files

A declaration is open until a later line takes the balance of braces back to what it was before its
own brace. Imports are gathered until other code is met.
-/

namespace DocTree.Kotlin

open Code

/-- A declaration that is **open**: its place, the balance at which it ends, and whether it is a
type. -/
structure Scope where
  index : Nat
  base : Int
  isType : Bool

/-- What is known after some lines: the balance, the open declarations, the imports since other code
was met, and the entries with their parents. -/
structure Tracker where
  balance : Int := 0
  scopes : List Scope := []
  imports : List Node := []
  entries : List (Option Nat × Node) := []

namespace Tracker

/-- The imports gathered so far become an entry. -/
def flush (t : Tracker) : Tracker :=
  { t with
    imports := []
    entries := t.entries ++ (importGroup t.imports).map fun node => (none, node) }

/-- An entry that ends on a line. -/
def endOn (line : Nat) : Option Nat × Node → Option Nat × Node
  | (parent, .mk title kind first _ details children) =>
    (parent, .mk title kind first line details children)

/-- Closes, on a line, the open declarations at whose end a balance is. -/
def closeAt (line : Nat) (balance : Int) :
    List Scope → List (Option Nat × Node) → List Scope × List (Option Nat × Node)
  | [], entries => ([], entries)
  | s :: rest, entries =>
    if balance ≤ s.base then closeAt line balance rest (entries.modify s.index (endOn line))
    else (s :: rest, entries)

/-- Changes the balance on a line and closes what ends there. -/
def settle (t : Tracker) (line : Nat) (change : Int) : Tracker :=
  let balance := t.balance + change
  let (scopes, entries) := closeAt line balance t.scopes t.entries
  { t with balance := balance, scopes := scopes, entries := entries }

/-- The node of a declaration on a line. A function directly within a type is a method. -/
def headNode (t : Tracker) (line : Nat) : Head → Node
  | .type kind name => .mk name kind line line [] []
  | .function name signature =>
    let kind := if t.scopes.head?.any Scope.isType then .methodDecl else .functionDecl
    .mk (name ++ "()") kind line line [("signature", .str signature)] []

def isTypeHead : Head → Bool
  | .type _ _ => true
  | .function _ _ => false

def declare (t : Tracker) (line : Nat) (hasBrace : Bool) (head : Head) : Tracker :=
  let base := if hasBrace then t.balance - 1 else t.balance
  { t with
    scopes := ⟨t.entries.length, base, isTypeHead head⟩ :: t.scopes
    entries := t.entries ++ [(t.scopes.head?.map Scope.index, t.headNode line head)] }

/-- What one more **line** changes. -/
def step (t : Tracker) (line : Nat) : Line → Tracker
  | .imports text => { t with imports := t.imports ++ [importNode text line line] }
  | .code change hasBrace head endsImports =>
    let t := (if endsImports then t.flush else t).settle line change
    match head with
    | some head => t.declare line hasBrace head
    | none => t

/-- What is known after all lines, of which the first has a number. -/
def run (t : Tracker) (line : Nat) : List Line → Tracker
  | [] => t
  | l :: rest => run (t.step line l) (line + 1) rest

end Tracker

def withChildren (node : Node) (more : List Node) : Node :=
  match node with
  | .mk title kind first last details children =>
    .mk title kind first last details (children ++ more)

/-- The nodes of the **lines** of a file. Imports that no other code follows are left out. -/
def outlineOf (lines : List Line) : List Node :=
  Forest.ofLinks withChildren (Tracker.run {} 1 lines).entries

/-- Where a last group of imports is said to begin and to end. There is no outline unless the first
is given. -/
structure LastImports where
  first : Option Value := none
  last : Option Value := none

/-- The group of imports at the end, which has no children. -/
def LastImports.group (l : LastImports) : Except Failure (List Value) :=
  match l.first, l.last with
  | none, _ => .error .undefinedName
  | some .null, _ => .ok []
  | some _, none => .error .undefinedName
  | some first, some last =>
    .ok [.object [("title", .str "Imports"), ("type", .str Kind.importGroup.text),
      ("start_line", first), ("end_line", last), ("nodes", .list [])]]

/-- The nodes of a **source text**. -/
def outline (lastImports : LastImports) (source : String) : Except Failure (List Value) := do
  let lines := (Text.splitAtChar '\n' source.toList).map readLine
  return Node.values (outlineOf lines) ++ (← lastImports.group)

end DocTree.Kotlin
