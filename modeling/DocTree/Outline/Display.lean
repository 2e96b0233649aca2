import DocTree.Json.Printer
import DocTree.Outline.Preorder
import DocTree.Session
import DocTree.Tokens
import DocTree.Value.Arith

/-!
# Showing outlines

Outlines are shown as indented lists of titles or as shortened JSON, and nodes with too long
texts are reported.
-/

namespace DocTree.Outline

/-! ### Titles -/

def titleLine (depth : Value) (title : Value) : Except Failure String := do
  let depth ← depth.integer
  return Text.join "" (List.replicate depth.toNat "  ") ++ (← title.text)

mutual

/-- Prints the **titles** of an outline, indented by depth. -/
def printTitles (depth : Value) : Value → Run Unit
  | .list items => printTitlesList depth items
  | .object fields => if fields.isEmpty then return () else Run.fail .wrongKind
  | .str s => if s.isEmpty then return () else Run.fail .wrongKind
  | _ => Run.fail .wrongKind

def printTitlesList (depth : Value) : List Value → Run Unit
  | [] => return ()
  | .object fields :: rest => do
    let _ ← depth.integer
    let title ← (Value.object fields).field "title"
    Run.printLine (← titleLine depth title)
    printTitlesBelow depth fields
    printTitlesList depth rest
  | _ :: _ => Run.fail .wrongKind

/-- Prints the titles of the nodes in the field `nodes`, one step deeper. -/
def printTitlesBelow (depth : Value) : List (String × Value) → Run Unit
  | [] => return ()
  | (k, v) :: rest => do
    if k = "nodes" then
      if v.isTruthy then printTitles (← depth.add (.int 1)) v else return ()
    else printTitlesBelow depth rest

end

/-! ### Shortened JSON -/

/-- A text cut to a length, with dots for what is missing. -/
def shortenText (limit : Value) (s : String) : Except Failure String := do
  if ← Value.less limit (.int s.length) then
    let n ← limit.integer
    return String.ofList (Value.sliceList s.toList 0 n) ++ "..."
  else return s

mutual

/-- A value with all long texts **cut**; keys are kept. -/
def shorten (limit : Value) : Value → Except Failure Value
  | .object fields => do return .object (← shortenFields limit fields)
  | .list items => do return .list (← shortenList limit items)
  | .str s => do return .str (← shortenText limit s)
  | v => .ok v

def shortenList (limit : Value) : List Value → Except Failure (List Value)
  | [] => .ok []
  | v :: rest => do
    let v ← shorten limit v
    return v :: (← shortenList limit rest)

def shortenFields (limit : Value) :
    List (String × Value) → Except Failure (List (String × Value))
  | [] => .ok []
  | (k, v) :: rest => do
    let v ← shorten limit v
    return (k, v) :: (← shortenFields limit rest)

end

/-- The indentation that a value means: none for null, a text itself, so many blanks for a
number. -/
def indentation (indent : Value) : Except Failure (Option String) := do
  match indent with
  | .null => return none
  | .str s => return some s
  | v => return some (String.ofList (List.replicate (← v.integer).toNat ' '))

def shortText (limit indent v : Value) : Except Failure String := do
  match ← shorten limit v with
  | .str s => return Json.quote false s
  | short => return Json.render { ascii := false, indent := ← indentation indent } short

/-- Prints the **shortened** JSON text of a value. -/
def printShort (limit indent v : Value) : Run Unit := do
  Run.printLine (← shortText limit indent v)

/-! ### Long texts -/

/-- Reports a node whose text has more tokens than the limit. -/
def reportIfLong (counter : TokenCounter) (limit node : Value) : Run Unit := do
  let tokens ← counter.count (.str "gpt-4o") (← node.field "text")
  if ← Value.less limit (.int tokens) then
    let id ← node.field "node_id"
    Run.printLine ("Node ID: " ++ id.display ++ " has " ++ Decimal.natText tokens ++ " tokens")
    Run.printLine ("Start Index: " ++ (← node.field "start_index").display)
    Run.printLine ("End Index: " ++ (← node.field "end_index").display)
    Run.printLine ("Title: " ++ (← node.field "title").display)
    Run.printLine "\n"

/-- Reports all nodes whose texts **exceed** the limit. -/
def reportLong (counter : TokenCounter) (limit outline : Value) : Run Unit := do
  for node in ← required (← nodes outline) do
    reportIfLong counter limit node

end DocTree.Outline
