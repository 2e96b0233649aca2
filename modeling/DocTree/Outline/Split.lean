import DocTree.Contents.Build
import DocTree.Outline.Nest

/-!
# Splitting large nodes

A node with too many pages and tokens gets a table of contents of its own, whose sections become its
children and are split in turn. Only the replies bound the depth, so a number of levels is given as
fuel.
-/

namespace DocTree.Outline

def ownPages (pages : List Page) (node : Value) : Except Failure (List Page) := do
  let before ← (← node.field "start_index").sub (.int 1)
  let stop ← node.field "end_index"
  return Value.sliceList pages (← before.integer) (← stop.integer)

def tokensOf (pages : List Page) : Int := Page.total (pages.map Page.tokens)

/-- Whether a node is **large**: it covers more pages and not fewer tokens than the settings allow. -/
def isLarge (settings : Settings) (pages : List Page) (node : Value) : Except Failure Bool := do
  let own ← ownPages pages node
  let extent ← (← node.field "end_index").sub (← node.field "start_index")
  if ← Value.less (← settings.get "max_page_num_each_node") extent then
    Value.atMost (← settings.get "max_token_num_each_node") (.int (tokensOf own))
  else return false

def announceLarge (pages : List Page) (node : Value) : Run Unit := do
  let title ← node.field "title"
  let start ← node.field "start_index"
  let stop ← node.field "end_index"
  let own ← ownPages pages node
  Run.printLine ("large node: " ++ title.display ++ " start_index: " ++ start.display ++
    " end_index: " ++ stop.display ++ " token_num: " ++ Decimal.intText (tokensOf own))

/-- Whether the title of a node is the title of an entry, but for white space at the ends. -/
def sameTitle (node entry : Value) : Except Failure Bool := do
  let title ← (← node.field "title").asText
  return Text.trim title = Text.trim (← (← entry.field "title").asText)

/-- A node with the sections of the given entries as its children. It ends where the first of them
begins. -/
def withSections (node : Value) (entries : List Value) : Except Failure Value := do
  let stop ← node.field "end_index"
  let (sections, ranged) ← ofContents (.list entries) stop
  let node ← node.setField "nodes" sections
  match ranged with
  | .list (first :: _) => node.setField "end_index" (← first.field "start_index")
  | _ => return node

/-- A node **with the sections** of its own table of contents. An entry for the node itself is left
out. -/
def splitNode (counter : TokenCounter) (settings : Settings) (pages : List Page) (node : Value) :
    Run Value := do
  let own ← ownPages pages node
  let start ← (← node.field "start_index").integer
  let entries ← Contents.build counter settings {} { pages := own, first := start } Contents.Mode.plain
  let marked ← Contents.markStarts (← settings.get "model") pages (.list entries)
  match ← Contents.placed marked with
  | [] => withSections node []
  | first :: rest =>
    let own ← sameTitle node first
    withSections node (if own then rest else first :: rest)

def splitIfLarge (counter : TokenCounter) (settings : Settings) (pages : List Page) (node : Value) :
    Run Value := do
  if ← isLarge settings pages node then
    announceLarge pages node
    splitNode counter settings pages node
  else return node

/-- A node with **all large nodes** below it split, to a depth of at most `levels`. -/
def splitLarge (counter : TokenCounter) (settings : Settings) (pages : List Page) :
    (levels : Nat) → (node : Value) → Run Value
  | 0, _ => Run.fail .outOfFuel
  | levels + 1, node => do
    let node ← splitIfLarge counter settings pages node
    let children ← node.lookup "nodes"
    if !children.isTruthy then return node
    let children ← Run.together
      ((← children.elements).map (splitLarge counter settings pages levels))
    node.setField "nodes" (.list children)

def ofDocument (counter : TokenCounter) (settings : Settings) (pages : List Page) :
    Run (List Value) := do
  let found ← Contents.search settings pages
  Run.info found.value
  let e : Excerpt := { pages := pages }
  let usable := found.numbered && !Text.isBlankText (found.content?.getD "")
  let printed : Contents.Printed :=
    if usable then
      { content := .ofOption (found.content?.map .str)
        positions := .list (found.pages.map .int) }
    else {}
  let mode := if usable then Contents.Mode.numbers else Contents.Mode.plain
  let entries ← Contents.build counter settings printed e mode
  let prefaced ← withPreface (.list entries)
  let marked ← Contents.markStarts (← settings.get "model") pages prefaced
  let (outline, _) ← ofContents (.list (← Contents.placed marked)) (.ofNat pages.length)
  let levels ← Run.patience
  Run.together ((← outline.elements).map (splitLarge counter settings pages levels))

end DocTree.Outline
