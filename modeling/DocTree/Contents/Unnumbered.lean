import DocTree.Contents.Locate
import DocTree.Excerpt

/-!
# Entries without a page

An entry without a page is looked for between the pages of the nearest entries before and after it
that have one.
-/

namespace DocTree.Contents

/-- The first page that one of the entries names, or `other`. -/
def firstPage (other : Value) : List Value → Except Failure Value
  | [] => .ok other
  | entry :: rest => do
    let page ← entry.lookup "physical_index"
    if page.isNull then firstPage other rest else return page

/-- The page of the nearest entry **before** an entry; `0` without one. -/
def pageBefore (before : List Value) : Except Failure Value := firstPage (.int 0) before.reverse

/-- The page of the nearest entry **after** an entry; `-1` without one. -/
def pageAfter (after : List Value) : Except Failure Value := firstPage (.int (-1)) after

/-- The number of a label that begins as labels do. -/
def labelled? (label : Value) : Except Failure (Option Int) := do
  match label with
  | .str s =>
    if Text.startsWith s "<physical_index" then
      let piece := Text.trimList (Text.dropEnd (· == '>') (Outline.lastPiece s))
      return some (← Value.parseInteger (String.ofList piece))
    else return none
  | _ => return none

/-- An entry **with its page**, if the model finds it between the pages of its neighbours. -/
def placeEntry (model : Value) (e : Excerpt) (before : List Value) (entry : Value)
    (after : List Value) : Run Value := do
  let low ← pageBefore before
  let high ← pageAfter after
  let stop ← high.add (.int 1)
  let shown := e.window (← low.integer) ((← stop.integer) - 1)
  let asked ← entry.removeField "page"
  let reply ← fillIn model (.ofTexts shown) asked
  let label ← (← reply.item 0).field "physical_index"
  match ← labelled? label with
  | some page => (← entry.setField "physical_index" (.int page)).removeField "page"
  | none => return entry

/-- The entries after `before`, each with its page if it could be found. -/
def placeRest (model : Value) (e : Excerpt) : (before rest : List Value) → Run (List Value)
  | _, [] => return []
  | before, entry :: rest => do
    let known ← entry.mentions "physical_index"
    let entry ← if known then pure entry else placeEntry model e before entry rest
    return entry :: (← placeRest model e (before ++ [entry]) rest)

/-- Entries that are **no list** stay as they are if all of them mention their page. One that does
not is a failure. -/
def placeNone (entries : Value) : Except Failure Value := do
  let known ← (← entries.elements).mapM (·.mentions "physical_index")
  match known.idxOf? false with
  | none => return entries
  | some i =>
    if 1 < known.length then
      let neighbour ← entries.item (if i = 0 then 1 else (i : Int) - 1)
      let _ ← neighbour.lookup "physical_index"
    .error .wrongKind

/-- **All entries** with their pages. -/
def placeAll (model : Value) (e : Excerpt) (entries : Value) : Run Value := do
  match entries with
  | .list items => return .list (← placeRest model e [] items)
  | v => placeNone v

end DocTree.Contents
