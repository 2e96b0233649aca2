import DocTree.Contents.Appearance

/-!
# Checking a table of contents

A model is asked for every entry whether its section appears on its page. The share of right entries
is the accuracy. A table that ends in the first half of the document is not checked.
-/

namespace DocTree.Contents

/-! ### Pages beyond the end -/

/-- An entry without a page beyond `limit`, and whether the page was taken away. -/
def truncateEntry (limit : Int) (entry : Value) : Run (Value × Bool) := do
  let page ← position entry
  if page.isNull then return (entry, false)
  let beyond ← Value.less (.int limit) page
  if !beyond then return (entry, false)
  let title ← entry.lookupOr "title" (.str "Unknown")
  Run.infoIfLogging (.str ("Removed physical_index for '" ++ title.display ++ "' (was " ++
    page.display ++ ", too far beyond document)"))
  return (← entry.setField "physical_index" .null, true)

/-- The entries **without pages beyond the end** of a document of `count` pages that begins with
page `first`. -/
def truncate (entries : Value) (count first : Int) : Run Value := do
  if !entries.isTruthy then return entries
  let limit := count + first - 1
  let marked ← (← entries.elements).mapM (truncateEntry limit)
  let removed := (marked.filter Prod.snd).length
  if removed ≠ 0 then
    Run.infoIfLogging (.str ("Total removed items: " ++ Decimal.natText removed))
  Run.printLine ("Document validation: " ++ Decimal.intText count ++ " pages, max allowed index: " ++
    Decimal.intText limit)
  if removed ≠ 0 then
    Run.printLine ("Truncated " ++ Decimal.natText removed ++
      " TOC items that exceeded document length")
  return .list (marked.map Prod.fst)

/-! ### Accuracy -/

/-- The first page named in a list of entries; null if none is. -/
def namedPage : List Value → Except Failure Value
  | [] => .ok .null
  | entry :: rest => do
    let page ← position entry
    if page.isNull then namedPage rest else return page

/-- The page of the **last entry** that has one. -/
def lastPage (entries : List Value) : Except Failure Value := namedPage entries.reverse

/-- Whether a page lies before the middle of a document of `count` pages. -/
def isEarly (page : Value) (count : Nat) : Except Failure Bool :=
  if page.isNull then .ok true else page.less (.float (Double.ofRatio false count 2))

/-- The positions that are checked: all, or the first ones of a sample. -/
def chosen (count : Nat) (sample : Value) : Run (List Nat) := do
  if sample.isNull then
    Run.printLine "check all items"
    return List.range count
  let all ← Value.less (.int count) sample
  let n ← if all then pure (count : Int) else sample.integer
  Run.printLine ("check " ++ Decimal.intText n ++ " items")
  return Value.sliceList (List.range count) 0 n

/-- The entry at a position, with that position noted in it, if it names a page. -/
def noted? (entries : Value) (i : Nat) : Except Failure (Option Value) := do
  let entry ← entries.item i
  if ← isPlaced entry then return some (← entry.setField "list_index" (.ofNat i))
  else return none

def share (right total : Nat) : Value :=
  if total = 0 then .int 0 else .float (Double.ofRatio false right total)

/-- A share as a percentage with two places. -/
def percentage : Value → String
  | .float x => (x.mul (Double.ofInt 100)).fixed 2
  | _ => "0.00"

/-- The **accuracy** of a table of contents, and the verdicts on its wrong entries. -/
def verify (model : Value) (e : Excerpt) (entries : Value) (sample : Value := .null) :
    Run (Value × List Value) := do
  Run.printLine "start verify_toc"
  let items ← entries.elements
  let last ← lastPage items
  let early ← isEarly last e.pages.length
  if early then return (.int 0, [])
  let positions ← chosen items.length sample
  let asked ← positions.filterMapM fun i => noted? entries i
  let verdicts ← Run.together (asked.map (checkTitle model e))
  let right := (verdicts.filter Verdict.holds).length
  let accuracy := share right verdicts.length
  Run.printLine ("accuracy: " ++ percentage accuracy ++ "%")
  return (accuracy, (verdicts.filter fun v => !v.holds).map Verdict.value)

end DocTree.Contents
