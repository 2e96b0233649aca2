import DocTree.Contents.Completion
import DocTree.Contents.Offset
import DocTree.Contents.Repair
import DocTree.Contents.Search
import DocTree.Contents.Unnumbered
import DocTree.Contents.Verify
import DocTree.Outline.Prune
import DocTree.Page.Group
import DocTree.Tokens

/-!
# Building a table of contents

A table with physical pages is built in one of three **modes**: from a printed table with page
numbers, from one without, or from the pages alone. A good result is repaired and kept; otherwise
the next mode is tried.
-/

namespace DocTree.Contents

/-! ### The three ways -/

def groupTexts (counter : TokenCounter) (model : Value) (e : Excerpt) : Run (List String) := do
  let texts := e.texts
  let lengths ← texts.mapM fun text => do return ((← counter.count model (.str text)) : Int)
  let groups ← Page.groups texts lengths
  Run.info (.str ("len(group_texts): " ++ Decimal.natText groups.length))
  return groups

/-- A table of contents with further entries. -/
def extend (entries more : Value) : Except Failure Value := do
  match entries with
  | .list items => return .list (items ++ (← more.elements))
  | _ => .error .noOperation

/-- A table made from the **pages alone**. -/
def fromPages (counter : TokenCounter) (model : Value) (e : Excerpt) : Run Value := do
  match ← groupTexts counter model e with
  | [] => Run.fail .outOfRange
  | first :: rest =>
    let start ← generate model (.str first)
    let made ← rest.foldlM (fun entries text => do
      extend entries (← generateOn model entries (.str text))) start
    Run.info (.str ("generate_toc: " ++ made.display))
    let numbered ← Outline.readLabels made
    Run.info (.str ("convert_physical_index_to_int: " ++ numbered.display))
    return numbered

/-- A table made from a printed table **without page numbers**. -/
def fromTitles (counter : TokenCounter) (model : Value) (e : Excerpt) (contents : Value) :
    Run Value := do
  let entries ← transform model contents
  Run.info (.str ("toc_transformer: " ++ entries.display))
  let groups ← groupTexts counter model e
  let filled ← groups.foldlM (fun entries text => fillIn model (.str text) entries) entries
  Run.info (.str ("add_page_number_to_toc: " ++ filled.display))
  let numbered ← Outline.readLabels filled
  Run.info (.str ("convert_physical_index_to_int: " ++ numbered.display))
  return numbered

/-- The end of the pages that are shown after a printed table: `count` pages, or all there are. -/
def shownEnd (start count : Value) (length : Nat) : Except Failure Int := do
  let stop ← start.add count
  if ← Value.less (.ofNat length) stop then return length else stop.integer

/-- A table made from a printed table **with page numbers**, which ends at the last given position.
The pages after it show the offset. -/
def fromNumbers (model : Value) (pages : List Page) (contents positions checkedPages : Value) :
    Run Value := do
  let entries ← transform model contents
  Run.info (.str ("toc_with_page_number: " ++ entries.display))
  let unnumbered := Outline.dropPageNumbers entries
  let start ← (← positions.item (-1)).add (.int 1)
  let stop ← shownEnd start checkedPages pages.length
  let shown ← Page.range (fun i => (Page.textAt pages i).map (Excerpt.labelled (i + 1)))
    (← start.integer) stop
  let located ← locate model unnumbered (.str shown)
  Run.info (.str ("toc_with_physical_index: " ++ located.display))
  let located ← Outline.readLabels located
  Run.info (.str ("toc_with_physical_index: " ++ located.display))
  let matching := Value.list (← pairs entries located start)
  Run.info (.str ("matching_pairs: " ++ matching.display))
  let shift ← offset matching
  Run.info (.str ("offset: " ++ shift.display))
  let moved ← applyOffset entries shift
  Run.info (.str ("toc_with_page_number: " ++ moved.display))
  let complete ← placeAll model { pages := pages } moved
  Run.info (.str ("toc_with_page_number: " ++ complete.display))
  return complete

/-! ### Modes -/

/-- The **modes**: from a printed table with page numbers, from one without them, or from the pages
alone. -/
inductive Mode where
  | numbers
  | titles
  | pages (name : Value)

namespace Mode

def name : Mode → Value
  | .numbers => .str "process_toc_with_page_numbers"
  | .titles => .str "process_toc_no_page_numbers"
  | .pages name => name

def plain : Mode := .pages (.str "process_no_toc")

/-- The mode of a name: every name that is not one of the others means the pages alone. -/
def ofName (name : Value) : Mode :=
  if name.isStr "process_toc_with_page_numbers" then .numbers
  else if name.isStr "process_toc_no_page_numbers" then .titles
  else .pages name

/-- A mode and those that are tried after it. -/
def fallbacks : Mode → List Mode
  | .numbers => [.numbers, .titles, plain]
  | .titles => [.titles, plain]
  | .pages name => [.pages name]

end Mode

/-- A printed table of contents: its text, and the positions of its pages. -/
structure Printed where
  content : Value := .null
  positions : Value := .null

def Mode.run (mode : Mode) (counter : TokenCounter) (settings : Settings) (printed : Printed)
    (e : Excerpt) : Run Value := do
  match mode with
  | .numbers =>
    let checkedPages ← settings.get "toc_check_page_num"
    fromNumbers (← settings.get "model") e.pages printed.content printed.positions checkedPages
  | .titles =>
    fromTitles counter (← settings.get "model") { pages := e.pages } printed.content
  | .pages _ => fromPages counter (← settings.get "model") e

/-- The accuracy above which a table is repaired: three fifths. -/
def goodAccuracy : Value := .float (Double.ofDecimal false 6 (-1))

def repairLimit : Int := 3

/-- Whether a table is right in all that was checked. -/
def isPerfect (accuracy : Value) (wrong : List Value) : Bool :=
  accuracy.same (.float (Double.ofInt 1)) && wrong.isEmpty

/-- The table of the first **acceptable mode**. -/
def tryModes (counter : TokenCounter) (settings : Settings) (printed : Printed) (e : Excerpt) :
    List Mode → Run (List Value)
  | [] => Run.fail .processingFailed
  | mode :: rest => do
    Run.printLine mode.name.display
    Run.printLine ("start_index: " ++ Decimal.intText e.first)
    let made ← mode.run counter settings printed e
    let kept := Value.list (← placed made)
    let kept ← truncate kept e.pages.length e.first
    let model ← settings.get "model"
    let (accuracy, wrong) ← verify model e kept
    Run.info (.object [("mode", .str "process_toc_with_page_numbers"), ("accuracy", accuracy),
      ("incorrect_results", .list wrong)])
    let entries ← kept.elements
    if isPerfect accuracy wrong then return entries
    let good ← goodAccuracy.less accuracy
    if good && !wrong.isEmpty then
      return (← repairAll model e repairLimit entries wrong).1
    tryModes counter settings printed e rest

/-- The **table of contents** of an excerpt, beginning with a mode. -/
def build (counter : TokenCounter) (settings : Settings) (printed : Printed) (e : Excerpt)
    (mode : Mode) : Run (List Value) :=
  tryModes counter settings printed e mode.fallbacks

end DocTree.Contents
