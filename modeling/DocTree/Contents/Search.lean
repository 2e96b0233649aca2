import DocTree.Excerpt
import DocTree.Model.Ask
import DocTree.Reply.Extract
import DocTree.Settings
import DocTree.Text.Leader

/-!
# Finding the table of contents

The printed table of contents is looked for on the first pages, and beyond them while a run of its
pages is open. If the first run shows no page numbers, later runs are tried.
-/

namespace DocTree.Contents

/-! ### Pages -/

def detectPrompt (content : String) : String :=
  "
    Your job is to detect if there is a table of content provided in the given text.

    Given text: " ++ content ++ "

    return the following JSON format:
    \x7b
        \"thinking\": <why do you think there is a table of content in the given text>
        \"toc_detected\": \"<yes or no>\",
    \x7d

    Directly return the final JSON structure. Do not output anything else.
    Please note: abstract,summary, notation list, figure list, table list, etc. are not table of contents."

/-- Whether a text is **part of a table of contents**. -/
def detect (model content : Value) : Run Value := do
  let reply ← Ask.data (← Ask.content model (detectPrompt content.display))
  reply.field "toc_detected"

/-- Whether a position lies beyond the pages that are looked at. -/
def isBeyond (settings : Settings) (i : Int) : Except Failure Bool := do
  Value.atMost (← settings.get "toc_check_page_num") (.int i)

/-- Looks at `count` pages from position `i` on. In an open run the page before is part of it. -/
def scanPages (settings : Settings) (pages : List Page) :
    (count : Nat) → (i : Int) → (isOpen : Bool) → Run (List Int)
  | 0, _, _ => return []
  | count + 1, i, isOpen => do
    let beyond ← isBeyond settings i
    if beyond && !isOpen then return []
    let text ← Page.textAt pages i
    let answer ← detect (← settings.get "model") (.str text)
    if answer.isStr "yes" then
      Run.infoIfLogging (.str ("Page " ++ Decimal.intText i ++ " has toc"))
      return i :: (← scanPages settings pages count (i + 1) true)
    else if answer.isStr "no" && isOpen then
      Run.infoIfLogging (.str ("Found the last page with toc: " ++ Decimal.intText (i - 1)))
      return []
    else scanPages settings pages count (i + 1) isOpen

/-- The **first run** of pages of a table of contents at or after a position. -/
def findPages (settings : Settings) (pages : List Page) (start : Int) : Run (List Int) := do
  Run.printLine "start find_toc_pages"
  let found ← scanPages settings pages ((pages.length : Int) - start).toNat start false
  if found.isEmpty then Run.infoIfLogging (.str "No toc found")
  return found

/-! ### Page numbers -/

def numbersPrompt (content : String) : String :=
  "
    You will be given a table of contents.

    Your job is to detect if there are page numbers/indices given within the table of contents.

    Given text: " ++ content ++ "

    Reply format:
    \x7b
        \"thinking\": <why do you think there are page numbers/indices given within the table of contents>
        \"page_index_given_in_toc\": \"<yes or no>\"
    \x7d
    " ++ Reply.jsonOnly

/-- Whether a table of contents **shows page numbers**. -/
def detectNumbers (model content : Value) : Run Value := do
  Run.printLine "start detect_page_index"
  let reply ← Ask.data (← Ask.content model (numbersPrompt content.display))
  reply.field "page_index_given_in_toc"

/-- The text of the pages at some positions, and whether it shows page numbers. -/
def gather (model : Value) (pages : List Page) (positions : List Int) : Run (String × Value) := do
  let texts ← positions.mapM fun i => Page.textAt pages i
  let content := Text.collapseLeaders (Text.join "" texts)
  return (content, ← detectNumbers model (.str content))

/-! ### The table of contents -/

/-- A **table of contents** in the document: its text, the positions of its pages, and whether it
shows page numbers. -/
structure Listing where
  content? : Option String := none
  pages : List Int := []
  numbered : Bool := false

def Listing.value (found : Listing) : Value :=
  .object [("toc_content", .ofOption (found.content?.map .str)),
    ("toc_page_list", .list (found.pages.map .int)),
    ("page_index_given_in_toc", .str (if found.numbered then "yes" else "no"))]

/-- The first run with page numbers at or after a position, when `rounds` runs may be tried. -/
def searchNumbered (settings : Settings) (pages : List Page) :
    (rounds : Nat) → (start : Int) → Run (Option Listing)
  | 0, _ => return none
  | rounds + 1, start => do
    if (pages.length : Int) ≤ start then return none
    let beyond ← isBeyond settings start
    if beyond then return none
    let found ← Run.quietly (findPages settings pages start)
    match found.getLast? with
    | none => return none
    | some last =>
      let (content, answer) ← gather (← settings.get "model") pages found
      if answer.isStr "yes" then
        Run.printLine "index found"
        return some { content? := some content, pages := found, numbered := true }
      else searchNumbered settings pages rounds (last + 1)

/-- The **table of contents** of a document: the first run of pages with page numbers, or else the
first run. -/
def search (settings : Settings) (pages : List Page) : Run Listing := do
  let found ← Run.quietly (findPages settings pages 0)
  match found.getLast? with
  | none =>
    Run.printLine "no toc found"
    return {}
  | some last =>
    Run.printLine "toc found"
    let (content, answer) ← gather (← settings.get "model") pages found
    if answer.isStr "yes" then
      Run.printLine "index found"
      return { content? := some content, pages := found, numbered := true }
    let later? ←
      if answer.isStr "no" then searchNumbered settings pages pages.length (last + 1)
      else pure none
    match later? with
    | some later => return later
    | none =>
      Run.printLine "index not found"
      return { content? := some content, pages := found }

end DocTree.Contents
