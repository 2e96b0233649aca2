import DocTree.Excerpt
import DocTree.Model.Ask
import DocTree.Reply.Extract

/-!
# Where titles appear

A model is asked whether the section of an entry appears on the page that the entry names, and
whether it begins at the top of that page.
-/

namespace DocTree.Contents

/-- The page that an entry names; null if it names none. -/
def position (entry : Value) : Except Failure Value := entry.lookup "physical_index"

def isPlaced (entry : Value) : Except Failure Bool := do
  return !(← position entry).isNull

/-- The entries that **name a page**. -/
def placed (entries : Value) : Except Failure (List Value) := do
  (← entries.elements).filterM isPlaced

/-! ### Sections on their pages -/

/-- What was found out about an entry: its position, the answer, the title and the page. -/
structure Verdict where
  listIndex : Value
  answer : Value
  title : Value
  page : Value

def Verdict.holds (v : Verdict) : Bool := v.answer.isStr "yes"

def Verdict.value (v : Verdict) : Value :=
  .object [("list_index", v.listIndex), ("answer", v.answer), ("title", v.title),
    ("page_number", v.page)]

def titlePrompt (title pageText : String) : String :=
  "
    Your job is to check if the given section appears or starts in the given page_text.

    Note: do fuzzy matching, ignore any space inconsistency in the page_text.

    The given section title is " ++ title ++ ".
    The given page_text is " ++ pageText ++ ".
    
    Reply format:
    \x7b
        
        \"thinking\": <why do you think the section appears or starts in the page_text>
        \"answer\": \"yes or no\" (yes if the section appears or starts in the page_text, no otherwise)
    \x7d
    " ++ Reply.jsonOnly

/-- Whether the section of an entry **appears on its page**. An entry without a page is wrong. -/
def checkTitle (model : Value) (e : Excerpt) (entry : Value) : Run Verdict := do
  let title ← entry.field "title"
  let page ← position entry
  if page.isNull then
    return { listIndex := ← entry.lookup "list_index", answer := .str "no", title := title,
             page := .null }
  let text ← e.textOf page
  let reply ← Ask.data (← Ask.concurrently model (titlePrompt title.display text))
  let answered ← reply.mentions "answer"
  let answer ← if answered then reply.field "answer" else pure (.str "no")
  return { listIndex := ← entry.field "list_index", answer := answer, title := title, page := page }

/-! ### Sections at the top of pages -/

def startPrompt (title pageText : String) : String :=
  "
    You will be given the current section title and the current page_text.
    Your job is to check if the current section starts in the beginning of the given page_text.
    If there are other contents before the current section title, then the current section does not start in the beginning of the given page_text.
    If the current section title is the first content in the given page_text, then the current section starts in the beginning of the given page_text.

    Note: do fuzzy matching, ignore any space inconsistency in the page_text.

    The given section title is " ++ title ++ ".
    The given page_text is " ++ pageText ++ ".
    
    reply format:
    \x7b
        \"thinking\": <why do you think the section appears or starts in the page_text>
        \"start_begin\": \"yes or no\" (yes if the section starts in the beginning of the page_text, no otherwise)
    \x7d
    " ++ Reply.jsonOnly

/-- Whether a section begins **at the top of a page**. -/
def startsPage (model title : Value) (pageText : String) : Run Value := do
  let reply ← Ask.data (← Ask.concurrently model (startPrompt title.display pageText))
  Run.infoIfLogging (.str ("Response: " ++ reply.display))
  reply.lookupOr "start_begin" (.str "no")

/-- What has to be asked about the beginning of an entry with a page: its title, and the text of its
page. -/
def startQuestion? (pages : List Page) (entry : Value) : Except Failure (Option (Value × String)) := do
  let page ← position entry
  if page.isNull then return none
  let text ← Excerpt.textOf { pages := pages } page
  return some (← entry.field "title", text)

/-- An entry with what was found out about its beginning. -/
def markStart (entry : Value) (outcome? : Option (Except Failure Value)) : Run Value := do
  match outcome? with
  | some (.ok answer) => entry.setField "appear_start" answer
  | some (.error why) =>
    let title ← entry.field "title"
    Run.errorIfLogging (.str ("Error checking start for " ++ title.display ++ ": " ++ why.describe))
    entry.setField "appear_start" (.str "no")
  | none => entry.setField "appear_start" (.str "no")

/-- The entries with what is known about their **beginnings**. A question that fails is answered
with no. -/
def markStarts (model : Value) (pages : List Page) (entries : Value) : Run Value := do
  Run.infoIfLogging (.str "Checking title appearance in start concurrently")
  let items ← entries.elements
  let _ ← items.mapM fun entry => position entry
  let questions ← items.mapM fun entry => startQuestion? pages entry
  let outcomes ← questions.mapM fun question? =>
    match question? with
    | some (title, text) => do return some (← Run.attempt (startsPage model title text))
    | none => return none
  if items.isEmpty then return entries
  return .list (← (items.zip outcomes).mapM fun (entry, outcome?) => markStart entry outcome?)

end DocTree.Contents
