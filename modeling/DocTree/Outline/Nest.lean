import DocTree.Forest
import DocTree.Value.Arith

/-!
# From a table of contents to an outline

Entries carry structure codes such as `2.1.3`. The entry above another one is the latest earlier
entry whose code lacks only the last component. Without one it is a root.
-/

namespace DocTree.Outline

/-! ### Structure codes -/

/-- The code of the entry **above** an entry with a given code. -/
def parentCode? (code : Value) : Option String :=
  if code.isTruthy then
    let above := Text.join "." (Text.split code.display '.').dropLast
    if above.isEmpty then none else some above
  else none

/-- For each code the position of the entry above, where `before` are the codes of the entries
that come first. -/
def links (before : List Value) : List Value → List (Option Nat)
  | [] => []
  | code :: rest =>
    ((parentCode? code).bind fun above => Forest.lastIndex? (·.isStr above) before) ::
      links (before ++ [code]) rest

/-! ### Nesting -/

def node (entry : Value) (children : List Value) : Value :=
  let get := fun key => (key, (entry.field? key).getD .null)
  let own := [get "title", get "start_index", get "end_index"]
  .object (if children.isEmpty then own else own ++ [("nodes", .list children)])

/-- The code of an entry. It has to be a value that can be looked up. -/
def codeOf (entry : Value) : Except Failure Value := do
  match ← entry.lookup "structure" with
  | .list _ | .object _ => .error .wrongKind
  | code => return code

/-- The outline of entries whose codes are known. -/
def nestWith (codes entries : List Value) : List Value :=
  Forest.ofLinks node ((links [] codes).zip entries)

/-- The **outline** of a list of entries. -/
def nest (entries : Value) : Except Failure Value := do
  let entries ← entries.elements
  let codes ← entries.mapM codeOf
  return .list (nestWith codes entries)

/-! ### Page ranges -/

/-- The last page of a section that `next` follows: the page before that entry if it begins its
page, and otherwise its page. -/
def endBefore (next : Value) : Except Failure Value := do
  if (← next.lookup "appear_start").isStr "yes" then
    (← next.field "physical_index").sub (.int 1)
  else next.field "physical_index"

/-- An entry with the pages of its section. -/
def withRange (entry last : Value) : Except Failure Value := do
  let first ← entry.lookup "physical_index"
  (← entry.setField "start_index" first).setField "end_index" last

/-- The entries with the **first and the last page** of their sections, the last of which ends
at `last`. -/
def withRanges (last : Value) : List Value → Except Failure (List Value)
  | [] => .ok []
  | [entry] => do return [← withRange entry last]
  | entry :: next :: rest => do
    let _ ← entry.lookup "physical_index"
    let entry ← withRange entry (← endBefore next)
    return entry :: (← withRanges last (next :: rest))

/-- The **outline of a table of contents**, and the entries with their page ranges. -/
def ofContents (entries last : Value) : Except Failure (Value × Value) := do
  match ← entries.elements with
  | [] => return (entries, entries)
  | items =>
    let ranged := .list (← withRanges last items)
    return (← nest ranged, ranged)

/-! ### Preface -/

def preface : Value :=
  .object [("structure", .str "0"), ("title", .str "Preface"), ("physical_index", .int 1)]

/-- A table of contents with a **preface** if its first entry begins after the first page. -/
def withPreface (entries : Value) : Except Failure Value := do
  match entries with
  | .list (first :: rest) =>
    let page ← first.field "physical_index"
    if page.isNull then return entries
    else if ← Value.less (.int 1) page then return .list (preface :: first :: rest)
    else return entries
  | entries => return entries

end DocTree.Outline
