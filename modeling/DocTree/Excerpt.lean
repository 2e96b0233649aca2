import DocTree.Page
import DocTree.Value.Arith

/-!
# Excerpts

An **excerpt** is a run of consecutive pages of a document, named by their numbers in it. A text
made from them shows these numbers by labels.
-/

namespace DocTree

/-- An **excerpt**: consecutive pages, and the number of the first one. -/
structure Excerpt where
  pages : List Page
  first : Int := 1

namespace Excerpt

def last (e : Excerpt) : Int := e.pages.length + e.first - 1

/-- The text of a page with labels around it and an empty line after it. -/
def labelled (number : Int) (text : String) : String := Page.labelled number text ++ "\n"

/-- The text of the page with a given **number**. Before the first page it counts from the end. -/
def textOf (e : Excerpt) (number : Value) : Except Failure String := do
  let position ← number.sub (.int e.first)
  match position.int? with
  | some i => Page.textAt e.pages i
  | none => .error (.wrongKind (.noPosition position.kind))

def numbered (e : Excerpt) : List (Int × Page) :=
  e.pages.zipIdx.map fun (page, i) => (e.first + i, page)

/-- The labelled texts of **all pages**. -/
def texts (e : Excerpt) : List String :=
  e.numbered.map fun (number, page) => labelled number page.text

/-- The labelled texts of those pages whose numbers lie **between** `low` and `high`. -/
def window (e : Excerpt) (low high : Int) : List String :=
  (e.numbered.filter fun (number, _) => low ≤ number && number ≤ high).map
    fun (number, page) => labelled number page.text

/-! ### Labels in texts -/

def labelStart : List Char := "<physical_index_".toList

/-- What follows a label at the beginning of a text. -/
def afterLabel? (cs : List Char) : Option (List Char) :=
  match Text.after? labelStart cs with
  | none => none
  | some rest =>
    match rest.takeWhile Text.isDigit, rest.dropWhile Text.isDigit with
    | _ :: _, '>' :: rest => some rest
    | _, _ => none

/-- What follows the first label of a text. -/
def afterFirstLabel? : List Char → Option (List Char)
  | [] => none
  | c :: cs =>
    match afterLabel? (c :: cs) with
    | some rest => some rest
    | none => afterFirstLabel? cs

/-- A text without its first label, all that follows it up to the next label, and that label. -/
def dropFirstList : List Char → List Char
  | [] => []
  | c :: cs =>
    match (afterLabel? (c :: cs)).bind afterFirstLabel? with
    | some rest => rest
    | none => c :: dropFirstList cs

/-- A labelled text **without its first page**. -/
def dropFirst (s : String) : String := String.ofList (dropFirstList s.toList)

end Excerpt

end DocTree
