import DocTree.Page
import DocTree.Path
import DocTree.Tokens

/-!
# PDF documents

The texts of the pages and the title in the metadata. Page texts can be put together with tags for
their numbers, which can be read back.
-/

namespace DocTree

structure Pdf where
  pages : List String := []
  title? : Option String := none

namespace Pdf

/-- Where a document comes from: a byte stream, or a path. -/
inductive Source where
  | stream
  | path (path : Value)

/-- The **title** of a document; one without a title is `Untitled`. -/
def title (pdf : Pdf) : String :=
  match pdf.title? with
  | some t => if t.isEmpty then "Untitled" else t
  | none => "Untitled"

def text (pdf : Pdf) : String := Text.join "" pdf.pages

/-- A name that can be used for a file: separators are replaced. -/
def fileName (name replacement : String) : String := Text.replace name "/" replacement

def nameOf (pdf : Pdf) : Source → Except Failure String
  | .stream => .ok (fileName pdf.title "-")
  | .path (.str path) => .ok (Path.baseName path)
  | .path _ => .error .unsetName

/-! ### Tags -/

/-- The page text with tags before and after it. -/
def tagged (i : Int) (text : String) : String :=
  "<start_index_" ++ Decimal.intText i ++ ">\n" ++ text ++ "\n<end_index_" ++
    Decimal.intText i ++ ">\n"

/-- The text of the pages from `first` to `last`, with **tags** if `tags` is set. -/
def taggedText (pdf : Pdf) (first last : Int) (tags : Bool) : Except Failure String :=
  Page.range (fun i => do
    let text ← Value.itemOf pdf.pages i
    return if tags then tagged (i + 1) text else text) (first - 1) last

def tagStart : List Char := "<start_index_".toList

/-- The digits of a tag at the beginning of a text. -/
def tagAt? (cs : List Char) : Option (List Char) :=
  match Text.after? tagStart cs with
  | some rest =>
    let digits := rest.takeWhile Text.isDigit
    match digits, rest.dropWhile Text.isDigit with
    | _ :: _, '>' :: _ => some digits
    | _, _ => none
  | none => none

/-- The digits of all tags in a text, in order. -/
def tags : List Char → List (List Char)
  | [] => []
  | c :: cs =>
    match tagAt? (c :: cs) with
    | some digits => digits :: tags cs
    | none => tags cs

/-- The number of a tag; `-1` if there is none. -/
def tagNumber (digits? : Option (List Char)) : Except Failure Int :=
  match digits? with
  | some digits => Value.parseInteger (String.ofList digits)
  | none => .ok (-1)

/-- The page number of the **first** tag in a text. -/
def firstTag (s : String) : Except Failure Int := tagNumber (tags s.toList).head?

/-- The page number of the **last** tag in a text. -/
def lastTag (s : String) : Except Failure Int := tagNumber (tags s.toList).getLast?

/-- A tag of a value, which has to be a text. Without a search for patterns none is found. -/
def tagOf (canSearch : Bool) (tag : String → Except Failure Int) (v : Value) :
    Except Failure Int := do
  if canSearch then tag (← v.text) else .error .undefinedName

/-! ### Pages with lengths -/

inductive Reader where
  | byPath
  | byStreamOrFile
  | unknown (name : Value)

def Reader.ofName (name : Value) : Reader :=
  if name.isStr "PyPDF2" then .byPath
  else if name.isStr "PyMuPDF" then .byStreamOrFile
  else .unknown name

/-- Whether a source can be opened as a file: it is a stream, or the path of a PDF file. -/
def canOpen (isFile : String → Bool) : Source → Bool
  | .stream => true
  | .path (.str path) => isFile path && Text.endsWithAnyCase path [".pdf"]
  | .path _ => false

/-- The **pages** of a document with their lengths. Only a measure that knows the model by its
name can be used. -/
def pagesOf (pdf : Pdf) (counter : TokenCounter) (isFile : String → Bool) (source : Source)
    (model : Value) (reader : Reader) : Except Failure (List Page) :=
  if counter ≠ .bytes || model.isNull then .error (.missingKey model)
  else
    let pages := pdf.pages.map fun t => { text := t, tokens := t.utf8ByteSize : Page }
    match reader with
    | .byPath => .ok pages
    | .byStreamOrFile => if canOpen isFile source then .ok pages else .error .unsetName
    | .unknown name => .error (.complaint (.unknownReader name))

end Pdf

end DocTree
