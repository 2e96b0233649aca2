import DocTree.Text.Blank
import DocTree.Text.Search
import DocTree.Value.Basic

/-!
# Headings of Markdown texts

A heading is a line of one to six number signs, blanks and a title. The lines between two fences
hold none.
-/

namespace DocTree.Markdown

/-- A **heading** with the number of its line, from one on. -/
structure Heading where
  title : String
  line : Nat

/-- Three of the characters that begin and end code. -/
def fence : List Char := ['\x60', '\x60', '\x60']

/-- The number of number signs at the beginning of a line. -/
def signs (line : List Char) : Nat := (line.takeWhile (· == '#')).length

/-- The **title** on a line without blanks around it, if it is a heading. -/
def title? (line : List Char) : Option String :=
  match signs line, line.drop (signs line) with
  | 0, _ => none
  | n + 1, c :: rest =>
    if n < 6 && Text.isBlank c then some (String.ofList (Text.trimList rest)) else none
  | _ + 1, [] => none

/-- The headings of lines, of which the first has a number; `inCode` tells whether they begin
within code. -/
def headingsFrom (number : Nat) (inCode : Bool) : List (List Char) → List Heading
  | [] => []
  | line :: rest =>
    let line := Text.trimList line
    if Text.beginsWith fence line then headingsFrom (number + 1) (!inCode) rest
    else if inCode then headingsFrom (number + 1) inCode rest
    else
      match title? line with
      | some title => ⟨title, number⟩ :: headingsFrom (number + 1) inCode rest
      | none => headingsFrom (number + 1) inCode rest

def headings (text : String) : List Heading :=
  headingsFrom 1 false (Text.splitAtChar '\n' text.toList)

def Heading.value (h : Heading) : Value :=
  .object [("node_title", .str h.title), ("line_num", .ofNat h.line)]

end DocTree.Markdown
