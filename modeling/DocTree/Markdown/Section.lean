import DocTree.Markdown.Heading
import DocTree.Outline.Merge
import DocTree.Session
import DocTree.Tokens

/-!
# Sections of Markdown texts

A section reaches to the next heading, and sections of a greater level that follow it lie within it.
It is counted with all of them, and takes over their texts if the count is small.
-/

namespace DocTree.Markdown

/-! ### Headings and texts -/

/-- The level of a heading by its line: the number of its number signs, at most six. -/
def level? (line : String) : Option Nat :=
  match signs line.toList with
  | 0 => none
  | n + 1 => some (min (n + 1) 6)

/-- What a section begins with: its title, its line and its level. -/
structure Opening where
  title : Value
  line : Value
  level : Nat

def position (line : Value) : Except Failure Int := do (← line.sub (.int 1)).integer

/-- What the section of a heading begins with. A line that is not a heading is announced. -/
def opening? (lines : List String) (heading : Value) : Run (Option Opening) := do
  let line ← heading.field "line_num"
  let content ← Value.itemOf lines (← position line)
  match level? content with
  | some level => return some ⟨← heading.field "node_title", line, level⟩
  | none =>
    Run.printLine ("Warning: Line " ++ line.display ++ " does not contain a valid header: '" ++
      content ++ "'")
    return none

def openings (lines : List String) : List Value → Run (List Opening)
  | [] => return []
  | heading :: rest => do
    let here ← opening? lines heading
    return here.toList ++ (← openings lines rest)

/-- The position at which a section ends: where the next one begins, or at the end. -/
def endPosition (lines : List String) : List Opening → Except Failure Int
  | [] => .ok lines.length
  | next :: _ => position next.line

def sectionValue (lines : List String) (o : Opening) (rest : List Opening) :
    Except Failure Value := do
  let first ← position o.line
  let last ← endPosition lines rest
  let text := Text.trim (Text.join "\n" (Value.sliceList lines first last))
  return .object [("title", o.title), ("line_num", o.line), ("level", .ofNat o.level),
    ("text", .str text)]

def sectionValues (lines : List String) : List Opening → Except Failure (List Value)
  | [] => .ok []
  | o :: rest => do
    let here ← sectionValue lines o rest
    return here :: (← sectionValues lines rest)

/-- The **sections** of headings in a text. -/
def sections (lines : List String) (headings : List Value) : Run (List Value) := do
  return (← sectionValues lines (← openings lines headings))

/-! ### Counting -/

/-- The number of sections at the beginning of a list that lie **within** a section of a level
before them. -/
def within (level : Value) : List Value → Except Failure Nat
  | [] => .ok 0
  | s :: rest => do
    if ← Value.atMost (← s.field "level") level then return 0
    else return 1 + (← within level rest)

/-- A text with that of a section within it on a new line, unless that is empty. -/
def addLine (text inner : Value) : Except Failure Value := do
  let more ← inner.lookupOr "text" (.str "")
  if more.isTruthy then text.add (← (Value.str "\n").add more) else return text

/-- Sections with their **token counts**: those of their texts with all texts within them. -/
def countTokens (count : Value → Except Failure Nat) : List Value → Except Failure (List Value)
  | [] => .ok []
  | s :: rest => do
    let rest ← countTokens count rest
    let inner := rest.take (← within (← s.field "level") rest)
    let total ← inner.foldlM addLine (← s.lookupOr "text" (.str ""))
    return (← s.setField "text_token_count" (.ofNat (← count total))) :: rest

/-! ### Thinning -/

/-- A section, and whether it is **kept**. -/
structure Marked where
  node : Value
  isKept : Bool

/-- The texts of sections that are not blank. -/
def visibleTexts : List Value → Except Failure (List Value)
  | [] => .ok []
  | s :: rest => do
    let text ← s.lookupOr "text" (.str "")
    let isBlank := Text.isBlankText (← text.asText)
    let rest ← visibleTexts rest
    return if isBlank then rest else text :: rest

/-- A section with texts taken over and counted again; without texts it stays as it is. -/
def takeOver (count : Value → Except Failure Nat) (s : Value) (texts : List Value) :
    Except Failure Value :=
  if texts.isEmpty then .ok s
  else do
    let merged ← texts.foldlM (Outline.appendText "\n\n") (← s.lookupOr "text" (.str ""))
    (← s.setField "text" merged).setField "text_token_count" (.ofNat (← count merged))

/-- Which sections are **kept** when those that count less than a threshold take over what lies
within them. -/
def mark (count : Value → Except Failure Nat) (threshold : Value) :
    List Value → Except Failure (List Marked)
  | [] => .ok []
  | s :: rest => do
    let rest ← mark count threshold rest
    let level ← s.field "level"
    if ← Value.less (← s.lookupOr "text_token_count" (.int 0)) threshold then
      let n ← within level (rest.map Marked.node)
      let taken := (rest.take n).filterMap fun m => if m.isKept then some m.node else none
      let s ← takeOver count s (← visibleTexts taken)
      return ⟨s, true⟩ :: (rest.take n).map (fun m => ⟨m.node, false⟩) ++ rest.drop n
    else return ⟨s, true⟩ :: rest

def kept (marked : List Marked) : List Value :=
  marked.filterMap fun m => if m.isKept then some m.node else none

/-- The sections that are **kept**. -/
def thin (count : Value → Except Failure Nat) (threshold : Value) (sections : List Value) :
    Except Failure (List Value) := do
  return kept (← mark count threshold sections)

end DocTree.Markdown
