import DocTree.Value.Access

/-!
# Page numbers in tables of contents

Pages are named by numbers, by texts that are numbers, or by labels such as `<physical_index_7>`,
which become numbers where they can be read.
-/

namespace DocTree.Outline

/-- The last piece of a text between underscores. -/
def lastPiece (s : String) : List Char :=
  ((Text.splitAtChar '_' s.toList).getLast?).getD []

/-- The number of a **label**; nothing if the text is not a label. -/
def labelNumber? (s : String) : Except Failure (Option Int) := do
  if Text.startsWith s "<physical_index_" then
    let piece := Text.trimList (Text.dropEnd (· == '>') (lastPiece s))
    return some (← Value.parseInteger (String.ofList piece))
  else if Text.startsWith s "physical_index_" then
    return some (← Value.parseInteger (String.ofList (Text.trimList (lastPiece s))))
  else return none

def readLabel (entry : Value) : Except Failure Value := do
  match entry.field? "physical_index" with
  | some (.str s) =>
    match ← labelNumber? s with
    | some n => entry.setField "physical_index" (.int n)
    | none => return entry
  | _ => return entry

/-- Numbers **in place of labels**: in the entries of a list, or for a single text. -/
def readLabels : Value → Except Failure Value
  | .list entries => do return .list (← entries.mapM readLabel)
  | .str s => do
    match ← labelNumber? s with
    | some n => return .int n
    | none => return .null
  | v => .ok v

/-- An entry with the number of its page, if the page is a text that can be read as one. -/
def readPage (entry : Value) : Except Failure Value := do
  if ← entry.mentions "page" then
    match ← entry.field "page" with
    | .str s =>
      match Text.readInteger s with
      | .number n => entry.setField "page" (.int n)
      | _ => return entry
    | _ => return entry
  else return entry

/-- Numbers **in place of page texts** in all entries. -/
def readPages (entries : Value) : Except Failure Value := do
  let read ← (← entries.elements).mapM readPage
  match entries with
  | .list _ => return .list read
  | v => return v

end DocTree.Outline
