import DocTree.Model.Ask
import DocTree.Outline.Preorder

/-!
# Summaries and descriptions

A model summarises the text of every node, and describes a whole document by its outline. All
summaries are made before the first is written down.
-/

namespace DocTree.Outline

def summaryPrompt (text : String) : String :=
  "You are given a part of a document, your task is to generate a description of the partial document about what are main points covered in the partial document.

    Partial Document Text: " ++ text ++ "
    
    Directly return the description, do not include any other text.
    "

def summarize (model node : Value) : Run Value := do
  let text ← node.field "text"
  Ask.concurrently model (summaryPrompt text.display)

/-! ### Writing values into nodes -/

mutual

/-- Sets the field that `keyOf` names for a node, in document order, to the next of the values, and
tells which are left. -/
def assign (keyOf : Fields → Option String) : Value → List Value → Value × List Value
  | .object fields, values =>
    match keyOf fields, values with
    | some _, [] => (.object fields, [])
    | some key, x :: values =>
      let (below, values) := assignBelow keyOf fields values
      (.object (Fields.set below key x), values)
    | none, values =>
      let (below, values) := assignBelow keyOf fields values
      (.object below, values)
  | .list items, values =>
    let (items, values) := assignList keyOf items values
    (.list items, values)
  | v, values => (v, values)

def assignList (keyOf : Fields → Option String) : List Value → List Value → List Value × List Value
  | [], values => ([], values)
  | v :: rest, values =>
    let (v, values) := assign keyOf v values
    let (rest, values) := assignList keyOf rest values
    (v :: rest, values)

def assignBelow (keyOf : Fields → Option String) :
    List (String × Value) → List Value → List (String × Value) × List Value
  | [], values => ([], values)
  | (k, v) :: rest, values =>
    if k = "nodes" then
      let (v, values) := assign keyOf v values
      ((k, v) :: rest, values)
    else
      let (rest, values) := assignBelow keyOf rest values
      ((k, v) :: rest, values)

end

/-- The field for the summary of a node: that of a node with children is a summary of what comes
before them. -/
def summaryKey (fields : Fields) : String :=
  if ((Fields.get? fields "nodes").getD .null).isTruthy then "prefix_summary" else "summary"

/-- Gives every node its **summary**. -/
def addSummaries (model outline : Value) : Run Value := do
  let all ← required (← nodes outline)
  let summaries ← Run.together (all.map (summarize model))
  return (assign (fun _ => some "summary") outline summaries).1

/-! ### Descriptions -/

def descriptionPrompt (outline : Value) : String :=
  "Your are an expert in generating descriptions for a document.
    You are given a structure of a document. Your task is to generate a one-sentence description for the document, which makes it easy to distinguish the document from other documents.
        
    Document Structure: " ++ outline.display ++ "
    
    Directly return the description, do not include any other text.
    "

/-- The **description** of a document with a given outline. -/
def describe (model outline : Value) : Run Value := Ask.content model (descriptionPrompt outline)

end DocTree.Outline
