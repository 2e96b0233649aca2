import DocTree.Outline.Summary
import DocTree.Tokens
import DocTree.Value.Arith

/-!
# Summaries of source trees

A short declaration is summarised by the first line of its description, or by the beginning of
its own text. For a longer one a model is asked.
-/

namespace DocTree.Code

/-- A line of the prompt that names a part of a node; empty if the node has no such part. -/
def partLine (label : String) (part : Value) : String :=
  if part.isTruthy then label ++ ": " ++ part.display else ""

/-- The **prompt** for the summary of a node. Only the beginning of a long text is shown. -/
def summaryPrompt (type signature docstring text : Value) : Except Failure String := do
  let shown ← text.slice 0 3000
  let more := if 3000 < (← text.size) then "..." else ""
  return "You are given a Python " ++ type.display ++ ". Generate a concise one-sentence summary of what it does.

" ++ partLine "Signature" signature ++ "
" ++ partLine "Docstring" docstring ++ "

Code:
" ++ shown.display ++ more ++ "

Directly return the summary, do not include any other text."

def firstLine (text : String) : String := ((Text.lines (Text.trim text)).head?).getD ""

def shortSummary (docstring text : Value) : Except Failure Value := do
  if docstring.isTruthy then return .str (firstLine (← docstring.asText))
  else if text.isTruthy then text.slice 0 200
  else return .str ""

/-- The **summary** of a node with a token counter and a threshold below which a node is short. -/
def summarize (counter : TokenCounter) (model threshold node : Value) : Run Value := do
  let text ← node.lookupOr "text" (.str "")
  let signature ← node.lookupOr "signature" (.str "")
  let docstring ← node.lookupOr "docstring" (.str "")
  let type ← node.lookupOr "type" (.str "")
  let tokens ← counter.count model text
  if ← Value.less (.ofNat tokens) threshold then shortSummary docstring text
  else Ask.concurrently model (← summaryPrompt type signature docstring text)

/-- Whether a node is summarised: it is a file or a declaration of one of these kinds. -/
def isSummarized (fields : Fields) : Bool :=
  match Fields.get? fields "type" with
  | some (.str type) =>
    ["class", "function", "method", "interface", "enum", "file"].contains type
  | _ => false

def fieldsOf : Value → Fields
  | .object fields => fields
  | _ => []

/-- The nodes of a tree **with their summaries**. -/
def addSummaries (counter : TokenCounter) (model threshold tree : Value) : Run Value := do
  let all ← Outline.required (← Outline.nodes tree)
  let chosen := all.filter fun node => isSummarized (fieldsOf node)
  let summaries ← Run.together (chosen.map (summarize counter model threshold))
  let keyOf := fun fields => if isSummarized fields then some (Outline.summaryKey fields) else none
  return (Outline.assign keyOf tree summaries).1

end DocTree.Code
