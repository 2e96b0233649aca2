import DocTree.Model.Ask
import DocTree.Outline.Label
import DocTree.Reply.Extract
import DocTree.Value.Arith

/-!
# Complete tables of contents

A model copies a table of contents out of a text, or turns it into data, and is asked to go on until
the reply is complete. The patience of the session bounds these loops.
-/

namespace DocTree.Contents

/-! ### Completeness -/

def coversPrompt : String :=
  "
    You are given a partial document  and a  table of contents.
    Your job is to check if the  table of contents is complete, which it contains all the main sections in the partial document.

    Reply format:
    \x7b
        \"thinking\": <why do you think the table of contents is complete or not>
        \"completed\": \"yes\" or \"no\"
    \x7d
    " ++ Reply.jsonOnly

/-- Whether a table of contents **covers a document**. -/
def coversDocument (model document contents : Value) : Run Value := do
  let prompt := coversPrompt ++ "\n Document:\n" ++ (← document.text) ++
    "\n Table of contents:\n" ++ (← contents.text)
  (← Ask.data (← Ask.content model prompt)).field "completed"

def completePrompt : String :=
  "
    You are given a raw table of contents and a  table of contents.
    Your job is to check if the  table of contents is complete.

    Reply format:
    \x7b
        \"thinking\": <why do you think the cleaned table of contents is complete or not>
        \"completed\": \"yes\" or \"no\"
    \x7d
    " ++ Reply.jsonOnly

/-- Whether a cleaned table of contents is **complete**. -/
def isComplete (model raw cleaned : Value) : Run Value := do
  let prompt := completePrompt ++ "\n Raw Table of contents:\n" ++ (← raw.text) ++
    "\n Cleaned Table of contents:\n" ++ (← cleaned.text)
  (← Ask.data (← Ask.content model prompt)).field "completed"

/-- Whether a reply ended by itself and its text is judged to be complete. -/
def isDone (answer : Value) (finish : Ask.Finish) : Bool := answer.isStr "yes" && finish = .finished

/-! ### Copying -/

def copyPrompt (content : String) : String :=
  "
    Your job is to extract the full table of contents from the given text, replace ... with :

    Given text: " ++ content ++ "

    Directly return the full table of contents content. Do not output anything else."

def goOnPrompt : String :=
  "please continue the generation of table of contents , directly output the remaining part of the structure"

/-- The greatest number of messages that a history may have. -/
def historyLimit : Nat := 5

/-- Asks to go on until the text is complete. The model is shown its text so far; a history that is
too long is a failure. -/
def copyOn (model content : Value) : (rounds : Nat) → (history : List Message) →
    (prompt : String) → (soFar : Value) → (finish : Ask.Finish) → Run Value
  | 0, _, _, _, _ => Run.fail .outOfFuel
  | rounds + 1, history, prompt, soFar, finish => do
    let answer ← isComplete model content soFar
    if historyLimit < history.length then Run.fail .endlessContents
    else if isDone answer finish then return soFar
    else
      let history := [Message.user (.str prompt), Message.assistant soFar]
      let (more, finish) ← Ask.withFinish model goOnPrompt history
      copyOn model content rounds history goOnPrompt (← soFar.add more) finish

/-- The table of contents **in a text**. -/
def copy (model content : Value) : Run Value := do
  let prompt := copyPrompt content.display
  let (soFar, finish) ← Ask.withFinish model prompt
  copyOn model content (← Run.patience) [] prompt soFar finish

/-! ### Transforming -/

def transformPrompt : String :=
  "
    You are given a table of contents, You job is to transform the whole table of content into a JSON format included table_of_contents.

    structure is the numeric system which represents the index of the hierarchy section in the table of contents. For example, the first section has structure index 1, the first subsection has structure index 1.1, the second subsection has structure index 1.2, etc.

    The response should be in the following JSON format: 
    \x7b
    table_of_contents: [
        \x7b
            \"structure\": <structure index, \"x.x.x\" or None> (string),
            \"title\": <title of the section>,
            \"page\": <page number or None>,
        \x7d,
        ...
        ],
    \x7d
    You should transform the full table of contents in one go.
    Directly return the final JSON structure, do not output anything else. "

def transformOnPrompt (raw soFar : String) : String :=
  "
        Your task is to continue the table of contents json structure, directly output the remaining part of the json structure.
        The response should be in the following JSON format: 

        The raw table of contents json structure is:
        " ++ raw ++ "

        The incomplete transformed table of contents json structure is:
        " ++ soFar ++ "

        Please continue the json structure, directly output the remaining part of the json structure."

/-- What is kept of a broken reply: everything up to the **last closing brace**, and one character
after it. -/
def cutAtBrace (s : String) : String :=
  match Text.cutLast? ['\x7d'] s.toList with
  | some (before, rest) => String.ofList (before ++ '\x7d' :: rest.take 1)
  | none => s

/-- The text so far with a further reply, which counts only if it opens a fence. -/
def stitch (soFar reply : String) : String :=
  if Text.beginsWith Reply.openingFence reply.toList then soFar ++ Reply.content reply else soFar

/-- Asks for the rest until the text is complete. -/
def transformOn (model : Value) (raw : String) : (rounds : Nat) → (soFar : String) → Run String
  | 0, _ => Run.fail .outOfFuel
  | rounds + 1, soFar => do
    let kept := cutAtBrace soFar
    let (reply, finish) ← Ask.withFinish model (transformOnPrompt raw kept)
    let soFar := stitch kept (← reply.asText)
    let answer ← isComplete model (.str raw) (.str soFar)
    if isDone answer finish then return soFar else transformOn model raw rounds soFar

def parse (nesting : Nat) (s : String) : Except Failure Value :=
  match Json.parse nesting s with
  | .ok v => .ok v
  | .error .malformed => .error .malformedJson
  | .error (.tooManyDigits digits) => .error (.complaint (.tooManyDigits digits))
  | .error .tooDeep => .error .tooDeep

/-- A table of contents as a **list of entries**. -/
def transform (model contents : Value) : Run Value := do
  Run.printLine "start toc_transformer"
  let raw ← contents.text
  let (reply, finish) ←
    Ask.withFinish model (transformPrompt ++ "\n Given table of contents\n:" ++ raw)
  let answer ← isComplete model contents reply
  if isDone answer finish then
    Outline.readPages (← (← Ask.data reply).field "table_of_contents")
  else
    let whole ← transformOn model raw (← Run.patience) (Reply.content (← reply.asText))
    Outline.readPages (← (← parse (← Run.nesting) whole).field "table_of_contents")

end DocTree.Contents
