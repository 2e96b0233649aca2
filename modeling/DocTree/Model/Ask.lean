import DocTree.Reply.Extract
import DocTree.Session

/-!
# Asking a model

A model is asked at most ten times; when all attempts have failed the content is the word `Error`.
The ways of asking differ in what they report besides the content.
-/

namespace DocTree.Ask

def maxAttempts : Nat := 10

inductive Finish where
  | finished
  | maxOutputReached
  | error
deriving DecidableEq

def Finish.text : Finish → String
  | .finished => "finished"
  | .maxOutputReached => "max_output_reached"
  | .error => "error"

/-- The messages of a request: the history, if there is one, and the prompt. -/
def messages (history : List Message) (prompt : String) : List Message :=
  history ++ [Message.user (.str prompt)]

/-- Asks until a reply is an answer, at most `n` times. Each failure is announced. -/
def attempts : Nat → Request → Run (Option (Value × Value))
  | 0, _ => return none
  | n + 1, r => do
    match ← Run.ask r with
    | .answer content finish => return some (content, finish)
    | .failure _ =>
      Run.printLine "************* Retrying *************"
      attempts n r

/-- The content that is told of an answer; without one it is the word `Error`. -/
def contentOf : Option (Value × Value) → Value
  | some (content, _) => content
  | none => .str "Error"

def finishOf : Option (Value × Value) → Finish
  | some (_, finish) => if finish.isStr "length" then .maxOutputReached else .finished
  | none => .error

/-- The **content** of the reply to a prompt after a history. -/
def content (model : Value) (prompt : String) (history : List Message := []) : Run Value := do
  let r := { model := model, concurrent := false, messages := messages history prompt }
  return contentOf (← attempts maxAttempts r)

/-- The content of the reply and **how it ended**. -/
def withFinish (model : Value) (prompt : String) (history : List Message := []) :
    Run (Value × Finish) := do
  let r := { model := model, concurrent := false, messages := messages history prompt }
  let answer? ← attempts maxAttempts r
  return (contentOf answer?, finishOf answer?)

/-- The content of the reply to a prompt asked **beside** others. -/
def concurrently (model : Value) (prompt : String) : Run Value := do
  let r := { model := model, concurrent := true, messages := messages [] prompt }
  return contentOf (← attempts maxAttempts r)

/-! ### Message lists that are shared -/

/-- Work on **shared lists** of messages: a list is known by its place, and changes for all who know
it. -/
abbrev Shared := StateT (List (List Message)) Run

def messagesAt (place : Nat) : Shared (List Message) := return (← get).getD place []

/-- A list of its own, and its place. -/
def newList (ms : List Message) : Shared Nat :=
  modifyGet fun lists => (lists.length, lists ++ [ms])

def addMessage (place : Nat) (m : Message) : Shared Unit :=
  modify fun lists => lists.modify place (· ++ [m])

/-- The list for one attempt: a **copy of the history** with the prompt at its end. -/
def prepare (history : Nat) (prompt : String) : Shared Nat := do
  let place ← newList (← messagesAt history)
  addMessage place (Message.user (.str prompt))
  return place

/-- Asks until a reply is an answer, at most `n` times. Every attempt makes its list anew. -/
def sharedAttempts (model : Value) (history : Nat) (prompt : String) :
    Nat → Shared (Option (Value × Value))
  | 0 => return none
  | n + 1 => do
    let ms ← messagesAt (← prepare history prompt)
    match ← Run.ask { model := model, concurrent := false, messages := ms } with
    | .answer content finish => return some (content, finish)
    | .failure _ =>
      Run.printLine "************* Retrying *************"
      sharedAttempts model history prompt n

def sharedContent (model : Value) (prompt : String) (history : Nat) : Shared Value :=
  contentOf <$> sharedAttempts model history prompt maxAttempts

def sharedWithFinish (model : Value) (prompt : String) (history : Nat) : Shared (Value × Finish) :=
  (fun answer? => (contentOf answer?, finishOf answer?)) <$>
    sharedAttempts model history prompt maxAttempts

/-! ### Data -/

/-- The **data** in a reply. -/
def data (reply : Value) : Run Value := return Reply.extract (← Run.nesting) reply

end DocTree.Ask
