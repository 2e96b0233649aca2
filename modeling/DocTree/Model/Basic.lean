import DocTree.Text.Search
import DocTree.Value.Basic

/-!
# Language models

A model is any function of the conversation so far. A **script** is one given by rules, which look
for texts in the last message, and a queue of replies for all other requests.
-/

namespace DocTree

/-- One message of a conversation: who speaks, and what is said. -/
structure Message where
  role : Value
  content : Value
deriving DecidableEq

def Message.user (content : Value) : Message := { role := .str "user", content := content }

def Message.assistant (content : Value) : Message :=
  { role := .str "assistant", content := content }

/-- A request: the name of the model, whether other requests may run beside it, and the
messages. -/
structure Request where
  model : Value
  concurrent : Bool
  messages : List Message
deriving DecidableEq

def Request.prompt (r : Request) : Value :=
  match r.messages.getLast? with
  | some m => m.content
  | none => .null

/-- What a model gives back: content with the reason why it ended, or a failure. -/
inductive Reply where
  | answer (content : Value) (finish : Value)
  | failure (text : String)
deriving DecidableEq

/-- A **model**: its reply as a function of all requests so far, the present one last. -/
abbrev Model := List Request → Reply

/-- A model whose reply depends on the last request only. -/
def Model.Stateless (m : Model) : Prop :=
  ∀ before before' : List Request, ∀ r : Request, m (before ++ [r]) = m (before' ++ [r])

/-! ### Scripts -/

/-- A rule gives its reply to every request whose last message holds all the texts. -/
structure Rule where
  texts : List String
  reply : Reply

def Rule.applies (rule : Rule) (r : Request) : Bool :=
  match r.prompt with
  | .str s => rule.texts.all (Text.contains s)
  | _ => rule.texts.isEmpty

/-- A **script**: rules, of which the first that applies answers, and a queue of replies for other
requests. -/
structure Script where
  rules : List Rule
  queue : List Reply

/-- The reply of the first rule that applies. -/
def Script.byRule? (s : Script) (r : Request) : Option Reply :=
  (s.rules.find? (·.applies r)).map Rule.reply

/-- The model that follows a script. It fails when no rule answers and the queue has run out. -/
def Script.model (s : Script) : Model := fun requests =>
  match requests.getLast? with
  | none => .failure "no scripted reply"
  | some r =>
    match s.byRule? r with
    | some reply => reply
    | none =>
      let used := (requests.dropLast.filter fun q => (s.byRule? q).isNone).length
      match s.queue[used]? with
      | some reply => reply
      | none => .failure "no scripted reply"

end DocTree
