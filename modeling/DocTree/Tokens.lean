import DocTree.Value.Access

/-!
# Counting tokens

The length of a text is measured in tokens. Which measure is available depends on the
surroundings; when none is, four characters count as one token.
-/

namespace DocTree

/-- The **measures** of length. -/
inductive TokenCounter where
  /-- Four characters are a token. -/
  | quarter
  /-- Every character is a token. -/
  | characters
  /-- Every byte of the UTF-8 form is a token, if the model is known. -/
  | bytes
  /-- Every word is a token. -/
  | words
deriving DecidableEq

namespace TokenCounter

def quarterOf (length : Nat) : Nat := length / 4

/-- The number of tokens of a **text**; `known` tells whether the model has a name. -/
def ofText (counter : TokenCounter) (known : Bool) (s : String) : Nat :=
  match counter with
  | .quarter => quarterOf s.length
  | .characters => s.length
  | .bytes => if known then s.utf8ByteSize else quarterOf s.length
  | .words => if s.isEmpty then 0 else (Text.words s).length

/-- The number of tokens of a **value**. What is empty has none, and what is not a text is measured
by its size. -/
def count (counter : TokenCounter) (model text : Value) : Except Failure Nat :=
  if text.isTruthy then
    match text with
    | .str s => .ok (counter.ofText (!model.isNull) s)
    | v =>
      match counter with
      | .characters => v.size
      | _ => return quarterOf (← v.size)
  else .ok 0

end TokenCounter

end DocTree
