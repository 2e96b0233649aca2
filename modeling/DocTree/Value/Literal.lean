import DocTree.Text.Quoted
import DocTree.Text.Search
import DocTree.Value.Basic

/-!
# Literal text of values

A **literal text** shows the kind of a value: texts are quoted, lists stand in brackets and objects
in braces. A text is **displayed** as itself, everything else by its literal text.
-/

namespace DocTree.Value

mutual

def literal : Value → String
  | .null => "None"
  | .bool b => if b then "True" else "False"
  | .int n => Decimal.intText n
  | .float x => x.text
  | .str s => Text.quoted s
  | .list items => "[" ++ Text.join ", " (literalItems items) ++ "]"
  | .object fields => "\x7b" ++ Text.join ", " (literalFields fields) ++ "\x7d"

def literalItems : List Value → List String
  | [] => []
  | v :: rest => literal v :: literalItems rest

def literalFields : List (String × Value) → List String
  | [] => []
  | (k, v) :: rest => (Text.quoted k ++ ": " ++ literal v) :: literalFields rest

end

/-- The text of a value inside running text. -/
def display : Value → String
  | .str s => s
  | v => literal v

end DocTree.Value
