import DocTree.Value.Arith

/-!
# Merging texts

When a node takes over the texts of the nodes below it, they are put one after the other with a
gap between them, unless a line ends there anyway.
-/

namespace DocTree.Outline

/-- Whether a gap is needed before a text can follow. -/
def needsGap (text : Value) : Except Failure Bool :=
  if text.isTruthy then do return !Text.endsWith (← text.asText) "\n" else .ok false

/-- A text with **one more** after it. -/
def appendText (gap : String) (text more : Value) : Except Failure Value := do
  let text ← if ← needsGap text then text.add (.str gap) else pure text
  text.add more

end DocTree.Outline
