import DocTree.Code.Directory
import DocTree.Code.Summary
import DocTree.Outline.Format
import DocTree.Outline.Number
import DocTree.Outline.Prune

/-!
# Indexes of source code

The tree of a source file or directory, thinned, with identifiers, summaries, texts and a
description as far as they are wanted.
-/

namespace DocTree.Code

/-- What an **index** of source code shall hold. -/
structure IndexOptions where
  thinning : Value := .bool false
  minTokens : Value := .int 5000
  summary : Value := .str "no"
  summaryThreshold : Value := .int 200
  model : Value := .str "gpt-4o-2024-11-20"
  description : Value := .str "no"
  text : Value := .str "no"
  identifiers : Value := .str "yes"

def fieldOrder : List String :=
  ["title", "node_id", "type", "signature", "docstring", "decorators", "start_line", "end_line",
   "summary", "prefix_summary", "text", "path", "nodes"]

/-- The tree of what is at a path from the root on, if it can be made, and its name. -/
def sourceTree (around : Surroundings) (path : String) : Run (Option Value × String) := do
  if around.files.isFile path then
    if Text.endsWithAny path sourceEndings then
      return (← fileTree around path, (Path.splitExtension (Path.baseName path)).1)
    else throw (.complaint .unsupportedExtension)
  else if around.files.isDirectory path then
    return (← directoryTree around path, Path.baseName (Path.normalize path))
  else throw (.complaint (.noSuchPath path))

/-- A tree **thinned** if that is wanted. -/
def thinned (counter : TokenCounter) (options : IndexOptions) (tree : Value) : Run Value := do
  if options.thinning.isTruthy then
    Run.printLine "Applying tree thinning..."
    thin (counter.count options.model) options.minTokens tree
  else return tree

def numbered (options : IndexOptions) (tree : Value) : Except Failure Value := do
  if options.identifiers.isStr "yes" then return (← Outline.number tree (.int 0)).1
  else return tree

def summarized (counter : TokenCounter) (options : IndexOptions) (tree : Value) : Run Value := do
  if options.summary.isStr "yes" then
    Run.printLine "Generating summaries..."
    addSummaries counter options.model options.summaryThreshold tree
  else return tree

/-- A tree with thinning, identifiers and summaries as far as they are wanted. -/
def completed (counter : TokenCounter) (options : IndexOptions) (tree : Value) : Run Value := do
  let tree ← thinned counter options tree
  let tree ← Outline.dropEmptyNodes tree
  let tree ← numbered options tree
  summarized counter options tree

/-- A tree as it is shown: fields in order, no paths, and texts only if they are wanted. -/
def presented (options : IndexOptions) (tree : Value) : Except Failure Value := do
  let tree ← Outline.format tree (.ofTexts fieldOrder)
  let tree ← if options.text.isStr "no" then Outline.dropField "text" tree else pure tree
  Outline.dropField "path" tree

/-- The **index** of what is at a path. -/
def index (around : Surroundings) (counter : TokenCounter) (options : IndexOptions)
    (path : String) : Run Value := do
  let path := around.files.absolute path
  match ← sourceTree around path with
  | (none, _) => throw (.complaint (.unreadablePath path))
  | (some tree, name) =>
    let tree ← presented options (← completed counter options tree)
    if options.description.isStr "yes" then
      Run.printLine "Generating document description..."
      let description ← Outline.describe options.model (Outline.forDescription tree)
      return .object [("doc_name", .str name), ("doc_description", description),
        ("structure", .list [tree])]
    else return .object [("doc_name", .str name), ("structure", .list [tree])]

end DocTree.Code
