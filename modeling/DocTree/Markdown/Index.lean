import DocTree.Files
import DocTree.Markdown.Section
import DocTree.Markdown.Tree
import DocTree.Outline.Format
import DocTree.Outline.Prune
import DocTree.Outline.Summary

/-!
# Indexes of Markdown texts

The tree of the sections of a file, thinned, with summaries, texts and a description as far as they
are wanted.
-/

namespace DocTree.Markdown

/-! ### Summaries -/

/-- The **summary** of a section; a short section is its own summary. -/
def summarize (counter : TokenCounter) (model threshold node : Value) : Run Value := do
  let text ← node.lookup "text"
  if ← Value.less (.ofNat (← counter.count model text)) threshold then return text
  else Outline.summarize model node

/-- The nodes of a tree **with their summaries**. -/
def addSummaries (counter : TokenCounter) (model threshold tree : Value) : Run Value := do
  let all ← Outline.required (← Outline.nodes tree)
  let summaries ← Run.together (all.map (summarize counter model threshold))
  return (Outline.assign (fun fields => some (Outline.summaryKey fields)) tree summaries).1

/-! ### Indexes -/

/-- What an **index** of a Markdown text shall hold. -/
structure IndexOptions where
  thinning : Value := .bool false
  minTokens : Value := .null
  summary : Value := .str "no"
  summaryThreshold : Value := .null
  model : Value := .null
  description : Value := .str "no"
  text : Value := .str "no"
  identifiers : Value := .str "yes"

def orderWithText : List String :=
  ["title", "node_id", "summary", "prefix_summary", "text", "line_num", "nodes"]

def orderWithoutText : List String :=
  ["title", "node_id", "summary", "prefix_summary", "line_num", "nodes"]

/-- The sections of a text, thinned if that is wanted. -/
def sectionsOf (counter : TokenCounter) (options : IndexOptions) (text : String) :
    Run (List Value) := do
  Run.printLine "Extracting nodes from markdown..."
  let headings := (headings text).map Heading.value
  Run.printLine "Extracting text content from nodes..."
  let all ← sections (Text.lines text) headings
  if options.thinning.isTruthy then
    let counted ← countTokens (counter.count options.model) all
    Run.printLine "Thinning nodes..."
    return (← thin (counter.count options.model) options.minTokens counted)
  else return all

/-- The tree of a text, numbered anew if that is wanted. -/
def treeOfText (counter : TokenCounter) (options : IndexOptions) (text : String) : Run Value := do
  let all ← sectionsOf counter options text
  Run.printLine "Building tree from nodes..."
  let tree := Value.list (← treeOf all)
  if options.identifiers.isStr "yes" then return (← Outline.number tree (.int 0)).1
  else return tree

/-- A tree with its summaries. The texts of its nodes are left out afterwards if they are not
wanted. -/
def summarized (counter : TokenCounter) (options : IndexOptions) (tree : Value) : Run Value := do
  let tree ← Outline.format tree (.ofTexts orderWithText)
  Run.printLine "Generating summaries for each node..."
  let tree ← addSummaries counter options.model options.summaryThreshold tree
  if options.text.isStr "no" then return (← Outline.format tree (.ofTexts orderWithoutText))
  else return tree

/-- The **index** of a text with a name. There is no description without summaries. -/
def indexOf (counter : TokenCounter) (options : IndexOptions) (name text : String) :
    Run Value := do
  let tree ← treeOfText counter options text
  Run.printLine "Formatting tree structure..."
  if options.summary.isStr "yes" then
    let tree ← summarized counter options tree
    if options.description.isStr "yes" then
      Run.printLine "Generating document description..."
      let description ← Outline.describe options.model (Outline.forDescription tree)
      return .object [("doc_name", .str name), ("doc_description", description),
        ("structure", tree)]
    else return .object [("doc_name", .str name), ("structure", tree)]
  else
    let order := if options.text.isStr "yes" then orderWithText else orderWithoutText
    return .object [("doc_name", .str name), ("structure", ← Outline.format tree (.ofTexts order))]

/-- The **index** of the Markdown file at a path. -/
def index (files : Files) (counter : TokenCounter) (options : IndexOptions) (path : String) :
    Run Value := do
  let text ← files.readText path
  indexOf counter options (Path.splitExtension (Path.baseName path)).1 text

end DocTree.Markdown
