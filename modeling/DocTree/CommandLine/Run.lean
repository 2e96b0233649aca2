import DocTree.Code.Index
import DocTree.CommandLine.Arguments
import DocTree.Document
import DocTree.Markdown.Index

/-!
# Work of the command line

The command line names one input: a PDF document, a Markdown file, or a source file or directory.
Its index is saved as JSON in the directory `results`.
-/

namespace DocTree.CommandLine

/-- What a command works **on**: the files and what surrounds them, and the document that a PDF path
stands for. -/
structure Place where
  around : Code.Surroundings
  pdf : Pdf
  counter : TokenCounter

/-- A file that was **written**: its path and its text. -/
structure Saved where
  path : String
  text : String

def save (name : String) (ascii : Bool) (index : Value) : Run Saved := do
  Run.printLine "Parsing done, saving to file..."
  let path := "./results/" ++ name ++ "_structure.json"
  Run.printLine ("Tree structure saved to: " ++ path)
  return { path := path, text := Json.render { ascii := ascii, indent := some "  " } index }

def stem (path : String) : String := (Path.splitExtension (Path.baseName path)).1

def Command.settings (c : Command) : Settings :=
  [("model", .str c.model), ("toc_check_page_num", .int c.checkedPages),
   ("max_page_num_each_node", .int c.maxPages), ("max_token_num_each_node", .int c.maxTokens),
   ("if_add_node_id", .str c.identifiers), ("if_add_node_summary", .str c.summary),
   ("if_add_doc_description", .str c.description), ("if_add_node_text", .str c.text)]

def Command.thins (c : Command) : Bool := Text.lowerList c.thinning.toList = "yes".toList

def runPdf (place : Place) (c : Command) (path : String) : Run Saved := do
  if !Text.endsWithAnyCase path [".pdf"] then Run.fail (.complaint .notAPdfPath)
  if !place.around.files.isFile path then Run.fail (.complaint (.noPdfFile path))
  let index ← Document.index place.pdf place.around.files.isFile (.path (.str path)) place.counter
    c.settings
  save (stem path) true index

def runMarkdown (place : Place) (c : Command) (path : String) : Run Saved := do
  if !Text.endsWithAnyCase path [".md", ".markdown"] then
    Run.fail (.complaint .notAMarkdownPath)
  if !place.around.files.isFile path then Run.fail (.complaint (.noMarkdownFile path))
  Run.printLine "Processing markdown file..."
  let options : Markdown.IndexOptions :=
    { thinning := .bool c.thins, minTokens := .int c.thinningThreshold
      summary := .str c.summary, summaryThreshold := .int c.summaryThreshold
      model := .str c.model, description := .str c.description, text := .str c.text
      identifiers := .str c.identifiers }
  save (stem path) false (← Markdown.index place.around.files place.counter options path)

def runCode (place : Place) (c : Command) (path : String) : Run Saved := do
  let files := place.around.files
  let isFile := files.isFile path
  if !isFile && !files.isDirectory path then Run.fail (.complaint (.noSourcePath path))
  if isFile && !Text.endsWithAnyCase path Code.sourceEndings then
    Run.fail (.complaint .unsupportedExtension)
  Run.printLine "Processing Python code..."
  let options : Code.IndexOptions :=
    { thinning := .bool c.thins, minTokens := .int c.thinningThreshold
      summary := .str c.summary, summaryThreshold := .int c.summaryThreshold
      model := .str c.model, description := .str c.description, text := .str c.text
      identifiers := .str c.identifiers }
  let index ← Code.index place.around place.counter options path
  let name := if isFile then stem path else Path.baseName (Path.normalize path)
  save (name ++ "_code") false index

/-- Does **what a command asks for**. An empty path is an input, but there is nothing to do for
it. -/
def run (place : Place) (c : Command) : Run (Option Saved) := do
  match c.pdfPath, c.markdownPath, c.codePath with
  | none, none, none => Run.fail (.complaint .noInput)
  | some path, none, none => nonEmpty path (runPdf place c)
  | none, some path, none => nonEmpty path (runMarkdown place c)
  | none, none, some path => nonEmpty path (runCode place c)
  | _, _, _ => Run.fail (.complaint .severalInputs)
where
  /-- Works on a path that is not empty. -/
  nonEmpty (path : String) (work : String → Run Saved) : Run (Option Saved) := do
    if path.isEmpty then return none else return some (← work path)

end DocTree.CommandLine
