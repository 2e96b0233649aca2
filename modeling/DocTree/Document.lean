import DocTree.Outline.Number
import DocTree.Outline.PageText
import DocTree.Outline.Split
import DocTree.Outline.Summary
import DocTree.Pdf
import DocTree.Settings.File

/-!
# Indexing documents

The index of a PDF document: its name, its outline, and on request a description. Settings decide
about identifiers, texts and summaries.
-/

namespace DocTree.Document

/-- The name of the model whose tokens are counted. -/
def tokenModel : Value := .str "gpt-4o-2024-11-20"

/-- An outline **with what the settings ask for**, and the description of the document if it is asked
for. -/
def decorate (settings : Settings) (pages : List Page) (outline : Value) :
    Run (Value × Option Value) := do
  let numbered ← settings.isYes "if_add_node_id"
  let outline ← if numbered then withIdentifiers outline else pure outline
  let texts ← settings.isYes "if_add_node_text"
  let outline ← if texts then withTexts outline else pure outline
  let summaries ← settings.isYes "if_add_node_summary"
  if !summaries then return (outline, none)
  let bare := (← settings.get "if_add_node_text").isStr "no"
  let outline ← if bare then withTexts outline else pure outline
  let outline ← Outline.addSummaries (← settings.get "model") outline
  let outline := if bare then Outline.dropTexts outline else outline
  let described ← settings.isYes "if_add_doc_description"
  if !described then return (outline, none)
  let description ←
    Outline.describe (← settings.get "model") (Outline.forDescription outline)
  return (outline, some description)
where
  withIdentifiers (outline : Value) : Run Value := do
    return (← Outline.number outline (.int 0)).1
  withTexts (outline : Value) : Run Value :=
    Outline.addTexts (Page.textBetween pages) outline

def index (pdf : Pdf) (isFile : String → Bool) (source : Pdf.Source) (counter : TokenCounter)
    (settings : Settings) : Run Value := Run.logged do
  let _ ← pdf.nameOf source
  if !Pdf.canOpen isFile source then Run.fail (.complaint .notADocument)
  Run.printLine "Parsing PDF..."
  let pages ← pdf.pagesOf counter isFile source tokenModel .byPath
  Run.info (.object [("total_page_number", .ofNat pages.length)])
  Run.info (.object [("total_token", .int (Outline.tokensOf pages))])
  let outline ← Outline.ofDocument counter settings pages
  let (outline, description?) ← decorate settings pages (.list outline)
  let name := Value.str (← pdf.nameOf source)
  match description? with
  | some description =>
    return .object [("doc_name", name), ("doc_description", description), ("structure", outline)]
  | none => return .object [("doc_name", name), ("structure", outline)]

/-- The index of a document with the settings of some **arguments**. -/
def indexWith (pdf : Pdf) (isFile : String → Bool) (source : Pdf.Source) (counter : TokenCounter)
    (argument : String → Value) : Run Value := do
  index pdf isFile source counter (← Settings.ofArguments argument)

end DocTree.Document
