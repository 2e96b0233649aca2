import DocTree.Text.Search

/-!
# Help

The text that explains the options.
-/

namespace DocTree.CommandLine

def lineWidth : Nat := 78

/-- The options as they are shown in the usage. -/
def usageParts : List String :=
  ["[-h]", "[--pdf_path PDF_PATH]", "[--md_path MD_PATH]", "[--code_path CODE_PATH]",
   "[--model MODEL]", "[--toc-check-pages TOC_CHECK_PAGES]",
   "[--max-pages-per-node MAX_PAGES_PER_NODE]", "[--max-tokens-per-node MAX_TOKENS_PER_NODE]",
   "[--if-add-node-id IF_ADD_NODE_ID]", "[--if-add-node-summary IF_ADD_NODE_SUMMARY]",
   "[--if-add-doc-description IF_ADD_DOC_DESCRIPTION]", "[--if-add-node-text IF_ADD_NODE_TEXT]",
   "[--if-thinning IF_THINNING]", "[--thinning-threshold THINNING_THRESHOLD]",
   "[--summary-token-threshold SUMMARY_TOKEN_THRESHOLD]"]

/-- Puts parts into lines: a part that does not fit begins a new line at the given indentation. -/
def fill (indent : Nat) : (line : String) → List String → List String
  | line, [] => [line]
  | line, part :: rest =>
    if lineWidth < line.length + 1 + part.length then
      line :: fill indent (String.ofList (List.replicate indent ' ') ++ part) rest
    else fill indent (line ++ " " ++ part) rest

def usage (program : String) : String :=
  let start := "usage: " ++ program
  Text.join "\n" (fill (start.length + 1) start usageParts)

def explanations : String :=
  "options:
  -h, --help            show this help message and exit
  --pdf_path PDF_PATH   Path to the PDF file
  --md_path MD_PATH     Path to the Markdown file
  --code_path CODE_PATH
                        Path to Python file or directory
  --model MODEL         Model to use (supports multiple providers via LiteLLM:
                        anthropic/claude-sonnet-4-20250514,
                        gemini/gemini-2.0-flash, gpt-4o, ollama/llama3.1,
                        etc.)
  --toc-check-pages TOC_CHECK_PAGES
                        Number of pages to check for table of contents (PDF
                        only)
  --max-pages-per-node MAX_PAGES_PER_NODE
                        Maximum number of pages per node (PDF only)
  --max-tokens-per-node MAX_TOKENS_PER_NODE
                        Maximum number of tokens per node (PDF only)
  --if-add-node-id IF_ADD_NODE_ID
                        Whether to add node id to the node
  --if-add-node-summary IF_ADD_NODE_SUMMARY
                        Whether to add summary to the node
  --if-add-doc-description IF_ADD_DOC_DESCRIPTION
                        Whether to add doc description to the doc
  --if-add-node-text IF_ADD_NODE_TEXT
                        Whether to add text to the node
  --if-thinning IF_THINNING
                        Whether to apply tree thinning for markdown (markdown
                        only)
  --thinning-threshold THINNING_THRESHOLD
                        Minimum token threshold for thinning (markdown only)
  --summary-token-threshold SUMMARY_TOKEN_THRESHOLD
                        Token threshold for generating summaries (markdown
                        only)"

def helpText (program : String) : String :=
  usage program ++ "\n\nProcess PDF, Markdown, or Python code and generate structure\n\n" ++
    explanations

end DocTree.CommandLine
