import DocTree.Json.Printer
import DocTree.Model.Ask
import DocTree.Outline.Label
import DocTree.Reply.Extract

/-!
# Entries from pages

A model is shown labelled pages and asked for entries: to number a table or a structure, to make a
table from nothing, or to find the page of one title.
-/

namespace DocTree.Contents

/-- How data is written in a prompt: in ASCII, with two spaces for each level. -/
def promptStyle : Json.Style := { ascii := true, indent := some "  " }

/-- How sections are numbered. -/
def structureRule : String :=
  "The structure variable is the numeric system which represents the index of the hierarchy section in the table of contents. For example, the first section has structure index 1, the first subsection has structure index 1.1, the second subsection has structure index 1.2, etc."

/-! ### Given entries -/

def locatePrompt : String :=
  "
    You are given a table of contents in a json format and several pages of a document, your job is to add the physical_index to the table of contents in the json format.

    The provided pages contains tags like <physical_index_X> and <physical_index_X> to indicate the physical location of the page X.

    " ++ structureRule ++ "

    The response should be in the following JSON format: 
    [
        \x7b
            \"structure\": <structure index, \"x.x.x\" or None> (string),
            \"title\": <title of the section>,
            \"physical_index\": \"<physical_index_X>\" (keep the format)
        \x7d,
        ...
    ]

    Only add the physical_index to the sections that are in the provided pages.
    If the section is not in the provided pages, do not add the physical_index to it.
    " ++ Reply.jsonOnly

/-- A table of contents **with the labels** of the pages that are shown. -/
def locate (model contents pages : Value) : Run Value := do
  Run.printLine "start toc_index_extractor"
  let prompt := locatePrompt ++ "\nTable of contents:\n" ++ contents.display ++
    "\nDocument pages:\n" ++ (← pages.text)
  Ask.data (← Ask.content model prompt)

def fillInPrompt : String :=
  "
    You are given an JSON structure of a document and a partial part of the document. Your task is to check if the title that is described in the structure is started in the partial given document.

    The provided text contains tags like <physical_index_X> and <physical_index_X> to indicate the physical location of the page X. 

    If the full target section starts in the partial given document, insert the given JSON structure with the \"start\": \"yes\", and \"start_index\": \"<physical_index_X>\".

    If the full target section does not start in the partial given document, insert \"start\": \"no\",  \"start_index\": None.

    The response should be in the following format. 
        [
            \x7b
                \"structure\": <structure index, \"x.x.x\" or None> (string),
                \"title\": <title of the section>,
                \"start\": \"<yes or no>\",
                \"physical_index\": \"<physical_index_X> (keep the format)\" or None
            \x7d,
            ...
        ]    
    The given structure contains the result of the previous part, you need to fill the result of the current part, do not change the previous result.
    " ++ Reply.jsonOnly

/-- An entry without the mark that its section starts. -/
def dropStart (entry : Value) : Except Failure Value := do
  if ← entry.mentions "start" then entry.removeField "start" else return entry

def dropStarts (entries : Value) : Except Failure Value := do
  let items ← (← entries.elements).mapM dropStart
  match entries with
  | .list _ => return .list items
  | v => return v

/-- A structure **with the labels** of one part of a document. -/
def fillIn (model part structure' : Value) : Run Value := do
  let prompt := fillInPrompt ++ "\n\nCurrent Partial Document:\n" ++ part.display ++
    "\n\nGiven Structure\n" ++ Json.render promptStyle structure' ++ "\n"
  dropStarts (← Ask.data (← Ask.content model prompt))

/-! ### Entries from nothing -/

/-- The value in a reply that has ended by itself. -/
def finished (reply : Value × Ask.Finish) : Run Value :=
  match reply.2 with
  | .finished => Ask.data reply.1
  | finish => Run.fail (.unfinishedReply finish.text)

/-- How titles are copied, and where pages begin and end. -/
def titleRule : String :=
  "

    For the title, you need to extract the original title from the text, only fix the space inconsistency.

    The provided text contains tags like <physical_index_X> and <physical_index_X> to indicate the start and end of page X. "

/-- How pages are named. -/
def pageRule : String :=
  "For the physical_index, you need to extract the physical index of the start of the section from the text. Keep the <physical_index_X> format."

def generatePrompt : String :=
  "
    You are an expert in extracting hierarchical tree structure, your task is to generate the tree structure of the document.

    " ++ structureRule ++ titleRule ++ "

    " ++ pageRule ++ "

    The response should be in the following format. 
        [
            \x7b\x7b
                \"structure\": <structure index, \"x.x.x\"> (string),
                \"title\": <title of the section, keep the original title>,
                \"physical_index\": \"<physical_index_X> (keep the format)\"
            \x7d\x7d,
            
        ],


    " ++ Reply.jsonOnly

/-- A table of contents **made from pages**. -/
def generate (model part : Value) : Run Value := do
  Run.printLine "start generate_toc_init"
  finished (← Ask.withFinish model (generatePrompt ++ "\nGiven text\n:" ++ (← part.text)))

def generateOnPrompt : String :=
  "
    You are an expert in extracting hierarchical tree structure.
    You are given a tree structure of the previous part and the text of the current part.
    Your task is to continue the tree structure from the previous part to include the current part.

    " ++ structureRule ++ titleRule ++ "    
    " ++ pageRule ++ "

    The response should be in the following format. 
        [
            \x7b
                \"structure\": <structure index, \"x.x.x\"> (string),
                \"title\": <title of the section, keep the original title>,
                \"physical_index\": \"<physical_index_X> (keep the format)\"
            \x7d,
            ...
        ]    

    Directly return the additional part of the final JSON structure. Do not output anything else."

/-- **More** of a table of contents that is made from pages. -/
def generateOn (model soFar part : Value) : Run Value := do
  Run.printLine "start generate_toc_continue"
  let prompt := generateOnPrompt ++ "\nGiven text\n:" ++ (← part.text) ++
    "\nPrevious tree structure\n:" ++ Json.render promptStyle soFar
  finished (← Ask.withFinish model prompt)

/-! ### One title -/

def locateTitlePrompt : String :=
  "
    You are given a section title and several pages of a document, your job is to find the physical index of the start page of the section in the partial document.

    The provided pages contains tags like <physical_index_X> and <physical_index_X> to indicate the physical location of the page X.

    Reply in a JSON format:
    \x7b
        \"thinking\": <explain which page, started and closed by <physical_index_X>, contains the start of this section>,
        \"physical_index\": \"<physical_index_X>\" (keep the format)
    \x7d
    " ++ Reply.jsonOnly

/-- The **page of one title** in the pages that are shown. -/
def locateTitle (model title pages : Value) : Run Value := do
  let prompt := locateTitlePrompt ++ "\nSection Title:\n" ++ title.display ++
    "\nDocument pages:\n" ++ (← pages.text)
  let reply ← Ask.data (← Ask.content model prompt)
  Outline.readLabels (← reply.field "physical_index")

end DocTree.Contents
