import DocTree.Json.Printer
import DocTree.Pdf

/-!
# Log files

The log of a run is kept in a file that is named for the document and the moment. A message that is
an object is an entry of its own; any other message is put into one.
-/

namespace DocTree

/-- A **log**: the name of its file, and its entries. -/
structure Log where
  fileName : String
  entries : List Value := []

namespace Log

/-- The empty log of a document whose indexing began at a given moment. -/
def ofDocument (pdf : Pdf) (source : Pdf.Source) (moment : String) : Except Failure Log := do
  return { fileName := (← pdf.nameOf source) ++ "_" ++ moment ++ ".json" }

def path (log : Log) : String := Path.join "logs" log.fileName

def entryOf : Value → Value
  | .object fields => .object fields
  | message => .object [("message", message)]

/-- The log with one more **message**. -/
def add (log : Log) (message : Value) : Log :=
  { log with entries := log.entries ++ [entryOf message] }

/-- How the entries are written: in ASCII, with two spaces for each level. -/
def style : Json.Style := { ascii := true, indent := some "  " }

def text (log : Log) : String := Json.render style (.list log.entries)

end Log

end DocTree
