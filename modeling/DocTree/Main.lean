import DocTree.CommandLine.Help
import DocTree.CommandLine.Run

/-!
# The program

Reads what the command names, does the work, prints and saves. Replies are lines of the standard
input. The text of a PDF document has a form feed between pages.
-/

namespace DocTree.Program

def textOf (bytes : ByteArray) : Option String := String.fromUTF8? bytes

/-- What stands at a path below the working directory. -/
partial def load (path : String) : IO (Option Entry) := do
  let place := (← IO.currentDir) / path
  if ← place.isDir then
    let mut entries := []
    for found in ← place.readDir do
      if let some entry ← load (Path.join path found.fileName) then
        entries := Entry.setEntry found.fileName entry entries
    return some (.directory entries)
  else if ← place.pathExists then return some (.file (textOf (← IO.FS.readBinFile place)))
  else return none

partial def lines (stream : IO.FS.Stream) : IO (List String) := do
  let line ← stream.getLine
  if line.isEmpty then return []
  return Text.replace line "\n" "" :: (← lines stream)

def pathOf (c : CommandLine.Command) : String :=
  ((c.pdfPath <|> c.markdownPath <|> c.codePath).getD "")

/-- The place of a command, with the file or directory that it names. -/
def placeOf (path : String) (found? : Option Entry) (home : String) : CommandLine.Place :=
  let top := Entry.directory []
  let steps := (Path.components path).filter fun name => name ≠ "" ∧ name ≠ "."
  let files : Files :=
    { home := home
      top := match found? with | some found => Entry.insert found steps top | none => top }
  let pages :=
    match files.readText path with
    | .ok text => (text.splitOn "\x0c")
    | .error _ => []
  { around := { files := files }, pdf := { pages := pages }, counter := .quarter }

/-- The session of replies that are given in order. -/
def sessionOf (replies : List String) : Session :=
  { model := Script.model
      { rules := [], queue := replies.map fun r => .answer (.str r) (.str "stop") }
    nesting := 990 }

def perform (c : CommandLine.Command) : IO UInt32 := do
  let path := pathOf c
  let found? ← if path.isEmpty then pure none else load path
  let replies ← lines (← IO.getStdin)
  let place := placeOf path found? (toString (← IO.currentDir))
  let (outcome, ledger) := Run.execute (CommandLine.run place c) (sessionOf replies) {}
  IO.print ledger.printed
  match outcome with
  | .ok (some saved) =>
    IO.FS.createDirAll "results"
    IO.FS.writeFile saved.path saved.text
    return 0
  | .ok none => return 0
  | .error why =>
    IO.eprintln ((why.message?).getD "The command failed.")
    return 1

end DocTree.Program

def main (args : List String) : IO UInt32 := do
  match DocTree.CommandLine.parse args with
  | .ok command => DocTree.Program.perform command
  | .error stop =>
    let text := DocTree.CommandLine.helpText "doctree"
    if stop = .help then IO.println text else IO.eprintln (DocTree.CommandLine.usage "doctree")
    return UInt32.ofNat stop.status
