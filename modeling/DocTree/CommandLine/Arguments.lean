import DocTree.Text.Integer
import DocTree.Text.Search

/-!
# Arguments of the command line

Every option has a name and one value, which is the next argument or follows an equals sign. The
beginning of a name is enough if no other name begins in the same way.
-/

namespace DocTree.CommandLine

/-! ### Options -/

inductive Flag where
  | help
  | pdfPath
  | markdownPath
  | codePath
  | model
  | checkedPages
  | maxPages
  | maxTokens
  | identifiers
  | summary
  | description
  | text
  | thinning
  | thinningThreshold
  | summaryThreshold
deriving DecidableEq

def names : List (String × Flag) :=
  [("-h", .help), ("--help", .help), ("--pdf_path", .pdfPath), ("--md_path", .markdownPath),
   ("--code_path", .codePath), ("--model", .model), ("--toc-check-pages", .checkedPages),
   ("--max-pages-per-node", .maxPages), ("--max-tokens-per-node", .maxTokens),
   ("--if-add-node-id", .identifiers), ("--if-add-node-summary", .summary),
   ("--if-add-doc-description", .description), ("--if-add-node-text", .text),
   ("--if-thinning", .thinning), ("--thinning-threshold", .thinningThreshold),
   ("--summary-token-threshold", .summaryThreshold)]

/-- What the **command line** says. -/
structure Command where
  pdfPath : Option String := none
  markdownPath : Option String := none
  codePath : Option String := none
  model : String := "gpt-4o-2024-11-20"
  checkedPages : Int := 20
  maxPages : Int := 10
  maxTokens : Int := 20000
  identifiers : String := "yes"
  summary : String := "yes"
  description : String := "no"
  text : String := "no"
  thinning : String := "no"
  thinningThreshold : Int := 5000
  summaryThreshold : Int := 200

/-- Why there is **nothing to do**: help was asked for, or the arguments are wrong. -/
inductive Stop where
  | help
  | badArguments
deriving DecidableEq

def Stop.status : Stop → Nat
  | .help => 0
  | .badArguments => 2

def number (value : String) : Except Stop Int :=
  match Text.readInteger value with
  | .number n => .ok n
  | _ => .error .badArguments

def Command.set (c : Command) (flag : Flag) (value : String) : Except Stop Command := do
  match flag with
  | .help => .error .help
  | .pdfPath => return { c with pdfPath := some value }
  | .markdownPath => return { c with markdownPath := some value }
  | .codePath => return { c with codePath := some value }
  | .model => return { c with model := value }
  | .checkedPages => return { c with checkedPages := ← number value }
  | .maxPages => return { c with maxPages := ← number value }
  | .maxTokens => return { c with maxTokens := ← number value }
  | .identifiers => return { c with identifiers := value }
  | .summary => return { c with summary := value }
  | .description => return { c with description := value }
  | .text => return { c with text := value }
  | .thinning => return { c with thinning := value }
  | .thinningThreshold => return { c with thinningThreshold := ← number value }
  | .summaryThreshold => return { c with summaryThreshold := ← number value }

/-! ### Arguments -/

/-- What an argument is **taken for**: a value, an option, with or without a value, or neither. -/
inductive Piece where
  | value (text : String)
  | option (flag : Flag) (own? : Option String)
  | shortHelp (rest : String)
  | stray

/-- The parts of an argument before and after its first equals sign. -/
def cutEquals (arg : String) : String × Option String :=
  match Text.cutFirst? ['='] arg.toList with
  | some (before, after) => (String.ofList before, some (String.ofList after))
  | none => (arg, none)

/-- Whether characters are at least one digit, before one line end at most. -/
def areDigits (cs : List Char) : Bool :=
  let rest := cs.dropWhile Text.isDigit
  rest.length < cs.length && (rest.isEmpty || rest == ['\n'])

/-- Whether a text is a negative number: digits, of which some follow a point if there is one. -/
def isNegativeNumber (arg : String) : Bool :=
  match arg.toList with
  | '-' :: rest =>
    areDigits rest ||
      match rest.dropWhile Text.isDigit with
      | '.' :: digits => areDigits digits
      | _ => false
  | _ => false

def longOption (arg : String) : Except Stop Piece :=
  let (name, own?) := cutEquals arg
  match names.filter fun n => Text.startsWith n.1 name with
  | [(_, flag)] => .ok (.option flag own?)
  | [] => .ok (if Text.contains arg " " then .value arg else .stray)
  | _ => .error .badArguments

def pieceOf (arg : String) : Except Stop Piece :=
  match arg.toList with
  | [] | ['-'] => .ok (.value arg)
  | '-' :: '-' :: _ =>
    let (name, own?) := cutEquals arg
    match names.lookup arg, names.lookup name with
    | some flag, _ => .ok (.option flag none)
    | none, some flag => .ok (.option flag own?)
    | none, none => longOption arg
  | '-' :: 'h' :: rest => .ok (.shortHelp (String.ofList rest))
  | '-' :: _ =>
    if isNegativeNumber arg || Text.contains arg " " then .ok (.value arg) else .ok .stray
  | _ => .ok (.value arg)

/-- What the arguments are taken for. Two dashes end the options. -/
def pieces : List String → Except Stop (List Piece)
  | [] => .ok []
  | "--" :: rest => .ok (.stray :: rest.map .value)
  | arg :: rest => do
    let piece ← pieceOf arg
    return piece :: (← pieces rest)

/-- Whether what follows the short name for help asks for help again. -/
def asksAgain (rest : String) : Bool :=
  match rest.toList with
  | '=' :: rest => !rest.isEmpty && rest.all (· == 'h')
  | rest => rest.all (· == 'h')

/-- The command of the arguments. A value without an option and a stray argument are wrong only at
the end. -/
def commandOf : (command : Command) → (strays : Bool) → List Piece → Except Stop Command
  | command, strays, [] => if strays then .error .badArguments else .ok command
  | command, _, .value _ :: rest => commandOf command true rest
  | command, _, .stray :: rest => commandOf command true rest
  | _, _, .shortHelp tail :: _ => .error (if asksAgain tail then .help else .badArguments)
  | _, _, .option .help own? :: _ => .error (if own?.isNone then .help else .badArguments)
  | command, strays, .option flag (some own) :: rest => do
    commandOf (← command.set flag own) strays rest
  | command, strays, .option flag none :: .value text :: rest => do
    commandOf (← command.set flag text) strays rest
  | _, _, .option _ none :: _ => .error .badArguments

def parse (args : List String) : Except Stop Command := do
  commandOf {} false (← pieces args)

end DocTree.CommandLine
