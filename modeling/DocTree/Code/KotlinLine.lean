import DocTree.Code.Node

/-!
# Lines of Kotlin source text

A line is an import, or it changes the balance of braces and may begin a declaration. Comments and
quoted texts are left out, as far as a single line shows them.
-/

namespace DocTree.Kotlin

open Code

/-! ### Words at the beginning of a line -/

def afterBlanks (cs : List Char) : List Char := cs.dropWhile Text.isBlank

/-- The text after one or more blanks. -/
def afterGap? : List Char → Option (List Char)
  | c :: cs => if Text.isBlank c then some (afterBlanks cs) else none
  | [] => none

/-- The first of several words that a text begins with, and what follows it. -/
def leadingWord? (words : List String) (cs : List Char) : Option (String × List Char) :=
  words.findSome? fun w => (Text.after? w.toList cs).map fun rest => (w, rest)

/-- The text after one of several words and the blanks around it, if it is there. -/
def afterOptional (words : List String) (cs : List Char) : List Char :=
  match leadingWord? words (afterBlanks cs) with
  | some (_, rest) => afterBlanks rest
  | none => afterBlanks cs

/-- Whether a character may belong to the name of a type. -/
def isNamePart (c : Char) : Bool := c.isAlphanum || c == '_'

/-- Whether a character may belong to the name of a function, which may be quoted. -/
def isFunctionNamePart (c : Char) : Bool := isNamePart c || c == '\x60'

/-- The name at the beginning of a text, which has to have one. -/
def name? (isPart : Char → Bool) (cs : List Char) : Option String :=
  let name := cs.takeWhile isPart
  if name.isEmpty then none else some (String.ofList name)

/-! ### Declarations -/

/-- What a declaration begins with: a type and its name, or a function with its signature. -/
inductive Head where
  | type (kind : Kind) (name : String)
  | function (name : String) (signature : String)

/-- The words for who may see a declaration. -/
def visibilities : List String := ["private", "public", "protected", "internal"]

/-- The words for the manner of a type. -/
def manners : List String := ["open", "data", "sealed", "annotation", "inner"]

def functionModifiers : List String :=
  visibilities ++ ["override", "suspend", "abstract", "open", "inline"]

/-- The kind of a type by the words for it, and what follows them. -/
def typeWord? (cs : List Char) : Option (Kind × List Char) :=
  match leadingWord? ["class", "interface", "object", "enum"] cs with
  | some ("class", rest) => some (.classDecl, rest)
  | some ("interface", rest) => some (.interfaceDecl, rest)
  | some ("object", rest) => some (.objectDecl, rest)
  | some (_, rest) => do
    let rest ← Text.after? "class".toList (← afterGap? rest)
    return (.enumDecl, rest)
  | none => none

/-- The **type** that a line declares. -/
def typeHead? (line : List Char) : Option Head := do
  let (kind, rest) ← typeWord? (afterOptional manners (afterOptional visibilities line))
  let name ← name? isNamePart (← afterGap? rest)
  return .type kind name

/-- The text after words that follow each other without blanks, at most `n`. -/
def afterWords (words : List String) : Nat → List Char → List Char
  | 0, cs => cs
  | n + 1, cs =>
    match leadingWord? words cs with
    | some (_, rest) => afterWords words n rest
    | none => cs

/-- The name of the **function** that a line declares. -/
def functionName? (line : List Char) : Option String := do
  let words := afterWords functionModifiers line.length (afterBlanks line)
  let rest ← Text.after? "fun".toList (afterBlanks words)
  name? isFunctionNamePart (← afterGap? rest)

/-- The signature on a line: what stands before a brace, without an equals sign at the end. -/
def signature (line : List Char) : String :=
  let text := Text.trimList (line.takeWhile (· != '\x7b'))
  String.ofList (if text.getLast? = some '=' then Text.trimList text.dropLast else text)

/-- The **function** that a line declares. -/
def functionHead? (line : List Char) : Option Head :=
  (functionName? line).map fun name => .function name (signature line)

/-- The declaration that a line begins; a type comes before a function. -/
def head? (line : List Char) : Option Head :=
  match typeHead? line with
  | some head => some head
  | none => functionHead? line

/-! ### Braces -/

/-- A line without the comment at its end. -/
def withoutComment (line : List Char) : List Char :=
  match Text.cutFirst? ['/', '/'] line with
  | some (before, _) => before
  | none => line

/-- A text without what stands between quotes; `inside` is the text since an opening quote, and
stays if there is no closing one. -/
def withoutQuoted (quote : Char) : Option (List Char) → List Char → List Char
  | none, [] => []
  | some inside, [] => quote :: inside.reverse
  | none, c :: cs =>
    if c = quote then withoutQuoted quote (some []) cs else c :: withoutQuoted quote none cs
  | some inside, c :: cs =>
    if c = quote then quote :: quote :: withoutQuoted quote none cs
    else withoutQuoted quote (some (c :: inside)) cs

def bare (line : List Char) : List Char :=
  withoutQuoted '\'' none (withoutQuoted '"' none (withoutComment line))

/-- By how much a line changes the **balance** of braces. -/
def braceChange (line : List Char) : Int :=
  ((bare line).count '\x7b' : Int) - (bare line).count '\x7d'

/-! ### Lines -/

/-- What a **line** holds: an import, or code that changes the balance of braces and may begin a
declaration or end a run of imports. -/
inductive Line where
  | imports (text : String)
  | code (change : Int) (hasBrace : Bool) (head : Option Head) (endsImports : Bool)

/-- Whether a text without blanks around it is an import. -/
def isImport (text : List Char) : Bool :=
  match Text.after? "import".toList text with
  | some rest => (afterGap? rest).isSome
  | none => false

/-- Whether a text ends a run of imports: it is neither empty nor a comment nor the name of the
package. -/
def endsImports (text : List Char) : Bool :=
  !text.isEmpty && !Text.beginsWith ['/', '/'] text && !Text.beginsWith "package".toList text

/-- What a line **holds**. -/
def readLine (line : List Char) : Line :=
  let text := Text.trimList line
  if isImport text then .imports (String.ofList text)
  else .code (braceChange line) (line.contains '\x7b') (head? line) (endsImports text)

end DocTree.Kotlin
