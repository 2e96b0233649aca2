import DocTree.Value.Literal

/-!
# Failures

Every way in which an operation can fail, as a cause and not as a text. The wording of the
causes that have one is in `Failure.message?`.
-/

namespace DocTree

/-- What is wrong with an argument whose kind is right. -/
inductive Complaint where
  | notAnInteger (text : String)
  /-- The text has more digits than are read. -/
  | tooManyDigits (digits : Nat)
  /-- A fraction that is not a number has no integer part. -/
  | notANumber
  /-- The number has more digits than are written. -/
  | tooLongToWrite
  | unknownReader (name : Value)
  /-- The document is neither a readable PDF path nor a byte stream. -/
  | notADocument
  | noSuchPath (path : String)
  | unreadablePath (path : String)
  /-- Files of this kind are not indexed. -/
  | unsupportedExtension
  /-- The options have keys that the defaults do not know. -/
  | unknownKeys (keys : List String)
  /-- An expression in a formatted text cannot be printed without a backslash. -/
  | unprintableExpression
  | notACharacter
  | noInput
  /-- The command line names more than one input. -/
  | severalInputs
  | notAPdfPath
  | noPdfFile (path : String)
  | notAMarkdownPath
  | noMarkdownFile (path : String)
  /-- There is no source file or directory at the path. -/
  | noSourcePath (path : String)
deriving DecidableEq

inductive Mismatch where
  /-- The kinds do not matter any further. -/
  | unspecified
  /-- A value of this kind has no fields. -/
  | noFields (holder : Value.Kind)
  /-- A value of this kind is not a position in a list. -/
  | noPosition (position : Value.Kind)
  | unordered (left right : Value.Kind)
  | noSum (left right : Value.Kind)
  | noDifference (left right : Value.Kind)
  | notWhole (kind : Value.Kind)
  /-- A value of this kind contains nothing. -/
  | notAContainer (kind : Value.Kind)
deriving DecidableEq

/-- What is **wrong with a configuration text**: a character, a token, the order of tokens, a
reference or a second document, or a content. -/
inductive ConfigFault where
  | character
  | token
  | order
  | reference
  | content
deriving DecidableEq

/-- The **causes of failure**. -/
inductive Failure where
  | wrongKind (why : Mismatch := .unspecified)
  /-- A value has no such operation. Where it is known, the kind of a value without fields to look
  up is told. -/
  | noOperation (holder? : Option Value.Kind := none)
  /-- An object or a table has no entry for the key. -/
  | missingKey (key : Value)
  /-- A position lies outside a list. -/
  | outOfRange
  | divisionByZero
  /-- A number is too large to be a fraction. -/
  | overflow
  /-- An argument of the right kind is unacceptable. -/
  | complaint (why : Complaint)
  /-- A reply was not finished. -/
  | unfinishedReply (finish : String)
  | endlessContents
  /-- No way of reading the document gave an acceptable table of contents. -/
  | processingFailed
  | undefinedName
  /-- A name is used before it is given a value. -/
  | unsetName
  | fileNotFound
  | isDirectory
  | notDirectory
  /-- The bytes of a file are not UTF-8. -/
  | undecodable
  | malformedJson
  | tooDeep
  /-- The tokens ended early. -/
  | tokensExhausted
  | unreadableToken
  | malformedConfig (fault : ConfigFault)
  /-- The step budget is used up. -/
  | outOfFuel
deriving DecidableEq

namespace Complaint

def message : Complaint → String
  | .notAnInteger text =>
    "invalid literal for int() with base 10: " ++ Text.take (Text.quoted text) 200
  | .tooManyDigits n =>
    "Exceeds the limit (4300 digits) for integer string conversion: value has " ++
      Decimal.natText n ++ " digits; use sys.set_int_max_str_digits() to increase the limit"
  | .notANumber => "cannot convert float NaN to integer"
  | .tooLongToWrite =>
    "Exceeds the limit (4300 digits) for integer string conversion; " ++
      "use sys.set_int_max_str_digits() to increase the limit"
  | .unknownReader name => "Unsupported PDF parser: " ++ name.display
  | .notADocument => "Unsupported input type. Expected a PDF file path or BytesIO object."
  | .noSuchPath path => "Path does not exist: " ++ path
  | .unreadablePath path => "Failed to process path: " ++ path
  | .unsupportedExtension => "File extension not supported"
  | .unknownKeys _ => "Unknown config keys"
  | .unprintableExpression => "Unable to avoid backslash in f-string expression part"
  | .notACharacter => "chr() arg not in range(0x110000)"
  | .noInput => "One of --pdf_path, --md_path, or --code_path must be specified"
  | .severalInputs => "Only one of --pdf_path, --md_path, or --code_path can be specified"
  | .notAPdfPath => "PDF file must have .pdf extension"
  | .noPdfFile path => "PDF file not found: " ++ path
  | .notAMarkdownPath => "Markdown file must have .md or .markdown extension"
  | .noMarkdownFile path => "Markdown file not found: " ++ path
  | .noSourcePath path => "Path not found: " ++ path

end Complaint

namespace Mismatch

/-- A kind between quotation marks. -/
def quotedWord (kind : Value.Kind) : String := "'" ++ kind.word ++ "'"

/-- The wording of an operation that is not there for two kinds. -/
def unsupported (sign : String) (left right : Value.Kind) : String :=
  "unsupported operand type(s) for " ++ sign ++ ": " ++ quotedWord left ++ " and " ++
    quotedWord right

/-- The wording of a sum of a text or a list with something else. -/
def unjoinable (left right : Value.Kind) : String :=
  "can only concatenate " ++ left.word ++ " (not \"" ++ right.word ++ "\") to " ++ left.word

def message? : Mismatch → Option String
  | .unspecified => none
  | .noFields .list => some "list indices must be integers or slices, not str"
  | .noFields .str => some "string indices must be integers, not 'str'"
  | .noFields holder => some (quotedWord holder ++ " object is not subscriptable")
  | .noPosition position => some ("list indices must be integers or slices, not " ++ position.word)
  | .unordered left right =>
    some ("'<' not supported between instances of " ++ quotedWord left ++ " and " ++
      quotedWord right)
  | .noSum .str right => some (unjoinable .str right)
  | .noSum .list right => some (unjoinable .list right)
  | .noSum left right => some (unsupported "+" left right)
  | .noDifference left right => some (unsupported "-" left right)
  | .notWhole kind => some (quotedWord kind ++ " object cannot be interpreted as an integer")
  | .notAContainer kind => some ("argument of type " ++ quotedWord kind ++ " is not iterable")

end Mismatch

namespace Failure

def message? : Failure → Option String
  | .wrongKind why => why.message?
  | .noOperation holder? =>
    holder?.map fun holder => Mismatch.quotedWord holder ++ " object has no attribute 'get'"
  | .outOfRange => some "list index out of range"
  | .overflow => some "int too large to convert to float"
  | .missingKey key => some key.literal
  | .complaint why => some why.message
  | .unfinishedReply finish => some ("finish reason: " ++ finish)
  | .endlessContents => some "Failed to complete table of contents after maximum retries"
  | .processingFailed => some "Processing failed"
  | _ => none

/-- The failure **in words**. -/
def describe (why : Failure) : String := why.message?.getD ""

end Failure

end DocTree
