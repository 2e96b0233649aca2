import DocTree.Json.Reader
import DocTree.Value.Access

/-!
# Data in replies

Extraction takes what a fence encloses, writes every null in JSON's own word, puts runs of white
space into one space, and tries a second time without commas before closing brackets. What cannot be
read gives the empty object.
-/

namespace DocTree.Reply

/-- The last line of a prompt that asks for data. -/
def jsonOnly : String :=
  "Directly return the final JSON structure. Do not output anything else."

def fence : List Char := ['\x60', '\x60', '\x60']

def openingFence : List Char := fence ++ ['j', 's', 'o', 'n']

/-- The text **inside the fence**: after the first opening fence and before the last fence, which
may be the opening one. Without an opening fence it is the whole reply. -/
def fenced (cs : List Char) : List Char :=
  match Text.cutFirst? openingFence cs with
  | none => cs
  | some (before, _) =>
    let stop := match Text.cutLast? fence cs with
      | some (kept, _) => kept.length
      | none => cs.length
    (cs.take stop).drop (before.length + openingFence.length)

/-- The text with every word for nothing in JSON's own spelling. -/
def spellNull (cs : List Char) : List Char :=
  Text.replaceList ['N', 'o', 'n', 'e'] ['n', 'u', 'l', 'l'] cs

/-- The text with every run of white space as one space, and none at its ends. -/
def collapse (cs : List Char) : List Char :=
  [' '].intercalate (Text.wordLists cs)

/-- The text of a reply **as it is read**. -/
def normalize (cs : List Char) : List Char :=
  collapse (spellNull (Text.trimList (fenced cs)))

/-- The text without a comma before a closing bracket or brace. -/
def dropCommas (cs : List Char) : List Char :=
  Text.replaceList [',', '\x7d'] ['\x7d'] (Text.replaceList [',', ']'] [']'] cs)

/-- The value in the text of a reply. -/
def extractList (nesting : Nat) (cs : List Char) : Value :=
  let text := normalize cs
  match Json.parseList nesting text with
  | .ok v => v
  | .error .malformed =>
    match Json.parseList nesting (dropCommas text) with
    | .ok v => v
    | .error _ => .object []
  | .error _ => .object []

/-- The **value in a reply**, nested at most `nesting` deep; the empty object if there is none. -/
def extract (nesting : Nat) : Value → Value
  | .str s => extractList nesting s.toList
  | _ => .object []

/-- The text of a reply **without its fences**: after the first opening one, and before the last. -/
def contentList (cs : List Char) : List Char :=
  let body := match Text.cutFirst? openingFence cs with
    | some (_, rest) => rest
    | none => cs
  let body := match Text.cutLast? fence body with
    | some (kept, _) => kept
    | none => body
  Text.trimList body

def content (s : String) : String := String.ofList (contentList s.toList)

end DocTree.Reply
