/-!
# Searching and splitting

Texts are searched as lists of characters. Occurrences are found from the left, and when all
occurrences are replaced or split at, they do not overlap.
-/

namespace DocTree.Text

/-! ### Beginnings and ends -/

/-- What follows `start` in a text that begins with it. -/
def after? : List Char → List Char → Option (List Char)
  | [], cs => some cs
  | _ :: _, [] => none
  | p :: ps, c :: cs => if p = c then after? ps cs else none

def beginsWith (start cs : List Char) : Bool := (after? start cs).isSome

def startsWith (s start : String) : Bool := beginsWith start.toList s.toList

def endsWith (s finish : String) : Bool := beginsWith finish.toList.reverse s.toList.reverse

def endsWithAny (s : String) (endings : List String) : Bool := endings.any (endsWith s)

/-! ### Occurrences -/

/-- The text before and after the **first occurrence** of `needle`. -/
def cutFirst? (needle : List Char) : List Char → Option (List Char × List Char)
  | [] => if needle.isEmpty then some ([], []) else none
  | c :: cs =>
    match after? needle (c :: cs) with
    | some rest => some ([], rest)
    | none => (cutFirst? needle cs).map fun (before, rest) => (c :: before, rest)

/-- The text before and after the **last occurrence** of `needle`. -/
def cutLast? (needle : List Char) : List Char → Option (List Char × List Char)
  | [] => if needle.isEmpty then some ([], []) else none
  | c :: cs =>
    match cutLast? needle cs with
    | some (before, rest) => some (c :: before, rest)
    | none => (after? needle (c :: cs)).map fun rest => ([], rest)

def occursIn (needle cs : List Char) : Bool := (cutFirst? needle cs).isSome

def contains (s needle : String) : Bool := occursIn needle.toList s.toList

/-! ### Replacing -/

/-- Replaces every occurrence, after `skip` characters that belong to one already replaced. -/
def replaceFrom (needle new : List Char) : Nat → List Char → List Char
  | _, [] => []
  | skip + 1, _ :: cs => replaceFrom needle new skip cs
  | 0, c :: cs =>
    if beginsWith needle (c :: cs) then new ++ replaceFrom needle new (needle.length - 1) cs
    else c :: replaceFrom needle new 0 cs

/-- Every occurrence of the non-empty `needle` replaced by `new`. -/
def replaceList (needle new cs : List Char) : List Char := replaceFrom needle new 0 cs

def replace (s needle new : String) : String :=
  String.ofList (replaceList needle.toList new.toList s.toList)

/-! ### Splitting -/

/-- The pieces of a list of characters between occurrences of one character; there is always
at least one piece. -/
def splitAtChar (sep : Char) : List Char → List (List Char)
  | [] => [[]]
  | c :: cs =>
    if c = sep then [] :: splitAtChar sep cs
    else
      match splitAtChar sep cs with
      | [] => [[c]]
      | piece :: rest => (c :: piece) :: rest

def split (s : String) (sep : Char) : List String :=
  (splitAtChar sep s.toList).map String.ofList

def join (sep : String) : List String → String
  | [] => ""
  | [piece] => piece
  | piece :: rest => piece ++ sep ++ join sep rest

/-! ### Lines -/

/-- The **lines** of a text, separated by line feeds. -/
def lines (s : String) : List String := split s '\n'

/-- Line ends written as a carriage return, with or without a line feed, become line feeds. -/
def unifyLineEnds : List Char → List Char
  | [] => []
  | '\r' :: '\n' :: cs => '\n' :: unifyLineEnds cs
  | '\r' :: cs => '\n' :: unifyLineEnds cs
  | c :: cs => c :: unifyLineEnds cs

/-! ### Cuts by position -/

def take (s : String) (n : Nat) : String := String.ofList (s.toList.take n)

def drop (s : String) (n : Nat) : String := String.ofList (s.toList.drop n)

/-- Upper-case ASCII letters in lower case, and the two letters beyond ASCII whose lower case
contains one. -/
def lowerList : List Char → List Char
  | [] => []
  | c :: cs =>
    if c.toNat = 0x212a then 'k' :: lowerList cs
    else if c.toNat = 0x130 then 'i' :: Char.ofNat 0x307 :: lowerList cs
    else c.toLower :: lowerList cs

/-- Whether a text ends with one of several lower-case endings, upper and lower case being the
same. -/
def endsWithAnyCase (s : String) (endings : List String) : Bool :=
  endsWithAny (String.ofList (lowerList s.toList)) endings

end DocTree.Text
