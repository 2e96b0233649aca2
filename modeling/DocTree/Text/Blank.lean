/-!
# Blank characters

White space is one fixed set of 29 characters: separators, the ASCII controls from tab to carriage
return, the information separators and the next-line control.
-/

namespace DocTree.Text

/-- Whether a character is **white space**. -/
def isBlank (c : Char) : Bool :=
  let n := c.toNat
  (0x9 ≤ n && n ≤ 0xd) || (0x1c ≤ n && n ≤ 0x20) || n == 0x85 || n == 0xa0 || n == 0x1680 ||
    (0x2000 ≤ n && n ≤ 0x200a) || n == 0x2028 || n == 0x2029 || n == 0x202f || n == 0x205f ||
    n == 0x3000

/-! ### Trimming -/

/-- The characters from the first one on that is not `p`. -/
def dropStart (p : Char → Bool) (cs : List Char) : List Char := cs.dropWhile p

/-- The characters up to the last one that is not `p`. -/
def dropEnd (p : Char → Bool) (cs : List Char) : List Char := (cs.reverse.dropWhile p).reverse

/-- The characters without white space at either end. -/
def trimList (cs : List Char) : List Char := dropEnd isBlank (dropStart isBlank cs)

def trim (s : String) : String := String.ofList (trimList s.toList)

def isBlankText (s : String) : Bool := s.toList.all isBlank

/-! ### Words -/

/-- The words of a text, the first of which has already begun with the reversed `word`. -/
def wordsFrom (word : List Char) : List Char → List (List Char)
  | [] => if word.isEmpty then [] else [word.reverse]
  | c :: cs =>
    if isBlank c then
      if word.isEmpty then wordsFrom [] cs else word.reverse :: wordsFrom [] cs
    else wordsFrom (c :: word) cs

/-- The **words** of a list of characters: its maximal runs without white space. -/
def wordLists (cs : List Char) : List (List Char) := wordsFrom [] cs

def words (s : String) : List String := (wordLists s.toList).map String.ofList

end DocTree.Text
