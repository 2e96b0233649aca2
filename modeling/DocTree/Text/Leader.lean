/-!
# Leader dots

Five or more dots in a row, or five or more dots each followed by a space, become a colon and a
space.
-/

namespace DocTree.Text

/-- The least number of dots of a leader. -/
def leaderLength : Nat := 5

def leaderMark : List Char := [':', ' ']

/-- What a row of dots becomes. -/
def rowOf (unit : List Char) (count : Nat) : List Char :=
  if leaderLength ≤ count then leaderMark else (List.replicate count unit).flatten

/-- Replaces rows of dots, where `count` dots came just before. -/
def collapseDotsFrom (count : Nat) : List Char → List Char
  | [] => rowOf ['.'] count
  | '.' :: cs => collapseDotsFrom (count + 1) cs
  | c :: cs => rowOf ['.'] count ++ c :: collapseDotsFrom 0 cs

/-- Every row of at least five **dots** becomes a colon and a space. -/
def collapseDots (cs : List Char) : List Char := collapseDotsFrom 0 cs

/-- Replaces rows of dots with spaces, after `count` such dots. A dot without a space still belongs
to the leader. -/
def collapseSpacedDotsFrom (count : Nat) : List Char → List Char
  | [] => rowOf ['.', ' '] count
  | '.' :: ' ' :: cs => collapseSpacedDotsFrom (count + 1) cs
  | c :: cs =>
    if c = '.' ∧ leaderLength ≤ count then leaderMark ++ collapseSpacedDotsFrom 0 cs
    else rowOf ['.', ' '] count ++ c :: collapseSpacedDotsFrom 0 cs

/-- Every row of at least five dots **with spaces** becomes a colon and a space. -/
def collapseSpacedDots (cs : List Char) : List Char := collapseSpacedDotsFrom 0 cs

/-- The text with its **leaders** replaced. -/
def collapseLeaders (s : String) : String :=
  String.ofList (collapseSpacedDots (collapseDots s.toList))

end DocTree.Text
