import DocTree.Code.JavaToken

/-!
# Reading Java tokens

Work that consumes tokens from the left. A failure to fit the grammar can be answered by another
reading from the same place; a lack of tokens cannot.
-/

namespace DocTree.Java

/-- Why a list of tokens is not read. -/
inductive ParseFault where
  /-- The tokens do not fit the grammar. -/
  | malformed
  /-- There is no token where one is needed. -/
  | exhausted
  /-- The tokens end after an operand. -/
  | brokenOff

/-- Work that consumes **tokens** and may fail. The tokens that it leaves end those it was given. -/
def Parse (α : Type) : Type :=
  (ts : List Token) → Except ParseFault (α × { rest : List Token // rest <:+ ts })

instance : Monad Parse where
  pure a := fun ts => .ok (a, ⟨ts, List.suffix_rfl⟩)
  bind work next := fun ts => do
    let (a, rest) ← work ts
    let (b, last) ← next a rest
    return (b, ⟨last, last.2.trans rest.2⟩)

/-- What a token has to be. -/
inductive Pattern where
  | text (text : String)
  | kind (kind : TokenKind)

instance : Coe String Pattern := ⟨.text⟩

instance : Coe TokenKind Pattern := ⟨.kind⟩

def Pattern.fits : Pattern → Token → Bool
  | .text s, t => t.text == s
  | .kind k, t => t.kind == k

/-- Whether the tokens at the beginning of a list fit patterns. -/
def fitAll : List Pattern → List Token → Bool
  | [], _ => true
  | _ :: _, [] => false
  | p :: ps, t :: ts => p.fits t && fitAll ps ts

namespace Parse

/-- The tokens that are left. -/
def remaining : Parse (List Token) := fun ts => .ok (ts, ⟨ts, List.suffix_rfl⟩)

def peek : Parse (Option Token) := return (← remaining).head?

def line : Parse Nat := do
  match ← peek with
  | some t => return t.line
  | none => return 0

/-- The documentation comment before the next token. -/
def doc : Parse (Option String) := return (← peek).bind Token.doc

def next : Parse Token
  | t :: rest => .ok (t, ⟨rest, List.suffix_cons t rest⟩)
  | [] => .error .exhausted

def malformed : Parse α := fun _ => .error .malformed

def sees (patterns : List Pattern) : Parse Bool := return fitAll patterns (← remaining)

def seesAny (texts : List String) : Parse Bool := do
  match ← peek with
  | some t => return texts.contains t.text
  | none => return false

/-- Consumes the next tokens if they fit patterns. -/
def tryAccept (patterns : List Pattern) : Parse Bool := fun ts =>
  if fitAll patterns ts then .ok (true, ⟨ts.drop patterns.length, List.drop_suffix _ ts⟩)
  else .ok (false, ⟨ts, List.suffix_rfl⟩)

/-- Consumes a token that has to fit a pattern. -/
def acceptOne (pattern : Pattern) : Parse String := do
  let t ← next
  if pattern.fits t then return t.text else malformed

/-- Consumes tokens that have to fit patterns. -/
def accept : List Pattern → Parse Unit
  | [] => return ()
  | p :: ps => do
    let _ ← acceptOne p
    accept ps

def identifier : Parse String := acceptOne TokenKind.identifier

/-- The result of a reading, or nothing if it does not fit the grammar. -/
def attempt (work : Parse α) : Parse (Option α) := fun ts =>
  match work ts with
  | .ok (a, rest) => .ok (some a, rest)
  | .error .malformed => .ok (none, ⟨ts, List.suffix_rfl⟩)
  | .error fault => .error fault

/-- Consumes nothing if some work says that it has found nothing. -/
def orStay (work : Parse Bool) : Parse Unit := fun ts =>
  match work ts with
  | .ok (true, rest) => .ok ((), rest)
  | .ok (false, _) => .ok ((), ⟨ts, List.suffix_rfl⟩)
  | .error fault => .error fault

/-- Repeats some work at most `n` times as long as `more` says so. -/
def repeatUpTo (more : Parse Bool) (work : Parse α) : Nat → Parse (List α)
  | 0 => return []
  | n + 1 => do
    if ← more then
      let a ← work
      return a :: (← repeatUpTo more work n)
    else return []

def repeatWhile (more : Parse Bool) (work : Parse α) : Parse (List α) := do
  repeatUpTo more work (← remaining).length

/-- Repeats some work until the next token has a text. Where the tokens end, the work decides. -/
def repeatUntil (text : String) (work : Parse α) : Parse (List α) := do
  repeatUpTo (return !(← sees [text])) work ((← remaining).length + 1)

/-- One or more pieces between which a token stands. -/
def separated (separator : String) (work : Parse α) : Parse (List α) := do
  let first ← work
  return first :: (← repeatWhile (tryAccept [separator]) work)

def qualifiedName : Parse String := return Text.join "." (← separated "." identifier)

/-- Whether an annotation is next, not the declaration of one. -/
def seesMark : Parse Bool := do
  return (← sees [TokenKind.atSign]) && !(← sees [TokenKind.atSign, "interface"])

def seesMarkType : Parse Bool := sees [TokenKind.atSign, "interface"]

end Parse

end DocTree.Java
