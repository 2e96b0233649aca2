import DocTree.Yaml.Cursor

/-!
# Texts of scalars

In quotes and plainly, one line break is read as a space and of several all but the first are kept;
a block keeps its lines, or joins them in the same way.
-/

namespace DocTree.Yaml

/-- A text that was read, and the place after it. -/
abbrev Reading := Except Failure (List Char × Cursor)

/-- What a line break is read as, given the breaks after it. -/
def folded (first more : List Char) : List Char :=
  if first != ['\n'] then first ++ more else if more.isEmpty then [' '] else more

/-! ### Quoted scalars -/

/-- The character that a letter after a backslash stands for. -/
def escapes : List (Char × Char) :=
  [('0', '\x00'), ('a', '\x07'), ('b', '\x08'), ('t', '\t'), ('\t', '\t'), ('n', '\n'),
   ('v', '\x0b'), ('f', '\x0c'), ('r', '\r'), ('e', '\x1b'), (' ', ' '), ('"', '"'),
   ('\\', '\\'), ('/', '/'), ('N', '\x85'), ('_', '\xa0'), ('L', '\u2028'), ('P', '\u2029')]

/-- How many hexadecimal digits follow a letter after a backslash. -/
def escapeWidths : List (Char × Nat) := [('x', 2), ('u', 4), ('U', 8)]

def hexDigit? (c : Char) : Option Nat :=
  if c.isDigit then some (c.toNat - 48)
  else if 'a' ≤ c && c ≤ 'f' then some (c.toNat - 87)
  else if 'A' ≤ c && c ≤ 'F' then some (c.toNat - 55)
  else none

def hexNumber? (digits : List Char) : Option Nat :=
  digits.foldl (fun n? c => do return 16 * (← n?) + (← hexDigit? c)) (some 0)

/-- Blank lines inside quotes, with the space before what follows. No document may begin or end
there. -/
def quotedBreaks : (fuel : Nat) → Cursor → Reading
  | 0, _ => .error .outOfFuel
  | fuel + 1, c => do
    if c.atMark then throw (.malformedConfig .token)
    let c := c.skipWhile isGap
    match c.lineBreak with
    | ([], _) => return ([], c)
    | (found, c) =>
      let (more, c) ← quotedBreaks fuel c
      return (found ++ more, c)

/-- What a backslash stands for; the place is after it. -/
def escape (c : Cursor) : Reading := do
  let letter ← match c.peek with
    | some ch => pure ch
    | none => throw (.malformedConfig .token)
  match escapes.lookup letter, escapeWidths.lookup letter with
  | some ch, _ => return ([ch], c.step)
  | none, some width =>
    let digits := c.step.rest.take width
    match if digits.length = width then hexNumber? digits else none with
    | some n =>
      if 0x110000 ≤ n then throw (.complaint .notACharacter)
      return ([Char.ofNat n], Cursor.advance (width + 1) c)
    | none => throw (.malformedConfig .token)
  | none, none =>
    match c.lineBreak with
    | ([], _) => throw (.malformedConfig .token)
    | (_, c) => quotedBreaks (c.rest.length + 1) c

/-- Text inside quotes, up to a gap, a line break or the closing quote. -/
def quotedPart (double : Bool) : (fuel : Nat) → Cursor → Reading
  | 0, _ => .error .outOfFuel
  | fuel + 1, c => do
    let (taken, c) := c.takeWhile fun ch =>
      !(ch == '\'' || ch == '"' || ch == '\\' || isGap ch || isBreak ch)
    let further := fun (found : List Char) (c : Cursor) => do
      let (more, c) ← quotedPart double fuel c
      return (taken ++ found ++ more, c)
    match c.peek, c.peek 1 with
    | some '\'', some '\'' =>
      if double then further ['\''] c.step else further ['\''] c.step.step
    | some '\'', _ => if double then further ['\''] c.step else return (taken, c)
    | some '"', _ => if double then return (taken, c) else further ['"'] c.step
    | some '\\', _ =>
      if double then
        let (found, c) ← escape c.step
        further found c
      else further ['\\'] c.step
    | _, _ => return (taken, c)

/-- A gap or line breaks inside quotes. -/
def quotedGap (c : Cursor) : Reading := do
  let (gap, c) := c.takeWhile isGap
  if c.rest.isEmpty then throw (.malformedConfig .token)
  match c.lineBreak with
  | ([], _) => return (gap, c)
  | (first, c) =>
    let (more, c) ← quotedBreaks (c.rest.length + 1) c
    return (folded first more, c)

/-- The text up to the closing quote. -/
def quotedBody (double : Bool) : (fuel : Nat) → Cursor → Reading
  | 0, _ => .error .outOfFuel
  | fuel + 1, c => do
    let (part, c) ← quotedPart double (c.rest.length + 1) c
    if c.peek == some (if double then '"' else '\'') then return (part, c.step)
    let (gap, c) ← quotedGap c
    let (more, c) ← quotedBody double fuel c
    return (part ++ gap ++ more, c)

/-- A scalar in **quotes**; the place is at the first of them. -/
def quoted (double : Bool) (c : Cursor) : Reading :=
  quotedBody double (c.rest.length + 1) c.step

/-! ### Plain scalars -/

/-- How many characters of a plain scalar follow without a gap. -/
def plainLength (flow : Bool) : List Char → Nat
  | [] => 0
  | ch :: rest =>
    let atColon := ch == ':' &&
      (endsWord rest.head? || (flow && (rest.head?.any [',', '[', ']', '{', '}'].contains)))
    if isGap ch || isBreak ch || atColon || (flow && [',', '?', '[', ']', '{', '}'].contains ch)
    then 0
    else plainLength flow rest + 1

/-- Spaces and line breaks after a line of a plain scalar; nothing if a document begins or ends. -/
def plainBreaks : (fuel : Nat) → Cursor → Option (List Char) × Cursor
  | 0, c => (none, c)
  | fuel + 1, c =>
    let c := c.skipSpaces
    match c.lineBreak with
    | ([], _) => (some [], c)
    | (found, c) =>
      if c.atMark then (none, c)
      else
        let (more, c) := plainBreaks fuel c
        (more.map (found ++ ·), c)

/-- What separates two parts of a plain scalar, the place after it, and whether a line ended. -/
def plainGap (c : Cursor) : Option (List Char) × Cursor × Bool :=
  let (gap, c) := c.takeWhile (· == ' ')
  match c.lineBreak with
  | ([], _) => (if gap.isEmpty then none else some gap, c, false)
  | (first, c) =>
    if c.atMark then (none, c, true)
    else
      let (more, c) := plainBreaks (c.rest.length + 1) c
      (more.map (folded first), c, true)

/-- The parts of a plain scalar, what separates them from the text before, and whether a line ended
after the last. -/
def plainParts (flow : Bool) (indent : Int) :
    (fuel : Nat) → (gap : List Char) → (ended : Bool) → Cursor → List Char × Cursor × Bool
  | 0, _, ended, c => ([], c, ended)
  | fuel + 1, gap, ended, c =>
    if c.peek == some '#' then ([], c, ended)
    else
      match plainLength flow c.rest with
      | 0 => ([], c, ended)
      | n + 1 =>
        let part := c.rest.take (n + 1)
        let (next, c, ended) := plainGap (Cursor.advance (n + 1) c)
        match next with
        | none => (gap ++ part, c, ended)
        | some next =>
          if c.peek == some '#' || (!flow && (c.column : Int) < indent) then
            (gap ++ part, c, ended)
          else
            let (more, c, ended) := plainParts flow indent fuel next ended c
            (gap ++ part ++ more, c, ended)

/-- A **plain** scalar, the place after it, and whether a line ended there. -/
def plain (flow : Bool) (indent : Int) (c : Cursor) : List Char × Cursor × Bool :=
  plainParts flow (indent + 1) (c.rest.length + 1) [] false c

/-! ### Blocks -/

/-- What becomes of the line breaks at the end of a block. -/
inductive Chomping where
  | clip
  | keep
  | strip
deriving DecidableEq

/-- The number of a digit that gives an indentation. -/
def indentDigit? (c : Cursor) : Except Failure (Option Nat × Cursor) :=
  match c.peek with
  | some '0' => .error (.malformedConfig .token)
  | some ch => .ok (if ch.isDigit then (some (ch.toNat - 48), c.step) else (none, c))
  | none => .ok (none, c)

/-- The sign that tells what becomes of line breaks. -/
def chomping? (c : Cursor) : Option Chomping × Cursor :=
  match c.peek with
  | some '+' => (some .keep, c.step)
  | some '-' => (some .strip, c.step)
  | _ => (none, c)

/-- The signs at the head of a block: one for line breaks and one for the indentation. -/
def blockHead (c : Cursor) : Except Failure (Chomping × Option Nat × Cursor) := do
  let (early, c) := chomping? c
  let (width?, c) ← indentDigit? c
  let (late, c) := if early.isNone && width?.isSome then chomping? c else (none, c)
  if !endsPiece c.peek then throw (.malformedConfig .token)
  return ((early <|> late).getD .clip, width?, ← c.skipLine)

/-- Blank lines at the start of a block, and the greatest column of a space in them. -/
def blockStart : (fuel : Nat) → (widest : Nat) → Cursor → List Char × Nat × Cursor
  | 0, widest, c => ([], widest, c)
  | fuel + 1, widest, c =>
    let c := c.skipSpaces
    let widest := max widest c.column
    match c.lineBreak with
    | ([], _) => ([], widest, c)
    | (found, c) =>
      let (more, widest, c) := blockStart fuel widest c
      (found ++ more, widest, c)

/-- The place after spaces that do not lead beyond a column. -/
def indentTo (indent : Nat) (c : Cursor) : Cursor :=
  let spaces := (c.takeWhile (· == ' ')).1.length
  Cursor.advance (min spaces (indent - c.column)) c

def blockBreaks (indent : Nat) : (fuel : Nat) → Cursor → List Char × Cursor
  | 0, c => ([], c)
  | fuel + 1, c =>
    let c := indentTo indent c
    match c.lineBreak with
    | ([], _) => ([], c)
    | (found, c) =>
      let (more, c) := blockBreaks indent fuel c
      (found ++ more, c)

/-- The lines of a block from a place on, the last line break, the breaks after it, and the place
after them. -/
def blockLines (fold : Bool) (indent : Nat) :
    (fuel : Nat) → (last breaks : List Char) → Cursor →
      List Char × List Char × List Char × Cursor
  | 0, last, breaks, c => ([], last, breaks, c)
  | fuel + 1, last, breaks, c =>
    if c.column = indent ∧ c.rest ≠ [] then
      let solid := !(c.peek.any isGap)
      let (line, c) := c.takeWhile (!isBreak ·)
      let (last, c) := c.lineBreak
      let (after, c) := blockBreaks indent (c.rest.length + 1) c
      let joint :=
        if c.column = indent ∧ c.rest ≠ [] then
          if fold && last == ['\n'] && solid && !(c.peek.any isGap) then
            if after.isEmpty then [' '] else []
          else last
        else []
      let (more, last, after, c) := blockLines fold indent fuel last after c
      (breaks ++ line ++ joint ++ more, last, after, c)
    else ([], last, breaks, c)

/-- A scalar in **lines of its own**; the place is at its sign. -/
def block (fold : Bool) (indent : Int) (c : Cursor) : Reading := do
  let (chomping, width?, c) ← blockHead c.step
  let least := (max (indent + 1) 1).toNat
  let (breaks, indent, c) :=
    match width? with
    | some width =>
      let indent := least + width - 1
      let (breaks, c) := blockBreaks indent (c.rest.length + 1) c
      (breaks, indent, c)
    | none =>
      let (breaks, widest, c) := blockStart (c.rest.length + 1) 0 c
      (breaks, max least widest, c)
  let (text, last, after, c) := blockLines fold indent (c.rest.length + 1) [] breaks c
  match chomping with
  | .strip => return (text, c)
  | .clip => return (text ++ last, c)
  | .keep => return (text ++ last ++ after, c)

end DocTree.Yaml
