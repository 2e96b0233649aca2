import DocTree.Contents.Appearance
import DocTree.Contents.Locate

/-!
# Repairing wrong entries

The page of a wrong entry is looked for between those of the nearest right entries, and checked
again. What is still wrong is tried again, for a limited number of rounds.
-/

namespace DocTree.Contents

/-! ### Where to look -/

def isWrong (wrong : List Value) (i : Nat) : Bool := wrong.any fun w => w.same (.int i)

/-- The page of the first entry of a list of entries and positions that is not wrong and has a
page. -/
def rightPage (wrong : List Value) : List (Value × Nat) → Except Failure (Option Value)
  | [] => .ok none
  | (entry, i) :: rest =>
    if isWrong wrong i then rightPage wrong rest
    else do
      let page ← position entry
      if page.isNull then rightPage wrong rest else return some page

/-- The **plan** for a wrong entry: nothing for a position outside the table, and otherwise a search
between two pages. -/
inductive Plan where
  | outside (listIndex title page : Value)
  | between (listIndex title low high : Value)

def plan (e : Excerpt) (entries wrong : List Value) (item : Value) : Except Failure Plan := do
  let listIndex ← item.field "list_index"
  let isBefore ← listIndex.less (.int 0)
  let isInside ← listIndex.less (.ofNat entries.length)
  if isBefore || !isInside then
    return .outside listIndex (← item.field "title") (← item.lookup "physical_index")
  let k ← listIndex.integer
  let low ← rightPage wrong (entries.zipIdx.take k.toNat).reverse
  let high ← rightPage wrong (entries.zipIdx.drop (k.toNat + 1))
  return .between listIndex (← item.field "title") (low.getD (.int (e.first - 1)))
    (high.getD (.int e.last))

/-- The note about where an entry is looked for. -/
def Plan.note? : Plan → Option Value
  | .outside _ _ _ => none
  | .between listIndex title low high =>
    some (.object [("list_index", listIndex), ("title", title), ("prev_correct", low),
      ("next_correct", high)])

/-! ### One entry -/

/-- The result of an attempt: the position for the page, the title, the page, and whether it is
right. -/
structure Attempt where
  listIndex : Value
  title : Value
  page : Value
  isValid : Bool
deriving DecidableEq

def Attempt.value (a : Attempt) : Value :=
  .object [("list_index", a.listIndex), ("title", a.title), ("physical_index", a.page)]

/-- The position to which a page belongs that was found from `first` to `last`: the position of the
last page in the excerpt, or that of the entry if there are none. -/
def target (e : Excerpt) (listIndex : Value) (first last : Int) : Value :=
  if first ≤ last then .int (last - e.first) else listIndex

/-- The attempt to **repair one entry**. -/
def repairItem (model : Value) (e : Excerpt) (entries wrong : List Value) (item : Value) :
    Run Attempt := do
  match ← plan e entries wrong item with
  | .outside listIndex title page =>
    return { listIndex := listIndex, title := title, page := page, isValid := false }
  | .between listIndex title low high =>
    let stop ← high.add (.int 1)
    let first ← low.integer
    let last := (← stop.integer) - 1
    let shown := Text.join "" (e.window first last)
    let found ← locateTitle model title (.str shown)
    let verdict ← checkTitle model e (← item.setField "physical_index" found)
    return { listIndex := target e listIndex first last, title := title, page := found,
             isValid := verdict.holds }

/-! ### Rounds -/

/-- The entries with the page of an attempt, if the page is right and its position lies in the
table. -/
def accept? (entries : List Value) (attempt : Attempt) : Except Failure (Option (List Value)) := do
  if !attempt.isValid then return none
  let k ← attempt.listIndex.integer
  if k < 0 then return none
  match entries[k.toNat]? with
  | none => return none
  | some entry =>
    return some (entries.set k.toNat (← entry.setField "physical_index" attempt.page))

/-- The entries after all attempts, and the attempts that failed. -/
def acceptAll : List Value → List Attempt → Except Failure (List Value × List Value)
  | entries, [] => .ok (entries, [])
  | entries, attempt :: rest => do
    match ← accept? entries attempt with
    | some entries => acceptAll entries rest
    | none =>
      let (entries, failed) ← acceptAll entries rest
      return (entries, attempt.value :: failed)

/-- The position of a wrong entry, which has to be a value that can be looked up. -/
def wrongPosition (item : Value) : Except Failure Value := do
  match ← item.field "list_index" with
  | .list _ | .object _ => .error .wrongKind
  | k => return k

def wrongPositions (wrong : List Value) : Except Failure (List Value) := wrong.mapM wrongPosition

/-- The attempts to repair **all wrong entries**, each beside its entry. One that fails is reported
and given up. -/
def tryAll (model : Value) (e : Excerpt) (entries positions wrong : List Value) :
    Run (List (Value × Attempt)) := do
  let outcomes ← wrong.mapM fun item => Run.attempt (repairItem model e entries positions item)
  for (item, outcome) in wrong.zip outcomes do
    match outcome with
    | .ok _ => pure ()
    | .error why =>
      Run.printLine ("Processing item " ++ item.display ++ " generated an exception: " ++
        why.describe)
  return (wrong.zip outcomes).filterMap fun (item, outcome) =>
    outcome.toOption.map fun attempt => (item, attempt)

/-- What the attempts of a round **come to**: the entries after them, and what is still wrong. -/
def settle (e : Excerpt) (entries positions wrong : List Value) (tries : List (Value × Attempt)) :
    Run (List Value × List Value) := do
  let (repaired, failed) ← acceptAll entries (tries.map Prod.snd)
  let notes := wrong.filterMap fun item => (plan e entries positions item).toOption.bind Plan.note?
  Run.info (.str ("incorrect_results_and_range_logs: " ++ (Value.list notes).literal))
  Run.info (.str ("invalid_results: " ++ (Value.list failed).literal))
  return (repaired, failed)

/-- **One round** over all wrong entries: the entries after it, and what is still wrong. -/
def repair (model : Value) (e : Excerpt) (entries wrong : List Value) :
    Run (List Value × List Value) := do
  Run.printLine ("start fix_incorrect_toc with " ++ Decimal.natText wrong.length ++
    " incorrect results")
  let positions ← wrongPositions wrong
  let tries ← tryAll model e entries positions wrong
  settle e entries positions wrong tries

/-- **Several rounds**: one, and at most `more` further ones. -/
def repairRounds (model : Value) (e : Excerpt) :
    (more : Nat) → (entries wrong : List Value) → Run (List Value × List Value)
  | more, entries, wrong => do
    if wrong.isEmpty then return (entries, wrong)
    Run.printLine ("Fixing " ++ Decimal.natText wrong.length ++ " incorrect results")
    let (entries, wrong) ← repair model e entries wrong
    match more with
    | 0 =>
      Run.info (.str "Maximum fix attempts reached")
      return (entries, wrong)
    | more + 1 => repairRounds model e more entries wrong

/-- Repairs the wrong entries in at most `attempts` rounds, and in at least one. -/
def repairAll (model : Value) (e : Excerpt) (attempts : Int) (entries wrong : List Value) :
    Run (List Value × List Value) := do
  Run.printLine "start fix_incorrect_toc"
  repairRounds model e (attempts - 1).toNat entries wrong

end DocTree.Contents
