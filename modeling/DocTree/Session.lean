import DocTree.Failure
import DocTree.Model.Basic

/-!
# Sessions

Work that asks a model, prints or writes a log runs in a **session**. It leaves behind a ledger of
requests, printed text and log, also when it fails.
-/

namespace DocTree

/-- One entry of the log: its level and its message. -/
structure LogEntry where
  level : String
  message : Value
deriving DecidableEq

/-- What a session leaves behind. -/
structure Ledger where
  requests : List Request := []
  printed : String := ""
  log : List LogEntry := []
  parses : Nat := 0

/-- What a session is given: the model, how deep brackets may be nested in a text that it reads,
whether it keeps a log, and how many rounds a loop may take that only the model ends. -/
structure Session where
  model : Model
  nesting : Nat
  logging : Bool := true
  patience : Nat := 100000

abbrev Run := ReaderT Session (ExceptT Failure (StateM Ledger))

namespace Run

/-- The outcome of some work, and the ledger after it. -/
def execute (work : Run α) (session : Session) (ledger : Ledger) : Except Failure α × Ledger :=
  work session ledger

def fail (why : Failure) : Run α := throw why

/-- Asks the model once: the request is recorded, whatever the reply. -/
def ask (r : Request) : Run Reply := do
  let requests := (← get).requests ++ [r]
  modify fun ledger => { ledger with requests := requests }
  return (← read).model requests

def printLine (text : String) : Run Unit :=
  modify fun ledger => { ledger with printed := ledger.printed ++ text ++ "\n" }

def logs : Run Bool := return (← read).logging

/-- Writes an entry of the log. -/
def write (level : String) (message : Value) : Run Unit :=
  modify fun ledger => { ledger with log := ledger.log ++ [{ level := level, message := message }] }

/-- Writes an entry of a log that has to be there. -/
def info (message : Value) : Run Unit := do
  if ← logs then write "info" message else fail .noOperation

def infoIfLogging (message : Value) : Run Unit := do
  if ← logs then write "info" message

def errorIfLogging (message : Value) : Run Unit := do
  if ← logs then write "error" message

def quietly (work : Run α) : Run α := withReader (fun s => { s with logging := false }) work

def logged (work : Run α) : Run α := withReader (fun s => { s with logging := true }) work

/-- How deep the brackets may be nested in a text that is read. -/
def nesting : Run Nat := return (← read).nesting

/-- How many rounds an open-ended loop may take. -/
def patience : Run Nat := return (← read).patience

/-- Work whose failure is a result. -/
def attempt (work : Run α) : Run (Except Failure α) := do
  try
    return .ok (← work)
  catch why =>
    return .error why

/-- Does all the work in order, also after a failure, and then fails with the first one. -/
def together (works : List (Run α)) : Run (List α) := do
  let outcomes ← works.mapM attempt
  outcomes.mapM fun outcome => liftExcept outcome
where
  /-- The result of an outcome. -/
  liftExcept (outcome : Except Failure α) : Run α :=
    match outcome with
    | .ok a => return a
    | .error why => throw why

end Run

end DocTree
