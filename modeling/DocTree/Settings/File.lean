import DocTree.Files
import DocTree.Settings
import DocTree.Yaml.Content

/-!
# Settings from files

Settings are given in a file, and some of them are replaced by those of the user, who can set only
what the file sets.
-/

namespace DocTree.Settings

/-- **Where settings come from**: a content, or the standard ones. -/
inductive Source where
  | standard
  | content (content : Yaml.Content)

/-- The source in a file. Nothing, and what counts as nothing, is an empty mapping. -/
def Source.ofFile (files : Files) (path : String) : Except Failure Source := do
  match ← Yaml.read (← files.readText path) with
  | none => return .content (.mapping [])
  | some c => return .content (if c.toValue.isTruthy then c else .mapping [])

/-- The keys of a source. Numbers and truth values have none. -/
def Source.keys : Source → Except Failure (List Value)
  | .standard => .ok (Settings.standard.map fun f => .str f.1)
  | .content (.mapping entries) => .ok (entries.map Prod.fst)
  | .content (.sequence items) => items.mapM fun c =>
      match c with
      | .scalar v => .ok v
      | _ => .error .wrongKind
  | .content (.scalar (.str s)) => .ok (s.toList.map fun c => .str (String.ofList [c]))
  | .content (.scalar _) => .error .wrongKind

/-- The settings of a source. All keys are texts. -/
def Source.settings : Source → Except Failure Settings
  | .standard => .ok Settings.standard
  | .content (.mapping entries) => entries.mapM fun (k, c) =>
      match k with
      | .str name => .ok (name, c.toValue)
      | _ => .error .wrongKind
  | .content _ => .error .wrongKind

/-- The settings **of the user**: nothing or an object. -/
def given : Value → Except Failure Settings
  | .null => .ok []
  | .object fields => .ok fields
  | _ => .error .wrongKind

/-- The settings **that hold**: those of the source, replaced by those of the user. -/
def load (source : Source) (user : Value) : Except Failure Settings := do
  let user ← given user
  let known ← source.keys
  let unknown := user.keys.filter fun name => !known.any (·.isStr name)
  if !unknown.isEmpty then
    throw (.complaint (.unknownKeys (unknown.mergeSort (· ≤ ·))))
  return Fields.union (← source.settings) user

/-- The settings of a call: **arguments** that are not null replace the standard settings. -/
def ofArguments (argument : String → Value) : Except Failure Settings :=
  let arguments := standard.map fun (name, _) => (name, argument name)
  load .standard (.object (arguments.filter fun (_, v) => !v.isNull))

end DocTree.Settings
