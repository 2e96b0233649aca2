import DocTree.Value.Access

/-!
# Settings

The **settings** of an indexing run: values under names, in the order in which they were given.
A setting that is used has to be there.
-/

namespace DocTree

/-- Settings: values under names. -/
abbrev Settings := Fields

namespace Settings

def get (settings : Settings) (name : String) : Except Failure Value :=
  match Fields.get? settings name with
  | some v => .ok v
  | none => .error .noOperation

def isYes (settings : Settings) (name : String) : Except Failure Bool := do
  return (← settings.get name).isStr "yes"

def standard : Settings :=
  [("model", .str "gpt-4o-2024-11-20"),
   ("toc_check_page_num", .int 20),
   ("max_page_num_each_node", .int 10),
   ("max_token_num_each_node", .int 20000),
   ("if_add_node_id", .str "yes"),
   ("if_add_node_summary", .str "yes"),
   ("if_add_doc_description", .str "no"),
   ("if_add_node_text", .str "no")]

end Settings

end DocTree
