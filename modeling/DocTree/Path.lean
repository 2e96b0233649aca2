import DocTree.Text.Search

/-!
# Paths

Paths are texts whose components stand between slashes.
-/

namespace DocTree.Path

def components (path : String) : List String := Text.split path '/'

def baseName (path : String) : String := ((components path).getLast?).getD ""

/-- A path without its **extension**, and the extension. Dots at the beginning of a name begin none.
-/
def splitExtension (path : String) : String × String :=
  match Text.cutLast? ['.'] (baseName path).toList with
  | some (before, after) =>
    if before.any (· != '.') then
      (Text.take path (path.length - after.length - 1), String.ofList ('.' :: after))
    else (path, "")
  | none => (path, "")

/-- The path of something **below** another path; one that begins at the root stays as it is. -/
def join (above below : String) : String :=
  if Text.startsWith below "/" then below
  else if above.isEmpty || Text.endsWith above "/" then above ++ below
  else above ++ "/" ++ below

/-- One more component of a normal path, last first. Two dots take back the one before them; at the
root there is none. -/
def addComponent (fromRoot : Bool) (path : List String) (component : String) : List String :=
  if component.isEmpty || component = "." then path
  else if component = ".." then
    match path with
    | [] => if fromRoot then [] else [component]
    | last :: before => if last = ".." then component :: path else before
  else component :: path

/-- The slashes at the beginning of a path that count: two of them are more than one, but three
are not. -/
def leadingSlashes (path : String) : String :=
  if Text.startsWith path "///" then "/"
  else if Text.startsWith path "//" then "//"
  else if Text.startsWith path "/" then "/"
  else ""

/-- A path **without needless components**. -/
def normalize (path : String) : String :=
  let slashes := leadingSlashes path
  let parts := (components path).foldl (addComponent (!slashes.isEmpty)) []
  let normal := slashes ++ Text.join "/" parts.reverse
  if normal.isEmpty then "." else normal

/-- A path **from the root on**; one that does not begin there is below `home`. -/
def absolute (home path : String) : String := normalize (join home path)

end DocTree.Path
