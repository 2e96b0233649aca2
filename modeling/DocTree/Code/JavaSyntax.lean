/-!
# Syntax of Java files

The declarations of a Java file, as far as an outline shows them. Of the statements of a body only
the line of the last one is kept.
-/

namespace DocTree.Java

/-- An **import** with the line of its first token. -/
structure Import where
  path : String
  isStatic : Bool
  isWildcard : Bool
  line : Nat

inductive TypeKind where
  | classType
  | interfaceType
  | enumType
deriving DecidableEq

/-- What is known of every declaration: the line of its first token after modifiers, its annotations
and its comment. -/
structure About where
  line : Nat
  marks : List String
  doc : Option String

/-- A **method** or a constructor. Types are known by their first names. The result may be missing,
and so may the line of the last statement. -/
structure Method where
  name : String
  parameters : List (String × String)
  result : Option String
  lastLine : Option Nat

/-- A **declaration**. The members of an enumeration are those after its constants. Other members
are not told apart. -/
inductive Declaration where
  | type (kind : TypeKind) (name : String) (about : About) (members : List Declaration)
  | method (method : Method) (about : About)
  | other

/-- The imports and types of a **file**. -/
structure File where
  imports : List Import
  types : List Declaration

end DocTree.Java
