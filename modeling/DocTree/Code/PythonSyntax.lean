import DocTree.Number.Double

/-!
# Syntax of Python

The syntax of modules, as far as an outline needs it: expressions in full, definitions and imports
with their lines, and the statements inside the blocks of others.
-/

namespace DocTree.Python

/-- A **literal**. Texts are lists of code points, which need not be characters. -/
inductive Constant where
  | none
  | true
  | false
  | ellipsis
  | int (n : Nat)
  | float (x : Double)
  | imaginary (x : Double)
  | text (marked : Bool) (points : List Nat)
  | bytes (bytes : List Nat)
deriving DecidableEq

inductive BoolOperator where
  | and
  | or
deriving DecidableEq

inductive BinaryOperator where
  | add
  | sub
  | mul
  | matMul
  | div
  | mod
  | floorDiv
  | pow
  | shiftLeft
  | shiftRight
  | bitOr
  | bitXor
  | bitAnd
deriving DecidableEq

inductive UnaryOperator where
  | invert
  | not
  | plus
  | minus
deriving DecidableEq

inductive Comparison where
  | eq
  | notEq
  | less
  | lessEq
  | greater
  | greaterEq
  | is
  | isNot
  | isIn
  | notIn
deriving DecidableEq

mutual

inductive Expr where
  | name (id : String)
  | constant (value : Constant)
  | joined (parts : List Expr)
  | formatted (value : Expr) (conversion : Option Char) (spec : Option Expr)
  | bool (op : BoolOperator) (operands : List Expr)
  | named (target value : Expr)
  | binary (op : BinaryOperator) (left right : Expr)
  | unary (op : UnaryOperator) (operand : Expr)
  | lambda (params : Parameters) (body : Expr)
  | conditional (test body other : Expr)
  | dict (entries : List Entry)
  | set (items : List Expr)
  | list (items : List Expr)
  | tuple (items : List Expr)
  | listOf (item : Expr) (clauses : List Clause)
  | setOf (item : Expr) (clauses : List Clause)
  | dictOf (key value : Expr) (clauses : List Clause)
  | generator (item : Expr) (clauses : List Clause)
  | await (value : Expr)
  | yield (value : Option Expr)
  | yieldFrom (value : Expr)
  | compare (left : Expr) (rest : List Compared)
  | call (function : Expr) (arguments : List Expr) (keywords : List Keyword)
  | member (value : Expr) (name : String)
  | subscript (value index : Expr)
  | starred (value : Expr)
  | slice (lower upper step : Option Expr)

/-- An entry of a dictionary display: a pair, or a dictionary that is spread out. -/
inductive Entry where
  | pair (key value : Expr)
  | spread (value : Expr)

inductive Clause where
  | mk (concurrent : Bool) (target source : Expr) (conditions : List Expr)

/-- A comparison operator with its right operand. -/
inductive Compared where
  | mk (op : Comparison) (operand : Expr)

/-- A keyword argument; one without a name is spread out. -/
inductive Keyword where
  | mk (name : Option String) (value : Expr)

inductive Parameter where
  | mk (name : String) (hint : Option Expr)

/-- A keyword-only parameter with its default. -/
inductive KeywordParameter where
  | mk (parameter : Parameter) (default : Option Expr)

/-- The **parameters** of a function. Defaults belong to the last positional-only and regular ones
together. -/
inductive Parameters where
  | mk (positional regular : List Parameter) (defaults : List Expr) (rest : Option Parameter)
      (keywordOnly : List KeywordParameter) (keywords : Option Parameter)

end

def Parameter.name : Parameter → String
  | .mk name _ => name

def Parameter.hint : Parameter → Option Expr
  | .mk _ hint => hint

structure Lines where
  first : Nat
  last : Nat
deriving DecidableEq

structure Alias where
  name : String
  as? : Option String
deriving DecidableEq

/-- What comes before the body of a function definition. -/
structure FunctionHead where
  concurrent : Bool
  name : String
  parameters : Parameters
  result : Option Expr
  decorators : List Expr

/-- What comes before the body of a class definition. -/
structure ClassHead where
  name : String
  decorators : List Expr

/-- A **statement**. Others than definitions are known by the statements in their blocks. -/
inductive Statement where
  | importModules (lines : Lines) (names : List Alias)
  | importFrom (lines : Lines) (level : Nat) (source : Option String) (names : List Alias)
  | functionDef (lines : Lines) (head : FunctionHead) (body : List Statement)
  | classDef (lines : Lines) (head : ClassHead) (body : List Statement)
  | expression (value : Expr)
  | compound (body : List Statement)
  | other

end DocTree.Python
