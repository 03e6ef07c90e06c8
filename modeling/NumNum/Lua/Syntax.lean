import NumNum.Operator

/-!
# The Lua of generated programs

The part of Lua that generated programs are written in, behind their fixed prelude. A
program is a sequence of lines; blocks are opened and closed by lines of their own. The
evaluation stack is a table, of which only the values near the end are looked at.
-/

namespace NumNum.Lua

/-- A place that holds a value. -/
inductive Place where
  /-- The stack's value with `below` further ones above it. -/
  | slot (below : Nat)
  /-- The scratch place of the binary operators. -/
  | temporary
  | variable (address : UInt32)
deriving DecidableEq

/-- Integer operations. -/
inductive Arithmetic where
  | plus | minus | times | quotient | modulo
  | bitAnd | bitOr | bitXor | leftShift | rightShift
deriving DecidableEq

/-- Comparisons of integers. -/
inductive Comparison where
  | greater | less | equal | unequal | greaterEqual | lessEqual
deriving DecidableEq

/-- Expressions. -/
inductive Expr where
  | number (n : Nat)
  /-- The number with the 32 low bits set. -/
  | mask
  /-- The number of values on the stack. -/
  | depth
  | place (p : Place)
  /-- Takes the top off the stack. -/
  | removed
  | arithmetic (o : Arithmetic) (a b : Expr)
  | complement (a : Expr)
  | parentheses (a : Expr)
  /-- The top of the stack; without one an error that names the operator. -/
  | top (op : Operator)
  | readCharacter
  | readInteger
  /-- The value of a variable; without one an error. -/
  | loadVariable (address : UInt32)
deriving DecidableEq

/-- The condition of a branch or a loop. -/
structure Condition where
  left : Expr
  comparison : Comparison
  right : Expr
deriving DecidableEq

/-- Statements on one line. -/
inductive Statement where
  /-- An error that names the operator, unless the stack holds that many values. -/
  | need (depth : Nat) (op : Operator)
  | insert (e : Expr)
  | remove
  | assign (targets : List Place) (values : List Expr)
  | writeCharacter (e : Expr)
  | write (e : Expr)
  | zeroDivision
  | when (c : Condition) (s : Statement)
  | choose (c : Condition) (s t : Statement)
  | leave

/-- The lines of a program. -/
inductive Line where
  | statement (s : Statement)
  | ifThen (c : Condition)
  | whileDo (c : Condition)
  | closer

end NumNum.Lua
