import NumNum.Operator

/-!
# Blocks

The operators that give a program its structure: two open a conditional, one opens a
loop, each kind has its closer, and a break leaves the innermost loop.
-/

namespace NumNum

/-- The kinds of block. -/
inductive BlockKind where
  | conditional | loop
deriving DecidableEq

/-- The part an operator plays in the structure of a program. -/
inductive Role where
  | opener (kind : BlockKind)
  | closer (kind : BlockKind)
  | leaver
  | plain
deriving DecidableEq

namespace Operator

/-- The part that the operator plays. -/
def role : Operator → Role
  | ifNotZero | ifZero => .opener .conditional
  | whileNotZero => .opener .loop
  | endIf => .closer .conditional
  | endWhile => .closer .loop
  | leaveLoop => .leaver
  | _ => .plain

end Operator

/-- The operator that closes a block of this kind. -/
def BlockKind.closer : BlockKind → Operator
  | .conditional => .endIf
  | .loop => .endWhile

theorem BlockKind.role_closer (kind : BlockKind) : kind.closer.role = .closer kind := by
  cases kind <;> rfl

end NumNum
