import NumNum.Instruction

/-!
# Codes

An instruction with its resolved jump. The codes of a program are addressed by position.
-/

namespace NumNum

/-- An instruction ready to run. The jump of a conditional's opener is the position of
its closer, a loop's opener and closer hold each other's position, a break holds the
position of its loop's closer, and no other jump is looked at. -/
structure Code where
  instruction : Instruction
  jump : Nat := 0
deriving DecidableEq

/-- The codes of a program, by position. -/
abbrev Codes := Array Code

end NumNum
