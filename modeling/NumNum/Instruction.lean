import NumNum.Operator

/-!
# Instructions

An operator with its immediate operand. A program is a list of instructions, and
`Program.text` is its listing on one line.
-/

namespace NumNum

/-- An operator and the operand written behind it. -/
structure Instruction where
  operator : Operator
  value : UInt32 := 0
deriving DecidableEq

/-- Instructions in the order in which they are written. -/
abbrev Program := List Instruction

namespace Instruction

/-- The operand, without one that the operator has no use for. -/
def operand (i : Instruction) : UInt32 :=
  if i.operator.operandWidth = 0 then 0 else i.value

/-- The instruction as source text can express it: a value without operand digits is dropped. -/
def canonical (i : Instruction) : Instruction :=
  ⟨i.operator, i.operand⟩

/-- The instruction in listings and records. -/
def text (i : Instruction) : String :=
  "Token(Operator: " ++ i.operator.mnemonic ++ ", Value: " ++ toString i.value.toNat ++ ")"

theorem canonical_operator (i : Instruction) : i.canonical.operator = i.operator := rfl

theorem canonical_canonical (i : Instruction) : i.canonical.canonical = i.canonical := by
  simp only [canonical, operand]; split <;> simp_all

end Instruction

/-- The listing of a program. -/
def Program.text (p : Program) : String :=
  "[" ++ String.intercalate "," (p.map Instruction.text) ++ "]"

end NumNum
