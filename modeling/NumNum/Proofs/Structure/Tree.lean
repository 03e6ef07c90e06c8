import NumNum.Assembler

/-!
# Block trees

A program whose blocks are properly nested is the program of a tree: a closer stands in
the node of its opener. Trees are indexed by whether a loop is around them, so that a
break is part of a tree only where it has a loop to leave.
-/

namespace NumNum

/-! ## Parts of the structure -/

namespace Operator

theorem eq_closer_of_role {op : Operator} {kind : BlockKind} (h : op.role = .closer kind) :
    op = kind.closer := by
  cases kind <;> cases op <;> first | rfl | cases h

theorem eq_whileNotZero_of_role {op : Operator} (h : op.role = .opener .loop) :
    op = whileNotZero := by
  cases op <;> first | rfl | cases h

theorem eq_leaveLoop_of_role {op : Operator} (h : op.role = .leaver) : op = leaveLoop := by
  cases op <;> first | rfl | cases h

/-- The operators that give a program its structure have no operand. -/
theorem operandWidth_of_role {op : Operator} (h : op.role ≠ .plain) : op.operandWidth = 0 := by
  cases op <;> first | rfl | exact absurd rfl h

end Operator

theorem Instruction.canonical_of_role {i : Instruction} (h : i.operator.role ≠ .plain) :
    i.canonical = { operator := i.operator } := by
  simp [canonical, operand, Operator.operandWidth_of_role h]

/-! ## Trees -/

/-- An instruction that plays the given part in the structure of a program. -/
abbrev Part (role : Role) := { i : Instruction // i.operator.role = role }

/-- A properly nested part of a program, with a loop around it or not. Each node is
followed by the rest of the block that it stands in. -/
inductive Block : Bool → Type where
  | done {inLoop : Bool} : Block inLoop
  | plain {inLoop : Bool} (i : Part .plain) (rest : Block inLoop) : Block inLoop
  | conditional {inLoop : Bool} (opener : Part (.opener .conditional)) (body : Block inLoop)
      (closer : Part (.closer .conditional)) (rest : Block inLoop) : Block inLoop
  | loop {inLoop : Bool} (opener : Part (.opener .loop)) (body : Block true)
      (closer : Part (.closer .loop)) (rest : Block inLoop) : Block inLoop
  | leave (i : Part .leaver) (rest : Block true) : Block true

namespace Block

variable {inLoop : Bool}

/-- The instructions of a tree, in order. -/
def program {inLoop : Bool} : Block inLoop → Program
  | done => []
  | plain i rest => i.1 :: rest.program
  | conditional opener body closer rest =>
    opener.1 :: (body.program ++ closer.1 :: rest.program)
  | loop opener body closer rest => opener.1 :: (body.program ++ closer.1 :: rest.program)
  | leave i rest => i.1 :: rest.program

def size (b : Block inLoop) : Nat := b.program.length

def append {inLoop : Bool} : Block inLoop → Block inLoop → Block inLoop
  | done, c => c
  | plain i rest, c => plain i (rest.append c)
  | conditional opener body closer rest, c => conditional opener body closer (rest.append c)
  | loop opener body closer rest, c => loop opener body closer (rest.append c)
  | leave i rest, c => leave i (rest.append c)

@[simp] theorem size_done : (done : Block inLoop).size = 0 := rfl

@[simp] theorem size_plain (i : Part .plain) (rest : Block inLoop) :
    (plain i rest).size = rest.size + 1 := rfl

@[simp] theorem size_leave (i : Part .leaver) (rest : Block true) :
    (leave i rest).size = rest.size + 1 := rfl

@[simp] theorem size_conditional (opener : Part (.opener .conditional)) (body : Block inLoop)
    (closer : Part (.closer .conditional)) (rest : Block inLoop) :
    (conditional opener body closer rest).size = body.size + rest.size + 2 := by
  simp [size, program]; omega

@[simp] theorem size_loop (opener : Part (.opener .loop)) (body : Block true)
    (closer : Part (.closer .loop)) (rest : Block inLoop) :
    (loop opener body closer rest).size = body.size + rest.size + 2 := by
  simp [size, program]; omega

theorem program_append (b c : Block inLoop) : (b.append c).program = b.program ++ c.program := by
  induction b with
  | done => rfl
  | plain i rest ih => simp [append, program, ih]
  | conditional opener body closer rest _ ih => simp [append, program, ih]
  | loop opener body closer rest _ ih => simp [append, program, ih]
  | leave i rest ih => simp [append, program, ih]

end Block

end NumNum
