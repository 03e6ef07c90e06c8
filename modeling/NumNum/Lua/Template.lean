import NumNum.Block
import NumNum.Instruction
import NumNum.Lua.Syntax

/-!
# The lines for each operator

The Lua statements that give each operator its effect on the table `stack`. Every result
is kept within 32 bits, and each operator checks the depth of the stack before it
touches it.
-/

namespace NumNum.Lua

/-- The top of the stack as an expression. -/
def topSlot : Expr := .place (.slot 0)

/-- The value below the top. -/
def nextSlot : Expr := .place (.slot 1)

def temporary : Expr := .place .temporary

/-- The low 32 bits of an expression that binds at least as strong as a unary one. -/
def masked (e : Expr) : Expr := .arithmetic .bitAnd e .mask

/-- Replaces the top of the stack. -/
def setTop (e : Expr) : Statement := .assign [.slot 0] [e]

/-- Replaces the top by one or zero. -/
def setTopTo (c : Condition) : Statement :=
  .choose c (setTop (.number 1)) (setTop (.number 0))

/-- Checks the depth and moves the top into the scratch place. -/
def takeOperand (op : Operator) : List Statement :=
  [.need 2 op, .assign [.temporary] [.removed]]

def unary (op : Operator) (e : Expr) : List Statement :=
  [.need 1 op, setTop e]

def binary (op : Operator) (o : Arithmetic) : List Statement :=
  takeOperand op ++ [setTop (masked (.parentheses (.arithmetic o topSlot temporary)))]

def division (op : Operator) (o : Arithmetic) : List Statement :=
  takeOperand op ++
    [.when ⟨temporary, .equal, .number 0⟩ .zeroDivision,
     setTop (.arithmetic o topSlot temporary)]

def shift (op : Operator) (o : Arithmetic) : List Statement :=
  takeOperand op ++
    [.choose ⟨temporary, .greaterEqual, .number 32⟩
      (setTop (.number 0))
      (setTop (masked (.parentheses (.arithmetic o topSlot temporary))))]

def comparison (op : Operator) (c : Comparison) : List Statement :=
  takeOperand op ++ [setTopTo ⟨topSlot, c, temporary⟩]

def zeroTest (op : Operator) (c : Comparison) : List Statement :=
  [.need 1 op, setTopTo ⟨topSlot, c, .number 0⟩]

def pairTest (op : Operator) (c : Comparison) : List Statement :=
  [.need 2 op,
   .choose ⟨nextSlot, c, topSlot⟩
     (.assign [.temporary] [.number 1]) (.assign [.temporary] [.number 0]),
   .insert temporary]

/-- The statements for an instruction that neither opens, closes nor leaves a block. -/
def statements (i : Instruction) : List Statement :=
  let op := i.operator
  match op with
  | .constant8Bit | .constant16Bit | .constant32Bit => [.insert (.number i.value.toNat)]
  | .count => [.insert .depth]
  | .pop => [.need 1 op, .remove]
  | .copy => [.need 1 op, .insert topSlot]
  | .swap => [.need 2 op, .assign [.slot 1, .slot 0] [topSlot, nextSlot]]
  | .copyOver => [.need 2 op, .insert nextSlot]
  | .rotateUp =>
    [.need 3 op,
     .assign [.slot 2, .slot 1, .slot 0] [topSlot, .place (.slot 2), nextSlot]]
  | .rotateDown =>
    [.need 3 op,
     .assign [.slot 2, .slot 1, .slot 0] [nextSlot, topSlot, .place (.slot 2)]]
  | .increment => unary op (masked (.parentheses (.arithmetic .plus topSlot (.number 1))))
  | .decrement => unary op (masked (.parentheses (.arithmetic .minus topSlot (.number 1))))
  | .not => unary op (masked (.complement topSlot))
  | .and => binary op .bitAnd
  | .or => binary op .bitOr
  | .xor => binary op .bitXor
  | .add => binary op .plus
  | .subtract => binary op .minus
  | .multiply => binary op .times
  | .divide => division op .quotient
  | .remainder => division op .modulo
  | .shiftLeft => shift op .leftShift
  | .shiftRight => shift op .rightShift
  | .greaterThan => comparison op .greater
  | .lessThan => comparison op .less
  | .equal => comparison op .equal
  | .notEqual => comparison op .unequal
  | .greaterThanOrEqual => comparison op .greaterEqual
  | .lessThanOrEqual => comparison op .lessEqual
  | .equalZero => zeroTest op .equal
  | .notEqualZero => zeroTest op .unequal
  | .test => pairTest op .equal
  | .testNot => pairTest op .unequal
  | .storeVariable => [.need 1 op, .assign [.variable i.value] [.removed]]
  | .copyVariable => [.need 1 op, .assign [.variable i.value] [topSlot]]
  | .loadVariable => [.insert (.loadVariable i.value)]
  | .inputCharacter => [.insert .readCharacter]
  | .outputCharacter => [.need 1 op, .writeCharacter .removed]
  | .inputInteger => [.insert .readInteger]
  | .outputInteger => [.need 1 op, .write .removed]
  | .ifNotZero | .ifZero | .endIf | .whileNotZero | .endWhile | .leaveLoop => []

/-- The line that opens a block of this kind. -/
def opener (kind : BlockKind) (op : Operator) : Line :=
  match kind with
  | .conditional =>
    .ifThen ⟨.top op, if op = .ifZero then .equal else .unequal, .number 0⟩
  | .loop => .whileDo ⟨.top op, .unequal, .number 0⟩

end NumNum.Lua
