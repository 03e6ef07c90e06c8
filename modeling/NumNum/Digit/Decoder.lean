import NumNum.Instruction
import NumNum.Error

/-!
# The digit automaton

The decoder takes digits one at a time and is either inside an operator code or inside
an operand. A digit above four leads on to a longer code, any other digit completes one.
Operands are read in base 4; digits above three are taken at their value, and the sum
wraps at the word size.
-/

namespace NumNum

/-- What has been read of the instruction under way. -/
inductive Decoder where
  /-- Inside a code: the number its digits write, and how many they are. -/
  | code (number digits : Nat)
  /-- Inside an operand: its value, and how many digits are missing. -/
  | operand (operator : Operator) (value : UInt32) (missing : Nat)
deriving DecidableEq

namespace Decoder

/-- Between two instructions. -/
def start : Decoder := .code 0 0

/-- The number of digits above four that a code can begin with. -/
def longestLead : Nat := 2

/-- Where the decoder goes from a complete code. -/
def select (operator : Operator) : Option Instruction × Decoder :=
  if operator.operandWidth = 0 then (some { operator }, start)
  else (none, .operand operator 0 operator.operandWidth)

/-- Takes one digit, which may complete an instruction. A digit that no code has at this
place is refused and leaves the decoder as it was. -/
def feed (digit : Nat) : Decoder → Except DecodeError (Option Instruction) × Decoder
  | .code number digits =>
    let number' := number * 10 + digit
    if 5 ≤ digit then
      if digits = longestLead then (.error (.unknownOperator number'), .code number digits)
      else (.ok none, .code number' (digits + 1))
    else
      match Operator.ofCode? number' with
      | none => (.error (.unknownOperator number'), .code number digits)
      | some operator =>
        let (instruction, next) := select operator
        (.ok instruction, next)
  | .operand operator value missing =>
    let value' := value * 4 + UInt32.ofNat digit
    if 1 < missing then (.ok none, .operand operator value' (missing - 1))
    else (.ok (some ⟨operator, value'⟩), start)

/-- What is wrong if no further digit comes. -/
def truncation? : Decoder → Option DecodeError
  | .code _ digits => if digits = 0 then none else some .truncatedOperator
  | .operand operator _ missing => some (.truncatedOperand operator missing)

end Decoder

end NumNum
