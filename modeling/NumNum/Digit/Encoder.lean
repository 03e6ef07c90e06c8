import NumNum.Instruction
import NumNum.Channel.Sink
import NumNum.Text.Numeral
import NumNum.Text.Utf8

/-!
# Writing programs as digits

Each instruction goes on a line of its own: the operator's code and, for an operator
with operand, a space and the base-4 digits of the value. A value that needs more
digits than the operand has stops the writing behind the space.
-/

namespace NumNum

/-- The last `width` base-4 digits of a value, most significant first. -/
def base4Digits (value : Nat) : Nat → List Nat
  | 0 => []
  | width + 1 => base4Digits (value / 4) width ++ [value % 4]

namespace Instruction

/-- Whether the operand has enough digits for the value. -/
def fits (i : Instruction) : Bool :=
  i.operator.operandWidth = 0 || i.value.toNat < Nat.pow 4 i.operator.operandWidth

/-- What an instruction reports that does not fit. -/
def misfit (i : Instruction) : IoFault :=
  ⟨.invalidInput, Numeral.text i.value.toNat ++ " does not fit in " ++
    Numeral.text i.operator.operandWidth ++ " base-4 digits"⟩

/-- The line of an instruction, up to the point where its operand does not fit. -/
def line (i : Instruction) : String :=
  let code := Numeral.text i.operator.code
  if i.operator.operandWidth = 0 then code ++ "\n"
  else if i.fits then
    code ++ " " ++ String.join
      ((base4Digits i.value.toNat i.operator.operandWidth).map Numeral.text) ++ "\n"
  else code ++ " "

/-- Writes the line of an instruction. -/
def encode (i : Instruction) (sink : Sink) : Except IoFault Unit × Sink :=
  match sink.write (Utf8.encodeText i.line) with
  | (.error f, sink) => (.error f, sink)
  | (.ok (), sink) => if i.fits then (.ok (), sink) else (.error i.misfit, sink)

end Instruction

/-- Writes a program, line by line, up to the first failure. -/
def Program.encode : Program → Sink → Except IoFault Unit × Sink
  | [], sink => (.ok (), sink)
  | i :: rest, sink =>
    match i.encode sink with
    | (.error f, sink) => (.error f, sink)
    | (.ok (), sink) => Program.encode rest sink

end NumNum
