import NumNum.Operator
import NumNum.Channel.Fault
import NumNum.Text.Quoted
import NumNum.Text.Numeral

/-!
# Errors

Everything that can go wrong, by cause: reading source text, matching blocks, running,
and accessing a channel. The wording is in the `message` functions.
-/

namespace NumNum

/-- Why digits are not a program. -/
inductive DecodeError where
  /-- The digits read so far select no operator. -/
  | unknownOperator (code : Nat)
  /-- The source ends before a code is complete. -/
  | truncatedOperator
  /-- The source ends before an operand is complete. -/
  | truncatedOperand (operator : Operator) (missing : Nat)
deriving DecidableEq

/-- Why the blocks of a program do not match. -/
inductive StructureError where
  /-- A closer with no open block, or with an innermost one of the other kind. -/
  | unmatched (closer : Operator)
  /-- A break with no loop around it. -/
  | breakOutsideLoop
  /-- Blocks that the end of the program leaves open. -/
  | unclosed (blocks : Nat)
deriving DecidableEq

/-- Why a run stopped before its end. -/
inductive MachineFault where
  /-- The stack holds fewer values than the operator needs. -/
  | stackUnderflow (operator : Operator) (needed found : Nat)
  | zeroDivision
  /-- A variable was loaded that nothing was stored in. -/
  | undefinedVariable (address : UInt32)
  /-- A line of input is not the decimal numeral of a word. -/
  | invalidNumber (line : String)
  /-- A value to be written as a character is not one. -/
  | invalidCharacter (value : UInt32)
  | io (fault : IoFault)
deriving DecidableEq

/-- Any failure of reading, translating or running a program. -/
inductive Error where
  | decode (e : DecodeError)
  | structural (e : StructureError)
  | machine (e : MachineFault)
  | io (fault : IoFault)
deriving DecidableEq

/-! ## Wording -/

def DecodeError.message : DecodeError → String
  | .unknownOperator code => "unknown operator code " ++ Numeral.text code
  | .truncatedOperator => "source ends inside an operator code"
  | .truncatedOperand operator missing =>
    "source ends inside the operand of " ++ operator.mnemonic ++
      " (" ++ Numeral.text missing ++ " digits missing)"

def StructureError.message : StructureError → String
  | .unmatched closer => "invalid operator: " ++ closer.mnemonic
  | .breakOutsideLoop => "BREAK outside of a loop"
  | .unclosed blocks => Numeral.text blocks ++ " block(s) left open"

def MachineFault.message : MachineFault → String
  | .stackUnderflow operator needed found =>
    "stack underflow: " ++ operator.mnemonic ++ " needs " ++ Numeral.text needed ++
      " value(s), found " ++ Numeral.text found
  | .zeroDivision => "division by zero"
  | .undefinedVariable address => "variable " ++ Numeral.text address.toNat ++ " is not defined"
  | .invalidNumber line => "invalid numeric input: " ++ Text.quote line
  | .invalidCharacter value => "invalid character code " ++ Numeral.text value.toNat
  | .io fault => "i/o error: " ++ fault.message

def Error.message : Error → String
  | .decode e => "decode error: " ++ e.message
  | .structural e => "structure error: " ++ e.message
  | .machine e => "runtime error: " ++ e.message
  | .io fault => fault.message

end NumNum
