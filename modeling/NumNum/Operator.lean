/-!
# Operators

The forty-six operators of the language. Each has a digit code, which selects it in
source text, and an operand width, the number of base-4 digits that follow the code.
A code is a run of digits above four closed by one digit below five, so no code
begins another one. `Operator.ofCode?_code` reads every code back.
-/

namespace NumNum

/-- An operator of the language, in the order of the digit codes. -/
inductive Operator where
  | constant8Bit | copy | pop | add | outputCharacter
  | constant16Bit | constant32Bit | swap | copyOver | count
  | rotateUp | rotateDown | increment | decrement | not
  | subtract | multiply | divide | remainder | and
  | or | xor | shiftLeft | shiftRight | inputCharacter
  | ifNotZero | ifZero | endIf | whileNotZero | endWhile
  | greaterThan | lessThan | equal | notEqual | test
  | greaterThanOrEqual | lessThanOrEqual | equalZero | notEqualZero | testNot
  | storeVariable | copyVariable | loadVariable | inputInteger | outputInteger
  | leaveLoop
deriving DecidableEq

namespace Operator

/-- Every operator, by increasing code. -/
def all : List Operator :=
  [constant8Bit, copy, pop, add, outputCharacter,
   constant16Bit, constant32Bit, swap, copyOver, count,
   rotateUp, rotateDown, increment, decrement, not,
   subtract, multiply, divide, remainder, and,
   or, xor, shiftLeft, shiftRight, inputCharacter,
   ifNotZero, ifZero, endIf, whileNotZero, endWhile,
   greaterThan, lessThan, equal, notEqual, test,
   greaterThanOrEqual, lessThanOrEqual, equalZero, notEqualZero, testNot,
   storeVariable, copyVariable, loadVariable, inputInteger, outputInteger,
   leaveLoop]

/-- The number whose decimal digits select the operator in source text. -/
def code : Operator → Nat
  | constant8Bit => 0
  | copy => 1
  | pop => 2
  | add => 3
  | outputCharacter => 4
  | constant16Bit => 50
  | constant32Bit => 51
  | swap => 52
  | copyOver => 53
  | count => 54
  | rotateUp => 60
  | rotateDown => 61
  | increment => 62
  | decrement => 63
  | not => 64
  | subtract => 70
  | multiply => 71
  | divide => 72
  | remainder => 73
  | and => 74
  | or => 80
  | xor => 81
  | shiftLeft => 82
  | shiftRight => 83
  | inputCharacter => 84
  | ifNotZero => 90
  | ifZero => 91
  | endIf => 92
  | whileNotZero => 93
  | endWhile => 94
  | greaterThan => 550
  | lessThan => 551
  | equal => 552
  | notEqual => 553
  | test => 554
  | greaterThanOrEqual => 560
  | lessThanOrEqual => 561
  | equalZero => 562
  | notEqualZero => 563
  | testNot => 564
  | storeVariable => 570
  | copyVariable => 571
  | loadVariable => 572
  | inputInteger => 573
  | outputInteger => 574
  | leaveLoop => 580

/-- The number of base-4 digits after the code; operators without operand have none. -/
def operandWidth : Operator → Nat
  | constant8Bit => 4
  | constant16Bit | storeVariable | copyVariable | loadVariable => 8
  | constant32Bit => 16
  | _ => 0

/-- The operator's name in messages and listings. -/
def mnemonic : Operator → String
  | constant8Bit => "CONSTANT_8_BIT"
  | copy => "COPY"
  | pop => "POP"
  | add => "ADD"
  | outputCharacter => "OUTPUT_CHARACTER"
  | constant16Bit => "CONSTANT_16_BIT"
  | constant32Bit => "CONSTANT_32_BIT"
  | swap => "SWAP"
  | copyOver => "OVER"
  | count => "COUNT"
  | rotateUp => "ROTATE_UP"
  | rotateDown => "ROTATE_DOWN"
  | increment => "INCREMENT"
  | decrement => "DECREMENT"
  | not => "NOT"
  | subtract => "SUBTRACT"
  | multiply => "MULTIPLY"
  | divide => "DIVIDE"
  | remainder => "REMAINDER"
  | and => "AND"
  | or => "OR"
  | xor => "XOR"
  | shiftLeft => "SHIFT_LEFT"
  | shiftRight => "SHIFT_RIGHT"
  | inputCharacter => "INPUT_CHARACTER"
  | ifNotZero => "IF_NOT_ZERO"
  | ifZero => "IF_ZERO"
  | endIf => "END_IF"
  | whileNotZero => "WHILE_NOT_ZERO"
  | endWhile => "END_WHILE"
  | greaterThan => "GREATER_THAN"
  | lessThan => "LESS_THAN"
  | equal => "EQUAL"
  | notEqual => "NOT_EQUAL"
  | test => "TEST"
  | greaterThanOrEqual => "GREATER_THAN_OR_EQUAL"
  | lessThanOrEqual => "LESS_THAN_OR_EQUAL"
  | equalZero => "EQUAL_ZERO"
  | notEqualZero => "NOT_EQUAL_ZERO"
  | testNot => "TEST_NOT"
  | storeVariable => "STORE_VARIABLE"
  | copyVariable => "COPY_VARIABLE"
  | loadVariable => "LOAD_VARIABLE"
  | inputInteger => "INPUT_INTEGER"
  | outputInteger => "OUTPUT_INTEGER"
  | leaveLoop => "BREAK"

/-- The operator that a code selects. -/
def ofCode? (n : Nat) : Option Operator :=
  all.find? (·.code = n)

/-! ## Codes identify operators -/

theorem mem_all (op : Operator) : op ∈ all := by
  cases op <;> decide

theorem ofCode?_code (op : Operator) : ofCode? op.code = some op := by
  cases op <;> rfl

theorem code_of_ofCode? {n : Nat} {op : Operator} (h : ofCode? n = some op) : op.code = n := by
  simpa using List.find?_some h

theorem code_injective {op op' : Operator} (h : op.code = op'.code) : op = op' := by
  have := ofCode?_code op
  rw [h, ofCode?_code op'] at this
  exact (Option.some.inj this).symm

end Operator

end NumNum
