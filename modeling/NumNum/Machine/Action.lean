import NumNum.Operator
import NumNum.Word

/-!
# Actions

What each operator does when it is run. Operators that treat the stack alike share an
action, and the action says how many values it needs.
-/

namespace NumNum

/-- What running an operator does. `y` is the value below the top and `x` the top. -/
inductive Action where
  /-- Pushes the number of values on the stack. -/
  | depth
  | pop
  | copy
  | swap
  | copyOver
  /-- Moves the top below the two values under it. -/
  | rotateUp
  /-- Moves the third value to the top. -/
  | rotateDown
  | unary (f : UInt32 → UInt32)
  /-- Replaces `y` and `x` by `f y x`. -/
  | binary (f : UInt32 → UInt32 → UInt32)
  /-- Replaces `y` and `x` by `f y x`, unless `x` is zero. -/
  | division (f : UInt32 → UInt32 → UInt32)
  /-- Pushes whether `p y x`. -/
  | compare (p : UInt32 → UInt32 → Bool)
  /-- Pushes the operand. -/
  | constant
  /-- Moves the top into the variable that the operand addresses. -/
  | store
  /-- Copies the top into the variable. -/
  | keep
  /-- Pushes the value of the variable. -/
  | load
  | readCharacter
  | writeCharacter
  | readInteger
  | writeInteger
  /-- Goes to `past` positions behind the jump if the top passes the test. -/
  | branch (test : UInt32 → Bool) (past : Nat)
  /-- Goes behind the jump. -/
  | leave
  | proceed

/-- How many values the action needs on the stack. -/
def Action.needs : Action → Nat
  | .rotateUp | .rotateDown => 3
  | .swap | .copyOver | .binary _ | .division _ | .compare _ => 2
  | .pop | .copy | .unary _ | .store | .keep | .writeCharacter | .writeInteger
  | .branch _ _ => 1
  | .depth | .constant | .load | .readCharacter | .readInteger | .leave | .proceed => 0

namespace Operator

/-- What running the operator does. -/
def action : Operator → Action
  | constant8Bit | constant16Bit | constant32Bit => .constant
  | count => .depth
  | pop => .pop
  | copy => .copy
  | swap => .swap
  | copyOver => .copyOver
  | rotateUp => .rotateUp
  | rotateDown => .rotateDown
  | increment => .unary (· + 1)
  | decrement => .unary (· - 1)
  | not => .unary (~~~ ·)
  | and => .binary (· &&& ·)
  | or => .binary (· ||| ·)
  | xor => .binary (· ^^^ ·)
  | shiftLeft => .binary Word.shiftLeft
  | shiftRight => .binary Word.shiftRight
  | add => .binary (· + ·)
  | subtract => .binary (· - ·)
  | multiply => .binary (· * ·)
  | divide => .division (· / ·)
  | remainder => .division (· % ·)
  | greaterThan => .binary fun y x => Word.ofBool (x < y)
  | lessThan => .binary fun y x => Word.ofBool (y < x)
  | equal => .binary fun y x => Word.ofBool (y = x)
  | notEqual => .binary fun y x => Word.ofBool (y ≠ x)
  | greaterThanOrEqual => .binary fun y x => Word.ofBool (x ≤ y)
  | lessThanOrEqual => .binary fun y x => Word.ofBool (y ≤ x)
  | equalZero => .unary fun x => Word.ofBool (x = 0)
  | notEqualZero => .unary fun x => Word.ofBool (x ≠ 0)
  | test => .compare fun y x => y = x
  | testNot => .compare fun y x => y ≠ x
  | storeVariable => .store
  | copyVariable => .keep
  | loadVariable => .load
  | inputCharacter => .readCharacter
  | outputCharacter => .writeCharacter
  | inputInteger => .readInteger
  | outputInteger => .writeInteger
  | ifNotZero => .branch (fun x => x = 0) 0
  | ifZero => .branch (fun x => x ≠ 0) 0
  | endIf => .proceed
  | whileNotZero => .branch (fun x => x = 0) 1
  | endWhile => .branch (fun x => x ≠ 0) 0
  | leaveLoop => .leave

end Operator

end NumNum
