/-!
# Machine words

The operations on 32-bit words that the word type does not have as the machine needs
them: shifts that lose every bit when the amount reaches the width, and truth values.
-/

namespace NumNum.Word

/-- Shifts to the left; an amount of 32 or more leaves nothing. -/
def shiftLeft (y x : UInt32) : UInt32 :=
  if x < 32 then y <<< x else 0

/-- Shifts to the right; an amount of 32 or more leaves nothing. -/
def shiftRight (y x : UInt32) : UInt32 :=
  if x < 32 then y >>> x else 0

/-- One for true, zero for false. -/
def ofBool (b : Bool) : UInt32 :=
  if b then 1 else 0

/-- What the input of a character gives at the end of the input. -/
def endOfInput : UInt32 := 0xffffffff

/-- The character with this code, if it is one. -/
def toChar? (w : UInt32) : Option Char :=
  if h : w.isValidChar then some ⟨w, h⟩ else none

end NumNum.Word
