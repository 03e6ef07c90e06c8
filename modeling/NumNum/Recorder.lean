import NumNum.Backend

/-!
# Recording calls

A backend that notes the calls made to it and does nothing else, except that one of the
calls may be set to fail.
-/

namespace NumNum

/-- The calls so far, last first, and how many more succeed before one fails. -/
structure Recorder where
  calls : List Call := []
  failAfter : Option Nat := none

namespace Recorder

/-- Notes a call. -/
def note (call : Call) : Recorder → Handled Recorder
  | ⟨calls, some 0⟩ =>
    { outcome := .failed (.machine .zeroDivision), state := ⟨call :: calls, none⟩ }
  | ⟨calls, some (n + 1)⟩ => { outcome := .done, state := ⟨call :: calls, some n⟩ }
  | ⟨calls, none⟩ => { outcome := .done, state := ⟨call :: calls, none⟩ }

/-- The backend that notes each call. -/
def backend : Backend Recorder where
  handle := note

end Recorder

end NumNum
