/-!
# Stacks

The evaluation stack: its words and how many they are, so that the depth is known
without a walk. All changes are exchanges at the top, of which `Stack.values_exchange`
says what they leave.
-/

namespace NumNum

/-- Words, top first, and their number. -/
structure Stack where
  values : List UInt32 := []
  depth : Nat := values.length
  depth_eq : depth = values.length := by rfl

namespace Stack

/-- The stack without words. -/
def empty : Stack := {}

/-- A stack is determined by its words. -/
@[ext] theorem ext {s t : Stack} (h : s.values = t.values) : s = t := by
  obtain ⟨values, _, rfl⟩ := s
  obtain ⟨_, _, rfl⟩ := t
  cases h
  rfl

/-- Takes the `taken` uppermost words off and puts others on, whose first becomes the top. -/
def exchange (taken : Nat) (given : List UInt32) (s : Stack) : Stack where
  values := given ++ s.values.drop taken
  depth := given.length + (s.depth - taken)
  depth_eq := by simp [s.depth_eq]

@[simp] theorem values_exchange (taken : Nat) (given : List UInt32) (s : Stack) :
    (s.exchange taken given).values = given ++ s.values.drop taken := rfl

end Stack

end NumNum
