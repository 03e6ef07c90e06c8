import NumNum.Text.Character

/-!
# Digit supplies

A supply hands out decimal digits one at a time, and failures in between. A list of
items is a supply, and so is a source: its characters that are no ASCII digits are
passed over, and so is malformed text.
-/

namespace NumNum

/-- A state from which digits and failures are taken until none is left. -/
class DigitSupply (σ : Type) where
  /-- The next item and the state behind it. -/
  next? : σ → Option (Except IoFault Nat × σ)
  /-- A bound on the items to come. -/
  size : σ → Nat
  size_lt : ∀ {s rest : σ} {item : Except IoFault Nat},
    next? s = some (item, rest) → size rest < size s

namespace DigitSupply

/-- Takes the first item of a list. -/
def uncons? : List (Except IoFault Nat) → Option (Except IoFault Nat × List (Except IoFault Nat))
  | [] => none
  | item :: rest => some (item, rest)

instance : DigitSupply (List (Except IoFault Nat)) where
  next? := uncons?
  size := List.length
  size_lt := by
    intro s rest item h
    cases s with
    | nil => simp [uncons?] at h
    | cons _ _ =>
      simp only [uncons?, Option.some.injEq, Prod.mk.injEq] at h
      simp [h.2]

end DigitSupply

namespace Source

/-- The next ASCII digit of the source, or the next failure that is not malformed text. -/
def nextDigit? (s : Source) : Option (Except IoFault Nat × Source) :=
  match _h : s.readChar with
  | (.ok none, _) => none
  | (.ok (some c), rest) =>
    if c.isDigit then some (.ok (c.toNat - '0'.toNat), rest) else nextDigit? rest
  | (.error f, rest) =>
    if f.kind = .invalidData then nextDigit? rest else some (.error f, rest)
termination_by s.size
decreasing_by
  all_goals
    have hlt := size_lt_of_readChar (s := s) (by simp [_h])
    rwa [_h] at hlt

theorem size_lt_of_nextDigit? {s rest : Source} {item : Except IoFault Nat}
    (h : s.nextDigit? = some (item, rest)) : rest.size < s.size := by
  fun_induction nextDigit? s with
  | case1 => simp at h
  | case2 s c rest' hr hd =>
    simp only [Option.some.injEq, Prod.mk.injEq] at h
    have hlt := size_lt_of_readChar (s := s) (by simp [hr])
    rw [hr] at hlt
    exact h.2 ▸ hlt
  | case3 s c rest' hr hd ih =>
    have hlt := size_lt_of_readChar (s := s) (by simp [hr])
    rw [hr] at hlt
    exact Nat.lt_trans (ih h) hlt
  | case4 s f rest' hr hk ih =>
    have hlt := size_lt_of_readChar (s := s) (by simp [hr])
    rw [hr] at hlt
    exact Nat.lt_trans (ih h) hlt
  | case5 s f rest' hr hk =>
    simp only [Option.some.injEq, Prod.mk.injEq] at h
    have hlt := size_lt_of_readChar (s := s) (by simp [hr])
    rw [hr] at hlt
    exact h.2 ▸ hlt

instance : DigitSupply Source where
  next? := nextDigit?
  size := size
  size_lt := size_lt_of_nextDigit?

end Source

end NumNum
