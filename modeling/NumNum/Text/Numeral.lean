/-!
# Decimal numerals

Numbers written in decimal digits, without sign. `Numeral.word?` reads those that fit
in a machine word, and `Numeral.word?_eq` says which these are.
-/

namespace NumNum.Numeral

/-- The decimal digits of a number, without leading zeros. -/
def text (n : Nat) : String :=
  toString n

/-- The number that a digit adds to when it is written behind it. -/
def appendDigit (n : Nat) (c : Char) : Nat :=
  n * 10 + (c.toNat - '0'.toNat)

/-- The number that decimal digits write, most significant first. -/
def value (digits : List Char) : Nat :=
  digits.foldl appendDigit 0

/-- The number with a digit behind it, as long as it fits in a word. -/
def appendDigit? (n : Nat) (c : Char) : Option Nat :=
  if c.isDigit ∧ appendDigit n c < UInt32.size then some (appendDigit n c) else none

/-- The word that a text of decimal digits writes; there is none for any other text. -/
def word? (cs : List Char) : Option UInt32 :=
  if cs = [] then none else (cs.foldlM appendDigit? 0).map UInt32.ofNat

theorem le_foldl_appendDigit (cs : List Char) (n : Nat) : n ≤ cs.foldl appendDigit n := by
  induction cs generalizing n with
  | nil => exact Nat.le_refl n
  | cons c cs ih =>
    refine Nat.le_trans ?_ (ih (appendDigit n c))
    unfold appendDigit
    omega

theorem foldlM_appendDigit? (cs : List Char) {n : Nat} (h : n < UInt32.size) :
    cs.foldlM appendDigit? n =
      if cs.all Char.isDigit ∧ cs.foldl appendDigit n < UInt32.size then
        some (cs.foldl appendDigit n)
      else none := by
  induction cs generalizing n with
  | nil => exact (if_pos ⟨rfl, h⟩).symm
  | cons c cs ih =>
    have hle := le_foldl_appendDigit cs (appendDigit n c)
    rw [List.foldlM_cons, List.foldl_cons, List.all_cons]
    by_cases hc : c.isDigit ∧ appendDigit n c < UInt32.size
    · rw [appendDigit?, if_pos hc, Option.bind_eq_bind, Option.bind_some, ih hc.2]
      simp [hc.1]
    · rw [appendDigit?, if_neg hc, if_neg]
      · rfl
      · rintro ⟨h, hv⟩
        exact hc ⟨(Bool.and_eq_true_iff.mp h).1, Nat.lt_of_le_of_lt hle hv⟩

/-- Reading stops at the first digit that leaves the word, which is no loss: the value
never falls behind it. -/
theorem word?_eq (cs : List Char) :
    word? cs =
      if cs ≠ [] ∧ cs.all Char.isDigit ∧ value cs < UInt32.size then some (UInt32.ofNat (value cs))
      else none := by
  unfold word? value
  rw [foldlM_appendDigit? cs (by decide)]
  by_cases h : cs = []
  · simp [h]
  · by_cases hd : cs.all Char.isDigit ∧ cs.foldl appendDigit 0 < UInt32.size
    · rw [if_neg h, if_pos hd, if_pos ⟨h, hd⟩, Option.map_some]
    · rw [if_neg h, if_neg hd, if_neg (fun h => hd h.2), Option.map_none]

end NumNum.Numeral
