import NumNum.Machine.Action
import NumNum.Proofs.Lua.Execution
import NumNum.Text.Numeral

/-!
# Words as integers

A machine word is an integer of 64 bits whose upper half is zero. Each operation of the
machine is an operation on integers behind which the upper half is cleared again.
-/

namespace NumNum

open Lua

/-- The integer with the value of a word. -/
def Word.wide (w : UInt32) : Integer :=
  w.toBitVec.setWidth 64

namespace Word

@[simp] theorem toNat_wide (w : UInt32) : (wide w).toNat = w.toNat := by
  have h := w.toNat_lt
  simp only [wide, BitVec.toNat_setWidth, UInt32.toNat_toBitVec]
  omega

@[simp] theorem toInt_wide (w : UInt32) : (wide w).toInt = w.toNat := by
  have h := w.toNat_lt
  rw [BitVec.toInt_eq_toNat_of_lt (by rw [toNat_wide]; omega), toNat_wide]

@[simp] theorem wide_inj {y x : UInt32} : wide y = wide x ↔ y = x := by
  rw [← BitVec.toNat_inj, toNat_wide, toNat_wide, UInt32.toNat_inj]

theorem wide_zero : wide 0 = 0 := rfl

theorem wide_ofNat {n : Nat} (h : n < UInt32.size) : wide (.ofNat n) = .ofNat 64 n := by
  have hlt : n < 0x100000000 := h
  refine BitVec.eq_of_toNat_eq ?_
  rw [toNat_wide, UInt32.toNat_ofNat', BitVec.toNat_ofNat]
  omega

theorem eq_wide {n : Integer} {w : UInt32} (h : n.toNat = w.toNat) : n = wide w :=
  BitVec.eq_of_toNat_eq (by rw [h, toNat_wide])

/-- The mask leaves the low bits. -/
theorem and_mask {n : Integer} {w : UInt32} (h : n.toNat % 0x100000000 = w.toNat) :
    n &&& 0xffffffff = wide w := by
  refine eq_wide ?_
  rw [BitVec.toNat_and, ← h]
  exact Nat.and_two_pow_sub_one_eq_mod n.toNat 32

theorem not_wide (x : UInt32) : ~~~wide x &&& 0xffffffff = wide (~~~x) := by
  have h := x.toNat_lt
  refine and_mask ?_
  rw [BitVec.toNat_not, toNat_wide, UInt32.toNat_not]
  simp [UInt32.size]
  omega

end Word

/-! ## Operations -/

namespace Lua

open Word

/-- The low bits of the operation's results are the values of a function on words. -/
def Arithmetic.Computes (o : Arithmetic) (f : UInt32 → UInt32 → UInt32) : Prop :=
  ∀ y x, ∃ n, o.apply (wide y) (wide x) = some n ∧ n &&& 0xffffffff = wide (f y x)

namespace Arithmetic

theorem computes_plus : plus.Computes (· + ·) := fun y x =>
  ⟨_, rfl, and_mask (by simp [UInt32.toNat_add])⟩

theorem computes_minus : minus.Computes (· - ·) := by
  intro y x
  have hy := y.toNat_lt
  have hx := x.toNat_lt
  refine ⟨_, rfl, and_mask ?_⟩
  rw [BitVec.toNat_sub, toNat_wide, toNat_wide, UInt32.toNat_sub]
  omega

theorem computes_times : times.Computes (· * ·) := fun y x =>
  ⟨_, rfl, and_mask (by simp [UInt32.toNat_mul])⟩

theorem computes_bitAnd : bitAnd.Computes (· &&& ·) := by
  intro y x
  refine ⟨_, rfl, and_mask ?_⟩
  rw [BitVec.toNat_and, toNat_wide, toNat_wide, ← UInt32.toNat_and]
  exact Nat.mod_eq_of_lt (UInt32.toNat_lt _)

theorem computes_bitOr : bitOr.Computes (· ||| ·) := by
  intro y x
  refine ⟨_, rfl, and_mask ?_⟩
  rw [BitVec.toNat_or, toNat_wide, toNat_wide, ← UInt32.toNat_or]
  exact Nat.mod_eq_of_lt (UInt32.toNat_lt _)

theorem computes_bitXor : bitXor.Computes (· ^^^ ·) := by
  intro y x
  refine ⟨_, rfl, and_mask ?_⟩
  rw [BitVec.toNat_xor, toNat_wide, toNat_wide, ← UInt32.toNat_xor]
  exact Nat.mod_eq_of_lt (UInt32.toNat_lt _)

theorem leftShift_apply (y : UInt32) {x : UInt32} (h : x < 32) :
    ∃ n, leftShift.apply (wide y) (wide x) = some n ∧ n &&& 0xffffffff = wide (y <<< x) := by
  have hx : x.toNat < 32 := h
  refine ⟨_, rfl, and_mask ?_⟩
  rw [toInt_wide, shifted, if_pos (Int.natCast_nonneg _), Int.toNat_natCast, BitVec.toNat_shiftLeft,
    toNat_wide, UInt32.toNat_shiftLeft, Nat.mod_eq_of_lt hx]
  exact Nat.mod_mod_of_dvd _ ⟨0x100000000, rfl⟩

theorem rightShift_apply (y : UInt32) {x : UInt32} (h : x < 32) :
    ∃ n, rightShift.apply (wide y) (wide x) = some n ∧ n &&& 0xffffffff = wide (y >>> x) := by
  have hx : x.toNat < 32 := h
  have hs : shifted (wide y) (-(x.toNat : Int)) = wide y >>> x.toNat := by
    unfold shifted
    split
    · have h0 : x.toNat = 0 := by omega
      simp [h0]
    · rw [Int.neg_neg, Int.toNat_natCast]
  refine ⟨_, rfl, and_mask ?_⟩
  rw [toInt_wide, hs, BitVec.toNat_ushiftRight, toNat_wide, UInt32.toNat_shiftRight,
    Nat.mod_eq_of_lt hx]
  exact Nat.mod_eq_of_lt (Nat.lt_of_le_of_lt (Nat.shiftRight_le _ _) y.toNat_lt)

theorem quotient_apply (y : UInt32) {x : UInt32} (h : x ≠ 0) :
    quotient.apply (wide y) (wide x) = some (wide (y / x)) := by
  have h0 : wide x ≠ 0 := by rwa [← wide_zero, ne_eq, wide_inj]
  rw [apply, if_neg h0, toInt_wide, toInt_wide, Option.some_inj]
  have hlt := (y / x).toNat_lt
  rw [UInt32.toNat_div] at hlt
  refine eq_wide ?_
  rw [UInt32.toNat_div, Int.fdiv_eq_ediv_of_nonneg _ (Int.natCast_nonneg _), ← Int.natCast_ediv,
    BitVec.ofInt_natCast, BitVec.toNat_ofNat, Nat.mod_eq_of_lt (Nat.lt_trans hlt (by decide))]

theorem modulo_apply (y : UInt32) {x : UInt32} (h : x ≠ 0) :
    modulo.apply (wide y) (wide x) = some (wide (y % x)) := by
  have h0 : wide x ≠ 0 := by rwa [← wide_zero, ne_eq, wide_inj]
  rw [apply, if_neg h0, toInt_wide, toInt_wide, Option.some_inj]
  have hlt := (y % x).toNat_lt
  rw [UInt32.toNat_mod] at hlt
  refine eq_wide ?_
  rw [UInt32.toNat_mod, Int.fmod_eq_emod_of_nonneg _ (Int.natCast_nonneg _), ← Int.natCast_emod,
    BitVec.ofInt_natCast, BitVec.toNat_ofNat, Nat.mod_eq_of_lt (Nat.lt_trans hlt (by decide))]

end Arithmetic

/-! ## Comparisons -/

namespace Comparison

/-- The comparison of words that has the results of one of integers. -/
def onWords (c : Comparison) (y x : UInt32) : Bool :=
  match c with
  | .greater => x < y
  | .less => y < x
  | .equal => y = x
  | .unequal => y ≠ x
  | .greaterEqual => x ≤ y
  | .lessEqual => y ≤ x

theorem holds_wide (c : Comparison) (y x : UInt32) :
    c.holds (wide y) (wide x) = c.onWords y x := by
  cases c <;> simp [holds, onWords, UInt32.lt_iff_toNat_lt, UInt32.le_iff_toNat_le]

end Comparison

/-! ## Output -/

theorem characterBytes?_wide (w : UInt32) :
    characterBytes? (wide w) = (Word.toChar? w).map Utf8.encode := by
  have hlt := w.toNat_lt
  rw [characterBytes?, toInt_wide, Int.toNat_natCast, Word.toChar?]
  by_cases h : w.isValidChar
  · have hv : w.toNat.isValidChar := h
    rw [dif_pos h, if_neg (by simp only [Nat.isValidChar] at hv; omega), Option.map_some,
      Char.ofNat, dif_pos hv]
    rfl
  · have hv : ¬w.toNat.isValidChar := h
    rw [dif_neg h, if_pos (by simp only [Nat.isValidChar] at hv; omega), Option.map_none]

theorem toString_wide (w : UInt32) : toString (wide w).toInt = Numeral.text w.toNat := by
  rw [toInt_wide]
  rfl

end Lua

end NumNum
