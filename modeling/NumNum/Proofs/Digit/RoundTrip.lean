import Mathlib.Algebra.Group.Nat.Defs
import NumNum.Proofs.Digit.Grammar
import NumNum.Proofs.Digit.Writing

/-!
# Reading what was written

A program is written if all of its operands have enough digits, and the text that is
written is decoded to the same program, without the values that no operand stands for
(`Program.ofSource_encode`).
-/

namespace NumNum

/-! ## Base 4 -/

theorem length_base4Digits (value width : Nat) : (base4Digits value width).length = width := by
  induction width generalizing value with
  | zero => rfl
  | succ width ih => simp [base4Digits, ih]

theorem lt_four_of_mem_base4Digits {value width d : Nat} (h : d ∈ base4Digits value width) :
    d < 4 := by
  induction width generalizing value with
  | zero => cases h
  | succ width ih =>
    rw [base4Digits, List.mem_append, List.mem_singleton] at h
    rcases h with h | rfl
    · exact ih h
    · exact Nat.mod_lt _ (by decide)

def operandDigits (value width : Nat) : List (Fin 10) :=
  (base4Digits value width).map lastDigit

theorem operandNumber_append (front : List (Fin 10)) (d : Fin 10) (value : Nat) :
    operandNumber (front ++ [d]) value = operandNumber front value * 4 + d := by
  rw [operandNumber, List.foldl_append]
  rfl

theorem operandNumber_operandDigits (value width : Nat) :
    operandNumber (operandDigits value width) 0 = value % 4 ^ width := by
  induction width generalizing value with
  | zero => rw [Nat.pow_zero, Nat.mod_one]; rfl
  | succ width ih =>
    have hd : (lastDigit (value % 4)).val = value % 4 := val_lastDigit (by omega)
    rw [operandDigits, base4Digits, List.map_append, ← operandDigits, List.map_singleton,
      operandNumber_append, ih, hd, Nat.pow_succ', Nat.mod_mul]
    omega

/-! ## The digits of a text -/

def textDigits (s : String) : List (Fin 10) := digitsOf (Utf8.encodeText s)

theorem textDigits_append (s t : String) : textDigits (s ++ t) = textDigits s ++ textDigits t := by
  rw [textDigits, Utf8.encodeText_append, digitsOf_append, ← textDigits, ← textDigits]

theorem textDigits_join (ss : List String) :
    textDigits (String.join ss) = ss.flatMap textDigits := by
  rw [textDigits, Utf8.encodeText, String.toList_join]
  induction ss with
  | nil => rfl
  | cons s ss ih =>
    rw [List.flatMap_cons, List.flatMap_append, digitsOf_append, ih, List.flatMap_cons]
    rfl

theorem digitsOf_encode {c : Char} (h : c.isDigit = true) :
    digitsOf (Utf8.encode c) = [charDigit c] := by
  have hlt := lt_of_isDigit h
  rw [encode_of_lt hlt, digitsOf, List.filterMap_cons, digit?_of_toNat (toNat_toUInt8 hlt), if_pos h]
  rfl

theorem digitsOf_flatMap_encode {cs : List Char} (h : ∀ c ∈ cs, c.isDigit = true) :
    digitsOf (cs.flatMap Utf8.encode) = cs.map charDigit := by
  induction cs with
  | nil => rfl
  | cons c cs ih =>
    rw [List.flatMap_cons, digitsOf_append, digitsOf_encode (h c List.mem_cons_self),
      ih fun c hc => h c (List.mem_cons_of_mem _ hc)]
    rfl

theorem textDigits_text (n : Nat) :
    textDigits (Numeral.text n) =
      (Nat.toDigits 10 n).map charDigit := by
  rw [textDigits, Utf8.encodeText, Numeral.text, Nat.toString_eq_repr, Nat.toList_repr]
  exact digitsOf_flatMap_encode fun c hc => Nat.isDigit_of_mem_toDigits (by decide) (by decide) hc

theorem textDigits_code (op : Operator) : textDigits (Numeral.text op.code) = op.digits :=
  textDigits_text op.code

theorem textDigits_of_lt_four {d : Nat} (h : d < 4) :
    textDigits (Numeral.text d) = [lastDigit d] := by
  rw [textDigits_text]
  match d with
  | 0 | 1 | 2 | 3 => rfl

theorem textDigits_join_text {ds : List Nat} (h : ∀ d ∈ ds, d < 4) :
    textDigits (String.join (ds.map Numeral.text)) = ds.map lastDigit := by
  rw [textDigits_join]
  induction ds with
  | nil => rfl
  | cons d ds ih =>
    rw [List.map_cons, List.flatMap_cons, textDigits_of_lt_four (h d List.mem_cons_self),
      ih fun d hd => h d (List.mem_cons_of_mem _ hd)]
    rfl

/-- The digits of the line of an instruction that fits are its code and its operand. -/
theorem textDigits_line_eq {i : Instruction} (h : i.fits = true) :
    textDigits i.line =
      i.operator.digits ++ operandDigits i.value.toNat i.operator.operandWidth := by
  have hspace : textDigits " " = [] := by decide
  have hnewline : textDigits "\n" = [] := by decide
  by_cases hw : i.operator.operandWidth = 0
  · rw [Instruction.line, if_pos hw, textDigits_append, textDigits_code, hnewline, hw]
    rfl
  · rw [Instruction.line, if_neg hw, if_pos h, textDigits_append, textDigits_append,
      textDigits_append, textDigits_code, hspace, hnewline,
      textDigits_join_text fun _ => lt_four_of_mem_base4Digits, ← operandDigits,
      List.append_nil, List.append_nil]

theorem textDigits_line {i : Instruction} (h : i.fits = true) :
    i.canonical.Spells (textDigits i.line) := by
  have hs := Instruction.Spells.intro i.operator
    (operandDigits i.value.toNat i.operator.operandWidth)
    (by simp [operandDigits, length_base4Digits])
  rw [operandNumber_operandDigits] at hs
  rw [textDigits_line_eq h, Instruction.canonical, Instruction.operand]
  by_cases hw : i.operator.operandWidth = 0
  · rw [hw, Nat.pow_zero, Nat.mod_one] at hs
    rw [if_pos hw, hw]
    exact hs
  · have hv : i.value.toNat < 4 ^ i.operator.operandWidth := by
      simpa [Instruction.fits, hw] using h
    rw [Nat.mod_eq_of_lt hv, UInt32.ofNat_toNat] at hs
    rwa [if_neg hw]

/-! ## Programs -/

theorem Program.encode_of_fits {p : Program} {sink : Sink} (h : sink.limit = none)
    (hp : ∀ i ∈ p, i.fits = true) :
    p.encode sink = (.ok (), { sink with written := sink.written ++ p.bytes }) := by
  obtain ⟨ho, hv⟩ := output_of_fits hp
  rw [encode_eq, Sink.room_of_limit_none h, if_pos rfl, List.take_length, ho, hv]

theorem Program.spells_bytes {p : Program} (hp : ∀ i ∈ p, i.fits = true) :
    Spells (p.map Instruction.canonical) (digitsOf p.bytes) := by
  induction p with
  | nil => exact .nil
  | cons i p ih =>
    rw [bytes, List.flatMap_cons, digitsOf_append]
    exact .cons (textDigits_line (hp i List.mem_cons_self))
      (ih fun i hi => hp i (List.mem_cons_of_mem _ hi))

theorem Program.ofSource_bytes {p : Program} (hp : ∀ i ∈ p, i.fits = true) :
    ofSource (Source.ofBytes p.bytes) = .ok (p.map Instruction.canonical) := by
  rw [ofSource_ofBytes, Decoder.read_eq_none_iff.mpr (spells_bytes hp)]
  rfl

end NumNum
