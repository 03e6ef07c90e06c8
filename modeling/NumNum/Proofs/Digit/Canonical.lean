import Mathlib.Data.List.Induction
import NumNum.Proofs.Digit.Faults
import NumNum.Proofs.Digit.RoundTrip

/-!
# Writing what was read

Operand digits above three are read at their value, so several sources can write one operand.
Without such digits the value has just one operand that writes it, and it is the one that the
encoder writes: the digits of the source come back (`Program.encode_ofSource`).
-/

namespace NumNum

/-- The ASCII digits among bytes. -/
def asciiDigits (bs : List UInt8) : List UInt8 :=
  bs.filter fun b => 0x30 ≤ b ∧ b ≤ 0x39

/-- The operand digits of a program, among the digits that write it. -/
def Program.operandsIn : Program → List (Fin 10) → List (Fin 10)
  | [], _ => []
  | i :: p, ds =>
    let behind := ds.drop i.operator.digits.length
    behind.take i.operator.operandWidth ++ operandsIn p (behind.drop i.operator.operandWidth)

/-! ## Operands without large digits -/

section
variable {ds : List (Fin 10)}

theorem operandNumber_lt (h : ∀ d ∈ ds, d ≤ 3) : operandNumber ds 0 < 4 ^ ds.length := by
  induction ds using List.reverseRecOn with
  | nil => decide
  | append_singleton ds d ih =>
    have hd : d.val ≤ 3 := h d (by simp)
    have hlt := ih fun d hd => h d (List.mem_append_left _ hd)
    rw [operandNumber_append, List.length_append, List.length_singleton, Nat.pow_succ]
    omega

/-- Base 4 has one operand of each length for a number. -/
theorem operandDigits_operandNumber (h : ∀ d ∈ ds, d ≤ 3) :
    operandDigits (operandNumber ds 0) ds.length = ds := by
  induction ds using List.reverseRecOn with
  | nil => rfl
  | append_singleton ds d ih =>
    have hd : d.val ≤ 3 := h d (by simp)
    have hdiv : (operandNumber ds 0 * 4 + d.val) / 4 = operandNumber ds 0 := by omega
    have hmod : (operandNumber ds 0 * 4 + d.val) % 4 = d.val := by omega
    have hlast : lastDigit d.val = d := Fin.ext (val_lastDigit d.isLt)
    rw [operandNumber_append, List.length_append, List.length_singleton, operandDigits, base4Digits,
      hdiv, hmod, List.map_append, ← operandDigits, ih fun d hd => h d (List.mem_append_left _ hd),
      List.map_singleton, hlast]

end

/-! ## Programs -/

theorem Operator.operandWidth_le (op : Operator) : op.operandWidth ≤ 16 := by
  cases op <;> decide

theorem Program.operandsIn_append (op : Operator) (value : UInt32) (p : Program)
    {operand : List (Fin 10)} (h : operand.length = op.operandWidth) (rest : List (Fin 10)) :
    operandsIn (⟨op, value⟩ :: p) (op.digits ++ operand ++ rest) =
      operand ++ operandsIn p rest := by
  rw [operandsIn, List.append_assoc, List.drop_left' rfl]
  dsimp only
  rw [List.take_left' h, List.drop_left' h]

/-- An instruction whose operand digits are small is written with these digits. -/
theorem textDigits_line_of_le (op : Operator) {operand : List (Fin 10)}
    (h : operand.length = op.operandWidth) (hd : ∀ d ∈ operand, d ≤ 3) :
    let i : Instruction := ⟨op, UInt32.ofNat (operandNumber operand 0)⟩
    i.fits = true ∧ textDigits i.line = op.digits ++ operand := by
  intro i
  have hlt := operandNumber_lt hd
  rw [h] at hlt
  have hword : operandNumber operand 0 < UInt32.size :=
    Nat.lt_of_lt_of_le hlt (Nat.pow_le_pow_right (by decide) op.operandWidth_le)
  have hv : i.value.toNat = operandNumber operand 0 := UInt32.toNat_ofNat_of_lt' hword
  have hfits : i.fits = true := by
    rw [Instruction.fits, hv]
    simp [hlt, i]
  refine ⟨hfits, ?_⟩
  rw [textDigits_line_eq hfits, hv, ← h, operandDigits_operandNumber hd]

theorem Program.Spells.bytes {p : Program} {ds : List (Fin 10)} (h : p.Spells ds)
    (hd : ∀ d ∈ p.operandsIn ds, d ≤ 3) : (∀ i ∈ p, i.fits = true) ∧ digitsOf p.bytes = ds := by
  induction h with
  | nil => exact ⟨nofun, rfl⟩
  | cons hi _ ih =>
    obtain ⟨op, operand, ho⟩ := hi
    rw [operandsIn_append op _ _ ho] at hd
    obtain ⟨hfits, hline⟩ := textDigits_line_of_le op ho fun d h => hd d (List.mem_append_left _ h)
    obtain ⟨hp, hrest⟩ := ih fun d h => hd d (List.mem_append_right _ h)
    refine ⟨List.forall_mem_cons.mpr ⟨hfits, hp⟩, ?_⟩
    rw [Program.bytes, List.flatMap_cons, digitsOf_append, ← textDigits, hline, ← Program.bytes,
      hrest]

/-! ## Sources -/

theorem digitByte_lastDigit {b : UInt8} (h : 0x30 ≤ b ∧ b ≤ 0x39) :
    digitByte (lastDigit (b.toNat - 0x30)) = b := by
  have hle : 0x30 ≤ b.toNat ∧ b.toNat ≤ 0x39 := h
  apply UInt8.toNat_inj.mp
  rw [digitByte, val_lastDigit (by omega)]
  simp
  omega

theorem asciiDigits_eq (bs : List UInt8) : asciiDigits bs = (digitsOf bs).map digitByte := by
  induction bs with
  | nil => rfl
  | cons b bs ih =>
    rw [asciiDigits, List.filter_cons, ← asciiDigits, ih, digitsOf, digitsOf, List.filterMap_cons,
      digit?]
    by_cases h : 0x30 ≤ b ∧ b ≤ 0x39
    · rw [if_pos (decide_eq_true h), if_pos h, List.map_cons, digitByte_lastDigit h]
    · rw [if_neg (by simpa using h), if_neg h]

namespace Program

theorem quiet_of_ok {s : Source} {p : Program} (h : ofSource s = .ok p) : s.Quiet := by
  rcases s.quiet_or_surfaces with hs | ⟨before, f, after, rfl, hb, hf⟩
  · exact hs
  · rw [ofSource_failure hb hf] at h
    cases h

theorem spells_of_ok {s : Source} {p : Program} (h : ofSource s = .ok p) :
    p.Spells (digitsOf s.bytes) := by
  rw [(quiet_of_ok h).ofSource, ofSource_ofBytes] at h
  rw [← Decoder.read_eq_none_iff]
  rcases hr : Decoder.start.read (digitsOf s.bytes) with ⟨q, _ | e⟩
  · rw [hr] at h
    cases h
    rfl
  · rw [hr] at h
    cases h

/-- A source whose operand digits are all below four is decoded to a program that is written
with the digits of the source. So it has the digits of every such source of its program. -/
theorem encode_ofSource {s : Source} {p : Program} (h : ofSource s = .ok p)
    (hd : ∀ d ∈ p.operandsIn (digitsOf s.bytes), d ≤ 3) {sink : Sink} (hs : sink.limit = none) :
    (p.encode sink).1 = .ok () ∧
    (∃ bytes : List UInt8, (p.encode sink).2.written = sink.written ++ bytes ∧
      asciiDigits bytes = asciiDigits s.bytes) ∧
    ∀ t : Source, ofSource t = .ok p → (∀ d ∈ p.operandsIn (digitsOf t.bytes), d ≤ 3) →
      asciiDigits t.bytes = asciiDigits s.bytes := by
  obtain ⟨hfits, hbytes⟩ := (spells_of_ok h).bytes hd
  rw [encode_of_fits hs hfits]
  refine ⟨rfl, ⟨p.bytes, rfl, ?_⟩, fun t ht hdt => ?_⟩
  · rw [asciiDigits_eq, asciiDigits_eq, hbytes]
  · obtain ⟨-, hbytes'⟩ := (spells_of_ok ht).bytes hdt
    rw [asciiDigits_eq, asciiDigits_eq, ← hbytes, ← hbytes']

/-- Two ways to write the same digits, with text and a chunk's end between them. -/
theorem encode_ofSource_text :
    let s : Source := .ofBytes [0x30, 0x31, 0x30, 0x30, 0x31, 0x34]
    let t : Source := [.chunk [0x30, 0x20, 0x31, 0x30, 0x78], .chunk [0x30, 0x31, 0xff, 0x34, 0x0a]]
    let p : Program := [⟨.constant8Bit, 65⟩, ⟨.outputCharacter, 0⟩]
    let sink : Sink := {}
    ofSource s = .ok p ∧ ofSource t = .ok p ∧ (p.encode sink).1 = .ok () ∧
      asciiDigits t.bytes = asciiDigits s.bytes := by
  intro s t p sink
  have hs : ofSource s = .ok p := by
    rw [ofSource_ofBytes]
    rfl
  have ht : ofSource t = .ok p := by
    rw [Source.Quiet.ofSource (s := t) (fun f hf => by simp [t] at hf), ofSource_ofBytes]
    rfl
  obtain ⟨hok, -, hsame⟩ := encode_ofSource hs (by decide) (show sink.limit = none from rfl)
  exact ⟨hs, ht, hok, hsame t ht (by decide)⟩

end Program

end NumNum
