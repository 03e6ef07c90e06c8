import NumNum.Proofs.Digit.Scan

/-!
# The grammar of digits

Which digits write an instruction, and in which ways a rest of digits fails to begin with
one. Every sequence of digits is a program followed by nothing or by such a failure
(`exists_spells_of_digits`), and this is what the decoder makes of it
(`Program.ofSource_iff_spells`).
-/

namespace NumNum

/-! ## What digits write -/

/-- The decimal digits of an operator's code. -/
def Operator.digits (op : Operator) : List (Fin 10) :=
  (Nat.toDigits 10 op.code).map charDigit

/-- The number that operand digits write in base 4 behind `value`; no digit is too large. -/
def operandNumber (ds : List (Fin 10)) (value : Nat) : Nat :=
  ds.foldl (fun value d => value * 4 + d.val) value

/-- An instruction is its operator's code and one digit for each place of the operand. -/
inductive Instruction.Spells : Instruction → List (Fin 10) → Prop where
  | intro (op : Operator) (operand : List (Fin 10)) (h : operand.length = op.operandWidth) :
      Spells ⟨op, UInt32.ofNat (operandNumber operand 0)⟩ (op.digits ++ operand)

/-- A program is its instructions, one behind the other. -/
inductive Program.Spells : Program → List (Fin 10) → Prop where
  | nil : Spells [] []
  | cons {i : Instruction} {p : Program} {front rest : List (Fin 10)} :
      i.Spells front → Spells p rest → Spells (i :: p) (front ++ rest)

/-- Digits with which no further instruction is complete, and what is wrong with them. -/
inductive Fails : List (Fin 10) → DecodeError → Prop where
  | code {ds : List (Fin 10)} (hne : ds ≠ []) (hle : ds.length ≤ 2) (h : ∀ d ∈ ds, 5 ≤ d) :
      Fails ds .truncatedOperator
  | unknown {a b c : Fin 10} (rest : List (Fin 10)) (ha : 5 ≤ a) (hb : 5 ≤ b)
      (h : ∀ op : Operator, op.code ≠ 100 * a + 10 * b + c) :
      Fails (a :: b :: c :: rest) (.unknownOperator (100 * a + 10 * b + c))
  | operand (op : Operator) {ds : List (Fin 10)} (h : ds.length < op.operandWidth) :
      Fails (op.digits ++ ds) (.truncatedOperand op (op.operandWidth - ds.length))

/-! ## Nothing else occurs -/

theorem Operator.exists_digits_one : ∀ a : Fin 10, a < 5 → ∃ op ∈ all, op.digits = [a] := by
  decide

theorem Operator.exists_digits_two :
    ∀ a b : Fin 10, 5 ≤ a → b < 5 → ∃ op ∈ all, op.digits = [a, b] := by
  decide

theorem Operator.digits_of_le {op : Operator} (h : 500 ≤ op.code) :
    op.digits = [lastDigit (op.code / 100), lastDigit (op.code / 10), lastDigit op.code] := by
  cases op <;> first | rfl | exact absurd h (by decide)

theorem Operator.digits_of_code {op : Operator} {a b c : Fin 10} (ha : 5 ≤ a)
    (h : op.code = 100 * a + 10 * b + c) : op.digits = [a, b, c] := by
  have h5 : 5 ≤ a.val := ha
  rw [digits_of_le (by omega), h]
  congr 1
  · exact Fin.ext (by simp [lastDigit]; omega)
  congr 1
  · exact Fin.ext (by simp [lastDigit]; omega)
  congr 1
  · exact Fin.ext (by simp [lastDigit]; omega)

/-- Digits that begin with a code go on with its operand, or break off in it. -/
theorem spells_or_fails_of_code (op : Operator) (ds : List (Fin 10)) :
    (∃ i front rest, Instruction.Spells i front ∧ op.digits ++ ds = front ++ rest) ∨
      ∃ e, Fails (op.digits ++ ds) e := by
  by_cases h : ds.length < op.operandWidth
  · exact .inr ⟨_, .operand op h⟩
  · refine .inl ⟨_, _, ds.drop op.operandWidth, .intro op (ds.take op.operandWidth) ?_, ?_⟩
    · rw [List.length_take]
      omega
    · rw [List.append_assoc, List.take_append_drop]

theorem spells_or_fails {ds : List (Fin 10)} (hne : ds ≠ []) :
    (∃ i front rest, Instruction.Spells i front ∧ ds = front ++ rest) ∨ ∃ e, Fails ds e := by
  have hcode : ∀ (op : Operator) (front rest : List (Fin 10)), op.digits = front →
      (∃ i f r, Instruction.Spells i f ∧ front ++ rest = f ++ r) ∨ ∃ e, Fails (front ++ rest) e := by
    rintro op _ rest rfl
    exact spells_or_fails_of_code op rest
  match ds with
  | [] => exact absurd rfl hne
  | a :: rest =>
    by_cases ha : a < 5
    · obtain ⟨op, -, hop⟩ := Operator.exists_digits_one a ha
      exact hcode op [a] rest hop
    have ha : 5 ≤ a := by omega
    match rest with
    | [] => exact .inr ⟨_, .code hne (by simp) (by simpa using ha)⟩
    | b :: rest =>
      by_cases hb : b < 5
      · obtain ⟨op, -, hop⟩ := Operator.exists_digits_two a b ha hb
        exact hcode op [a, b] rest hop
      have hb : 5 ≤ b := by omega
      match rest with
      | [] => exact .inr ⟨_, .code hne (by simp) (by simp [ha, hb])⟩
      | c :: rest =>
        by_cases hc : ∃ op : Operator, op.code = 100 * a + 10 * b + c
        · obtain ⟨op, hop⟩ := hc
          exact hcode op [a, b, c] rest (Operator.digits_of_code ha hop)
        · exact .inr ⟨_, .unknown rest ha hb fun op hop => hc ⟨op, hop⟩⟩

theorem Operator.digits_ne_nil (op : Operator) : op.digits ≠ [] := by
  cases op <;> exact List.cons_ne_nil _ _

theorem Instruction.Spells.ne_nil {i : Instruction} {front : List (Fin 10)} (h : i.Spells front) :
    front ≠ [] := by
  obtain ⟨op, operand, -⟩ := h
  intro he
  exact op.digits_ne_nil (List.append_eq_nil_iff.mp he).1

/-- Digits are a program, and behind it there is nothing or something is wrong. -/
theorem exists_spells_of_digits (ds : List (Fin 10)) :
    ∃ p front rest, Program.Spells p front ∧ ds = front ++ rest ∧
      (rest = [] ∨ ∃ e, Fails rest e) := by
  induction hn : ds.length using Nat.strongRecOn generalizing ds with
  | ind n ih =>
    by_cases hne : ds = []
    · exact ⟨[], [], ds, .nil, rfl, .inl hne⟩
    -- an instruction in front leaves fewer digits, and a failure ends the program
    rcases spells_or_fails hne with ⟨i, front, rest, hi, rfl⟩ | hf
    · have hlt : rest.length < n := by
        have := List.length_pos_iff.mpr hi.ne_nil
        rw [List.length_append] at hn
        omega
      obtain ⟨p, front', rest', hp, rfl, h⟩ := ih _ hlt rest rfl
      exact ⟨i :: p, front ++ front', rest', .cons hi hp, (List.append_assoc ..).symm, h⟩
    · exact ⟨[], [], ds, .nil, rfl, .inr hf⟩

/-! ## What the decoder reads -/

namespace Decoder

def behind (p : Program) (r : Program × Option DecodeError) : Program × Option DecodeError :=
  (p ++ r.1, r.2)

theorem read_digits (op : Operator) (ds : List (Fin 10)) :
    start.read (op.digits ++ ds) =
      match select op with
      | (some i, decoder) => behind [i] (decoder.read ds)
      | (none, decoder) => decoder.read ds := by
  cases op <;> rfl

theorem read_operand (op : Operator) {operand : List (Fin 10)} (hne : operand ≠ [])
    (ds : List (Fin 10)) (value : Nat) :
    (Decoder.operand op (UInt32.ofNat value) operand.length).read (operand ++ ds) =
      behind [⟨op, UInt32.ofNat (operandNumber operand value)⟩] (start.read ds) := by
  induction operand generalizing value with
  | nil => exact absurd rfl hne
  | cons d operand ih =>
    have hv : UInt32.ofNat value * 4 + UInt32.ofNat d.val = UInt32.ofNat (value * 4 + d.val) := by
      simp [UInt32.ofNat_add, UInt32.ofNat_mul]
    rw [List.cons_append, read, feed, hv]
    by_cases ho : operand = []
    · subst ho
      rfl
    · have hlt : 1 < (d :: operand).length := by
        have := List.length_pos_iff.mpr ho
        rw [List.length_cons]
        omega
      rw [if_pos hlt]
      exact ih ho (value * 4 + d.val)

theorem read_operand_of_lt (op : Operator) {ds : List (Fin 10)} {n : Nat} (h : ds.length < n)
    (value : UInt32) :
    (Decoder.operand op value n).read ds = ([], some (.truncatedOperand op (n - ds.length))) := by
  induction ds generalizing value n with
  | nil => rfl
  | cons d ds ih =>
    rw [List.length_cons] at h
    rw [read, feed, if_pos (by omega)]
    dsimp only
    rw [ih (by omega), List.length_cons]
    congr 3
    omega

theorem read_of_spells {i : Instruction} {front : List (Fin 10)} (h : i.Spells front)
    (ds : List (Fin 10)) : start.read (front ++ ds) = behind [i] (start.read ds) := by
  obtain ⟨op, operand, ho⟩ := h
  rw [List.append_assoc, read_digits, select]
  by_cases hw : op.operandWidth = 0
  · rw [if_pos hw]
    obtain rfl := List.eq_nil_of_length_eq_zero (ho.trans hw)
    rfl
  · rw [if_neg hw, ← ho]
    exact read_operand op (by rintro rfl; exact hw ho.symm) ds 0

theorem read_of_program {p : Program} {front : List (Fin 10)} (h : p.Spells front)
    (ds : List (Fin 10)) : start.read (front ++ ds) = behind p (start.read ds) := by
  induction h with
  | nil => rfl
  | cons hi _ ih =>
    rw [List.append_assoc, read_of_spells hi, ih]
    rfl

theorem read_lead {d : Fin 10} (hd : 5 ≤ d) {digits : Nat} (h : digits < 2) (number : Nat)
    (ds : List (Fin 10)) :
    (Decoder.code number digits).read (d :: ds) =
      (Decoder.code (number * 10 + d) (digits + 1)).read ds := by
  have h5 : 5 ≤ d.val := hd
  have hne : digits ≠ longestLead := Nat.ne_of_lt h
  simp only [read, feed, if_pos h5, if_neg hne]

theorem read_unknown {number : Nat} {d : Fin 10} (h : ∀ op : Operator, op.code ≠ number * 10 + d)
    (ds : List (Fin 10)) :
    (Decoder.code number 2).read (d :: ds) = ([], some (.unknownOperator (number * 10 + d))) := by
  have hnone : Operator.ofCode? (number * 10 + d) = none :=
    Option.eq_none_iff_forall_ne_some.mpr fun op hop => h op (Operator.code_of_ofCode? hop)
  have hlead : 2 = longestLead := rfl
  rw [read, feed]
  by_cases h5 : 5 ≤ d.val
  · rw [if_pos h5, if_pos hlead]
  · rw [if_neg h5, hnone]

theorem read_of_fails {ds : List (Fin 10)} {e : DecodeError} (h : Fails ds e) :
    start.read ds = ([], some e) := by
  cases h with
  | code hne hle h =>
    match ds with
    | [] => exact absurd rfl hne
    | [a] =>
      rw [start, read_lead (h a (by simp)) (by decide)]
      rfl
    | [a, b] =>
      rw [start, read_lead (h a (by simp)) (by decide), read_lead (h b (by simp)) (by decide)]
      rfl
    | _ :: _ :: _ :: _ => simp at hle
  | @unknown a b c rest ha hb h =>
    have hn : 100 * a.val + 10 * b.val + c.val = ((0 * 10 + a.val) * 10 + b.val) * 10 + c.val := by
      omega
    rw [hn] at h ⊢
    rw [start, read_lead ha (by decide), read_lead hb (by decide), read_unknown h]
  | operand op h =>
    have hw : op.operandWidth ≠ 0 := by omega
    rw [read_digits, select, if_neg hw]
    exact read_operand_of_lt op h 0

/-- Reading digits takes them apart into a program and what is wrong behind it. -/
theorem read_eq_iff {ds : List (Fin 10)} {p : Program} {e : Option DecodeError} :
    start.read ds = (p, e) ↔
      ∃ front rest, p.Spells front ∧ ds = front ++ rest ∧
        match e with
        | none => rest = []
        | some e => Fails rest e := by
  constructor
  · intro h
    obtain ⟨q, front, rest, hq, rfl, hr⟩ := exists_spells_of_digits ds
    rw [read_of_program hq] at h
    rcases hr with rfl | ⟨d, hd⟩
    · rw [show start.read [] = ([], none) from rfl, behind, List.append_nil] at h
      cases h
      exact ⟨front, [], hq, rfl, rfl⟩
    · rw [read_of_fails hd, behind, List.append_nil] at h
      cases h
      exact ⟨front, rest, hq, rfl, hd⟩
  · rintro ⟨front, rest, hp, rfl, hr⟩
    rw [read_of_program hp]
    cases e with
    | none =>
      obtain rfl := hr
      exact congrArg (·, none) (List.append_nil p)
    | some e =>
      rw [read_of_fails hr]
      exact congrArg (·, some e) (List.append_nil p)

-- operand digits above three are taken at their value, and a third lead digit is unknown
example : start.read [0, 9, 9, 9, 9, 5, 9, 9] =
    ([⟨.constant8Bit, 765⟩], some (.unknownOperator 599)) := by rfl

theorem read_eq_none_iff {ds : List (Fin 10)} {p : Program} :
    start.read ds = (p, none) ↔ p.Spells ds := by
  rw [read_eq_iff]
  constructor
  · rintro ⟨front, _, hp, rfl, rfl⟩
    rwa [List.append_nil]
  · intro hp
    exact ⟨ds, [], hp, (List.append_nil ds).symm, rfl⟩

end Decoder

/-! ## The longest program in front -/

/-- Digits split behind the longest sequence of complete instructions from the start. -/
structure Splits (ds front rest : List (Fin 10)) : Prop where
  eq_append : ds = front ++ rest
  spells : ∃ p, Program.Spells p front
  longest : ∀ front', front' <+: ds → (∃ p, Program.Spells p front') →
    front'.length ≤ front.length

/-- How many digits write a program. -/
def Program.places : Program → Nat
  | [] => 0
  | i :: p => i.operator.digits.length + i.operator.operandWidth + places p

theorem Program.places_append (p q : Program) : places (p ++ q) = places p + places q := by
  induction p with
  | nil => simp [places]
  | cons i p ih => simp [places, ih, Nat.add_assoc]

theorem Program.Spells.length_eq {p : Program} {front : List (Fin 10)} (h : p.Spells front) :
    front.length = p.places := by
  induction h with
  | nil => rfl
  | cons hi _ ih =>
    obtain ⟨op, operand, ho⟩ := hi
    simp [ih, ho, Program.places, Nat.add_assoc]

theorem splits_of_fails {front rest : List (Fin 10)} {p : Program} {e : DecodeError}
    (hp : p.Spells front) (he : Fails rest e) : Splits (front ++ rest) front rest := by
  refine ⟨rfl, ⟨p, hp⟩, ?_⟩
  rintro front' ⟨rest', h⟩ ⟨p', hp'⟩
  -- the decoder reads both programs, so the other one is the beginning of this one
  have hr := Decoder.read_of_program hp rest
  rw [Decoder.read_of_fails he, ← h, Decoder.read_of_program hp'] at hr
  have hpp : p' ++ (Decoder.start.read rest').1 = p := by
    simpa [Decoder.behind] using congrArg Prod.fst hr
  rw [hp.length_eq, hp'.length_eq, ← hpp, Program.places_append]
  exact Nat.le_add_right _ _

/-! ## Sources of digits -/

def digitByte (d : Fin 10) : UInt8 := 0x30 + UInt8.ofNat d.val

theorem digit?_digitByte : ∀ d : Fin 10, digit? (digitByte d) = some d := by
  decide

theorem digitsOf_map_digitByte (ds : List (Fin 10)) : digitsOf (ds.map digitByte) = ds := by
  have h : digit? ∘ digitByte = some := funext digit?_digitByte
  rw [digitsOf, List.filterMap_map, h, List.filterMap_some]

/-- The decoder accepts the digits that write a program, which is the only one that they
write, and reports what is wrong behind the longest program in front. -/
theorem Program.ofSource_iff_spells (ds : List (Fin 10)) :
    let source := Source.ofBytes (ds.map digitByte)
    (∀ p, ofSource source = .ok p ↔ p.Spells ds) ∧
    (∀ p q : Program, p.Spells ds → q.Spells ds → p = q) ∧
    (∀ e, ofSource source = .error e ↔
      ∃ front rest d, Splits ds front rest ∧ Fails rest d ∧ e = .decode d) := by
  intro source
  have hs : ofSource source = Decoder.result (Decoder.start.read ds) := by
    rw [ofSource_ofBytes, digitsOf_map_digitByte]
  refine ⟨fun p => ?_, fun p q hp hq => ?_, fun e => ?_⟩
  · rw [hs, ← Decoder.read_eq_none_iff]
    rcases Decoder.start.read ds with ⟨q, _ | d⟩ <;> simp [Decoder.result]
  · rw [← Decoder.read_eq_none_iff] at hp hq
    rw [hp] at hq
    cases hq
    rfl
  · rw [hs]
    constructor
    · intro h
      rcases hr : Decoder.start.read ds with ⟨p, _ | d⟩
      · rw [hr] at h
        cases h
      · rw [hr] at h
        cases h
        obtain ⟨front, rest, hp, rfl, hf⟩ := Decoder.read_eq_iff.mp hr
        exact ⟨front, rest, d, splits_of_fails hp hf, hf, rfl⟩
    · rintro ⟨front, rest, d, ⟨rfl, ⟨p, hp⟩, -⟩, hf, rfl⟩
      rw [Decoder.read_of_program hp, Decoder.read_of_fails hf]
      rfl

end NumNum
