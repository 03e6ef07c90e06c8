import NumNum.Digit.Decoding

/-!
# Decodings and what they are supplied with

All that a decoding sees of its supply are the items that the supply hands out, so it can
be followed along a list of items (`Decoding.program_items`). Along digits alone it is
`Decoder.read`: the instructions in front of the first error, and that error.
-/

namespace NumNum

namespace DigitSupply

variable {σ : Type} [DigitSupply σ]

/-- Everything that a supply hands out, in order. -/
def items (s : σ) : List (Except IoFault Nat) :=
  match _h : next? s with
  | none => []
  | some (item, rest) => item :: items rest
termination_by size s
decreasing_by exact size_lt _h

theorem items_of_none {s : σ} (h : next? s = none) : items s = [] := by
  rw [items]
  split
  · rfl
  · rename_i h'
    rw [h] at h'
    cases h'

theorem items_of_some {s rest : σ} {item : Except IoFault Nat} (h : next? s = some (item, rest)) :
    items s = item :: items rest := by
  rw [items]
  split
  · rename_i h'
    rw [h] at h'
    cases h'
  · rename_i h'
    rw [h] at h'
    cases h'
    rfl

end DigitSupply

open DigitSupply

namespace Decoding

variable {σ : Type} [DigitSupply σ] {s rest : σ} {decoder decoder' : Decoder}

/-! ## The next result -/

theorem next?_of_none (h : DigitSupply.next? s = none) :
    next? ⟨decoder, s⟩ = decoder.truncation?.map fun e => (.error (.decode e), ⟨.start, s⟩) := by
  rw [next?]
  split
  · split
    · rename_i h'
      rw [h']
      rfl
    · rename_i h'
      rw [h']
      rfl
  all_goals
    rename_i h'
    rw [h] at h'
    cases h'

theorem next?_of_fault {f : IoFault} (h : DigitSupply.next? s = some (.error f, rest)) :
    next? ⟨decoder, s⟩ = some (.error (.io f), ⟨decoder, rest⟩) := by
  rw [next?]
  split <;> rename_i h' <;> rw [h] at h' <;> cases h'
  rfl

theorem next?_of_digit {digit : Nat} (h : DigitSupply.next? s = some (.ok digit, rest)) :
    next? ⟨decoder, s⟩ =
      match decoder.feed digit with
      | (.error e, decoder) => some (.error (.decode e), ⟨decoder, rest⟩)
      | (.ok (some i), decoder) => some (.ok i, ⟨decoder, rest⟩)
      | (.ok none, decoder) => next? ⟨decoder, rest⟩ := by
  rw [next?]
  split <;> rename_i h' <;> rw [h] at h' <;> cases h'
  rfl

/-- The decoding of the items that the supply hands out. -/
def itemized (d : Decoding σ) : Decoding (List (Except IoFault Nat)) :=
  ⟨d.decoder, items d.supply⟩

theorem next?_itemized (d : Decoding σ) :
    d.itemized.next? = d.next?.map fun r => (r.1, r.2.itemized) := by
  -- digits that complete nothing are passed over, so the induction is on what is left
  induction hn : DigitSupply.size d.supply using Nat.strongRecOn generalizing d with
  | ind n ih =>
    obtain ⟨decoder, s⟩ := d
    cases h : DigitSupply.next? s with
    | none =>
      rw [itemized, items_of_none h, next?_of_none h, next?_of_none rfl]
      cases decoder.truncation? with
      | none => rfl
      | some e => simp [itemized, items_of_none h]
    | some r =>
      obtain ⟨item, rest⟩ := r
      have hlt := size_lt h
      rw [itemized, items_of_some h]
      cases item with
      | error f =>
        rw [next?_of_fault h, next?_of_fault rfl]
        rfl
      | ok digit =>
        rw [next?_of_digit h, next?_of_digit rfl]
        rcases decoder.feed digit with ⟨_ | _ | i, decoder'⟩
        · rfl
        · exact ih _ (hn ▸ hlt) ⟨decoder', rest⟩ rfl
        · rfl

/-! ## The whole program -/

variable {got : List Instruction}

theorem programFrom_of_none {d : Decoding σ} (h : d.next? = none) :
    programFrom got d = .ok got.reverse := by
  rw [programFrom]
  split <;> rename_i h' <;> rw [h] at h' <;> cases h'

theorem programFrom_of_error {d d' : Decoding σ} {e : Error} (h : d.next? = some (.error e, d')) :
    programFrom got d = .error e := by
  rw [programFrom]
  split <;> rename_i h' <;> rw [h] at h' <;> cases h'
  rfl

theorem programFrom_of_ok {d d' : Decoding σ} {i : Instruction} (h : d.next? = some (.ok i, d')) :
    programFrom got d = programFrom (i :: got) d' := by
  rw [programFrom]
  split <;> rename_i h' <;> rw [h] at h' <;> cases h'
  rfl

theorem programFrom_congr {d d' : Decoding σ} (h : d.next? = d'.next?) :
    programFrom got d = programFrom got d' := by
  cases hn : d'.next? with
  | none => rw [programFrom_of_none hn, programFrom_of_none (h.trans hn)]
  | some r =>
    obtain ⟨_ | i, d''⟩ := r
    · rw [programFrom_of_error hn, programFrom_of_error (h.trans hn)]
    · rw [programFrom_of_ok hn, programFrom_of_ok (h.trans hn)]

theorem programFrom_itemized (d : Decoding σ) :
    programFrom got d.itemized = programFrom got d := by
  have hi := next?_itemized d
  fun_induction programFrom got d with
  | case1 got d h =>
    rw [h] at hi
    exact programFrom_of_none hi
  | case2 got d e d' h =>
    rw [h] at hi
    exact programFrom_of_error hi
  | case3 got d i d' h ih =>
    rw [h] at hi
    rw [programFrom_of_ok hi]
    exact ih (next?_itemized d')

theorem program_items (s : σ) :
    program ⟨.start, s⟩ = program ⟨.start, items s⟩ :=
  (programFrom_itemized ⟨.start, s⟩).symm

end Decoding

/-! ## Digits alone -/

/-- The items of a supply that hands out these digits and never fails. -/
def DigitSupply.ofDigits (ds : List (Fin 10)) : List (Except IoFault Nat) :=
  ds.map fun d => .ok d.val

/-- The instructions that digits complete in front of the first error, and that error. -/
def Decoder.read : List (Fin 10) → Decoder → Program × Option DecodeError
  | [], decoder => ([], decoder.truncation?)
  | d :: ds, decoder =>
    match decoder.feed d with
    | (.error e, _) => ([], some e)
    | (.ok none, decoder) => read ds decoder
    | (.ok (some i), decoder) => (i :: (read ds decoder).1, (read ds decoder).2)

/-- What reading digits comes to as a whole. -/
def Decoder.result : Program × Option DecodeError → Except Error Program
  | (p, none) => .ok p
  | (_, some e) => .error (.decode e)

theorem Decoding.programFrom_ofDigits (ds : List (Fin 10)) (decoder : Decoder)
    (got : List Instruction) :
    programFrom got ⟨decoder, ofDigits ds⟩ =
      Decoder.result (got.reverse ++ (decoder.read ds).1, (decoder.read ds).2) := by
  induction ds generalizing decoder got with
  | nil =>
    have hn : next? ⟨decoder, ofDigits []⟩ = _ := next?_of_none rfl
    rw [Decoder.read]
    cases h : decoder.truncation? with
    | none =>
      rw [h] at hn
      rw [programFrom_of_none hn, List.append_nil]
      rfl
    | some e =>
      rw [h] at hn
      exact programFrom_of_error hn
  | cons d ds ih =>
    have hn : next? ⟨decoder, ofDigits (d :: ds)⟩ = _ := next?_of_digit rfl
    rw [Decoder.read]
    rcases hf : decoder.feed d.val with ⟨e | _ | i, decoder'⟩ <;> rw [hf] at hn
    · exact programFrom_of_error hn
    · exact (programFrom_congr hn).trans (ih decoder' got)
    · rw [programFrom_of_ok hn, ← ofDigits, ih, List.reverse_cons, List.append_assoc]
      rfl

theorem Decoding.program_ofDigits (ds : List (Fin 10)) :
    program ⟨.start, ofDigits ds⟩ = Decoder.result (Decoder.start.read ds) :=
  programFrom_ofDigits ds .start []

end NumNum
