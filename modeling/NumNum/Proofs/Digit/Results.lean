import NumNum.Proofs.Digit.Scan

/-!
# The results of a decoding

A decoding that goes on behind errors takes its items one by one: each leads to one result
at most, and the end of the items to one more if it comes inside an instruction
(`Decoding.results_items`). A failure among the items is a result of its own and leaves the
decoder as it is, so no digit is lost by it (`Decoding.results_failures`).
-/

namespace NumNum

/-! ## Results of a supply and of its items -/

namespace Decoding

variable {σ : Type} [DigitSupply σ] {got : List (Except Error Instruction)}

theorem resultsFrom_of_none {d : Decoding σ} (h : d.next? = none) :
    resultsFrom got d = got.reverse := by
  rw [resultsFrom]
  split <;> rename_i h' <;> rw [h] at h' <;> cases h'

theorem resultsFrom_of_some {d d' : Decoding σ} {r : Except Error Instruction}
    (h : d.next? = some (r, d')) : resultsFrom got d = resultsFrom (r :: got) d' := by
  rw [resultsFrom]
  split <;> rename_i h' <;> rw [h] at h' <;> cases h'
  rfl

theorem resultsFrom_congr {d d' : Decoding σ} (h : d.next? = d'.next?) :
    resultsFrom got d = resultsFrom got d' := by
  cases hn : d'.next? with
  | none => rw [resultsFrom_of_none hn, resultsFrom_of_none (h.trans hn)]
  | some r => rw [resultsFrom_of_some hn, resultsFrom_of_some (h.trans hn)]

theorem resultsFrom_itemized (d : Decoding σ) : resultsFrom got d.itemized = resultsFrom got d := by
  have hi := next?_itemized d
  fun_induction resultsFrom got d with
  | case1 got d h =>
    rw [h] at hi
    exact resultsFrom_of_none hi
  | case2 got d r d' h ih =>
    rw [h] at hi
    rw [resultsFrom_of_some hi]
    exact ih (next?_itemized d')

end Decoding

/-! ## Item by item -/

namespace Decoder

/-- The result that an item leads to, if there is one, and the decoder behind it. -/
def consume (decoder : Decoder) :
    Except IoFault Nat → List (Except Error Instruction) × Decoder
  | .error f => ([.error (.io f)], decoder)
  | .ok digit =>
    match decoder.feed digit with
    | (.error e, decoder) => ([.error (.decode e)], decoder)
    | (.ok none, decoder) => ([], decoder)
    | (.ok (some i), decoder) => ([.ok i], decoder)

def consumeAll : List (Except IoFault Nat) → Decoder → List (Except Error Instruction) × Decoder
  | [], decoder => ([], decoder)
  | item :: items, decoder =>
    ((decoder.consume item).1 ++ (consumeAll items (decoder.consume item).2).1,
      (consumeAll items (decoder.consume item).2).2)

/-- The result of the end of the items. -/
def close (decoder : Decoder) : List (Except Error Instruction) :=
  decoder.truncation?.toList.map fun e => .error (.decode e)

theorem consumeAll_append (xs ys : List (Except IoFault Nat)) (decoder : Decoder) :
    consumeAll (xs ++ ys) decoder =
      ((consumeAll xs decoder).1 ++ (consumeAll ys (consumeAll xs decoder).2).1,
        (consumeAll ys (consumeAll xs decoder).2).2) := by
  induction xs generalizing decoder with
  | nil => rfl
  | cons item xs ih => simp [consumeAll, ih]

end Decoder

namespace Decoding

theorem resultsFrom_items (items : List (Except IoFault Nat)) (decoder : Decoder)
    (got : List (Except Error Instruction)) :
    resultsFrom got ⟨decoder, items⟩ =
      got.reverse ++ (decoder.consumeAll items).1 ++ (decoder.consumeAll items).2.close := by
  induction items generalizing decoder got with
  | nil =>
    have hn : next? ⟨decoder, ([] : List (Except IoFault Nat))⟩ = _ := next?_of_none rfl
    have hend : next? ⟨Decoder.start, ([] : List (Except IoFault Nat))⟩ = none := next?_of_none rfl
    cases h : decoder.truncation? with
    | none =>
      rw [h] at hn
      rw [resultsFrom_of_none hn]
      simp [Decoder.consumeAll, Decoder.close, h]
    | some e =>
      rw [h] at hn
      rw [resultsFrom_of_some hn, resultsFrom_of_none hend]
      simp [Decoder.consumeAll, Decoder.close, h]
  | cons item items ih =>
    cases item with
    | error f =>
      rw [resultsFrom_of_some (next?_of_fault rfl), ih]
      simp [Decoder.consumeAll, Decoder.consume]
    | ok digit =>
      have hn : next? ⟨decoder, Except.ok digit :: items⟩ = _ := next?_of_digit rfl
      rw [Decoder.consumeAll, Decoder.consume]
      rcases hf : decoder.feed digit with ⟨e | _ | i, decoder'⟩ <;> rw [hf] at hn
      · rw [resultsFrom_of_some hn, ih]
        simp
      · rw [resultsFrom_congr hn, ih]
        simp
      · rw [resultsFrom_of_some hn, ih]
        simp

/-- The results of items are those that they lead to, one behind the other, and the end's. -/
theorem results_items (items : List (Except IoFault Nat)) :
    results { supply := items } =
      (Decoder.start.consumeAll items).1 ++ (Decoder.start.consumeAll items).2.close :=
  resultsFrom_items items .start []

end Decoding

/-! ## Failures among the items -/

def Error.io? : Error → Option IoFault
  | .io f => some f
  | _ => none

/-- The failure that a result reports, if it is one of the supply. -/
def Decoding.failure? : Except Error Instruction → Option IoFault
  | .error e => e.io?
  | .ok _ => none

/-- The failure that an item is. -/
def DigitSupply.failure? : Except IoFault Nat → Option IoFault
  | .error f => some f
  | .ok _ => none

/-- The results that report no failure of the supply. -/
def Decoding.genuine (rs : List (Except Error Instruction)) : List (Except Error Instruction) :=
  rs.filter fun r => (failure? r).isNone

/-- The items that are digits. -/
def DigitSupply.digits (items : List (Except IoFault Nat)) : List (Except IoFault Nat) :=
  items.filter fun item => (failure? item).isNone

namespace Decoder

open Decoding (genuine)

theorem genuine_consume (digit : Nat) (decoder : Decoder) :
    genuine (decoder.consume (.ok digit)).1 = (decoder.consume (.ok digit)).1 ∧
      (decoder.consume (.ok digit)).1.filterMap Decoding.failure? = [] := by
  rw [consume]
  rcases decoder.feed digit with ⟨e | _ | i, decoder'⟩
  · exact ⟨rfl, rfl⟩
  · exact ⟨rfl, rfl⟩
  · exact ⟨rfl, rfl⟩

theorem genuine_close (decoder : Decoder) :
    genuine decoder.close = decoder.close ∧ decoder.close.filterMap Decoding.failure? = [] := by
  rw [close]
  cases decoder.truncation? with
  | none => exact ⟨rfl, rfl⟩
  | some e => exact ⟨rfl, rfl⟩

theorem genuine_consumeAll (items : List (Except IoFault Nat)) (decoder : Decoder) :
    genuine (decoder.consumeAll items).1 = (decoder.consumeAll (DigitSupply.digits items)).1 ∧
      (decoder.consumeAll items).2 = (decoder.consumeAll (DigitSupply.digits items)).2 ∧
      (decoder.consumeAll items).1.filterMap Decoding.failure? =
        items.filterMap DigitSupply.failure? := by
  induction items generalizing decoder with
  | nil => exact ⟨rfl, rfl, rfl⟩
  | cons item items ih =>
    cases item with
    | error f =>
      obtain ⟨hs, hd, hf⟩ := ih decoder
      exact ⟨hs, hd, congrArg (f :: ·) hf⟩
    | ok digit =>
      obtain ⟨hs, hd, hf⟩ := ih (decoder.consume (.ok digit)).2
      obtain ⟨hs', hf'⟩ := genuine_consume digit decoder
      refine ⟨?_, hd, ?_⟩
      · rw [consumeAll, genuine, List.filter_append, ← genuine, ← genuine, hs', hs]
        rfl
      · rw [consumeAll, List.filterMap_append, hf', List.nil_append, hf]
        rfl

end Decoder

/-- The source has ended inside an instruction. -/
def DecodeError.Truncates : DecodeError → Prop
  | .unknownOperator _ => False
  | .truncatedOperator => True
  | .truncatedOperand _ _ => True

/-- Only the end of the digits can cut a code or an operand off. -/
theorem Decoder.unknownOperator_of_feed {digit : Nat} {decoder decoder' : Decoder}
    {e : DecodeError} (h : decoder.feed digit = (.error e, decoder')) :
    ∃ code, e = .unknownOperator code := by
  unfold Decoder.feed at h
  split at h
  · dsimp only at h
    split at h
    · split at h
      · cases h
        exact ⟨_, rfl⟩
      · cases h
    · split at h
      · cases h
        exact ⟨_, rfl⟩
      · cases h
  · dsimp only at h
    split at h
    · cases h
    · cases h

theorem Decoder.truncates {decoder : Decoder} {e : DecodeError}
    (h : decoder.truncation? = some e) : e.Truncates := by
  cases decoder with
  | code number digits =>
    by_cases hd : digits = 0
    · simp [truncation?, hd] at h
    · simp only [truncation?, if_neg hd, Option.some.injEq] at h
      rw [← h]
      trivial
  | operand operator value missing =>
    cases h
    trivial

namespace Source

theorem digits_ofDigits (ds : List (Fin 10)) :
    DigitSupply.digits (DigitSupply.ofDigits ds) = DigitSupply.ofDigits ds := by
  apply List.filter_eq_self.mpr
  intro item h
  obtain ⟨d, -, rfl⟩ := List.mem_map.mp h
  rfl

theorem digits_delivery (d : Delivery) :
    DigitSupply.digits d.supplied = DigitSupply.ofDigits (digitsOf d.bytes) := by
  cases d with
  | chunk bs => exact digits_ofDigits _
  | failure f =>
    rw [Delivery.supplied]
    by_cases hi : f.kind = .interrupted
    · rw [if_pos hi]
      rfl
    · rw [if_neg hi, reported]
      by_cases hk : f.kind = .invalidData
      · rw [if_pos hk]
        rfl
      · rw [if_neg hk]
        rfl

theorem digits_supplied (s : Source) :
    DigitSupply.digits s.supplied = DigitSupply.ofDigits (digitsOf s.bytes) := by
  induction s with
  | nil => rfl
  | cons d s ih =>
    rw [supplied_cons, DigitSupply.digits, List.filter_append, ← DigitSupply.digits,
      ← DigitSupply.digits, digits_delivery, ih, ← ofDigits_append, ← digitsOf_append]
    rfl

end Source

namespace Decoding

theorem results_source (s : Source) :
    results { supply := s } = results { supply := s.supplied } := by
  have h : resultsFrom [] (itemized ⟨.start, s⟩) = results ⟨.start, s⟩ := resultsFrom_itemized _
  rw [itemized, Source.items_eq] at h
  exact h.symm

theorem genuine_results (items : List (Except IoFault Nat)) :
    genuine (results { supply := items }) = results { supply := DigitSupply.digits items } ∧
      (results { supply := items }).filterMap failure? =
        items.filterMap DigitSupply.failure? := by
  obtain ⟨hs, hd, hf⟩ := Decoder.start.genuine_consumeAll items
  obtain ⟨hs', hf'⟩ := (Decoder.start.consumeAll items).2.genuine_close
  constructor
  · rw [results_items, results_items, genuine, List.filter_append, ← genuine, ← genuine, hs, hs',
      hd]
  · rw [results_items, List.filterMap_append, hf, hf', List.append_nil]

/-- An item behind others has its results behind theirs, and so has what follows it. -/
theorem results_append (xs ys : List (Except IoFault Nat)) :
    results { supply := xs ++ ys } = (Decoder.start.consumeAll xs).1 ++
      (((Decoder.start.consumeAll xs).2.consumeAll ys).1 ++
        ((Decoder.start.consumeAll xs).2.consumeAll ys).2.close) := by
  rw [results_items, Decoder.consumeAll_append, List.append_assoc]

/-- No failure costs a decoding a digit. But for the failures themselves, a source has the
results that its bytes have when they are delivered without any. Among items, each failure
is a result once: behind the results that the items ahead of it have led to, and ahead of
those that were to come without it. -/
theorem results_failures :
    (∀ (s : Source) (chunks : List (List UInt8)), s.bytes = Source.bytes (chunks.map .chunk) →
      genuine (results { supply := s }) = results { supply := (chunks.map .chunk : Source) }) ∧
    (∀ items : List (Except IoFault Nat),
      genuine (results { supply := items }) = results { supply := DigitSupply.digits items } ∧
      (results { supply := items }).filterMap failure? =
        items.filterMap DigitSupply.failure?) ∧
    ∀ xs : List (Except IoFault Nat), ∃ before : List (Except Error Instruction),
      (results { supply := xs } = before ∨ ∃ e : DecodeError, e.Truncates ∧
        results { supply := xs } = before ++ [.error (.decode e)]) ∧
      ∀ ys : List (Except IoFault Nat), ∃ after : List (Except Error Instruction),
        results { supply := xs ++ ys } = before ++ after ∧
        ∀ f, results { supply := xs ++ .error f :: ys } = before ++ .error (.io f) :: after := by
  refine ⟨fun s chunks h => ?_, genuine_results, fun xs => ?_⟩
  · rw [results_source, (genuine_results _).1, Source.digits_supplied, h, results_source,
      Source.supplied_chunks]
  · refine ⟨(Decoder.start.consumeAll xs).1, ?_, fun ys => ?_⟩
    · rw [results_items, Decoder.close]
      cases h : (Decoder.start.consumeAll xs).2.truncation? with
      | none => exact .inl (List.append_nil _)
      | some e => exact .inr ⟨e, Decoder.truncates h, rfl⟩
    · exact ⟨_, results_append xs ys, fun f => results_append xs (.error f :: ys)⟩

end Decoding

end NumNum
