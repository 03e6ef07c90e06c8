import NumNum.Digit.Decoder
import NumNum.Digit.Supply

/-!
# Decoding a supply

A decoding takes instructions from a digit supply one by one and can go on after an
error. `Decoding.next?` gives the next result, and `Decoding.program` all instructions
or the first error. Every result uses up the decoding (`Decoding.size_lt_of_next?`).
-/

namespace NumNum

/-- A decoder and the digits it is fed with. -/
structure Decoding (σ : Type) where
  decoder : Decoder := .start
  supply : σ

namespace Decoding

variable {σ : Type} [DigitSupply σ]

/-- The next instruction or error. At the end of the supply an incomplete instruction is
an error once, and then there is nothing more. -/
def next? (d : Decoding σ) : Option (Except Error Instruction × Decoding σ) :=
  match _h : DigitSupply.next? d.supply with
  | none =>
    match d.decoder.truncation? with
    | none => none
    | some e => some (.error (.decode e), { d with decoder := .start })
  | some (.error f, rest) => some (.error (.io f), { d with supply := rest })
  | some (.ok digit, rest) =>
    match d.decoder.feed digit with
    | (.error e, decoder) => some (.error (.decode e), ⟨decoder, rest⟩)
    | (.ok (some i), decoder) => some (.ok i, ⟨decoder, rest⟩)
    | (.ok none, decoder) => next? ⟨decoder, rest⟩
termination_by DigitSupply.size d.supply
decreasing_by exact DigitSupply.size_lt _h

/-- A bound on the results to come. -/
def size (d : Decoding σ) : Nat :=
  2 * DigitSupply.size d.supply + if d.decoder.truncation?.isSome then 1 else 0

theorem size_lt_of_supply {d d' : Decoding σ}
    (h : DigitSupply.size d'.supply < DigitSupply.size d.supply) : d'.size < d.size := by
  unfold size; split <;> split <;> omega

theorem size_lt_of_next? {d d' : Decoding σ} {r : Except Error Instruction}
    (h : d.next? = some (r, d')) : d'.size < d.size := by
  fun_induction next? d with
  | case1 => simp at h
  | case2 d _ e he =>
    cases h
    unfold size
    rw [he]
    simp [Decoder.start, Decoder.truncation?]
  | case3 d f rest hs =>
    cases h
    exact size_lt_of_supply (DigitSupply.size_lt hs)
  | case4 d digit rest hs e decoder hf =>
    cases h
    exact size_lt_of_supply (DigitSupply.size_lt hs)
  | case5 d digit rest hs i decoder hf =>
    cases h
    exact size_lt_of_supply (DigitSupply.size_lt hs)
  | case6 d digit rest hs decoder hf ih =>
    exact Nat.lt_trans (ih h) (size_lt_of_supply (DigitSupply.size_lt hs))

/-- The results of `n` attempts, which go on after errors and after the end. -/
def take : Nat → Decoding σ → List (Option (Except Error Instruction))
  | 0, _ => []
  | n + 1, d =>
    match d.next? with
    | none => none :: take n d
    | some (r, d') => some r :: take n d'

/-- The results up to the end, in front of those already at hand, last first. -/
def resultsFrom (got : List (Except Error Instruction)) (d : Decoding σ) :
    List (Except Error Instruction) :=
  match _h : d.next? with
  | none => got.reverse
  | some (r, d') => resultsFrom (r :: got) d'
termination_by d.size
decreasing_by exact size_lt_of_next? _h

/-- The results up to the end; errors do not stop the decoding. -/
def results (d : Decoding σ) : List (Except Error Instruction) :=
  resultsFrom [] d

/-- The instructions up to the end or the first error, behind those at hand, last first. -/
def programFrom (got : List Instruction) (d : Decoding σ) : Except Error Program :=
  match _h : d.next? with
  | none => .ok got.reverse
  | some (.error e, _) => .error e
  | some (.ok i, d') => programFrom (i :: got) d'
termination_by d.size
decreasing_by exact size_lt_of_next? _h

/-- The whole program, or the first error. -/
def program (d : Decoding σ) : Except Error Program :=
  programFrom [] d

end Decoding

/-- The program that a source writes. -/
def Program.ofSource (s : Source) : Except Error Program :=
  Decoding.program { supply := s }

end NumNum
