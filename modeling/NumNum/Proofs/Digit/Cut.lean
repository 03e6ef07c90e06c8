import NumNum.Proofs.Digit.Results
import NumNum.Proofs.Digit.RoundTrip

/-!
# Programs cut off

What is written of a program may be cut off: by a sink that takes no more, or ahead of an
operand that does not fit. Whatever has been written by then is read as instructions of the
program in order, up to the cut (`Program.ofSource_encode_cut`).
-/

namespace NumNum

/-! ## Digits cut off -/

namespace Decoder

theorem not_truncates_of_feed {digit : Nat} {decoder decoder' : Decoder} {e : DecodeError}
    (h : decoder.feed digit = (.error e, decoder')) : ¬ e.Truncates := by
  obtain ⟨code, rfl⟩ := unknownOperator_of_feed h
  exact id

/-- The beginning of some digits is read as the beginning of what all of them are read as, and
nothing is wrong with it that is not wrong with them, but for its end. -/
theorem read_append (ds more : List (Fin 10)) (decoder : Decoder) :
    (decoder.read ds).1 <+: (decoder.read (ds ++ more)).1 ∧
      ∀ e, (decoder.read ds).2 = some e →
        e.Truncates ∨ (decoder.read (ds ++ more)).2 = some e := by
  induction ds generalizing decoder with
  | nil => exact ⟨List.nil_prefix, fun e h => .inl (truncates h)⟩
  | cons d ds ih =>
    rw [List.cons_append, read, read]
    rcases decoder.feed d with ⟨e | _ | i, decoder'⟩
    · exact ⟨List.prefix_refl _, fun e' h => .inr h⟩
    · exact ih decoder'
    · exact ⟨List.cons_prefix_cons.mpr ⟨rfl, (ih decoder').1⟩, (ih decoder').2⟩

/-- Digits with which nothing is wrong but their end lead to their instructions, and end there. -/
theorem consumeAll_ofDigits (ds : List (Fin 10)) {decoder : Decoder}
    (h : ∀ e, (decoder.read ds).2 = some e → e.Truncates) :
    (decoder.consumeAll (DigitSupply.ofDigits ds)).1 = (decoder.read ds).1.map .ok ∧
      (decoder.consumeAll (DigitSupply.ofDigits ds)).2.truncation? = (decoder.read ds).2 := by
  induction ds generalizing decoder with
  | nil => exact ⟨rfl, rfl⟩
  | cons d ds ih =>
    rw [read] at h ⊢
    rw [DigitSupply.ofDigits, List.map_cons, consumeAll, consume]
    rcases hf : decoder.feed d with ⟨e | _ | i, decoder'⟩
    · rw [hf] at h
      exact absurd (h e rfl) (not_truncates_of_feed hf)
    · rw [hf] at h
      exact ih h
    · rw [hf] at h
      exact ⟨congrArg (Except.ok i :: ·) (ih h).1, (ih h).2⟩

end Decoder

namespace Program

/-! ## Reading what was written -/

theorem read_line_of_not_fits {i : Instruction} (hi : i.fits = false) :
    Decoder.start.read (textDigits i.line) =
      ([], some (.truncatedOperand i.operator i.operator.operandWidth)) := by
  have hspace : textDigits " " = [] := by decide
  have hw : i.operator.operandWidth ≠ 0 := by
    intro hw
    simp [Instruction.fits, hw] at hi
  have hf : Fails (i.operator.digits ++ []) _ := .operand i.operator (Nat.pos_of_ne_zero hw)
  rw [Instruction.line, if_neg hw, hi, if_neg Bool.false_ne_true, textDigits_append,
    textDigits_code, hspace, Decoder.read_of_fails hf]
  rfl

theorem read_bytes_of_not_fits {p : Program} {i : Instruction} (hp : ∀ j ∈ p, j.fits = true)
    (hi : i.fits = false) :
    Decoder.start.read (digitsOf (bytes (p ++ [i]))) = (p.map Instruction.canonical,
      some (.truncatedOperand i.operator i.operator.operandWidth)) := by
  have hb : digitsOf (bytes (p ++ [i])) = digitsOf p.bytes ++ textDigits i.line := by
    simp [bytes, digitsOf_append, textDigits]
  rw [hb, Decoder.read_of_program (spells_bytes hp), read_line_of_not_fits hi, Decoder.behind,
    List.append_nil]

theorem read_output (p : Program) :
    (Decoder.start.read (digitsOf p.output)).1 <+: p.map Instruction.canonical ∧
      ∀ e, (Decoder.start.read (digitsOf p.output)).2 = some e → e.Truncates := by
  rcases fits_or_not p with hp | ⟨q, i, rest, rfl, hq, hi⟩
  · rw [(output_of_fits hp).1, Decoder.read_eq_none_iff.mpr (spells_bytes hp)]
    exact ⟨List.prefix_refl _, nofun⟩
  · rw [(output_append_of_not_fits hq hi rest).1, read_bytes_of_not_fits hq hi, List.map_append]
    refine ⟨List.prefix_append _ _, ?_⟩
    intro e he
    cases he
    trivial

/-- However much of the output is cut off, the rest is read as instructions of the program. -/
theorem read_take_output (p : Program) (n : Nat) :
    (Decoder.start.read (digitsOf (p.output.take n))).1 <+: p.map Instruction.canonical ∧
      ∀ e, (Decoder.start.read (digitsOf (p.output.take n))).2 = some e → e.Truncates := by
  obtain ⟨hpre, herr⟩ := Decoder.read_append (digitsOf (p.output.take n))
    (digitsOf (p.output.drop n)) .start
  obtain ⟨hout, hend⟩ := p.read_output
  rw [← digitsOf_append, List.take_append_drop] at hpre herr
  refine ⟨hpre.trans hout, ?_⟩
  intro e he
  rcases herr e he with h | h
  · exact h
  · exact hend e h

/-- Writing gets as far as an operand that does not fit, because the sink takes all that stands
ahead of it. -/
def StopsAt (p : Program) (i : Instruction) (sink : Sink) : Prop :=
  ∃ q rest, p = q ++ i :: rest ∧ (∀ j ∈ q, j.fits = true) ∧ i.fits = false ∧
    sink.room (bytes (q ++ [i])).length = (bytes (q ++ [i])).length

theorem results_ofBytes (bs : List UInt8) {q : Program} {e : Option DecodeError}
    (hr : Decoder.start.read (digitsOf bs) = (q, e)) (he : ∀ d, e = some d → d.Truncates) :
    Decoding.results { supply := Source.ofBytes bs } =
      q.map .ok ++ e.toList.map fun d => .error (.decode d) := by
  have hs : Source.supplied (Source.ofBytes bs) = DigitSupply.ofDigits (digitsOf bs) :=
    List.append_nil _
  obtain ⟨h1, h2⟩ := @Decoder.consumeAll_ofDigits (digitsOf bs) .start (hr ▸ he)
  rw [Decoding.results_source, hs, Decoding.results_items, h1, Decoder.close, h2, hr]

/-- Whatever ends the writing of a program, what the sink has got of it is read as instructions
of the program, from the first on, and then nothing is wrong or the source ends too early. If
all is written, it is read as the whole program, and if an operand does not fit, the reading
ends ahead of this operand. Nothing else ends the writing than a sink that is full. -/
theorem ofSource_encode_cut (p : Program) (sink : Sink) :
    ∃ bytes : List UInt8, (p.encode sink).2.written = sink.written ++ bytes ∧
      (∃ (q : Program) (e : Option DecodeError),
        q <+: p.map Instruction.canonical ∧ (∀ d, e = some d → d.Truncates) ∧
        ofSource (Source.ofBytes bytes) = Decoder.result (q, e) ∧
        Decoding.results { supply := Source.ofBytes bytes } =
          q.map .ok ++ e.toList.map fun d => .error (.decode d)) ∧
      ((p.encode sink).1 = .ok () →
        ofSource (Source.ofBytes bytes) = .ok (p.map Instruction.canonical)) ∧
      (∀ i, p.StopsAt i sink → (p.encode sink).1 = .error i.misfit ∧
        ofSource (Source.ofBytes bytes) =
          .error (.decode (.truncatedOperand i.operator i.operator.operandWidth))) ∧
      ∀ f, (p.encode sink).1 = .error f → (∃ i, p.StopsAt i sink) ∨
        f = sink.full ∧ ∃ limit, sink.limit = some limit ∧
          limit ≤ sink.written.size + bytes.length := by
  rw [encode_eq]
  have hle := sink.room_le p.output.length
  generalize hn : sink.room p.output.length = n at hle
  refine ⟨p.output.take n, rfl, ?_, ?_, ?_, ?_⟩
  · obtain ⟨hpre, he⟩ := p.read_take_output n
    exact ⟨_, _, hpre, he, ofSource_ofBytes _, results_ofBytes _ rfl he⟩
  · intro hok
    by_cases hfull : n = p.output.length
    · rw [if_pos hfull] at hok
      rcases p.fits_or_not with hp | ⟨q, i, rest, rfl, hq, hi⟩
      · rw [hfull, List.take_length, (output_of_fits hp).1, ofSource_bytes hp]
      · rw [(output_append_of_not_fits hq hi rest).2] at hok
        cases hok
    · rw [if_neg hfull] at hok
      cases hok
  · rintro i ⟨q, rest, rfl, hq, hi, hroom⟩
    obtain ⟨hout, hverdict⟩ := output_append_of_not_fits hq hi rest
    rw [hout, hroom] at hn
    rw [hout, ← hn, if_pos rfl, List.take_length, ofSource_ofBytes, read_bytes_of_not_fits hq hi]
    exact ⟨hverdict, rfl⟩
  · intro f hf
    by_cases hfull : n = p.output.length
    · rw [if_pos hfull] at hf
      rcases p.fits_or_not with hp | ⟨q, i, rest, rfl, hq, hi⟩
      · rw [(output_of_fits hp).2] at hf
        cases hf
      · rw [(output_append_of_not_fits hq hi rest).1] at hn hfull
        exact .inl ⟨i, q, rest, rfl, hq, hi, hn.trans hfull⟩
    · rw [if_neg hfull] at hf
      cases hf
      obtain ⟨limit, hl, hlimit⟩ := Sink.limit_of_room_ne (hn ▸ hfull)
      rw [hn] at hlimit
      rw [List.length_take, Nat.min_eq_left hle]
      exact .inr ⟨rfl, limit, hl, hlimit⟩

end Program

end NumNum
