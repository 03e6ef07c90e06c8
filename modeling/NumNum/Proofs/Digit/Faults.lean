import NumNum.Proofs.Digit.Results

/-!
# Failures that reach the decoding

A decoding as a whole ends with the first failure of its source that is neither retried nor
taken for malformed text, unless the digits ahead of it are wrong already. No other failure
reaches it, and none of these is lost (`Program.ofSource_eq_io_iff`).
-/

namespace NumNum

/-- A failure that reaches the reader of digits: it is not retried as an interruption, and it
does not pass for malformed text. -/
def IoFault.Surfaces (f : IoFault) : Prop :=
  f.kind ≠ .interrupted ∧ f.kind ≠ .invalidData

/-! ## Digits ahead of a failure -/

namespace Decoder

/-- What is wrong with digits, but for their end. -/
def mistake? : List (Fin 10) → Decoder → Option DecodeError
  | [], _ => none
  | d :: ds, decoder =>
    match decoder.feed d with
    | (.error e, _) => some e
    | (.ok _, decoder) => mistake? ds decoder

theorem unknownOperator_of_mistake {ds : List (Fin 10)} {decoder : Decoder} {e : DecodeError}
    (h : decoder.mistake? ds = some e) : ∃ code, e = .unknownOperator code := by
  induction ds generalizing decoder with
  | nil => cases h
  | cons d ds ih =>
    rw [mistake?] at h
    rcases hf : decoder.feed d with ⟨e' | i, decoder'⟩
    · rw [hf] at h
      cases h
      exact unknownOperator_of_feed hf
    · rw [hf] at h
      exact ih h

/-- Digits that nothing is wrong with but their end are no failure before the end. -/
theorem read_eq_unknownOperator_iff {ds : List (Fin 10)} {decoder : Decoder} {code : Nat} :
    (decoder.read ds).2 = some (.unknownOperator code) ↔
      decoder.mistake? ds = some (.unknownOperator code) := by
  induction ds generalizing decoder with
  | nil =>
    constructor
    · exact fun h => absurd (truncates h) id
    · exact nofun
  | cons d ds ih =>
    rw [read, mistake?]
    rcases decoder.feed d with ⟨e | _ | i, decoder'⟩
    · exact Iff.rfl
    · exact ih
    · exact ih

end Decoder

/-- What decoding a failure behind digits comes to. -/
def Decoder.stopAt (f : IoFault) : Option DecodeError → Error
  | none => .io f
  | some e => .decode e

theorem Decoding.programFrom_failure (ds : List (Fin 10)) (f : IoFault)
    (items : List (Except IoFault Nat)) (decoder : Decoder) (got : List Instruction) :
    programFrom got ⟨decoder, DigitSupply.ofDigits ds ++ .error f :: items⟩ =
      .error (Decoder.stopAt f (decoder.mistake? ds)) := by
  induction ds generalizing decoder got with
  | nil => exact programFrom_of_error (next?_of_fault rfl)
  | cons d ds ih =>
    have hn : next? ⟨decoder, DigitSupply.ofDigits (d :: ds) ++ .error f :: items⟩ = _ :=
      next?_of_digit rfl
    rw [Decoder.mistake?]
    rcases hf : decoder.feed d.val with ⟨e | _ | i, decoder'⟩ <;> rw [hf] at hn
    · exact programFrom_of_error hn
    · exact (programFrom_congr hn).trans (ih decoder' got)
    · rw [programFrom_of_ok hn]
      exact ih decoder' (i :: got)

/-! ## Sources -/

namespace Source

/-- No failure of the source reaches the reader of digits. -/
def Quiet (s : Source) : Prop :=
  ∀ f, .failure f ∈ s → ¬ f.Surfaces

theorem Quiet.nil : Quiet [] := fun _ hf => nomatch hf

theorem Quiet.of_cons {d : Delivery} {s : Source} (h : Quiet (d :: s)) : s.Quiet :=
  fun f hf => h f (List.mem_cons_of_mem _ hf)

theorem Quiet.cons {d : Delivery} {s : Source} (h : s.Quiet)
    (hd : ∀ f, d = .failure f → ¬ f.Surfaces) : Quiet (d :: s) := by
  intro f hf
  rcases List.mem_cons.mp hf with he | hf
  · exact hd f he.symm
  · exact h f hf

theorem supplied_failure {f : IoFault} (h : ¬ f.Surfaces) : (Delivery.failure f).supplied = [] := by
  rw [Delivery.supplied, reported]
  by_cases hi : f.kind = .interrupted
  · rw [if_pos hi]
  · by_cases hd : f.kind = .invalidData
    · rw [if_neg hi, if_pos hd]
    · exact absurd ⟨hi, hd⟩ h

theorem supplied_of_surfaces {f : IoFault} (h : f.Surfaces) :
    (Delivery.failure f).supplied = [.error f] := by
  rw [Delivery.supplied, reported, if_neg h.1, if_neg h.2]

theorem Quiet.supplied {s : Source} (h : s.Quiet) :
    s.supplied = DigitSupply.ofDigits (digitsOf s.bytes) := by
  induction s with
  | nil => rfl
  | cons d s ih =>
    rw [supplied_cons, ih h.of_cons]
    cases d with
    | chunk bs =>
      rw [Delivery.supplied, ← ofDigits_append, ← digitsOf_append]
      rfl
    | failure f =>
      rw [supplied_failure (h f List.mem_cons_self)]
      rfl

/-- A source is quiet, or it has a first failure that reaches the reader of digits. -/
theorem quiet_or_surfaces (s : Source) :
    s.Quiet ∨ ∃ (before : Source) (f : IoFault) (after : Source),
      s = before ++ .failure f :: after ∧ before.Quiet ∧ f.Surfaces := by
  induction s with
  | nil => exact .inl .nil
  | cons d s ih =>
    by_cases hd : ∃ f, d = .failure f ∧ f.Surfaces
    · obtain ⟨f, rfl, hf⟩ := hd
      exact .inr ⟨[], f, s, rfl, .nil, hf⟩
    · have hquiet : ∀ f, d = .failure f → ¬ f.Surfaces := fun f he hf => hd ⟨f, he, hf⟩
      rcases ih with hs | ⟨before, f, after, rfl, hb, hf⟩
      · exact .inl (hs.cons hquiet)
      · exact .inr ⟨d :: before, f, after, rfl, hb.cons hquiet, hf⟩

theorem Quiet.ofSource {s : Source} (h : s.Quiet) :
    Program.ofSource s = Program.ofSource (.ofBytes s.bytes) := by
  rw [Program.ofSource_ofBytes, Program.ofSource, Decoding.program_items, items_eq, h.supplied,
    Decoding.program_ofDigits]

end Source

namespace Program

open Source (Quiet)

theorem ofSource_failure {before : Source} (hb : before.Quiet) {f : IoFault} (hf : f.Surfaces)
    (after : Source) :
    ofSource (before ++ .failure f :: after) =
      .error (Decoder.stopAt f (Decoder.start.mistake? (digitsOf before.bytes))) := by
  have hs : Source.supplied (before ++ .failure f :: after) =
      DigitSupply.ofDigits (digitsOf before.bytes) ++ .error f :: after.supplied := by
    rw [← hb.supplied]
    simp [Source.supplied, Source.supplied_of_surfaces hf]
  rw [ofSource, Decoding.program_items, Source.items_eq, hs]
  exact Decoding.programFrom_failure ..

theorem ofSource_ne_io {s : Source} (h : s.Quiet) (f : IoFault) : ofSource s ≠ .error (.io f) := by
  rw [h.ofSource, ofSource_ofBytes]
  rcases Decoder.start.read (digitsOf s.bytes) with ⟨p, _ | e⟩
  · exact nofun
  · exact nofun

theorem result_eq_unknownOperator_iff {r : Program × Option DecodeError} {code : Nat} :
    Decoder.result r = .error (.decode (.unknownOperator code)) ↔
      r.2 = some (.unknownOperator code) := by
  obtain ⟨p, _ | e⟩ := r <;> simp [Decoder.result]

/-- The bytes ahead of a failure are wrong if they are on their own, but for their end. -/
theorem mistake_eq_none_iff {bs : List UInt8} :
    Decoder.start.mistake? (digitsOf bs) = none ↔
      ∀ code, ofSource (.ofBytes bs) ≠ .error (.decode (.unknownOperator code)) := by
  simp only [ofSource_ofBytes, ne_eq, result_eq_unknownOperator_iff,
    Decoder.read_eq_unknownOperator_iff]
  constructor
  · intro h code
    rw [h]
    exact nofun
  · intro h
    cases hm : Decoder.start.mistake? (digitsOf bs) with
    | none => rfl
    | some e =>
      obtain ⟨code, rfl⟩ := Decoder.unknownOperator_of_mistake hm
      exact absurd hm (h code)

/-- A source is decoded to a failure exactly if it is the first one that neither is an
interruption nor passes for malformed text, and the digits ahead of it have no unknown code.
So if a source is decoded to a program, no such failure is in it. -/
theorem ofSource_eq_io_iff (s : Source) :
    (∀ f, ofSource s = .error (.io f) ↔
      ∃ before after : Source, s = before ++ .failure f :: after ∧ f.Surfaces ∧ before.Quiet ∧
        ∀ code, ofSource (.ofBytes before.bytes) ≠ .error (.decode (.unknownOperator code))) ∧
    ((∃ p, ofSource s = .ok p) → s.Quiet) := by
  constructor
  · intro f
    constructor
    · intro h
      rcases s.quiet_or_surfaces with hs | ⟨before, g, after, rfl, hb, hg⟩
      · exact absurd h (ofSource_ne_io hs f)
      · rw [ofSource_failure hb hg] at h
        cases hm : Decoder.start.mistake? (digitsOf before.bytes) with
        | some e =>
          rw [hm] at h
          cases h
        | none =>
          rw [hm] at h
          cases h
          exact ⟨before, after, rfl, hg, hb, mistake_eq_none_iff.mp hm⟩
    · rintro ⟨before, after, rfl, hf, hb, hcode⟩
      rw [ofSource_failure hb hf, mistake_eq_none_iff.mpr hcode]
      rfl
  · rintro ⟨p, h⟩
    rcases s.quiet_or_surfaces with hs | ⟨before, g, after, rfl, hb, hg⟩
    · exact hs
    · rw [ofSource_failure hb hg] at h
      cases h

/-- A broken pipe behind malformed text, and the same source without it. -/
theorem ofSource_eq_io_iff_brokenPipe :
    let f : IoFault := ⟨.brokenPipe, "gone"⟩
    let before : Source := [.chunk [0x31], .failure ⟨.invalidData, "malformed"⟩]
    let whole : Source := before ++ [.chunk [0x34]]
    f.Surfaces ∧ ofSource (before ++ .failure f :: [.chunk [0x34]]) = .error (.io f) ∧
      ofSource whole = .ok [⟨.copy, 0⟩, ⟨.outputCharacter, 0⟩] ∧ whole.Quiet := by
  intro f before whole
  have hf : f.Surfaces := ⟨nofun, nofun⟩
  have hmalformed : ∀ g, Delivery.failure ⟨.invalidData, "malformed"⟩ = .failure g →
      ¬ g.Surfaces := by
    rintro g ⟨⟩ hs
    exact hs.2 rfl
  have hbefore : before.Quiet := (Quiet.nil.cons hmalformed).cons nofun
  have hcode := mistake_eq_none_iff.mp (show Decoder.start.mistake? (digitsOf before.bytes) = none
    from rfl)
  have hp : ofSource whole = .ok [⟨.copy, 0⟩, ⟨.outputCharacter, 0⟩] := by
    with_unfolding_all rfl
  exact ⟨hf, ((ofSource_eq_io_iff _).1 f).mpr ⟨before, _, rfl, hf, hbefore, hcode⟩, hp,
    (ofSource_eq_io_iff whole).2 ⟨_, hp⟩⟩

/-- A failure that passes for malformed text is skipped like it, and the program behind it is
decoded to its end. -/
theorem ofSource_skips_invalidData :
    let f : IoFault := ⟨.invalidData, "injected"⟩
    let before : Source := [.chunk [0x31]]
    f.kind ≠ .interrupted ∧
      (∀ code, ofSource (.ofBytes before.bytes) ≠ .error (.decode (.unknownOperator code))) ∧
      ofSource (before ++ [.failure f, .chunk [0x34]]) =
        .ok [⟨.copy, 0⟩, ⟨.outputCharacter, 0⟩] := by
  intro f before
  refine ⟨nofun, mistake_eq_none_iff.mp rfl, ?_⟩
  with_unfolding_all rfl

end Program

end NumNum
