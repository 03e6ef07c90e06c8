import NumNum.Proofs.Machine.Straight
import NumNum.Proofs.Text.Characters

/-!
# Echoing characters

A character that was read is written back as the bytes that were read, so a text comes out as it
went in, and the end of the input is told from every character (`Machine.echo`).
-/

namespace NumNum

theorem Word.toChar?_endOfInput : toChar? endOfInput = none := by
  decide

theorem Word.val_ne_endOfInput (c : Char) : c.val ≠ endOfInput := by
  intro h
  have hc := toChar?_val c
  rw [h, toChar?_endOfInput] at hc
  cases hc

namespace Machine

variable {m : Machine}

/-! ## One character -/

section
variable {code : Code} {position : Nat}

/-- What a read does that succeeds before the end of the input. -/
theorem exists_char_of_step {m' : Machine} {next : Nat} {traffic : List Traffic}
    (hin : m.input.Undisturbed) (hne : m.input.bytes ≠ [])
    (hcode : code.instruction.operator = .inputCharacter)
    (hs : m.step code position = ⟨.ok next, m', traffic⟩) :
    ∃ c rest, m.input.bytes = Utf8.encode c ++ rest.bytes ∧
      m' = { m with stack := m.stack.exchange 0 [c.val], input := rest } := by
  rw [step_readCharacter hcode, request] at hs
  obtain ⟨hr, hrest, -⟩ := hin.readChar
  cases hf : m.output.flush with
  | error f =>
    rw [hf] at hs
    cases hs
  | ok _ =>
    rw [hf] at hs
    rcases hread : m.input.readChar with ⟨f | c?, rest⟩
    · rw [hread] at hs
      cases hs
    · rw [hread] at hs hr hrest
      cases c? with
      | none => exact absurd (Utf8.read_eq_none_iff.mp hr.symm) hne
      | some c =>
        cases hs
        refine ⟨c, rest, ?_, rfl⟩
        rw [show rest.bytes = _ from hrest]
        exact Utf8.eq_append_of_read hr.symm

theorem step_rejects_endOfInput {below : List UInt32}
    (hcode : code.instruction.operator = .outputCharacter)
    (hs : m.stack.values = Word.endOfInput :: below) :
    (m.step code position).outcome = .error (.invalidCharacter Word.endOfInput) := by
  rw [step_writeCharacter hcode hs, Word.toChar?_endOfInput]
  rfl

end

/-! ## Texts -/

section
variable {i o : Instruction} (hi : i.operator = .inputCharacter)
include hi

theorem passes_read {r : Option Char} {w : UInt32} {rest : Source}
    (hflush : m.output.flushFails = false) (hr : m.input.readChar = (.ok r, rest))
    (hw : characterWord r = .ok w) :
    Passes [i] m { m with stack := m.stack.exchange 0 [w], input := rest } :=
  .cons (by rw [hi]; rfl) ((step_readCharacter hi).trans (request_ok hflush hr hw _)) .nil

theorem passes_echo (ho : o.operator = .outputCharacter) (cs : List Char) {behind : List UInt8}
    (hout : m.output.Reliable) (hin : m.input.Undisturbed)
    (hb : m.input.bytes = cs.flatMap Utf8.encode ++ behind) :
    ∃ rest, rest.Undisturbed ∧ rest.bytes = behind ∧
      Passes (List.replicate cs.length [i, o]).flatten m
        { m with input := rest, output := m.output.wrote (cs.flatMap Utf8.encode) } := by
  induction cs generalizing m with
  | nil =>
    refine ⟨m.input, hin, hb, ?_⟩
    rw [List.flatMap_nil, Sink.wrote_nil]
    exact .nil
  | cons c cs ih =>
    obtain ⟨hr, hrest, hquiet⟩ := hin.readChar
    rw [hb, List.flatMap_cons, List.append_assoc, Utf8.read_encode_append] at hr hrest
    let echoed : Machine :=
      { m with input := m.input.readChar.2, output := m.output.wrote (Utf8.encode c) }
    have hread := passes_read hi hout.flushes (Prod.ext hr rfl)
      (show characterWord (some c) = _ from rfl)
    have hwrite : Passes [o] _ echoed :=
      .cons (by rw [ho]; rfl) (step_writes_pushed hout ho _) .nil
    obtain ⟨rest, hrest', hbehind, hpasses⟩ :=
      ih (m := echoed) ⟨hout.unlimited, hout.flushes⟩ hquiet hrest
    refine ⟨rest, hrest', hbehind, ?_⟩
    have h := (hread.append hwrite).append hpasses
    dsimp only [echoed] at h
    rw [Sink.wrote_wrote] at h
    exact h

theorem passes_atEnd (k : Nat) (hflush : m.output.flushFails = false) (hin : m.input.Undisturbed)
    (hb : m.input.bytes = []) :
    ∃ rest, rest.bytes = [] ∧ Passes (List.replicate k i) m
      { m with stack := m.stack.exchange 0 (List.replicate k Word.endOfInput), input := rest } := by
  induction k generalizing m with
  | zero =>
    refine ⟨m.input, hb, ?_⟩
    rw [List.replicate_zero, List.replicate_zero, Stack.exchange_zero_nil]
    exact .nil
  | succ k ih =>
    obtain ⟨hr, hrest, hquiet⟩ := hin.readChar
    rw [hb] at hr hrest
    have hread := passes_read hi hflush (Prod.ext hr rfl) (show characterWord none = _ from rfl)
    obtain ⟨rest, hempty, hpasses⟩ := ih (m := { m with
      stack := m.stack.exchange 0 [Word.endOfInput]
      input := m.input.readChar.2 }) hflush hquiet hrest
    refine ⟨rest, hempty, ?_⟩
    have h := hread.append hpasses
    rw [Stack.exchange_given, ← List.replicate_succ'] at h
    exact h

end

/-- A character that was read and is written gives the bytes that the read took, and leaves the
stack as it was. So a text is echoed byte by byte, behind its end every read gives the same word,
and this word is neither read as a character nor ever written. -/
theorem echo (hout : m.output.Reliable) (hin : m.input.Undisturbed) {i o : Instruction}
    (hi : i.operator = .inputCharacter) (ho : o.operator = .outputCharacter) :
    (m.input.bytes ≠ [] → ∀ jump position next m' traffic,
      m.step ⟨i, jump⟩ position = ⟨.ok next, m', traffic⟩ →
      ∃ w bytes, m'.stack.values = w :: m.stack.values ∧ w ≠ Word.endOfInput ∧
        m.input.bytes = bytes ++ m'.input.bytes ∧
        ∀ jump' position', m'.step ⟨o, jump'⟩ position' =
          ⟨.ok (position' + 1), { m with input := m'.input, output := m.output.wrote bytes },
            [.wrote]⟩) ∧
    (∀ (text : String) (k : Nat), m.input.bytes = Utf8.encodeText text →
      ∃ rest, rest.bytes = [] ∧
        Interpreter.Ends ((List.replicate text.length [i, o]).flatten ++ List.replicate k i)
          ⟨{}, m⟩ (.ok ())
          ⟨{}, { m with
            stack := m.stack.exchange 0 (List.replicate k Word.endOfInput)
            input := rest
            output := m.output.wrote (Utf8.encodeText text) }⟩) ∧
    ∀ (m' : Machine) below jump position, m'.stack.values = Word.endOfInput :: below →
      (m'.step ⟨o, jump⟩ position).outcome = .error (.invalidCharacter Word.endOfInput) := by
  refine ⟨?_, ?_, ?_⟩
  · intro hne jump position next m' traffic hs
    obtain ⟨c, rest, hb, rfl⟩ := exists_char_of_step hin hne hi hs
    exact ⟨c.val, Utf8.encode c, rfl, Word.val_ne_endOfInput c, hb,
      fun _ _ => step_writes_pushed hout ho rest⟩
  · intro text k hb
    rw [← List.append_nil (Utf8.encodeText text)] at hb
    obtain ⟨rest, hquiet, hempty, hecho⟩ := passes_echo hi ho text.toList hout hin hb
    let echoed : Machine :=
      { m with input := rest, output := m.output.wrote (Utf8.encodeText text) }
    obtain ⟨rest', hempty', hend⟩ := passes_atEnd hi (m := echoed) k hout.flushes hquiet hempty
    rw [String.length_toList] at hecho
    exact ⟨rest', hempty', (hecho.append hend).ends hout.flushes⟩
  · intro m' below jump position hs
    exact step_rejects_endOfInput ho hs

/-- Two characters of one and three bytes, whose bytes come in two chunks, are echoed, and the
second of two reads behind them finds the end again. -/
theorem echo_two_characters :
    let i : Instruction := ⟨.inputCharacter, 0⟩
    let o : Instruction := ⟨.outputCharacter, 0⟩
    let m : Machine :=
      { stack := { values := [7] }, input := [.chunk [0x34, 0xe9], .chunk [0xa5, 0x82]]
        output := {} }
    m.output.Reliable ∧ m.input.Undisturbed ∧ m.input.bytes = Utf8.encodeText "4饂" ∧
      (∃ next m' traffic, m.step ⟨i, 0⟩ 0 = ⟨.ok next, m', traffic⟩ ∧
        (m'.step ⟨o, 0⟩ 1).machine.stack = m.stack ∧
        (m'.step ⟨o, 0⟩ 1).machine.output.written = #[0x34]) ∧
      ∃ rest, rest.bytes = [] ∧ Interpreter.Ends [i, o, i, o, i, i] ⟨{}, m⟩ (.ok ())
        ⟨{}, { m with
          stack := { values := [Word.endOfInput, Word.endOfInput, 7] }
          input := rest
          output := { written := #[0x34, 0xe9, 0xa5, 0x82] } }⟩ := by
  intro i o m
  have hout : m.output.Reliable := ⟨rfl, rfl⟩
  have hin : m.input.Undisturbed := by
    intro f hf
    simp [m] at hf
  have hb : m.input.bytes = Utf8.encodeText "4饂" := by decide
  have hi : i.operator = .inputCharacter := rfl
  have ho : o.operator = .outputCharacter := rfl
  obtain ⟨hone, htext, -⟩ := echo hout hin hi ho
  refine ⟨hout, hin, hb, ?_, htext "4饂" 2 hb⟩
  obtain ⟨w, bytes, -, -, hbytes, hstep⟩ := hone (by rw [hb]; decide) 0 0 1 _ _ rfl
  exact ⟨1, _, _, rfl, by rw [hstep 0 1], rfl⟩

end Machine

end NumNum
