import NumNum.Proofs.Machine.Straight
import NumNum.Proofs.Text.Lines

/-!
# Reading and writing integers

Reading an integer takes exactly one line, whether it is the numeral of a word or not, so reads
never get out of step with the lines. Written integers on lines of their own are read back
(`Machine.readInteger_exact`).
-/

namespace NumNum

/-! ## Numerals on lines -/

/-- The line on which a word stands alone. -/
def Word.line (w : UInt32) : List UInt8 :=
  Utf8.encodeText (Numeral.text w.toNat) ++ [10]

namespace Numeral

theorem newline_notMem_text (n : Nat) : 10 ∉ Utf8.encodeText (text n) := by
  intro h
  obtain ⟨c, hc, h10⟩ := List.mem_flatMap.mp h
  have hd := isDigit_of_mem_text hc
  have hlt := lt_of_isDigit hd
  have h48 : 48 ≤ c.toNat := (Char.isDigit_iff_toNat.mp hd).1
  rw [encode_of_lt hlt, List.mem_singleton] at h10
  rw [toNat_toUInt8 hlt, ← h10] at h48
  exact absurd h48 (by decide)

end Numeral

theorem Word.writtenBy_line (w : UInt32) : WrittenBy w (line w) := by
  refine ⟨[], (Numeral.text w.toNat).toList, ['\n'], ?_, nofun, ?_, Numeral.text_ne_nil _,
    fun _ => Numeral.isDigit_of_mem_text, Numeral.value_text _⟩
  · rw [List.nil_append, List.flatMap_append]
    rfl
  · intro c hc
    rw [List.mem_singleton.mp hc]
    decide

theorem Word.firstLine_line (w : UInt32) (behind : List UInt8) :
    Source.firstLine (line w ++ behind) = line w ∧
      Source.behindLine (line w ++ behind) = behind := by
  rw [line, List.append_assoc]
  exact Source.firstLine_append (Numeral.newline_notMem_text _) behind

namespace Machine

variable {m : Machine}

/-! ## One integer -/

/-- A read takes a line in any case, and gives the word that the line writes if it writes one. -/
theorem step_readInteger_cases (code : Code) (hflush : m.output.flushFails = false)
    (hin : m.input.Undisturbed) (hcode : code.instruction.operator = .inputInteger)
    (position : Nat) :
    (∃ w, Word.WrittenBy w (Source.firstLine m.input.bytes) ∧ m.step code position =
      ⟨.ok (position + 1),
        { m with stack := m.stack.exchange 0 [w], input := m.input.readLine.2 },
        [.flushed true, .asked]⟩) ∨
    ((∀ w, ¬ Word.WrittenBy w (Source.firstLine m.input.bytes)) ∧ ∃ fault, m.step code position =
      ⟨.error fault, { m with input := m.input.readLine.2 }, [.flushed true, .asked]⟩) := by
  obtain ⟨hr, -, -⟩ := hin.readLine
  rcases hread : m.input.readLine with ⟨f | line?, rest⟩
  · rw [hread] at hr
    refine .inr ⟨fun w hw => ?_, .io f, ?_⟩
    · obtain ⟨line?, hline⟩ := Word.exists_lineOf_of_writtenBy hw
      rw [hline] at hr
      cases hr
    · rw [step_readInteger hcode]
      simp [request, Sink.flush, hflush, hread]
  · rw [hread] at hr
    have hiff (w : UInt32) := lineWord_eq_ok_iff (w := w) hr.symm
    cases hw : lineWord line? with
    | ok w =>
      refine .inl ⟨w, (hiff w).mp hw, ?_⟩
      rw [step_readInteger hcode, request_ok hflush hread hw]
    | error fault =>
      refine .inr ⟨fun w h => ?_, fault, ?_⟩
      · rw [(hiff w).mpr h] at hw
        cases hw
      · rw [step_readInteger hcode]
        simp [request, Sink.flush, hflush, hread, hw]

/-! ## Lists of integers -/

/-- Writes the top on a line of its own. -/
def writeLine : Program := [⟨.outputInteger, 0⟩, ⟨.constant8Bit, 10⟩, ⟨.outputCharacter, 0⟩]

theorem passes_writeLine {w : UInt32} {below : List UInt32} (hout : m.output.Reliable)
    (hs : m.stack.values = w :: below) :
    Passes writeLine m
      { m with stack := m.stack.exchange 1 [], output := m.output.wrote (Word.line w) } := by
  let numbered : Machine := { m with
    stack := m.stack.exchange 1 []
    output := m.output.wrote (Utf8.encodeText (Numeral.text w.toNat)) }
  have hout' : numbered.output.Reliable := ⟨hout.unlimited, hout.flushes⟩
  have hnumber : Passes [⟨.outputInteger, 0⟩] m numbered :=
    .cons rfl ((step_writeInteger rfl hs).trans (emit_of_reliable hout ..)) .nil
  have hpush : Passes [⟨.constant8Bit, 10⟩] numbered
      { numbered with stack := numbered.stack.exchange 0 ['\n'.val] } := .cons rfl rfl .nil
  have hnewline : Passes [⟨.outputCharacter, 0⟩]
      { numbered with stack := numbered.stack.exchange 0 ['\n'.val] }
      { numbered with output := numbered.output.wrote (Utf8.encode '\n') } :=
    .cons rfl (step_writes_pushed hout' rfl _) .nil
  have h := (hnumber.append hpush).append hnewline
  dsimp only [numbered] at h
  rw [Sink.wrote_wrote] at h
  exact h

theorem passes_writeLines (ws : List UInt32) {below : List UInt32} (hout : m.output.Reliable)
    (hs : m.stack.values = ws ++ below) :
    Passes (List.replicate ws.length writeLine).flatten m
      { m with
        stack := m.stack.exchange ws.length []
        output := m.output.wrote (ws.flatMap Word.line) } := by
  induction ws generalizing m with
  | nil =>
    rw [List.length_nil, Stack.exchange_zero_nil, List.flatMap_nil, Sink.wrote_nil]
    exact .nil
  | cons w ws ih =>
    have hfirst := passes_writeLine hout hs
    have hrest := ih (m := { m with
      stack := m.stack.exchange 1 [], output := m.output.wrote (Word.line w) })
      ⟨hout.unlimited, hout.flushes⟩ (by rw [Stack.values_exchange, hs]; rfl)
    have h := hfirst.append hrest
    rw [Sink.wrote_wrote, Stack.exchange_taken, Nat.add_comm] at h
    exact h

theorem passes_readLines {i : Instruction} (hi : i.operator = .inputInteger) (ws : List UInt32)
    {behind : List UInt8} (hflush : m.output.flushFails = false) (hin : m.input.Undisturbed)
    (hb : m.input.bytes = ws.flatMap Word.line ++ behind) :
    ∃ rest, rest.Undisturbed ∧ rest.bytes = behind ∧ Passes (List.replicate ws.length i) m
      { m with stack := m.stack.exchange 0 ws.reverse, input := rest } := by
  induction ws generalizing m with
  | nil =>
    refine ⟨m.input, hin, hb, ?_⟩
    rw [List.reverse_nil, Stack.exchange_zero_nil]
    exact .nil
  | cons w ws ih =>
    obtain ⟨-, hrest, hquiet⟩ := hin.readLine
    rw [hb, List.flatMap_cons, List.append_assoc] at hrest
    have hw : Word.WrittenBy w (Source.firstLine m.input.bytes) := by
      rw [hb, List.flatMap_cons, List.append_assoc, (Word.firstLine_line w _).1]
      exact Word.writtenBy_line w
    rcases step_readInteger_cases { instruction := i.canonical } hflush hin hi 0 with
      ⟨w', hw', hs⟩ | ⟨hnone, -⟩
    · rw [hw'.unique hw] at hs
      obtain ⟨rest, hrest', hbehind, hpasses⟩ := ih (m := { m with
        stack := m.stack.exchange 0 [w], input := m.input.readLine.2 }) hflush hquiet
        (hrest.trans (Word.firstLine_line w _).2)
      refine ⟨rest, hrest', hbehind, .cons (by rw [hi]; rfl) hs ?_⟩
      rw [Stack.exchange_given] at hpasses
      rw [List.reverse_cons]
      exact hpasses
    · exact absurd hw (hnone w)

/-- A read takes the bytes through the first newline. It pushes a word exactly if these are the
numeral of it, with blanks around, and faults otherwise, with the stack unchanged. So the words
that are written on lines of their own are read back by as many reads. -/
theorem readInteger_exact :
    (∀ (m : Machine) (code : Code) (position : Nat), m.output.flushFails = false →
      m.input.Undisturbed → code.instruction.operator = .inputInteger →
      let r := m.step code position
      (m.input.bytes = Source.firstLine m.input.bytes ++ r.machine.input.bytes ∧
        r.machine.input.Undisturbed) ∧
      (∀ w, (r.outcome = .ok (position + 1) ∧ r.machine.stack.values = w :: m.stack.values) ↔
        Word.WrittenBy w (Source.firstLine m.input.bytes)) ∧
      ((∀ w, ¬ Word.WrittenBy w (Source.firstLine m.input.bytes)) →
        (∃ fault, r.outcome = .error fault) ∧ r.machine.stack = m.stack)) ∧
    ∀ ws : List UInt32, ∃ text : List UInt8,
      (∀ (m : Machine) (below : List UInt32), m.output.Reliable → m.stack.values = ws ++ below →
        Interpreter.Ends (List.replicate ws.length writeLine).flatten ⟨{}, m⟩ (.ok ())
          ⟨{}, { m with
            stack := { values := below }, output := m.output.wrote text }⟩) ∧
      ∀ (m : Machine) (behind : List UInt8), m.output.flushFails = false → m.input.Undisturbed →
        m.input.bytes = text ++ behind → ∃ rest, rest.Undisturbed ∧ rest.bytes = behind ∧
          Interpreter.Ends (List.replicate ws.length ⟨.inputInteger, 0⟩) ⟨{}, m⟩ (.ok ())
            ⟨{}, { m with
              stack := { values := ws.reverse ++ m.stack.values }, input := rest }⟩ := by
  refine ⟨fun m code position hflush hin hcode => ?_, fun ws => ⟨ws.flatMap Word.line, ?_, ?_⟩⟩
  · obtain ⟨-, hrest, hquiet⟩ := hin.readLine
    have hsplit := Source.firstLine_append_behindLine m.input.bytes
    rw [← hrest] at hsplit
    rcases step_readInteger_cases code hflush hin hcode position with
      ⟨w, hw, hs⟩ | ⟨hnone, fault, hs⟩
    · rw [hs]
      refine ⟨⟨hsplit.symm, hquiet⟩, fun w' => ⟨?_, fun hw' => ?_⟩,
        fun hnone => absurd hw (hnone w)⟩
      · rintro ⟨-, hv⟩
        cases hv
        exact hw
      · rw [hw'.unique hw]
        exact ⟨rfl, rfl⟩
    · rw [hs]
      refine ⟨⟨hsplit.symm, hquiet⟩, fun w => ⟨nofun, fun hw => absurd hw (hnone w)⟩,
        fun _ => ⟨⟨fault, rfl⟩, rfl⟩⟩
  · intro m below hout hs
    have h := (passes_writeLines ws hout hs).ends hout.flushes
    have hstack : m.stack.exchange ws.length [] = { values := below } := by
      refine Stack.ext ?_
      rw [Stack.values_exchange, hs, List.drop_left]
      rfl
    rwa [hstack] at h
  · intro m behind hflush hin hb
    obtain ⟨rest, hquiet, hbehind, h⟩ :=
      passes_readLines (i := ⟨.inputInteger, 0⟩) rfl ws hflush hin hb
    have hstack : m.stack.exchange 0 ws.reverse = { values := ws.reverse ++ m.stack.values } :=
      Stack.ext rfl
    rw [hstack] at h
    exact ⟨rest, hquiet, hbehind, h.ends hflush⟩

/-- A numeral with leading zeros is read up to the end of its line, and the sign on the next line
is refused at the cost of that line only. -/
theorem readInteger_exact_sign :
    let m : Machine := { input := [.chunk (Utf8.encodeText " 0042\r\n+5\n7")], output := {} }
    let code : Code := ⟨⟨.inputInteger, 0⟩, 0⟩
    let m' := (m.step code 0).machine
    m.output.flushFails = false ∧ m.input.Undisturbed ∧ m'.stack.values = [42] ∧
      m'.input.bytes = Utf8.encodeText "+5\n7" ∧
      (∃ fault, (m'.step code 1).outcome = .error fault) ∧
      (m'.step code 1).machine.stack = m'.stack ∧
      (m'.step code 1).machine.input.bytes = Utf8.encodeText "7" := by
  intro m code m'
  have hflush : m.output.flushFails = false := rfl
  have hin : m.input.Undisturbed := .ofBytes _
  have hline : Source.firstLine m.input.bytes = Utf8.encodeText " 0042\r\n" := by decide
  have hbytes : m.input.bytes = Utf8.encodeText " 0042\r\n" ++ Utf8.encodeText "+5\n7" := by decide
  obtain ⟨⟨hsplit, hin'⟩, hpush, -⟩ := readInteger_exact.1 m code 0 hflush hin rfl
  have hw : Word.WrittenBy 42 (Source.firstLine m.input.bytes) := by
    rw [hline, Word.writtenBy_encodeText_iff]
    decide
  rw [hline, hbytes] at hsplit
  have hrest : m'.input.bytes = Utf8.encodeText "+5\n7" := (List.append_cancel_left hsplit).symm
  have hflush' : m'.output.flushFails = false := (flushFails_step ..).trans hflush
  obtain ⟨⟨hsplit', -⟩, -, hfault⟩ := readInteger_exact.1 m' code 1 hflush' hin' rfl
  have hline' : Source.firstLine m'.input.bytes = Utf8.encodeText "+5\n" := by
    rw [hrest]
    decide
  have hbytes' : m'.input.bytes = Utf8.encodeText "+5\n" ++ Utf8.encodeText "7" := by
    rw [hrest]
    decide
  have hsign : Numeral.word? (Text.trim "+5\n".toList) = none := by decide
  obtain ⟨hstop, hstack⟩ := hfault fun w hw' => by
    rw [hline', Word.writtenBy_encodeText_iff, hsign] at hw'
    cases hw'
  rw [hline', hbytes'] at hsplit'
  exact ⟨hflush, hin, ((hpush 42).mpr hw).2, hrest, hstop, hstack,
    (List.append_cancel_left hsplit').symm⟩

end Machine

end NumNum
