import NumNum.Proofs.Channel.Attempts
import NumNum.Proofs.Lua.Emission
import NumNum.Proofs.Machine.Sequence

/-!
# Straight-line programs

A program without blocks runs as its steps do, one behind the other. `Machine.Passes` collects
steps that succeed, and a program that passes ends well (`Machine.Passes.ends`).
-/

namespace NumNum

/-! ## Words put on a stack and taken off -/

namespace Stack

theorem exchange_zero_nil (s : Stack) : s.exchange 0 [] = s :=
  ext rfl

theorem exchange_undone (x : UInt32) (s : Stack) : (s.exchange 0 [x]).exchange 1 [] = s :=
  ext rfl

theorem exchange_given (given given' : List UInt32) (s : Stack) :
    (s.exchange 0 given).exchange 0 given' = s.exchange 0 (given' ++ given) := by
  refine ext ?_
  rw [values_exchange, values_exchange, values_exchange, List.drop_zero, List.append_assoc]

theorem exchange_taken (taken taken' : Nat) (s : Stack) :
    (s.exchange taken []).exchange taken' [] = s.exchange (taken + taken') [] := by
  refine ext ?_
  rw [values_exchange, values_exchange, values_exchange, List.nil_append, List.nil_append,
    List.drop_drop]
  rfl

end Stack

/-! ## Steps in a row -/

namespace Machine

/-- Every instruction plays no part in the structure and succeeds on the machine that the ones
ahead of it leave. -/
inductive Passes : Program → Machine → Machine → Prop where
  | nil {m : Machine} : Passes [] m m
  | cons {i : Instruction} {p : Program} {m m' m'' : Machine} {next : Nat}
      {traffic : List Traffic} (hi : i.operator.role = .plain)
      (hs : m.step { instruction := i.canonical } 0 = ⟨.ok next, m', traffic⟩)
      (rest : Passes p m' m'') : Passes (i :: p) m m''

variable {p q : Program} {m m' m'' : Machine}

theorem Passes.append (h : Passes p m m') (h' : Passes q m' m'') : Passes (p ++ q) m m'' := by
  induction h with
  | nil => exact h'
  | cons hi hs _ ih => exact .cons hi hs (ih h')

/-- The tree of such a program has no blocks, and comes to its end without any rounds. -/
theorem Passes.exists_block (h : Passes p m m') :
    ∃ b : Block false, b.program = p ∧ ∀ fuel, b.eval fuel m = .through m' := by
  induction h with
  | nil => exact ⟨.done, rfl, fun _ => rfl⟩
  | @cons i p m m' m'' next traffic hi hs _ ih =>
    obtain ⟨b, hb, he⟩ := ih
    refine ⟨.plain ⟨i, hi⟩ b, congrArg (i :: ·) hb, fun fuel => ?_⟩
    rw [Block.eval, hs]
    exact he fuel

theorem Passes.ends (h : Passes p m m') (hflush : m.output.flushFails = false) :
    Interpreter.Ends p ⟨{}, m⟩ (.ok ()) ⟨{}, m'⟩ := by
  obtain ⟨b, rfl, he⟩ := h.exists_block
  exact (Interpreter.ends_program_iff hflush b).mpr
    ⟨.ok (), m', ⟨0, congrArg Exit.result? (he 0)⟩, rfl, rfl⟩

end Machine

/-! ## Steps at the channels -/

theorem Word.toChar?_val (c : Char) : toChar? c.val = some c :=
  dif_pos c.valid

namespace Machine

section
variable {m : Machine}
variable {code : Code} {position : Nat} {x : UInt32} {below : List UInt32}

theorem step_readCharacter (h : code.instruction.operator = .inputCharacter) :
    m.step code position = m.request Source.readChar characterWord (position + 1) := by
  rw [step, h]
  rfl

theorem step_readInteger (h : code.instruction.operator = .inputInteger) :
    m.step code position = m.request Source.readLine lineWord (position + 1) := by
  rw [step, h]
  rfl

theorem request_ok {α : Type} {read : Source → Except IoFault α × Source}
    {meaning : α → Except MachineFault UInt32} {a : α} {rest : Source}
    (hflush : m.output.flushFails = false) (hr : read m.input = (.ok a, rest))
    (hm : meaning a = .ok x) (next : Nat) :
    m.request read meaning next =
      ⟨.ok next, { m with stack := m.stack.exchange 0 [x], input := rest },
        [.flushed true, .asked]⟩ := by
  simp [request, Sink.flush, hflush, hr, hm]

theorem emit_of_reliable {stack : Stack} {memory : Variables} {input : Source} {output : Sink}
    (h : output.Reliable) (bytes : List UInt8) (next : Nat) :
    emit bytes next ⟨stack, memory, input, output⟩ =
      ⟨.ok next, ⟨stack, memory, input, output.wrote bytes⟩, [.wrote]⟩ := by
  rw [emit, Sink.write_of_limit_none h.unlimited]
  rfl

theorem step_writeCharacter (h : code.instruction.operator = .outputCharacter)
    (hs : m.stack.values = x :: below) :
    m.step code position =
      match Word.toChar? x with
      | some c => emit (Utf8.encode c) (position + 1) { m with stack := m.stack.exchange 1 [] }
      | none => stop { m with stack := m.stack.exchange 1 [] } (.invalidCharacter x) := by
  rw [step, h, hs]
  rfl

/-- A character that was put on the stack is written, and the stack is as it was. -/
theorem step_writes_pushed {c : Char} (hout : m.output.Reliable)
    (h : code.instruction.operator = .outputCharacter) (rest : Source) :
    step code position { m with stack := m.stack.exchange 0 [c.val], input := rest } =
      ⟨.ok (position + 1),
        { m with input := rest, output := m.output.wrote (Utf8.encode c) }, [.wrote]⟩ := by
  rw [step_writeCharacter h rfl, Word.toChar?_val]
  dsimp only
  rw [emit_of_reliable hout, Stack.exchange_undone]

theorem step_writeInteger (h : code.instruction.operator = .outputInteger)
    (hs : m.stack.values = x :: below) :
    m.step code position = emit (Utf8.encodeText (Numeral.text x.toNat)) (position + 1)
      { m with stack := m.stack.exchange 1 [] } := by
  rw [step, h, hs]
  rfl

end

end Machine

end NumNum
