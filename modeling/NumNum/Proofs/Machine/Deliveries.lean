import NumNum.Interpreter
import NumNum.Proofs.Text.Deliveries

/-!
# Machines and the delivery of their input

Two machines that differ only in how the bytes of their inputs are delivered stay so in every
step (`Machine.Alike.step`), and so does whatever is made of steps: runs, and calls to the
interpreter. What comes out is the same on both (`Interpreter.deliveries_unnoticed`).
-/

namespace NumNum

/-- The machines are the same but for the delivery of their inputs. -/
structure Machine.Alike (m n : Machine) : Prop where
  stack : m.stack = n.stack
  memory : m.memory = n.memory
  output : m.output = n.output
  input : m.input.Alike n.input

structure Step.Alike (s t : Step) : Prop where
  outcome : s.outcome = t.outcome
  machine : s.machine.Alike t.machine
  traffic : s.traffic = t.traffic

structure Run.Alike (r s : Run) : Prop where
  ending : r.ending = s.ending
  machine : r.machine.Alike s.machine
  log : r.log = s.log
  traffic : r.traffic = s.traffic

structure Interpreter.Alike (s t : Interpreter) : Prop where
  assembler : s.assembler = t.assembler
  machine : s.machine.Alike t.machine

/-- The calls ended in the same way, with the same record, and left interpreters that are alike. -/
structure Interpreter.AlikeHandled (h k : Handled Interpreter) : Prop where
  outcome : h.outcome = k.outcome
  state : h.state.Alike k.state
  log : h.log = k.log

/-! ## One step -/

theorem Machine.alike_of_input {s t : Source} (h : s.Alike t) (stack : Stack) (memory : Variables)
    (output : Sink) : Alike ⟨stack, memory, s, output⟩ ⟨stack, memory, t, output⟩ :=
  ⟨rfl, rfl, rfl, h⟩

theorem Step.alike_of_input {s t : Source} (h : s.Alike t) (outcome : Except MachineFault Nat)
    (stack : Stack) (memory : Variables) (output : Sink) (traffic : List Traffic) :
    Step.Alike ⟨outcome, ⟨stack, memory, s, output⟩, traffic⟩
      ⟨outcome, ⟨stack, memory, t, output⟩, traffic⟩ :=
  ⟨rfl, Machine.alike_of_input h .., rfl⟩

namespace Machine.Alike

variable {m n : Machine}

theorem emit (h : m.Alike n) (bytes : List UInt8) (next : Nat) :
    (emit bytes next m).Alike (emit bytes next n) := by
  obtain ⟨stack, memory, s, output⟩ := m
  obtain ⟨_, _, t, _⟩ := n
  obtain ⟨rfl, rfl, rfl, hi⟩ := h
  rw [Machine.emit, Machine.emit]
  rcases output.write bytes with ⟨_ | _, output⟩
  · exact Step.alike_of_input hi ..
  · exact Step.alike_of_input hi ..

theorem request {α : Type} {read : Source → Except IoFault α × Source}
    (hread : ∀ {s t : Source}, s.Alike t → Source.AlikeReads (read s) (read t)) (h : m.Alike n)
    (meaning : α → Except MachineFault UInt32) (next : Nat) :
    (m.request read meaning next).Alike (n.request read meaning next) := by
  obtain ⟨stack, memory, s, output⟩ := m
  obtain ⟨_, _, t, _⟩ := n
  obtain ⟨rfl, rfl, rfl, hi⟩ := h
  unfold Machine.request
  dsimp only
  cases output.flush with
  | error f => exact Step.alike_of_input hi ..
  | ok _ =>
    obtain ⟨hr, hrest⟩ := hread hi
    rcases hs : read s with ⟨r, s'⟩
    rcases ht : read t with ⟨r', t'⟩
    rw [hs, ht] at hr hrest
    cases hr
    cases r with
    | error f => exact Step.alike_of_input hrest ..
    | ok a =>
      dsimp only
      cases meaning a with
      | error fault => exact Step.alike_of_input hrest ..
      | ok w => exact Step.alike_of_input hrest ..

/-- Machines that are alike take steps that are alike. -/
theorem step (h : m.Alike n) (code : Code) (position : Nat) :
    (m.step code position).Alike (n.step code position) := by
  obtain ⟨⟨values, _, rfl⟩, memory, s, output⟩ := m
  obtain ⟨_, _, t, _⟩ := n
  obtain ⟨rfl, rfl, rfl, hi⟩ := h
  unfold Machine.step
  dsimp only
  generalize code.instruction.operator.action = action
  -- only the two reads look at the input, all other rows hand it on
  cases action with
  | readCharacter => exact request Source.Alike.readChar (alike_of_input hi ..) ..
  | readInteger => exact request Source.Alike.readLine (alike_of_input hi ..) ..
  | load =>
    dsimp only
    cases memory.get? code.instruction.value with
    | none => exact Step.alike_of_input hi ..
    | some w => exact Step.alike_of_input hi ..
  | writeInteger =>
    rcases values with _ | ⟨x, values⟩
    · exact Step.alike_of_input hi ..
    · exact emit (alike_of_input hi ..) ..
  | writeCharacter =>
    rcases values with _ | ⟨x, values⟩
    · exact Step.alike_of_input hi ..
    · dsimp only
      cases Word.toChar? x with
      | none => exact Step.alike_of_input hi ..
      | some c => exact emit (alike_of_input hi ..) ..
  | division f =>
    rcases values with _ | ⟨x, _ | ⟨y, values⟩⟩
    · exact Step.alike_of_input hi ..
    · exact Step.alike_of_input hi ..
    · dsimp only
      by_cases hx : x = 0
      · rw [if_pos hx, if_pos hx]
        exact Step.alike_of_input hi ..
      · rw [if_neg hx, if_neg hx]
        exact Step.alike_of_input hi ..
  | _ =>
    rcases values with _ | ⟨x, _ | ⟨y, _ | ⟨z, values⟩⟩⟩ <;> exact Step.alike_of_input hi ..

/-! ## Runs -/

theorem runFrom (h : m.Alike n) (codes : Codes) (fuel position : Nat) (log : Array Event)
    (traffic : Array Traffic) :
    (runFrom codes fuel position m log traffic).Alike
      (runFrom codes fuel position n log traffic) := by
  induction fuel generalizing position m n log traffic with
  | zero =>
    unfold Machine.runFrom
    cases codes[position]? with
    | none => exact ⟨rfl, h, rfl, rfl⟩
    | some code => exact ⟨rfl, h, rfl, rfl⟩
  | succ fuel ih =>
    unfold Machine.runFrom
    cases codes[position]? with
    | none => exact ⟨rfl, h, rfl, rfl⟩
    | some code =>
      have hstep := h.step code position
      dsimp only
      rcases hm : m.step code position with ⟨outcome, m', t⟩
      rcases hn : n.step code position with ⟨_, n', _⟩
      rw [hm, hn] at hstep
      obtain ⟨rfl, h', rfl⟩ := hstep
      cases outcome with
      | error fault => exact ⟨rfl, h', rfl, rfl⟩
      | ok next => exact ih h' ..

theorem finishRun {r s : Run} (h : r.Alike s) : (finishRun r).Alike (finishRun s) := by
  obtain ⟨ending, ⟨stack, memory, input, output⟩, log, traffic⟩ := r
  obtain ⟨_, ⟨_, _, input', _⟩, _, _⟩ := s
  obtain ⟨rfl, ⟨rfl, rfl, rfl, hi⟩, rfl, rfl⟩ := h
  have h := alike_of_input hi stack memory output
  unfold Machine.finishRun
  cases ending with
  | halted =>
    dsimp only
    cases output.flush with
    | error f => exact ⟨rfl, h, rfl, rfl⟩
    | ok _ => exact ⟨rfl, h, rfl, rfl⟩
  | faulted fault => exact ⟨rfl, h, rfl, rfl⟩
  | unfinished => exact ⟨rfl, h, rfl, rfl⟩

theorem run (h : m.Alike n) (fuel : Nat) (codes : Codes) :
    (m.run fuel codes).Alike (n.run fuel codes) :=
  finishRun (h.runFrom ..)

end Machine.Alike

/-! ## The interpreter -/

namespace Interpreter

variable {s t : Interpreter}

theorem Alike.handle (h : s.Alike t) (fuel : Nat) (call : Call) :
    AlikeHandled ((backend fuel).handle call s) ((backend fuel).handle call t) := by
  obtain ⟨a, m⟩ := s
  obtain ⟨_, n⟩ := t
  obtain ⟨rfl, h⟩ := h
  cases call with
  | start => exact ⟨rfl, ⟨rfl, h⟩, rfl⟩
  | perform i =>
    dsimp only [backend, assemble]
    rcases a.place i with ⟨_ | _, a'⟩
    · exact ⟨rfl, ⟨rfl, h⟩, rfl⟩
    · exact ⟨rfl, ⟨rfl, h⟩, rfl⟩
  | finish =>
    dsimp only [backend, runAssembled, runCodes]
    rcases a.finish with ⟨_ | codes, a'⟩
    · exact ⟨rfl, ⟨rfl, h⟩, rfl⟩
    · obtain ⟨hending, hm, hlog, -⟩ := h.run fuel codes
      exact ⟨congrArg outcomeOf hending, ⟨rfl, hm⟩, congrArg (#[.assembled codes.size] ++ ·) hlog⟩

theorem Alike.handleAll (h : s.Alike t) (fuel : Nat) (calls : List Call) (log : Array Event) :
    AlikeHandled ((backend fuel).handleAll calls log s) ((backend fuel).handleAll calls log t) := by
  induction calls generalizing s t log with
  | nil => exact ⟨rfl, h, rfl⟩
  | cons call calls ih =>
    obtain ⟨ho, hs, hl⟩ := h.handle fuel call
    rw [Backend.handleAll, Backend.handleAll, ho, hl]
    cases ((backend fuel).handle call t).outcome with
    | done => exact ih hs _
    | failed e => exact ⟨rfl, hs, rfl⟩
    | unfinished => exact ⟨rfl, hs, rfl⟩

theorem Alike.compile (h : s.Alike t) {source source' : Source} (hsource : source.Alike source')
    (fuel : Nat) :
    AlikeHandled ((backend fuel).compile source s) ((backend fuel).compile source' t) := by
  rw [Backend.compile, Backend.compile, Program.ofSource_of_alike hsource]
  cases Program.ofSource source' with
  | error e => exact ⟨rfl, h, rfl⟩
  | ok p =>
    obtain ⟨ho, hs, hl⟩ := h.handleAll fuel p.calls #[.translating p.length]
    exact ⟨ho, hs, congrArg (#[.decoded p.length] ++ ·) hl⟩

/-- Chunks and interruptions are not noticed, neither of a source nor of the input of a program.
What is decoded, attempt by attempt and as a whole, what a run of codes does from any state, and
what becomes of a source that is read and run, are what they are when the bytes come in one
chunk. -/
theorem deliveries_unnoticed {source input : Source} (hsource : source.Undisturbed)
    (hinput : input.Undisturbed) :
    Program.ofSource source = Program.ofSource (.ofBytes source.bytes) ∧
    (∀ n, Decoding.take n { supply := source } =
      Decoding.take n { supply := Source.ofBytes source.bytes }) ∧
    ∀ (fuel : Nat) (stack : Stack) (memory : Variables) (output : Sink),
      let m : Machine := ⟨stack, memory, input, output⟩
      let m' : Machine := ⟨stack, memory, .ofBytes input.bytes, output⟩
      (∀ codes, (m.run fuel codes).Alike (m'.run fuel codes)) ∧
      ∀ a : Assembler, AlikeHandled ((backend fuel).compile source ⟨a, m⟩)
        ((backend fuel).compile (.ofBytes source.bytes) ⟨a, m'⟩) := by
  have hs := hsource.alike_ofBytes
  refine ⟨Program.ofSource_of_alike hs, Decoding.take_of_alike hs, fun fuel stack memory output => ?_⟩
  intro m m'
  have hm : m.Alike m' := ⟨rfl, rfl, rfl, hinput.alike_ofBytes⟩
  refine ⟨fun codes => hm.run fuel codes, fun a => ?_⟩
  have ha : Alike ⟨a, m⟩ ⟨a, m'⟩ := ⟨rfl, hm⟩
  exact ha.compile hs fuel

/-- A code whose digits are delivered apart, and a character and a numeral whose bytes are. -/
theorem deliveries_unnoticed_apart :
    let interruption : Delivery := .failure ⟨.interrupted, "interrupted"⟩
    let source : Source := [.chunk [0x38], interruption, .chunk [0x34, 0x35, 0x37], .chunk [0x33]]
    let input : Source := [.chunk [0xc3], interruption, .chunk [0xa9, 0x34], .chunk [0x32, 0x0a]]
    let s : Interpreter := { machine := { input, output := {} } }
    source.Undisturbed ∧ input.Undisturbed ∧
      Program.ofSource source = .ok [⟨.inputCharacter, 0⟩, ⟨.inputInteger, 0⟩] ∧
      ((backend 2).compile source s).outcome = .done ∧
      ((backend 2).compile source s).state.machine.stack.values = [42, 0xe9] := by
  intro interruption source input s
  have hsource : source.Undisturbed := by
    intro f hf
    simp [source, interruption] at hf
    rw [hf]
  have hinput : input.Undisturbed := by
    intro f hf
    simp [input, interruption] at hf
    rw [hf]
  obtain ⟨hp, -, hm⟩ := deliveries_unnoticed hsource hinput
  obtain ⟨ho, ⟨-, hs⟩, -⟩ := (hm 2 .empty {} {}).2 {}
  refine ⟨hsource, hinput, hp.trans (Program.ofSource_ofBytes _), ho.trans ?_, ?_⟩
  · with_unfolding_all rfl
  · rw [hs.stack]
    decide +kernel

end Interpreter

end NumNum
