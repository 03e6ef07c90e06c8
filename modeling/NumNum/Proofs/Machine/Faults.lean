import NumNum.Machine.Step

/-!
# Faults of a step

`Machine.Stops` lists the ways in which a step can fault, with the machine that each of them
leaves. A lack of words is found before anything else has happened, no fault changes the
variables, and the stack loses its top or nothing (`Machine.step_faults`).
-/

namespace NumNum

/-- How many words an operator needs on the stack. -/
def Operator.arity : Operator → Nat
  | rotateUp | rotateDown => 3
  | swap | copyOver => 2
  | and | or | xor | shiftLeft | shiftRight | add | subtract | multiply | divide | remainder => 2
  | greaterThan | lessThan | equal | notEqual | greaterThanOrEqual | lessThanOrEqual => 2
  | test | testNot => 2
  | pop | copy => 1
  | increment | decrement | not | equalZero | notEqualZero => 1
  | ifNotZero | ifZero | whileNotZero | endWhile => 1
  | outputCharacter | outputInteger | storeVariable | copyVariable => 1
  | constant8Bit | constant16Bit | constant32Bit | count | loadVariable => 0
  | inputCharacter | inputInteger | endIf | leaveLoop => 0

theorem Operator.needs_action (op : Operator) : op.action.needs = op.arity := by
  cases op <;> rfl

/-- Whether the fault of an operator is found when the top of the stack has been taken. -/
def MachineFault.takesTop (op : Operator) : MachineFault → Bool
  | .zeroDivision | .invalidCharacter _ => true
  | .io _ => op = .outputCharacter || op = .outputInteger
  | .stackUnderflow .. | .undefinedVariable _ | .invalidNumber _ => false

namespace Machine

variable {m m' : Machine} {code : Code} {fault : MachineFault} {position : Nat}
  {traffic : List Traffic}

/-- The machine without the top of its stack. -/
def withoutTop (m : Machine) : Machine :=
  { m with stack := m.stack.exchange 1 [] }

/-- A code faults on a machine, and this machine is left. -/
inductive Stops (code : Code) (m : Machine) : MachineFault → Machine → Prop where
  | underflow (h : m.stack.depth < code.instruction.operator.action.needs) :
      m.Stops code (.stackUnderflow code.instruction.operator
        code.instruction.operator.action.needs m.stack.depth) m
  | division {f : UInt32 → UInt32 → UInt32} {y : UInt32} {s : List UInt32}
      (ha : code.instruction.operator.action = .division f) (hs : m.stack.values = 0 :: y :: s) :
      m.Stops code .zeroDivision m.withoutTop
  | load (ha : code.instruction.operator.action = .load)
      (h : m.memory.get? code.instruction.value = none) :
      m.Stops code (.undefinedVariable code.instruction.value) m
  | flush {f : IoFault} (ha : code.instruction.operator.action = .readCharacter ∨
        code.instruction.operator.action = .readInteger) (h : m.output.flush = .error f) :
      m.Stops code (.io f) m
  | readCharacter {f : IoFault} {rest : Source}
      (ha : code.instruction.operator.action = .readCharacter)
      (h : m.input.readChar = (.error f, rest)) : m.Stops code (.io f) { m with input := rest }
  | readLine {f : IoFault} {rest : Source}
      (ha : code.instruction.operator.action = .readInteger)
      (h : m.input.readLine = (.error f, rest)) : m.Stops code (.io f) { m with input := rest }
  | number {line : Option String} {rest : Source}
      (ha : code.instruction.operator.action = .readInteger)
      (h : m.input.readLine = (.ok line, rest))
      (hw : Numeral.word? (Text.trim (line.getD "").toList) = none) :
      m.Stops code (.invalidNumber (line.getD "")) { m with input := rest }
  | character {x : UInt32} {s : List UInt32}
      (ha : code.instruction.operator.action = .writeCharacter) (hs : m.stack.values = x :: s)
      (h : Word.toChar? x = none) : m.Stops code (.invalidCharacter x) m.withoutTop
  | write {x : UInt32} {s : List UInt32} {bytes : List UInt8} {f : IoFault} {output : Sink}
      (ha : code.instruction.operator.action = .writeCharacter ∨
        code.instruction.operator.action = .writeInteger) (hs : m.stack.values = x :: s)
      (h : m.output.write bytes = (.error f, output)) :
      m.Stops code (.io f) { m.withoutTop with output }

/-! ## Every fault is listed -/

theorem emit_eq_error {bytes : List UInt8} {next : Nat}
    (h : emit bytes next m = ⟨.error fault, m', traffic⟩) :
    ∃ f output, m.output.write bytes = (.error f, output) ∧ fault = .io f ∧
      m' = { m with output } := by
  obtain ⟨stack, memory, input, output⟩ := m
  unfold emit at h
  dsimp only at h ⊢
  rcases hw : output.write bytes with ⟨f | _, output'⟩
  · rw [hw] at h
    cases h
    exact ⟨f, output', rfl, rfl, rfl⟩
  · rw [hw] at h
    cases h

theorem request_eq_error {α : Type} {read : Source → Except IoFault α × Source}
    {meaning : α → Except MachineFault UInt32} {next : Nat}
    (h : m.request read meaning next = ⟨.error fault, m', traffic⟩) :
    (∃ f, m.output.flush = .error f ∧ fault = .io f ∧ m' = m) ∨
      (∃ f rest, read m.input = (.error f, rest) ∧ fault = .io f ∧
        m' = { m with input := rest }) ∨
      ∃ a rest, read m.input = (.ok a, rest) ∧ meaning a = .error fault ∧
        m' = { m with input := rest } := by
  unfold request at h
  cases hf : m.output.flush with
  | error f =>
    rw [hf] at h
    cases h
    exact .inl ⟨f, rfl, rfl, rfl⟩
  | ok _ =>
    rw [hf] at h
    rcases hr : read m.input with ⟨f | a, rest⟩
    · rw [hr] at h
      cases h
      exact .inr (.inl ⟨f, rest, rfl, rfl, rfl⟩)
    · rw [hr] at h
      dsimp only at h
      cases hm : meaning a with
      | error fault' =>
        rw [hm] at h
        cases h
        exact .inr (.inr ⟨a, rest, rfl, hm, rfl⟩)
      | ok w =>
        rw [hm] at h
        cases h

theorem characterWord_ne_error (c : Option Char) : characterWord c ≠ .error fault := by
  cases c <;> exact nofun

theorem lineWord_eq_error {line : Option String} (h : lineWord line = .error fault) :
    Numeral.word? (Text.trim (line.getD "").toList) = none ∧
      fault = .invalidNumber (line.getD "") := by
  unfold lineWord at h
  dsimp only at h
  split at h
  · cases h
  · rename_i hw
    cases h
    exact ⟨hw, rfl⟩

/-- A step that faults does so in one of the listed ways. -/
theorem stops_of_step (h : m.step code position = ⟨.error fault, m', traffic⟩) :
    m.Stops code fault m' := by
  by_cases hd : m.stack.depth < code.instruction.operator.action.needs
  · rw [step_of_depth_lt hd] at h
    cases h
    exact .underflow hd
  have hlen := m.stack.depth_eq ▸ hd
  unfold step at h
  dsimp only at h
  -- with the words that an action needs, only these actions have a row that can fault
  cases ha : code.instruction.operator.action with
  | load =>
    rw [ha] at h
    dsimp only at h
    cases hv : m.memory.get? code.instruction.value with
    | none =>
      rw [hv] at h
      cases h
      exact .load ha hv
    | some w =>
      rw [hv] at h
      cases h
  | readCharacter =>
    rw [ha] at h
    rcases request_eq_error h with ⟨f, hf, rfl, rfl⟩ | ⟨f, rest, hr, rfl, rfl⟩ | ⟨c, rest, -, hc, -⟩
    · exact .flush (.inl ha) hf
    · exact .readCharacter ha hr
    · exact absurd hc (characterWord_ne_error c)
  | readInteger =>
    rw [ha] at h
    rcases request_eq_error h with ⟨f, hf, rfl, rfl⟩ | ⟨f, rest, hr, rfl, rfl⟩ |
      ⟨line, rest, hr, hl, rfl⟩
    · exact .flush (.inr ha) hf
    · exact .readLine ha hr
    · obtain ⟨hw, rfl⟩ := lineWord_eq_error hl
      exact .number ha hr hw
  | writeCharacter =>
    rw [ha] at h hlen
    cases hs : m.stack.values with
    | nil => simp [hs, Action.needs] at hlen
    | cons x s =>
      rw [hs] at h
      dsimp only at h
      cases hc : Word.toChar? x with
      | none =>
        rw [hc] at h
        cases h
        exact .character ha hs hc
      | some c =>
        rw [hc] at h
        obtain ⟨f, output, hw, rfl, rfl⟩ := emit_eq_error h
        exact .write (.inl ha) hs hw
  | writeInteger =>
    rw [ha] at h hlen
    cases hs : m.stack.values with
    | nil => simp [hs, Action.needs] at hlen
    | cons x s =>
      rw [hs] at h
      obtain ⟨f, output, hw, rfl, rfl⟩ := emit_eq_error h
      exact .write (.inr ha) hs hw
  | division f =>
    rw [ha] at h hlen
    rcases hs : m.stack.values with _ | ⟨x, _ | ⟨y, s⟩⟩
    · simp [hs, Action.needs] at hlen
    · simp [hs, Action.needs] at hlen
    · rw [hs] at h
      dsimp only at h
      by_cases hx : x = 0
      · rw [if_pos hx] at h
        cases h
        exact .division ha (hx ▸ hs)
      · rw [if_neg hx] at h
        cases h
  | _ =>
    rw [ha] at h hlen
    rcases hs : m.stack.values with _ | ⟨x, _ | ⟨y, _ | ⟨z, s⟩⟩⟩ <;> rw [hs] at h <;>
      first
      | (cases h; done)
      | (simp [hs, Action.needs] at hlen)

/-! ## What is left -/

theorem eq_output_of_action {op : Operator}
    (h : op.action = .writeCharacter ∨ op.action = .writeInteger) :
    op = .outputCharacter ∨ op = .outputInteger := by
  cases op <;> first | exact .inl rfl | exact .inr rfl | (rcases h with h | h <;> cases h)

theorem ne_output_of_action {op : Operator}
    (h : op.action = .readCharacter ∨ op.action = .readInteger) :
    op ≠ .outputCharacter ∧ op ≠ .outputInteger := by
  constructor
  · rintro rfl
    rcases h with h | h <;> cases h
  · rintro rfl
    rcases h with h | h <;> cases h

theorem Stops.memory (h : m.Stops code fault m') : m'.memory = m.memory := by
  cases h <;> rfl

theorem Stops.stack (h : m.Stops code fault m') :
    if fault.takesTop code.instruction.operator then
      ∃ x, m.stack.values = x :: m'.stack.values
    else m'.stack = m.stack := by
  cases h with
  | underflow => rfl
  | load => rfl
  | number => rfl
  | division ha hs => exact ⟨0, by simp [withoutTop, hs]⟩
  | @character x s ha hs => exact ⟨x, by simp [withoutTop, hs]⟩
  | flush ha => rw [MachineFault.takesTop]; simp [ne_output_of_action ha]
  | readCharacter ha => rw [MachineFault.takesTop]; simp [ne_output_of_action (.inl ha)]
  | readLine ha => rw [MachineFault.takesTop]; simp [ne_output_of_action (.inr ha)]
  | @write x s bytes f output ha hs =>
    have ho := eq_output_of_action ha
    simp only [MachineFault.takesTop, withoutTop]
    simp [ho, hs]

/-- A step reports a lack of words exactly if words are lacking, with their number, and then
nothing has happened. No fault changes the variables. A division by zero, a word that is no
character and a failed write have taken the top off the stack, and no other fault has changed
it. -/
theorem step_faults (code : Code) (position : Nat) (m : Machine) :
    let s := m.step code position
    let op := code.instruction.operator
    (∀ op' needed found, s.outcome = .error (.stackUnderflow op' needed found) ↔
      m.stack.values.length < op.arity ∧
        op' = op ∧ needed = op.arity ∧ found = m.stack.values.length) ∧
    (m.stack.values.length < op.arity → s.machine = m ∧ s.traffic = []) ∧
    ∀ fault, s.outcome = .error fault →
      s.machine.memory = m.memory ∧
      if fault.takesTop op then ∃ x, m.stack.values = x :: s.machine.stack.values
      else s.machine.stack = m.stack := by
  intro s op
  have hstops : ∀ fault, s.outcome = .error fault → m.Stops code fault s.machine := by
    intro fault h
    have hs : m.step code position = ⟨.error fault, s.machine, s.traffic⟩ := h ▸ rfl
    exact stops_of_step hs
  have hlack : m.stack.values.length < op.arity →
      s = m.stop (.stackUnderflow op op.arity m.stack.values.length) := by
    intro h
    rw [← op.needs_action, ← m.stack.depth_eq] at h ⊢
    exact step_of_depth_lt h
  refine ⟨fun op' needed found => ⟨fun h => ?_, ?_⟩, fun h => ?_, fun fault h => ?_⟩
  · have hs := hstops _ h
    generalize s.machine = m' at hs
    cases hs with
    | underflow hd =>
      rw [op.needs_action, m.stack.depth_eq] at hd
      exact ⟨hd, rfl, op.needs_action, m.stack.depth_eq⟩
  · rintro ⟨h, rfl, rfl, rfl⟩
    rw [hlack h]
    rfl
  · rw [hlack h]
    exact ⟨rfl, rfl⟩
  · exact ⟨(hstops fault h).memory, (hstops fault h).stack⟩

/-- A sink that takes nothing costs the number that should be written, and the rotation behind
it lacks words. -/
theorem step_faults_full :
    let m : Machine :=
      { stack := { values := [7, 9, 8] }, input := [], output := { limit := some 0 } }
    let written := m.step { instruction := ⟨.outputInteger, 0⟩ } 0
    let rotated := written.machine.step { instruction := ⟨.rotateUp, 0⟩ } 1
    written.outcome = .error (.io ⟨.other, "sink full"⟩) ∧
      written.machine.stack.values = [9, 8] ∧
      rotated.outcome = .error (.stackUnderflow .rotateUp 3 2) ∧
      rotated.machine = written.machine := by
  intro m written rotated
  have hw : written.outcome = .error (.io ⟨.other, "sink full"⟩) := rfl
  obtain ⟨-, -, hfault⟩ := step_faults { instruction := ⟨.outputInteger, 0⟩ } 0 m
  obtain ⟨-, x, hx⟩ := hfault _ hw
  have hv : written.machine.stack.values = [9, 8] := (List.cons.inj hx).2.symm
  have hlt : written.machine.stack.values.length < Operator.arity .rotateUp := by
    rw [hv]
    decide
  obtain ⟨hiff, hlack, -⟩ := step_faults { instruction := ⟨.rotateUp, 0⟩ } 1 written.machine
  exact ⟨hw, hv, (hiff _ _ _).mpr ⟨hlt, rfl, rfl, by rw [hv]; rfl⟩, (hlack hlt).1⟩

end Machine

end NumNum
