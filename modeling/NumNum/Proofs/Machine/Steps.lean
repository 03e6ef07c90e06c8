import NumNum.Block
import NumNum.Machine.Run

/-!
# Sequences of steps

`Steps` counts the steps from one position and machine to another. An execution that is
given more fuel continues where the steps end (`executeFrom_of_steps`), and one that is
given less is not finished (`executeFrom_of_steps_lt`).
-/

namespace NumNum

/-- Whether the action leads to the next position whenever it does not fault. -/
def Action.goesOn : Action → Bool
  | .branch _ _ | .leave => false
  | _ => true

theorem Operator.goesOn_of_plain {op : Operator} (h : op.role = .plain) :
    op.action.goesOn = true := by
  cases op <;> first | rfl | cases h

/-- The step with another next position, if it has one. -/
def Step.redirect (position : Nat) : Step → Step
  | ⟨.ok _, m, traffic⟩ => ⟨.ok position, m, traffic⟩
  | stopped => stopped

namespace Machine

/-- This many steps lead from the first position and machine to the second. -/
inductive Steps (codes : Codes) : Nat → Nat → Machine → Nat → Machine → Prop where
  | refl {position : Nat} {m : Machine} : Steps codes 0 position m position m
  | head {n position position' position'' : Nat} {m m' m'' : Machine} {code : Code}
      {traffic : List Traffic} (hc : codes[position]? = some code)
      (hs : m.step code position = ⟨.ok position', m', traffic⟩)
      (rest : Steps codes n position' m' position'' m'') :
      Steps codes (n + 1) position m position'' m''

variable {codes : Codes} {n k position position' : Nat} {m m' : Machine}

theorem Steps.trans {position'' : Nat} {m'' : Machine} (h : Steps codes n position m position' m')
    (h' : Steps codes k position' m' position'' m'') :
    Steps codes (n + k) position m position'' m'' := by
  induction h with
  | refl => rwa [Nat.zero_add]
  | head hc hs _ ih =>
    rw [Nat.add_right_comm]
    exact .head hc hs (ih h')

theorem executeFrom_of_step {code : Code} {traffic : List Traffic}
    (hc : codes[position]? = some code) (hs : m.step code position = ⟨.ok position', m', traffic⟩)
    (fuel : Nat) : executeFrom codes (fuel + 1) position m = executeFrom codes fuel position' m' := by
  rw [executeFrom, hc]
  dsimp only
  rw [hs]

theorem executeFrom_of_steps (h : Steps codes n position m position' m') (fuel : Nat) :
    executeFrom codes (n + fuel) position m = executeFrom codes fuel position' m' := by
  induction h with
  | refl => rw [Nat.zero_add]
  | head hc hs _ ih => rw [Nat.add_right_comm, executeFrom_of_step hc hs, ih]

theorem executeFrom_of_steps_lt {fuel : Nat} (h : Steps codes n position m position' m')
    (hlt : fuel < n) : (executeFrom codes fuel position m).1 = .unfinished := by
  induction h generalizing fuel with
  | refl => omega
  | head hc hs _ ih =>
    cases fuel with
    | zero => rw [executeFrom, hc]
    | succ fuel =>
      rw [executeFrom_of_step hc hs]
      exact ih (by omega)

/-- More fuel changes nothing in an execution that has ended. -/
theorem executeFrom_add {fuel : Nat} (h : (executeFrom codes fuel position m).1 ≠ .unfinished)
    (k : Nat) : executeFrom codes (fuel + k) position m = executeFrom codes fuel position m := by
  induction fuel generalizing position m with
  | zero =>
    unfold executeFrom at h ⊢
    cases hc : codes[position]? with
    | none => rfl
    | some code => simp [hc] at h
  | succ fuel ih =>
    rw [Nat.add_right_comm]
    unfold executeFrom at h ⊢
    cases hc : codes[position]? with
    | none => rfl
    | some code =>
      simp only [hc] at h ⊢
      rcases hs : m.step code position with ⟨_ | _, m', t⟩
      · rfl
      · rw [hs] at h
        exact ih h

theorem executeFrom_eq_of_ended {fuel fuel' : Nat}
    (h : (executeFrom codes fuel position m).1 ≠ .unfinished)
    (h' : (executeFrom codes fuel' position m).1 ≠ .unfinished) :
    executeFrom codes fuel position m = executeFrom codes fuel' position m := by
  rw [← executeFrom_add h fuel', ← executeFrom_add h' fuel, Nat.add_comm]

/-! ## What a step does to the output -/

theorem output_emit (bytes : List UInt8) (next : Nat) (m : Machine) :
    (emit bytes next m).machine.output = (m.output.write bytes).2 := by
  obtain ⟨stack, memory, input, output⟩ := m
  simp only [emit]
  split
  case h_1 h => rw [h]
  case h_2 h => rw [h]

theorem output_request {α : Type} (read : Source → Except IoFault α × Source)
    (meaning : α → Except MachineFault UInt32) (next : Nat) (m : Machine) :
    (m.request read meaning next).machine.output = m.output := by
  unfold request
  repeat' split
  all_goals rfl

/-- A step writes to the output or leaves it as it is. -/
theorem output_step (code : Code) (position : Nat) (m : Machine) :
    (m.step code position).machine.output = m.output ∨
      ∃ bytes, (m.step code position).machine.output = (m.output.write bytes).2 := by
  unfold step
  dsimp only
  split
  case h_10 => split <;> exact .inl rfl
  case h_15 => split <;> exact .inl rfl
  case h_16 => exact .inl (output_request ..)
  case h_17 => exact .inl (output_request ..)
  case h_18 =>
    split
    · exact .inr ⟨_, output_emit ..⟩
    · exact .inl rfl
  case h_19 => exact .inr ⟨_, output_emit ..⟩
  all_goals exact .inl rfl

theorem flushFails_write (s : Sink) (bytes : List UInt8) :
    (s.write bytes).2.flushFails = s.flushFails := by
  unfold Sink.write
  dsimp only
  split <;> rfl

theorem flushFails_step (code : Code) (position : Nat) (m : Machine) :
    (m.step code position).machine.output.flushFails = m.output.flushFails := by
  rcases output_step code position m with h | ⟨bytes, h⟩
  · rw [h]
  · rw [h, flushFails_write]

/-! ## Steps of the structure -/

/-- The top of the stack, for an operator that needs it. -/
def peek (op : Operator) (m : Machine) : Except MachineFault UInt32 :=
  match m.stack.values with
  | [] => .error (.stackUnderflow op 1 0)
  | x :: _ => .ok x

theorem step_of_branch {code : Code} {test : UInt32 → Bool} {past : Nat}
    (h : code.instruction.operator.action = .branch test past) (position : Nat) (m : Machine) :
    m.step code position =
      match m.peek code.instruction.operator with
      | .error fault => m.stop fault
      | .ok x => m.goto (if test x then code.jump + past else position + 1) := by
  obtain ⟨⟨values, _, rfl⟩, memory, input, output⟩ := m
  unfold step peek
  rw [h]
  cases values <;> rfl

theorem redirect_request {α : Type} (read : Source → Except IoFault α × Source)
    (meaning : α → Except MachineFault UInt32) (position next : Nat) (m : Machine) :
    m.request read meaning position =
      (m.request read meaning next).redirect position := by
  unfold request
  split
  · rfl
  · rcases read m.input with ⟨_ | a, rest⟩
    · rfl
    · dsimp only
      cases meaning a <;> rfl

theorem redirect_emit (bytes : List UInt8) (position next : Nat) (m : Machine) :
    emit bytes position m =
      (emit bytes next m).redirect position := by
  obtain ⟨stack, memory, input, output⟩ := m
  unfold emit
  dsimp only
  rcases output.write bytes with ⟨_ | _, output⟩ <;> rfl

/-- An instruction that plays no part in the structure goes on to the next position, and
does the same wherever it stands. -/
theorem step_of_plain {i : Instruction} (h : i.operator.role = .plain) (jump position : Nat)
    (m : Machine) :
    m.step ⟨i, jump⟩ position = (m.step ⟨i, 0⟩ 0).redirect (position + 1) := by
  obtain ⟨⟨values, _, rfl⟩, memory, input, output⟩ := m
  have hgo := Operator.goesOn_of_plain h
  unfold step
  dsimp only
  generalize i.operator.action = action at hgo ⊢
  cases action with
  | branch => cases hgo
  | leave => cases hgo
  | load => dsimp only; cases memory.get? i.value <;> rfl
  | readCharacter => exact redirect_request ..
  | readInteger => exact redirect_request ..
  | division f =>
    rcases values with _ | ⟨x, _ | ⟨y, values⟩⟩
    · rfl
    · rfl
    · dsimp only; split <;> rfl
  | writeCharacter =>
    rcases values with _ | ⟨x, values⟩
    · rfl
    · dsimp only
      cases Word.toChar? x with
      | none => rfl
      | some c => exact redirect_emit ..
  | writeInteger =>
    rcases values with _ | ⟨x, values⟩
    · rfl
    · exact redirect_emit ..
  | _ => rcases values with _ | ⟨x, _ | ⟨y, _ | ⟨z, values⟩⟩⟩ <;> rfl

end Machine

end NumNum
