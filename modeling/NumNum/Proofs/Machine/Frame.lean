import NumNum.Machine.Run

/-!
# Words below the stack

Codes that do not count the stack see and move only the words that they ask for. So words
that are put below the stack stay there and change nothing else, in one step
(`Machine.step_onto`) and in a whole run (`Machine.run_onto`), unless the run lacked words.
-/

namespace NumNum

/-! ## Stacks on top of others -/

/-- The stack on top of another one. -/
def Stack.onto (s base : Stack) : Stack where
  values := s.values ++ base.values
  depth := s.depth + base.depth
  depth_eq := by simp [s.depth_eq, base.depth_eq]

theorem Stack.exchange_onto {taken : Nat} (given : List UInt32) {s : Stack} (base : Stack)
    (h : taken ≤ s.depth) :
    (s.onto base).exchange taken given = (s.exchange taken given).onto base := by
  rw [s.depth_eq] at h
  apply Stack.ext
  simp [onto, List.drop_append_of_le_length h]

/-- The machine with another stack below its own. -/
def Machine.onto (m : Machine) (base : Stack) : Machine :=
  { m with stack := m.stack.onto base }

def Step.onto (s : Step) (base : Stack) : Step :=
  { s with machine := s.machine.onto base }

/-! ## One step -/

theorem Operator.action_ne_depth {op : Operator} (h : op ≠ .count) : op.action ≠ .depth := by
  cases op <;> first | exact absurd rfl h | exact nofun

namespace Machine

section
variable {m : Machine} (base : Stack) (given : List UInt32) {taken : Nat} (next : Nat)

theorem exchange_onto (h : taken ≤ m.stack.depth) :
    (m.onto base).exchange taken given next = (m.exchange taken given next).onto base := by
  unfold exchange Step.onto onto
  dsimp only
  rw [Stack.exchange_onto given base h]

theorem stop_exchange_onto (fault : MachineFault) (h : taken ≤ m.stack.depth) :
    stop { m.onto base with stack := (m.onto base).stack.exchange taken given } fault =
      (stop { m with stack := m.stack.exchange taken given } fault).onto base := by
  unfold stop Step.onto onto
  dsimp only
  rw [Stack.exchange_onto given base h]

theorem emit_exchange_onto (bytes : List UInt8) (h : taken ≤ m.stack.depth) :
    emit bytes next { m.onto base with stack := (m.onto base).stack.exchange taken given } =
      (emit bytes next { m with stack := m.stack.exchange taken given }).onto base := by
  unfold emit Step.onto onto
  dsimp only
  rw [Stack.exchange_onto given base h]
  rcases m.output.write bytes with ⟨_ | _, output⟩
  · rfl
  · rfl

theorem request_onto {α : Type} (read : Source → Except IoFault α × Source)
    (meaning : α → Except MachineFault UInt32) :
    (m.onto base).request read meaning next = (m.request read meaning next).onto base := by
  unfold request Step.onto onto
  dsimp only
  cases m.output.flush with
  | error f => rfl
  | ok _ =>
    dsimp only
    rcases read m.input with ⟨_ | a, rest⟩
    · rfl
    · dsimp only
      cases meaning a with
      | error fault => rfl
      | ok w =>
        dsimp only
        rw [Stack.exchange_onto [w] base (Nat.zero_le _)]

end

variable (base : Stack) {codes : Codes} {m : Machine}

/-- A step that has the words it needs does not notice what lies below the stack. -/
theorem step_onto {code : Code} (position : Nat) (hcount : code.instruction.operator ≠ .count)
    (h : code.instruction.operator.action.needs ≤ m.stack.depth) :
    (m.onto base).step code position = (m.step code position).onto base := by
  have hd := Operator.action_ne_depth hcount
  have hlen := m.stack.depth_eq ▸ h
  have hv : (m.onto base).stack.values = m.stack.values ++ base.values := rfl
  unfold step
  dsimp only
  rw [hv]
  generalize code.instruction.operator.action = action at h hd hlen ⊢
  -- the words that an action needs are all in the upper stack, so the same row applies to both
  cases action with
  | depth => exact absurd rfl hd
  | leave => rfl
  | proceed => rfl
  | constant => exact exchange_onto base _ _ (Nat.zero_le _)
  | load =>
    dsimp only [onto]
    cases m.memory.get? code.instruction.value with
    | none => rfl
    | some w => exact exchange_onto base _ _ (Nat.zero_le _)
  | readCharacter => exact request_onto ..
  | readInteger => exact request_onto ..
  | pop | copy | unary f =>
    cases hs : m.stack.values with
    | nil => simp [hs, Action.needs] at hlen
    | cons x values => exact exchange_onto base _ _ h
  | store =>
    cases hs : m.stack.values with
    | nil => simp [hs, Action.needs] at hlen
    | cons x values =>
      let stored : Machine := { m with memory := m.memory.set code.instruction.value x }
      exact exchange_onto (m := stored) base _ _ h
  | keep | branch test past =>
    cases hs : m.stack.values with
    | nil => simp [hs, Action.needs] at hlen
    | cons x values => rfl
  | writeInteger =>
    cases hs : m.stack.values with
    | nil => simp [hs, Action.needs] at hlen
    | cons x values => exact emit_exchange_onto base _ _ _ h
  | writeCharacter =>
    cases hs : m.stack.values with
    | nil => simp [hs, Action.needs] at hlen
    | cons x values =>
      dsimp only [List.cons_append]
      cases Word.toChar? x with
      | none => exact stop_exchange_onto base _ _ h
      | some c => exact emit_exchange_onto base _ _ _ h
  | swap | copyOver | binary f | compare p =>
    rcases hs : m.stack.values with _ | ⟨x, _ | ⟨y, values⟩⟩
    · simp [hs, Action.needs] at hlen
    · simp [hs, Action.needs] at hlen
    · exact exchange_onto base _ _ h
  | division f =>
    rcases hs : m.stack.values with _ | ⟨x, _ | ⟨y, values⟩⟩
    · simp [hs, Action.needs] at hlen
    · simp [hs, Action.needs] at hlen
    · dsimp only [List.cons_append]
      by_cases hx : x = 0
      · rw [if_pos hx, if_pos hx]
        exact stop_exchange_onto base _ _ (Nat.le_of_succ_le h)
      · rw [if_neg hx, if_neg hx]
        exact exchange_onto base _ _ h
  | rotateUp | rotateDown =>
    rcases hs : m.stack.values with _ | ⟨x, _ | ⟨y, _ | ⟨z, values⟩⟩⟩
    · simp [hs, Action.needs] at hlen
    · simp [hs, Action.needs] at hlen
    · simp [hs, Action.needs] at hlen
    · exact exchange_onto base _ _ h

end Machine

/-! ## Runs -/

/-- The run lacked words on the stack. -/
def Ending.Underflow (e : Ending) : Prop :=
  ∃ op needed found, e = .faulted (.stackUnderflow op needed found)

def Event.position? : Event → Option Nat
  | .executing position _ => some position
  | _ => none

/-- Where the codes stand that a run has executed, in order. -/
def Run.positions (r : Run) : List Nat := r.log.toList.filterMap Event.position?

def Run.onto (r : Run) (base : Stack) : Run :=
  { r with machine := r.machine.onto base }

namespace Machine

variable (base : Stack) {codes : Codes}

theorem runFrom_onto (hcount : ∀ code ∈ codes, code.instruction.operator ≠ .count)
    {fuel position : Nat} {m : Machine} {log : Array Event} {traffic : Array Traffic}
    (h : ¬ (runFrom codes fuel position m log traffic).ending.Underflow) :
    runFrom codes fuel position (m.onto base) log traffic =
      (runFrom codes fuel position m log traffic).onto base := by
  induction fuel generalizing position m log traffic with
  | zero =>
    unfold runFrom
    cases codes[position]? <;> rfl
  | succ fuel ih =>
    unfold runFrom at h ⊢
    cases hc : codes[position]? with
    | none => rfl
    | some code =>
      rw [hc] at h
      dsimp only at h ⊢
      by_cases hn : m.stack.depth < code.instruction.operator.action.needs
      · rw [step_of_depth_lt hn] at h
        exact absurd ⟨_, _, _, rfl⟩ h
      · rw [step_onto base position (hcount code (Array.mem_of_getElem? hc)) (Nat.le_of_not_lt hn)]
        rcases hs : m.step code position with ⟨fault | next, m', t⟩
        · rfl
        · rw [hs] at h
          exact ih h

theorem underflow_finishRun {r : Run} (h : r.ending.Underflow) :
    (finishRun r).ending.Underflow := by
  obtain ⟨op, needed, found, h⟩ := h
  unfold finishRun
  rw [h]
  exact ⟨op, needed, found, rfl⟩

/-- The end of a run shows the stack in its last record, and nowhere else. -/
theorem finishRun_onto (r : Run) :
    (finishRun (r.onto base)).ending = (finishRun r).ending ∧
      (finishRun (r.onto base)).positions = (finishRun r).positions ∧
      (finishRun (r.onto base)).machine = (finishRun r).machine.onto base ∧
      (finishRun (r.onto base)).traffic = (finishRun r).traffic := by
  obtain ⟨ending, m, log, traffic⟩ := r
  unfold finishRun Run.onto onto
  dsimp only
  cases ending with
  | halted =>
    cases m.output.flush with
    | error f => exact ⟨rfl, rfl, rfl, rfl⟩
    | ok _ =>
      refine ⟨rfl, ?_, rfl, rfl⟩
      simp only [Run.positions, Array.toList_push, List.filterMap_append]
      rfl
  | faulted fault => exact ⟨rfl, rfl, rfl, rfl⟩
  | unfinished => exact ⟨rfl, rfl, rfl, rfl⟩

/-- Codes without a count run on a stack with other words below it as they run without them,
and leave these words where they are, unless the run ends for lack of words. -/
theorem run_onto (hcount : ∀ code ∈ codes, code.instruction.operator ≠ .count) (m : Machine) :
    (∀ fuel, ¬ (m.run fuel codes).ending.Underflow →
      ((m.onto base).run fuel codes).ending = (m.run fuel codes).ending ∧
      ((m.onto base).run fuel codes).positions = (m.run fuel codes).positions ∧
      ((m.onto base).run fuel codes).machine = (m.run fuel codes).machine.onto base ∧
      ((m.onto base).run fuel codes).traffic = (m.run fuel codes).traffic) ∧
    ((∀ fuel, ¬ (m.run fuel codes).ending.Underflow) →
      ((∀ fuel, ((m.onto base).run fuel codes).ending = .unfinished) ↔
        ∀ fuel, (m.run fuel codes).ending = .unfinished)) := by
  have hrun : ∀ fuel, ¬ (m.run fuel codes).ending.Underflow →
      (m.onto base).run fuel codes =
        finishRun ((runFrom codes fuel 0 m #[.running codes.size] #[]).onto base) := by
    intro fuel h
    unfold run
    rw [runFrom_onto base hcount fun hu => h (underflow_finishRun hu)]
  constructor
  · intro fuel h
    rw [hrun fuel h]
    exact finishRun_onto base _
  · intro h
    apply forall_congr'
    intro fuel
    rw [hrun fuel (h fuel), (finishRun_onto base _).1]
    rfl

/-- A loop counts a word down to zero above two words that it does not reach. -/
theorem run_onto_countdown :
    let codes : Codes := #[⟨⟨.whileNotZero, 0⟩, 4⟩, ⟨⟨.copy, 0⟩, 0⟩, ⟨⟨.outputInteger, 0⟩, 0⟩,
      ⟨⟨.decrement, 0⟩, 0⟩, ⟨⟨.endWhile, 0⟩, 0⟩]
    let m : Machine := { stack := { values := [2] }, input := [], output := {} }
    let base : Stack := { values := [9, 8] }
    (∀ code ∈ codes, code.instruction.operator ≠ .count) ∧
      ¬ (m.run 12 codes).ending.Underflow ∧
      ((m.onto base).run 12 codes).positions = [0, 1, 2, 3, 4, 0, 1, 2, 3, 4] ∧
      ((m.onto base).run 12 codes).machine.stack.values = [0, 9, 8] := by
  intro codes m base
  have hcount : ∀ code ∈ codes, code.instruction.operator ≠ .count := by decide
  have hu : ¬ (m.run 12 codes).ending.Underflow := by
    rintro ⟨op, needed, found, h⟩
    cases h
  obtain ⟨-, hp, hm, -⟩ := (run_onto base hcount m).1 12 hu
  refine ⟨hcount, hu, hp, ?_⟩
  rw [hm]
  rfl

end Machine

end NumNum
