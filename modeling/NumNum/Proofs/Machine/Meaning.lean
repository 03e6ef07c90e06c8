import NumNum.Interpreter
import NumNum.Proofs.Machine.Simulation

/-!
# The meaning of nested programs

A program that is assembled and run ends as the execution of its tree does, and where one
of the two does not end, neither does the other (`Block.ends_iff`).
-/

namespace NumNum

open Machine

/-! ## Results

What has ended has a result, in each of the three notions of an end. -/

def Exit.result? : Exit false → Option (Except MachineFault Unit × Machine)
  | .through m => some (.ok (), m)
  | .stopped fault m => some (.error fault, m)
  | .unfinished => none

def Ending.result? : Ending → Option (Except MachineFault Unit)
  | .halted => some (.ok ())
  | .faulted fault => some (.error fault)
  | .unfinished => none

def Outcome.result? : Outcome → Option (Except Error Unit)
  | .done => some (.ok ())
  | .failed e => some (.error e)
  | .unfinished => none

/-- Executing a tree ends, with this result and on this machine. -/
def Block.Ends (b : Block false) (m : Machine) (result : Except MachineFault Unit)
    (m' : Machine) : Prop :=
  ∃ fuel, (b.eval fuel m).result? = some (result, m')

/-- Giving a program its effect ends, with this result and in this state. -/
def Interpreter.Ends (p : Program) (s : Interpreter) (result : Except Error Unit)
    (s' : Interpreter) : Prop :=
  ∃ fuel, ((backend fuel).translate p s).outcome.result? = some result ∧
    ((backend fuel).translate p s).state = s'

namespace Machine

theorem flushFails_executeFrom (codes : Codes) (fuel position : Nat) (m : Machine) :
    (executeFrom codes fuel position m).2.output.flushFails = m.output.flushFails := by
  induction fuel generalizing position m with
  | zero => unfold executeFrom; cases codes[position]? <;> rfl
  | succ fuel ih =>
    unfold executeFrom
    cases codes[position]? with
    | none => rfl
    | some code =>
      have hf := flushFails_step code position m
      dsimp only
      rcases hs : m.step code position with ⟨fault | next, m', t⟩
      · rw [hs] at hf; exact hf
      · rw [hs] at hf; exact (ih next m').trans hf

/-- When flushing does not fail, the flush behind an execution shows in nothing. -/
theorem execute_eq_executeFrom {m : Machine} (h : m.output.flushFails = false) (fuel : Nat)
    (codes : Codes) : m.execute fuel codes = executeFrom codes fuel 0 m := by
  have hf := flushFails_executeFrom codes fuel 0 m
  unfold execute
  rcases he : executeFrom codes fuel 0 m with ⟨_ | _ | _, m'⟩
  · rw [he, h] at hf
    simp only [Sink.flush, show m'.output.flushFails = false from hf, Bool.false_eq_true, if_false]
  · rfl
  · rfl

end Machine

/-- A program is assembled instruction by instruction, and then run. -/
theorem Interpreter.translate_eq (fuel : Nat) (p : Program) (a : Assembler) (m : Machine) :
    let handled := (backend fuel).translate p ⟨a, m⟩
    (handled.outcome, handled.state) =
      match Assembler.placeAll p a with
      | (.ok (), a) =>
        ((runAssembled fuel ⟨a, m⟩).outcome, (runAssembled fuel ⟨a, m⟩).state)
      | (.error e, a) => (.failed (.structural e), ⟨a, m⟩) :=
  handleAll_perform fuel p (#[Event.translating p.length] ++ #[] ++ #[]) a m

namespace Block

/-- What the interpreter does with a nested program is to execute its codes. -/
theorem translate_program (b : Block false) (fuel : Nat) (m : Machine) :
    let handled := (Interpreter.backend fuel).translate b.program ⟨{}, m⟩
    let executed := m.execute fuel (b.codes 0 0).toArray
    (handled.outcome, handled.state) = (Interpreter.outcomeOf executed.1, ⟨{}, executed.2⟩) := by
  have h := Interpreter.translate_eq fuel b.program {} m
  rw [Assembler.placeAll_program b {} nofun] at h
  dsimp only [Interpreter.runAssembled] at h ⊢
  rw [h, Assembler.finish_after, execute_eq]
  rfl

theorem result_executeFrom (b : Block false) (fuel : Nat) (m : Machine) :
    match (b.eval fuel m).result? with
    | some (result, m') => ∃ n ending, ending.result? = some result ∧
      executeFrom (b.codes 0 0).toArray n 0 m = (ending, m')
    | none => (executeFrom (b.codes 0 0).toArray fuel 0 m).1 = .unfinished := by
  have h : Follows (b.codes 0 0).toArray 0 (0 + b.size) 0 fuel m (b.eval fuel m) :=
    b.follows_eval fuel 0 0 m (by intro k code hk; simpa using hk)
  cases he : b.eval fuel m with
  | through m' =>
    rw [he] at h
    obtain ⟨n, hn⟩ := h
    refine ⟨n, .halted, rfl, ?_⟩
    have := executeFrom_of_steps hn 0
    rw [Nat.add_zero] at this
    rw [this, executeFrom, Array.getElem?_eq_none (by simp)]
  | stopped fault m' =>
    rw [he] at h
    obtain ⟨n, hn⟩ := h
    exact ⟨n, .faulted fault, rfl, hn⟩
  | unfinished =>
    rw [he] at h
    obtain ⟨n, position, m', hlt, hn⟩ := h
    exact executeFrom_of_steps_lt hn hlt

/-- The codes of a tree and the tree itself end in the same way, if one of them ends. -/
theorem ends_iff_executeFrom (b : Block false) (m : Machine)
    (result : Except MachineFault Unit) (m' : Machine) :
    b.Ends m result m' ↔ ∃ n ending, ending.result? = some result ∧
      executeFrom (b.codes 0 0).toArray n 0 m = (ending, m') := by
  constructor
  · rintro ⟨fuel, h⟩
    have hr := b.result_executeFrom fuel m
    rwa [h] at hr
  · rintro ⟨n, ending, he, hn⟩
    have hr := b.result_executeFrom n m
    have hended : (executeFrom (b.codes 0 0).toArray n 0 m).1 ≠ .unfinished := by
      rw [hn]
      rintro rfl
      cases he
    cases h : (b.eval n m).result? with
    | none =>
      rw [h] at hr
      exact absurd hr hended
    | some r =>
      rw [h] at hr
      obtain ⟨n', ending', he', hn'⟩ := hr
      have hended' : (executeFrom (b.codes 0 0).toArray n' 0 m).1 ≠ .unfinished := by
        rw [hn']
        rintro rfl
        cases he'
      have heq := executeFrom_eq_of_ended hended hended'
      rw [hn, hn'] at heq
      cases heq
      rw [he] at he'
      cases he'
      exact ⟨n, h⟩

theorem diverges_iff_executeFrom (b : Block false) (m : Machine) :
    (∀ n, (executeFrom (b.codes 0 0).toArray n 0 m).1 = .unfinished) ↔
      ∀ fuel, b.eval fuel m = .unfinished := by
  constructor
  · intro h fuel
    have hr := b.result_executeFrom fuel m
    cases he : b.eval fuel m with
    | unfinished => rfl
    | _ =>
      rw [he] at hr
      obtain ⟨n, ending, hend, hn⟩ := hr
      have := h n
      rw [hn] at this
      cases this
      cases hend
  · intro h n
    have hr := b.result_executeFrom n m
    rwa [h n] at hr

end Block

theorem Interpreter.result?_outcomeOf (ending : Ending) :
    (outcomeOf ending).result? = ending.result?.map (·.mapError .machine) := by
  cases ending <;> rfl

theorem Interpreter.outcomeOf_eq_unfinished {ending : Ending} :
    outcomeOf ending = .unfinished ↔ ending = .unfinished := by
  cases ending <;> simp [outcomeOf]

/-- The interpreter gives a nested program the meaning that its tree has: the same results
on the same machines, and an end where there is one. Every program that the assembler
accepts has a tree (`Assembler.exists_block_of_finish`). -/
theorem Block.ends_iff (b : Block false) {m : Machine} (hflush : m.output.flushFails = false) :
    (∀ result s, Interpreter.Ends b.program ⟨{}, m⟩ result s ↔
      ∃ result' m', b.Ends m result' m' ∧ result = result'.mapError .machine ∧ s = ⟨{}, m'⟩) ∧
    ((∀ fuel, ((Interpreter.backend fuel).translate b.program ⟨{}, m⟩).outcome = .unfinished) ↔
      ∀ fuel, b.eval fuel m = .unfinished) := by
  have ht : ∀ fuel, (((Interpreter.backend fuel).translate b.program ⟨{}, m⟩).outcome,
      ((Interpreter.backend fuel).translate b.program ⟨{}, m⟩).state) =
      (Interpreter.outcomeOf (executeFrom (b.codes 0 0).toArray fuel 0 m).1,
        ⟨{}, (executeFrom (b.codes 0 0).toArray fuel 0 m).2⟩) := by
    intro fuel
    rw [b.translate_program fuel m, execute_eq_executeFrom hflush]
  have ho := fun fuel => (Prod.mk.injEq .. ▸ ht fuel).1
  have hs := fun fuel => (Prod.mk.injEq .. ▸ ht fuel).2
  constructor
  · intro result s
    simp only [Interpreter.Ends, ho, hs, Interpreter.result?_outcomeOf, Option.map_eq_some_iff,
      ends_iff_executeFrom]
    constructor
    · rintro ⟨fuel, ⟨result', hr, rfl⟩, rfl⟩
      exact ⟨result', _, ⟨fuel, _, hr, rfl⟩, rfl, rfl⟩
    · rintro ⟨result', m', ⟨fuel, ending, hr, he⟩, rfl, rfl⟩
      exact ⟨fuel, ⟨result', by rw [he]; exact hr, rfl⟩, by rw [he]⟩
  · simp only [ho, Interpreter.outcomeOf_eq_unfinished]
    exact b.diverges_iff_executeFrom m

/-- A break under a conditional leaves the loop around both, and the run comes to its end
with the word still on the stack. -/
theorem Block.ends_iff_leave :
    let opener : Part (.opener .conditional) := ⟨⟨.ifNotZero, 0⟩, rfl⟩
    let body : Block true := conditional opener (leave ⟨⟨.leaveLoop, 0⟩, rfl⟩ done)
      ⟨⟨.endIf, 0⟩, rfl⟩ (plain ⟨⟨.pop, 0⟩, rfl⟩ done)
    let b : Block false := plain ⟨⟨.constant8Bit, 7⟩, rfl⟩
      (loop ⟨⟨.whileNotZero, 0⟩, rfl⟩ body ⟨⟨.endWhile, 0⟩, rfl⟩ done)
    let m : Machine := { input := [], output := {} }
    m.output.flushFails = false ∧ Interpreter.Ends b.program ⟨{}, m⟩ (.ok ())
      ⟨{}, { m with stack := { values := [7] } }⟩ := by
  intro opener body b m
  have h : m.output.flushFails = false := rfl
  exact ⟨h, ((ends_iff b h).1 (.ok ()) _).mpr ⟨.ok (), _, ⟨1, rfl⟩, rfl, rfl⟩⟩

end NumNum
