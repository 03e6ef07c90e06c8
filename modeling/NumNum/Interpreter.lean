import NumNum.Assembler
import NumNum.Backend
import NumNum.Machine.Run

/-!
# Interpreting programs

The interpreter assembles the instructions it is given and runs the codes at the end of
the program. It can be used for further programs: stack and variables carry over, and so
does what was assembled but not run because a call failed.
-/

namespace NumNum

/-- An assembler and the machine that runs its codes. -/
structure Interpreter where
  assembler : Assembler := {}
  machine : Machine

namespace Interpreter

/-- How a call ended that made a run. -/
def outcomeOf : Ending → Outcome
  | .halted => .done
  | .faulted fault => .failed (.machine fault)
  | .unfinished => .unfinished

/-- Runs codes on the interpreter's machine; the assembler takes no part. -/
def runCodes (fuel : Nat) (codes : Codes) : Interpreter → Handled Interpreter
  | ⟨assembler, machine⟩ =>
    let r := machine.run fuel codes
    { outcome := outcomeOf r.ending, state := ⟨assembler, r.machine⟩, log := r.log }

/-- Assembles one instruction. -/
def assemble (i : Instruction) : Interpreter → Handled Interpreter
  | ⟨assembler, machine⟩ =>
    match assembler.place i with
    | (.ok (), assembler) => { outcome := .done, state := ⟨assembler, machine⟩ }
    | (.error e, assembler) =>
      { outcome := .failed (.structural e), state := ⟨assembler, machine⟩ }

/-- Runs what was assembled, unless a block is open. -/
def runAssembled (fuel : Nat) : Interpreter → Handled Interpreter
  | ⟨assembler, machine⟩ =>
    match assembler.finish with
    | (.error e, assembler) =>
      { outcome := .failed (.structural e), state := ⟨assembler, machine⟩ }
    | (.ok codes, assembler) =>
      let handled := runCodes fuel codes ⟨assembler, machine⟩
      { handled with log := #[.assembled codes.size] ++ handled.log }

/-- The backend that runs programs, with a bound on the steps of a run. -/
def backend (fuel : Nat) : Backend Interpreter where
  handle call state :=
    match call with
    | .start => { outcome := .done, state }
    | .perform i => assemble i state
    | .finish => runAssembled fuel state

/-- What the calls behind the start come to: the instructions are assembled, and what was
assembled is run. -/
theorem handleAll_perform (fuel : Nat) (p : Program) (log : Array Event) (a : Assembler)
    (m : Machine) :
    let handled := (backend fuel).handleAll (p.map .perform ++ [.finish]) log ⟨a, m⟩
    (handled.outcome, handled.state) =
      match Assembler.placeAll p a with
      | (.ok (), a) =>
        ((runAssembled fuel ⟨a, m⟩).outcome, (runAssembled fuel ⟨a, m⟩).state)
      | (.error e, a) => (.failed (.structural e), ⟨a, m⟩) := by
  induction p generalizing log a with
  | nil =>
    simp only [List.map_nil, List.nil_append, Backend.handleAll, Assembler.placeAll, backend]
    cases (runAssembled fuel ⟨a, m⟩).outcome <;> simp
  | cons i p ih =>
    simp only [List.map_cons, List.cons_append, Backend.handleAll, Assembler.placeAll, backend,
      assemble]
    rcases a.place i with ⟨_ | _, a⟩
    · rfl
    · exact ih ..

end Interpreter

/-! ## Programs without a record -/

/-- Runs the program that a source writes on a machine, and records nothing. -/
def Machine.interpret (fuel : Nat) (source : Source) (m : Machine) : Outcome × Machine :=
  match Program.ofSource source with
  | .error e => (.failed e, m)
  | .ok p =>
    match p.assemble with
    | .error e => (.failed (.structural e), m)
    | .ok codes =>
      match m.execute fuel codes with
      | (ending, m) => (Interpreter.outcomeOf ending, m)

/-- The outcome and the machine are those of a new interpreter's backend. -/
theorem Machine.interpret_eq (fuel : Nat) (source : Source) (m : Machine) :
    m.interpret fuel source =
      (((Interpreter.backend fuel).compile source { machine := m }).outcome,
        ((Interpreter.backend fuel).compile source { machine := m }).state.machine) := by
  unfold interpret Backend.compile
  cases Program.ofSource source with
  | error e => rfl
  | ok p =>
    refine Eq.trans ?_ (congrArg (Prod.map id Interpreter.machine)
      (Interpreter.handleAll_perform fuel p (#[.translating p.length] ++ #[] ++ #[]) {} m)).symm
    dsimp only [Program.assemble]
    rcases Assembler.placeAll p {} with ⟨_ | _, a⟩
    · rfl
    · dsimp only [Interpreter.runAssembled, Interpreter.runCodes]
      rcases a.finish with ⟨_ | codes, a⟩
      · rfl
      · dsimp only
        rw [Machine.execute_eq]
        rfl

end NumNum
