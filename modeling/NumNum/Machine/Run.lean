import NumNum.Event
import NumNum.Machine.Step

/-!
# Runs

A run executes codes from position zero until it leaves them or a fault occurs, and
then flushes the output, whatever the result. A fault of the program is reported in
preference to one of this last flush. The number of steps is bounded, so that a run of
any codes is a value. An execution is a run of which only the end is kept
(`Machine.execute_eq`).
-/

namespace NumNum

/-- How a run ended. -/
inductive Ending where
  | halted
  | faulted (fault : MachineFault)
  /-- The allowed steps were used up. -/
  | unfinished

/-- A run: how it ended, the machine after it, and what happened, in order. -/
structure Run where
  ending : Ending
  machine : Machine
  log : Array Event := #[]
  traffic : Array Traffic := #[]

namespace Machine

/-- Executes codes from a position on, for at most `fuel` steps, behind a log and traffic. -/
def runFrom (codes : Codes) :
    Nat → Nat → Machine → Array Event → Array Traffic → Run
  | fuel, position, m, log, traffic =>
    match codes[position]? with
    | none => { ending := .halted, machine := m, log, traffic }
    | some code =>
      match fuel with
      | 0 => { ending := .unfinished, machine := m, log, traffic }
      | fuel + 1 =>
        let log := log.push (.executing position code.instruction)
        match m.step code position with
        | ⟨.ok next, m, t⟩ => runFrom codes fuel next m log (traffic ++ t)
        | ⟨.error fault, m, t⟩ =>
          { ending := .faulted fault, machine := m, log, traffic := traffic ++ t }

/-- The end of a run: the output is flushed, and a halt recorded. -/
def finishRun (r : Run) : Run :=
  match r.ending, r.machine.output.flush with
  | .halted, .ok () =>
    { r with
      log := r.log.push (.halted r.machine.stack.values r.machine.memory)
      traffic := r.traffic.push (.flushed true) }
  | .halted, .error f =>
    { r with ending := .faulted (.io f), traffic := r.traffic.push (.flushed false) }
  | _, flushed => { r with traffic := r.traffic.push (.flushed flushed.isOk) }

/-- Runs codes from the start, for at most `fuel` steps. -/
def run (fuel : Nat) (codes : Codes) (m : Machine) : Run :=
  finishRun (runFrom codes fuel 0 m #[.running codes.size] #[])

/-! ## Runs without a record -/

/-- Executes codes from a position on, for at most `fuel` steps, and records nothing, so
that a long run takes no more room than its machine. -/
def executeFrom (codes : Codes) : Nat → Nat → Machine → Ending × Machine
  | fuel, position, m =>
    match codes[position]? with
    | none => (.halted, m)
    | some code =>
      match fuel with
      | 0 => (.unfinished, m)
      | fuel + 1 =>
        match m.step code position with
        | ⟨.ok next, m, _⟩ => executeFrom codes fuel next m
        | ⟨.error fault, m, _⟩ => (.faulted fault, m)

/-- Executes codes from the start, for at most `fuel` steps, and flushes the output. -/
def execute (fuel : Nat) (codes : Codes) (m : Machine) : Ending × Machine :=
  match executeFrom codes fuel 0 m with
  | (.halted, m) =>
    match m.output.flush with
    | .ok () => (.halted, m)
    | .error f => (.faulted (.io f), m)
  | stopped => stopped

theorem executeFrom_eq (codes : Codes) (fuel position : Nat) (m : Machine) (log : Array Event)
    (traffic : Array Traffic) :
    executeFrom codes fuel position m =
      ((runFrom codes fuel position m log traffic).ending,
        (runFrom codes fuel position m log traffic).machine) := by
  induction fuel generalizing position m log traffic with
  | zero => unfold executeFrom runFrom; cases codes[position]? <;> rfl
  | succ fuel ih =>
    unfold executeFrom runFrom
    cases codes[position]? with
    | none => rfl
    | some code =>
      dsimp only
      rcases m.step code position with ⟨_ | _, m, t⟩
      · rfl
      · exact ih ..

/-- An execution ends as the run does, on the same machine. -/
theorem execute_eq (fuel : Nat) (codes : Codes) (m : Machine) :
    m.execute fuel codes = ((m.run fuel codes).ending, (m.run fuel codes).machine) := by
  unfold execute run
  rw [executeFrom_eq codes fuel 0 m #[.running codes.size] #[]]
  generalize runFrom codes fuel 0 m #[.running codes.size] #[] = r
  obtain ⟨ending, m, log, traffic⟩ := r
  dsimp only [finishRun]
  cases ending with
  | halted => dsimp only; cases m.output.flush <;> rfl
  | faulted fault => rfl
  | unfinished => rfl

end Machine

end NumNum
