import NumNum.Digit.Decoding
import NumNum.Event

/-!
# Backends

A backend gives a program its effect, call by call: one call before the program, one for
each instruction in order, and one behind the last. `Backend.translate` makes these calls
and stops at the first that does not succeed; `Backend.compile` reads the program from a
source first.
-/

namespace NumNum

/-- A call to a backend: ahead of a program, for one of its instructions, or behind it. -/
inductive Call where
  | start
  | perform (i : Instruction)
  | finish

/-- How a call ended. -/
inductive Outcome where
  | done
  | failed (e : Error)
  /-- The steps allowed for a run were used up. -/
  | unfinished

/-- What a call left behind: how it ended, the state, and what is to be recorded. -/
structure Handled (σ : Type) where
  outcome : Outcome
  state : σ
  log : Array Event := #[]

/-- A way to give programs an effect on a state. -/
structure Backend (σ : Type) where
  handle : Call → σ → Handled σ

/-- The calls for a program. -/
def Program.calls (p : Program) : List Call :=
  .start :: p.map .perform ++ [.finish]

/-- What is recorded ahead of a call. -/
def Call.announcement : Call → Array Event
  | .perform i => #[.dispatching i]
  | _ => #[]

namespace Backend

variable {σ : Type} (b : Backend σ)

/-- Makes the calls in order up to the first that does not succeed, behind a log. -/
def handleAll : List Call → Array Event → σ → Handled σ
  | [], log, state => { outcome := .done, state, log }
  | call :: calls, log, state =>
    let handled := b.handle call state
    let log := log ++ call.announcement ++ handled.log
    match handled.outcome with
    | .done => handleAll calls log handled.state
    | outcome => { outcome, state := handled.state, log }

/-- Gives a program its effect. -/
def translate (p : Program) (state : σ) : Handled σ :=
  b.handleAll p.calls #[.translating p.length] state

/-- Gives the program that a source writes its effect; nothing is called on a source that
cannot be decoded. -/
def compile (source : Source) (state : σ) : Handled σ :=
  match Program.ofSource source with
  | .error e => { outcome := .failed e, state }
  | .ok p =>
    let handled := b.translate p state
    { handled with log := #[.decoded p.length] ++ handled.log }

end Backend

end NumNum
