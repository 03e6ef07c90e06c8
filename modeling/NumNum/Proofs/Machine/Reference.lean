import NumNum.Proofs.Machine.Steps
import NumNum.Proofs.Structure.Tree

/-!
# Structured execution

The reference meaning of a nested program: its tree is executed without positions and
jumps. A conditional looks at the top of the stack and executes its body or passes over
it. A loop looks at the top ahead of the first round and behind each round, and a break
abandons what is left of the innermost loop's body. Everything else is a step of the
machine. The rounds of each loop are bounded by the fuel.
-/

namespace NumNum

/-- Whether a conditional that is opened by this operator executes its body. -/
def Operator.enters (op : Operator) (x : UInt32) : Bool :=
  match op with
  | .ifZero => x = 0
  | _ => x ≠ 0

/-- How the execution of a tree ends. -/
inductive Exit : Bool → Type where
  /-- At the end of the tree. -/
  | through {inLoop : Bool} (m : Machine) : Exit inLoop
  /-- At a break out of the loop around the tree. -/
  | left (m : Machine) : Exit true
  | stopped {inLoop : Bool} (fault : MachineFault) (m : Machine) : Exit inLoop
  /-- A loop has used up its rounds. -/
  | unfinished {inLoop : Bool} : Exit inLoop

namespace Exit

variable {inLoop : Bool}

/-- Goes on where the execution came to the end of a tree. -/
def andThen (exit : Exit inLoop) (next : Machine → Exit inLoop) : Exit inLoop :=
  match exit with
  | through m => next m
  | exit => exit

end Exit

namespace Block

/-- Executes the body of a loop again and again, as long as the top is not zero behind it. -/
def rounds {inLoop : Bool} (body : Machine → Exit true) : Nat → Machine → Exit inLoop
  | 0, _ => .unfinished
  | fuel + 1, m =>
    match body m with
    | .through m =>
      match m.peek .endWhile with
      | .error fault => .stopped fault m
      | .ok x => if x = 0 then .through m else rounds body fuel m
    | .left m => .through m
    | .stopped fault m => .stopped fault m
    | .unfinished => .unfinished

/-- Executes a tree, with at most `fuel` rounds of each loop. -/
def eval (fuel : Nat) {inLoop : Bool} : Block inLoop → Machine → Exit inLoop
  | done, m => .through m
  | plain i rest, m =>
    match m.step { instruction := i.1.canonical } 0 with
    | ⟨.ok _, m, _⟩ => rest.eval fuel m
    | ⟨.error fault, m, _⟩ => .stopped fault m
  | conditional opener body _ rest, m =>
    match m.peek opener.1.operator with
    | .error fault => .stopped fault m
    | .ok x =>
      if opener.1.operator.enters x then (body.eval fuel m).andThen (rest.eval fuel)
      else rest.eval fuel m
  | loop _ body _ rest, m =>
    match m.peek .whileNotZero with
    | .error fault => .stopped fault m
    | .ok x =>
      if x = 0 then rest.eval fuel m
      else (rounds (body.eval fuel) fuel m).andThen (rest.eval fuel)
  | leave _ _, m => .left m

end Block

end NumNum
