import NumNum.Code
import NumNum.Error
import NumNum.Machine.Action
import NumNum.Machine.Stack
import NumNum.Channel.Sink
import NumNum.Text.Blank
import NumNum.Text.Character
import NumNum.Text.Line
import NumNum.Variables

/-!
# One step of the machine

The state of the stack machine and the execution of one code. A step ends in the next
position or in a fault, and reports what it did at the channels. An operator that finds
too few values faults before it does anything else (`Machine.step_of_depth_lt`).
-/

namespace NumNum

/-- A stack machine: the stack, the variables, and the two channels. -/
structure Machine where
  stack : Stack := .empty
  memory : Variables := {}
  input : Source
  output : Sink

/-- What a machine does at its channels. -/
inductive Traffic where
  /-- Bytes were handed to the output. -/
  | wrote
  /-- The output was flushed, with this success. -/
  | flushed (success : Bool)
  /-- The input was asked for bytes. -/
  | asked
deriving DecidableEq

/-- The end of a step: the next position or a fault, the machine, and its traffic in order. -/
structure Step where
  outcome : Except MachineFault Nat
  machine : Machine
  traffic : List Traffic := []

namespace Machine

/-- The step that changes nothing and goes on at a position. -/
def goto (m : Machine) (position : Nat) : Step :=
  { outcome := .ok position, machine := m }

/-- The step that exchanges words at the top of the stack and goes on at a position. -/
def exchange (m : Machine) (taken : Nat) (given : List UInt32) (position : Nat) : Step :=
  { outcome := .ok position, machine := { m with stack := m.stack.exchange taken given } }

/-- The step that stops with a fault. -/
def stop (m : Machine) (fault : MachineFault) : Step :=
  { outcome := .error fault, machine := m }

/-- Writes bytes and goes on at `next`. -/
def emit (bytes : List UInt8) (next : Nat) : Machine → Step
  | ⟨stack, memory, input, output⟩ =>
    match output.write bytes with
    | (.ok (), output) => ⟨.ok next, ⟨stack, memory, input, output⟩, [.wrote]⟩
    | (.error f, output) => ⟨.error (.io f), ⟨stack, memory, input, output⟩, [.wrote]⟩

/-- Flushes the output, reads from the input, and pushes what the reading means. -/
def request {α : Type} (read : Source → Except IoFault α × Source)
    (meaning : α → Except MachineFault UInt32) (next : Nat) (m : Machine) : Step :=
  match m.output.flush with
  | .error f => ⟨.error (.io f), m, [.flushed false]⟩
  | .ok () =>
    match read m.input with
    | (.error f, rest) => ⟨.error (.io f), { m with input := rest }, [.flushed true, .asked]⟩
    | (.ok a, rest) =>
      match meaning a with
      | .error fault => ⟨.error fault, { m with input := rest }, [.flushed true, .asked]⟩
      | .ok w =>
        ⟨.ok next, { m with stack := m.stack.exchange 0 [w], input := rest },
          [.flushed true, .asked]⟩

/-- The word that a character read stands for; the end of the input has one, too. -/
def characterWord (c : Option Char) : Except MachineFault UInt32 :=
  match c with
  | some c => .ok c.val
  | none => .ok Word.endOfInput

/-- The word that a line of input writes, with blanks around it. The end of the input counts
as an empty line. -/
def lineWord (line : Option String) : Except MachineFault UInt32 :=
  let line := line.getD ""
  match Numeral.word? (Text.trim line.toList) with
  | some w => .ok w
  | none => .error (.invalidNumber line)

/-- Executes a code that stands at a position. -/
def step (code : Code) (position : Nat) (m : Machine) : Step :=
  let next := position + 1
  let operand := code.instruction.value
  match code.instruction.operator.action, m.stack.values with
  | .depth, _ => m.exchange 0 [UInt32.ofNat m.stack.depth] next
  | .pop, _ :: _ => m.exchange 1 [] next
  | .copy, x :: _ => m.exchange 1 [x, x] next
  | .swap, x :: y :: _ => m.exchange 2 [y, x] next
  | .copyOver, x :: y :: _ => m.exchange 2 [y, x, y] next
  | .rotateUp, x :: y :: z :: _ => m.exchange 3 [y, z, x] next
  | .rotateDown, x :: y :: z :: _ => m.exchange 3 [z, x, y] next
  | .unary f, x :: _ => m.exchange 1 [f x] next
  | .binary f, x :: y :: _ => m.exchange 2 [f y x] next
  | .division f, x :: y :: _ =>
    if x = 0 then stop { m with stack := m.stack.exchange 1 [] } .zeroDivision
    else m.exchange 2 [f y x] next
  | .compare p, x :: y :: _ => m.exchange 2 [Word.ofBool (p y x), x, y] next
  | .constant, _ => m.exchange 0 [operand] next
  | .store, x :: _ => exchange { m with memory := m.memory.set operand x } 1 [] next
  | .keep, x :: _ => goto { m with memory := m.memory.set operand x } next
  | .load, _ =>
    match m.memory.get? operand with
    | some w => m.exchange 0 [w] next
    | none => m.stop (.undefinedVariable operand)
  | .readCharacter, _ => m.request Source.readChar characterWord next
  | .readInteger, _ => m.request Source.readLine lineWord next
  | .writeCharacter, x :: _ =>
    match Word.toChar? x with
    | some c => emit (Utf8.encode c) next { m with stack := m.stack.exchange 1 [] }
    | none => stop { m with stack := m.stack.exchange 1 [] } (.invalidCharacter x)
  | .writeInteger, x :: _ =>
    emit (Utf8.encodeText (Numeral.text x.toNat)) next
      { m with stack := m.stack.exchange 1 [] }
  | .branch test past, x :: _ => m.goto (if test x then code.jump + past else next)
  | .leave, _ => m.goto (code.jump + 1)
  | .proceed, _ => m.goto next
  | action, _ =>
    m.stop (.stackUnderflow code.instruction.operator action.needs m.stack.depth)

/-- A stack that is not deep enough stops the step before it has any effect. -/
theorem step_of_depth_lt {code : Code} {position : Nat} {m : Machine}
    (h : m.stack.depth < code.instruction.operator.action.needs) :
    m.step code position = m.stop (.stackUnderflow code.instruction.operator
      code.instruction.operator.action.needs m.stack.depth) := by
  obtain ⟨⟨values, _, rfl⟩, memory, input, output⟩ := m
  unfold step
  generalize code.instruction.operator.action = action at h ⊢
  rcases values with _ | ⟨x, _ | ⟨y, _ | ⟨z, s⟩⟩⟩
  case nil => cases action <;> simp [Action.needs] at h <;> rfl
  case cons.nil => cases action <;> simp [Action.needs] at h <;> rfl
  case cons.cons.nil => cases action <;> simp [Action.needs] at h <;> rfl
  case cons.cons.cons => cases action <;> simp [Action.needs] at h <;> omega

end Machine

end NumNum
