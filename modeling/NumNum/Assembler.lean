import NumNum.Block
import NumNum.Code
import NumNum.Error

/-!
# Assembling codes

The assembler appends codes one by one and fills in jumps when the block that they
belong to is closed. Until then it keeps the positions that wait for the closer. A
closer takes the innermost open block off even if it turns out to be of the wrong kind.

Open blocks are grouped by the loops, so that a break finds its loop at once, however
many conditionals lie between. `Assembler.blocks` gives them in one row.
-/

namespace NumNum

/-- A loop that is still open. -/
structure OpenLoop where
  /-- Where its opener stands. -/
  opener : Nat
  /-- Where the breaks out of it stand. -/
  breaks : List Nat := []
  /-- The openers of the conditionals around it, up to the next loop, innermost first. -/
  around : List Nat := []
deriving DecidableEq

/-- Codes under construction, with the open blocks. -/
structure Assembler where
  codes : Codes := #[]
  /-- The openers of the conditionals inside the innermost loop, innermost first. -/
  conditionals : List Nat := []
  /-- The open loops, innermost first. -/
  loops : List OpenLoop := []

namespace Assembler

/-- The kinds of the open blocks, innermost first. -/
def blocks (a : Assembler) : List BlockKind :=
  a.conditionals.map (fun _ => .conditional) ++
    a.loops.flatMap fun l => .loop :: l.around.map fun _ => .conditional

/-- Appends a code. -/
def append (code : Code) (a : Assembler) : Assembler :=
  { a with codes := a.codes.push code }

/-- Appends an instruction without jump. -/
def push (i : Instruction) (a : Assembler) : Assembler :=
  a.append { instruction := i }

/-- Gives the code at a position its jump. -/
def setJump (codes : Codes) (position target : Nat) : Codes :=
  codes.modify position fun code => { code with jump := target }

/-- Opens a conditional with the given operator. -/
def openConditional (op : Operator) : Assembler → Assembler
  | ⟨codes, conditionals, loops⟩ =>
    let here := codes.size
    ⟨codes.push { instruction := { operator := op } }, here :: conditionals, loops⟩

/-- Closes the innermost block, a conditional. -/
def closeConditional : Assembler → Except StructureError Unit × Assembler
  | ⟨codes, opener :: conditionals, loops⟩ =>
    let here := codes.size
    (.ok (), ⟨(setJump codes opener here).push { instruction := { operator := .endIf } },
      conditionals, loops⟩)
  | ⟨codes, [], loop :: loops⟩ => (.error (.unmatched .endIf), ⟨codes, loop.around, loops⟩)
  | ⟨codes, [], []⟩ => (.error (.unmatched .endIf), ⟨codes, [], []⟩)

/-- Opens a loop. -/
def openLoop : Assembler → Assembler
  | ⟨codes, conditionals, loops⟩ =>
    let here := codes.size
    ⟨codes.push { instruction := { operator := .whileNotZero }, jump := here }, [],
      { opener := here, around := conditionals } :: loops⟩

/-- Closes the innermost block, a loop, and sends its breaks here. -/
def closeLoop : Assembler → Except StructureError Unit × Assembler
  | ⟨codes, [], ⟨opener, breaks, around⟩ :: loops⟩ =>
    let here := codes.size
    let codes := (opener :: breaks).foldl (fun codes position => setJump codes position here) codes
    (.ok (), ⟨codes.push { instruction := { operator := .endWhile }, jump := opener },
      around, loops⟩)
  | ⟨codes, conditionals, loops⟩ =>
    (.error (.unmatched .endWhile), ⟨codes, conditionals.tail, loops⟩)

/-- Appends a break out of the innermost loop. -/
def leave : Assembler → Except StructureError Unit × Assembler
  | ⟨codes, conditionals, ⟨opener, breaks, around⟩ :: loops⟩ =>
    let here := codes.size
    (.ok (), ⟨codes.push { instruction := { operator := .leaveLoop } }, conditionals,
      ⟨opener, here :: breaks, around⟩ :: loops⟩)
  | ⟨codes, conditionals, []⟩ => (.error .breakOutsideLoop, ⟨codes, conditionals, []⟩)

/-- Hands out the codes and starts afresh, unless a block is open. -/
def finish (a : Assembler) : Except StructureError Codes × Assembler :=
  if a.blocks = [] then (.ok a.codes, {})
  else (.error (.unclosed a.blocks.length), a)

/-- Takes one instruction, by the part it plays in the structure. -/
def place (i : Instruction) (a : Assembler) : Except StructureError Unit × Assembler :=
  match i.operator.role with
  | .opener .conditional => (.ok (), a.openConditional i.operator)
  | .opener .loop => (.ok (), a.openLoop)
  | .closer .conditional => a.closeConditional
  | .closer .loop => a.closeLoop
  | .leaver => a.leave
  | .plain => (.ok (), a.push i.canonical)

/-- Takes instructions up to the first that fails. -/
def placeAll : Program → Assembler → Except StructureError Unit × Assembler
  | [], a => (.ok (), a)
  | i :: rest, a =>
    match a.place i with
    | (.ok (), a) => placeAll rest a
    | failed => failed

/-! ## Requests -/

/-- A request to an assembler. -/
inductive Request where
  | push (i : Instruction)
  | openConditional (op : Operator)
  | closeConditional
  | openLoop
  | closeLoop
  | leave
  | finish

/-- Serves one request; only a finish that succeeds hands out codes. -/
def serve (request : Request) (a : Assembler) : Except StructureError (Option Codes) × Assembler :=
  match request with
  | .push i => (.ok none, a.push i)
  | .openConditional op => (.ok none, a.openConditional op)
  | .openLoop => (.ok none, a.openLoop)
  | .closeConditional =>
    let (r, a) := a.closeConditional
    (r.map fun _ => none, a)
  | .closeLoop =>
    let (r, a) := a.closeLoop
    (r.map fun _ => none, a)
  | .leave =>
    let (r, a) := a.leave
    (r.map fun _ => none, a)
  | .finish =>
    let (r, a) := a.finish
    (r.map some, a)

end Assembler

/-- The codes of a program. -/
def Program.assemble (p : Program) : Except StructureError Codes :=
  match Assembler.placeAll p {} with
  | (.ok (), a) => a.finish.1
  | (.error e, _) => .error e

end NumNum
