import NumNum.Backend
import NumNum.Block
import NumNum.Lua.Prelude
import NumNum.Lua.Template
import NumNum.Lua.Text
import NumNum.Channel.Sink

/-!
# Generating Lua

The backend that writes a program as Lua text, line by line. It keeps the kinds of the
open blocks, which give the indentation and tell closers that do not match. A closer
takes the innermost open block off even if it turns out to be of the wrong kind.
-/

namespace NumNum.Lua

/-- Where the text goes, and the kinds of the open blocks, innermost first. -/
structure Generator where
  output : Sink
  blocks : List BlockKind := []

namespace Generator

/-- Writes text as it is. -/
def write (text : String) : Generator → Except Error Unit × Generator
  | ⟨output, blocks⟩ =>
    match output.write (Utf8.encodeText text) with
    | (.ok (), output) => (.ok (), ⟨output, blocks⟩)
    | (.error f, output) => (.error (.io f), ⟨output, blocks⟩)

/-- Writes one line. -/
def writeLine (line : Line) (g : Generator) : Except Error Unit × Generator :=
  let depth := g.blocks.length
  g.write (line.indented depth)

/-- Writes lines up to the first failure. -/
def writeLines : List Line → Generator → Except Error Unit × Generator
  | [], g => (.ok (), g)
  | line :: lines, g =>
    match g.writeLine line with
    | (.ok (), g) => writeLines lines g
    | failed => failed

/-- Writes the line that opens a block, which is open if that succeeds. -/
def openBlock (kind : BlockKind) (op : Operator) (g : Generator) : Except Error Unit × Generator :=
  match g.writeLine (opener kind op) with
  | (.ok (), g) => (.ok (), { g with blocks := kind :: g.blocks })
  | failed => failed

/-- Closes the innermost block, of this kind, and writes the line for it. -/
def closeBlock (kind : BlockKind) : Generator → Except Error Unit × Generator
  | ⟨output, []⟩ => (.error (.structural (.unmatched kind.closer)), ⟨output, []⟩)
  | ⟨output, innermost :: blocks⟩ =>
    if innermost = kind then writeLine .closer ⟨output, blocks⟩
    else (.error (.structural (.unmatched kind.closer)), ⟨output, blocks⟩)

/-- Writes the line that leaves the innermost loop. -/
def leaveLoop (g : Generator) : Except Error Unit × Generator :=
  if .loop ∈ g.blocks then g.writeLine (.statement .leave)
  else (.error (.structural .breakOutsideLoop), g)

/-- Writes the lines for one instruction. -/
def place (i : Instruction) (g : Generator) : Except Error Unit × Generator :=
  match i.operator.role with
  | .opener kind => g.openBlock kind i.operator
  | .closer kind => g.closeBlock kind
  | .leaver => g.leaveLoop
  | .plain => g.writeLines ((statements i).map .statement)

/-- Flushes the text, unless a block is open. -/
def finish (g : Generator) : Except Error Unit :=
  if g.blocks = [] then
    match g.output.flush with
    | .ok () => .ok ()
    | .error f => .error (.io f)
  else .error (.structural (.unclosed g.blocks.length))

/-- How a call ended that gave this result. -/
def outcomeOf : Except Error Unit → Outcome
  | .ok () => .done
  | .error e => .failed e

/-- The backend that writes programs. -/
def backend : Backend Generator where
  handle call g :=
    match call with
    | .start =>
      let (r, g) := g.write prelude
      { outcome := outcomeOf r, state := g }
    | .perform i =>
      let (r, g) := g.place i
      { outcome := outcomeOf r, state := g }
    | .finish =>
      match g.finish with
      | .ok () => { outcome := .done, state := g, log := #[.generated] }
      | .error e => { outcome := .failed e, state := g }

end Generator

end NumNum.Lua
