import NumNum.Instruction
import NumNum.Text.Numeral
import NumNum.Variables

/-!
# Events

What is worth recording while a program is decoded, translated and run, and the record
of each event: a level and a line of text.
-/

namespace NumNum

/-- Something that happened on the way from source text to a result. -/
inductive Event where
  | decoded (instructions : Nat)
  | translating (instructions : Nat)
  | dispatching (i : Instruction)
  | assembled (codes : Nat)
  | running (codes : Nat)
  | executing (position : Nat) (i : Instruction)
  /-- A run reached its end with this stack, top first, and these variables. -/
  | halted (stack : List UInt32) (memory : Variables)
  | generated

/-- How much detail a record adds. -/
inductive Level where
  | trace | debug | info
deriving DecidableEq

def Level.text : Level → String
  | .trace => "TRACE"
  | .debug => "DEBUG"
  | .info => "INFO"

/-- A number in at least `width` columns, at the right. -/
def alignRight (width n : Nat) : String :=
  let digits := Numeral.text n
  String.ofList (List.replicate (width - digits.length) ' ') ++ digits

namespace Event

def level : Event → Level
  | .decoded _ | .running _ => .info
  | .dispatching _ => .trace
  | _ => .debug

def text : Event → String
  | .decoded n => "decoded " ++ Numeral.text n ++ " instructions"
  | .translating n => "translating " ++ Numeral.text n ++ " instructions"
  | .dispatching i => i.text
  | .assembled n => "assembled " ++ Numeral.text n ++ " codes"
  | .running n => "running " ++ Numeral.text n ++ " codes"
  | .executing position i => alignRight 5 position ++ " " ++ i.text
  | .halted stack memory =>
    let words := stack.reverse.map fun w => Numeral.text w.toNat
    let bindings := memory.entries.map fun e =>
      Numeral.text e.1.toNat ++ ": " ++ Numeral.text e.2.toNat
    "halted ([" ++ String.intercalate ", " words ++ "], \x7b" ++
      String.intercalate ", " bindings ++ "\x7d)"
  | .generated => "lua generation finished"

/-- The record of an event. -/
def record (e : Event) : String :=
  e.level.text ++ " " ++ e.text

end Event

end NumNum
