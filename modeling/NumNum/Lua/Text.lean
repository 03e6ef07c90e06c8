import NumNum.Lua.Syntax
import NumNum.Text.Numeral

/-!
# The text of Lua lines

How each expression, statement and line is written. Lines are indented by two spaces for
each open block.
-/

namespace NumNum.Lua

def Place.text : Place → String
  | .slot 0 => "stack[#stack]"
  | .slot below => "stack[#stack - " ++ Numeral.text below ++ "]"
  | .temporary => "temporary"
  | .variable address => "variables[" ++ Numeral.text address.toNat ++ "]"

def Arithmetic.text : Arithmetic → String
  | .plus => "+"
  | .minus => "-"
  | .times => "*"
  | .quotient => "//"
  | .modulo => "%"
  | .bitAnd => "&"
  | .bitOr => "|"
  | .bitXor => "~"
  | .leftShift => "<<"
  | .rightShift => ">>"

def Comparison.text : Comparison → String
  | .greater => ">"
  | .less => "<"
  | .equal => "=="
  | .unequal => "~="
  | .greaterEqual => ">="
  | .lessEqual => "<="

def Expr.text : Expr → String
  | .number n => Numeral.text n
  | .mask => "0xffffffff"
  | .depth => "#stack"
  | .place p => p.text
  | .removed => "table.remove(stack)"
  | .arithmetic o a b => a.text ++ " " ++ o.text ++ " " ++ b.text
  | .complement a => "~" ++ a.text
  | .parentheses a => "(" ++ a.text ++ ")"
  | .top op => "top(\"" ++ op.mnemonic ++ "\")"
  | .readCharacter => "read_char()"
  | .readInteger => "read_integer()"
  | .loadVariable address => "load_variable(" ++ Numeral.text address.toNat ++ ")"

def Condition.text (c : Condition) : String :=
  c.left.text ++ " " ++ c.comparison.text ++ " " ++ c.right.text

def Statement.text : Statement → String
  | .need depth op => "need(" ++ Numeral.text depth ++ ", \"" ++ op.mnemonic ++ "\")"
  | .insert e => "table.insert(stack, " ++ e.text ++ ")"
  | .remove => "table.remove(stack)"
  | .assign targets values =>
    String.intercalate ", " (targets.map Place.text) ++ " = " ++
      String.intercalate ", " (values.map Expr.text)
  | .writeCharacter e => "write_char(" ++ e.text ++ ")"
  | .write e => "io.write(" ++ e.text ++ ")"
  | .zeroDivision => "error(\"division by zero\")"
  | .when c s => "if " ++ c.text ++ " then " ++ s.text ++ " end"
  | .choose c s t => "if " ++ c.text ++ " then " ++ s.text ++ " else " ++ t.text ++ " end"
  | .leave => "break"

def Line.text : Line → String
  | .statement s => s.text
  | .ifThen c => "if " ++ c.text ++ " then"
  | .whileDo c => "while " ++ c.text ++ " do"
  | .closer => "end"

/-- The line as it is written with this many blocks open around it. -/
def Line.indented (depth : Nat) (line : Line) : String :=
  String.join (List.replicate depth "  ") ++ line.text ++ "\n"

end NumNum.Lua
