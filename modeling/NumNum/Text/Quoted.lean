import NumNum.Text.Extender

/-!
# Quoted text

A text between double quotes on one line: quotes and backslashes are escaped, and every
character that could not be seen as itself is written by name or by code point.
-/

namespace NumNum.Text

/-- The code point of a character in lower-case hexadecimal digits. -/
def codePoint (c : Char) : List Char :=
  Nat.toDigits 16 c.toNat

/-- The written form of one character. -/
def escape (c : Char) : List Char :=
  match c with
  | '"' => ['\\', '"']
  | '\\' => ['\\', '\\']
  | '\t' => ['\\', 't']
  | '\n' => ['\\', 'n']
  | '\r' => ['\\', 'r']
  | '\x00' => ['\\', '0']
  | c =>
    if isExtender c || isUnprintable c then ['\\', 'u', '\x7b'] ++ codePoint c ++ ['\x7d']
    else [c]

/-- The text between quotes. -/
def quote (s : String) : String :=
  String.ofList (['"'] ++ s.toList.flatMap escape ++ ['"'])

end NumNum.Text
