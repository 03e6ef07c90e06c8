import NumNum.Channel.Source
import NumNum.Text.Utf8

/-!
# Reading lines

`Source.readLine` takes the bytes through the first newline, or all that are left, and
gives them as text without the line ending. A fault on the way loses what was taken of
the line.
-/

namespace NumNum

namespace Utf8

/-- What a read reports that met a line whose bytes are no text. -/
def malformedLine : IoFault := ⟨.invalidData, "stream did not contain valid UTF-8"⟩

end Utf8

namespace Source

/-- Takes the bytes through the first newline; `taken` holds those so far, last first. -/
def takeLine (taken : List UInt8) (s : Source) : Except IoFault (List UInt8) × Source :=
  match _h : s.pull with
  | .finished => (.ok taken.reverse, s)
  | .fault f rest => (.error f, rest)
  | .byte b rest =>
    if b = 10 then (.ok (b :: taken).reverse, rest) else takeLine (b :: taken) rest
termination_by s.size
decreasing_by exact size_lt_of_pull_byte _h

/-- A line without its ending: one newline, and one carriage return before it. -/
def chomp (line : List Char) : List Char :=
  match line.reverse with
  | '\n' :: '\r' :: rest => rest.reverse
  | '\n' :: rest => rest.reverse
  | _ => line

/-- Takes one line of text; there is none at the end of the source. -/
def readLine (s : Source) : Except IoFault (Option String) × Source :=
  match s.takeLine [] with
  | (.error f, rest) => (.error f, rest)
  | (.ok bytes, rest) =>
    match Utf8.decodeText? bytes with
    | none => (.error Utf8.malformedLine, rest)
    | some line =>
      if bytes = [] then (.ok none, rest)
      else (.ok (some (String.ofList (chomp line.toList))), rest)

end Source

end NumNum
