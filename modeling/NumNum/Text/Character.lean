import NumNum.Channel.Source
import NumNum.Text.Utf8

/-!
# Reading characters

`Source.readChar` takes one UTF-8 character from a source. A malformed sequence is a
fault that uses up only the bytes that belong to it, so that the next read starts with
the first byte that does not. `Source.size_lt_of_readChar` says that only the end of
the source leaves it as it is.
-/

namespace NumNum

namespace Utf8

/-- What a read reports that met a malformed sequence. -/
def malformed : IoFault := ⟨.invalidData, "invalid UTF-8 sequence"⟩

end Utf8

namespace Source

/-- Takes the `missing` last bytes of a sequence that starts with `taken`, and decodes it. -/
def readSequence (taken : List UInt8) : Nat → Source → Except IoFault (Option Char) × Source
  | 0, s =>
    match Utf8.decode? taken with
    | some c => (.ok (some c), s)
    | none => (.error Utf8.malformed, s)
  | missing + 1, s =>
    match s.pull with
    | .finished => (.error Utf8.malformed, s)
    | .fault f rest => (.error f, rest)
    | .byte b rest =>
      if Utf8.isContinuation b then readSequence (taken ++ [b]) missing rest
      else (.error Utf8.malformed, s)

/-- Takes one character; there is none at the end of the source. -/
def readChar (s : Source) : Except IoFault (Option Char) × Source :=
  match s.pull with
  | .finished => (.ok none, s)
  | .fault f rest => (.error f, rest)
  | .byte lead rest =>
    match Utf8.sequenceLength? lead with
    | none => (.error Utf8.malformed, rest)
    | some n => readSequence [lead] (n - 1) rest

/-! ## Reading a character uses up the source -/

theorem size_readSequence_le (taken : List UInt8) (missing : Nat) (s : Source) :
    (readSequence taken missing s).2.size ≤ s.size := by
  induction missing generalizing taken s with
  | zero => simp only [readSequence]; split <;> exact Nat.le_refl _
  | succ n ih =>
    simp only [readSequence]
    split
    case h_1 => exact Nat.le_refl _
    case h_2 hp => exact Nat.le_of_lt (size_lt_of_pull_fault hp)
    case h_3 hp =>
      split
      · exact Nat.le_trans (ih _ _) (Nat.le_of_lt (size_lt_of_pull_byte hp))
      · exact Nat.le_refl _

theorem readSequence_ne_end (taken : List UInt8) (missing : Nat) (s : Source) :
    (readSequence taken missing s).1 ≠ .ok none := by
  induction missing generalizing taken s with
  | zero => simp only [readSequence]; split <;> simp
  | succ n ih =>
    simp only [readSequence]
    split
    case h_1 => simp
    case h_2 => simp
    case h_3 => split <;> simp [ih]

theorem size_lt_of_readChar {s : Source} (h : s.readChar.1 ≠ .ok none) :
    s.readChar.2.size < s.size := by
  revert h
  simp only [readChar]
  split
  case h_1 => simp
  case h_2 hp => exact fun _ => size_lt_of_pull_fault hp
  case h_3 hp =>
    intro _
    split
    · exact size_lt_of_pull_byte hp
    · exact Nat.lt_of_le_of_lt (size_readSequence_le _ _ _) (size_lt_of_pull_byte hp)

end Source

end NumNum
