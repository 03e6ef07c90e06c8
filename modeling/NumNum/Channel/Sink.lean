import NumNum.Channel.Fault

/-!
# Byte sinks

A sink keeps the bytes that were written to it. One with a limit takes bytes up to the
limit and then refuses every write that still has a byte to place, and one may fail
every flush. `Sink.written_write` says what lands.
-/

namespace NumNum

/-- A destination for bytes. -/
structure Sink where
  /-- How many bytes fit in all; without a limit every write fits. -/
  limit : Option Nat := none
  /-- What a write reports that does not fit. -/
  full : IoFault := ⟨.other, "sink full"⟩
  /-- Whether flushing fails. -/
  flushFails : Bool := false
  /-- What a flush reports that fails. -/
  flushFailed : IoFault := ⟨.brokenPipe, "flush failed"⟩
  /-- The bytes that have landed. -/
  written : Array UInt8 := #[]

namespace Sink

/-- How many of `n` bytes still fit. -/
def room (s : Sink) (n : Nat) : Nat :=
  match s.limit with
  | none => n
  | some limit => min n (limit - s.written.size)

/-- Writes as many of the bytes as fit, and fails if some are left. -/
def write (s : Sink) (bs : List UInt8) : Except IoFault Unit × Sink :=
  let n := bs.length
  let fitting := s.room n
  if fitting = n then
    (.ok (), { s with written := s.written ++ bs })
  else
    (.error s.full, { s with written := s.written ++ bs.take fitting })

/-- Passes on what was written. -/
def flush (s : Sink) : Except IoFault Unit :=
  if s.flushFails then .error s.flushFailed else .ok ()

theorem written_write (s : Sink) (bs : List UInt8) :
    (s.write bs).2.written = s.written ++ bs.take (s.room bs.length) := by
  simp only [write]
  split
  case isTrue h => simp [h]
  case isFalse => rfl

theorem write_of_limit_none {s : Sink} (h : s.limit = none) (bs : List UInt8) :
    s.write bs = (.ok (), { s with written := s.written ++ bs }) := by
  simp [write, room, h]

end Sink

end NumNum
