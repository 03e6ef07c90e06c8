import NumNum.Channel.Fault

/-!
# Byte sources

A source is the sequence of deliveries still to come: chunks of bytes and failures.
`Source.pull` shows what a reader meets next, where a failure is met once and then gone,
and an interruption is not met at all. `Source.size_lt_of_pull_byte` and
`Source.size_lt_of_pull_fault` say that taking what was met uses up the source, so
every reader ends.
-/

namespace NumNum

/-- One delivery of a source. -/
inductive Delivery where
  | chunk (bytes : List UInt8)
  | failure (fault : IoFault)

/-- A source, as the deliveries still to come. -/
abbrev Source := List Delivery

/-- What a reader meets at the head of a source, and the source behind it. -/
inductive Pull where
  | byte (b : UInt8) (rest : Source)
  | fault (f : IoFault) (rest : Source)
  | finished

namespace Delivery

/-- The bytes that a delivery brings. -/
def bytes : Delivery → List UInt8
  | .chunk bs => bs
  | .failure _ => []

end Delivery

namespace Source

/-- The source that brings the given bytes in one chunk. -/
def ofBytes (bs : List UInt8) : Source := [.chunk bs]

/-- The bytes that the source still holds. -/
def bytes (s : Source) : List UInt8 := s.flatMap Delivery.bytes

/-- The head of a source: empty chunks and interruptions are passed over. -/
def pull : Source → Pull
  | [] => .finished
  | .chunk [] :: rest => pull rest
  | .chunk (b :: bs) :: rest => .byte b (.chunk bs :: rest)
  | .failure f :: rest => if f.kind = .interrupted then pull rest else .fault f rest

/-- A bound on what can still be met: each byte and each delivery counts. -/
def size : Source → Nat
  | [] => 0
  | .chunk bs :: rest => bs.length + 1 + size rest
  | .failure _ :: rest => 1 + size rest

/-! ## Every reader makes progress -/

theorem size_lt_of_pull {s rest : Source}
    (h : (∃ b, s.pull = .byte b rest) ∨ ∃ f, s.pull = .fault f rest) : rest.size < s.size := by
  fun_induction pull s with
  | case1 => simp at h
  | case2 _ ih => have := ih h; simp only [size]; omega
  | case3 =>
    obtain ⟨_, h⟩ | ⟨_, h⟩ := h
    · cases h
      simp [size]
    · cases h
  | case4 _ _ _ ih => have := ih h; simp only [size]; omega
  | case5 =>
    obtain ⟨_, h⟩ | ⟨_, h⟩ := h
    · cases h
    · cases h
      simp [size]

theorem size_lt_of_pull_byte {s rest : Source} {b : UInt8} (h : s.pull = .byte b rest) :
    rest.size < s.size :=
  size_lt_of_pull (.inl ⟨b, h⟩)

theorem size_lt_of_pull_fault {s rest : Source} {f : IoFault} (h : s.pull = .fault f rest) :
    rest.size < s.size :=
  size_lt_of_pull (.inr ⟨f, h⟩)

/-! ## The bytes of a source -/

theorem bytes_ofBytes (bs : List UInt8) : (ofBytes bs).bytes = bs := by
  simp [ofBytes, bytes, Delivery.bytes]

theorem bytes_pull (s : Source) :
    s.bytes =
      match s.pull with
      | .byte b rest => b :: rest.bytes
      | .fault _ rest => rest.bytes
      | .finished => [] := by
  fun_induction pull s with
  | case1 => rfl
  | case2 _ ih => exact ih
  | case3 => rfl
  | case4 _ _ _ ih => exact ih
  | case5 => rfl

theorem bytes_of_pull_byte {s rest : Source} {b : UInt8} (h : s.pull = .byte b rest) :
    s.bytes = b :: rest.bytes := by
  simpa only [h] using bytes_pull s

theorem bytes_of_pull_fault {s rest : Source} {f : IoFault} (h : s.pull = .fault f rest) :
    s.bytes = rest.bytes := by
  simpa only [h] using bytes_pull s

theorem bytes_of_pull_finished {s : Source} (h : s.pull = .finished) : s.bytes = [] := by
  simpa only [h] using bytes_pull s

end Source

end NumNum
