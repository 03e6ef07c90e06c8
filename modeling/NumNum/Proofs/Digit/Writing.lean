import NumNum.Digit.Encoder

/-!
# Writing into any sink

What is written of a program does not depend on the sink: a sink that takes everything gets
`Program.output`, and any other one gets the beginning of it that it has room for
(`Program.encode_eq`).
-/

namespace NumNum

/-! ## Room -/

namespace Sink

theorem append_append (written : Array UInt8) (bs cs : List UInt8) :
    written ++ bs ++ cs = written ++ (bs ++ cs) :=
  Array.ext' (by simp)

theorem room_le (s : Sink) (n : Nat) : s.room n ≤ n := by
  unfold room
  split
  · exact Nat.le_refl n
  · exact Nat.min_le_left n _

theorem room_of_limit_none {s : Sink} (h : s.limit = none) (n : Nat) : s.room n = n := by
  rw [room, h]

/-- What is left of the room behind bytes that fit. -/
theorem room_add {s : Sink} {bs : List UInt8} (h : s.room bs.length = bs.length) (n : Nat) :
    s.room (bs.length + n) = bs.length + room { s with written := s.written ++ bs } n := by
  unfold room at h ⊢
  cases hl : s.limit with
  | none => rfl
  | some limit =>
    rw [hl] at h
    have hsize : (s.written ++ bs).size = s.written.size + bs.length := by
      rw [← Array.length_toList, Array.toList_appendList, List.length_append, Array.length_toList]
    dsimp only at h ⊢
    rw [hsize]
    omega

/-- Bytes that do not fit leave no room for those behind them. -/
theorem room_add_of_ne {s : Sink} {n : Nat} (h : s.room n ≠ n) (k : Nat) :
    s.room (n + k) = s.room n := by
  unfold room at h ⊢
  cases hl : s.limit with
  | none =>
    rw [hl] at h
    exact absurd rfl h
  | some limit =>
    rw [hl] at h
    dsimp only at h ⊢
    omega

theorem limit_of_room_ne {s : Sink} {n : Nat} (h : s.room n ≠ n) :
    ∃ limit, s.limit = some limit ∧ limit ≤ s.written.size + s.room n := by
  unfold room at h ⊢
  cases hl : s.limit with
  | none =>
    rw [hl] at h
    exact absurd rfl h
  | some limit =>
    rw [hl] at h
    refine ⟨limit, rfl, ?_⟩
    dsimp only at h ⊢
    omega

end Sink

/-! ## Output -/

namespace Program

/-- What is written of a program that fits. -/
def bytes (p : Program) : List UInt8 :=
  p.flatMap fun i => Utf8.encodeText i.line

/-- What a sink is given that takes everything: the lines up to an operand that does not fit. -/
def output : Program → List UInt8
  | [] => []
  | i :: p => Utf8.encodeText i.line ++ if i.fits then output p else []

/-- How writing ends into a sink that takes everything. -/
def verdict : Program → Except IoFault Unit
  | [] => .ok ()
  | i :: p => if i.fits then verdict p else .error i.misfit

/-- A sink gets the beginning of what one gets that takes everything. -/
theorem encode_eq (p : Program) (sink : Sink) :
    p.encode sink =
      (if sink.room p.output.length = p.output.length then p.verdict else .error sink.full,
        { sink with
          written := sink.written ++ p.output.take (sink.room p.output.length) }) := by
  induction p generalizing sink with
  | nil =>
    have h : sink.room 0 = 0 := Nat.le_zero.mp (sink.room_le 0)
    simp [encode, output, verdict, h]
  | cons i p ih =>
    rw [encode, Instruction.encode, output, verdict]
    by_cases hroom : sink.room (Utf8.encodeText i.line).length = (Utf8.encodeText i.line).length
    · have hadd := Sink.room_add hroom
      have hwrite : sink.write (Utf8.encodeText i.line) = _ := if_pos hroom
      rw [hwrite]
      dsimp only
      by_cases hi : i.fits = true
      · rw [if_pos hi, if_pos hi, if_pos hi, List.length_append, hadd, List.take_length_add_append]
        dsimp only
        rw [ih, Sink.append_append]
        simp only [Nat.add_left_cancel_iff]
      · rw [if_neg hi, if_neg hi, if_neg hi, List.append_nil, hroom, if_pos rfl, List.take_length]
    · have hle := sink.room_le (Utf8.encodeText i.line).length
      have hwrite : sink.write (Utf8.encodeText i.line) = _ := if_neg hroom
      rw [hwrite]
      dsimp only
      rw [List.length_append, Sink.room_add_of_ne hroom, List.take_append_of_le_length hle, if_neg]
      omega

/-- What a sink is given, ahead of an operand that does not fit. -/
theorem output_append_of_not_fits {p : Program} {i : Instruction} (hp : ∀ j ∈ p, j.fits = true)
    (hi : i.fits = false) (rest : Program) :
    output (p ++ i :: rest) = bytes (p ++ [i]) ∧ verdict (p ++ i :: rest) = .error i.misfit := by
  induction p with
  | nil => simp [output, verdict, bytes, hi]
  | cons j p ih =>
    obtain ⟨ho, hv⟩ := ih fun k hk => hp k (List.mem_cons_of_mem _ hk)
    have hj := hp j List.mem_cons_self
    simp only [List.cons_append, output, verdict, hj, if_true, ho, hv]
    exact ⟨rfl, trivial⟩

theorem output_of_fits {p : Program} (hp : ∀ j ∈ p, j.fits = true) :
    output p = bytes p ∧ verdict p = .ok () := by
  induction p with
  | nil => exact ⟨rfl, rfl⟩
  | cons j p ih =>
    obtain ⟨ho, hv⟩ := ih fun k hk => hp k (List.mem_cons_of_mem _ hk)
    have hj := hp j List.mem_cons_self
    simp only [output, verdict, hj, if_true, ho, hv]
    exact ⟨rfl, trivial⟩

theorem fits_or_not (p : Program) :
    (∀ i ∈ p, i.fits = true) ∨
      ∃ q i rest, p = q ++ i :: rest ∧ (∀ j ∈ q, j.fits = true) ∧ i.fits = false := by
  induction p with
  | nil => exact .inl nofun
  | cons i p ih =>
    cases hi : i.fits with
    | false => exact .inr ⟨[], i, p, rfl, nofun, hi⟩
    | true =>
      rcases ih with h | ⟨q, j, rest, rfl, hq, hj⟩
      · exact .inl (List.forall_mem_cons.mpr ⟨hi, h⟩)
      · exact .inr ⟨i :: q, j, rest, rfl, List.forall_mem_cons.mpr ⟨hi, hq⟩, hj⟩

end Program

end NumNum
