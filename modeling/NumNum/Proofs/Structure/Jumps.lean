import NumNum.Proofs.Structure.Brackets

/-!
# Jumps follow the brackets

The jumps in the codes of a tree are the ones that the brackets of its program give
(`Block.laid_jumpAt`). The induction carries what is known of the loop around the tree:
it is closed at the exit, and whatever was opened in it since then is closed again.
-/

namespace NumNum

/-! ## Trees in programs -/

/-- A list stands in another one at position `start`. -/
abbrev Stands {α : Type} (entries : List α) (start : Nat) (xs : List α) : Prop :=
  Laid (fun i x => xs[i]? = some x) start entries

theorem Stands.extract_eq {α : Type} {entries xs : List α} {start : Nat}
    (h : Stands entries start xs) : xs.extract start (start + entries.length) = entries := by
  apply List.ext_getElem?
  intro k
  rw [List.extract_eq_take_drop, Nat.add_sub_cancel_left, List.getElem?_take, List.getElem?_drop]
  split
  case isTrue hk => rw [List.getElem?_eq_getElem hk, h k _ (List.getElem?_eq_getElem hk)]
  case isFalse hk => rw [List.getElem?_eq_none (Nat.le_of_not_lt hk)]

namespace Program

variable {p : Program} {inLoop : Bool} {b : Block inLoop} {start : Nat}

theorem nested_of_stands (h : Stands b.program start p) :
    Nested (p.extract start (start + b.size)) :=
  ⟨inLoop, b, h.extract_eq.symm⟩

theorem height_of_stands (h : Stands b.program start p) {n : Nat} (hn : n ≤ b.size) :
    p.height (start + n) = p.height start + depth (b.program.take n) := by
  have he := h.extract_eq
  rw [List.extract_eq_take_drop, Nat.add_sub_cancel_left] at he
  rw [height_add, ← he, List.take_take, Nat.min_eq_left (show n ≤ b.program.length from hn)]

/-- What is opened in a tree is closed at its end. -/
theorem height_lt_of_stands (h : Stands b.program start p) {i : Nat} {kind : BlockKind}
    (hi : start ≤ i) (hlt : i < start + b.size) (hr : p.roleAt i = some (.opener kind)) :
    p.height (start + b.size) < p.height (i + 1) := by
  obtain ⟨n, rfl⟩ := Nat.exists_eq_add_of_le hi
  have hend := height_of_stands h (Nat.le_refl b.size)
  have hn := height_of_stands h (n := n) (by omega)
  have hd := b.depth_take_program n
  rw [Block.size, List.take_length, b.depth_program] at hend
  rw [height_succ hr, Role.shift, Block.size]
  omega

/-! ## The loop around a position -/

/-- Ahead of `start`, a loop is open that is closed at `exit`, and no other one in it. -/
def Inside (p : Program) (start exit : Nat) : Prop :=
  ∃ opener, p.Matches .loop opener exit ∧ opener < start ∧
    ∀ i, opener < i → i < start → p.roleAt i = some (.opener .loop) →
      ∃ k, i < k ∧ k ≤ start ∧ p.height k < p.height (i + 1)

theorem Inside.step {exit : Nat} (h : p.Inside start exit)
    (hr : p.roleAt start ≠ some (.opener .loop)) : p.Inside (start + 1) exit := by
  obtain ⟨opener, hm, ho, hmax⟩ := h
  refine ⟨opener, hm, by omega, fun i hi hlt hri => ?_⟩
  rcases Nat.lt_succ_iff_lt_or_eq.mp hlt with hlt | rfl
  · obtain ⟨k, hk, hle, hh⟩ := hmax i hi hlt hri
    exact ⟨k, hk, by omega, hh⟩
  · exact absurd hri hr

theorem Inside.behind {exit : Nat} (h : p.Inside start exit) (hb : Stands b.program start p) :
    p.Inside (start + b.size) exit := by
  obtain ⟨opener, hm, ho, hmax⟩ := h
  refine ⟨opener, hm, by omega, fun i hi hlt hri => ?_⟩
  rcases Nat.lt_or_ge i start with hs | hs
  · obtain ⟨k, hk, hle, hh⟩ := hmax i hi hs hri
    exact ⟨k, hk, by omega, hh⟩
  · exact ⟨start + b.size, hlt, Nat.le_refl _, height_lt_of_stands hb hs hlt hri⟩

theorem Inside.leaves {exit : Nat} (h : p.Inside start exit) (he : start < exit) :
    p.Leaves start exit := by
  obtain ⟨opener, hm, ho, hmax⟩ := h
  refine ⟨opener, hm, ho, he, fun i exit' hm' hi he' => Nat.le_of_not_lt fun hlt => ?_⟩
  obtain ⟨k, hk, hle, hh⟩ := hmax i hlt hi hm'.opener
  have := hm'.le_height hk (by omega)
  omega

theorem Matches.inside {exit : Nat} (h : p.Matches .loop start exit) : p.Inside (start + 1) exit :=
  ⟨start, h, Nat.lt_succ_self _, fun i hi hlt => by omega⟩

/-- A tree of this size at `start` has a loop around it that is closed behind it. -/
def Around (p : Program) (inLoop : Bool) (start size exit : Nat) : Prop :=
  inLoop = true → p.Inside start exit ∧ start + size ≤ exit

theorem Around.step {size size' exit : Nat} (h : p.Around inLoop start size exit)
    (hr : p.roleAt start ≠ some (.opener .loop)) (hs : size' + 1 ≤ size) :
    p.Around inLoop (start + 1) size' exit := by
  intro hl
  obtain ⟨hin, hle⟩ := h hl
  exact ⟨hin.step hr, by omega⟩

theorem Around.behind {next size size' exit : Nat} (h : p.Around inLoop start size exit)
    (hb : Stands b.program start p) (hn : start + b.size = next) (hs : b.size + size' ≤ size) :
    p.Around inLoop next size' exit := by
  intro hl
  obtain ⟨hin, hle⟩ := h hl
  exact ⟨hn ▸ hin.behind hb, by omega⟩

end Program

/-! ## The jumps of a tree -/

namespace Block

theorem matches_of_stands {p : Program} {inLoop : Bool} {body : Block inLoop}
    {kind : BlockKind} {opener : Part (.opener kind)} {closer : Part (.closer kind)}
    {rest : Program} {start : Nat}
    (h : Stands (opener.1 :: (body.program ++ closer.1 :: rest)) start p) :
    p.Matches kind start (start + 1 + body.size) := by
  obtain ⟨ho, hb, hc, -⟩ := by
    simpa only [laid_cons, laid_append] using h
  exact ⟨by simp [Program.roleAt, ho, opener.2], by simp [Program.roleAt, size, hc, closer.2],
    by omega, Program.nested_of_stands hb⟩

theorem stands_append {p : Program} {inLoop : Bool} {b c : Block inLoop} {start : Nat}
    (h : Stands (b.append c).program start p) : Stands b.program start p := by
  rw [program_append] at h
  exact (laid_append.mp h).1

theorem laid_jumpAt {p : Program} {inLoop : Bool} (b : Block inLoop) (start exit : Nat)
    (hb : Stands b.program start p) (ha : p.Around inLoop start b.size exit) :
    Laid (fun i code => p.JumpAt i code.jump) start (b.codes start exit) := by
  induction b generalizing start exit with
  | done => exact laid_nil
  | plain i rest ih =>
    obtain ⟨hi, hrest⟩ := laid_cons.mp hb
    have hr : p.roleAt start = some .plain := by simp [Program.roleAt, hi, i.2]
    have hjump : p.JumpAt start 0 := by simp [Program.JumpAt, hr]
    exact laid_cons.mpr ⟨hjump, ih _ _ hrest (ha.step (by simp [hr]) (by simp))⟩
  | conditional opener body closer rest ihb ihr =>
    have hm := matches_of_stands hb
    have hnode := stands_append (b := conditional opener body closer .done) hb
    obtain ⟨-, hbody, -, hrest⟩ := by simpa only [program, laid_cons, laid_append] using hb
    simp only [codes, laid_cons, laid_append, length_codes]
    refine ⟨?_, ihb _ _ hbody ?_, ?_, ihr _ _ hrest ?_⟩
    · simpa [Program.JumpAt, hm.opener] using hm
    · exact ha.step (by simp [hm.opener]) (by simp; omega)
    · simp [Program.JumpAt, hm.closer]
    · exact ha.behind hnode (by rw [size_conditional, size_done]; omega) (by simp; omega)
  | loop opener body closer rest ihb ihr =>
    have hm := matches_of_stands hb
    have hnode := stands_append (b := loop opener body closer .done) hb
    obtain ⟨-, hbody, -, hrest⟩ := by simpa only [program, laid_cons, laid_append] using hb
    simp only [codes, laid_cons, laid_append, length_codes]
    refine ⟨?_, ihb _ _ hbody ?_, ?_, ihr _ _ hrest ?_⟩
    · simpa [Program.JumpAt, hm.opener] using hm
    · exact fun _ => ⟨hm.inside, Nat.le_refl _⟩
    · simpa [Program.JumpAt, hm.closer] using hm
    · exact ha.behind hnode (by rw [size_loop, size_done]; omega) (by simp; omega)
  | leave i rest ih =>
    obtain ⟨hi, hrest⟩ := laid_cons.mp hb
    obtain ⟨h, hle⟩ := ha rfl
    have hr : p.roleAt start = some .leaver := by simp [Program.roleAt, hi, i.2]
    have hjump : p.JumpAt start exit := by
      simpa [Program.JumpAt, hr] using h.leaves (by rw [size_leave] at hle; omega)
    exact laid_cons.mpr ⟨hjump, ih _ _ hrest (ha.step (by simp [hr]) (by simp))⟩

/-! ## The instructions of a tree -/

theorem map_instruction_codes {inLoop : Bool} (b : Block inLoop) (start exit : Nat) :
    (b.codes start exit).map Code.instruction = b.program.map Instruction.canonical := by
  induction b generalizing start exit with
  | done => rfl
  | plain i rest ih => simp [codes, program, ih]
  | conditional opener body closer rest ihb ihr =>
    have ho := Instruction.canonical_of_role (i := opener.1) (by simp [opener.2])
    have hc := Instruction.canonical_of_role (i := closer.1) (by simp [closer.2])
    rw [Operator.eq_closer_of_role closer.2] at hc
    simp [codes, program, ihb, ihr, ho, hc, BlockKind.closer]
  | loop opener body closer rest ihb ihr =>
    have ho := Instruction.canonical_of_role (i := opener.1) (by simp [opener.2])
    have hc := Instruction.canonical_of_role (i := closer.1) (by simp [closer.2])
    rw [Operator.eq_whileNotZero_of_role opener.2] at ho
    rw [Operator.eq_closer_of_role closer.2] at hc
    simp [codes, program, ihb, ihr, ho, hc, BlockKind.closer]
  | leave i rest ih =>
    have hi := Instruction.canonical_of_role (i := i.1) (by simp [i.2])
    rw [Operator.eq_leaveLoop_of_role i.2] at hi
    simp [codes, program, ih, hi]

end Block

/-! ## The assembler -/

namespace Assembler

/-- A program that is assembled gets one code for each instruction, which holds the
instruction and the one jump that the brackets give to it, and nothing stays behind. -/
theorem jumpAt_of_finish {p : Program} {a a' : Assembler} {codes : Codes}
    (hp : placeAll p {} = (.ok (), a)) (hf : a.finish = (.ok codes, a')) :
    codes.size = p.length ∧
      (∀ k i, p[k]? = some i → ∃ code, codes[k]? = some code ∧ code.instruction = i.canonical ∧
        ∀ jump, p.JumpAt k jump ↔ jump = code.jump) ∧
      a' = {} := by
  obtain ⟨b, rfl, rfl, rfl⟩ := exists_block_of_finish hp hf
  refine ⟨by simp [Block.size], fun k i hk => ?_, rfl⟩
  have hstands : Stands b.program 0 b.program := by
    intro j x hj
    rwa [Nat.zero_add]
  have haround : b.program.Around false 0 b.size 0 := by
    intro h
    cases h
  have hjumps := b.laid_jumpAt 0 0 hstands haround
  have hinstr := congrArg (·[k]?) (b.map_instruction_codes 0 0)
  rw [List.getElem?_map, List.getElem?_map, hk, Option.map_some] at hinstr
  obtain ⟨code, hcode, hi⟩ := Option.map_eq_some_iff.mp hinstr
  have hj := hjumps k code hcode
  rw [Nat.zero_add] at hj
  exact ⟨code, by simpa using hcode, hi, fun jump =>
    ⟨fun h => Program.jumpAt_unique h hj, fun h => h ▸ hj⟩⟩

/-- A loop whose body holds another loop with a break, and a break in a conditional. -/
theorem jumpAt_of_finish_breaks :
    let p : Program :=
      [⟨.whileNotZero, 0⟩, ⟨.whileNotZero, 0⟩, ⟨.leaveLoop, 0⟩, ⟨.endWhile, 0⟩,
        ⟨.ifNotZero, 0⟩, ⟨.leaveLoop, 0⟩, ⟨.endIf, 0⟩, ⟨.endWhile, 0⟩]
    let codes : Codes :=
      #[⟨⟨.whileNotZero, 0⟩, 7⟩, ⟨⟨.whileNotZero, 0⟩, 3⟩, ⟨⟨.leaveLoop, 0⟩, 3⟩,
        ⟨⟨.endWhile, 0⟩, 1⟩, ⟨⟨.ifNotZero, 0⟩, 6⟩, ⟨⟨.leaveLoop, 0⟩, 7⟩,
        ⟨⟨.endIf, 0⟩, 0⟩, ⟨⟨.endWhile, 0⟩, 0⟩]
    placeAll p {} = (.ok (), ⟨codes, [], []⟩) ∧ finish ⟨codes, [], []⟩ = (.ok codes, {}) ∧
      p.JumpAt 2 3 ∧ p.JumpAt 5 7 ∧ p.JumpAt 7 0 := by
  intro p codes
  have hp : placeAll p {} = (.ok (), ⟨codes, [], []⟩) := by rfl
  have hf : finish ⟨codes, [], []⟩ = (.ok codes, {}) := by rfl
  obtain ⟨-, hcodes, -⟩ := jumpAt_of_finish hp hf
  refine ⟨hp, hf, ?_, ?_, ?_⟩
  · obtain ⟨_, hc, -, hj⟩ := hcodes 2 _ rfl
    cases hc
    exact (hj 3).mpr rfl
  · obtain ⟨_, hc, -, hj⟩ := hcodes 5 _ rfl
    cases hc
    exact (hj 7).mpr rfl
  · obtain ⟨_, hc, -, hj⟩ := hcodes 7 _ rfl
    cases hc
    exact (hj 0).mpr rfl

end Assembler

end NumNum
