import NumNum.Proofs.Structure.Layout

/-!
# What the assembler has taken

While a program is being assembled, some of its blocks are still open. An `Opening` is
the part of a tree that is known by then, and `Opening.assembler` the state of the
assembler that goes with it. Every instruction that is accepted leads from an opening to
another one (`Opening.exists_of_placeAll`), so the programs that are assembled are the
programs of trees (`exists_block_of_finish`).
-/

namespace NumNum

/-- The beginning of a tree: the blocks that are still open, each with what stands in it. -/
inductive Opening : Bool → Type where
  | top (before : Block false) : Opening false
  | conditional {inLoop : Bool} (outer : Opening inLoop) (opener : Part (.opener .conditional))
      (before : Block inLoop) : Opening inLoop
  | loop {inLoop : Bool} (outer : Opening inLoop) (opener : Part (.opener .loop))
      (before : Block true) : Opening true

namespace Opening

variable {inLoop : Bool}

def program {inLoop : Bool} : Opening inLoop → Program
  | top before => before.program
  | conditional outer opener before => outer.program ++ opener.1 :: before.program
  | loop outer opener before => outer.program ++ opener.1 :: before.program

/-- An opening with a tree behind it, in the innermost block. -/
def extend {inLoop : Bool} : Opening inLoop → Block inLoop → Opening inLoop
  | top before, b => top (before.append b)
  | conditional outer opener before, b => conditional outer opener (before.append b)
  | loop outer opener before, b => loop outer opener (before.append b)

/-- The state of an assembler that has taken the instructions of an opening. -/
def assembler {inLoop : Bool} : Opening inLoop → Assembler
  | top before => ({} : Assembler).after before
  | conditional outer opener before =>
    (outer.assembler.openConditional opener.1.operator).after before
  | loop outer _ before => outer.assembler.openLoop.after before

theorem program_extend (z : Opening inLoop) (b : Block inLoop) :
    (z.extend b).program = z.program ++ b.program := by
  cases z <;> simp [extend, program, Block.program_append]

theorem assembler_extend (z : Opening inLoop) (b : Block inLoop) :
    (z.extend b).assembler = z.assembler.after b := by
  cases z <;> simp [extend, assembler, Assembler.after_append]

theorem loops_assembler_ne_nil : ∀ z : Opening true, z.assembler.loops ≠ []
  | conditional outer opener before =>
    Assembler.loops_after_ne_nil (a := outer.assembler.openConditional opener.1.operator)
      outer.loops_assembler_ne_nil before
  | loop _ _ _ => Assembler.loops_after_ne_nil (List.cons_ne_nil _ _) _

theorem loops_assembler_eq_nil : ∀ z : Opening false, z.assembler.loops = []
  | top _ => rfl
  | conditional outer opener before => by
    have h : (outer.assembler.openConditional opener.1.operator).loops = [] :=
      outer.loops_assembler_eq_nil
    simp [assembler, Assembler.after, h, Assembler.addBreaks]

end Opening

/-! ## What is refused -/

namespace Assembler

variable {i : Instruction} {a : Assembler}

theorem place_closeConditional_of_nil (hr : i.operator.role = .closer .conditional)
    (h : a.conditionals = []) : (a.place i).1 = .error (.unmatched .endIf) := by
  obtain ⟨codes, _, loops⟩ := a
  cases h
  rw [place, hr]
  cases loops <;> rfl

theorem place_closeLoop_of_ne_nil (hr : i.operator.role = .closer .loop)
    (h : a.conditionals ≠ []) : (a.place i).1 = .error (.unmatched .endWhile) := by
  obtain ⟨codes, conditionals, loops⟩ := a
  rw [place, hr]
  cases conditionals with
  | nil => exact absurd rfl h
  | cons c conditionals => rfl

theorem place_closeLoop_of_nil (hr : i.operator.role = .closer .loop) (h : a.loops = []) :
    (a.place i).1 = .error (.unmatched .endWhile) := by
  obtain ⟨codes, conditionals, _⟩ := a
  cases h
  rw [place, hr]
  cases conditionals <;> rfl

theorem place_leave_of_nil (hr : i.operator.role = .leaver) (h : a.loops = []) :
    (a.place i).1 = .error .breakOutsideLoop := by
  obtain ⟨codes, conditionals, _⟩ := a
  cases h
  rw [place, hr]
  rfl

theorem place_ne_ok {a' : Assembler} {e : StructureError} (h : (a.place i).1 = .error e) :
    a.place i ≠ (.ok (), a') := by
  intro hr
  rw [hr] at h
  cases h

end Assembler

/-! ## Every accepted instruction leads on -/

namespace Opening

variable {inLoop : Bool}

theorem exists_of_place {i : Instruction} {z : Opening inLoop} {a : Assembler}
    (h : z.assembler.place i = (.ok (), a)) :
    ∃ (inLoop' : Bool) (z' : Opening inLoop'),
      z'.program = z.program ++ [i] ∧ z'.assembler = a := by
  cases hr : i.operator.role with
  | opener kind =>
    cases kind with
    | conditional =>
      let opener : Part (.opener .conditional) := ⟨i, hr⟩
      rw [Assembler.place_conditional z.assembler opener, Prod.mk.injEq] at h
      exact ⟨inLoop, .conditional z opener .done, rfl, (Assembler.after_done _).trans h.2⟩
    | loop =>
      let opener : Part (.opener .loop) := ⟨i, hr⟩
      rw [Assembler.place_loop z.assembler opener, Prod.mk.injEq] at h
      exact ⟨true, .loop z opener .done, rfl, (Assembler.after_done _).trans h.2⟩
  | closer kind =>
    cases kind with
    | conditional =>
      let closer : Part (.closer .conditional) := ⟨i, hr⟩
      cases z with
      | conditional outer opener before =>
        rw [assembler, Assembler.place_endConditional _ opener before closer, Prod.mk.injEq] at h
        refine ⟨inLoop, outer.extend (.conditional opener before closer .done), ?_, ?_⟩
        · simp [program_extend, program, Block.program, closer]
        · rw [assembler_extend, h.2]
      | top before =>
        have he := Assembler.place_closeConditional_of_nil (a := assembler (.top before)) hr rfl
        exact absurd h (Assembler.place_ne_ok he)
      | loop outer opener before =>
        have he := Assembler.place_closeConditional_of_nil
          (a := assembler (.loop outer opener before)) hr rfl
        exact absurd h (Assembler.place_ne_ok he)
    | loop =>
      let closer : Part (.closer .loop) := ⟨i, hr⟩
      cases z with
      | loop outer opener before =>
        rename_i outside
        rw [assembler, @Assembler.place_endLoop outside _ opener before closer,
          Prod.mk.injEq] at h
        refine ⟨outside, outer.extend (.loop opener before closer .done), ?_, ?_⟩
        · simp [program_extend, program, Block.program, closer]
        · rw [assembler_extend, h.2]
      | top before =>
        have he := Assembler.place_closeLoop_of_nil (a := assembler (.top before)) hr rfl
        exact absurd h (Assembler.place_ne_ok he)
      | conditional outer opener before =>
        have he := Assembler.place_closeLoop_of_ne_nil
          (a := assembler (.conditional outer opener before)) hr (List.cons_ne_nil _ _)
        exact absurd h (Assembler.place_ne_ok he)
  | leaver =>
    cases inLoop with
    | true =>
      rw [Assembler.place_leave ⟨i, hr⟩ z.loops_assembler_ne_nil, Prod.mk.injEq] at h
      exact ⟨true, z.extend (.leave ⟨i, hr⟩ .done), program_extend z _, by rw [assembler_extend, h.2]⟩
    | false =>
      have he := Assembler.place_leave_of_nil hr z.loops_assembler_eq_nil
      exact absurd h (Assembler.place_ne_ok he)
  | plain =>
    rw [Assembler.place_plain z.assembler ⟨i, hr⟩, Prod.mk.injEq] at h
    exact ⟨inLoop, z.extend (.plain ⟨i, hr⟩ .done), program_extend z _, by rw [assembler_extend, h.2]⟩

theorem exists_of_placeAll {p : Program} {z : Opening inLoop} {a : Assembler}
    (h : Assembler.placeAll p z.assembler = (.ok (), a)) :
    ∃ (inLoop' : Bool) (z' : Opening inLoop'), z'.program = z.program ++ p ∧ z'.assembler = a := by
  induction p generalizing inLoop z with
  | nil => exact ⟨inLoop, z, (List.append_nil _).symm, (Prod.mk.injEq .. ▸ h).2⟩
  | cons i p ih =>
    rw [Assembler.placeAll] at h
    rcases hp : z.assembler.place i with ⟨_ | _, a'⟩
    · simp [hp] at h
    · simp only [hp] at h
      obtain ⟨_, z', hz', rfl⟩ := exists_of_place hp
      obtain ⟨_, z'', hz'', ha⟩ := ih h
      exact ⟨_, z'', by rw [hz'', hz', List.append_assoc]; rfl, ha⟩

theorem exists_of_placeAll_empty {p : Program} {a : Assembler}
    (h : Assembler.placeAll p {} = (.ok (), a)) :
    ∃ (inLoop : Bool) (z : Opening inLoop), z.program = p ∧ z.assembler = a :=
  exists_of_placeAll (z := .top .done) h

/-- Only without open blocks are the codes handed out, and the assembler is empty then. -/
theorem eq_top_of_finish {z : Opening inLoop} {codes : Codes} {a : Assembler}
    (h : z.assembler.finish = (.ok codes, a)) :
    ∃ b : Block false, z.program = b.program ∧ codes = (b.codes 0 0).toArray ∧ a = {} := by
  cases z with
  | top b =>
    rw [assembler, Assembler.finish_after, Prod.mk.injEq, Except.ok.injEq] at h
    exact ⟨b, rfl, h.1.symm, h.2.symm⟩
  | conditional outer opener before =>
    have hb : (assembler (.conditional outer opener before)).blocks ≠ [] := List.cons_ne_nil _ _
    rw [Assembler.finish, if_neg hb] at h
    cases h
  | loop outer opener before =>
    have hb : (assembler (.loop outer opener before)).blocks ≠ [] := List.cons_ne_nil _ _
    rw [Assembler.finish, if_neg hb] at h
    cases h

end Opening

/-- What is assembled is the program of a tree, and its codes are those of the tree. -/
theorem exists_block_of_finish {p : Program} {a a' : Assembler} {codes : Codes}
    (hp : Assembler.placeAll p {} = (.ok (), a)) (hf : a.finish = (.ok codes, a')) :
    ∃ b : Block false, p = b.program ∧ codes = (b.codes 0 0).toArray ∧ a' = {} := by
  obtain ⟨_, z, hz, rfl⟩ := Opening.exists_of_placeAll_empty hp
  obtain ⟨b, hb, hc⟩ := Opening.eq_top_of_finish hf
  exact ⟨b, hz.symm.trans hb, hc⟩

end NumNum
