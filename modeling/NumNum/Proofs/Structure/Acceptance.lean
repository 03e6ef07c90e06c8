import NumNum.Proofs.Machine.Meaning
import NumNum.Proofs.Structure.OpenBlocks
import NumNum.Proofs.Structure.Refusal

/-!
# Programs that are accepted

The assembler accepts the programs of trees and no others. `Program.Refused` says why a
program is none of them, by its continuations and its open blocks alone, and the assembler
gives that reason (`Program.assemble_eq_error_iff`). So does the interpreter, before its
machine has done anything (`Interpreter.refuses_iff`).
-/

namespace NumNum

namespace Program

/-- The program is that of a tree: each block is closed, and each break is in a loop. -/
def Grammatical (p : Program) : Prop := ∃ b : Block false, b.program = p

/-- Some continuation makes the program grammatical. -/
def Repairable (p : Program) : Prop := ∃ rest, Grammatical (p ++ rest)

/-- Why an instruction does not fit behind a program. -/
inductive Rejects (p : Program) (i : Instruction) : StructureError → Prop where
  | closer {kind : BlockKind} (hr : i.operator.role = .closer kind) (h : ¬ p.InnermostOpen kind) :
      p.Rejects i (.unmatched kind.closer)
  | leaver (hr : i.operator.role = .leaver) (h : ∀ k, ¬ p.OpenAt .loop k) :
      p.Rejects i .breakOutsideLoop

/-- Why a program is not grammatical: the first instruction that no continuation repairs does
not fit, or there is none and some blocks stay open. -/
inductive Refused (p : Program) : StructureError → Prop where
  | rejected {before rest : Program} {i : Instruction} {e : StructureError}
      (hp : p = before ++ i :: rest) (hb : before.Repairable) (hi : ¬ Repairable (before ++ [i]))
      (h : before.Rejects i e) : p.Refused e
  | unclosed (hp : p.Repairable) (h : ¬ p.Grammatical) : p.Refused (.unclosed p.openCount)

end Program

/-! ## What the assembler takes -/

namespace Assembler

variable {p : Program} {i : Instruction} {a a' : Assembler} {e : StructureError}

theorem exists_placeAll_of_append {q : Program} (h : placeAll (p ++ q) a = (.ok (), a')) :
    ∃ a'', placeAll p a = (.ok (), a'') ∧ placeAll q a'' = (.ok (), a') := by
  rw [placeAll_append] at h
  rcases hp : placeAll p a with ⟨_ | _, a''⟩
  · rw [hp] at h
    cases h
  · rw [hp] at h
    exact ⟨a'', rfl, h⟩

theorem exists_place_of_error (h : placeAll p a = (.error e, a')) :
    ∃ before i rest a'', p = before ++ i :: rest ∧ placeAll before a = (.ok (), a'') ∧
      a''.place i = (.error e, a') := by
  induction p generalizing a with
  | nil => cases h
  | cons i p ih =>
    rw [placeAll] at h
    rcases hi : a.place i with ⟨_ | _, a₁⟩
    · rw [hi] at h
      exact ⟨[], i, p, a, rfl, rfl, hi.trans h⟩
    · rw [hi] at h
      obtain ⟨before, j, rest, a₂, rfl, hb, hj⟩ := ih h
      exact ⟨i :: before, j, rest, a₂, rfl, by rw [placeAll_cons_of_place hi, hb], hj⟩

theorem placeAll_singleton (i : Instruction) (a : Assembler) : placeAll [i] a = a.place i := by
  rw [placeAll]
  rcases a.place i with ⟨_ | _, a'⟩ <;> rfl

end Assembler

namespace Opening

variable {inLoop : Bool}

/-- The open blocks can be closed one by one. -/
theorem repairable_append (z : Opening inLoop) (b : Block inLoop) :
    Program.Repairable (z.program ++ b.program) := by
  induction z with
  | top before => exact ⟨[], before.append b, by rw [Block.program_append, List.append_nil]; rfl⟩
  | conditional outer opener before ih =>
    let closer : Part (.closer .conditional) := ⟨⟨.endIf, 0⟩, rfl⟩
    obtain ⟨rest, hrest⟩ := ih (.conditional opener (before.append b) closer .done)
    exact ⟨closer.1 :: rest, by simpa [program, Block.program, Block.program_append] using hrest⟩
  | loop outer opener before ih =>
    let closer : Part (.closer .loop) := ⟨⟨.endWhile, 0⟩, rfl⟩
    obtain ⟨rest, hrest⟩ := ih (.loop opener (before.append b) closer .done)
    exact ⟨closer.1 :: rest, by simpa [program, Block.program, Block.program_append] using hrest⟩

end Opening

/-! ## What does not fit -/

theorem Nesting.result_eq_error_iff {refusal : Option StructureError} {e : StructureError} :
    result refusal = .error e ↔ refusal = some e := by
  cases refusal <;> simp [result]

/-- The kinds of the open blocks tell what does not fit behind them, and why. -/
theorem Program.Opens.rejects_iff {p : Program} {opens : List (Nat × BlockKind)}
    (h : p.Opens opens) {i : Instruction} {e : StructureError} :
    p.Rejects i e ↔ (Nesting.take i (opens.map Prod.snd)).1 = some e := by
  constructor
  · intro hi
    unfold Nesting.take
    cases hi with
    | closer hr hk =>
      rw [h.innermostOpen_iff] at hk
      rw [hr]
      exact if_neg hk
    | leaver hr hk =>
      have hl : .loop ∉ opens.map Prod.snd :=
        fun hl => not_exists.mpr hk (h.exists_openAt_iff.mpr hl)
      rw [hr]
      exact if_neg hl
  · intro ht
    unfold Nesting.take at ht
    cases hr : i.operator.role with
    | opener kind =>
      rw [hr] at ht
      cases ht
    | closer kind =>
      rw [hr] at ht
      dsimp only at ht
      by_cases hk : (opens.map Prod.snd).head? = some kind
      · rw [if_pos hk] at ht
        cases ht
      · rw [if_neg hk] at ht
        cases ht
        exact .closer hr fun ho => hk (h.innermostOpen_iff.mp ho)
    | leaver =>
      rw [hr] at ht
      dsimp only at ht
      by_cases hl : .loop ∈ opens.map Prod.snd
      · rw [if_pos hl] at ht
        cases ht
      · rw [if_neg hl] at ht
        cases ht
        exact .leaver hr fun k hk => hl (h.exists_openAt_iff.mp ⟨k, hk⟩)
    | plain =>
      rw [hr] at ht
      cases ht

/-- The assembler refuses the instructions that do not fit, and says why. -/
theorem Opening.place_eq_error_iff {inLoop : Bool} (z : Opening inLoop) {i : Instruction}
    {e : StructureError} : (z.assembler.place i).1 = .error e ↔ z.program.Rejects i e := by
  obtain ⟨opens, ho, hb⟩ := z.opens_program
  rw [(z.assembler.place_eq_take i).1, Nesting.result_eq_error_iff, ho.rejects_iff, hb]

/-! ## Accepted programs -/

namespace Program

variable {p : Program} {a : Assembler} {e : StructureError}

/-- What the assembler takes instruction by instruction can be continued to a tree. -/
theorem repairable_iff : p.Repairable ↔ ∃ a, Assembler.placeAll p {} = (.ok (), a) := by
  constructor
  · rintro ⟨rest, b, hb⟩
    have hp := Assembler.placeAll_program b {} nofun
    rw [hb] at hp
    obtain ⟨a, ha, -⟩ := Assembler.exists_placeAll_of_append hp
    exact ⟨a, ha⟩
  · rintro ⟨a, ha⟩
    obtain ⟨_, z, rfl, -⟩ := Opening.exists_of_placeAll_empty ha
    simpa [Block.program] using z.repairable_append .done

theorem repairable_singleton_iff {before : Program} {i : Instruction}
    (h : Assembler.placeAll before {} = (.ok (), a)) :
    Repairable (before ++ [i]) ↔ (a.place i).1 = .ok () := by
  rw [repairable_iff, Assembler.placeAll_append, h]
  dsimp only
  rw [Assembler.placeAll_singleton]
  constructor
  · rintro ⟨a', ha'⟩
    rw [ha']
  · intro ha
    exact ⟨_, Prod.ext ha rfl⟩

theorem grammatical_iff : p.Grammatical ↔ ∃ codes, p.assemble = .ok codes := by
  constructor
  · rintro ⟨b, rfl⟩
    exact ⟨_, b.assemble_program⟩
  · rintro ⟨codes, h⟩
    unfold assemble at h
    rcases hp : Assembler.placeAll p {} with ⟨_ | _, a⟩
    · rw [hp] at h
      cases h
    · rw [hp] at h
      obtain ⟨b, hb, -⟩ := exists_block_of_finish hp (Prod.ext h rfl)
      exact ⟨b, hb.symm⟩

theorem not_grammatical_iff : ¬ p.Grammatical ↔ ∃ e, p.assemble = .error e := by
  rw [grammatical_iff]
  cases p.assemble with
  | error e => simp
  | ok codes => simp

/-- At the end of a program the assembler misses a closer for every open block. -/
theorem finish_of_not_grammatical (hp : Assembler.placeAll p {} = (.ok (), a))
    (h : ¬ p.Grammatical) : a.finish.1 = .error (.unclosed p.openCount) := by
  rw [grammatical_iff, assemble, hp] at h
  obtain ⟨_, z, rfl, rfl⟩ := Opening.exists_of_placeAll_empty hp
  obtain ⟨opens, ho, hb⟩ := z.opens_program
  unfold Assembler.finish at h ⊢
  by_cases hz : z.assembler.blocks = []
  · dsimp only at h
    rw [if_pos hz] at h
    exact absurd ⟨_, rfl⟩ h
  · rw [if_neg hz, ho.openCount_eq, ← hb, List.length_map]

/-- What does not fit behind a repairable program is where the assembler stops. -/
theorem assemble_of_rejects {before : Program} {i : Instruction} (hb : before.Repairable)
    (h : before.Rejects i e) (rest : Program) : assemble (before ++ i :: rest) = .error e := by
  obtain ⟨a, ha⟩ := repairable_iff.mp hb
  obtain ⟨_, z, rfl, rfl⟩ := Opening.exists_of_placeAll_empty ha
  have hi := z.place_eq_error_iff.mpr h
  rw [assemble, Assembler.placeAll_append, ha]
  dsimp only
  rw [Assembler.placeAll]
  rcases hz : z.assembler.place i with ⟨_ | _, a⟩
  · rw [hz] at hi
    cases hi
    rfl
  · rw [hz] at hi
    cases hi

theorem refused_of_placeAll (h : Assembler.placeAll p {} = (.error e, a)) : p.Refused e := by
  obtain ⟨before, i, rest, a', rfl, hb, hi⟩ := Assembler.exists_place_of_error h
  obtain ⟨_, z, rfl, rfl⟩ := Opening.exists_of_placeAll_empty hb
  have hr : ¬ Repairable (z.program ++ [i]) := by
    rw [repairable_singleton_iff hb, hi]
    exact nofun
  exact .rejected rfl (repairable_iff.mpr ⟨_, hb⟩) hr (z.place_eq_error_iff.mp (by rw [hi]))

/-- The assembler refuses what is not grammatical, and says why. -/
theorem assemble_eq_error_iff : p.assemble = .error e ↔ p.Refused e := by
  constructor
  · intro h
    have hg := not_grammatical_iff.mpr ⟨e, h⟩
    unfold assemble at h
    rcases hp : Assembler.placeAll p {} with ⟨e' | _, a⟩
    · rw [hp] at h
      cases h
      exact refused_of_placeAll hp
    · rw [hp] at h
      cases (finish_of_not_grammatical hp hg).symm.trans h
      exact .unclosed (repairable_iff.mpr ⟨a, hp⟩) hg
  · intro h
    cases h with
    | @rejected before rest i e hp hb _ hi =>
      rw [hp]
      exact assemble_of_rejects hb hi rest
    | unclosed hp hg =>
      obtain ⟨a, ha⟩ := repairable_iff.mp hp
      rw [assemble, ha]
      exact finish_of_not_grammatical ha hg

end Program

/-! ## The interpreter -/

namespace Interpreter

variable {p : Program} {e : StructureError}

/-- At an instruction that is refused the interpreter stops, and the machine does nothing. -/
theorem translate_of_placeAll_error (fuel : Nat) {a a' : Assembler} (m : Machine)
    (h : Assembler.placeAll p a = (.error e, a')) :
    let handled := (backend fuel).translate p ⟨a, m⟩
    handled.outcome = .failed (.structural e) ∧ handled.state = ⟨a', m⟩ := by
  have ht := translate_eq fuel p a m
  dsimp only at ht ⊢
  rw [h] at ht
  exact Prod.mk.inj ht

theorem translate_of_finish_error (fuel : Nat) {a a' a'' : Assembler} (m : Machine)
    (h : Assembler.placeAll p a = (.ok (), a')) (hf : a'.finish = (.error e, a'')) :
    let handled := (backend fuel).translate p ⟨a, m⟩
    handled.outcome = .failed (.structural e) ∧ handled.state = ⟨a'', m⟩ := by
  have ht := translate_eq fuel p a m
  dsimp only [runAssembled] at ht ⊢
  rw [h] at ht
  dsimp only at ht
  rw [hf] at ht
  exact Prod.mk.inj ht

/-- A program that cannot be assembled is refused, and the machine does nothing. -/
theorem translate_of_error (fuel : Nat) (m : Machine) (h : p.assemble = .error e) :
    let handled := (backend fuel).translate p { machine := m }
    handled.outcome = .failed (.structural e) ∧ handled.state.machine = m := by
  unfold Program.assemble at h
  rcases hp : Assembler.placeAll p {} with ⟨e' | _, a⟩
  · rw [hp] at h
    cases h
    obtain ⟨ho, hs⟩ := translate_of_placeAll_error fuel m hp
    exact ⟨ho, congrArg machine hs⟩
  · rw [hp] at h
    dsimp only at h
    rcases hf : a.finish with ⟨_ | codes, a'⟩
    · rw [hf] at h
      cases h
      obtain ⟨ho, hs⟩ := translate_of_finish_error fuel m hp hf
      exact ⟨ho, congrArg machine hs⟩
    · rw [hf] at h
      cases h

theorem translate_eq_failed_iff (fuel : Nat) (m : Machine) :
    ((backend fuel).translate p { machine := m }).outcome = .failed (.structural e) ↔
      p.Refused e := by
  rw [← Program.assemble_eq_error_iff]
  constructor
  · intro h
    cases ha : p.assemble with
    | error e' =>
      rw [(translate_of_error fuel m ha).1] at h
      cases h
      rfl
    | ok codes =>
      obtain ⟨b, rfl⟩ := Program.grammatical_iff.mpr ⟨codes, ha⟩
      have hb := congrArg Prod.fst (b.translate_program fuel m)
      dsimp only at hb
      rw [← Outcome.refusal?_eq_some_iff, hb, refusal?_outcomeOf] at h
      cases h
  · exact fun h => (translate_of_error fuel m h).1

/-- A new interpreter refuses a program for its structure exactly if the program is not
grammatical, and then for the reason that the program gives. Neither does its machine do
anything for such a program, nor does any interpreter for a source that is not decoded. -/
theorem refuses_iff (fuel : Nat) (m : Machine) :
    let translated (p : Program) := (backend fuel).translate p { machine := m }
    let compiled (source : Source) := (backend fuel).compile source
    (∀ p, (∃ e, (translated p).outcome = .failed (.structural e)) ↔ ¬ p.Grammatical) ∧
    (∀ p e, (translated p).outcome = .failed (.structural e) ↔ p.Refused e) ∧
    (∀ p, ¬ p.Grammatical → (translated p).state.machine = m) ∧
    (∀ source p, Program.ofSource source = .ok p → ¬ p.Grammatical →
      (∃ e, p.Refused e ∧
        (compiled source { machine := m }).outcome = .failed (.structural e)) ∧
      (compiled source { machine := m }).state.machine = m) ∧
    ∀ source e, Program.ofSource source = .error e → ∀ s,
      (compiled source s).outcome = .failed e ∧ (compiled source s).state = s := by
  refine ⟨fun p => ?_, fun p e => translate_eq_failed_iff fuel m, fun p h => ?_,
    fun source p hp h => ?_, fun source e he s => ?_⟩
  · rw [Program.not_grammatical_iff]
    constructor
    · rintro ⟨e, he⟩
      exact ⟨e, Program.assemble_eq_error_iff.mpr ((translate_eq_failed_iff fuel m).mp he)⟩
    · rintro ⟨e, he⟩
      exact ⟨e, (translate_of_error fuel m he).1⟩
  · obtain ⟨e, he⟩ := Program.not_grammatical_iff.mp h
    exact (translate_of_error fuel m he).2
  · obtain ⟨e, he⟩ := Program.not_grammatical_iff.mp h
    obtain ⟨ho, hm⟩ := translate_of_error fuel m he
    dsimp only [Backend.compile]
    rw [hp]
    exact ⟨⟨e, Program.assemble_eq_error_iff.mp he, ho⟩, hm⟩
  · dsimp only [Backend.compile]
    rw [he]
    exact ⟨rfl, rfl⟩

/-- An end of a conditional where a loop is open, and a loop and a conditional that stay open. -/
theorem refuses_iff_crossed :
    let crossed : Program := [⟨.ifZero, 0⟩, ⟨.whileNotZero, 0⟩, ⟨.endIf, 0⟩]
    let opened : Program := [⟨.ifZero, 0⟩, ⟨.endIf, 0⟩, ⟨.whileNotZero, 0⟩, ⟨.ifNotZero, 0⟩]
    crossed.Refused (.unmatched .endIf) ∧ ¬ crossed.Grammatical ∧ opened.Refused (.unclosed 2) := by
  intro crossed opened
  obtain ⟨hg, he, -⟩ := refuses_iff 1 { input := [], output := {} }
  exact ⟨(he crossed _).mp rfl, (hg crossed).mp ⟨_, rfl⟩, (he opened _).mp rfl⟩

end Interpreter

end NumNum
