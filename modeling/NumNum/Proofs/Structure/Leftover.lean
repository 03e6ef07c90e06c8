import NumNum.Proofs.Structure.Acceptance

/-!
# What a refused program leaves behind

A refused program does nothing to the machine, but the instructions ahead of the one that does
not fit stay in the assembler. What is submitted next is assembled behind them, and they run
with it (`Interpreter.taken_stays_of_refused`). So a new interpreter is new again only if the
program was refused for its first instruction.
-/

namespace NumNum

/-! ## Codes and instructions -/

namespace Assembler

variable {p : Program} {i : Instruction} {a a' : Assembler} {codes : Codes} {e : StructureError}

/-- The instructions of the codes, without their jumps. -/
def instructions (a : Assembler) : Program := a.codes.toList.map Code.instruction

theorem map_instruction_setJump (codes : Codes) (position target : Nat) :
    (setJump codes position target).toList.map Code.instruction =
      codes.toList.map Code.instruction := by
  apply List.ext_getElem?
  intro k
  rw [setJump, Array.toList_modify, List.getElem?_map, List.getElem?_map, List.getElem?_modify]
  cases codes.toList[k]? with
  | none => rfl
  | some code =>
    by_cases h : position = k
    · simp [h]
    · simp [h]

theorem map_instruction_foldl_setJump (positions : List Nat) (codes : Codes) (target : Nat) :
    (positions.foldl (fun codes position => setJump codes position target)
        codes).toList.map Code.instruction = codes.toList.map Code.instruction := by
  induction positions generalizing codes with
  | nil => rfl
  | cons position positions ih => rw [List.foldl_cons, ih, map_instruction_setJump]

/-- An instruction that is taken gets the next code. -/
theorem instructions_place (h : a.place i = (.ok (), a')) :
    a'.instructions = a.instructions ++ [i.canonical] := by
  obtain ⟨codes, conditionals, loops⟩ := a
  unfold place at h
  cases hr : i.operator.role with
  | opener kind =>
    have hi := Instruction.canonical_of_role (i := i) (by simp [hr])
    rw [hr] at h
    cases kind with
    | conditional =>
      cases h
      simp [openConditional, instructions, hi]
    | loop =>
      rw [Operator.eq_whileNotZero_of_role hr] at hi
      cases h
      simp [openLoop, instructions, hi]
  | closer kind =>
    have hi := Instruction.canonical_of_role (i := i) (by simp [hr])
    rw [Operator.eq_closer_of_role hr] at hi
    rw [hr] at h
    cases kind with
    | conditional =>
      rcases conditionals with _ | ⟨opener, conditionals⟩
      · cases loops <;> cases h
      · cases h
        simp [instructions, map_instruction_setJump, hi, BlockKind.closer]
    | loop =>
      rcases conditionals with _ | ⟨opener, conditionals⟩
      · rcases loops with _ | ⟨⟨opener, breaks, around⟩, loops⟩
        · cases h
        · cases h
          have hc := map_instruction_foldl_setJump (opener :: breaks) codes codes.size
          rw [List.foldl_cons] at hc
          simp [instructions, hc, hi, BlockKind.closer]
      · cases h
  | leaver =>
    have hi := Instruction.canonical_of_role (i := i) (by simp [hr])
    rw [Operator.eq_leaveLoop_of_role hr] at hi
    rw [hr] at h
    rcases loops with _ | ⟨loop, loops⟩
    · cases h
    · cases h
      simp [instructions, hi]
  | plain =>
    rw [hr] at h
    cases h
    simp [push, append, instructions]

theorem instructions_placeAll (h : placeAll p a = (.ok (), a')) :
    a'.instructions = a.instructions ++ p.map Instruction.canonical := by
  induction p generalizing a with
  | nil =>
    cases h
    exact (List.append_nil _).symm
  | cons i p ih =>
    rw [placeAll] at h
    rcases hi : a.place i with ⟨_ | _, a''⟩
    · rw [hi] at h
      cases h
    · rw [hi] at h
      rw [ih h, instructions_place hi, List.map_cons, List.append_assoc]
      rfl

theorem eq_of_finish (h : a.finish = (.ok codes, a')) : codes = a.codes ∧ a' = {} := by
  unfold finish at h
  split at h
  · cases h
    exact ⟨rfl, rfl⟩
  · cases h

theorem eq_of_finish_error (h : a.finish = (.error e, a')) : a' = a := by
  unfold finish at h
  split at h
  · cases h
  · cases h
    rfl

/-- An instruction that is refused gets no code, and changes nothing unless it is a closer that
takes an open block off. -/
theorem eq_of_place_error (h : a.place i = (.error e, a')) :
    a'.codes = a.codes ∧ (((∃ closer, e = .unmatched closer) → a.blocks = []) → a' = a) := by
  obtain ⟨codes, conditionals, loops⟩ := a
  unfold place at h
  cases hr : i.operator.role with
  | opener kind =>
    rw [hr] at h
    cases kind <;> cases h
  | closer kind =>
    rw [hr] at h
    cases kind with
    | conditional =>
      rcases conditionals with _ | ⟨opener, conditionals⟩
      · rcases loops with _ | ⟨loop, loops⟩
        · cases h
          exact ⟨rfl, fun _ => rfl⟩
        · cases h
          exact ⟨rfl, fun hb => absurd (hb ⟨_, rfl⟩) (List.cons_ne_nil _ _)⟩
      · cases h
    | loop =>
      rcases conditionals with _ | ⟨opener, conditionals⟩
      · rcases loops with _ | ⟨loop, loops⟩
        · cases h
          exact ⟨rfl, fun _ => rfl⟩
        · cases h
      · cases h
        exact ⟨rfl, fun hb => absurd (hb ⟨_, rfl⟩) (List.cons_ne_nil _ _)⟩
  | leaver =>
    rw [hr] at h
    rcases loops with _ | ⟨loop, loops⟩
    · cases h
      exact ⟨rfl, fun _ => rfl⟩
    · cases h
  | plain =>
    rw [hr] at h
    cases h

end Assembler

/-! ## The part that is taken -/

namespace Program

variable {p before rest : Program} {a : Assembler} {e : StructureError}

/-- The longest part in front of a program that some continuation makes grammatical. -/
structure Taken (p before : Program) : Prop where
  front : before <+: p
  repairable : before.Repairable
  longest : ∀ front : Program, front <+: p → front.Repairable → front <+: before

theorem Repairable.of_append (h : Repairable (before ++ rest)) : before.Repairable := by
  obtain ⟨behind, hg⟩ := h
  exact ⟨rest ++ behind, by rwa [← List.append_assoc]⟩

theorem taken_self (h : p.Repairable) : p.Taken p :=
  ⟨List.prefix_rfl, h, fun _ hf _ => hf⟩

/-- What is taken ends ahead of an instruction that no continuation repairs. -/
theorem taken_of_not_repairable {i : Instruction} (hb : before.Repairable)
    (hi : ¬ Repairable (before ++ [i])) : Taken (before ++ i :: rest) before := by
  refine ⟨List.prefix_append _ _, hb, fun front hf hr => ?_⟩
  rcases Nat.lt_or_ge before.length front.length with hlt | hle
  · have hi' : before ++ [i] <+: front := by
      refine List.prefix_of_prefix_length_le ⟨rest, by simp⟩ hf ?_
      rw [List.length_append, List.length_singleton]
      exact hlt
    obtain ⟨behind, rfl⟩ := hi'
    exact absurd hr.of_append hi
  · exact List.prefix_of_prefix_length_le hf (List.prefix_append _ _) hle

/-- The open blocks of the assembler are those of the program that it has taken. -/
theorem blocks_eq_nil_of_not_openAt (hp : Assembler.placeAll p {} = (.ok (), a))
    (h : ∀ kind k, ¬ p.OpenAt kind k) : a.blocks = [] := by
  obtain ⟨_, z, rfl, rfl⟩ := Opening.exists_of_placeAll_empty hp
  obtain ⟨opens, ho, hb⟩ := z.opens_program
  rcases opens with _ | ⟨⟨k, kind⟩, opens⟩
  · exact hb.symm
  · exact absurd (ho.openAt_iff.mpr List.mem_cons_self) (h kind k)

end Program

/-! ## The interpreter -/

namespace Interpreter

variable {p q before : Program} {a : Assembler} {e : StructureError}

/-- A new interpreter keeps the codes of what it has taken of a refused program. -/
theorem exists_taken_of_refused (fuel : Nat) (m : Machine) (h : p.Refused e) :
    ∃ (before : Program) (a a' : Assembler), p.Taken before ∧
      Assembler.placeAll before {} = (.ok (), a) ∧
      ((backend fuel).translate p { machine := m }).state = ⟨a', m⟩ ∧ a'.codes = a.codes ∧
      (((∃ closer, e = .unmatched closer) → a.blocks = []) → a' = a) := by
  have ha := Program.assemble_eq_error_iff.mpr h
  unfold Program.assemble at ha
  rcases hp : Assembler.placeAll p {} with ⟨e' | _, a'⟩
  · rw [hp] at ha
    cases ha
    obtain ⟨before, i, rest, a, rfl, hb, hi⟩ := Assembler.exists_place_of_error hp
    have hn : ¬ Program.Repairable (before ++ [i]) := by
      rw [Program.repairable_singleton_iff hb, hi]
      exact nofun
    have hr := Program.repairable_iff.mpr ⟨a, hb⟩
    exact ⟨before, a, a', Program.taken_of_not_repairable hr hn, hb,
      (translate_of_placeAll_error fuel m hp).2, Assembler.eq_of_place_error hi⟩
  · rw [hp] at ha
    dsimp only at ha
    rcases hf : a'.finish with ⟨e' | codes, a''⟩
    · cases Assembler.eq_of_finish_error hf
      exact ⟨p, a', a', Program.taken_self (Program.repairable_iff.mpr ⟨a', hp⟩), hp,
        (translate_of_finish_error fuel m hp hf).2, rfl, fun _ => rfl⟩
    · rw [hf] at ha
      cases ha

/-- What runs is what the assembler held, with the program behind it. -/
theorem exists_codes_of_not_refused (fuel : Nat) (a : Assembler) (m : Machine)
    (h : ((backend fuel).translate q ⟨a, m⟩).outcome.refusal? = none) :
    ∃ codes : Codes,
      codes.toList.map Code.instruction = a.instructions ++ q.map Instruction.canonical ∧
      ((backend fuel).translate q ⟨a, m⟩).outcome = outcomeOf (m.run fuel codes).ending ∧
      ((backend fuel).translate q ⟨a, m⟩).state = { machine := (m.run fuel codes).machine } := by
  have ht := translate_eq fuel q a m
  dsimp only [runAssembled, runCodes] at ht
  rcases hq : Assembler.placeAll q a with ⟨e | _, a'⟩
  · rw [hq] at ht
    rw [(Prod.mk.inj ht).1] at h
    cases h
  · rw [hq] at ht
    dsimp only at ht
    rcases hf : a'.finish with ⟨e | codes, a''⟩
    · rw [hf] at ht
      rw [(Prod.mk.inj ht).1] at h
      cases h
    · rw [hf] at ht
      obtain ⟨rfl, rfl⟩ := Assembler.eq_of_finish hf
      obtain ⟨ho, hs⟩ := Prod.mk.inj ht
      exact ⟨a'.codes, Assembler.instructions_placeAll hq, ho, hs⟩

/-- What the assembler has taken may have been submitted together with the next program. -/
theorem translate_append (fuel : Nat) (m : Machine)
    (h : Assembler.placeAll before {} = (.ok (), a)) (q : Program) :
    ((backend fuel).translate q ⟨a, m⟩).outcome =
        ((backend fuel).translate (before ++ q) { machine := m }).outcome ∧
      ((backend fuel).translate q ⟨a, m⟩).state =
        ((backend fuel).translate (before ++ q) { machine := m }).state := by
  have hb := translate_eq fuel (before ++ q) {} m
  dsimp only at hb
  rw [Assembler.placeAll_append, h] at hb
  exact Prod.mk.inj ((translate_eq fuel q a m).trans hb.symm)

/-- A program that a new interpreter refuses leaves the machine as it was, but the longest part
in front that can be continued to a grammatical program stays in the assembler. So the
interpreter is as before only if this part is empty. The next program that is not refused runs
with this part ahead of it, and unless a closer of the wrong kind has taken an open block off,
every next program comes to what the part and the program come to in a new interpreter. -/
theorem taken_stays_of_refused (fuel : Nat) (m : Machine) {p : Program} {e : StructureError}
    (h : p.Refused e) :
    let translated (p : Program) (s : Interpreter) := (backend fuel).translate p s
    let new : Interpreter := { machine := m }
    let left := (translated p new).state
    (translated p new).outcome = .failed (.structural e) ∧ left.machine = m ∧
    ∃ before : Program, p.Taken before ∧ (left = new ↔ before = []) ∧
      (∀ q, (∀ e', (translated q left).outcome ≠ .failed (.structural e')) →
        ∃ codes : Codes,
          codes.toList.map Code.instruction = (before ++ q).map Instruction.canonical ∧
          (translated q left).outcome = outcomeOf (m.run fuel codes).ending ∧
          (translated q left).state = { machine := (m.run fuel codes).machine }) ∧
      (((∃ closer, e = .unmatched closer) → ∀ kind k, ¬ before.OpenAt kind k) →
        ∀ q, (translated q left).outcome = (translated (before ++ q) new).outcome ∧
          (translated q left).state = (translated (before ++ q) new).state) := by
  intro translated new left
  obtain ⟨before, a, a', ht, hb, hs, hc, ha⟩ := exists_taken_of_refused fuel m h
  have hleft : left = ⟨a', m⟩ := hs
  have hi : a'.instructions = before.map Instruction.canonical := by
    rw [Assembler.instructions, hc]
    exact Assembler.instructions_placeAll hb
  have hsame : ((∃ closer, e = .unmatched closer) → ∀ kind k, ¬ before.OpenAt kind k) → a' = a :=
    fun ho => ha fun he => Program.blocks_eq_nil_of_not_openAt hb (ho he)
  refine ⟨(translate_eq_failed_iff fuel m).mpr h, by rw [hleft], before, ht, ?_, ?_, ?_⟩
  · rw [hleft]
    constructor
    · intro hn
      rw [(Interpreter.mk.inj hn).1] at hi
      exact List.map_eq_nil_iff.mp hi.symm
    · rintro rfl
      cases hb
      rw [ha fun _ => rfl]
  · intro q hq
    rw [hleft] at hq ⊢
    have hr : (translated q ⟨a', m⟩).outcome.refusal? = none :=
      Option.eq_none_iff_forall_ne_some.mpr fun e' he =>
        hq e' (Outcome.refusal?_eq_some_iff.mp he)
    rw [List.map_append, ← hi]
    exact exists_codes_of_not_refused fuel a' m hr
  · intro ho q
    rw [hleft, hsame ho]
    exact translate_append fuel m hb q

/-- A closer that closes nothing, behind two instructions that write a character. -/
theorem taken_stays_of_refused_closer :
    let p : Program := [⟨.constant8Bit, 65⟩, ⟨.outputCharacter, 0⟩, ⟨.endIf, 0⟩]
    let new : Interpreter := { machine := { input := [], output := {} } }
    p.Refused (.unmatched .endIf) ∧ ((backend 2).translate p new).state ≠ new := by
  intro p new
  have h : p.Refused (.unmatched .endIf) := Program.assemble_eq_error_iff.mp rfl
  obtain ⟨-, -, before, ht, hn, -⟩ := taken_stays_of_refused 2 new.machine h
  refine ⟨h, fun hs => ?_⟩
  have hr : Program.Repairable [⟨.constant8Bit, 65⟩] :=
    ⟨[], .plain ⟨⟨.constant8Bit, 65⟩, rfl⟩ .done, rfl⟩
  have hf := ht.longest [⟨.constant8Bit, 65⟩] ⟨[⟨.outputCharacter, 0⟩, ⟨.endIf, 0⟩], rfl⟩ hr
  rw [hn.mp hs] at hf
  exact absurd (List.prefix_nil.mp hf) (List.cons_ne_nil _ _)

/-- The empty program writes what the refused program would have written. -/
theorem translate_nil_of_refused :
    let p : Program := [⟨.constant8Bit, 65⟩, ⟨.outputCharacter, 0⟩, ⟨.endIf, 0⟩]
    let new : Interpreter := { machine := { input := [], output := {} } }
    let left := ((backend 2).translate p new).state
    ((backend 2).translate p new).outcome = .failed (.structural (.unmatched .endIf)) ∧
      ((backend 2).translate [] new).state.machine.output.written = #[] ∧
      ((backend 2).translate [] left).state.machine.output.written = #[65] :=
  ⟨rfl, rfl, rfl⟩

end Interpreter

end NumNum
