import NumNum.Interpreter
import NumNum.Proofs.Lua.Emission

/-!
# What backends refuse

A call is refused for the kinds of the open blocks alone. `Nesting` keeps these kinds and
nothing else. The assembler and the Lua generator keep more, each in a form of its own, but
both refuse what `Nesting` refuses, after any calls and any refusals
(`Backend.refused_iff`).
-/

namespace NumNum

/-! ## Open blocks -/

namespace Nesting

/-- What an instruction does to the open blocks, innermost first, and why it is refused. A
closer takes the innermost block off, whatever its kind is. -/
def take (i : Instruction) (blocks : List BlockKind) : Option StructureError × List BlockKind :=
  match i.operator.role with
  | .opener kind => (none, kind :: blocks)
  | .closer kind =>
    (if blocks.head? = some kind then none else some (.unmatched kind.closer), blocks.tail)
  | .leaver => (if .loop ∈ blocks then none else some .breakOutsideLoop, blocks)
  | .plain => (none, blocks)

def ending (blocks : List BlockKind) : Option StructureError :=
  if blocks = [] then none else some (.unclosed blocks.length)

def answer : Call → List BlockKind → Option StructureError × List BlockKind
  | .start, blocks => (none, blocks)
  | .perform i, blocks => take i blocks
  | .finish, blocks => (ending blocks, blocks)

def result : Option StructureError → Except StructureError Unit
  | none => .ok ()
  | some e => .error e

/-- The answers to calls made one after another, also behind refused ones. -/
def answers : List Call → List BlockKind → List (Option StructureError)
  | [], _ => []
  | call :: calls, blocks => (answer call blocks).1 :: answers calls (answer call blocks).2

/-- Why a program is refused. -/
def check : Program → List BlockKind → Option StructureError
  | [], blocks => ending blocks
  | i :: p, blocks =>
    match take i blocks with
    | (none, blocks) => check p blocks
    | (some e, _) => some e

end Nesting

/-! ## Backends that follow the open blocks -/

def Outcome.refusal? : Outcome → Option StructureError
  | .failed (.structural e) => some e
  | _ => none

theorem Outcome.refusal?_eq_some_iff {outcome : Outcome} {e : StructureError} :
    outcome.refusal? = some e ↔ outcome = .failed (.structural e) := by
  unfold refusal?
  split
  · simp
  · rename_i h
    constructor
    · exact nofun
    · exact fun he => absurd he (h e)

namespace Backend

variable {σ : Type}

/-- The outcomes of calls made one after another, also behind failed ones. -/
def outcomes (b : Backend σ) : List Call → σ → List Outcome
  | [], _ => []
  | call :: calls, state =>
    (b.handle call state).outcome :: outcomes b calls (b.handle call state).state

/-- A backend that refuses calls as the open blocks tell that its states stand for. Up to the
end of a program, nothing else goes wrong. -/
structure Nests (b : Backend σ) (open? : σ → List BlockKind → Prop) : Prop where
  handle : ∀ {state blocks}, open? state blocks → ∀ call,
    (b.handle call state).outcome.refusal? = (Nesting.answer call blocks).1 ∧
      open? (b.handle call state).state (Nesting.answer call blocks).2
  done : ∀ {state blocks}, open? state blocks → ∀ call ≠ .finish,
    (Nesting.answer call blocks).1 = none → (b.handle call state).outcome = .done

variable {b : Backend σ} {open? : σ → List BlockKind → Prop} {s : σ} {blocks : List BlockKind}

theorem Nests.outcomes_eq (h : b.Nests open?) (hs : open? s blocks) (calls : List Call) :
    (b.outcomes calls s).map Outcome.refusal? = Nesting.answers calls blocks := by
  induction calls generalizing s blocks with
  | nil => rfl
  | cons call calls ih =>
    obtain ⟨hr, hs'⟩ := h.handle hs call
    rw [outcomes, List.map_cons, hr, ih hs', Nesting.answers]

theorem Nests.handleAll_eq (h : b.Nests open?) (hs : open? s blocks) (p : Program)
    (log : Array Event) :
    (b.handleAll (p.map .perform ++ [.finish]) log s).outcome.refusal? =
      Nesting.check p blocks := by
  induction p generalizing s blocks log with
  | nil =>
    have hr := (h.handle hs .finish).1
    rw [List.map_nil, List.nil_append, handleAll]
    cases ho : (b.handle .finish s).outcome <;> rw [ho] at hr <;> exact hr
  | cons i p ih =>
    obtain ⟨hr, hs'⟩ := h.handle hs (.perform i)
    have hd := h.done hs (.perform i) (by intro hi; cases hi)
    rw [Nesting.answer] at hr hs' hd
    rw [List.map_cons, List.cons_append, handleAll, Nesting.check]
    rcases ht : Nesting.take i blocks with ⟨_ | e, blocks'⟩
    · rw [ht] at hd hs'
      dsimp only
      rw [hd rfl]
      exact ih hs' _
    · rw [ht, Outcome.refusal?_eq_some_iff] at hr
      dsimp only
      rw [hr]
      rfl

theorem Nests.translate_eq (h : b.Nests open?) (hs : open? s blocks) (p : Program) :
    (b.translate p s).outcome.refusal? = Nesting.check p blocks := by
  have hd := h.done hs .start (by intro hi; cases hi) rfl
  have hs' := (h.handle hs .start).2
  rw [translate, Program.calls, List.cons_append, handleAll, hd]
  exact h.handleAll_eq hs' p _

end Backend

/-! ## The assembler -/

namespace Assembler

theorem closeConditional_eq (a : Assembler) :
    a.closeConditional.1 =
        (if a.blocks.head? = some .conditional then .ok () else .error (.unmatched .endIf)) ∧
      a.closeConditional.2.blocks = a.blocks.tail := by
  obtain ⟨codes, _ | ⟨opener, conditionals⟩, _ | ⟨loop, loops⟩⟩ := a <;>
    simp [closeConditional, blocks]

theorem closeLoop_eq (a : Assembler) :
    a.closeLoop.1 =
        (if a.blocks.head? = some .loop then .ok () else .error (.unmatched .endWhile)) ∧
      a.closeLoop.2.blocks = a.blocks.tail := by
  obtain ⟨codes, _ | ⟨opener, conditionals⟩, _ | ⟨loop, loops⟩⟩ := a <;>
    simp [closeLoop, blocks]

theorem leave_eq (a : Assembler) :
    a.leave.1 = (if .loop ∈ a.blocks then .ok () else .error .breakOutsideLoop) ∧
      a.leave.2.blocks = a.blocks := by
  obtain ⟨codes, conditionals, _ | ⟨loop, loops⟩⟩ := a <;> simp [leave, blocks]

/-- An instruction does to the open blocks of the assembler what it does to their kinds. -/
theorem place_eq_take (a : Assembler) (i : Instruction) :
    (a.place i).1 = Nesting.result (Nesting.take i a.blocks).1 ∧
      (a.place i).2.blocks = (Nesting.take i a.blocks).2 := by
  unfold place Nesting.take
  cases i.operator.role with
  | opener kind =>
    cases kind with
    | conditional => exact ⟨rfl, rfl⟩
    | loop => exact ⟨rfl, rfl⟩
  | closer kind =>
    cases kind with
    | conditional =>
      obtain ⟨hr, hb⟩ := closeConditional_eq a
      refine ⟨hr.trans ?_, hb⟩
      dsimp only
      split <;> rfl
    | loop =>
      obtain ⟨hr, hb⟩ := closeLoop_eq a
      refine ⟨hr.trans ?_, hb⟩
      dsimp only
      split <;> rfl
  | leaver =>
    obtain ⟨hr, hb⟩ := leave_eq a
    refine ⟨hr.trans ?_, hb⟩
    dsimp only
    split <;> rfl
  | plain => exact ⟨rfl, rfl⟩

end Assembler

namespace Interpreter

theorem refusal?_outcomeOf (ending : Ending) : (outcomeOf ending).refusal? = none := by
  cases ending <;> rfl

theorem nests (fuel : Nat) :
    (backend fuel).Nests fun state blocks => state.assembler.blocks = blocks := by
  constructor
  · rintro ⟨a, m⟩ _ rfl call
    cases call with
    | start => exact ⟨rfl, rfl⟩
    | perform i =>
      obtain ⟨hr, hb⟩ := a.place_eq_take i
      dsimp only [backend, Nesting.answer, assemble]
      rcases hp : a.place i with ⟨r, a'⟩
      rw [hp] at hr hb
      dsimp only at hr
      subst hr
      cases (Nesting.take i a.blocks).1 <;> exact ⟨rfl, hb⟩
    | finish =>
      dsimp only [backend, Nesting.answer, runAssembled, Assembler.finish, Nesting.ending]
      by_cases h : a.blocks = []
      · rw [if_pos h, if_pos h, h]
        exact ⟨refusal?_outcomeOf _, rfl⟩
      · rw [if_neg h, if_neg h]
        exact ⟨rfl, rfl⟩
  · rintro ⟨a, m⟩ _ rfl call hc ht
    cases call with
    | start => rfl
    | perform i =>
      have hr := (a.place_eq_take i).1
      rw [show (Nesting.take i a.blocks).1 = none from ht] at hr
      dsimp only [backend, assemble]
      rcases hp : a.place i with ⟨r, a'⟩
      rw [hp] at hr
      dsimp only at hr
      subst hr
      rfl
    | finish => exact absurd rfl hc

end Interpreter

/-! ## The generator -/

namespace Lua.Generator

theorem place_eq_take {g : Generator} (h : g.output.Reliable) (i : Instruction) :
    (g.place i).1 = (Nesting.result (Nesting.take i g.blocks).1).mapError .structural ∧
      (g.place i).2.blocks = (Nesting.take i g.blocks).2 ∧ (g.place i).2.output.Reliable := by
  unfold place Nesting.take
  cases i.operator.role with
  | opener kind =>
    dsimp only [openBlock]
    rw [writeLine_eq_wrote h]
    exact ⟨rfl, rfl, reliable_wrote h _⟩
  | closer kind =>
    obtain ⟨output, _ | ⟨innermost, blocks⟩⟩ := g
    · exact ⟨rfl, rfl, h⟩
    · dsimp only [closeBlock]
      by_cases hk : innermost = kind
      · have hl := @writeLine_eq_wrote ⟨output, blocks⟩ h .closer
        rw [if_pos hk, hl, hk, List.head?_cons, if_pos rfl]
        exact ⟨rfl, rfl, reliable_wrote (g := ⟨output, blocks⟩) h _⟩
      · rw [if_neg hk, List.head?_cons, if_neg (fun he => hk (Option.some.inj he))]
        exact ⟨rfl, rfl, h⟩
  | leaver =>
    dsimp only [leaveLoop]
    by_cases hl : .loop ∈ g.blocks
    · rw [if_pos hl, if_pos hl, writeLine_eq_wrote h]
      exact ⟨rfl, rfl, reliable_wrote h _⟩
    · rw [if_neg hl, if_neg hl]
      exact ⟨rfl, rfl, h⟩
  | plain =>
    dsimp only
    rw [writeLines_eq_wrote h]
    exact ⟨rfl, rfl, reliable_wrote h _⟩

theorem nests : backend.Nests fun g blocks => g.blocks = blocks ∧ g.output.Reliable := by
  constructor
  · rintro g _ ⟨rfl, h⟩ call
    cases call with
    | start =>
      dsimp only [backend]
      rw [write_eq_wrote h]
      exact ⟨rfl, rfl, reliable_wrote h _⟩
    | perform i =>
      obtain ⟨hr, hb⟩ := place_eq_take h i
      refine ⟨?_, hb⟩
      dsimp only [backend, Nesting.answer]
      rw [hr]
      cases (Nesting.take i g.blocks).1 <;> rfl
    | finish =>
      dsimp only [backend, Nesting.answer, finish, Nesting.ending, Sink.flush]
      by_cases hb : g.blocks = []
      · rw [if_pos hb, if_pos hb, h.flushes]
        exact ⟨rfl, rfl, h⟩
      · rw [if_neg hb, if_neg hb]
        exact ⟨rfl, rfl, h⟩
  · rintro g _ ⟨rfl, h⟩ call hc ht
    cases call with
    | start =>
      dsimp only [backend]
      rw [write_eq_wrote h]
      rfl
    | perform i =>
      dsimp only [backend]
      rw [(place_eq_take h i).1, show (Nesting.take i g.blocks).1 = none from ht]
      rfl
    | finish => exact absurd rfl hc

/-- Into a sink that never fails, nothing but the structure of a program stops the generator. -/
theorem outcome_handle {g : Generator} (h : g.output.Reliable) (call : Call) :
    (backend.handle call g).outcome = .done ∨
      ∃ e, (backend.handle call g).outcome = .failed (.structural e) := by
  cases call with
  | start =>
    dsimp only [backend]
    rw [write_eq_wrote h]
    exact .inl rfl
  | perform i =>
    dsimp only [backend]
    rw [(place_eq_take h i).1]
    cases (Nesting.take i g.blocks).1 with
    | none => exact .inl rfl
    | some e => exact .inr ⟨e, rfl⟩
  | finish =>
    dsimp only [backend, finish, Sink.flush]
    by_cases hb : g.blocks = []
    · rw [if_pos hb, h.flushes]
      exact .inl rfl
    · rw [if_neg hb]
      exact .inr ⟨_, rfl⟩

theorem outcome_handleAll {g : Generator} (h : g.output.Reliable) (calls : List Call)
    (log : Array Event) :
    (backend.handleAll calls log g).outcome = .done ∨
      ∃ e, (backend.handleAll calls log g).outcome = .failed (.structural e) := by
  induction calls generalizing g log with
  | nil => exact .inl rfl
  | cons call calls ih =>
    rw [Backend.handleAll]
    rcases outcome_handle h call with ho | ⟨e, ho⟩
    · rw [ho]
      exact ih (nests.handle ⟨rfl, h⟩ call).2.2 _
    · rw [ho]
      exact .inr ⟨e, rfl⟩

end Lua.Generator

/-! ## Both backends -/

theorem Outcome.getElem?_eq_refused_iff {outcomes : List Outcome} {k : Nat} {e : StructureError} :
    outcomes[k]? = some (.failed (.structural e)) ↔
      (outcomes.map refusal?)[k]? = some (some e) := by
  rw [List.getElem?_map, Option.map_eq_some_iff]
  constructor
  · exact fun h => ⟨_, h, rfl⟩
  · rintro ⟨outcome, h, hr⟩
    rw [h, refusal?_eq_some_iff.mp hr]

/-- A new interpreter and a new generator refuse the same calls for the same reasons, however
the calls follow each other and whichever of them fail, for any bound on the steps of the
interpreter's runs. So they refuse the same programs, and the generator fails in no other way. -/
theorem Backend.refused_iff (fuel : Nat) (m : Machine) {sink : Sink} (h : sink.Reliable) :
    (∀ (calls : List Call) (k : Nat) (e : StructureError),
      ((Interpreter.backend fuel).outcomes calls { machine := m })[k]? =
          some (.failed (.structural e)) ↔
        (Lua.Generator.backend.outcomes calls { output := sink })[k]? =
          some (.failed (.structural e))) ∧
    (∀ (p : Program) (e : StructureError),
      ((Interpreter.backend fuel).translate p { machine := m }).outcome =
          .failed (.structural e) ↔
        (Lua.Generator.backend.translate p { output := sink }).outcome =
          .failed (.structural e)) ∧
    ∀ (p : Program) (e : Error),
      (Lua.Generator.backend.translate p { output := sink }).outcome = .failed e →
        ∃ e', e = .structural e' := by
  have hm := Interpreter.nests fuel
  have hg := Lua.Generator.nests
  refine ⟨fun calls k e => ?_, fun p e => ?_, fun p e he => ?_⟩
  · rw [Outcome.getElem?_eq_refused_iff, Outcome.getElem?_eq_refused_iff,
      hm.outcomes_eq (s := { machine := m }) rfl,
      hg.outcomes_eq (s := { output := sink }) ⟨rfl, h⟩]
    rfl
  · rw [← Outcome.refusal?_eq_some_iff, ← Outcome.refusal?_eq_some_iff,
      hm.translate_eq (s := { machine := m }) rfl,
      hg.translate_eq (s := { output := sink }) ⟨rfl, h⟩]
    rfl
  · rcases Lua.Generator.outcome_handleAll (g := { output := sink }) h p.calls
      #[.translating p.length] with ho | ⟨e', ho⟩
    · rw [translate, ho] at he
      cases he
    · rw [translate, ho] at he
      cases he
      exact ⟨e', rfl⟩

/-- A closer of the wrong kind is refused, and takes the loop off, so that a break is refused
behind it and the end of the program is not. -/
theorem Backend.refused_iff_mismatch :
    let sink : Sink := {}
    let calls : List Call := [.perform ⟨.whileNotZero, 0⟩, .perform ⟨.endIf, 0⟩,
      .perform ⟨.leaveLoop, 0⟩, .finish]
    let answers := Lua.Generator.backend.outcomes calls { output := sink }
    sink.Reliable ∧ answers[1]? = some (.failed (.structural (.unmatched .endIf))) ∧
      answers[2]? = some (.failed (.structural .breakOutsideLoop)) ∧
      ∀ e, answers[3]? ≠ some (.failed (.structural e)) := by
  intro sink calls answers
  have h : sink.Reliable := ⟨rfl, rfl⟩
  obtain ⟨hcalls, -⟩ := refused_iff 1 { input := [], output := sink } h
  refine ⟨h, (hcalls calls 1 _).mp rfl, (hcalls calls 2 _).mp rfl, fun e he => ?_⟩
  have hlast := (hcalls calls 3 e).mpr he
  cases hlast

end NumNum
