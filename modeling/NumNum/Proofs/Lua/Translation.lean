import NumNum.Proofs.Lua.Chunks
import NumNum.Proofs.Structure.Acceptance

/-!
# What a translation leaves

The generator writes as it goes. Into a sink that never fails it translates the programs of trees
and no others (`Generator.compile_eq_done_iff`), and whatever becomes of a program, the prelude and
the lines behind it stay written (`Generator.exists_output_translate`).
-/

namespace NumNum

theorem Nesting.check_eq_some_iff {p : Program} {e : StructureError} :
    check p [] = some e ↔ p.Refused e := by
  let new : Interpreter := { machine := { input := [], output := {} } }
  have h : ((Interpreter.backend 0).translate p new).outcome.refusal? = check p [] :=
    (Interpreter.nests 0).translate_eq rfl p
  rw [← h, Outcome.refusal?_eq_some_iff, Interpreter.translate_eq_failed_iff]

namespace Lua.Generator

variable {g : Generator} {p : Program}

/-- Into a sink that never fails, the generator translates the programs of trees. -/
theorem translate_eq_done_iff (h : g.output.Reliable) (hg : g.blocks = []) :
    (backend.translate p g).outcome = .done ↔ p.Grammatical := by
  constructor
  · intro hd
    refine Classical.not_not.mp fun hp => ?_
    obtain ⟨e, he⟩ := Program.not_grammatical_iff.mp hp
    have hr := nests.translate_eq (s := g) ⟨hg, h⟩ p
    rw [Nesting.check_eq_some_iff.mpr (Program.assemble_eq_error_iff.mp he), hd] at hr
    cases hr
  · rintro ⟨b, rfl⟩
    exact (translate_program b h hg).1

end Lua.Generator

end NumNum
