import NumNum.Lua.Generator

/-!
# What the generator writes

Into a sink that never fails, the generator writes the text of its lines and its other
answers are those of its open blocks (`Generator.translate_eq`).
-/

namespace NumNum

/-- A sink in which every write and every flush succeeds. -/
structure Sink.Reliable (s : Sink) : Prop where
  unlimited : s.limit = none
  flushes : s.flushFails = false

namespace Lua.Generator

/-- The generator with a text behind what it has written. -/
def wrote (text : String) (g : Generator) : Generator :=
  { g with output := { g.output with written := g.output.written ++ Utf8.encodeText text } }

variable {g : Generator}

@[simp] theorem blocks_wrote (text : String) (g : Generator) :
    (g.wrote text).blocks = g.blocks := rfl

theorem reliable_wrote (h : g.output.Reliable) (text : String) : (g.wrote text).output.Reliable :=
  ⟨h.unlimited, h.flushes⟩

theorem wrote_empty (g : Generator) : g.wrote "" = g := by
  simp [wrote, Utf8.encodeText]

theorem wrote_wrote (s t : String) (g : Generator) : (g.wrote s).wrote t = g.wrote (s ++ t) := by
  have h : g.output.written ++ Utf8.encodeText s ++ Utf8.encodeText t =
      g.output.written ++ Utf8.encodeText (s ++ t) := by
    rw [Utf8.encodeText_append]
    exact Array.ext' (by simp)
  rw [wrote, wrote, wrote, ← h]

/-! ## Lines -/

theorem write_eq_wrote (h : g.output.Reliable) (text : String) :
    g.write text = (.ok (), g.wrote text) := by
  obtain ⟨output, blocks⟩ := g
  rw [write, Sink.write_of_limit_none h.unlimited]
  rfl

theorem writeLine_eq_wrote (h : g.output.Reliable) (line : Line) :
    g.writeLine line = (.ok (), g.wrote (line.indented g.blocks.length)) :=
  write_eq_wrote h _

theorem writeLines_eq_wrote (h : g.output.Reliable) (lines : List Line) :
    g.writeLines lines =
      (.ok (), g.wrote (String.join (lines.map (·.indented g.blocks.length)))) := by
  induction lines generalizing g with
  | nil => rw [writeLines, List.map_nil, String.join_nil, wrote_empty]
  | cons line lines ih =>
    rw [writeLines, writeLine_eq_wrote h]
    dsimp only
    rw [ih (reliable_wrote h _), blocks_wrote, wrote_wrote, List.map_cons, String.join_cons]

/-! ## Programs -/

/-- Takes instructions up to the first that fails. -/
def placeAll : Program → Generator → Except Error Unit × Generator
  | [], g => (.ok (), g)
  | i :: rest, g =>
    match g.place i with
    | (.ok (), g) => placeAll rest g
    | failed => failed

theorem placeAll_append (p q : Program) (g : Generator) :
    placeAll (p ++ q) g =
      match placeAll p g with
      | (.ok (), g) => placeAll q g
      | failed => failed := by
  induction p generalizing g with
  | nil => rfl
  | cons i p ih =>
    simp only [List.cons_append, placeAll]
    rcases g.place i with ⟨_ | _, g⟩
    · rfl
    · exact ih g

theorem placeAll_cons_of_place {i : Instruction} {g g' : Generator} (h : g.place i = (.ok (), g'))
    (p : Program) : placeAll (i :: p) g = placeAll p g' := by
  simp only [placeAll, h]

theorem handleAll_perform (p : Program) (log : Array Event) (g : Generator) :
    let handled := backend.handleAll (p.map .perform ++ [.finish]) log g
    (handled.outcome, handled.state) =
      match placeAll p g with
      | (.ok (), g) => (outcomeOf g.finish, g)
      | (.error e, g) => (.failed e, g) := by
  induction p generalizing log g with
  | nil =>
    simp only [List.map_nil, List.nil_append, Backend.handleAll, placeAll, backend]
    cases g.finish <;> rfl
  | cons i p ih =>
    simp only [List.map_cons, List.cons_append, Backend.handleAll, placeAll, backend]
    rcases g.place i with ⟨_ | _, g⟩
    · rfl
    · exact ih ..

/-- A program is written behind the prelude, instruction by instruction. -/
theorem translate_eq (h : g.output.Reliable) (p : Program) :
    let handled := backend.translate p g
    (handled.outcome, handled.state) =
      match placeAll p (g.wrote prelude) with
      | (.ok (), g) => (outcomeOf g.finish, g)
      | (.error e, g) => (.failed e, g) := by
  dsimp only [Backend.translate, Program.calls]
  rw [List.cons_append, Backend.handleAll]
  simp only [backend, write_eq_wrote h, outcomeOf]
  exact handleAll_perform p _ _

end Lua.Generator

end NumNum
