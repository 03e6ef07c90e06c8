import NumNum.Proofs.Channel.Capacity
import NumNum.Proofs.Lua.Chunks
import NumNum.Proofs.Lua.Lines
import NumNum.Proofs.Structure.Refusal

/-!
# The layout of written programs

An accepted program is written as the lines of its instructions, each indented for the blocks
around it (`Generator.translate_eq_wrote`). The lines alone tell how deep they stand: what they
open is closed again, and nothing is open at the end (`Program.foldlM_placedLines`).
-/

namespace NumNum

open Lua

/-- The lines of an instruction, without their indentation. -/
def Instruction.lines (i : Instruction) : List Line :=
  match i.operator.role with
  | .opener kind => [opener kind i.operator]
  | .closer _ => [.closer]
  | .leaver => [.statement .leave]
  | .plain => (statements i).map .statement

namespace Role

/-- How many blocks are around the lines of an instruction, of those open ahead of it. -/
def around (depth : Nat) : Role → Nat
  | .closer _ => depth - 1
  | _ => depth

/-- How many blocks are open behind the instruction. -/
def behind (depth : Nat) : Role → Nat
  | .opener _ => depth + 1
  | .closer _ => depth - 1
  | _ => depth

end Role

/-- The lines of a program, indented, with this many blocks open ahead of it. -/
def Program.placedLines (depth : Nat) : Program → List String
  | [] => []
  | i :: p =>
    i.lines.map (·.placed (i.operator.role.around depth)) ++
      placedLines (i.operator.role.behind depth) p

theorem Program.newline_notMem_placedLines (depth : Nat) (p : Program) :
    ∀ line ∈ p.placedLines depth, '\n' ∉ line.toList := by
  induction p generalizing depth with
  | nil => exact nofun
  | cons i p ih =>
    intro line hl
    rcases List.mem_append.mp hl with hl | hl
    · obtain ⟨l, -, rfl⟩ := List.mem_map.mp hl
      exact l.newline_notMem_placed _
    · exact ih _ line hl

/-! ## What is written -/

namespace Lua

/-- The text of some lines. -/
def unlines (lines : List String) : String :=
  String.join (lines.map (· ++ "\n"))

theorem unlines_append (xs ys : List String) : unlines (xs ++ ys) = unlines xs ++ unlines ys := by
  rw [unlines, List.map_append, String.join_append]
  rfl

namespace Generator

variable {g : Generator}

theorem unlines_map_placed (lines : List Line) (depth : Nat) :
    unlines (lines.map (·.placed depth)) = String.join (lines.map (·.indented depth)) := by
  rw [unlines, List.map_map]
  rfl

theorem place_eq_wrote (h : g.output.Reliable) {i : Instruction}
    (hi : (Nesting.take i g.blocks).1 = none) :
    g.place i = (.ok (), { g.wrote (unlines (i.lines.map
        (·.placed (i.operator.role.around g.blocks.length)))) with
      blocks := (Nesting.take i g.blocks).2 }) := by
  have hone (l : Line) (depth : Nat) :
      String.join ([l].map (·.indented depth)) = l.indented depth := by
    rw [List.map_singleton, String.join_cons, String.join_nil, String.append_empty]
  rw [unlines_map_placed, Instruction.lines]
  unfold Nesting.take at hi ⊢
  cases hr : i.operator.role with
  | opener kind => rw [place_opener h hr, hone]; rfl
  | closer kind =>
    rw [hr] at hi
    have hb : g.blocks.head? = some kind := by simpa using hi
    obtain ⟨blocks, hb⟩ := List.head?_eq_some_iff.mp hb
    rw [place_closer h hr hb, hone, hb]
    rfl
  | leaver =>
    rw [hr] at hi
    have hl : .loop ∈ g.blocks := by simpa using hi
    rw [place, hr, hone]
    dsimp only
    rw [leaveLoop, if_pos hl, writeLine_eq_wrote h]
    rfl
  | plain =>
    rw [place, hr]
    dsimp only
    rw [writeLines_eq_wrote h]
    rfl

theorem length_take (i : Instruction) (blocks : List BlockKind) :
    (Nesting.take i blocks).2.length = i.operator.role.behind blocks.length := by
  unfold Nesting.take
  cases i.operator.role with
  | closer kind => exact List.length_tail
  | _ => rfl

/-- What an accepted program is written as, and that it leaves no block open. -/
theorem placeAll_eq_wrote {p : Program} (h : g.output.Reliable)
    (hp : Nesting.check p g.blocks = none) :
    placeAll p g =
      (.ok (), { g.wrote (unlines (p.placedLines g.blocks.length)) with blocks := [] }) := by
  induction p generalizing g with
  | nil =>
    have hb : g.blocks = [] := by simpa [Nesting.check, Nesting.ending] using hp
    rw [Program.placedLines, show unlines [] = "" from rfl, wrote_empty, ← hb]
    rfl
  | cons i p ih =>
    rw [Nesting.check] at hp
    rcases ht : Nesting.take i g.blocks with ⟨_ | e, blocks⟩
    · rw [ht] at hp
      have hi := place_eq_wrote h (i := i) (by rw [ht])
      have hlen := length_take i g.blocks
      rw [ht] at hi hlen
      let g' : Generator := { g.wrote (unlines (i.lines.map
        (·.placed (i.operator.role.around g.blocks.length)))) with blocks }
      have hrest := ih (g := g') (reliable_wrote h _) hp
      rw [placeAll_cons_of_place hi, hrest, Program.placedLines, unlines_append, ← wrote_wrote,
        ← hlen]
      rfl
    · rw [ht] at hp
      cases hp

theorem check_eq_none_of_done {p : Program} (h : g.output.Reliable) (hg : g.blocks = [])
    (hd : (backend.translate p g).outcome = .done) : Nesting.check p [] = none := by
  rw [← nests.translate_eq (s := g) ⟨hg, h⟩ p, hd]
  rfl

theorem wrote_with_blocks {blocks : List BlockKind} (hg : g.blocks = blocks) (text : String) :
    { g.wrote text with blocks } = g.wrote text := by
  subst hg
  rfl

theorem translate_eq_wrote {p : Program} (h : g.output.Reliable) (hg : g.blocks = [])
    (hp : Nesting.check p [] = none) :
    (backend.translate p g).state = g.wrote (prelude ++ unlines (p.placedLines 0)) := by
  have hb : Nesting.check p (g.wrote prelude).blocks = none := by rw [blocks_wrote, hg, hp]
  have ht := translate_eq h p
  rw [placeAll_eq_wrote (reliable_wrote h prelude) hb, blocks_wrote, hg, wrote_wrote] at ht
  dsimp only at ht
  rw [(Prod.mk.inj ht).2, wrote_with_blocks hg, List.length_nil]

theorem flushFails_of_finish (h : g.finish = .ok ()) : g.output.flushFails = false := by
  unfold finish Sink.flush at h
  cases hf : g.output.flushFails with
  | false => rfl
  | true =>
    rw [hf, if_pos rfl] at h
    split at h <;> cases h

/-- What ends well has flushed the sink, so one without a limit does not fail at all. -/
theorem reliable_of_done {p : Program} (h : g.output.limit = none)
    (hd : (backend.translate p g).outcome = .done) : g.output.Reliable := by
  refine ⟨h, ?_⟩
  obtain ⟨out, hout⟩ := (cuts_translate p).exists_wrote (s := g) h
  have ht := translate_eq_andThen p g
  dsimp only at ht hout
  generalize andThen (placeAll p) (g.write prelude).1 (g.write prelude).2 = placed at ht
  obtain ⟨e | _, g'⟩ := placed
  · rw [hd] at ht
    cases (Prod.mk.inj ht).1
  · obtain ⟨ho, hs⟩ := Prod.mk.inj ht
    rw [hd] at ho
    dsimp only [andThen] at ho hs
    have hf : g'.finish = .ok () := by
      cases hf : g'.finish with
      | error e =>
        rw [hf] at ho
        cases ho
      | ok _ => rfl
    rw [hs] at hout
    have hflush := flushFails_of_finish hf
    rwa [show g'.output = g.output.wrote out from hout] at hflush

end Generator

/-! ## The depth of lines -/

theorem foldlM_statements {ss : List Statement} (h : ∀ s ∈ ss, s.whole = true) (depth : Nat) :
    ((ss.map Line.statement).map (·.placed depth)).foldlM depthBehind depth = some depth := by
  induction ss with
  | nil => rfl
  | cons s ss ih =>
    obtain ⟨hs, hss⟩ := List.forall_mem_cons.mp h
    rw [List.map_cons, List.map_cons, List.foldlM_cons, depthBehind_statement hs]
    exact ih hss

theorem foldlM_lines {i : Instruction} {blocks : List BlockKind}
    (hi : (Nesting.take i blocks).1 = none) :
    (i.lines.map (·.placed (i.operator.role.around blocks.length))).foldlM depthBehind
      blocks.length = some (i.operator.role.behind blocks.length) := by
  rw [Instruction.lines]
  unfold Nesting.take at hi
  cases hr : i.operator.role with
  | opener kind =>
    rw [List.map_singleton, List.foldlM_cons]
    exact congrArg (· >>= _) (depthBehind_opener kind i.operator blocks.length)
  | closer kind =>
    rw [hr] at hi
    have hb : blocks.head? = some kind := by simpa using hi
    obtain ⟨blocks, rfl⟩ := List.head?_eq_some_iff.mp hb
    rw [List.map_singleton, List.foldlM_cons]
    exact congrArg (· >>= _) (depthBehind_closer blocks.length)
  | leaver =>
    have hw : ∀ s ∈ [Statement.leave], s.whole = true := by decide
    exact foldlM_statements hw _
  | plain => exact foldlM_statements (fun _ => whole_of_mem_statements) _

end Lua

/-- The lines of an accepted program have their depths, by themselves. -/
theorem Program.foldlM_placedLines {p : Program} {blocks : List BlockKind}
    (hp : Nesting.check p blocks = none) :
    (p.placedLines blocks.length).foldlM Lua.depthBehind blocks.length = some 0 := by
  induction p generalizing blocks with
  | nil =>
    have hb : blocks = [] := by simpa [Nesting.check, Nesting.ending] using hp
    rw [hb]
    rfl
  | cons i p ih =>
    rw [Nesting.check] at hp
    rcases ht : Nesting.take i blocks with ⟨_ | e, blocks'⟩
    · rw [ht] at hp
      have hlen := Lua.Generator.length_take i blocks
      rw [ht] at hlen
      rw [placedLines, List.foldlM_append, Lua.foldlM_lines (by rw [ht]), Option.bind_eq_bind,
        Option.bind_some, ← hlen]
      exact ih hp
    · rw [ht] at hp
      cases hp

end NumNum
