import NumNum.Proofs.Lua.Emission
import NumNum.Proofs.Lua.Statements
import NumNum.Proofs.Structure.Tree

/-!
# The Lua program of a block tree

For a nested program the generator writes the lines of `Block.lua` behind the prelude, each
block's body with one more block around it (`Generator.translate_program`).
-/

namespace NumNum

open Lua

/-! ## Lines ahead of others -/

namespace Lua.Chunk

/-- Lines with statements ahead of them. -/
def behind (rest : Chunk) : List Statement → Chunk
  | [] => rest
  | s :: front => statement s (rest.behind front)

theorem text_behind (rest : Chunk) (front : List Statement) (depth : Nat) :
    (rest.behind front).text depth =
      String.join ((front.map Line.statement).map (·.indented depth)) ++ rest.text depth := by
  induction front with
  | nil => simp [behind]
  | cons s front ih =>
    rw [behind, text, ih, List.map_cons, List.map_cons, String.join_cons, String.append_assoc]

theorem exec_behind (rest : Chunk) (front : List Statement) (fuel : Nat) :
    (rest.behind front).exec fuel = (do Statement.execAll front; rest.exec fuel) := by
  induction front with
  | nil => rfl
  | cons s front ih => rw [behind, exec, ih, Statement.execAll, bind_assoc]

end Lua.Chunk

/-! ## Trees -/

/-- The condition under which the body of a conditional is executed. -/
def Operator.guard (op : Operator) : Condition :=
  ⟨.top op, if op = .ifZero then .equal else .unequal, .number 0⟩

theorem Operator.onWords_guard {op : Operator} (h : op.role = .opener .conditional) (y : UInt32) :
    (if op = .ifZero then Comparison.equal else .unequal).onWords y 0 = op.enters y := by
  cases op
  case ifNotZero => rfl
  case ifZero => rfl
  all_goals cases h

def loopGuard : Condition :=
  ⟨.top .whileNotZero, .unequal, .number 0⟩

/-- The lines that stand for a tree. -/
def Block.lua {inLoop : Bool} : Block inLoop → Chunk
  | done => .done
  | plain i rest => rest.lua.behind (statements i.1)
  | conditional opener body _ rest => .ifThen opener.1.operator.guard body.lua rest.lua
  | loop _ body _ rest => .whileDo loopGuard body.lua rest.lua
  | leave _ rest => .statement .leave rest.lua

namespace Lua.Generator

variable {g : Generator}

theorem place_opener (h : g.output.Reliable) {i : Instruction} {kind : BlockKind}
    (hi : i.operator.role = .opener kind) :
    g.place i = (.ok (), { g.wrote ((opener kind i.operator).indented g.blocks.length) with
      blocks := kind :: g.blocks }) := by
  rw [place, hi]
  dsimp only
  rw [openBlock, writeLine_eq_wrote h]
  rfl

theorem place_closer {i : Instruction} {kind : BlockKind} {blocks : List BlockKind}
    (h : g.output.Reliable) (hi : i.operator.role = .closer kind) (hg : g.blocks = kind :: blocks) :
    g.place i = (.ok (), { g.wrote (Line.closer.indented blocks.length) with blocks }) := by
  obtain ⟨output, _⟩ := g
  cases hg
  rw [place, hi]
  dsimp only [closeBlock]
  rw [if_pos rfl]
  exact writeLine_eq_wrote (g := ⟨output, blocks⟩) h _

/-- A block is written as its opener, its body with one more block around it, and its closer. -/
theorem placeAll_block (h : g.output.Reliable) {opener closer : Instruction} {kind : BlockKind}
    (ho : opener.operator.role = .opener kind) (hc : closer.operator.role = .closer kind)
    {body : Program} {text : String}
    (hbody : ∀ g' : Generator, g'.output.Reliable → g'.blocks = kind :: g.blocks →
      placeAll body g' = (.ok (), g'.wrote text)) (rest : Program) :
    placeAll (opener :: (body ++ closer :: rest)) g =
      placeAll rest (g.wrote ((Lua.opener kind opener.operator).indented g.blocks.length ++ text ++
        Line.closer.indented g.blocks.length)) := by
  have hbody := hbody { g.wrote ((Lua.opener kind opener.operator).indented g.blocks.length) with
    blocks := kind :: g.blocks } (reliable_wrote h _) rfl
  rw [placeAll_cons_of_place (place_opener h ho), placeAll_append, hbody]
  dsimp only
  rw [placeAll_cons_of_place (place_closer ?_ hc rfl), ← wrote_wrote, ← wrote_wrote]
  · rfl
  · exact reliable_wrote (reliable_wrote h _) _

theorem placeAll_program {inLoop : Bool} (b : Block inLoop) (h : g.output.Reliable)
    (hloop : inLoop = true → .loop ∈ g.blocks) :
    placeAll b.program g = (.ok (), g.wrote (b.lua.text g.blocks.length)) := by
  induction b generalizing g with
  | done => rw [Block.lua, Chunk.text, wrote_empty]; rfl
  | plain i rest ih =>
    have hi : g.place i.1 = g.writeLines ((statements i.1).map .statement) := by
      rw [place, i.2]
    rw [Block.program, placeAll_cons_of_place (hi.trans (writeLines_eq_wrote h _)),
      ih (reliable_wrote h _) hloop, wrote_wrote, Block.lua, Chunk.text_behind, blocks_wrote]
  | conditional opener body closer rest ihb ihr =>
    have hbody : ∀ g' : Generator, g'.output.Reliable → g'.blocks = .conditional :: g.blocks →
        placeAll body.program g' = (.ok (), g'.wrote (body.lua.text (g.blocks.length + 1))) := by
      intro g' h' hg
      have hb := ihb h' fun hin => by rw [hg]; exact List.mem_cons_of_mem _ (hloop hin)
      rwa [hg] at hb
    rw [Block.program, placeAll_block h opener.2 closer.2 hbody, ihr (reliable_wrote h _) hloop,
      wrote_wrote]
    rfl
  | loop opener body closer rest ihb ihr =>
    have hbody : ∀ g' : Generator, g'.output.Reliable → g'.blocks = .loop :: g.blocks →
        placeAll body.program g' = (.ok (), g'.wrote (body.lua.text (g.blocks.length + 1))) := by
      intro g' h' hg
      have hb := ihb h' fun _ => by rw [hg]; exact List.mem_cons_self
      rwa [hg] at hb
    rw [Block.program, placeAll_block h opener.2 closer.2 hbody, ihr (reliable_wrote h _) hloop,
      wrote_wrote, Operator.eq_whileNotZero_of_role opener.2]
    rfl
  | leave i rest ih =>
    have hi : g.place i.1 = g.writeLine (.statement .leave) := by
      rw [place, i.2]
      exact if_pos (hloop rfl)
    rw [Block.program, placeAll_cons_of_place (hi.trans (writeLine_eq_wrote h _)),
      ih (reliable_wrote h _) hloop, wrote_wrote]
    rfl

/-- A nested program is written as its lines, behind the prelude. -/
theorem translate_program (b : Block false) (h : g.output.Reliable) (hg : g.blocks = []) :
    (backend.translate b.program g).outcome = .done ∧
      (backend.translate b.program g).state = g.wrote (prelude ++ b.lua.text 0) := by
  have ht := translate_eq h b.program
  have hflush : (g.wrote (prelude ++ b.lua.text 0)).finish = .ok () := by
    have hflushes := (reliable_wrote h (prelude ++ b.lua.text 0)).flushes
    rw [finish, blocks_wrote, if_pos hg, Sink.flush, hflushes]
    rfl
  rw [placeAll_program b (reliable_wrote h _) nofun, blocks_wrote, hg, wrote_wrote] at ht
  dsimp only at ht
  rw [List.length_nil, hflush] at ht
  exact Prod.mk.injEq .. ▸ ht

end Lua.Generator

end NumNum
