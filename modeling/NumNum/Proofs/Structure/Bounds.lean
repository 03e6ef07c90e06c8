import NumNum.Proofs.Machine.Positions
import NumNum.Proofs.Structure.Leftover
import NumNum.Proofs.Structure.Requests

/-!
# Positions inside the codes

An assembler keeps positions, and later requests set the jumps of the codes that stand there.
`Recorded` says what a request does to the open blocks and their positions. After any requests
the positions are those of the codes that were appended for them, so that no request looks
outside the codes, and a run of the codes that a finish hands out stays inside of them
(`Assembler.serve_in_bounds`).
-/

namespace NumNum

namespace Assembler

/-! ## Requests that look before they write -/

/-- Gives the code at a position its jump, if a code stands there. -/
def setJump? (codes : Codes) (position target : Nat) : Option Codes :=
  if position < codes.size then some (setJump codes position target) else none

def closeConditional? : Assembler → Option (Except StructureError Unit × Assembler)
  | ⟨codes, opener :: conditionals, loops⟩ =>
    (setJump? codes opener codes.size).map fun patched =>
      (.ok (), ⟨patched.push { instruction := { operator := .endIf } }, conditionals, loops⟩)
  | a => some a.closeConditional

/-- Opens a loop: its code is appended first, and then gets its own position as its jump. -/
def openLoop? : Assembler → Option Assembler
  | ⟨codes, conditionals, loops⟩ =>
    let appended := codes.push { instruction := { operator := .whileNotZero } }
    let here := appended.size - 1
    (setJump? appended here here).map fun codes' =>
      ⟨codes', [], { opener := codes.size, around := conditionals } :: loops⟩

/-- Closes a loop: the way back is read off the code at the opener. -/
def closeLoop? : Assembler → Option (Except StructureError Unit × Assembler)
  | ⟨codes, [], ⟨opener, breaks, around⟩ :: loops⟩ =>
    codes[opener]?.bind fun start =>
      ((opener :: breaks).foldlM (fun codes' position => setJump? codes' position codes.size)
        codes).map fun patched =>
          (.ok (), ⟨patched.push { instruction := { operator := .endWhile }, jump := start.jump },
            around, loops⟩)
  | a => some a.closeLoop

/-- Serves one request, unless it needs a code at a position where none stands. -/
def serve? (request : Request) (a : Assembler) :
    Option (Except StructureError (Option Codes) × Assembler) :=
  match request with
  | .openLoop => a.openLoop?.map fun a => (.ok none, a)
  | .closeConditional => a.closeConditional?.map fun (r, a) => (r.map fun _ => none, a)
  | .closeLoop => a.closeLoop?.map fun (r, a) => (r.map fun _ => none, a)
  | request => some (serve request a)

/-! ## Open blocks -/

/-- An open block, with the positions that wait for its closer. -/
structure OpenBlock where
  kind : BlockKind
  opener : Nat
  breaks : List Nat := []

def OpenBlock.positions (b : OpenBlock) : List Nat := b.opener :: b.breaks

/-- The open blocks in one row, innermost first. -/
def openBlocks (a : Assembler) : List OpenBlock :=
  a.conditionals.map (⟨.conditional, ·, []⟩) ++ a.loops.flatMap fun l =>
    ⟨.loop, l.opener, l.breaks⟩ :: l.around.map (⟨.conditional, ·, []⟩)

/-- The kind of block that the request opens. -/
def Request.opens? : Request → Option BlockKind
  | .openConditional _ => some .conditional
  | .openLoop => some .loop
  | _ => none

/-- The instruction that the request appends if it succeeds. -/
def Request.instruction? : Request → Option Instruction
  | .push i => some i
  | .openConditional op => some { operator := op }
  | .closeConditional => some { operator := .endIf }
  | .openLoop => some { operator := .whileNotZero }
  | .closeLoop => some { operator := .endWhile }
  | .leave => some { operator := .leaveLoop }
  | .finish => none

variable {a a' : Assembler} {r : Request} {b : OpenBlock} {codes : Codes} {code : Code} {k : Nat}
  {answer : Except StructureError (Option Codes)}

theorem positions_openBlocks (a : Assembler) :
    a.openBlocks.flatMap OpenBlock.positions = a.waiting.map Prod.fst := by
  have hconditional (openers : List Nat) :
      (openers.map (OpenBlock.mk .conditional · [])).flatMap OpenBlock.positions = openers := by
    induction openers with
    | nil => rfl
    | cons opener openers ih =>
      rw [List.map_cons, List.flatMap_cons, ih]
      rfl
  simp [openBlocks, waiting, hconditional, List.flatMap_assoc, List.map_flatMap,
    OpenBlock.positions, Function.comp_def]

theorem kind_openBlocks (a : Assembler) : a.openBlocks.map OpenBlock.kind = a.blocks := by
  simp [openBlocks, blocks, List.map_flatMap, Function.comp_def]

/-- What a request does to the codes and the open blocks. -/
inductive Recorded (a : Assembler) :
    Request → Except StructureError (Option Codes) → Assembler → Prop
  | pushed {a' : Assembler} (i : Instruction) (hcodes : a'.codes = a.codes.push ⟨i, 0⟩)
      (hblocks : a'.openBlocks = a.openBlocks) : Recorded a (.push i) (.ok none) a'
  | opened {r : Request} {a' : Assembler} (kind : BlockKind) (code : Code)
      (hr : r.opens? = some kind) (hi : r.instruction? = some code.instruction)
      (hjump : code.jump = if kind = .loop then a.codes.size else 0)
      (hcodes : a'.codes = a.codes.push code)
      (hblocks : a'.openBlocks = ⟨kind, a.codes.size, []⟩ :: a.openBlocks) :
      Recorded a r (.ok none) a'
  | left {a' : Assembler} (inner outer : List OpenBlock) (b : OpenBlock) (hkind : b.kind = .loop)
      (hcodes : a'.codes = a.codes.push { instruction := { operator := .leaveLoop } })
      (hold : a.openBlocks = inner ++ b :: outer)
      (hnew : a'.openBlocks =
        inner ++ { b with breaks := a.codes.size :: b.breaks } :: outer) :
      Recorded a .leave (.ok none) a'
  | closed {a' : Assembler} (b : OpenBlock) (jump : Nat) (hjump : jump ≤ b.opener)
      (hcodes : a'.codes = (patch b.positions a.codes.size a.codes).push
        { instruction := { operator := b.kind.closer }, jump })
      (hblocks : a.openBlocks = b :: a'.openBlocks) : Recorded a (.closer b.kind) (.ok none) a'
  | finished (h : a.openBlocks = []) : Recorded a .finish (.ok (some a.codes)) {}
  | failed {r : Request} {e : StructureError} {a' : Assembler} (hcodes : a'.codes = a.codes)
      (hblocks : a'.openBlocks <:+ a.openBlocks) : Recorded a r (.error e) a'

theorem recorded (r : Request) (a : Assembler) : Recorded a r (serve r a).1 (serve r a).2 := by
  obtain ⟨codes, conditionals, loops⟩ := a
  cases r with
  | push i => exact .pushed i rfl rfl
  | openConditional op => exact .opened .conditional _ rfl rfl rfl rfl rfl
  | openLoop => exact .opened .loop ⟨{ operator := .whileNotZero }, codes.size⟩ rfl rfl rfl rfl rfl
  | closeConditional =>
    rcases conditionals with _ | ⟨opener, conditionals⟩
    · rcases loops with _ | ⟨l, loops⟩
      · exact .failed rfl (List.suffix_refl _)
      · exact .failed rfl (List.suffix_cons _ _)
    · exact .closed ⟨.conditional, opener, []⟩ 0 (Nat.zero_le _) rfl rfl
  | closeLoop =>
    rcases conditionals with _ | ⟨opener, conditionals⟩
    · rcases loops with _ | ⟨⟨opener, breaks, around⟩, loops⟩
      · exact .failed rfl (List.suffix_refl _)
      · exact .closed ⟨.loop, opener, breaks⟩ opener (Nat.le_refl _) rfl rfl
    · exact .failed rfl (List.suffix_cons _ _)
  | leave =>
    rcases loops with _ | ⟨⟨opener, breaks, around⟩, loops⟩
    · exact .failed rfl (List.suffix_refl _)
    · exact .left (conditionals.map (⟨.conditional, ·, []⟩)) _ ⟨.loop, opener, breaks⟩
        rfl rfl rfl rfl
  | finish =>
    unfold serve finish
    by_cases h : blocks ⟨codes, conditionals, loops⟩ = []
    · rw [if_pos h]
      exact .finished (List.map_eq_nil_iff.mp ((kind_openBlocks _).trans h))
    · rw [if_neg h]
      exact .failed rfl (List.suffix_refl _)

/-! ## The requests behind the codes -/

/-- The requests that appended the codes at hand, behind one more request. -/
def authorsBehind (r : Request) (answer : Except StructureError (Option Codes))
    (past : List Request) : List Request :=
  match answer with
  | .ok none => past ++ [r]
  | .ok (some _) => []
  | .error _ => past

/-- The requests that appended the codes at hand, one for each code: behind those so far, the
requests that succeed, up to a finish, which takes the codes away. -/
def authors : List Request → Assembler → List Request → List Request
  | [], _, past => past
  | r :: later, a, past => authors later (serve r a).2 (authorsBehind r (serve r a).1 past)

/-- The request appended the code that stands at the position. -/
def AppendedBy (codes : Codes) (past : List Request) (k : Nat) (r : Request) : Prop :=
  past[k]? = some r ∧ ∃ code, codes[k]? = some code ∧ r.instruction? = some code.instruction

/-- Every jump leads to a code. -/
def JumpsInside (codes : Codes) : Prop :=
  ∀ (k : Nat) (code : Code), codes[k]? = some code → code.jump < codes.size

/-- The positions of an open block are those of its opener and of breaks behind it. -/
structure OpenBlock.Denotes (past : List Request) (b : OpenBlock) : Prop where
  opener : ∃ r, r.opens? = some b.kind ∧ past[b.opener]? = some r
  breaks : ∀ k ∈ b.breaks, b.opener < k ∧ past[k]? = some .leave

/-- Positions are kept of codes that were appended for them, and no jump leads outside. -/
structure Safe (a : Assembler) (past : List Request) : Prop where
  consistent : a.Consistent
  appended : a.codes.toList.map (fun code => some code.instruction) =
    past.map Request.instruction?
  jumpsInside : JumpsInside a.codes
  denotes : ∀ b ∈ a.openBlocks, b.Denotes past
  wayBack : ∀ b ∈ a.openBlocks, b.kind = .loop →
    ∃ code, a.codes[b.opener]? = some code ∧ code.jump = b.opener

variable {past : List Request}

theorem Safe.empty : Safe {} [] :=
  ⟨.empty, rfl, fun k code hk => by simp at hk, nofun, nofun⟩

theorem Safe.length_eq (h : a.Safe past) : past.length = a.codes.size := by
  have hlength := congrArg List.length h.appended
  rw [List.length_map, List.length_map, Array.length_toList] at hlength
  exact hlength.symm

theorem Safe.appendedBy (h : a.Safe past) (hk : past[k]? = some r) :
    AppendedBy a.codes past k r := by
  refine ⟨hk, ?_⟩
  have hi := congrArg (·[k]?) h.appended
  rw [List.getElem?_map, List.getElem?_map, hk, Array.getElem?_toList] at hi
  obtain ⟨code, hcode, hr⟩ := Option.map_eq_some_iff.mp hi
  exact ⟨code, hcode, hr.symm⟩

theorem Safe.lt_size (h : a.Safe past) (hb : b ∈ a.openBlocks) (hk : k ∈ b.positions) :
    k < a.codes.size := by
  refine h.consistent.lt_size ?_
  rw [← positions_openBlocks]
  exact List.mem_flatMap.mpr ⟨b, hb, hk⟩

theorem getElem?_append_of_some (hk : past[k]? = some r) (new : Request) :
    (past ++ [new])[k]? = some r := by
  rw [List.getElem?_append_left (List.getElem?_eq_some_iff.mp hk).1, hk]

theorem OpenBlock.Denotes.append (h : b.Denotes past) (new : Request) :
    b.Denotes (past ++ [new]) := by
  obtain ⟨r, hr, hopener⟩ := h.opener
  refine ⟨⟨r, hr, getElem?_append_of_some hopener new⟩, fun k hk => ?_⟩
  obtain ⟨hlt, hleave⟩ := h.breaks k hk
  exact ⟨hlt, getElem?_append_of_some hleave new⟩

/-! ## One request -/

/-- A request that succeeds sets jumps to the end of the codes, and appends the code of its
instruction. -/
theorem Recorded.exists_patch (h : Recorded a r (.ok none) a') (ha : a.Safe past) :
    ∃ positions code, a'.codes = (patch positions a.codes.size a.codes).push code ∧
      r.instruction? = some code.instruction ∧ code.jump ≤ a.codes.size := by
  cases h with
  | pushed i hcodes hblocks => exact ⟨[], ⟨i, 0⟩, hcodes, rfl, Nat.zero_le _⟩
  | opened kind code hr hi hjump hcodes hblocks =>
    refine ⟨[], code, hcodes, hi, ?_⟩
    rw [hjump]
    split
    · exact Nat.le_refl _
    · exact Nat.zero_le _
  | left inner outer b hkind hcodes hold hnew => exact ⟨[], _, hcodes, rfl, Nat.zero_le _⟩
  | closed b jump hjump hcodes hblocks =>
    refine ⟨_, _, hcodes, ?_, Nat.le_trans hjump (Nat.le_of_lt ?_)⟩
    · cases hk : b.kind <;> rfl
    · exact ha.lt_size (hblocks ▸ List.mem_cons_self) List.mem_cons_self

theorem jumpsInside_push (h : JumpsInside codes) (hcode : code.jump ≤ codes.size)
    (positions : List Nat) : JumpsInside ((patch positions codes.size codes).push code) := by
  intro k c hc
  rw [Array.getElem?_push, size_patch] at hc
  rw [Array.size_push, size_patch]
  by_cases hk : k = codes.size
  · rw [if_pos hk] at hc
    cases hc
    exact Nat.lt_succ_of_le hcode
  · rw [if_neg hk, getElem?_patch] at hc
    by_cases hp : k ∈ positions
    · rw [if_pos hp] at hc
      obtain ⟨c, -, rfl⟩ := Option.map_eq_some_iff.mp hc
      exact Nat.lt_succ_self _
    · rw [if_neg hp] at hc
      exact Nat.lt_succ_of_lt (h k c hc)

theorem Safe.codes_of_ok (ha : a.Safe past) (h : Recorded a r (.ok none) a') :
    a'.codes.toList.map (fun code => some code.instruction) =
      (past ++ [r]).map Request.instruction? ∧ JumpsInside a'.codes := by
  obtain ⟨positions, code, hcodes, hi, hjump⟩ := h.exists_patch ha
  refine ⟨?_, hcodes ▸ jumpsInside_push ha.jumpsInside hjump positions⟩
  have hpatch := congrArg (List.map some)
    (map_instruction_foldl_setJump positions a.codes a.codes.size)
  rw [List.map_map, List.map_map] at hpatch
  rw [hcodes, Array.toList_push, List.map_append, List.map_append, ← ha.appended]
  exact congrArg₂ _ hpatch (congrArg (fun i => [i]) hi.symm)

/-- Where an open block comes from that is found behind a request: it was open before, perhaps
without the latest break, and the code at its opener has not changed, or the request opens it. -/
inductive Comes (a : Assembler) (r : Request) (a' : Assembler) : OpenBlock → Prop
  | kept (b : OpenBlock) (breaks : List Nat) (hb : b ∈ a.openBlocks)
      (hbreaks : ∀ k ∈ breaks, k ∈ b.breaks ∨ k = a.codes.size ∧ r = .leave)
      (hcode : ∀ code, a.codes[b.opener]? = some code → a'.codes[b.opener]? = some code) :
      Comes a r a' { b with breaks }
  | new (kind : BlockKind) (code : Code) (hr : r.opens? = some kind)
      (hcode : a'.codes[a.codes.size]? = some code)
      (hjump : kind = .loop → code.jump = a.codes.size) : Comes a r a' ⟨kind, a.codes.size, []⟩

theorem Safe.comes (ha : a.Safe past) (h : Recorded a r (.ok none) a') :
    ∀ b ∈ a'.openBlocks, Comes a r a' b := by
  have hold {new : Code} (hcodes : a'.codes = a.codes.push new) (b : OpenBlock)
      (hb : b ∈ a.openBlocks) : Comes a r a' b :=
    .kept b b.breaks hb (fun _ => .inl) fun _ hc => hcodes ▸ getElem?_push_of_some hc new
  intro b' hb'
  cases h with
  | pushed i hcodes hblocks => exact hold hcodes b' (hblocks ▸ hb')
  | opened kind code hr hi hjump hcodes hblocks =>
    rcases List.mem_cons.mp (hblocks ▸ hb') with rfl | hb
    · refine .new kind code hr ?_ fun hkind => hjump.trans (if_pos hkind)
      rw [hcodes, Array.getElem?_push_size]
    · exact hold hcodes b' hb
  | left inner outer b hkind hcodes hblocks hnew =>
    rw [hnew, List.mem_append, List.mem_cons] at hb'
    rcases hb' with hb | rfl | hb
    · exact hold hcodes b' (hblocks ▸ List.mem_append_left _ hb)
    · refine .kept b _ (hblocks ▸ List.mem_append_cons_self) (fun k hk => ?_) fun _ hc =>
        hcodes ▸ getElem?_push_of_some hc _
      rcases List.mem_cons.mp hk with rfl | hk
      · exact .inr ⟨rfl, rfl⟩
      · exact .inl hk
    · exact hold hcodes b' (hblocks ▸ List.mem_append_right _ (List.mem_cons_of_mem _ hb))
  | closed b jump hjump hcodes hblocks =>
    -- the blocks further out have other positions than the one that is closed
    have hnodup := ha.consistent.nodup
    rw [← positions_openBlocks, hblocks, List.flatMap_cons, List.nodup_append] at hnodup
    have hout : b'.opener ∉ b.positions := fun hmem =>
      hnodup.2.2 _ hmem _ (List.mem_flatMap.mpr ⟨b', hb', List.mem_cons_self⟩) rfl
    refine .kept b' b'.breaks (hblocks ▸ List.mem_cons_of_mem _ hb') (fun _ => .inl) fun c hc => ?_
    rw [hcodes]
    refine getElem?_push_of_some ?_ _
    rw [getElem?_patch, if_neg hout, hc]

theorem Safe.denotes_of_comes (ha : a.Safe past) (h : Comes a r a' b) :
    b.Denotes (past ++ [r]) := by
  have hlast : (past ++ [r])[a.codes.size]? = some r := by
    rw [← ha.length_eq, List.getElem?_concat_length]
  cases h with
  | new kind code hr hcode hjump => exact ⟨⟨r, hr, hlast⟩, nofun⟩
  | kept b breaks hb hbreaks hcode =>
    have hold := (ha.denotes b hb).append r
    refine ⟨hold.opener, fun k hk => ?_⟩
    rcases hbreaks k hk with hk | ⟨rfl, rfl⟩
    · exact hold.breaks k hk
    · exact ⟨ha.lt_size hb List.mem_cons_self, hlast⟩

theorem Safe.wayBack_of_comes (ha : a.Safe past) (h : Comes a r a' b) (hkind : b.kind = .loop) :
    ∃ code, a'.codes[b.opener]? = some code ∧ code.jump = b.opener := by
  cases h with
  | new kind code hr hcode hjump => exact ⟨code, hcode, hjump hkind⟩
  | kept b breaks hb hbreaks hcode =>
    obtain ⟨code, hc, hjump⟩ := ha.wayBack b hb hkind
    exact ⟨code, hcode code hc, hjump⟩

theorem Safe.step (ha : a.Safe past) (r : Request) :
    (serve r a).2.Safe (authorsBehind r (serve r a).1 past) := by
  have hc := (served r a).consistent ha.consistent
  have h := recorded r a
  rcases hs : serve r a with ⟨e | _ | codes, a'⟩
  · rw [hs] at h hc
    cases h with
    | failed hcodes hblocks =>
      refine ⟨hc, ?_, ?_, fun b hb => ?_, fun b hb => ?_⟩
      · exact hcodes ▸ ha.appended
      · exact hcodes ▸ ha.jumpsInside
      · exact ha.denotes b (hblocks.subset hb)
      · exact hcodes ▸ ha.wayBack b (hblocks.subset hb)
  · rw [hs] at h hc
    obtain ⟨happended, hinside⟩ := ha.codes_of_ok h
    exact ⟨hc, happended, hinside, fun b hb => ha.denotes_of_comes (ha.comes h b hb),
      fun b hb => ha.wayBack_of_comes (ha.comes h b hb)⟩
  · rw [hs] at h
    cases h with
    | finished => exact .empty

theorem setJump?_eq {position : Nat} (h : position < codes.size) (target : Nat) :
    setJump? codes position target = some (setJump codes position target) :=
  if_pos h

theorem setJump_push (codes : Codes) (code : Code) (target : Nat) :
    setJump (codes.push code) codes.size target = codes.push { code with jump := target } := by
  apply Array.ext_getElem?
  intro k
  rw [setJump, Array.getElem?_modify, Array.getElem?_push, Array.getElem?_push]
  by_cases hk : codes.size = k
  · rw [if_pos hk, if_pos hk.symm, if_pos hk.symm]
    rfl
  · rw [if_neg hk, if_neg (Ne.symm hk), if_neg (Ne.symm hk)]

theorem foldlM_setJump? {positions : List Nat} (h : ∀ k ∈ positions, k < codes.size)
    (target : Nat) :
    positions.foldlM (fun codes' position => setJump? codes' position target) codes =
      some (patch positions target codes) := by
  induction positions generalizing codes with
  | nil => rfl
  | cons position positions ih =>
    obtain ⟨hposition, hpositions⟩ := List.forall_mem_cons.mp h
    rw [List.foldlM_cons, setJump?_eq hposition]
    refine ih fun k hk => ?_
    rw [setJump, Array.size_modify]
    exact hpositions k hk

theorem Safe.serve?_eq (ha : a.Safe past) (r : Request) : serve? r a = some (serve r a) := by
  obtain ⟨codes, conditionals, loops⟩ := a
  cases r with
  | openLoop =>
    have hlt : codes.size < (codes.push { instruction := { operator := .whileNotZero } }).size := by
      rw [Array.size_push]
      exact Nat.lt_succ_self _
    dsimp only [serve?, openLoop?]
    rw [Array.size_push, Nat.add_sub_cancel, setJump?_eq hlt, setJump_push]
    rfl
  | closeConditional =>
    rcases conditionals with _ | ⟨opener, conditionals⟩
    · rcases loops with _ | ⟨l, loops⟩ <;> rfl
    · have hlt : opener < codes.size :=
        ha.lt_size (b := ⟨.conditional, opener, []⟩) List.mem_cons_self List.mem_cons_self
      dsimp only [serve?, closeConditional?]
      rw [setJump?_eq hlt]
      rfl
  | closeLoop =>
    rcases conditionals with _ | ⟨opener, conditionals⟩
    · rcases loops with _ | ⟨⟨opener, breaks, around⟩, loops⟩
      · rfl
      · have hmem : ⟨.loop, opener, breaks⟩ ∈
            openBlocks ⟨codes, [], ⟨opener, breaks, around⟩ :: loops⟩ := List.mem_cons_self
        obtain ⟨start, hstart, hjump⟩ := ha.wayBack _ hmem rfl
        dsimp only at hstart hjump
        dsimp only [serve?, closeLoop?]
        have hlt : ∀ k ∈ opener :: breaks, k < codes.size := fun k hk => ha.lt_size hmem hk
        rw [hstart, Option.bind_some, foldlM_setJump? hlt, hjump]
        rfl
    · rfl
  | _ => rfl

/-! ## Runs -/

theorem Safe.serveAll (ha : a.Safe past) (before : List Request) :
    (serveAll before a).Safe (authors before a past) := by
  induction before generalizing a past with
  | nil => exact ha
  | cons r before ih => exact ih (ha.step r)

theorem Safe.jumpsInside_of_answers (ha : a.Safe past) {before : List Request}
    (h : .ok (some codes) ∈ answers before a) : JumpsInside codes := by
  induction before generalizing a past with
  | nil => cases h
  | cons r before ih =>
    rcases List.mem_cons.mp h with hr | h
    · have hs := recorded r a
      rw [← hr] at hs
      generalize (serve r a).2 = a' at hs
      cases hs
      exact ha.jumpsInside
    · exact ih (ha.step r) h

theorem JumpsInside.le_size (h : JumpsInside codes) {n position position' : Nat}
    {m m' : Machine} (hs : Machine.Steps codes n position m position' m')
    (hposition : position ≤ codes.size) : position' ≤ codes.size := by
  induction hs with
  | refl => exact hposition
  | @head n position next _ m _ _ code traffic hc hs _ ih =>
    have hlt := lt_size_of_getElem? hc
    have hjump := h position code hc
    refine ih ?_
    cases Machine.leads_of_step hs with
    | next => exact hlt
    | skip => exact Nat.le_of_lt hjump
    | exit => exact hjump
    | back => exact Nat.le_of_lt hjump

/-- After any requests, some of which may have failed, no request looks outside the codes. Each
code was appended by a request that succeeded, each open block was opened where its opener
stands, its breaks are breaks behind that, and no two of these positions are the same. In codes
that a finish has handed out all jumps lead to codes, so that no run goes further than to their
end. -/
theorem serve_in_bounds (before : List Request) :
    let a := serveAll before {}
    let past := authors before {} []
    (∀ r, serve? r a = some (serve r a)) ∧
    a.codes.toList.map (fun code => some code.instruction) = past.map Request.instruction? ∧
    (∀ b ∈ a.openBlocks,
      (∃ r, r.opens? = some b.kind ∧ AppendedBy a.codes past b.opener r) ∧
      ∀ k ∈ b.breaks, b.opener < k ∧ AppendedBy a.codes past k .leave) ∧
    (a.openBlocks.flatMap OpenBlock.positions).Nodup ∧
    ∀ codes, .ok (some codes) ∈ answers before {} → JumpsInside codes ∧
      ∀ n (m m' : Machine) position, Machine.Steps codes n 0 m position m' →
        position ≤ codes.size := by
  intro a past
  have ha : a.Safe past := Safe.empty.serveAll before
  refine ⟨ha.serve?_eq, ha.appended, fun b hb => ⟨?_, fun k hk => ?_⟩, ?_, fun codes hc => ?_⟩
  · obtain ⟨r, hr, hopener⟩ := (ha.denotes b hb).opener
    exact ⟨r, hr, ha.appendedBy hopener⟩
  · obtain ⟨hlt, hleave⟩ := (ha.denotes b hb).breaks k hk
    exact ⟨hlt, ha.appendedBy hleave⟩
  · rw [positions_openBlocks]
    exact ha.consistent.nodup
  · have hinside := Safe.empty.jumpsInside_of_answers hc
    exact ⟨hinside, fun n m m' position hs => hinside.le_size hs (Nat.zero_le _)⟩

/-- A conditional's closer takes a loop off whose break is never sent anywhere, and the codes that
are handed out go round at the break. -/
theorem serve_in_bounds_dropped :
    let before : List Request := [.openLoop, .leave, .closeConditional, .finish]
    let codes : Codes := #[⟨⟨.whileNotZero, 0⟩, 0⟩, ⟨⟨.leaveLoop, 0⟩, 0⟩]
    let m : Machine := { stack := { values := [0] }, input := [], output := {} }
    let a := serveAll [.openLoop, .leave] {}
    AppendedBy a.codes [.openLoop, .leave] 1 .leave ∧
      serve? .closeConditional a = some (serve .closeConditional a) ∧
      .ok (some codes) ∈ answers before {} ∧ JumpsInside codes ∧
      Machine.Steps codes 2 0 m 1 m ∧ 1 ≤ codes.size := by
  intro before codes m a
  have hc : .ok (some codes) ∈ answers before {} := .tail _ (.tail _ (.tail _ (.head _)))
  have hs : Machine.Steps codes 2 0 m 1 m := .head rfl rfl (.head rfl rfl .refl)
  obtain ⟨hserve, -, hblocks, -⟩ := serve_in_bounds [.openLoop, .leave]
  obtain ⟨hinside, hsteps⟩ := (serve_in_bounds before).2.2.2.2 codes hc
  obtain ⟨-, hleave⟩ := (hblocks ⟨.loop, 0, [1]⟩ (.head _)).2 1 (.head _)
  exact ⟨hleave, hserve _, hc, hinside, hs, hsteps 2 m m 1 hs⟩

end Assembler

end NumNum
