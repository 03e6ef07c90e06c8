import Mathlib.Data.Set.Card
import NumNum.Proofs.Structure.Jumps

/-!
# Open blocks

`Program.OpenAt` says of a position that a block is opened there that is not closed, in the
sense of `Program.Matches`. In an unfinished tree these are the blocks that the tree keeps
open (`Program.Opens.openAt_iff`), and the assembler keeps their kinds
(`Opening.opens_program`).
-/

namespace NumNum

namespace Program

/-- A block of this kind is opened at `k`, and nothing closes it. -/
def OpenAt (p : Program) (kind : BlockKind) (k : Nat) : Prop :=
  p.roleAt k = some (.opener kind) ∧ ∀ j, ¬ p.Matches kind k j

/-- A block is open, and the innermost one is of this kind. -/
def InnermostOpen (p : Program) (kind : BlockKind) : Prop :=
  ∃ k, p.OpenAt kind k ∧ ∀ kind' k', p.OpenAt kind' k' → k' ≤ k

/-- How many blocks are opened and not closed. -/
noncomputable def openCount (p : Program) : Nat := {k | ∃ kind, p.OpenAt kind k}.ncard

/-- The positions and kinds of open blocks, innermost first: a tree stands behind each opener. -/
inductive Opens : Program → List (Nat × BlockKind) → Prop where
  | top {inLoop : Bool} (b : Block inLoop) : Opens b.program []
  | block {p : Program} {opens : List (Nat × BlockKind)} (outer : Opens p opens)
      {kind : BlockKind} (opener : Part (.opener kind)) {inLoop : Bool} (b : Block inLoop) :
      Opens (p ++ opener.1 :: b.program) ((p.length, kind) :: opens)

/-! ## Longer programs -/

section
variable {p : Program} {kind : BlockKind} {i j k n : Nat}

theorem lt_length_of_roleAt {role : Role} (h : p.roleAt i = some role) : i < p.length := by
  obtain ⟨instruction, hi, -⟩ := Option.map_eq_some_iff.mp h
  exact (List.getElem?_eq_some_iff.mp hi).1

theorem roleAt_append {role : Role} (h : p.roleAt i = some role) (q : Program) :
    (p ++ q).roleAt i = some role := by
  rw [roleAt, List.getElem?_append_left (lt_length_of_roleAt h)]
  exact h

theorem roleAt_append_opener (p : Program) (opener : Part (.opener kind)) (q : Program) :
    (p ++ opener.1 :: q).roleAt p.length = some (.opener kind) := by
  simp [roleAt, opener.2]

theorem height_append (q : Program) (h : n ≤ p.length) : (p ++ q).height n = p.height n := by
  rw [height, height, List.take_append_of_le_length h]

/-- What stands behind a closer does not undo the match. -/
theorem Matches.append (h : p.Matches kind i j) (q : Program) : (p ++ q).Matches kind i j := by
  refine ⟨roleAt_append h.opener q, roleAt_append h.closer q, h.lt, ?_⟩
  have hj := lt_length_of_roleAt h.closer
  have hi := h.lt
  have hb := h.between
  rw [List.extract_eq_take_drop] at hb ⊢
  rw [List.drop_append_of_le_length (by omega),
    List.take_append_of_le_length (by rw [List.length_drop]; omega)]
  exact hb

end

end Program

/-! ## Every opener is closed or open -/

/-- Inside a tree every opener has its closer. -/
theorem Block.laid_matches {p : Program} {inLoop : Bool} (b : Block inLoop) (start : Nat)
    (h : Stands b.program start p) :
    Laid (fun k i => ∀ kind, i.operator.role = .opener kind → ∃ j, p.Matches kind k j) start
      b.program := by
  induction b generalizing start with
  | done => exact laid_nil
  | plain i rest ih =>
    obtain ⟨-, hrest⟩ := laid_cons.mp h
    exact laid_cons.mpr ⟨by simp [i.2], ih _ hrest⟩
  | conditional opener body closer rest ihb ihr =>
    have hm := matches_of_stands h
    obtain ⟨-, hbody, -, hrest⟩ := by simpa only [program, laid_cons, laid_append] using h
    simp only [program, laid_cons, laid_append]
    refine ⟨fun kind hk => ?_, ihb _ hbody, by simp [closer.2], ihr _ hrest⟩
    cases opener.2.symm.trans hk
    exact ⟨_, hm⟩
  | loop opener body closer rest ihb ihr =>
    have hm := matches_of_stands h
    obtain ⟨-, hbody, -, hrest⟩ := by simpa only [program, laid_cons, laid_append] using h
    simp only [program, laid_cons, laid_append]
    refine ⟨fun kind hk => ?_, ihb _ hbody, by simp [closer.2], ihr _ hrest⟩
    cases opener.2.symm.trans hk
    exact ⟨_, hm⟩
  | leave i rest ih =>
    obtain ⟨-, hrest⟩ := laid_cons.mp h
    exact laid_cons.mpr ⟨by simp [i.2], ih _ hrest⟩

namespace Program

theorem stands_append_right (p q : Program) : Stands q p.length (p ++ q) := by
  intro k i hk
  rwa [List.getElem?_append_right (Nat.le_add_right _ _), Nat.add_sub_cancel_left]

/-- A tree behind an opener does not close it. -/
theorem le_height_opener {p : Program} {kind : BlockKind} (opener : Part (.opener kind))
    {inLoop : Bool} (b : Block inLoop) {n : Nat} (hn : p.length < n) :
    (p ++ opener.1 :: b.program).height (p.length + 1) ≤
      (p ++ opener.1 :: b.program).height n := by
  obtain ⟨d, rfl⟩ := Nat.exists_eq_add_of_le (Nat.succ_le_of_lt hn)
  have hd := b.depth_take_program d
  rw [height_add _ (p.length + 1) d, List.append_cons, List.drop_left' (by simp)]
  omega

namespace Opens

variable {p : Program} {opens : List (Nat × BlockKind)} {kind : BlockKind} {k n : Nat}

theorem laid (h : p.Opens opens) :
    Laid (fun k i => ∀ kind, i.operator.role = .opener kind →
      (k, kind) ∈ opens ∨ ∃ j, p.Matches kind k j) 0 p := by
  induction h with
  | top b =>
    intro k i hk kind hr
    exact .inr (b.laid_matches 0 (stands_append_right [] b.program) k i hk kind hr)
  | @block p opens outer kind opener inLoop b ih =>
    have hstands := stands_append_right (p ++ [opener.1]) b.program
    rw [List.append_assoc] at hstands
    refine laid_append.mpr ⟨fun k i hk kind' hr => ?_, laid_cons.mpr ⟨fun kind' hr => ?_, ?_⟩⟩
    · rcases ih k i hk kind' hr with hmem | ⟨j, hm⟩
      · exact .inl (List.mem_cons_of_mem _ hmem)
      · exact .inr ⟨j, hm.append _⟩
    · cases opener.2.symm.trans hr
      rw [Nat.zero_add]
      exact .inl List.mem_cons_self
    · intro k i hk kind' hr
      have hlaid := b.laid_matches _ hstands k i hk kind' hr
      rw [List.length_append, List.length_singleton] at hlaid
      rw [Nat.zero_add]
      exact .inr hlaid

/-! ## What is open is not closed -/

theorem roleAt (h : p.Opens opens) (hk : (k, kind) ∈ opens) :
    p.roleAt k = some (.opener kind) := by
  induction h with
  | top b => cases hk
  | block outer opener b ih =>
    rcases List.mem_cons.mp hk with he | hk
    · cases he
      exact roleAt_append_opener _ opener _
    · exact roleAt_append (ih hk) _

/-- Behind the opener of an open block no more is closed than was opened. -/
theorem le_height (h : p.Opens opens) (hk : (k, kind) ∈ opens) (hn : k < n) :
    p.height (k + 1) ≤ p.height n := by
  induction h generalizing n with
  | top b => cases hk
  | @block p opens outer kind' opener inLoop b ih =>
    rcases List.mem_cons.mp hk with he | hk
    · cases he
      exact le_height_opener opener b hn
    · have hlt : k + 1 ≤ p.length := lt_length_of_roleAt (outer.roleAt hk)
      rw [height_append _ hlt]
      by_cases hn' : n ≤ p.length
      · rw [height_append _ hn']
        exact ih hk hn
      · have hle := ih hk hlt
        have hsucc := height_succ (roleAt_append_opener p opener b.program)
        have hbehind := le_height_opener opener b (p := p) (n := n) (by omega)
        rw [height_append _ (Nat.le_refl _), Role.shift] at hsucc
        omega

/-- The open blocks of an unfinished tree are the openers without a closer. -/
theorem openAt_iff (h : p.Opens opens) : p.OpenAt kind k ↔ (k, kind) ∈ opens := by
  constructor
  · rintro ⟨hr, hm⟩
    obtain ⟨i, hi, hrole⟩ := Option.map_eq_some_iff.mp hr
    have hk := h.laid k i hi kind hrole
    rw [Nat.zero_add] at hk
    rcases hk with hmem | ⟨j, hj⟩
    · exact hmem
    · exact absurd hj (hm j)
  · intro hk
    refine ⟨h.roleAt hk, fun j hj => ?_⟩
    have hle := h.le_height hk (n := j + 1) (Nat.lt_succ_of_lt hj.lt)
    have hsucc := height_succ hj.closer
    rw [hj.height_closer, Role.shift] at hsucc
    omega

/-! ## In order -/

theorem pairwise (h : p.Opens opens) : opens.Pairwise fun a b => b.1 < a.1 := by
  induction h with
  | top b => exact .nil
  | block outer opener b ih =>
    exact .cons (fun a ha => lt_length_of_roleAt (outer.roleAt ha)) ih

theorem innermostOpen_iff (h : p.Opens opens) :
    p.InnermostOpen kind ↔ (opens.map Prod.snd).head? = some kind := by
  constructor
  · rintro ⟨k, hk, hmax⟩
    have hmem := h.openAt_iff.mp hk
    rcases opens with _ | ⟨⟨k₀, kind₀⟩, opens⟩
    · cases hmem
    · rcases List.mem_cons.mp hmem with he | hmem
      · cases he
        rfl
      · have hle := hmax kind₀ k₀ (h.openAt_iff.mpr List.mem_cons_self)
        have hlt := List.rel_of_pairwise_cons h.pairwise hmem
        exact absurd hlt (Nat.not_lt.mpr hle)
  · intro hh
    rcases opens with _ | ⟨⟨k₀, kind₀⟩, opens⟩
    · cases hh
    · cases hh
      refine ⟨k₀, h.openAt_iff.mpr List.mem_cons_self, fun kind' k' hk' => ?_⟩
      rcases List.mem_cons.mp (h.openAt_iff.mp hk') with he | hmem
      · cases he
        exact Nat.le_refl _
      · exact Nat.le_of_lt (List.rel_of_pairwise_cons h.pairwise hmem)

theorem exists_openAt_iff (h : p.Opens opens) :
    (∃ k, p.OpenAt kind k) ↔ kind ∈ opens.map Prod.snd := by
  simp [h.openAt_iff]

theorem openCount_eq (h : p.Opens opens) : p.openCount = opens.length := by
  have hset : {k | ∃ kind, p.OpenAt kind k} = ↑(opens.map Prod.fst).toFinset := by
    ext k
    simp [h.openAt_iff]
  have hnodup : (opens.map Prod.fst).Nodup :=
    List.pairwise_map.mpr (h.pairwise.imp fun hlt => Nat.ne_of_gt hlt)
  rw [openCount, hset, Set.ncard_coe_finset, List.toFinset_card_of_nodup hnodup, List.length_map]

end Opens

end Program

/-! ## The assembler -/

theorem Assembler.blocks_after {inLoop : Bool} (a : Assembler) (b : Block inLoop) :
    (a.after b).blocks = a.blocks := by
  obtain ⟨codes, conditionals, _ | ⟨l, loops⟩⟩ := a <;> simp [after, blocks, addBreaks]

/-- The assembler keeps the kinds of the open blocks. -/
theorem Opening.opens_program {inLoop : Bool} (z : Opening inLoop) :
    ∃ opens, z.program.Opens opens ∧ opens.map Prod.snd = z.assembler.blocks := by
  induction z with
  | top before => exact ⟨[], .top before, rfl⟩
  | conditional outer opener before ih =>
    obtain ⟨opens, ho, hb⟩ := ih
    refine ⟨_, .block ho opener before, ?_⟩
    rw [assembler, Assembler.blocks_after, List.map_cons, hb]
    rfl
  | loop outer opener before ih =>
    obtain ⟨opens, ho, hb⟩ := ih
    refine ⟨_, .block ho opener before, ?_⟩
    rw [assembler, Assembler.blocks_after, List.map_cons, hb]
    rfl

end NumNum
