import NumNum.Proofs.Machine.Frame
import NumNum.Proofs.Machine.Simulation
import NumNum.Proofs.Structure.OpenBlocks

/-!
# The positions of a run

A step goes on to the next position or along the jump of its code, so that the codes that a
program is assembled to lead forward, and back only from the end of a loop to its beginning.
Without loops a run meets each position once at most, and ends
(`Program.step_forward_or_back`).
-/

namespace NumNum

namespace Machine

variable {codes : Codes} {code : Code} {fuel position next : Nat} {m m' : Machine}
  {traffic : List Traffic}

/-! ## Where a step leads -/

/-- The code closes a loop, and the top of the stack sends it back. -/
def Repeats (code : Code) (m : Machine) : Prop :=
  code.instruction.operator = .endWhile ∧ ∃ x s, m.stack.values = x :: s ∧ x ≠ 0

/-- The positions that a code at a position can lead to. -/
inductive Leads (code : Code) (position : Nat) (m : Machine) : Nat → Prop
  | next : Leads code position m (position + 1)
  | skip (h : code.instruction.operator.role = .opener .conditional) :
      Leads code position m code.jump
  | exit (h : code.instruction.operator.role = .opener .loop ∨
        code.instruction.operator.role = .leaver) : Leads code position m (code.jump + 1)
  | back (h : m.Repeats code) : Leads code position m code.jump

theorem goto_eq_ok (h : m.goto position = ⟨.ok next, m', traffic⟩) : next = position := by
  cases h
  rfl

/-- A branch leads to the next position, or behind the jump if the top passes the test. -/
theorem branch_eq_ok {test : UInt32 → Bool} {past : Nat}
    (ha : code.instruction.operator.action = .branch test past)
    (h : m.step code position = ⟨.ok next, m', traffic⟩) :
    next = position + 1 ∨
      next = code.jump + past ∧ ∃ x s, m.stack.values = x :: s ∧ test x = true := by
  rw [step_of_branch ha, peek] at h
  rcases hs : m.stack.values with _ | ⟨x, s⟩
  · rw [hs] at h
    cases h
  · rw [hs] at h
    have hn := goto_eq_ok h
    by_cases hx : test x = true
    · rw [if_pos hx] at hn
      exact .inr ⟨hn, x, s, rfl, hx⟩
    · rw [if_neg hx] at hn
      exact .inl hn

theorem redirect_eq_ok {s : Step} (h : s.redirect position = ⟨.ok next, m', traffic⟩) :
    next = position := by
  rcases s with ⟨fault | _, m, t⟩
  · cases h
  · cases h
    rfl

theorem leads_of_step (h : m.step code position = ⟨.ok next, m', traffic⟩) :
    m.Leads code position next := by
  obtain ⟨⟨op, value⟩, jump⟩ := code
  cases hr : op.role with
  | plain =>
    rw [step_of_plain (i := ⟨op, value⟩) hr] at h
    rw [redirect_eq_ok h]
    exact .next
  | leaver =>
    cases Operator.eq_leaveLoop_of_role hr
    rw [goto_eq_ok h]
    exact .exit (.inr rfl)
  | opener kind =>
    cases kind with
    | conditional =>
      rcases branch_eq_ok (Operator.action_of_conditional hr) h with rfl | ⟨rfl, -⟩
      · exact .next
      · exact .skip hr
    | loop =>
      cases Operator.eq_whileNotZero_of_role hr
      rcases branch_eq_ok rfl h with rfl | ⟨rfl, -⟩
      · exact .next
      · exact .exit (.inl rfl)
  | closer kind =>
    cases Operator.eq_closer_of_role hr
    cases kind with
    | conditional =>
      rw [goto_eq_ok h]
      exact .next
    | loop =>
      rcases branch_eq_ok rfl h with rfl | ⟨rfl, x, s, hs, hx⟩
      · exact .next
      · exact .back ⟨rfl, x, s, hs, of_decide_eq_true hx⟩

theorem Repeats.step (h : m.Repeats code) : m.step code position = m.goto code.jump := by
  obtain ⟨hop, x, s, hs, hx⟩ := h
  rw [step_of_branch (by rw [hop]; rfl), peek, hs]
  dsimp only
  rw [if_pos (decide_eq_true hx)]
  rfl

end Machine

/-! ## The positions of a run -/

/-- The positions of the codes that are executed in a log, in order. -/
def positionsOf (log : Array Event) : List Nat := log.toList.filterMap Event.position?

theorem positionsOf_push (log : Array Event) (e : Event) :
    positionsOf (log.push e) = positionsOf log ++ e.position?.toList := by
  rw [positionsOf, Array.toList_push, List.filterMap_append, ← positionsOf]
  cases h : e.position? <;> simp [h]

namespace Machine

/-- The positions of the codes that are executed from a position on. -/
def visited (codes : Codes) : Nat → Nat → Machine → List Nat
  | 0, _, _ => []
  | fuel + 1, position, m =>
    match codes[position]? with
    | none => []
    | some code =>
      position ::
        match m.step code position with
        | ⟨.ok next, m, _⟩ => visited codes fuel next m
        | ⟨.error _, _, _⟩ => []

theorem positions_runFrom (codes : Codes) (fuel position : Nat) (m : Machine)
    (log : Array Event) (traffic : Array Traffic) :
    (runFrom codes fuel position m log traffic).positions =
      positionsOf log ++ visited codes fuel position m := by
  induction fuel generalizing position m log traffic with
  | zero =>
    unfold runFrom visited
    cases codes[position]? <;> exact (List.append_nil _).symm
  | succ fuel ih =>
    unfold runFrom visited
    cases hc : codes[position]? with
    | none => exact (List.append_nil _).symm
    | some code =>
      have hlog : positionsOf (log.push (.executing position code.instruction)) =
          positionsOf log ++ [position] := positionsOf_push ..
      dsimp only
      rcases m.step code position with ⟨fault | next, m', t⟩
      · exact hlog
      · rw [ih, hlog, List.append_assoc]
        rfl

theorem positions_finishRun (r : Run) : (finishRun r).positions = r.positions := by
  unfold finishRun
  split
  · exact (positionsOf_push ..).trans (List.append_nil _)
  · rfl
  · rfl

theorem positions_run (codes : Codes) (fuel : Nat) (m : Machine) :
    (m.run fuel codes).positions = visited codes fuel 0 m := by
  rw [run, positions_finishRun, positions_runFrom]
  rfl

theorem unfinished_of_finishRun {r : Run} (h : (finishRun r).ending = .unfinished) :
    r.ending = .unfinished := by
  unfold finishRun at h
  split at h
  · assumption
  · cases h
  · exact h

/-! ## Runs along a relation of positions -/

/-- Every step that does not fault leads to a position that is related to its own. -/
def StepsAlong (codes : Codes) (R : Nat → Nat → Prop) : Prop :=
  ∀ ⦃position code next⦄ ⦃m m' : Machine⦄ ⦃traffic⦄, codes[position]? = some code →
    m.step code position = ⟨.ok next, m', traffic⟩ → R position next

theorem head?_visited {x : Nat} (h : (visited codes fuel position m).head? = some x) :
    x = position := by
  cases fuel with
  | zero => cases h
  | succ fuel =>
    rw [visited] at h
    cases hc : codes[position]? with
    | none =>
      rw [hc] at h
      cases h
    | some code =>
      rw [hc] at h
      cases h
      rfl

theorem StepsAlong.isChain {R : Nat → Nat → Prop} (h : StepsAlong codes R) :
    (visited codes fuel position m).IsChain R := by
  induction fuel generalizing position m with
  | zero => exact .nil
  | succ fuel ih =>
    rw [visited]
    cases hc : codes[position]? with
    | none => exact .nil
    | some code =>
      dsimp only
      rcases hs : m.step code position with ⟨fault | next, m', t⟩
      · exact .singleton _
      · refine List.isChain_cons.mpr ⟨fun x hx => ?_, ih⟩
        rw [head?_visited hx]
        exact h hc hs

/-- A run that only goes forward makes no more steps than there are positions ahead of it. -/
theorem StepsAlong.length_visited_le
    (h : StepsAlong codes fun position next => position < next ∧ next ≤ codes.size) :
    (visited codes fuel position m).length ≤ codes.size - position := by
  induction fuel generalizing position m with
  | zero => exact Nat.zero_le _
  | succ fuel ih =>
    rw [visited]
    cases hc : codes[position]? with
    | none => exact Nat.zero_le _
    | some code =>
      obtain ⟨hlt, -⟩ := Array.getElem?_eq_some_iff.mp hc
      dsimp only
      rcases hs : m.step code position with ⟨fault | next, m', t⟩
      · rw [List.length_singleton]
        omega
      · obtain ⟨hnext, hle⟩ := h hc hs
        have hrest : (visited codes fuel next m').length ≤ codes.size - next := ih
        dsimp only
        rw [List.length_cons]
        omega

theorem StepsAlong.ending_ne_unfinished
    (h : StepsAlong codes fun position next => position < next ∧ next ≤ codes.size)
    (hfuel : codes.size ≤ fuel + position) (log : Array Event) (traffic : Array Traffic) :
    (runFrom codes fuel position m log traffic).ending ≠ .unfinished := by
  induction fuel generalizing position m log traffic with
  | zero =>
    unfold runFrom
    rw [Array.getElem?_eq_none (by omega)]
    intro he
    cases he
  | succ fuel ih =>
    unfold runFrom
    cases hc : codes[position]? with
    | none =>
      intro he
      cases he
    | some code =>
      dsimp only
      rcases hs : m.step code position with ⟨fault | next, m', t⟩
      · intro he
        cases he
      · -- a step costs one unit of fuel and leaves one position behind at least
        obtain ⟨hnext, -⟩ := h hc hs
        exact ih (by omega) _ _

end Machine

/-! ## Programs -/

namespace Program

variable {p : Program} {codes : Codes} {code : Code} {position next : Nat} {m m' : Machine}
  {traffic : List Traffic}

/-- The codes of a program stand where its instructions do, and have the jumps of its blocks. -/
theorem code_of_assemble (h : p.assemble = .ok codes) :
    codes.size = p.length ∧ ∀ k code, codes[k]? = some code →
      p.roleAt k = some code.instruction.operator.role ∧ p.JumpAt k code.jump := by
  unfold assemble at h
  rcases hp : Assembler.placeAll p {} with ⟨_ | _, a⟩
  · rw [hp] at h
    cases h
  · rw [hp] at h
    obtain ⟨b, rfl, rfl, -⟩ := exists_block_of_finish hp (Prod.ext h rfl)
    refine ⟨by simp [Block.size], fun k code hk => ?_⟩
    have hk' : (b.codes 0 0)[k]? = some code := by simpa using hk
    have hinstr := congrArg (·[k]?) (b.map_instruction_codes 0 0)
    rw [List.getElem?_map, List.getElem?_map, hk'] at hinstr
    obtain ⟨i, hi, hcanonical⟩ := Option.map_eq_some_iff.mp hinstr.symm
    -- the tree of a whole program stands in no loop, so the exit does not matter
    have hjump := b.laid_jumpAt 0 0 (stands_append_right [] b.program)
      (fun hb => absurd hb Bool.false_ne_true) k code hk'
    rw [Nat.zero_add] at hjump
    refine ⟨?_, hjump⟩
    rw [roleAt, hi, ← hcanonical]
    rfl

/-- A jump leads forward to a position of the program, but for the one of a loop's closer. -/
theorem JumpAt.lt {jump : Nat} {role : Role} (h : p.JumpAt position jump)
    (hr : p.roleAt position = some role)
    (hrole : (∃ kind, role = .opener kind) ∨ role = .leaver) :
    position < jump ∧ jump < p.length := by
  unfold JumpAt at h
  rw [hr] at h
  rcases hrole with ⟨kind, rfl⟩ | rfl
  · exact ⟨h.lt, lt_length_of_roleAt h.closer⟩
  · obtain ⟨opener, hm, -, hlt, -⟩ := h
    exact ⟨hlt, lt_length_of_roleAt hm.closer⟩

theorem forward_of_step (h : p.assemble = .ok codes) (hc : codes[position]? = some code)
    (hs : m.step code position = ⟨.ok next, m', traffic⟩) (hback : ¬ m.Repeats code) :
    position < next ∧ next ≤ p.length := by
  obtain ⟨hsize, hcodes⟩ := code_of_assemble h
  obtain ⟨hr, hjump⟩ := hcodes position code hc
  have hlt := lt_length_of_roleAt hr
  cases Machine.leads_of_step hs with
  | next => exact ⟨Nat.lt_succ_self _, hlt⟩
  | skip hrole =>
    obtain ⟨hj, hle⟩ := hjump.lt hr (.inl ⟨_, hrole⟩)
    exact ⟨hj, Nat.le_of_lt hle⟩
  | exit hrole =>
    obtain ⟨hj, hle⟩ := hjump.lt hr (hrole.imp_left fun h => ⟨_, h⟩)
    exact ⟨Nat.lt_succ_of_lt hj, hle⟩
  | back hb => exact absurd hb hback

theorem matches_of_repeats (h : p.assemble = .ok codes) (hc : codes[position]? = some code)
    (hb : m.Repeats code) : p.Matches .loop code.jump position := by
  obtain ⟨hr, hjump⟩ := (code_of_assemble h).2 position code hc
  rw [hb.1] at hr
  unfold JumpAt at hjump
  rw [hr] at hjump
  exact hjump

theorem not_repeats_of_loopless (h : p.assemble = .ok codes)
    (hloop : ∀ i ∈ p, i.operator ≠ .whileNotZero) (hc : codes[position]? = some code) :
    ¬ m.Repeats code := by
  intro hb
  obtain ⟨i, hi, hr⟩ := Option.map_eq_some_iff.mp (matches_of_repeats h hc hb).opener
  exact hloop i (List.mem_of_getElem? hi) (Operator.eq_whileNotZero_of_role hr)

/-- In the codes of a program, a loop's closer with a top that is not zero leads back to the
opener of the loop, and every other code faults or leads forward, at most to the end. So the
positions of a run only go back from a closer to its opener, and without loops each position is
executed once at most and the run ends after no more steps than there are codes. -/
theorem step_forward_or_back (h : p.assemble = .ok codes) :
    (∀ position code (m : Machine), codes[position]? = some code →
      (m.Repeats code → ∃ opener, m.step code position = m.goto opener ∧
        p.Matches .loop opener position) ∧
      (¬ m.Repeats code → ∀ next, (m.step code position).outcome = .ok next →
        position < next ∧ next ≤ p.length)) ∧
    (∀ fuel (m : Machine), (m.run fuel codes).positions.IsChain fun position next =>
      position < next ∨ p.Matches .loop next position) ∧
    ((∀ i ∈ p, i.operator ≠ .whileNotZero) → ∀ fuel (m : Machine),
      (m.run fuel codes).positions.Nodup ∧ (m.run fuel codes).positions.length ≤ p.length ∧
        (p.length ≤ fuel → (m.run fuel codes).ending ≠ .unfinished)) := by
  obtain ⟨hsize, -⟩ := code_of_assemble h
  refine ⟨fun position code m hc => ⟨fun hb => ?_, fun hb next hn => ?_⟩, fun fuel m => ?_,
    fun hloop fuel m => ?_⟩
  · exact ⟨code.jump, hb.step, matches_of_repeats h hc hb⟩
  · rcases hs : m.step code position with ⟨outcome, m', traffic⟩
    rw [hs] at hn
    cases hn
    exact forward_of_step h hc hs hb
  · have hsteps : Machine.StepsAlong codes fun position next =>
        position < next ∨ p.Matches .loop next position := by
      intro position code next m m' traffic hc hs
      by_cases hb : m.Repeats code
      · rw [hb.step] at hs
        rw [Machine.goto_eq_ok hs]
        exact .inr (matches_of_repeats h hc hb)
      · exact .inl (forward_of_step h hc hs hb).1
    rw [Machine.positions_run]
    exact hsteps.isChain
  · have hsteps : Machine.StepsAlong codes fun position next =>
        position < next ∧ next ≤ codes.size := by
      intro position code next m m' traffic hc hs
      rw [hsize]
      exact forward_of_step h hc hs (not_repeats_of_loopless h hloop hc)
    have hlt : Machine.StepsAlong codes (· < ·) := fun _ _ _ _ _ _ hc hs => (hsteps hc hs).1
    rw [Machine.positions_run]
    refine ⟨?_, ?_, fun hfuel hu => ?_⟩
    · exact (List.isChain_iff_pairwise.mp hlt.isChain).imp Nat.ne_of_lt
    · rw [← hsize]
      exact hsteps.length_visited_le
    · exact hsteps.ending_ne_unfinished (hsize ▸ hfuel) _ _ (Machine.unfinished_of_finishRun hu)

/-- A loop that goes round with a one on the stack, and a conditional that no run stays in. -/
theorem step_forward_or_back_loop :
    let p : Program := [⟨.whileNotZero, 0⟩, ⟨.copy, 0⟩, ⟨.endWhile, 0⟩]
    let q : Program := [⟨.ifZero, 0⟩, ⟨.pop, 0⟩, ⟨.endIf, 0⟩]
    let closer : Code := ⟨⟨.endWhile, 0⟩, 0⟩
    let m : Machine := { stack := { values := [1] }, input := [], output := {} }
    p.assemble = .ok #[⟨⟨.whileNotZero, 0⟩, 2⟩, ⟨⟨.copy, 0⟩, 0⟩, closer] ∧
      m.Repeats closer ∧ (∃ opener, m.step closer 2 = m.goto opener ∧ p.Matches .loop opener 2) ∧
      (m.step ⟨⟨.copy, 0⟩, 0⟩ 1).outcome = .ok 2 ∧ 1 < 2 ∧ 2 ≤ p.length ∧
      q.assemble = .ok #[⟨⟨.ifZero, 0⟩, 2⟩, ⟨⟨.pop, 0⟩, 0⟩, ⟨⟨.endIf, 0⟩, 0⟩] ∧
      (m.run 3 #[⟨⟨.ifZero, 0⟩, 2⟩, ⟨⟨.pop, 0⟩, 0⟩, ⟨⟨.endIf, 0⟩, 0⟩]).ending ≠ .unfinished := by
  intro p q closer m
  have hp : p.assemble = .ok #[⟨⟨.whileNotZero, 0⟩, 2⟩, ⟨⟨.copy, 0⟩, 0⟩, closer] := rfl
  have hq : q.assemble = .ok #[⟨⟨.ifZero, 0⟩, 2⟩, ⟨⟨.pop, 0⟩, 0⟩, ⟨⟨.endIf, 0⟩, 0⟩] := rfl
  have hback : m.Repeats closer := ⟨rfl, 1, [], rfl, by decide⟩
  have hcopy : ¬ m.Repeats ⟨⟨.copy, 0⟩, 0⟩ := fun hb => nomatch hb.1
  have hloop : ∀ i ∈ q, i.operator ≠ .whileNotZero := by decide
  obtain ⟨hstep, -, -⟩ := step_forward_or_back hp
  obtain ⟨-, -, hends⟩ := step_forward_or_back hq
  obtain ⟨hforward, hle⟩ := (hstep 1 _ m rfl).2 hcopy 2 rfl
  exact ⟨hp, hback, (hstep 2 closer m rfl).1 hback, rfl, hforward, hle, hq,
    (hends hloop 3 m).2.2 (Nat.le_refl 3)⟩

end Program

end NumNum
