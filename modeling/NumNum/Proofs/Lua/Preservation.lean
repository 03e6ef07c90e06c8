import NumNum.Proofs.Lua.Chunks
import NumNum.Proofs.Machine.Sequence

/-!
# Generated programs mean what the machine does

The lines of a tree end as its execution ends, with the tables that the machine holds and
the output that it has written (`Block.matches_eval`). Only the count of the stack's values
would tell the two apart, so the depth of the stack has to fit in a word along the run.
-/

namespace NumNum

open Lua Machine

/-! ## Bounded depth -/

/-- From this position and machine on, the depth of the stack always fits in a word. -/
def Shallow (codes : Codes) (start : Nat) (m : Machine) : Prop :=
  ∀ n position m', Steps codes n start m position m' → m'.stack.depth < UInt32.size

section
variable {codes : Codes} {start position n : Nat} {m m' : Machine}

theorem Shallow.depth_lt (h : Shallow codes start m) : m.stack.depth < UInt32.size :=
  h 0 start m .refl

theorem Shallow.steps (h : Shallow codes start m) (hs : Steps codes n start m position m') :
    Shallow codes position m' :=
  fun _ _ _ hs' => h _ _ _ (hs.trans hs')

end

/-! ## Sequences and guards -/

namespace Lua

variable {inLoop : Bool} {before : List UInt8} {m : Machine} {s : State} {x y : Exec Unit}

theorem Matches.andThen {e : Exit inLoop} {k : Machine → Exit inLoop}
    (h : Matches before e (x.run s))
    (hk : ∀ m' s', e = .through m' → Agrees before m' s' → Matches before (k m') (y.run s')) :
    Matches before (e.andThen k) ((do x; y).run s) := by
  rw [EStateM.run_bind]
  generalize x.run s = r at h ⊢
  cases h with
  | through ha => exact hk _ _ rfl ha
  | left ha => exact .left ha
  | stopped ho => exact .stopped ho
  | unfinished => exact .unfinished

theorem guard_eval (h : Agrees before m s) (op op' : Operator) (c : Comparison) :
    (Condition.eval ⟨.top op, c, .number 0⟩).run s =
      match m.peek op' with
      | .error _ => .error .error s
      | .ok x => .ok (c.onWords x 0) s := by
  have hs := h.stack
  unfold peek
  cases hv : m.stack.values with
  | nil =>
    rw [hv] at hs
    simp only [Condition.eval, Expr.eval, EStateM.run_bind, EStateM.run_get, hs, List.map_nil,
      List.head?_nil, run_valueOr_none]
  | cons x values =>
    rw [hv] at hs
    refine condition_eval ?_ (number_gives (by decide))
    simp [Expr.Gives, hs]

theorem matches_guard (h : Agrees before m s) (op : Operator) {e : Exit inLoop}
    (hx : ∀ y, m.peek op = .ok y → y ≠ 0 → Matches before e ((Chunk.untilLeft x).run s)) :
    Matches before
      (match m.peek op with
      | .error fault => .stopped fault m
      | .ok y => if y = 0 then .through m else e : Exit inLoop)
      ((Chunk.untilLeft (branch loopGuard.eval x (pure ()))).run s) := by
  have hg := guard_eval h .whileNotZero op .unequal
  cases hp : m.peek op with
  | error fault =>
    rw [hp] at hg
    rw [Chunk.run_untilLeft, branch, EStateM.run_bind, loopGuard, hg]
    exact .stopped h.output
  | ok y =>
    rw [hp] at hg
    dsimp only
    rw [Chunk.run_untilLeft, loopGuard, run_branch hg]
    by_cases hy : y = 0
    · rw [if_pos hy, hy]
      exact .through h
    · have hne : Comparison.unequal.onWords y 0 = true := decide_eq_true hy
      rw [if_neg hy, hne]
      exact hx y hp hy

end Lua

namespace Block

variable {inLoop : Bool} {before : List UInt8} {codes : Codes} {fuel start exit : Nat}
  {m : Machine} {s : State}

theorem matches_append {b c : Block inLoop}
    (hlaid : Laid (fun i code => codes[i]? = some code) start ((b.append c).codes start exit))
    (hdepth : Shallow codes start m) {x y : Exec Unit}
    (hb : Matches before (b.eval fuel m) (x.run s))
    (hc : ∀ m' s', Laid (fun i code => codes[i]? = some code) (start + b.size)
        (c.codes (start + b.size) exit) → Shallow codes (start + b.size) m' → Agrees before m' s' →
      Matches before (c.eval fuel m') (y.run s')) :
    Matches before ((b.append c).eval fuel m) ((do x; y).run s) := by
  rw [codes_append, laid_append, length_codes] at hlaid
  rw [eval_append]
  refine hb.andThen fun m' s' he ha => ?_
  have hf := b.follows_eval fuel start exit m hlaid.1
  rw [he] at hf
  obtain ⟨n, hn⟩ := hf
  exact hc m' s' hlaid.2 (hdepth.steps hn) ha

/-- The rounds of a loop, with a look at the top ahead of each of them. The steps from one
round to the next lead over the closer and the opener, which stand around the body. -/
theorem matches_rounds {closer k : Nat} {body : Machine → Exit true} {x : Exec Unit}
    (ho : codes[start]? = some { instruction := { operator := .whileNotZero }, jump := closer })
    (hc : codes[closer]? = some { instruction := { operator := .endWhile }, jump := start })
    (hfollows : ∀ m, Follows codes (start + 1) closer closer fuel m (body m))
    (hbody : ∀ m s, Shallow codes (start + 1) m → Agrees before m s →
      Matches before (body m) (x.run s)) (op : Operator)
    (hdepth : ∀ y, m.peek op = .ok y → y ≠ 0 → Shallow codes (start + 1) m)
    (h : Agrees before m s) :
    Matches before
      (match m.peek op with
      | .error fault => .stopped fault m
      | .ok y => if y = 0 then .through m else rounds body k m : Exit inLoop)
      ((Chunk.untilLeft (Chunk.rounds loopGuard.eval x k)).run s) := by
  induction k generalizing m s op with
  | zero =>
    refine matches_guard h op fun y hp hy => ?_
    exact .unfinished
  | succ k ih =>
    refine matches_guard h op fun y hp hy => ?_
    have hd := hdepth y hp hy
    have hb := hbody m s hd h
    have hf := hfollows m
    rw [Chunk.run_untilLeft, EStateM.run_bind, rounds]
    generalize x.run s = r at hb
    generalize body m = e at hb hf
    cases hb with
    | through ha =>
      -- the machine looks at the top at the closer and once more at the opener
      obtain ⟨n, hn⟩ := hf
      refine ih .endWhile (fun z hz hne => ?_) ha
      have hjump := steps_jump hc rfl rfl hz (decide_eq_true hne)
      have hnext := steps_next ho rfl rfl (peek_ok hz _) (decide_eq_false hne)
      exact ((hd.steps hn).steps hjump).steps hnext
    | left ha => exact .through ha
    | stopped ho => exact .stopped ho
    | unfinished => exact .unfinished

theorem eval_plain_done (i : Part .plain) :
    (plain i done : Block inLoop).eval fuel m =
      (m.step { instruction := i.1.canonical } 0).exit := by
  rw [eval]
  rcases m.step { instruction := i.1.canonical } 0 with ⟨_ | _, m', t⟩ <;> rfl

theorem matches_conditional {opener : Part (.opener .conditional)} {body : Block inLoop}
    (closer : Part (.closer .conditional)) {x : Exec Unit} (h : Agrees before m s)
    (hbody : ∀ y, m.peek opener.1.operator = .ok y → opener.1.operator.enters y = true →
      Matches before (body.eval fuel m) (x.run s)) :
    Matches before ((conditional opener body closer done).eval fuel m)
      ((branch opener.1.operator.guard.eval x (pure ())).run s) := by
  have hg := guard_eval h opener.1.operator opener.1.operator
    (if opener.1.operator = .ifZero then .equal else .unequal)
  rw [eval]
  cases hp : m.peek opener.1.operator with
  | error fault =>
    rw [hp] at hg
    rw [branch, EStateM.run_bind, Operator.guard, hg]
    exact .stopped h.output
  | ok y =>
    rw [hp] at hg
    dsimp only at hg ⊢
    rw [Operator.onWords_guard opener.2] at hg
    rw [Operator.guard, run_branch hg]
    by_cases hy : opener.1.operator.enters y = true
    · rw [if_pos hy, hy]
      exact (Exit.andThen_through _).symm ▸ hbody y hp hy
    · rw [if_neg hy, Bool.eq_false_iff.mpr hy]
      exact .through h

theorem eval_loop_done (opener : Part (.opener .loop)) (body : Block true)
    (closer : Part (.closer .loop)) :
    (loop opener body closer done : Block inLoop).eval fuel m =
      match m.peek .whileNotZero with
      | .error fault => .stopped fault m
      | .ok y => if y = 0 then .through m else rounds (body.eval fuel) fuel m := by
  rw [eval]
  cases m.peek .whileNotZero with
  | error fault => rfl
  | ok y =>
    dsimp only
    rw [show eval fuel (done : Block inLoop) = .through from rfl, Exit.andThen_through]

/-- The lines of a tree end as its execution does. -/
theorem matches_eval (b : Block inLoop)
    (hlaid : Laid (fun i code => codes[i]? = some code) start (b.codes start exit))
    (hinput : ∀ i ∈ b.program, i.operator ≠ .inputCharacter ∧ i.operator ≠ .inputInteger)
    (hdepth : Shallow codes start m) (h : Agrees before m s) :
    Matches before (b.eval fuel m) ((b.lua.exec fuel).run s) := by
  induction b generalizing start exit m s with
  | done => exact .through h
  | plain i rest ih =>
    rw [Block.lua, Chunk.exec_behind]
    refine matches_append (b := plain i done) hlaid hdepth ?_ fun m' s' hrest hd ha => ?_
    · rw [eval_plain_done]
      exact performs_statements i.2 (hinput i.1 List.mem_cons_self) hdepth.depth_lt h
    · exact ih hrest (fun j hj => hinput j (List.mem_cons_of_mem _ hj)) hd ha
  | conditional opener body closer rest ihb ihr =>
    refine matches_append (b := conditional opener body closer done) hlaid hdepth ?_
      fun m' s' hrest hd ha => ?_
    · obtain ⟨ho, hbody, -, -⟩ := by
        simpa only [Block.codes, laid_cons, laid_append, length_codes] using hlaid
      refine matches_conditional closer h fun y hp hy => ?_
      have hstep := steps_next ho rfl (Operator.action_of_conditional opener.2) hp
        (by rw [hy]; rfl)
      exact ihb hbody (fun j hj => hinput j (by simp [program, hj])) (hdepth.steps hstep) h
    · exact ihr hrest (fun j hj => hinput j (by simp [program, hj])) hd ha
  | loop opener body closer rest ihb ihr =>
    refine matches_append (b := loop opener body closer done) hlaid hdepth ?_
      fun m' s' hrest hd ha => ?_
    · obtain ⟨ho, hbody, hc, -⟩ := by
        simpa only [Block.codes, laid_cons, laid_append, length_codes] using hlaid
      rw [eval_loop_done]
      refine matches_rounds ho hc (fun m => body.follows_eval fuel _ _ m hbody) ?_ _ ?_ h
      · intro m s hd ha
        exact ihb hbody (fun j hj => hinput j (by simp [program, hj])) hd ha
      · intro y hp hy
        exact hdepth.steps (steps_next ho rfl rfl hp (decide_eq_false hy))
    · exact ihr hrest (fun j hj => hinput j (by simp [program, hj])) hd ha
  | leave i rest ih => exact .left h

end Block

/-! ## Programs -/

section
variable {b : Block false} {before : List UInt8} {m m' : Machine} {s : State}
  {fault : MachineFault}

/-- The ends of the lines, with each bound on the rounds, are those of the tree. -/
def Block.Mirrored (b : Block false) (before : List UInt8) (m : Machine) : Prop :=
  ∀ fuel, Matches before (b.eval fuel m) ((b.lua.exec fuel).run {})

variable (h : b.Mirrored before m)
include h

theorem Block.Mirrored.ends_of_halts (hs : b.lua.Halts s) :
    ∃ m', b.Ends m (.ok ()) m' ∧ Agrees before m' s := by
  obtain ⟨fuel, hr⟩ := hs
  have hm := h fuel
  rw [hr] at hm
  generalize he : b.eval fuel m = e at hm
  cases hm with
  | through ha => exact ⟨_, ⟨fuel, by rw [he]; rfl⟩, ha⟩

theorem Block.Mirrored.ends_of_raises (hs : b.lua.Raises s) :
    ∃ fault m', b.Ends m (.error fault) m' ∧ m'.output.written.toList = before ++ s.output := by
  obtain ⟨fuel, hr⟩ := hs
  have hm := h fuel
  rw [hr] at hm
  generalize he : b.eval fuel m = e at hm
  cases hm with
  | stopped ho => exact ⟨_, _, ⟨fuel, by rw [he]; rfl⟩, ho⟩

theorem Block.Mirrored.halts_of_ends (he : b.Ends m (.ok ()) m') : ∃ s, b.lua.Halts s := by
  obtain ⟨fuel, he⟩ := he
  have hm := h fuel
  rw [Exit.eq_through_of_result? he] at hm
  generalize hr : (b.lua.exec fuel).run {} = r at hm
  cases hm with
  | through ha => exact ⟨_, fuel, hr⟩

theorem Block.Mirrored.raises_of_ends (he : b.Ends m (.error fault) m') :
    ∃ s, b.lua.Raises s := by
  obtain ⟨fuel, he⟩ := he
  have hm := h fuel
  rw [Exit.eq_stopped_of_result? he] at hm
  generalize hr : (b.lua.exec fuel).run {} = r at hm
  cases hm with
  | stopped ho => exact ⟨_, fuel, hr⟩

theorem Block.Mirrored.diverges_iff : b.lua.Diverges ↔ ∀ fuel, b.eval fuel m = .unfinished := by
  refine forall_congr' fun fuel => ?_
  have hm := h fuel
  generalize b.eval fuel m = e at hm
  generalize (b.lua.exec fuel).run {} = r at hm
  cases hm <;> simp

end

/-- Along the run of a program the depth of the stack always fits in a word. -/
def Interpreter.StaysShallow (p : Program) (s : Interpreter) : Prop :=
  ∀ fuel, ((backend fuel).translate p s).state.machine.stack.depth < UInt32.size

theorem Block.mirrored (b : Block false) {m : Machine}
    (hinput : ∀ i ∈ b.program, i.operator ≠ .inputCharacter ∧ i.operator ≠ .inputInteger)
    (hstack : m.stack = .empty) (hmemory : m.memory = {}) (houtput : m.output.Reliable)
    (hdepth : Interpreter.StaysShallow b.program ⟨{}, m⟩) :
    b.Mirrored m.output.written.toList m := by
  have hagrees : Agrees m.output.written.toList m {} := by
    refine ⟨by rw [hstack]; rfl, fun a => ?_, by simp, houtput.unlimited⟩
    rw [hmemory, Variables.get?_empty]
    rfl
  have hshallow : Shallow (b.codes 0 0).toArray 0 m := by
    intro n position m' hs
    have hd := hdepth n
    rw [(Interpreter.translate_program houtput.flushes b n).2] at hd
    -- with the fuel of these steps and no more, the execution stops on this machine
    have he := executeFrom_of_steps hs 0
    have hstop : (executeFrom (b.codes 0 0).toArray 0 position m').2 = m' := by
      unfold executeFrom
      cases (b.codes 0 0).toArray[position]? <;> rfl
    rw [Nat.add_zero] at he
    rwa [he, hstop] at hd
  have hlaid : Laid (fun i code => (b.codes 0 0).toArray[i]? = some code) 0 (b.codes 0 0) := by
    intro k code hk
    simpa using hk
  exact fun fuel => b.matches_eval hlaid hinput hshallow hagrees

/-- The generator preserves the meaning of a nested program without input whose stack stays
shallow. What it writes behind the prelude are lines that come to their end, raise an error or
go on for ever as the run of the program ends, faults or does not end, with the same output,
and at the end with the same stack and variables. -/
theorem Block.lua_preserves (b : Block false)
    (hinput : ∀ i ∈ b.program, i.operator ≠ .inputCharacter ∧ i.operator ≠ .inputInteger)
    {text : Sink} (htext : text.Reliable) (input : Source) {output : Sink}
    (houtput : output.Reliable)
    (hdepth : Interpreter.StaysShallow b.program ⟨{}, { input, output }⟩) :
    let generated := Generator.backend.translate b.program { output := text }
    let Ends := Interpreter.Ends b.program ⟨{}, { input, output }⟩
    generated.outcome = .done ∧
    generated.state.output.written =
      text.written ++ Utf8.encodeText (prelude ++ b.lua.text 0) ∧
    ((∃ s, b.lua.Halts s) ↔ ∃ s', Ends (.ok ()) s') ∧
    ((∃ s, b.lua.Raises s) ↔ ∃ fault s', Ends (.error (.machine fault)) s') ∧
    (b.lua.Diverges ↔ ∀ fuel, ((Interpreter.backend fuel).translate b.program
      ⟨{}, { input, output }⟩).outcome = .unfinished) ∧
    (∀ s s', b.lua.Halts s → Ends (.ok ()) s' → Agrees output.written.toList s'.machine s) ∧
    ∀ s fault s', b.lua.Raises s → Ends (.error (.machine fault)) s' →
      s'.machine.output.written.toList = output.written.toList ++ s.output := by
  intro generated Ends
  obtain ⟨hdone, hstate⟩ := Generator.translate_program b (g := { output := text }) htext rfl
  have hb := b.mirrored hinput rfl rfl houtput hdepth
  have hflush : ({ input, output } : Machine).output.flushFails = false := houtput.flushes
  have hok := fun s' => Interpreter.ends_mapError_iff hflush b (.ok ()) s'
  have hfault := fun fault s' => Interpreter.ends_mapError_iff hflush b (.error fault) s'
  refine ⟨hdone, congrArg (fun g => g.output.written) hstate, ?_, ?_, ?_, ?_, ?_⟩
  · constructor
    · rintro ⟨s, hs⟩
      obtain ⟨m', he, -⟩ := hb.ends_of_halts hs
      exact ⟨_, (hok _).mpr ⟨m', he, rfl⟩⟩
    · rintro ⟨s', he⟩
      obtain ⟨m', he, -⟩ := (hok s').mp he
      exact hb.halts_of_ends he
  · constructor
    · rintro ⟨s, hs⟩
      obtain ⟨fault, m', he, -⟩ := hb.ends_of_raises hs
      exact ⟨fault, _, (hfault fault _).mpr ⟨m', he, rfl⟩⟩
    · rintro ⟨fault, s', he⟩
      obtain ⟨m', he, -⟩ := (hfault fault s').mp he
      exact hb.raises_of_ends he
  · rw [hb.diverges_iff]
    exact (Interpreter.diverges_program_iff hflush b).symm
  · intro s s' hs he
    obtain ⟨m', hm, rfl⟩ := (hok s').mp he
    obtain ⟨m'', hm', ha⟩ := hb.ends_of_halts hs
    rwa [(hm.unique hm').2]
  · intro s fault s' hs he
    obtain ⟨m', hm, rfl⟩ := (hfault fault s').mp he
    obtain ⟨_, m'', hm', ho⟩ := hb.ends_of_raises hs
    rwa [(hm.unique hm').2]

/-- A loop that counts down and writes, and a word that wraps around behind it. -/
theorem Block.lua_preserves_countdown :
    let body : Block true := .plain ⟨⟨.copy, 0⟩, rfl⟩ (.plain ⟨⟨.outputInteger, 0⟩, rfl⟩
      (.plain ⟨⟨.decrement, 0⟩, rfl⟩ .done))
    let b : Block false := .plain ⟨⟨.constant8Bit, 2⟩, rfl⟩
      (.loop ⟨⟨.whileNotZero, 0⟩, rfl⟩ body ⟨⟨.endWhile, 0⟩, rfl⟩
        (.plain ⟨⟨.decrement, 0⟩, rfl⟩ .done))
    (∀ i ∈ b.program, i.operator ≠ .inputCharacter ∧ i.operator ≠ .inputInteger) ∧
    Interpreter.StaysShallow b.program ⟨{}, { input := [], output := {} }⟩ ∧
    ∃ s, b.lua.Halts s ∧ s.stack = [0xffffffff] ∧ s.output = [0x32, 0x31] := by
  intro body b
  have hinput : ∀ i ∈ b.program, i.operator ≠ .inputCharacter ∧ i.operator ≠ .inputInteger := by
    decide
  have hdepth : Interpreter.StaysShallow b.program ⟨{}, { input := [], output := {} }⟩ := by
    intro fuel
    by_cases hlt : fuel < 14
    · revert fuel
      decide
    · obtain ⟨n, rfl⟩ := Nat.exists_eq_add_of_le' (Nat.not_lt.mp hlt)
      -- more steps than that change nothing, and one word is left
      exact (by decide : 1 < UInt32.size)
  have hsink : Sink.Reliable {} := ⟨rfl, rfl⟩
  have hends : Interpreter.Ends b.program ⟨{}, { input := [], output := {} }⟩ (.ok ())
      ⟨{}, ⟨{ values := [0xffffffff] }, {}, [], { written := #[0x32, 0x31] }⟩⟩ := ⟨14, rfl, rfl⟩
  obtain ⟨-, -, hhalts, -, -, hagrees, -⟩ :=
    lua_preserves b hinput hsink [] hsink hdepth
  obtain ⟨s, hs⟩ := hhalts.mpr ⟨_, hends⟩
  have ha := hagrees s _ hs hends
  exact ⟨hinput, hdepth, s, hs, ha.stack, ha.output.symm⟩
end NumNum
