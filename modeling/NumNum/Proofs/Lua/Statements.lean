import NumNum.Lua.Template
import NumNum.Proofs.Lua.Words
import NumNum.Proofs.Machine.Reference

/-!
# Statements against steps

The statements for an instruction do to the tables what the step of the machine does to its
stack, its variables and its output, and they raise an error where the step faults
(`Lua.performs_statements`).
-/

namespace NumNum

open Word

/-- How a step ends, as the end of a tree. -/
def Step.exit {inLoop : Bool} (step : Step) : Exit inLoop :=
  match step with
  | ⟨.ok _, m, _⟩ => .through m
  | ⟨.error fault, m, _⟩ => .stopped fault m

namespace Lua

/-! ## Agreement -/

/-- The tables hold what the machine holds, and the program has written what the machine has
written behind the bytes that were there before. -/
structure Agrees (before : List UInt8) (m : Machine) (s : State) : Prop where
  stack : s.stack = m.stack.values.map wide
  memory : ∀ address, s.memory address = (m.memory.get? address).map wide
  output : m.output.written.toList = before ++ s.output
  unlimited : m.output.limit = none

/-- The ends of a tree and of a program, where they are alike. -/
inductive Matches (before : List UInt8) :
    {inLoop : Bool} → Exit inLoop → EStateM.Result Stop State Unit → Prop where
  | through {inLoop : Bool} {m : Machine} {s : State} (h : Agrees before m s) :
      Matches before (.through m : Exit inLoop) (.ok () s)
  | left {m : Machine} {s : State} (h : Agrees before m s) :
      Matches before (.left m) (.error .left s)
  | stopped {inLoop : Bool} {m : Machine} {s : State} {fault : MachineFault}
      (h : m.output.written.toList = before ++ s.output) :
      Matches before (.stopped fault m : Exit inLoop) (.error .error s)
  | unfinished {inLoop : Bool} {s : State} :
      Matches before (.unfinished : Exit inLoop) (.error .unfinished s)

def Statement.execAll : List Statement → Exec Unit
  | [] => pure ()
  | s :: rest => do
    s.exec
    execAll rest

/-- Executing statements ends as the step of a code does. -/
def Performs (inLoop : Bool) (before : List UInt8) (code : Code) (m : Machine)
    (front : List Statement) (s : State) : Prop :=
  Matches before ((m.step code 0).exit : Exit inLoop) ((Statement.execAll front).run s)

variable {inLoop : Bool} {before : List UInt8} {m : Machine} {s s' : State} {code : Code}
  {front : List Statement} {st : Statement} {r : EStateM.Result Stop State Unit}

theorem execAll_single (st : Statement) : Statement.execAll [st] = st.exec := by
  simp [Statement.execAll]

theorem Performs.of_run {step : Step} (hm : m.step code 0 = step)
    (hr : (Statement.execAll front).run s = r) (h : Matches before (step.exit : Exit inLoop) r) :
    Performs inLoop before code m front s := by
  rw [Performs, hm, hr]
  exact h

theorem Performs.single {step : Step} (hm : m.step code 0 = step) (hr : st.exec.run s = r)
    (h : Matches before (step.exit : Exit inLoop) r) :
    Performs inLoop before code m [st] s :=
  .of_run hm (by rw [execAll_single, hr]) h

theorem Performs.behind {front' : List Statement} (h : Performs inLoop before code m front s')
    (hr : (Statement.execAll front').run s = (Statement.execAll front).run s') :
    Performs inLoop before code m front' s := by
  rw [Performs, hr]
  exact h

theorem Agrees.exchange (h : Agrees before m s) {taken : Nat} {given : List UInt32}
    (hs : s'.stack = given.map wide ++ s.stack.drop taken) (hv : s'.memory = s.memory)
    (ho : s'.output = s.output) :
    Agrees before { m with stack := m.stack.exchange taken given } s' where
  stack := by rw [hs, h.stack, Stack.values_exchange, List.map_append, List.map_drop]
  memory := by rw [hv]; exact h.memory
  output := by rw [ho]; exact h.output
  unlimited := h.unlimited

theorem performs_exchange (h : Agrees before m s) {start : State} {taken next : Nat}
    {given : List UInt32} (hm : m.step code 0 = m.exchange taken given next)
    (hr : st.exec.run start = .ok () s')
    (hs : s'.stack = given.map wide ++ s.stack.drop taken) (hv : s'.memory = s.memory)
    (ho : s'.output = s.output) : Performs inLoop before code m [st] start :=
  .single hm hr (.through (h.exchange hs hv ho))

/-- A stack that is not deep enough stops both; else there are as many values as needed. -/
theorem performs_need (h : Agrees before m s) {k : Nat} (op : Operator) {rest : List Statement}
    (hk : code.instruction.operator.action.needs = k)
    (hrest : ∀ xs values, xs.length = k → m.stack.values = xs ++ values →
      s.stack = xs.map wide ++ values.map wide →
      Performs inLoop before code m rest s) :
    Performs inLoop before code m (.need k op :: rest) s := by
  have hlen : s.stack.length = m.stack.depth := by
    rw [h.stack, List.length_map, m.stack.depth_eq]
  by_cases hlt : m.stack.depth < k
  · have hr : (Statement.execAll (.need k op :: rest)).run s = .error .error s := by
      simp [Statement.execAll, hlen, hlt]
    exact .of_run (Machine.step_of_depth_lt (by rw [hk]; exact hlt)) hr (.stopped h.output)
  · have hv := (List.take_append_drop k m.stack.values).symm
    have hs : s.stack = _ := h.stack.trans (congrArg (List.map wide) hv)
    rw [List.map_append] at hs
    have hp := hrest _ _ (by rw [List.length_take, ← m.stack.depth_eq]; omega) hv hs
    exact hp.behind (by simp [Statement.execAll, hlen, hlt])

/-! ## Expressions and the top -/

/-- The expression has this value, and nothing else happens. -/
def Expr.Gives (e : Expr) (s : State) (n : Integer) : Prop :=
  e.eval.run s = .ok n s

section
variable {e a b : Expr} {o : Arithmetic} {c : Comparison} {n p q : Integer} {w y x : UInt32}
  {stack : List Integer}

theorem topSlot_gives (hs : s.stack = n :: stack) : topSlot.Gives s n := by
  simp [Expr.Gives, topSlot, hs]

theorem nextSlot_gives (hs : s.stack = p :: n :: stack) : nextSlot.Gives s n := by
  simp [Expr.Gives, nextSlot, hs]

theorem temporary_gives (ht : s.temporary = some n) : temporary.Gives s n := by
  simp [Expr.Gives, temporary, ht]

theorem number_gives {k : Nat} (hk : k < UInt32.size) :
    (Expr.number k).Gives s (wide (.ofNat k)) := by
  have hlt : k < 0x8000000000000000 := Nat.lt_trans hk (by decide)
  rw [Expr.Gives, Expr.eval, if_pos hlt, wide_ofNat hk, EStateM.run_pure]

theorem arithmetic_gives (ha : a.Gives s p) (hb : b.Gives s q) (ho : o.apply p q = some n) :
    (Expr.arithmetic o a b).Gives s n := by
  unfold Expr.Gives at *
  simp [ha, hb, ho]

theorem masked_gives (he : e.Gives s n) (hn : n &&& 0xffffffff = wide w) :
    (masked e).Gives s (wide w) :=
  arithmetic_gives he rfl (congrArg some hn)

theorem condition_eval (ha : a.Gives s (wide y)) (hb : b.Gives s (wide x)) :
    (Condition.eval ⟨a, c, b⟩).run s = .ok (c.onWords y x) s := by
  unfold Expr.Gives at ha hb
  simp only [Condition.eval, EStateM.run_bind, ha, hb, EStateM.run_pure, Comparison.holds_wide]

theorem exec_setTop (hs : s.stack = p :: stack) (he : e.Gives s n) :
    (setTop e).exec.run s = .ok () { s with stack := n :: stack } := by
  unfold Expr.Gives at he
  simp [setTop, he, hs]

theorem complement_gives (he : e.Gives s n) : (Expr.complement e).Gives s (~~~n) := by
  unfold Expr.Gives at *
  simp only [Expr.eval, EStateM.run_bind, he, EStateM.run_pure]

theorem exec_insert (he : e.Gives s n) :
    (Statement.insert e).exec.run s = .ok () { s with stack := n :: s.stack } := by
  unfold Expr.Gives at he
  simp [he]

theorem exec_setTemporary (he : e.Gives s n) :
    (Statement.assign [.temporary] [e]).exec.run s = .ok () { s with temporary := some n } := by
  unfold Expr.Gives at he
  simp [he]

theorem run_branch {test : Exec Bool} {t : Bool} (ht : test.run s = .ok t s) (x y : Exec Unit) :
    (branch test x y).run s = bif t then x.run s else y.run s := by
  simp only [branch, EStateM.run_bind, ht]
  cases t <;> rfl

theorem exec_setTopTo (hs : s.stack = p :: stack) (ha : a.Gives s (wide y))
    (hb : b.Gives s (wide x)) :
    (setTopTo ⟨a, c, b⟩).exec.run s =
      .ok () { s with stack := wide (Word.ofBool (c.onWords y x)) :: stack } := by
  rw [setTopTo, Statement.exec, run_branch (condition_eval ha hb)]
  cases c.onWords y x
  · exact exec_setTop hs (number_gives (by decide))
  · exact exec_setTop hs (number_gives (by decide))

end

/-! ## Operators on the uppermost values -/

theorem performs_unary (h : Agrees before m s) (op : Operator) {f : UInt32 → UInt32}
    (ha : code.instruction.operator.action = .unary f) {st : Statement}
    (hst : ∀ x stack, s.stack = wide x :: stack →
      st.exec.run s = .ok () { s with stack := wide (f x) :: stack }) :
    Performs inLoop before code m [.need 1 op, st] s := by
  refine performs_need h op (by rw [ha]; rfl) fun xs values hk hv hs => ?_
  match xs, hk with
  | [x], _ =>
    have hm : m.step code 0 = m.exchange 1 [f x] 1 := by simp [Machine.step, ha, hv]
    exact performs_exchange h hm (hst x _ hs) (by simp [hs]) rfl rfl

/-- Behind the move of the top, the operands stand on the stack and in the scratch place. -/
theorem performs_takeOperand (h : Agrees before m s) (op : Operator) {rest : List Statement}
    (hk : code.instruction.operator.action.needs = 2)
    (hrest : ∀ x y values, m.stack.values = x :: y :: values →
      s.stack = wide x :: wide y :: values.map wide →
      Performs inLoop before code m rest
        { s with stack := wide y :: values.map wide, temporary := some (wide x) }) :
    Performs inLoop before code m (takeOperand op ++ rest) s := by
  refine performs_need h op hk fun xs values hk hv hs => ?_
  match xs, hk with
  | [x, y], _ =>
    have hp := hrest x y values hv hs
    exact hp.behind (by simp [Statement.execAll, hs])

theorem performs_binary (h : Agrees before m s) (op : Operator) {f : UInt32 → UInt32 → UInt32}
    (ha : code.instruction.operator.action = .binary f) {st : Statement}
    (hst : ∀ (s : State) x y stack, s.stack = wide y :: stack → s.temporary = some (wide x) →
      st.exec.run s = .ok () { s with stack := wide (f y x) :: stack }) :
    Performs inLoop before code m (takeOperand op ++ [st]) s := by
  refine performs_takeOperand h op (by rw [ha]; rfl) fun x y values hv hs => ?_
  have hm : m.step code 0 = m.exchange 2 [f y x] 1 := by simp [Machine.step, ha, hv]
  exact performs_exchange h hm (hst _ x y _ rfl rfl) (by simp [hs]) rfl rfl

section
variable {o : Arithmetic} {c : Comparison} {f : UInt32 → UInt32 → UInt32}

theorem performs_arithmetic (h : Agrees before m s) (op : Operator) (ho : o.Computes f)
    (ha : code.instruction.operator.action = .binary f) :
    Performs inLoop before code m (binary op o) s := by
  refine performs_binary h op ha fun s x y stack hs ht => ?_
  obtain ⟨n, hn, hw⟩ := ho y x
  have he := arithmetic_gives (topSlot_gives hs) (temporary_gives ht) hn
  exact exec_setTop hs (masked_gives he hw)

theorem performs_comparison (h : Agrees before m s) (op : Operator)
    (ha : code.instruction.operator.action = .binary fun y x => Word.ofBool (c.onWords y x)) :
    Performs inLoop before code m (comparison op c) s := by
  refine performs_binary h op ha fun s x y stack hs ht => ?_
  exact exec_setTopTo hs (topSlot_gives hs) (temporary_gives ht)

theorem performs_shift (h : Agrees before m s) (op : Operator)
    (ho : ∀ y x, x < 32 →
      ∃ n, o.apply (wide y) (wide x) = some n ∧ n &&& 0xffffffff = wide (f y x))
    (ha : code.instruction.operator.action = .binary fun y x => if x < 32 then f y x else 0) :
    Performs inLoop before code m (shift op o) s := by
  refine performs_binary h op ha fun s x y stack hs ht => ?_
  have hc := condition_eval (c := .greaterEqual) (temporary_gives ht)
    (number_gives (s := s) (by decide : 32 < UInt32.size))
  rw [Statement.exec, run_branch hc]
  by_cases hx : x < 32
  · have hge : Comparison.greaterEqual.onWords x (.ofNat 32) = false :=
      decide_eq_false (UInt32.not_le.mpr hx)
    obtain ⟨n, hn, hw⟩ := ho y x hx
    have he := arithmetic_gives (topSlot_gives hs) (temporary_gives ht) hn
    rw [hge, cond_false, if_pos hx]
    exact exec_setTop hs (masked_gives he hw)
  · -- the amount is caught ahead of the shift
    have hge : Comparison.greaterEqual.onWords x (.ofNat 32) = true :=
      decide_eq_true (UInt32.not_lt.mp hx)
    rw [hge, cond_true, if_neg hx]
    exact exec_setTop hs (number_gives (by decide))

theorem performs_division (h : Agrees before m s) (op : Operator)
    (ho : ∀ y x, x ≠ 0 → o.apply (wide y) (wide x) = some (wide (f y x)))
    (ha : code.instruction.operator.action = .division f) :
    Performs inLoop before code m (division op o) s := by
  refine performs_takeOperand h op (by rw [ha]; rfl) fun x y values hv hs => ?_
  generalize hs' : { s with stack := wide y :: values.map wide, temporary := some (wide x) } = s'
  have hstack : s'.stack = wide y :: values.map wide := by rw [← hs']
  have ht : s'.temporary = some (wide x) := by rw [← hs']
  have hc := condition_eval (c := .equal) (temporary_gives ht)
    (number_gives (s := s') (by decide : 0 < UInt32.size))
  by_cases hx : x = 0
  · have hm : m.step code 0 =
        Machine.stop { m with stack := m.stack.exchange 1 [] } .zeroDivision := by
      simp [Machine.step, ha, hv, hx]
    have heq : Comparison.equal.onWords x (.ofNat 0) = true := decide_eq_true hx
    refine .of_run hm (r := .error .error s') ?_ (.stopped ?_)
    · rw [Statement.execAll, EStateM.run_bind, Statement.exec, run_branch hc, heq]
      rfl
    · rw [← hs']
      exact h.output
  · have hm : m.step code 0 = m.exchange 2 [f y x] 1 := by simp [Machine.step, ha, hv, hx]
    have heq : Comparison.equal.onWords x (.ofNat 0) = false := decide_eq_false hx
    have he := arithmetic_gives (topSlot_gives hstack) (temporary_gives ht) (ho y x hx)
    have hset := exec_setTop hstack he
    refine (performs_exchange h hm hset (by simp [hs]) ?_ ?_).behind ?_
    · rw [← hs']
    · rw [← hs']
    · rw [Statement.execAll, EStateM.run_bind, Statement.exec, run_branch hc, heq]
      rfl

theorem performs_zeroTest (h : Agrees before m s) (op : Operator)
    (ha : code.instruction.operator.action = .unary fun x => Word.ofBool (c.onWords x 0)) :
    Performs inLoop before code m (zeroTest op c) s := by
  refine performs_unary h op ha fun x stack hs => ?_
  exact exec_setTopTo hs (topSlot_gives hs) (number_gives (by decide))

theorem performs_masked (h : Agrees before m s) (op : Operator) {g : UInt32 → UInt32} {e : Expr}
    (he : ∀ x stack, s.stack = wide x :: stack → (masked e).Gives s (wide (g x)))
    (ha : code.instruction.operator.action = .unary g) :
    Performs inLoop before code m (unary op (masked e)) s := by
  refine performs_unary h op ha fun x stack hs => ?_
  exact exec_setTop hs (he x stack hs)

theorem performs_pairTest (h : Agrees before m s) (op : Operator)
    (ha : code.instruction.operator.action = .compare fun y x => c.onWords y x) :
    Performs inLoop before code m (pairTest op c) s := by
  refine performs_need h op (by rw [ha]; rfl) fun xs values hk hv hs => ?_
  match xs, hk with
  | [x, y], _ =>
    have hm : m.step code 0 = m.exchange 2 [Word.ofBool (c.onWords y x), x, y] 1 := by
      simp [Machine.step, ha, hv]
    have hc := condition_eval (c := c) (nextSlot_gives hs) (topSlot_gives hs)
    -- the result waits in the scratch place until it is pushed on both operands
    have hset : (Statement.choose ⟨nextSlot, c, topSlot⟩ (.assign [.temporary] [.number 1])
        (.assign [.temporary] [.number 0])).exec.run s =
        .ok () { s with temporary := some (wide (Word.ofBool (c.onWords y x))) } := by
      rw [Statement.exec, run_branch hc]
      cases c.onWords y x
      · exact exec_setTemporary (number_gives (by decide))
      · exact exec_setTemporary (number_gives (by decide))
    have hpush : ∀ n, (Statement.insert temporary).exec.run { s with temporary := some n } =
        .ok () { s with stack := n :: s.stack, temporary := some n } :=
      fun n => exec_insert (temporary_gives rfl)
    have hp := hpush (wide (Word.ofBool (c.onWords y x)))
    refine (performs_exchange h hm hp (by simp [hs]) rfl rfl).behind ?_
    rw [Statement.execAll, EStateM.run_bind, hset]

end

/-! ## Moves -/

theorem performs_move (h : Agrees before m s) {xs : List UInt32} {stack : List Integer}
    {st : Statement} (hs : s.stack = xs.map wide ++ stack) (given : List UInt32)
    (hm : m.step code 0 = m.exchange xs.length given 1)
    (hst : st.exec.run s = .ok () { s with stack := given.map wide ++ stack }) :
    Performs inLoop before code m [st] s := by
  exact performs_exchange h hm hst (by simp [hs]) rfl rfl

theorem performs_insert (h : Agrees before m s) {e : Expr} {w : UInt32} (he : e.Gives s (wide w))
    (hm : m.step code 0 = m.exchange 0 [w] 1) :
    Performs inLoop before code m [.insert e] s := by
  have hs : s.stack = ([] : List UInt32).map wide ++ s.stack := rfl
  exact performs_move h hs [w] hm (exec_insert he)

section
variable (h : Agrees before m s) (op : Operator)
include h

theorem performs_pop (ha : code.instruction.operator.action = .pop) :
    Performs inLoop before code m [.need 1 op, .remove] s := by
  refine performs_need h op (by rw [ha]; rfl) fun xs values hk hv hs => ?_
  match xs, hk with
  | [x], _ =>
    have hm : m.step code 0 = m.exchange 1 [] 1 := by simp [Machine.step, ha, hv]
    exact performs_move h hs [] hm (by simp [hs])

theorem performs_copy (ha : code.instruction.operator.action = .copy) :
    Performs inLoop before code m [.need 1 op, .insert topSlot] s := by
  refine performs_need h op (by rw [ha]; rfl) fun xs values hk hv hs => ?_
  match xs, hk with
  | [x], _ =>
    have hm : m.step code 0 = m.exchange 1 [x, x] 1 := by simp [Machine.step, ha, hv]
    have hst := exec_insert (topSlot_gives hs)
    exact performs_move h hs [x, x] hm (by rw [hst, hs]; rfl)

theorem performs_copyOver (ha : code.instruction.operator.action = .copyOver) :
    Performs inLoop before code m [.need 2 op, .insert nextSlot] s := by
  refine performs_need h op (by rw [ha]; rfl) fun xs values hk hv hs => ?_
  match xs, hk with
  | [x, y], _ =>
    have hm : m.step code 0 = m.exchange 2 [y, x, y] 1 := by simp [Machine.step, ha, hv]
    have hst := exec_insert (nextSlot_gives hs)
    exact performs_move h hs [y, x, y] hm (by rw [hst, hs]; rfl)

theorem performs_swap (ha : code.instruction.operator.action = .swap) :
    Performs inLoop before code m
      [.need 2 op, .assign [.slot 1, .slot 0] [topSlot, nextSlot]] s := by
  refine performs_need h op (by rw [ha]; rfl) fun xs values hk hv hs => ?_
  match xs, hk with
  | [x, y], _ =>
    have hm : m.step code 0 = m.exchange 2 [y, x] 1 := by simp [Machine.step, ha, hv]
    exact performs_move h hs [y, x] hm (by simp [topSlot, nextSlot, hs])

theorem performs_rotateUp (ha : code.instruction.operator.action = .rotateUp) :
    Performs inLoop before code m
      [.need 3 op,
        .assign [.slot 2, .slot 1, .slot 0] [topSlot, .place (.slot 2), nextSlot]] s := by
  refine performs_need h op (by rw [ha]; rfl) fun xs values hk hv hs => ?_
  match xs, hk with
  | [x, y, z], _ =>
    have hm : m.step code 0 = m.exchange 3 [y, z, x] 1 := by simp [Machine.step, ha, hv]
    exact performs_move h hs [y, z, x] hm (by simp [topSlot, nextSlot, hs])

theorem performs_rotateDown (ha : code.instruction.operator.action = .rotateDown) :
    Performs inLoop before code m
      [.need 3 op,
        .assign [.slot 2, .slot 1, .slot 0] [nextSlot, topSlot, .place (.slot 2)]] s := by
  refine performs_need h op (by rw [ha]; rfl) fun xs values hk hv hs => ?_
  match xs, hk with
  | [x, y, z], _ =>
    have hm : m.step code 0 = m.exchange 3 [z, x, y] 1 := by simp [Machine.step, ha, hv]
    exact performs_move h hs [z, x, y] hm (by simp [topSlot, nextSlot, hs])

theorem performs_count (ha : code.instruction.operator.action = .depth)
    (hdepth : m.stack.depth < UInt32.size) :
    Performs inLoop before code m [.insert .depth] s := by
  have hlen : s.stack.length = m.stack.depth := by
    rw [h.stack, List.length_map, m.stack.depth_eq]
  have he : Expr.depth.Gives s (wide (.ofNat m.stack.depth)) := by
    rw [Expr.Gives, Expr.eval, EStateM.run_bind, EStateM.run_get, wide_ofNat hdepth, ← hlen]
    rfl
  exact performs_insert h he (by simp [Machine.step, ha])

theorem performs_constant (ha : code.instruction.operator.action = .constant) :
    Performs inLoop before code m [.insert (.number code.instruction.value.toNat)] s := by
  have he := number_gives (s := s) code.instruction.value.toNat_lt
  rw [UInt32.ofNat_toNat] at he
  exact performs_insert h he (by simp [Machine.step, ha])

/-! ## Variables and output -/

theorem Agrees.set (address x : UInt32) :
    Agrees before { m with memory := m.memory.set address x } (s.store address (wide x)) where
  stack := h.stack
  memory := by
    intro a
    rw [State.store, Variables.get?_set]
    dsimp only
    rw [h.memory a]
    split <;> rfl
  output := h.output
  unlimited := h.unlimited

theorem performs_store (ha : code.instruction.operator.action = .store) :
    Performs inLoop before code m
      [.need 1 op, .assign [.variable code.instruction.value] [.removed]] s := by
  refine performs_need h op (by rw [ha]; rfl) fun xs values hk hv hs => ?_
  match xs, hk with
  | [x], _ =>
    have hm : m.step code 0 =
        Machine.exchange { m with memory := m.memory.set code.instruction.value x } 1 [] 1 := by
      simp [Machine.step, ha, hv]
    have hr : (Statement.assign [.variable code.instruction.value] [.removed]).exec.run s =
        .ok () { s.store code.instruction.value (wide x) with stack := values.map wide } := by
      simp [State.store, hs]
    have hset := h.set code.instruction.value x
    exact .single hm hr (.through (hset.exchange (by simp [State.store, hs]) rfl rfl))

theorem performs_keep (ha : code.instruction.operator.action = .keep) :
    Performs inLoop before code m
      [.need 1 op, .assign [.variable code.instruction.value] [topSlot]] s := by
  refine performs_need h op (by rw [ha]; rfl) fun xs values hk hv hs => ?_
  match xs, hk with
  | [x], _ =>
    have hm : m.step code 0 =
        Machine.goto { m with memory := m.memory.set code.instruction.value x } 1 := by
      simp [Machine.step, ha, hv]
    have hr : (Statement.assign [.variable code.instruction.value] [topSlot]).exec.run s =
        .ok () (s.store code.instruction.value (wide x)) := by
      simp [topSlot, hs]
    exact .single hm hr (.through (h.set code.instruction.value x))

theorem performs_load (ha : code.instruction.operator.action = .load) :
    Performs inLoop before code m [.insert (.loadVariable code.instruction.value)] s := by
  have hv := h.memory code.instruction.value
  cases hg : m.memory.get? code.instruction.value with
  | none =>
    have hm : m.step code 0 = m.stop (.undefinedVariable code.instruction.value) := by
      simp [Machine.step, ha, hg]
    have hr : (Statement.insert (.loadVariable code.instruction.value)).exec.run s =
        .error .error s := by
      simp [hv, hg]
    exact .single hm hr (.stopped h.output)
  | some w =>
    have he : (Expr.loadVariable code.instruction.value).Gives s (wide w) := by
      simp [Expr.Gives, hv, hg]
    exact performs_insert h he (by simp [Machine.step, ha, hg])

theorem matches_emit (bytes : List UInt8) (next : Nat) :
    Matches before ((Machine.emit bytes next m).exit : Exit inLoop) ((emit bytes).run s) := by
  rw [Machine.emit, Sink.write_of_limit_none h.unlimited]
  refine .through ⟨h.stack, h.memory, ?_, h.unlimited⟩
  simp [h.output]

theorem performs_writeInteger (ha : code.instruction.operator.action = .writeInteger) :
    Performs inLoop before code m [.need 1 op, .write .removed] s := by
  refine performs_need h op (by rw [ha]; rfl) fun xs values hk hv hs => ?_
  match xs, hk with
  | [x], _ =>
    have hm : m.step code 0 = Machine.emit (Utf8.encodeText (Numeral.text x.toNat)) 1
        { m with stack := m.stack.exchange 1 [] } := by
      simp [Machine.step, ha, hv]
    have hr : (Statement.write .removed).exec.run s =
        (emit (Utf8.encodeText (Numeral.text x.toNat))).run
          { s with stack := values.map wide } := by
      rw [← toString_wide]
      simp [hs]
    have hpop : Agrees before { m with stack := m.stack.exchange 1 [] }
        { s with stack := values.map wide } := h.exchange (by simp [hs]) rfl rfl
    exact .single hm hr (matches_emit hpop _ _)

theorem performs_writeCharacter (ha : code.instruction.operator.action = .writeCharacter) :
    Performs inLoop before code m [.need 1 op, .writeCharacter .removed] s := by
  refine performs_need h op (by rw [ha]; rfl) fun xs values hk hv hs => ?_
  match xs, hk with
  | [x], _ =>
    have hb := characterBytes?_wide x
    have hpop : Agrees before { m with stack := m.stack.exchange 1 [] }
        { s with stack := values.map wide } := h.exchange (by simp [hs]) rfl rfl
    cases hc : Word.toChar? x with
    | none =>
      have hm : m.step code 0 =
          Machine.stop { m with stack := m.stack.exchange 1 [] } (.invalidCharacter x) := by
        simp [Machine.step, ha, hv, hc]
      have hr : (Statement.writeCharacter .removed).exec.run s =
          .error .error { s with stack := values.map wide } := by
        simp [hs, hb, hc]
      exact .single hm hr (.stopped h.output)
    | some c =>
      have hm : m.step code 0 =
          Machine.emit (Utf8.encode c) 1 { m with stack := m.stack.exchange 1 [] } := by
        simp [Machine.step, ha, hv, hc]
      have hr : (Statement.writeCharacter .removed).exec.run s =
          (emit (Utf8.encode c)).run { s with stack := values.map wide } := by
        simp [hs, hb, hc]
      exact .single hm hr (matches_emit hpop _ _)

end

/-! ## Instructions -/

/-- The statements for an instruction without input do what its step does. Only the count of
the values would not fit in a word on a stack that is deeper than words can count. -/
theorem performs_statements {i : Instruction} (hplain : i.operator.role = .plain)
    (hinput : i.operator ≠ .inputCharacter ∧ i.operator ≠ .inputInteger)
    (hdepth : m.stack.depth < UInt32.size) (h : Agrees before m s) :
    Performs inLoop before { instruction := i.canonical } m (statements i) s := by
  obtain ⟨op, value⟩ := i
  cases op with
  | add => exact performs_arithmetic h _ Arithmetic.computes_plus rfl
  | subtract => exact performs_arithmetic h _ Arithmetic.computes_minus rfl
  | multiply => exact performs_arithmetic h _ Arithmetic.computes_times rfl
  | and => exact performs_arithmetic h _ Arithmetic.computes_bitAnd rfl
  | or => exact performs_arithmetic h _ Arithmetic.computes_bitOr rfl
  | xor => exact performs_arithmetic h _ Arithmetic.computes_bitXor rfl
  | divide => exact performs_division h _ (fun y _ => Arithmetic.quotient_apply y) rfl
  | remainder => exact performs_division h _ (fun y _ => Arithmetic.modulo_apply y) rfl
  | shiftLeft => exact performs_shift h _ (fun y _ => Arithmetic.leftShift_apply y) rfl
  | shiftRight => exact performs_shift h _ (fun y _ => Arithmetic.rightShift_apply y) rfl
  | greaterThan => exact performs_comparison h _ rfl
  | lessThan => exact performs_comparison h _ rfl
  | equal => exact performs_comparison h _ rfl
  | notEqual => exact performs_comparison h _ rfl
  | greaterThanOrEqual => exact performs_comparison h _ rfl
  | lessThanOrEqual => exact performs_comparison h _ rfl
  | equalZero => exact performs_zeroTest h _ rfl
  | notEqualZero => exact performs_zeroTest h _ rfl
  | test => exact performs_pairTest h _ rfl
  | testNot => exact performs_pairTest h _ rfl
  | increment =>
    refine performs_masked h _ (fun x stack hs => ?_) rfl
    obtain ⟨n, hn, hw⟩ := Arithmetic.computes_plus x 1
    exact masked_gives (arithmetic_gives (topSlot_gives hs) (number_gives (by decide)) hn) hw
  | decrement =>
    refine performs_masked h _ (fun x stack hs => ?_) rfl
    obtain ⟨n, hn, hw⟩ := Arithmetic.computes_minus x 1
    exact masked_gives (arithmetic_gives (topSlot_gives hs) (number_gives (by decide)) hn) hw
  | not =>
    refine performs_masked h _ (fun x stack hs => ?_) rfl
    exact masked_gives (complement_gives (topSlot_gives hs)) (not_wide x)
  | constant8Bit => exact performs_constant h rfl
  | constant16Bit => exact performs_constant h rfl
  | constant32Bit => exact performs_constant h rfl
  | count => exact performs_count h rfl hdepth
  | pop => exact performs_pop h _ rfl
  | copy => exact performs_copy h _ rfl
  | swap => exact performs_swap h _ rfl
  | copyOver => exact performs_copyOver h _ rfl
  | rotateUp => exact performs_rotateUp h _ rfl
  | rotateDown => exact performs_rotateDown h _ rfl
  | storeVariable => exact performs_store h _ rfl
  | copyVariable => exact performs_keep h _ rfl
  | loadVariable => exact performs_load h rfl
  | outputCharacter => exact performs_writeCharacter h _ rfl
  | outputInteger => exact performs_writeInteger h _ rfl
  | inputCharacter => exact absurd rfl hinput.1
  | inputInteger => exact absurd rfl hinput.2
  | ifNotZero | ifZero | endIf | whileNotZero | endWhile | leaveLoop => cases hplain

end Lua

end NumNum
