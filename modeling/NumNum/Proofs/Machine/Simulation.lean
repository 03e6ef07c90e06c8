import NumNum.Proofs.Machine.Reference
import NumNum.Proofs.Structure.Layout

/-!
# Running codes follows the tree

From the position of a tree, the steps of the machine come to where the execution of the
tree ends (`Block.follows_eval`). An execution that runs out of rounds is covered, since
each round costs a step.
-/

namespace NumNum

open Machine

/-! ## Where the machine comes to -/

/-- The machine, at position `start`, comes to where a tree ends like this: to the position
`next` behind the tree, behind the exit of the loop, to a fault, or beyond `fuel` steps. -/
def Follows (codes : Codes) (start next exit fuel : Nat) (m : Machine) {inLoop : Bool} :
    Exit inLoop → Prop
  | .through m' => ∃ n, Steps codes n start m next m'
  | .left m' => ∃ n, Steps codes n start m (exit + 1) m'
  | .stopped fault m' => ∃ n, executeFrom codes n start m = (.faulted fault, m')
  | .unfinished => ∃ n position m', fuel < n ∧ Steps codes n start m position m'

section
variable {codes : Codes} {start start' next next' exit fuel n : Nat} {m m' : Machine} {inLoop : Bool}

/-- Steps ahead change nothing in where the machine comes to, and add to the fuel. -/
theorem Follows.behind {fuel' : Nat} {e : Exit inLoop} (hs : Steps codes n start m start' m')
    (h : Follows codes start' next exit fuel m' e) (hle : fuel' ≤ fuel + n) :
    Follows codes start next exit fuel' m e := by
  cases e with
  | through m'' =>
    obtain ⟨k, hk⟩ := h
    exact ⟨n + k, hs.trans hk⟩
  | left m'' =>
    obtain ⟨k, hk⟩ := h
    exact ⟨n + k, hs.trans hk⟩
  | stopped fault m'' =>
    obtain ⟨k, hk⟩ := h
    exact ⟨n + k, by rw [executeFrom_of_steps hs, hk]⟩
  | unfinished =>
    obtain ⟨k, position, m'', hlt, hk⟩ := h
    exact ⟨n + k, position, m'', by omega, hs.trans hk⟩

theorem Follows.cast {e : Exit inLoop} (h : Follows codes start next exit fuel m e)
    (hn : next = next') : Follows codes start next' exit fuel m e :=
  hn ▸ h

theorem Follows.andThen {e : Exit inLoop} {k : Machine → Exit inLoop}
    (h : Follows codes start next exit fuel m e)
    (hk : ∀ m', Follows codes next next' exit fuel m' (k m')) :
    Follows codes start next' exit fuel m (e.andThen k) := by
  cases e with
  | through m' =>
    obtain ⟨n, hn⟩ := h
    exact (hk m').behind hn (Nat.le_add_right _ _)
  | left m' => exact h
  | stopped fault m' => exact h
  | unfinished => exact h

theorem faults_of_step {fault : MachineFault} {code : Code} {traffic : List Traffic}
    (hc : codes[start]? = some code) (hs : m.step code start = ⟨.error fault, m', traffic⟩) :
    ∃ n, executeFrom codes n start m = (.faulted fault, m') := by
  refine ⟨1, ?_⟩
  rw [executeFrom, hc]
  dsimp only
  rw [hs]

theorem Machine.Steps.single {code : Code} {traffic : List Traffic} (hc : codes[start]? = some code)
    (hs : m.step code start = ⟨.ok start', m', traffic⟩) : Steps codes 1 start m start' m' :=
  .head hc hs .refl

end

/-! ## One node at a time -/

section
variable {codes : Codes} {start next exit fuel : Nat} {m : Machine} {inLoop : Bool}

theorem follows_plain {i : Part .plain} {k : Machine → Exit inLoop}
    (hc : codes[start]? = some { instruction := i.1.canonical })
    (hk : ∀ m', Follows codes (start + 1) next exit fuel m' (k m')) :
    Follows codes start next exit fuel m
      (match m.step { instruction := i.1.canonical } 0 with
      | ⟨.ok _, m, _⟩ => k m
      | ⟨.error fault, m, _⟩ => .stopped fault m) := by
  have hs := step_of_plain (i := i.1.canonical) i.2 0 start m
  rcases hr : m.step { instruction := i.1.canonical } 0 with ⟨fault | _, m', traffic⟩
  · rw [hr] at hs
    exact faults_of_step hc hs
  · rw [hr] at hs
    exact (hk m').behind (Steps.single hc hs) (Nat.le_add_right _ _)

section
variable {code : Code} {op : Operator} {test : UInt32 → Bool} {past : Nat}
  (hc : codes[start]? = some code) (hop : code.instruction.operator = op)
  (ha : op.action = .branch test past)
include hc hop ha

theorem steps_branch {x : UInt32} (hp : m.peek op = .ok x) :
    Steps codes 1 start m (if test x then code.jump + past else start + 1) m := by
  have hs := step_of_branch (hop ▸ ha) start m
  rw [hop, hp] at hs
  exact Steps.single hc hs

theorem steps_jump {x : UInt32} (hp : m.peek op = .ok x) (hx : test x = true) :
    Steps codes 1 start m (code.jump + past) m := by
  have h := steps_branch hc hop ha hp
  rwa [if_pos hx] at h

theorem steps_next {x : UInt32} (hp : m.peek op = .ok x) (hx : test x = false) :
    Steps codes 1 start m (start + 1) m := by
  have h := steps_branch hc hop ha hp
  rwa [if_neg (Bool.eq_false_iff.mp hx)] at h

theorem faults_branch {fault : MachineFault} (hp : m.peek op = .error fault) :
    ∃ n, executeFrom codes n start m = (.faulted fault, m) := by
  have hs := step_of_branch (hop ▸ ha) start m
  rw [hop, hp] at hs
  exact faults_of_step hc hs

end

theorem peek_ok {op : Operator} {x : UInt32} (h : m.peek op = .ok x) (op' : Operator) :
    m.peek op' = .ok x := by
  unfold peek at h ⊢
  split at h
  · cases h
  · exact h

/-- The rounds of a loop, from its opener on with a top that is not zero. -/
theorem follows_rounds {closer : Nat} {body : Machine → Exit true}
    (ho : codes[start]? = some { instruction := { operator := .whileNotZero }, jump := closer })
    (hc : codes[closer]? = some { instruction := { operator := .endWhile }, jump := start })
    (hbody : ∀ m, Follows codes (start + 1) closer closer fuel m (body m))
    {k : Nat} (hk : k ≤ fuel) {x : UInt32} (hp : m.peek .whileNotZero = .ok x) (hx : x ≠ 0) :
    Follows codes start (closer + 1) exit k m (Block.rounds body k m : Exit inLoop) := by
  have hstep : ∀ {m x}, m.peek .whileNotZero = .ok x → x ≠ 0 → Steps codes 1 start m (start + 1) m :=
    fun hp hx => steps_next ho rfl rfl hp (decide_eq_false hx)
  induction k generalizing m x with
  | zero => exact ⟨1, start + 1, m, Nat.zero_lt_one, hstep hp hx⟩
  | succ k ih =>
    have hb := hbody m
    rw [Block.rounds]
    cases he : body m with
    | through m' =>
      rw [he] at hb
      obtain ⟨n, hn⟩ := hb
      have hs := (hstep hp hx).trans hn
      dsimp only
      cases hpe : m'.peek .endWhile with
      | error fault =>
        obtain ⟨j, hj⟩ := faults_branch hc rfl rfl hpe
        exact ⟨1 + n + j, by rw [executeFrom_of_steps hs, hj]⟩
      | ok y =>
        dsimp only
        by_cases hy : y = 0
        · rw [if_pos hy]
          exact ⟨_, hs.trans (steps_next hc rfl rfl hpe (decide_eq_false (not_not_intro hy)))⟩
        · rw [if_neg hy]
          -- back at the opener, where the top is the same
          have hback := hs.trans (steps_jump hc rfl rfl hpe (decide_eq_true hy))
          exact (ih (by omega) (peek_ok hpe _) hy).behind hback (by omega)
    | left m' =>
      rw [he] at hb
      obtain ⟨n, hn⟩ := hb
      exact ⟨1 + n, (hstep hp hx).trans hn⟩
    | stopped fault m' =>
      rw [he] at hb
      obtain ⟨n, hn⟩ := hb
      exact ⟨1 + n, by rw [executeFrom_of_steps (hstep hp hx), hn]⟩
    | unfinished =>
      rw [he] at hb
      obtain ⟨n, position, m', hlt, hn⟩ := hb
      exact ⟨1 + n, position, m', by omega, (hstep hp hx).trans hn⟩

end

/-! ## Trees -/

theorem Operator.action_of_conditional {op : Operator} (h : op.role = .opener .conditional) :
    op.action = .branch (fun x => !op.enters x) 0 := by
  cases op
  case ifNotZero => simp [action, enters]
  case ifZero => simp [action, enters]
  all_goals cases h

namespace Block

/-- Where the codes of a tree stand, the machine comes to where its execution ends. -/
theorem follows_eval {codes : Codes} {inLoop : Bool} (fuel : Nat) (b : Block inLoop)
    (start exit : Nat) (m : Machine)
    (hb : Laid (fun i code => codes[i]? = some code) start (b.codes start exit)) :
    Follows codes start (start + b.size) exit fuel m (b.eval fuel m) := by
  induction b generalizing start exit m with
  | done => exact ⟨0, .refl⟩
  | plain i rest ih =>
    obtain ⟨hi, hrest⟩ := laid_cons.mp hb
    refine follows_plain hi fun m' => ?_
    exact (ih (start + 1) exit m' hrest).cast (by rw [size_plain]; omega)
  | conditional opener body closer rest ihb ihr =>
    obtain ⟨ho, hbody, hc, hrest⟩ := by
      simpa only [Block.codes, laid_cons, laid_append, length_codes] using hb
    have ha := Operator.action_of_conditional opener.2
    -- the rest is reached through the closer, which does nothing
    have hclose : ∀ m', Steps codes 1 (start + 1 + body.size) m' (start + 1 + body.size + 1) m' :=
      fun m' => Steps.single hc rfl
    have hbehind : ∀ m', Follows codes (start + 1 + body.size)
        (start + (conditional opener body closer rest).size) exit fuel m' (rest.eval fuel m') := by
      intro m'
      have h := (ihr _ exit m' hrest).behind (hclose m') (Nat.le_add_right _ _)
      exact h.cast (by rw [size_conditional]; omega)
    rw [eval]
    cases hp : m.peek opener.1.operator with
    | error fault => exact faults_branch ho rfl ha hp
    | ok x =>
      dsimp only
      by_cases hx : opener.1.operator.enters x = true
      · rw [if_pos hx]
        have hstep := steps_next ho rfl ha hp (by rw [hx]; rfl)
        exact ((ihb _ exit m hbody).andThen hbehind).behind hstep (Nat.le_add_right _ _)
      · rw [if_neg hx]
        have hstep := steps_jump ho rfl ha hp (by rw [Bool.not_eq_true] at hx; rw [hx]; rfl)
        exact (hbehind m).behind hstep (Nat.le_add_right _ _)
  | loop opener body closer rest ihb ihr =>
    obtain ⟨ho, hbody, hc, hrest⟩ := by
      simpa only [Block.codes, laid_cons, laid_append, length_codes] using hb
    have hbehind : ∀ m', Follows codes (start + 1 + body.size + 1)
        (start + (loop opener body closer rest).size) exit fuel m' (rest.eval fuel m') := by
      intro m'
      exact (ihr _ exit m' hrest).cast (by rw [size_loop]; omega)
    rw [eval]
    cases hp : m.peek .whileNotZero with
    | error fault => exact faults_branch ho rfl rfl hp
    | ok x =>
      dsimp only
      by_cases hx : x = 0
      · rw [if_pos hx]
        have hstep := steps_jump ho rfl rfl hp (decide_eq_true hx)
        exact (hbehind m).behind hstep (Nat.le_add_right _ _)
      · rw [if_neg hx]
        exact (follows_rounds ho hc (fun m' => ihb _ _ m' hbody) (Nat.le_refl fuel) hp hx).andThen
          hbehind
  | leave i rest ih =>
    obtain ⟨hi, -⟩ := laid_cons.mp hb
    exact ⟨1, Steps.single hi rfl⟩

end Block

end NumNum
