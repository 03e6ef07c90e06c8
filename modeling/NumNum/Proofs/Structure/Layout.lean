import NumNum.Proofs.Structure.Tree

/-!
# The codes of a block tree

`Block.codes` gives the codes of a tree by recursion on the tree, with every jump in
place, when its position and the exit of the loop around it are known. The assembler
knows neither the exit nor a closer ahead of time: `Assembler.after` says what it holds
behind a tree, and `placeAll_program` that it gets there by taking the instructions.
-/

namespace NumNum

/-! ## Positions -/

section
variable {α : Type} {P : Nat → α → Prop} {start : Nat}

/-- Every entry of a list has a property at its position, the first at `start`. -/
def Laid (P : Nat → α → Prop) (start : Nat) (entries : List α) : Prop :=
  ∀ k x, entries[k]? = some x → P (start + k) x

theorem laid_nil : Laid P start [] := by
  intro k x h
  simp at h

theorem laid_cons {x : α} {xs : List α} :
    Laid P start (x :: xs) ↔ P start x ∧ Laid P (start + 1) xs := by
  constructor
  · intro h
    refine ⟨h 0 x rfl, fun k y hk => ?_⟩
    rw [Nat.add_right_comm]
    exact h (k + 1) y hk
  · rintro ⟨hx, hxs⟩ k y hk
    cases k with
    | zero => cases hk; exact hx
    | succ k =>
      have := hxs k y hk
      rwa [Nat.add_right_comm] at this

theorem laid_append {xs ys : List α} :
    Laid P start (xs ++ ys) ↔ Laid P start xs ∧ Laid P (start + xs.length) ys := by
  induction xs generalizing start with
  | nil => simp [laid_nil]
  | cons x xs ih =>
    rw [List.cons_append, laid_cons, laid_cons, ih, and_assoc, List.length_cons,
      Nat.add_right_comm, Nat.add_assoc]

end

/-! ## The codes and the breaks of a tree -/

namespace Block

variable {inLoop : Bool}

/-- The codes of a tree that stands at position `start` in a loop that is closed at `exit`. -/
def codes {inLoop : Bool} : Block inLoop → (start exit : Nat) → List Code
  | done, _, _ => []
  | plain i rest, start, exit => { instruction := i.1.canonical } :: rest.codes (start + 1) exit
  | conditional opener body _ rest, start, exit =>
    { instruction := { operator := opener.1.operator }, jump := start + 1 + body.size } ::
      (body.codes (start + 1) exit ++ { instruction := { operator := .endIf } } ::
        rest.codes (start + 1 + body.size + 1) exit)
  | loop _ body _ rest, start, exit =>
    { instruction := { operator := .whileNotZero }, jump := start + 1 + body.size } ::
      (body.codes (start + 1) (start + 1 + body.size) ++
        { instruction := { operator := .endWhile }, jump := start } ::
          rest.codes (start + 1 + body.size + 1) exit)
  | leave _ rest, start, exit =>
    { instruction := { operator := .leaveLoop }, jump := exit } :: rest.codes (start + 1) exit

/-- Where the breaks out of the loop around a tree stand, last first. -/
def breaks {inLoop : Bool} : Block inLoop → (start : Nat) → List Nat
  | done, _ => []
  | plain _ rest, start => rest.breaks (start + 1)
  | conditional _ body _ rest, start =>
    rest.breaks (start + 1 + body.size + 1) ++ body.breaks (start + 1)
  | loop _ body _ rest, start => rest.breaks (start + 1 + body.size + 1)
  | leave _ rest, start => rest.breaks (start + 1) ++ [start]

attribute [simp] codes breaks

@[simp] theorem length_codes (b : Block inLoop) (start exit : Nat) :
    (b.codes start exit).length = b.size := by
  induction b generalizing start exit with
  | done => rfl
  | plain i rest ih => simp [ih]
  | conditional opener body closer rest ihb ihr => simp [ihb, ihr]; omega
  | loop opener body closer rest ihb ihr => simp [ihb, ihr]; omega
  | leave i rest ih => simp [ih]

theorem codes_append (b c : Block inLoop) (start exit : Nat) :
    (b.append c).codes start exit = b.codes start exit ++ c.codes (start + b.size) exit := by
  induction b generalizing start with
  | done => rfl
  | plain i rest ih => simp [append, ih, Nat.add_assoc, Nat.add_comm 1]
  | conditional opener body closer rest _ ih =>
    have h : start + (body.size + rest.size + 2) = start + 1 + body.size + 1 + rest.size := by omega
    simp [append, ih, h]
  | loop opener body closer rest _ ih =>
    have h : start + (body.size + rest.size + 2) = start + 1 + body.size + 1 + rest.size := by omega
    simp [append, ih, h]
  | leave i rest ih => simp [append, ih, Nat.add_assoc, Nat.add_comm 1]

theorem breaks_append (b c : Block inLoop) (start : Nat) :
    (b.append c).breaks start = c.breaks (start + b.size) ++ b.breaks start := by
  induction b generalizing start with
  | done => simp [append]
  | plain i rest ih => simp [append, ih, Nat.add_assoc, Nat.add_comm 1]
  | conditional opener body closer rest _ ih =>
    have h : start + (body.size + rest.size + 2) = start + 1 + body.size + 1 + rest.size := by omega
    simp [append, ih, h]
  | loop opener body closer rest _ ih =>
    have h : start + (body.size + rest.size + 2) = start + 1 + body.size + 1 + rest.size := by omega
    simp [append, ih, h]
  | leave i rest ih => simp [append, ih, Nat.add_assoc, Nat.add_comm 1]

end Block

/-! ## Setting jumps -/

@[simp] theorem Codes.append_append (codes : Codes) (l l' : List Code) :
    codes ++ (l ++ l') = codes ++ l ++ l' := by
  apply Array.ext'
  simp

@[simp] theorem Codes.size_append (codes : Codes) (l : List Code) :
    (codes ++ l).size = codes.size + l.length := by
  rw [← Array.length_toList, Array.toList_appendList, List.length_append, Array.length_toList]

namespace Assembler

theorem setJump_push_append (before : Codes) (code : Code) (behind : List Code) (target : Nat) :
    setJump (before.push code ++ behind) before.size target =
      before.push { code with jump := target } ++ behind := by
  apply Array.ext'
  simp [setJump, List.modify_eq_take_drop]

/-- The exit of a loop is filled in where its breaks stand, and nowhere else. -/
theorem foldl_setJump_breaks {inLoop : Bool} (b : Block inLoop) (before : Codes)
    (behind : List Code) (exit : Nat) :
    (b.breaks before.size).foldl (fun codes position => setJump codes position exit)
        (before ++ b.codes before.size 0 ++ behind) =
      before ++ b.codes before.size exit ++ behind := by
  induction b generalizing before behind with
  | done => rfl
  | plain i rest ih => simpa using ih (before.push _) behind
  | conditional opener body closer rest ihb ihr =>
    -- the breaks behind the conditional come first, those inside it next
    have hr := ihr ((before.push
      { instruction := { operator := opener.1.operator }, jump := before.size + 1 + body.size } ++
        body.codes (before.size + 1) 0).push { instruction := { operator := .endIf } }) behind
    have hb := ihb (before.push
      { instruction := { operator := opener.1.operator }, jump := before.size + 1 + body.size })
      ({ instruction := { operator := .endIf } } ::
        (rest.codes (before.size + 1 + body.size + 1) exit ++ behind))
    simp only [Array.size_push, Codes.size_append, Block.length_codes, Array.appendList_cons,
      Codes.append_append] at hr hb
    simp only [Block.codes, Block.breaks, List.foldl_append, Array.appendList_cons,
      Codes.append_append, hr, hb]
  | loop opener body closer rest _ ih =>
    have h := ih ((before.push
      { instruction := { operator := .whileNotZero }, jump := before.size + 1 + body.size } ++
        body.codes (before.size + 1) (before.size + 1 + body.size)).push
          { instruction := { operator := .endWhile }, jump := before.size }) behind
    simp only [Array.size_push, Codes.size_append, Block.length_codes] at h
    simp only [Block.codes, Block.breaks, Array.appendList_cons, Codes.append_append, h]
  | leave i rest ih =>
    have h := ih (before.push { instruction := { operator := .leaveLoop } }) behind
    rw [Array.size_push] at h
    simp only [Block.codes, Block.breaks, List.foldl_append, List.foldl_cons, List.foldl_nil,
      Array.appendList_cons, h]
    rw [← Codes.append_append, setJump_push_append, Codes.append_append]

/-! ## Assembling a tree -/

/-- Further breaks of the innermost loop. -/
def addBreaks (positions : List Nat) : List OpenLoop → List OpenLoop
  | [] => []
  | ⟨opener, breaks, around⟩ :: loops => ⟨opener, positions ++ breaks, around⟩ :: loops

@[simp] theorem addBreaks_nil (loops : List OpenLoop) : addBreaks [] loops = loops := by
  cases loops <;> rfl

@[simp] theorem addBreaks_cons (positions : List Nat) (l : OpenLoop) (loops : List OpenLoop) :
    addBreaks positions (l :: loops) =
      ⟨l.opener, positions ++ l.breaks, l.around⟩ :: loops := rfl

@[simp] theorem addBreaks_addBreaks (positions positions' : List Nat) (loops : List OpenLoop) :
    addBreaks positions (addBreaks positions' loops) =
      addBreaks (positions ++ positions') loops := by
  cases loops <;> simp [addBreaks]

/-- The assembler behind a tree: the codes of the tree are there, but for the exit of the
loop around it, for which the breaks are waiting. -/
def after {inLoop : Bool} (a : Assembler) (b : Block inLoop) : Assembler :=
  ⟨a.codes ++ b.codes a.codes.size 0, a.conditionals, addBreaks (b.breaks a.codes.size) a.loops⟩

theorem after_done {inLoop : Bool} (a : Assembler) : a.after (.done : Block inLoop) = a := by
  simp [after]

theorem after_append {inLoop : Bool} (a : Assembler) (b c : Block inLoop) :
    a.after (b.append c) = (a.after b).after c := by
  simp [after, Block.codes_append, Block.breaks_append]

theorem push_eq_after {inLoop : Bool} (a : Assembler) (i : Part .plain) :
    a.push i.1.canonical = a.after (.plain i .done : Block inLoop) := by
  simp [after, push, append]

theorem leave_eq_after (a : Assembler) (i : Part .leaver) (h : a.loops ≠ []) :
    a.leave = (.ok (), a.after (.leave i .done)) := by
  obtain ⟨codes, conditionals, loops⟩ := a
  cases loops with
  | nil => exact absurd rfl h
  | cons l loops => simp [after, leave]

theorem closeConditional_after {inLoop : Bool} (a : Assembler)
    (opener : Part (.opener .conditional)) (body : Block inLoop)
    (closer : Part (.closer .conditional)) :
    ((a.openConditional opener.1.operator).after body).closeConditional =
      (.ok (), a.after (.conditional opener body closer .done)) := by
  simp [after, openConditional, closeConditional, setJump_push_append]

theorem closeLoop_after {inLoop : Bool} (a : Assembler) (opener : Part (.opener .loop))
    (body : Block true) (closer : Part (.closer .loop)) :
    (a.openLoop.after body).closeLoop =
      (.ok (), a.after (.loop opener body closer .done : Block inLoop)) := by
  have h := foldl_setJump_breaks body (a.codes.push
    { instruction := { operator := .whileNotZero }, jump := a.codes.size + 1 + body.size })
    [] (a.codes.size + 1 + body.size)
  simp only [Array.size_push, Array.appendList_nil] at h
  simp [after, openLoop, closeLoop, setJump_push_append, h]

theorem loops_after_ne_nil {inLoop : Bool} {a : Assembler} (h : a.loops ≠ []) (b : Block inLoop) :
    (a.after b).loops ≠ [] := by
  cases hl : a.loops with
  | nil => exact absurd hl h
  | cons l loops => simp [after, hl]

theorem placeAll_append (p q : Program) (a : Assembler) :
    placeAll (p ++ q) a =
      match placeAll p a with
      | (.ok (), a) => placeAll q a
      | failed => failed := by
  induction p generalizing a with
  | nil => rfl
  | cons i p ih =>
    simp only [List.cons_append, placeAll]
    rcases a.place i with ⟨_ | _, a⟩
    · rfl
    · exact ih a

theorem placeAll_cons_of_place {i : Instruction} {a a' : Assembler} (h : a.place i = (.ok (), a'))
    (p : Program) : placeAll (i :: p) a = placeAll p a' := by
  simp only [placeAll, h]

theorem place_plain {inLoop : Bool} (a : Assembler) (i : Part .plain) :
    a.place i.1 = (.ok (), a.after (.plain i .done : Block inLoop)) := by
  simp only [place, i.2, @push_eq_after inLoop a i]

theorem place_leave {a : Assembler} (i : Part .leaver) (h : a.loops ≠ []) :
    a.place i.1 = (.ok (), a.after (.leave i .done)) := by
  simp only [place, i.2, leave_eq_after a i h]

theorem place_conditional (a : Assembler) (opener : Part (.opener .conditional)) :
    a.place opener.1 = (.ok (), a.openConditional opener.1.operator) := by
  simp only [place, opener.2]

theorem place_endConditional {inLoop : Bool} (a : Assembler) (opener : Part (.opener .conditional))
    (body : Block inLoop) (closer : Part (.closer .conditional)) :
    ((a.openConditional opener.1.operator).after body).place closer.1 =
      (.ok (), a.after (.conditional opener body closer .done)) := by
  simp only [place, closer.2, closeConditional_after a opener body closer]

theorem place_loop (a : Assembler) (opener : Part (.opener .loop)) :
    a.place opener.1 = (.ok (), a.openLoop) := by
  simp only [place, opener.2]

theorem place_endLoop {inLoop : Bool} (a : Assembler) (opener : Part (.opener .loop))
    (body : Block true) (closer : Part (.closer .loop)) :
    (a.openLoop.after body).place closer.1 =
      (.ok (), a.after (.loop opener body closer .done : Block inLoop)) := by
  simp only [place, closer.2, @closeLoop_after inLoop a opener body closer]

/-- Every instruction of a tree is taken, in any state that has a loop for its breaks. -/
theorem placeAll_program {inLoop : Bool} (b : Block inLoop) (a : Assembler)
    (h : inLoop = true → a.loops ≠ []) : placeAll b.program a = (.ok (), a.after b) := by
  induction b generalizing a with
  | done => rw [after_done]; rfl
  | plain i rest ih =>
    rw [Block.program, placeAll_cons_of_place (place_plain a i),
      ih _ fun hl => loops_after_ne_nil (h hl) _, ← after_append]
    rfl
  | conditional opener body closer rest ihb ihr =>
    rw [Block.program, placeAll_cons_of_place (place_conditional a opener), placeAll_append,
      ihb (a.openConditional _) h]
    dsimp only
    rw [placeAll_cons_of_place (place_endConditional a opener body closer),
      ihr _ fun hl => loops_after_ne_nil (h hl) _, ← after_append]
    rfl
  | loop opener body closer rest ihb ihr =>
    rw [Block.program, placeAll_cons_of_place (place_loop a opener), placeAll_append,
      ihb a.openLoop fun _ => List.cons_ne_nil _ _]
    dsimp only
    rw [placeAll_cons_of_place (place_endLoop a opener body closer),
      ihr _ fun hl => loops_after_ne_nil (h hl) _, ← after_append]
    rfl
  | leave i rest ih =>
    rw [Block.program, placeAll_cons_of_place (place_leave i (h rfl)),
      ih _ fun hl => loops_after_ne_nil (h hl) _, ← after_append]
    rfl

theorem finish_after (b : Block false) :
    (({} : Assembler).after b).finish = (.ok (b.codes 0 0).toArray, {}) := by
  simp [after, finish, blocks, addBreaks]

end Assembler

/-- A nested program is assembled into the codes of its tree. -/
theorem Block.assemble_program (b : Block false) :
    b.program.assemble = .ok (b.codes 0 0).toArray := by
  simp [Program.assemble, Assembler.placeAll_program, Assembler.finish_after]

end NumNum
