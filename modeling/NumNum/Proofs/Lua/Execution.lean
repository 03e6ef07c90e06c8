import NumNum.Lua.Text
import NumNum.Text.Utf8

/-!
# Executing generated programs

The meaning of the Lua that generated programs are written in. Integers have 64 bits and
wrap, the table `stack` is a sequence, and the functions of the prelude do what it defines
them to do. A program is executed with a bound on the rounds of each loop, and what has ended
does not change when there are more (`Chunk.exec_eq_of_ended`).

The meaning is partial: nothing is said about input, about reading a place that holds nil,
and about the other uses of a table and of numbers that no generated program makes.
-/

namespace NumNum.Lua

/-! ## Integers -/

abbrev Integer := BitVec 64

/-- Shifts to the left, by a negative number of bits to the right; bits from outside are zero. -/
def shifted (a : Integer) (bits : Int) : Integer :=
  if 0 ≤ bits then a <<< bits.toNat else a >>> (-bits).toNat

/-- The result of an operation; dividing by zero has none. Quotients are rounded down. -/
def Arithmetic.apply (o : Arithmetic) (a b : Integer) : Option Integer :=
  match o with
  | .plus => some (a + b)
  | .minus => some (a - b)
  | .times => some (a * b)
  | .quotient => if b = 0 then none else some (.ofInt 64 (a.toInt.fdiv b.toInt))
  | .modulo => if b = 0 then none else some (.ofInt 64 (a.toInt.fmod b.toInt))
  | .bitAnd => some (a &&& b)
  | .bitOr => some (a ||| b)
  | .bitXor => some (a ^^^ b)
  | .leftShift => some (shifted a b.toInt)
  | .rightShift => some (shifted a (-b.toInt))

def Comparison.holds (c : Comparison) (a b : Integer) : Bool :=
  match c with
  | .greater => b.toInt < a.toInt
  | .less => a.toInt < b.toInt
  | .equal => a = b
  | .unequal => a ≠ b
  | .greaterEqual => b.toInt ≤ a.toInt
  | .lessEqual => a.toInt ≤ b.toInt

/-- The bytes of the character with this code, if it is one that is written. -/
def characterBytes? (code : Integer) : Option (List UInt8) :=
  let n := code.toInt
  if n < 0 ∨ 0x10ffff < n ∨ (0xd800 ≤ n ∧ n ≤ 0xdfff) then none
  else some (Utf8.encode (Char.ofNat n.toNat))

/-! ## States -/

/-- The tables and the scratch place of a running program, and what it has written. -/
structure State where
  /-- The values of `stack`, the last one first. -/
  stack : List Integer := []
  /-- The table `variables`. -/
  memory : UInt32 → Option Integer := fun _ => none
  temporary : Option Integer := none
  output : List UInt8 := []

def State.store (address : UInt32) (v : Integer) (s : State) : State :=
  { s with memory := fun a => if a = address then some v else s.memory a }

/-- Why an execution does not come to its end. -/
inductive Stop where
  /-- An error was raised. -/
  | error
  /-- A break leaves the loop around. -/
  | left
  /-- A loop has used up its rounds. -/
  | unfinished
  /-- Nothing is said about what happens. -/
  | unspecified

abbrev Exec := EStateM Stop State

/-! ## Expressions -/

/-- The value that a place holds; without one it is nil. -/
@[simp] def Place.value? (p : Place) (s : State) : Option Integer :=
  match p with
  | .slot below => s.stack[below]?
  | .temporary => s.temporary
  | .variable address => s.memory address

def valueOr (stop : Stop) : Option Integer → Exec Integer
  | some v => pure v
  | none => throw stop

@[simp] theorem run_valueOr_some (stop : Stop) (v : Integer) (s : State) :
    (valueOr stop (some v)).run s = .ok v s := rfl

@[simp] theorem run_valueOr_none (stop : Stop) (s : State) :
    (valueOr stop none).run s = .error stop s := rfl

def Expr.eval : Expr → Exec Integer
  | .number n => if n < 0x8000000000000000 then pure (.ofNat 64 n) else throw .unspecified
  | .mask => pure 0xffffffff
  | .depth => do pure (.ofNat 64 (← get).stack.length)
  | .place p => do valueOr .unspecified (p.value? (← get))
  | .removed => do
    let v ← valueOr .unspecified (← get).stack.head?
    modify fun s => { s with stack := s.stack.tail }
    pure v
  | .arithmetic o a b => do
    let x ← a.eval
    let y ← b.eval
    valueOr .error (o.apply x y)
  | .complement a => do pure (~~~(← a.eval))
  | .parentheses a => a.eval
  | .top _ => do valueOr .error (← get).stack.head?
  | .readCharacter | .readInteger => throw .unspecified
  | .loadVariable address => do valueOr .error ((← get).memory address)

attribute [simp] Expr.eval

@[simp] def evalAll : List Expr → Exec (List Integer)
  | [] => pure []
  | e :: es => do
    let v ← e.eval
    let vs ← evalAll es
    pure (v :: vs)

def Condition.eval (c : Condition) : Exec Bool := do
  let x ← c.left.eval
  let y ← c.right.eval
  pure (c.comparison.holds x y)

/-! ## Statements -/

/-- Stores a value. A slot was found when the stack held `depth` values. -/
@[simp] def Place.assign (depth : Nat) (v : Integer) : Place → Exec Unit
  | .slot below => do
    let values := (← get).stack
    if below < depth ∧ values.length = depth then
      modify fun s => { s with stack := values.set below v }
    else throw .unspecified
  | .temporary => modify fun s => { s with temporary := some v }
  | .variable address => modify fun s => s.store address v

@[simp] def assignAll (depth : Nat) : List Place → List Integer → Exec Unit
  | [], [] => pure ()
  | p :: ps, v :: vs => do
    p.assign depth v
    assignAll depth ps vs
  | _, _ => throw .unspecified

def emit (bytes : List UInt8) : Exec Unit :=
  modify fun s => { s with output := s.output ++ bytes }

def branch (c : Exec Bool) (x y : Exec Unit) : Exec Unit := do
  if ← c then x else y

def Statement.exec : Statement → Exec Unit
  | .need depth _ => do
    if (← get).stack.length < depth then throw .error
  | .insert e => do
    let v ← e.eval
    modify fun s => { s with stack := v :: s.stack }
  | .remove => do
    let _ ← Expr.removed.eval
  | .assign targets values => do
    let depth := (← get).stack.length
    let vs ← evalAll values
    assignAll depth targets vs
  | .writeCharacter e => do
    match characterBytes? (← e.eval) with
    | some bytes => emit bytes
    | none => throw .error
  | .write e => do
    let v ← e.eval
    emit (Utf8.encodeText (toString v.toInt))
  | .zeroDivision => throw .error
  | .when c s => branch c.eval s.exec (pure ())
  | .choose c s t => branch c.eval s.exec t.exec
  | .leave => throw .left

attribute [simp] Statement.exec

/-! ## Blocks of lines -/

/-- Lines that stand in one block. The body of a branch or a loop is a block of its own, up to
the line that closes it. -/
inductive Chunk where
  | done
  | statement (s : Statement) (rest : Chunk)
  | ifThen (c : Condition) (body rest : Chunk)
  | whileDo (c : Condition) (body rest : Chunk)

namespace Chunk

/-- Executes the body of a loop as long as the test holds ahead of it. -/
def rounds (test : Exec Bool) (body : Exec Unit) : Nat → Exec Unit
  | 0 => branch test (throw .unfinished) (pure ())
  | fuel + 1 => branch test (do body; rounds test body fuel) (pure ())

/-- A loop ends where a break leaves it. -/
def untilLeft (x : Exec Unit) : Exec Unit := fun s =>
  match x.run s with
  | .error .left s => .ok () s
  | r => r

theorem run_untilLeft (x : Exec Unit) (s : State) :
    (untilLeft x).run s =
      match x.run s with
      | .error .left s => .ok () s
      | r => r := rfl

/-- Executes lines, with at most `fuel` rounds of each loop. -/
def exec (fuel : Nat) : Chunk → Exec Unit
  | done => pure ()
  | statement s rest => do
    s.exec
    rest.exec fuel
  | ifThen c body rest => do
    branch c.eval (body.exec fuel) (pure ())
    rest.exec fuel
  | whileDo c body rest => do
    untilLeft (rounds c.eval (body.exec fuel) fuel)
    rest.exec fuel

def Halts (c : Chunk) (s : State) : Prop :=
  ∃ fuel, (c.exec fuel).run {} = .ok () s

def Raises (c : Chunk) (s : State) : Prop :=
  ∃ fuel, (c.exec fuel).run {} = .error .error s

/-- The program goes on beyond every bound on the rounds of its loops. -/
def Diverges (c : Chunk) : Prop :=
  ∀ fuel, ∃ s, (c.exec fuel).run {} = .error .unfinished s

/-- The lines as they are written with this many blocks open around them. -/
def text (depth : Nat) : Chunk → String
  | done => ""
  | statement s rest => (Line.statement s).indented depth ++ rest.text depth
  | ifThen c body rest =>
    (Line.ifThen c).indented depth ++ body.text (depth + 1) ++ Line.closer.indented depth ++
      rest.text depth
  | whileDo c body rest =>
    (Line.whileDo c).indented depth ++ body.text (depth + 1) ++ Line.closer.indented depth ++
      rest.text depth

end Chunk

/-! ## More rounds -/

/-- The second execution does what the first does wherever the first has rounds enough. -/
def Extends (x x' : Exec Unit) : Prop :=
  ∀ s, (∀ s', x.run s ≠ .error .unfinished s') → x'.run s = x.run s

section
variable {x x' y y' : Exec Unit}

theorem Extends.refl (x : Exec Unit) : Extends x x :=
  fun _ _ => rfl

theorem Extends.of_unfinished (x : Exec Unit) : Extends (throw .unfinished) x :=
  fun s h => absurd rfl (h s)

theorem Extends.andThen (hx : Extends x x') (hy : Extends y y') :
    Extends (do x; y) (do x'; y') := by
  intro s h
  simp only [EStateM.run_bind] at h ⊢
  cases hr : x.run s with
  | ok _ s' =>
    rw [hr] at h
    rw [hx s (by rw [hr]; nofun), hr]
    exact hy s' h
  | error stop s' =>
    rw [hr] at h
    rw [hx s (by rw [hr]; exact h), hr]

theorem Extends.branch (test : Exec Bool) (hx : Extends x x') (hy : Extends y y') :
    Extends (branch test x y) (branch test x' y') := by
  intro s h
  simp only [Lua.branch, EStateM.run_bind] at h ⊢
  cases hr : test.run s with
  | ok t s' =>
    rw [hr] at h
    cases t with
    | true => exact hx s' h
    | false => exact hy s' h
  | error stop s' => rfl

theorem Extends.untilLeft (hx : Extends x x') :
    Extends (Chunk.untilLeft x) (Chunk.untilLeft x') := by
  intro s h
  have hr : x'.run s = x.run s := hx s fun s' he => h s' (by rw [Chunk.run_untilLeft, he])
  rw [Chunk.run_untilLeft, Chunk.run_untilLeft, hr]

theorem Extends.rounds (test : Exec Bool) (hx : Extends x x') (n k : Nat) :
    Extends (Chunk.rounds test x n) (Chunk.rounds test x' (n + k)) := by
  induction n with
  | zero =>
    cases k with
    | zero => exact .refl _
    | succ k => exact .branch test (.of_unfinished _) (.refl _)
  | succ n ih =>
    rw [Nat.add_right_comm]
    exact .branch test (hx.andThen ih) (.refl _)

end

theorem Chunk.extends_exec (c : Chunk) (fuel k : Nat) :
    Extends (c.exec fuel) (c.exec (fuel + k)) := by
  induction c with
  | done => exact .refl _
  | statement s rest ih => exact .andThen (.refl _) ih
  | ifThen c body rest ihb ihr => exact .andThen (.branch _ ihb (.refl _)) ihr
  | whileDo c body rest ihb ihr => exact .andThen (.untilLeft (.rounds _ ihb fuel k)) ihr

theorem Chunk.exec_eq_of_ended (c : Chunk) {fuel fuel' : Nat} {s : State}
    (h : ∀ s', (c.exec fuel).run s ≠ .error .unfinished s')
    (h' : ∀ s', (c.exec fuel').run s ≠ .error .unfinished s') :
    (c.exec fuel).run s = (c.exec fuel').run s := by
  rw [← c.extends_exec fuel fuel' s h, ← c.extends_exec fuel' fuel s h', Nat.add_comm]

/-- A program that comes to its end does so in one state, and it raises no error. -/
theorem Chunk.Halts.unique {c : Chunk} {s : State} (h : c.Halts s) :
    (∀ s', c.Halts s' → s' = s) ∧ ∀ s', ¬c.Raises s' := by
  obtain ⟨fuel, h⟩ := h
  constructor
  · rintro s' ⟨fuel', h'⟩
    have he := c.exec_eq_of_ended (by rw [h]; nofun) (by rw [h']; nofun)
    rw [h, h'] at he
    cases he
    rfl
  · rintro s' ⟨fuel', h'⟩
    have he := c.exec_eq_of_ended (by rw [h]; nofun) (by rw [h']; nofun)
    rw [h, h'] at he
    cases he

end NumNum.Lua
