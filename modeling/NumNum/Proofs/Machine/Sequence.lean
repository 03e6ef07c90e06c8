import NumNum.Proofs.Machine.Meaning

/-!
# Programs one after another

Two nested programs that are run one after the other on an interpreter come to where their
concatenation comes to in one run (`Interpreter.ends_append`). Their trees are executed one
behind the other, so no position has to be moved.
-/

namespace NumNum

open Machine

/-! ## More fuel changes nothing -/

section
variable {inLoop : Bool}

theorem Exit.andThen_assoc (e : Exit inLoop) (j k : Machine → Exit inLoop) :
    (e.andThen j).andThen k = e.andThen fun m => (j m).andThen k := by
  cases e <;> rfl

theorem Exit.andThen_through (e : Exit inLoop) : e.andThen .through = e := by
  cases e <;> rfl

theorem Exit.andThen_congr {e e' : Exit inLoop} {k k' : Machine → Exit inLoop}
    (he : e ≠ .unfinished → e' = e) (hk : ∀ m, k m ≠ .unfinished → k' m = k m)
    (h : e.andThen k ≠ .unfinished) : e'.andThen k' = e.andThen k := by
  have hne : e ≠ .unfinished := by
    rintro rfl
    exact h rfl
  rw [he hne]
  cases e with
  | through m => exact hk m h
  | _ => rfl

theorem Block.rounds_add {body body' : Machine → Exit true} {fuel : Nat} {m : Machine}
    (hbody : ∀ m, body m ≠ .unfinished → body' m = body m)
    (h : (rounds body fuel m : Exit inLoop) ≠ .unfinished) (k : Nat) :
    (rounds body' (fuel + k) m : Exit inLoop) = rounds body fuel m := by
  induction fuel generalizing m with
  | zero => exact absurd rfl h
  | succ fuel ih =>
    rw [Nat.add_right_comm]
    rw [rounds] at h ⊢
    have hne : body m ≠ .unfinished := by
      intro he
      rw [he] at h
      exact h rfl
    rw [hbody m hne, rounds]
    cases hb : body m with
    | through m' =>
      rw [hb] at h
      dsimp only at h ⊢
      cases hp : m'.peek .endWhile with
      | error fault => rfl
      | ok x =>
        rw [hp] at h
        dsimp only at h ⊢
        by_cases hx : x = 0
        · rw [if_pos hx, if_pos hx]
        · rw [if_neg hx] at h ⊢
          rw [if_neg hx]
          exact ih h
    | _ => rfl

/-- More fuel changes nothing in the execution of a tree that has ended. -/
theorem Block.eval_add {fuel : Nat} {b : Block inLoop} {m : Machine}
    (h : b.eval fuel m ≠ .unfinished) (k : Nat) : b.eval (fuel + k) m = b.eval fuel m := by
  induction b generalizing m with
  | done => rfl
  | plain i rest ih =>
    rw [eval] at h ⊢
    rw [eval]
    rcases hs : m.step { instruction := i.1.canonical } 0 with ⟨_ | _, m', t⟩
    · rfl
    · rw [hs] at h
      exact ih h
  | conditional opener body closer rest ihb ihr =>
    rw [eval] at h ⊢
    rw [eval]
    cases hp : m.peek opener.1.operator with
    | error fault => rfl
    | ok x =>
      rw [hp] at h
      dsimp only at h ⊢
      split
      · rename_i hx
        rw [if_pos hx] at h
        exact Exit.andThen_congr ihb (fun _ => ihr) h
      · rename_i hx
        rw [if_neg hx] at h
        exact ihr h
  | loop opener body closer rest ihb ihr =>
    rw [eval] at h ⊢
    rw [eval]
    cases hp : m.peek .whileNotZero with
    | error fault => rfl
    | ok x =>
      rw [hp] at h
      dsimp only at h ⊢
      split
      · rename_i hx
        rw [if_pos hx] at h
        exact ihr h
      · rename_i hx
        rw [if_neg hx] at h
        exact Exit.andThen_congr (fun h => rounds_add (fun _ => ihb) h k) (fun _ => ihr) h
  | leave i rest ih => rfl

/-! ## Trees one behind the other -/

theorem Block.eval_append (b c : Block inLoop) (fuel : Nat) (m : Machine) :
    (b.append c).eval fuel m = (b.eval fuel m).andThen (c.eval fuel) := by
  induction b generalizing m with
  | done => rfl
  | plain i rest ih =>
    rw [append, eval, eval]
    rcases m.step { instruction := i.1.canonical } 0 with ⟨_ | _, m', t⟩
    · rfl
    · exact ih c m'
  | conditional opener body closer rest _ ih =>
    rw [append, eval, eval]
    cases m.peek opener.1.operator with
    | error fault => rfl
    | ok x =>
      dsimp only
      split
      · rw [Exit.andThen_assoc]
        exact congrArg _ (funext (ih c))
      · exact ih c m
  | loop opener body closer rest _ ih =>
    rw [append, eval, eval]
    cases m.peek .whileNotZero with
    | error fault => rfl
    | ok x =>
      dsimp only
      split
      · exact ih c m
      · rw [Exit.andThen_assoc]
        exact congrArg _ (funext (ih c))
  | leave i rest _ => rfl

end

/-! ## Where trees end -/

theorem Exit.ne_unfinished_of_result? {e : Exit false}
    {r : Except MachineFault Unit × Machine} (h : e.result? = some r) : e ≠ .unfinished := by
  rintro rfl
  cases h

theorem Exit.eq_through_of_result? {e : Exit false} {m : Machine}
    (h : e.result? = some (.ok (), m)) : e = .through m := by
  cases e <;> cases h
  rfl

theorem Exit.eq_stopped_of_result? {e : Exit false} {fault : MachineFault} {m : Machine}
    (h : e.result? = some (.error fault, m)) : e = .stopped fault m := by
  cases e <;> cases h
  rfl

namespace Block

variable {b c : Block false} {m m' m'' : Machine} {result result' : Except MachineFault Unit}

theorem Ends.unique (h : b.Ends m result m') (h' : b.Ends m result' m'') :
    result = result' ∧ m' = m'' := by
  obtain ⟨fuel, h⟩ := h
  obtain ⟨fuel', h'⟩ := h'
  have he := eval_add (Exit.ne_unfinished_of_result? h) fuel'
  rw [Nat.add_comm, eval_add (Exit.ne_unfinished_of_result? h') fuel] at he
  rw [← he, h'] at h
  cases h
  exact ⟨rfl, rfl⟩

theorem flushFails_of_ends (h : b.Ends m result m') :
    m'.output.flushFails = m.output.flushFails := by
  obtain ⟨n, ending, -, hn⟩ := (b.ends_iff_executeFrom m result m').mp h
  have hf := flushFails_executeFrom (b.codes 0 0).toArray n 0 m
  rwa [hn] at hf

section
variable {fuel : Nat} (h : b.eval fuel m = .through m')
include h

theorem eval_append_of_through (k : Nat) :
    (b.append c).eval (fuel + k) m = c.eval (fuel + k) m' := by
  have hb : b.eval (fuel + k) m = .through m' := by
    rw [eval_add (by rw [h]; nofun), h]
  rw [eval_append, hb]
  rfl

theorem ends_append_of_through : (b.append c).Ends m result m'' ↔ c.Ends m' result m'' := by
  constructor
  · rintro ⟨k, hk⟩
    refine ⟨fuel + k, ?_⟩
    rwa [← eval_append_of_through h, Nat.add_comm, eval_add (Exit.ne_unfinished_of_result? hk)]
  · rintro ⟨k, hk⟩
    refine ⟨fuel + k, ?_⟩
    rwa [eval_append_of_through h, Nat.add_comm, eval_add (Exit.ne_unfinished_of_result? hk)]

theorem diverges_append_of_through :
    (∀ k, (b.append c).eval k m = .unfinished) ↔ ∀ k, c.eval k m' = .unfinished := by
  constructor
  · intro hd k
    refine Classical.byContradiction fun hne => hne ?_
    have hk := hd (fuel + k)
    rwa [eval_append_of_through h, Nat.add_comm, eval_add hne] at hk
  · intro hd k
    refine Classical.byContradiction fun hne => hne ?_
    have hk := hd (fuel + k)
    rwa [← eval_append_of_through h, Nat.add_comm, eval_add hne] at hk

end

theorem ends_append_of_stopped {fault : MachineFault} (h : b.Ends m (.error fault) m') :
    (b.append c).Ends m (.error fault) m' := by
  obtain ⟨fuel, h⟩ := h
  refine ⟨fuel, ?_⟩
  rw [eval_append, Exit.eq_stopped_of_result? h]
  rfl

end Block

/-! ## Runs one after another -/

namespace Interpreter

section
variable {m : Machine} (hflush : m.output.flushFails = false)
include hflush

theorem translate_program (b : Block false) (fuel : Nat) :
    ((backend fuel).translate b.program ⟨{}, m⟩).outcome =
        outcomeOf (executeFrom (b.codes 0 0).toArray fuel 0 m).1 ∧
      ((backend fuel).translate b.program ⟨{}, m⟩).state =
        ⟨{}, (executeFrom (b.codes 0 0).toArray fuel 0 m).2⟩ := by
  have h := b.translate_program fuel m
  rw [execute_eq_executeFrom hflush] at h
  exact Prod.mk.injEq .. ▸ h

theorem ends_program_iff (b : Block false) {result : Except Error Unit} {s : Interpreter} :
    Ends b.program ⟨{}, m⟩ result s ↔
      ∃ result' m', b.Ends m result' m' ∧ result = result'.mapError .machine ∧ s = ⟨{}, m'⟩ := by
  constructor
  · rintro ⟨fuel, ho, hs⟩
    obtain ⟨hout, hstate⟩ := translate_program hflush b fuel
    rw [hout, result?_outcomeOf, Option.map_eq_some_iff] at ho
    obtain ⟨result', hr, rfl⟩ := ho
    refine ⟨result', _, (b.ends_iff_executeFrom m _ _).mpr ⟨fuel, _, hr, rfl⟩, rfl, ?_⟩
    rw [← hs, hstate]
  · rintro ⟨result', m', h, rfl, rfl⟩
    obtain ⟨fuel, ending, hr, he⟩ := (b.ends_iff_executeFrom m _ _).mp h
    obtain ⟨hout, hstate⟩ := translate_program hflush b fuel
    refine ⟨fuel, ?_, ?_⟩
    · rw [hout, result?_outcomeOf, he, hr]
      rfl
    · rw [hstate, he]

theorem ends_mapError_iff (b : Block false) (result : Except MachineFault Unit)
    (s : Interpreter) :
    Ends b.program ⟨{}, m⟩ (result.mapError .machine) s ↔
      ∃ m', b.Ends m result m' ∧ s = ⟨{}, m'⟩ := by
  rw [ends_program_iff hflush]
  constructor
  · rintro ⟨result', m', he, hr, rfl⟩
    cases result <;> cases result' <;> cases hr
    · exact ⟨m', he, rfl⟩
    · exact ⟨m', he, rfl⟩
  · rintro ⟨m', he, rfl⟩
    exact ⟨result, m', he, rfl, rfl⟩

theorem diverges_program_iff (b : Block false) :
    (∀ fuel, ((backend fuel).translate b.program ⟨{}, m⟩).outcome = .unfinished) ↔
      ∀ fuel, b.eval fuel m = .unfinished := by
  rw [← b.diverges_iff_executeFrom m]
  refine forall_congr' fun fuel => ?_
  rw [(translate_program hflush b fuel).1, outcomeOf_eq_unfinished]

end

/-- Behind a nested program that came to its end, another one has the same results, in the
same states, as the concatenation of both has in one run, and it has none if that has none.
A fault of the first program is the only end of the concatenation. -/
theorem ends_append (p q : Block false) {m : Machine} (hflush : m.output.flushFails = false) :
    (∀ s, Ends p.program ⟨{}, m⟩ (.ok ()) s →
      (∀ result s', Ends q.program s result s' ↔
        Ends (p.program ++ q.program) ⟨{}, m⟩ result s') ∧
      ((∀ fuel, ((backend fuel).translate q.program s).outcome = .unfinished) ↔
        ∀ fuel, ((backend fuel).translate (p.program ++ q.program) ⟨{}, m⟩).outcome =
          .unfinished)) ∧
    ∀ fault s, Ends p.program ⟨{}, m⟩ (.error (.machine fault)) s →
      ∀ result s', Ends (p.program ++ q.program) ⟨{}, m⟩ result s' ↔
        result = .error (.machine fault) ∧ s' = s := by
  rw [← Block.program_append]
  constructor
  · intro s hs
    obtain ⟨result', m', hm, hr, rfl⟩ := (ends_program_iff hflush p).mp hs
    obtain ⟨⟩ | ⟨⟩ := result'
    · cases hr
    have hflush' : m'.output.flushFails = false := (Block.flushFails_of_ends hm).trans hflush
    obtain ⟨fuel, he⟩ := hm
    have ht := Exit.eq_through_of_result? he
    constructor
    · intro result s'
      simp only [ends_program_iff hflush, ends_program_iff hflush',
        Block.ends_append_of_through ht]
    · rw [diverges_program_iff hflush, diverges_program_iff hflush',
        Block.diverges_append_of_through ht]
  · intro fault s hs result s'
    obtain ⟨result', m', hm, hr, rfl⟩ := (ends_program_iff hflush p).mp hs
    obtain ⟨fault⟩ | ⟨⟩ := result'
    · cases hr
      have hboth := Block.ends_append_of_stopped (c := q) hm
      rw [ends_program_iff hflush]
      constructor
      · rintro ⟨result', m'', h, rfl, rfl⟩
        obtain ⟨rfl, rfl⟩ := h.unique hboth
        exact ⟨rfl, rfl⟩
      · rintro ⟨rfl, rfl⟩
        exact ⟨_, _, hboth, rfl, rfl⟩
    · cases hr

/-- A loop that counts down and writes finds the word that an earlier program has pushed, and
faults behind its second round when it divides by what is left. -/
theorem ends_append_countdown :
    let p : Block false := .plain ⟨⟨.constant8Bit, 2⟩, rfl⟩ .done
    let body : Block true := .plain ⟨⟨.copy, 0⟩, rfl⟩ (.plain ⟨⟨.outputInteger, 0⟩, rfl⟩
      (.plain ⟨⟨.decrement, 0⟩, rfl⟩ .done))
    let q : Block false := .loop ⟨⟨.whileNotZero, 0⟩, rfl⟩ body ⟨⟨.endWhile, 0⟩, rfl⟩
      (.plain ⟨⟨.copy, 0⟩, rfl⟩ (.plain ⟨⟨.divide, 0⟩, rfl⟩ .done))
    let m : Machine := { input := [], output := {} }
    let s : Interpreter := ⟨{}, { m with stack := { values := [2] } }⟩
    let s' : Interpreter :=
      ⟨{}, { m with stack := { values := [0] }, output := { written := #[0x32, 0x31] } }⟩
    m.output.flushFails = false ∧ Ends p.program ⟨{}, m⟩ (.ok ()) s ∧
      Ends q.program s (.error (.machine .zeroDivision)) s' ∧
      Ends (p.program ++ q.program) ⟨{}, m⟩ (.error (.machine .zeroDivision)) s' := by
  intro p body q m s s'
  have h : m.output.flushFails = false := rfl
  have hp : Ends p.program ⟨{}, m⟩ (.ok ()) s := ⟨1, rfl, rfl⟩
  have hq : Ends q.program s (.error (.machine .zeroDivision)) s' := ⟨12, rfl, rfl⟩
  exact ⟨h, hp, hq, (((ends_append p q h).1 s hp).1 _ s').mp hq⟩

end Interpreter

end NumNum
