import NumNum.Proofs.Machine.Steps

/-!
# Flushes of a run

Before a machine asks its input for bytes it flushes the output, and a flush that fails ends the
run instead. The last thing that a run does is another flush, of which a failure is reported only
if the codes came to their end (`Machine.flushed_before_asked`). The output may change from step
to step, so that a flush can fail behind others that have succeeded.
-/

namespace NumNum

namespace Machine

variable {position : Nat} {m : Machine}

/-! ## An output that changes -/

/-- Executes codes like `runFrom` while the world changes the output behind each step, with so
many steps left. It may take more bytes or fewer than before, and its flushes may begin or cease
to fail. -/
def runFromAmid (world : Nat → Sink → Sink) (codes : Codes) :
    Nat → Nat → Machine → Array Event → Array Traffic → Run
  | fuel, position, m, log, traffic =>
    match codes[position]? with
    | none => { ending := .halted, machine := m, log, traffic }
    | some code =>
      match fuel with
      | 0 => { ending := .unfinished, machine := m, log, traffic }
      | fuel + 1 =>
        let log := log.push (.executing position code.instruction)
        match m.step code position with
        | ⟨.ok next, m, t⟩ =>
          runFromAmid world codes fuel next { m with output := world fuel m.output } log
            (traffic ++ t)
        | ⟨.error fault, m, t⟩ =>
          { ending := .faulted fault, machine := { m with output := world fuel m.output }, log,
            traffic := traffic ++ t }

/-- Runs codes from the start like `run`, with an output that the world changes. -/
def runAmid (world : Nat → Sink → Sink) (fuel : Nat) (codes : Codes) (m : Machine) : Run :=
  finishRun (runFromAmid world codes fuel 0 m #[.running codes.size] #[])

theorem runFromAmid_unchanged (codes : Codes) (fuel position : Nat) (m : Machine)
    (log : Array Event) (traffic : Array Traffic) :
    runFromAmid (fun _ output => output) codes fuel position m log traffic =
      runFrom codes fuel position m log traffic := by
  induction fuel generalizing position m log traffic with
  | zero => unfold runFromAmid runFrom; cases codes[position]? <;> rfl
  | succ fuel ih =>
    unfold runFromAmid runFrom
    cases codes[position]? with
    | none => rfl
    | some code =>
      dsimp only
      rcases m.step code position with ⟨fault | next, m', t⟩
      · rfl
      · exact ih ..

/-! ## What a step does at its channels -/

/-- What a step reports of its channels, and what has happened to them. -/
inductive Reports (m : Machine) : Step → Prop
  | nothing {s : Step} (ht : s.traffic = []) (hi : s.machine.input = m.input)
      (ho : s.machine.output = m.output) : Reports m s
  | wrote {s : Step} (bytes : List UInt8) (ht : s.traffic = [.wrote])
      (hi : s.machine.input = m.input) (ho : s.machine.output = (m.output.write bytes).2) :
      Reports m s
  | unflushed {f : IoFault} (hf : m.output.flush = .error f) :
      Reports m ⟨.error (.io f), m, [.flushed false]⟩
  | asked {s : Step} (hf : m.output.flush = .ok ()) (ht : s.traffic = [.flushed true, .asked])
      (ho : s.machine.output = m.output) : Reports m s

theorem request_of_unflushed {α : Type} {f : IoFault} (hf : m.output.flush = .error f)
    (read : Source → Except IoFault α × Source) (meaning : α → Except MachineFault UInt32)
    (next : Nat) : m.request read meaning next = ⟨.error (.io f), m, [.flushed false]⟩ := by
  unfold request
  rw [hf]

/-- The stack takes no part in what is reported. -/
theorem reports_emit (bytes : List UInt8) (next : Nat) (stack : Stack) (m : Machine) :
    m.Reports (emit bytes next { m with stack }) := by
  obtain ⟨_, memory, input, output⟩ := m
  unfold emit
  dsimp only
  rcases hw : output.write bytes with ⟨_ | _, output'⟩
  · exact .wrote bytes rfl rfl (by rw [hw])
  · exact .wrote bytes rfl rfl (by rw [hw])

theorem reports_request {α : Type} (read : Source → Except IoFault α × Source)
    (meaning : α → Except MachineFault UInt32) (next : Nat) (m : Machine) :
    m.Reports (m.request read meaning next) := by
  unfold request
  cases hf : m.output.flush with
  | error f => exact .unflushed hf
  | ok _ =>
    rcases read m.input with ⟨f | a, rest⟩
    · exact .asked hf rfl rfl
    · dsimp only
      cases meaning a with
      | error fault => exact .asked hf rfl rfl
      | ok w => exact .asked hf rfl rfl

theorem reports_step (code : Code) (position : Nat) (m : Machine) :
    m.Reports (m.step code position) := by
  unfold step
  dsimp only
  split
  case h_10 => split <;> exact .nothing rfl rfl rfl
  case h_15 => split <;> exact .nothing rfl rfl rfl
  case h_16 => exact reports_request ..
  case h_17 => exact reports_request ..
  case h_18 =>
    split
    · exact reports_emit ..
    · exact .nothing rfl rfl rfl
  case h_19 => exact reports_emit ..
  all_goals exact .nothing rfl rfl rfl

/-- The channels that a step does not mention are as they were, and a flush that it mentions
has the success that the output gives it. -/
theorem Reports.truthful {s : Step} (h : m.Reports s) :
    (.wrote ∉ s.traffic → s.machine.output = m.output) ∧
    (.asked ∉ s.traffic → s.machine.input = m.input) ∧
    (∀ success, .flushed success ∈ s.traffic → success = m.output.flush.isOk) := by
  cases h with
  | nothing ht hi ho =>
    rw [ht]
    exact ⟨fun _ => ho, fun _ => hi, nofun⟩
  | wrote bytes ht hi ho =>
    rw [ht]
    exact ⟨fun hw => absurd (List.mem_singleton_self _) hw, fun _ => hi, by simp⟩
  | unflushed hf => exact ⟨fun _ => rfl, fun _ => rfl, by simp [hf, Except.isOk, Except.toBool]⟩
  | asked hf ht ho =>
    rw [ht]
    exact ⟨fun _ => ho, fun ha => by simp at ha, by simp [hf, Except.isOk, Except.toBool]⟩

theorem step_of_unflushed {code : Code} {f : IoFault}
    (hop : code.instruction.operator = .inputCharacter ∨
      code.instruction.operator = .inputInteger) (hf : m.output.flush = .error f) :
    m.step code position = ⟨.error (.io f), m, [.flushed false]⟩ := by
  unfold step
  rcases hop with hop | hop
  · rw [hop]
    exact request_of_unflushed hf ..
  · rw [hop]
    exact request_of_unflushed hf ..

/-! ## Flushes ahead of the input -/

/-- Wherever the input is asked for bytes, a flush stands directly before, and succeeds. -/
def FlushedAhead (traffic : List Traffic) : Prop :=
  ∀ ⦃before after⦄, traffic = before ++ .asked :: after →
    ∃ earlier, before = earlier ++ [.flushed true]

theorem flushedAhead_of_not_mem {ts : List Traffic} (h : .asked ∉ ts) : FlushedAhead ts := by
  rintro before after rfl
  exact absurd List.mem_append_cons_self h

theorem flushedAhead_asked : FlushedAhead [.flushed true, .asked] := by
  intro before after h
  rcases before with _ | ⟨t, _ | ⟨t', before⟩⟩
  · cases h
  · cases h
    exact ⟨[], rfl⟩
  · cases before <;> cases h

theorem FlushedAhead.append {ts ts' : List Traffic} (h : FlushedAhead ts)
    (h' : FlushedAhead ts') : FlushedAhead (ts ++ ts') := by
  intro before after heq
  rcases List.append_eq_append_iff.mp heq with ⟨between, rfl, hts'⟩ | ⟨between, hts, hasked⟩
  · obtain ⟨earlier, rfl⟩ := h' hts'
    exact ⟨ts ++ earlier, (List.append_assoc ..).symm⟩
  · -- an ask at the head of the second list would have no flush before it there
    cases between with
    | nil =>
      obtain ⟨earlier, hnil⟩ := h' (show ts' = [] ++ .asked :: after from hasked.symm)
      simp at hnil
    | cons t between =>
      cases hasked
      exact h hts

theorem Reports.flushedAhead {s : Step} (h : m.Reports s) : FlushedAhead s.traffic := by
  cases h with
  | nothing ht _ _ =>
    rw [ht]
    exact flushedAhead_of_not_mem nofun
  | wrote _ ht _ _ =>
    rw [ht]
    exact flushedAhead_of_not_mem (by simp)
  | unflushed _ => exact flushedAhead_of_not_mem (by simp)
  | asked _ ht _ =>
    rw [ht]
    exact flushedAhead_asked

theorem flushedAhead_runFromAmid (world : Nat → Sink → Sink) (codes : Codes)
    (fuel position : Nat) (m : Machine) (log : Array Event) (traffic : Array Traffic)
    (h : FlushedAhead traffic.toList) :
    FlushedAhead (runFromAmid world codes fuel position m log traffic).traffic.toList := by
  induction fuel generalizing position m log traffic with
  | zero => unfold runFromAmid; cases codes[position]? <;> exact h
  | succ fuel ih =>
    unfold runFromAmid
    cases codes[position]? with
    | none => exact h
    | some code =>
      -- the invariant is on all traffic so far, to which the step adds its own
      have hstep := h.append (reports_step code position m).flushedAhead
      rw [← Array.toList_appendList] at hstep
      dsimp only
      rcases hs : m.step code position with ⟨fault | next, m', t⟩
      · rw [hs] at hstep
        exact hstep
      · rw [hs] at hstep
        exact ih _ _ _ _ hstep

/-! ## The last flush -/

/-- The last flush is recorded behind everything else, and changes how the run ended only if it
fails behind the last of the codes. -/
theorem finishRun_eq (r : Run) :
    (finishRun r).machine = r.machine ∧
    (finishRun r).traffic = r.traffic.push (.flushed r.machine.output.flush.isOk) ∧
    (finishRun r).ending =
      match r.ending, r.machine.output.flush with
      | .halted, .error f => .faulted (.io f)
      | ending, _ => ending := by
  obtain ⟨ending, m, log, traffic⟩ := r
  unfold finishRun
  dsimp only
  cases ending with
  | halted => cases m.output.flush <;> exact ⟨rfl, rfl, rfl⟩
  | faulted fault => exact ⟨rfl, rfl, rfl⟩
  | unfinished => exact ⟨rfl, rfl, rfl⟩

/-- In every run, whatever the output does: the input is only asked right behind a flush that
succeeds, the last thing done is a flush, a fault of the codes is reported in preference to one of
that flush, and a failure of the flush after the last code is reported. If the flush in front of
the input fails, the step faults and the machine is as it was. What a run records of its channels
is what happens to them, and if the output does not change between steps the run is that of
`run`. -/
theorem flushed_before_asked (codes : Codes) (m : Machine) (fuel : Nat)
    (world : Nat → Sink → Sink) :
    let ran := runFromAmid world codes fuel 0 m #[.running codes.size] #[]
    let r := m.runAmid world fuel codes
    FlushedAhead r.traffic.toList ∧
    (∃ earlier, r.traffic.toList = earlier ++ [.flushed ran.machine.output.flush.isOk]) ∧
    (∀ fault, ran.ending = .faulted fault → r.ending = .faulted fault) ∧
    (∀ f, ran.ending = .halted → ran.machine.output.flush = .error f →
      r.ending = .faulted (.io f)) ∧
    (ran.ending = .halted → ran.machine.output.flush = .ok () → r.ending = .halted) ∧
    m.runAmid (fun _ output => output) fuel codes = m.run fuel codes ∧
    ∀ (code : Code) (position : Nat) (m : Machine),
      (∀ f, code.instruction.operator = .inputCharacter ∨
          code.instruction.operator = .inputInteger →
        m.output.flush = .error f →
          m.step code position = ⟨.error (.io f), m, [.flushed false]⟩) ∧
      (.wrote ∉ (m.step code position).traffic →
        (m.step code position).machine.output = m.output) ∧
      (.asked ∉ (m.step code position).traffic →
        (m.step code position).machine.input = m.input) ∧
      (∀ success, .flushed success ∈ (m.step code position).traffic →
        success = m.output.flush.isOk) := by
  intro ran r
  obtain ⟨-, htraffic, hending⟩ := finishRun_eq ran
  have htraffic : r.traffic.toList =
      ran.traffic.toList ++ [.flushed ran.machine.output.flush.isOk] := by
    rw [← Array.toList_push]
    exact congrArg Array.toList htraffic
  have hran : FlushedAhead ran.traffic.toList :=
    flushedAhead_runFromAmid world codes fuel 0 m _ _ (flushedAhead_of_not_mem nofun)
  refine ⟨?_, ⟨_, htraffic⟩, fun fault h => ?_, fun f h hf => ?_, fun h hf => ?_, ?_,
    fun code position m => ⟨fun f => step_of_unflushed, (reports_step code position m).truthful⟩⟩
  · rw [htraffic]
    exact hran.append (flushedAhead_of_not_mem (by simp))
  · rw [h] at hending
    exact hending
  · rw [h, hf] at hending
    exact hending
  · rw [h, hf] at hending
    exact hending
  · rw [runAmid, runFromAmid_unchanged, run]

/-- Three codes of which the last flushes in vain, its fault kept in front of the one of the last
flush. The first two codes come to their end, where the last flush fails, and none at all halt. -/
theorem flushed_before_asked_late :
    let codes : Codes :=
      #[⟨⟨.inputCharacter, 0⟩, 0⟩, ⟨⟨.outputCharacter, 0⟩, 0⟩, ⟨⟨.inputCharacter, 0⟩, 0⟩]
    let m : Machine := { input := .ofBytes [97, 98], output := {} }
    let closed : Machine := { input := .ofBytes [98], output := { flushFails := true } }
    let world : Nat → Sink → Sink := fun left output =>
      { output with flushFails := decide (left < 2), flushFailed := ⟨.other, toString left⟩ }
    (m.runAmid world 3 codes).traffic.toList =
        [.flushed true, .asked, .wrote, .flushed false, .flushed false] ∧
      FlushedAhead (m.runAmid world 3 codes).traffic.toList ∧
      (m.runAmid world 3 codes).ending = .faulted (.io ⟨.other, "1"⟩) ∧
      (m.runAmid world 3 codes.pop).ending = .faulted (.io ⟨.other, "1"⟩) ∧
      (m.runAmid world 3 #[]).ending = .halted ∧
      closed.step ⟨⟨.inputInteger, 0⟩, 0⟩ 4 =
        ⟨.error (.io ⟨.brokenPipe, "flush failed"⟩), closed, [.flushed false]⟩ ∧
      (closed.step ⟨⟨.inputInteger, 0⟩, 0⟩ 4).machine.output = closed.output ∧
      (closed.step ⟨⟨.inputInteger, 0⟩, 0⟩ 4).machine.input = closed.input ∧
      false = closed.output.flush.isOk := by
  intro codes m closed world
  have h := flushed_before_asked codes m 3 world
  have hpop := flushed_before_asked codes.pop m 3 world
  have hnone := flushed_before_asked #[] m 3 world
  obtain ⟨hstep, houtput, hinput, hflush⟩ := h.2.2.2.2.2.2 ⟨⟨.inputInteger, 0⟩, 0⟩ 4 closed
  exact ⟨rfl, h.1, h.2.2.1 _ rfl, hpop.2.2.2.1 _ rfl rfl, hnone.2.2.2.2.1 rfl rfl,
    hstep _ (.inr rfl) rfl, houtput (by decide), hinput (by decide),
    hflush false (by decide)⟩

end Machine

end NumNum
