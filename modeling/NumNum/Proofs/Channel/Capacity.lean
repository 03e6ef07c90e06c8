import NumNum.Proofs.Channel.Attempts
import NumNum.Proofs.Lua.Emission
import NumNum.Proofs.Machine.Meaning

/-!
# Sinks with a limit

Into a sink with room for `n` bytes, the encoder, the generator and the interpreter write the
first `n` bytes of what they write where everything fits. They end in the same way if there are
no more, and with the report of a full sink if there are (`Sink.cutShort_capped`).
-/

namespace NumNum

open Writer

/-! ## The generator -/

namespace Lua.Generator

instance : Writer Generator where
  sink g := g.output
  withSink output g := { g with output }
  sink_withSink _ _ := rfl

/-- What an attempt reports that has met a full sink. -/
def fullSink (f : IoFault) : Except Error Unit := .error (.io f)

theorem cuts_write (text : List BlockKind → String) :
    Cuts fullSink fun g : Generator => g.write (text g.blocks) := by
  rintro ⟨output, blocks⟩ limit (hnone : output.limit = none) hs
  have hw := Sink.write_of_limit_none hnone (Utf8.encodeText (text blocks))
  rcases output.write_within hs (Utf8.encodeText (text blocks)) with ⟨h, hw'⟩ | ⟨h, s', hw', ht⟩
  · dsimp only [write, within, sink, withSink]
    rw [hw, hw']
    exact .fits _ rfl h
  · dsimp only [write, within, sink, withSink]
    rw [hw, hw']
    exact .overflows _ rfl h ht

theorem cuts_writeLine (line : Line) : Cuts fullSink (writeLine line) :=
  cuts_write fun blocks => line.indented blocks.length

/-- Goes on behind a success. -/
def andThen (next : Generator → Except Error Unit × Generator) (r : Except Error Unit)
    (g : Generator) : Except Error Unit × Generator :=
  match r with
  | .ok () => next g
  | .error e => (.error e, g)

section
variable {f next : Generator → Except Error Unit × Generator}

theorem cuts_andThen (hf : Cuts fullSink f) (hn : Cuts fullSink next) :
    Cuts fullSink fun g => andThen next (f g).1 (f g).2 := by
  refine hf.bind fullSink (andThen next) (fun r => ?_) fun _ _ => rfl
  cases r with
  | ok _ => exact hn
  | error e => exact .pure _

end

theorem cuts_writeLines (lines : List Line) : Cuts fullSink (writeLines lines) := by
  induction lines with
  | nil => exact .pure _
  | cons line lines ih =>
    refine (cuts_andThen (cuts_writeLine line) ih).congr fun g => ?_
    rw [writeLines]
    unfold andThen
    rcases g.writeLine line with ⟨_ | _, g⟩ <;> rfl

theorem cuts_closeBlock (kind : BlockKind) : Cuts fullSink (closeBlock kind) := by
  rintro ⟨output, _ | ⟨innermost, blocks⟩⟩ limit hnone hs
  · exact .fits [] output.wrote_nil.symm hs
  · dsimp only [closeBlock, within, sink, withSink]
    by_cases hk : innermost = kind
    · rw [if_pos hk, if_pos hk]
      exact cuts_writeLine .closer ⟨output, blocks⟩ limit hnone hs
    · rw [if_neg hk, if_neg hk]
      exact .fits [] output.wrote_nil.symm hs

theorem cuts_leaveLoop : Cuts fullSink leaveLoop := by
  intro g limit hnone hs
  have hb : (within limit g).blocks = g.blocks := rfl
  rw [leaveLoop, leaveLoop, hb]
  by_cases hl : .loop ∈ g.blocks
  · rw [if_pos hl, if_pos hl]
    exact cuts_writeLine _ g limit hnone hs
  · rw [if_neg hl, if_neg hl]
    exact .fits [] g.output.wrote_nil.symm hs

theorem cuts_openBlock (kind : BlockKind) (op : Operator) : Cuts fullSink (openBlock kind op) := by
  have hopen : Cuts fullSink fun g : Generator => (.ok (), { g with blocks := kind :: g.blocks }) :=
    .of_sink_eq (fun _ => rfl) fun _ _ => rfl
  refine (cuts_andThen (cuts_writeLine (opener kind op)) hopen).congr fun g => ?_
  rw [openBlock]
  unfold andThen
  rcases g.writeLine (opener kind op) with ⟨_ | _, g⟩ <;> rfl

theorem cuts_place (i : Instruction) : Cuts fullSink (place i) := by
  cases hr : i.operator.role with
  | opener kind => exact (cuts_openBlock kind i.operator).congr fun g => by rw [place, hr]
  | closer kind => exact (cuts_closeBlock kind).congr fun g => by rw [place, hr]
  | leaver => exact cuts_leaveLoop.congr fun g => by rw [place, hr]
  | plain => exact (cuts_writeLines _).congr fun g => by rw [place, hr]

theorem cuts_placeAll (p : Program) : Cuts fullSink (placeAll p) := by
  induction p with
  | nil => exact .pure _
  | cons i p ih =>
    refine (cuts_andThen (cuts_place i) ih).congr fun g => ?_
    rw [placeAll]
    unfold andThen
    rcases g.place i with ⟨_ | _, g⟩ <;> rfl

theorem cuts_finish : Cuts fullSink fun g : Generator => (g.finish, g) :=
  .of_sink_eq (fun _ => rfl) fun _ _ => rfl

/-- A program is written behind the prelude, and finished. -/
theorem translate_eq_andThen (p : Program) (g : Generator) :
    ((backend.translate p g).outcome, (backend.translate p g).state) =
      let written := g.write prelude
      let placed := andThen (placeAll p) written.1 written.2
      let finished := andThen (fun g => (g.finish, g)) placed.1 placed.2
      (outcomeOf finished.1, finished.2) := by
  dsimp only [Backend.translate, Program.calls]
  rw [List.cons_append, Backend.handleAll]
  dsimp only [backend]
  rcases g.write prelude with ⟨_ | _, g⟩
  · rfl
  · refine (handleAll_perform p _ g).trans ?_
    dsimp only [andThen]
    rcases placeAll p g with ⟨_ | _, g⟩ <;> rfl

theorem cuts_translate (p : Program) : Cuts (fun f => .failed (.io f)) fun g : Generator =>
    ((backend.translate p g).outcome, (backend.translate p g).state) := by
  have h := cuts_andThen (cuts_andThen (cuts_write fun _ => prelude) (cuts_placeAll p)) cuts_finish
  have ho := h.bind (fun f => .failed (.io f)) (fun r g => (outcomeOf r, g))
    (fun r => .pure (outcomeOf r)) fun _ _ => rfl
  exact ho.congr (translate_eq_andThen p)

end Lua.Generator

/-! ## The machine -/

namespace Machine

instance : Writer Machine where
  sink m := m.output
  withSink output m := { m with output }
  sink_withSink _ _ := rfl

theorem cuts_emit (bytes : List UInt8) (next : Nat) :
    Cuts (fun f => .error (.io f)) fun m : Machine =>
      ((emit bytes next m).outcome, (emit bytes next m).machine) := by
  rintro ⟨stack, memory, input, output⟩ limit (hnone : output.limit = none) hs
  have hw := Sink.write_of_limit_none hnone bytes
  rcases output.write_within hs bytes with ⟨h, hw'⟩ | ⟨h, s', hw', ht⟩
  · dsimp only [emit, within, sink, withSink]
    rw [hw, hw']
    exact .fits _ rfl h
  · dsimp only [emit, within, sink, withSink]
    rw [hw, hw']
    exact .overflows _ rfl h ht

end Machine

def Step.within (limit : Nat) (s : Step) : Step :=
  { s with machine := Writer.within limit s.machine }

/-- Whether an action writes to the output. -/
def Action.writes : Action → Bool
  | .writeCharacter | .writeInteger => true
  | _ => false

namespace Machine

variable (limit : Nat)

theorem request_within {α : Type} (read : Source → Except IoFault α × Source)
    (meaning : α → Except MachineFault UInt32) (next : Nat) (m : Machine) :
    (within limit m).request read meaning next = (m.request read meaning next).within limit := by
  have hi : (within limit m).input = m.input := rfl
  have hf : (within limit m).output.flush = m.output.flush := rfl
  unfold request
  rw [hi, hf]
  cases m.output.flush with
  | error f => rfl
  | ok _ =>
    dsimp only
    rcases read m.input with ⟨_ | a, rest⟩
    · rfl
    · dsimp only
      cases meaning a <;> rfl

/-- A step that does not write does not notice a limit. -/
theorem step_within {code : Code} (h : code.instruction.operator.action.writes = false)
    (position : Nat) (m : Machine) :
    (within limit m).step code position = (m.step code position).within limit ∧
      (m.step code position).machine.output = m.output := by
  have hs : (within limit m).stack = m.stack := rfl
  have hm : (within limit m).memory = m.memory := rfl
  unfold step
  dsimp only
  rw [hs, hm]
  generalize code.instruction.operator.action = action at h ⊢
  cases action with
  | writeCharacter => cases h
  | writeInteger => cases h
  | readCharacter => exact ⟨request_within limit .., output_request ..⟩
  | readInteger => exact ⟨request_within limit .., output_request ..⟩
  | load =>
    dsimp only
    cases m.memory.get? code.instruction.value <;> exact ⟨rfl, rfl⟩
  | division f =>
    rcases m.stack.values with _ | ⟨x, _ | ⟨y, values⟩⟩
    · exact ⟨rfl, rfl⟩
    · exact ⟨rfl, rfl⟩
    · dsimp only
      by_cases hx : x = 0
      · rw [if_pos hx, if_pos hx]
        exact ⟨rfl, rfl⟩
      · rw [if_neg hx, if_neg hx]
        exact ⟨rfl, rfl⟩
  | _ => rcases m.stack.values with _ | ⟨x, _ | ⟨y, _ | ⟨z, values⟩⟩⟩ <;> exact ⟨rfl, rfl⟩

theorem cut_of_eq {ρ : Type} {full r : ρ} {m m' : Machine} (hs : m.output.written.size ≤ limit)
    (h : m'.output = m.output) : Cut (sink m) limit full (r, m') (r, within limit m') :=
  .fits [] (h.trans (Sink.wrote_nil _).symm) (show m'.output.written.size ≤ limit from h ▸ hs)

theorem cuts_step (code : Code) (position : Nat) :
    Cuts (fun f => .error (.io f)) fun m : Machine =>
      ((m.step code position).outcome, (m.step code position).machine) := by
  intro m limit hnone hs
  have hv : (within limit m).stack = m.stack := rfl
  dsimp only
  cases ha : code.instruction.operator.action with
  | writeInteger =>
    unfold step
    rw [ha, hv]
    cases m.stack.values with
    | nil => exact cut_of_eq limit hs rfl
    | cons x values => exact cuts_emit _ _ { m with stack := m.stack.exchange 1 [] } limit hnone hs
  | writeCharacter =>
    unfold step
    rw [ha, hv]
    cases m.stack.values with
    | nil => exact cut_of_eq limit hs rfl
    | cons x values =>
      dsimp only
      cases Word.toChar? x with
      | none => exact cut_of_eq limit hs rfl
      | some c => exact cuts_emit _ _ { m with stack := m.stack.exchange 1 [] } limit hnone hs
  | _ =>
    obtain ⟨hw, ho⟩ := step_within limit (show _ = false by rw [ha]; rfl) position m
    rw [hw]
    exact cut_of_eq limit hs ho

/-! ## Runs -/

/-- What becomes of a run behind its first step. -/
def resume (codes : Codes) (fuel : Nat) : Except MachineFault Nat → Machine → Ending × Machine
  | .error fault, m => (.faulted fault, m)
  | .ok next, m => executeFrom codes fuel next m

theorem executeFrom_succ {codes : Codes} {position : Nat} {code : Code}
    (hc : codes[position]? = some code) (fuel : Nat) (m : Machine) :
    executeFrom codes (fuel + 1) position m =
      resume codes fuel (m.step code position).outcome (m.step code position).machine := by
  rw [executeFrom, hc]
  dsimp only
  rcases m.step code position with ⟨_ | _, m', t⟩ <;> rfl

theorem cuts_executeFrom (codes : Codes) (fuel position : Nat) :
    Cuts (fun f => .faulted (.io f)) (executeFrom codes fuel position) := by
  induction fuel generalizing position with
  | zero =>
    refine (Cuts.pure (if codes[position]? = none then .halted else .unfinished)).congr fun m => ?_
    rw [executeFrom]
    cases codes[position]? <;> rfl
  | succ fuel ih =>
    cases hc : codes[position]? with
    | none =>
      refine (Cuts.pure .halted).congr fun m => ?_
      rw [executeFrom, hc]
    | some code =>
      have hresume (r : Except MachineFault Nat) :
          Cuts (fun f => .faulted (.io f)) (resume codes fuel r) := by
        cases r with
        | ok next => exact ih next
        | error fault => exact .pure _
      exact ((cuts_step code position).bind _ _ hresume fun _ _ => rfl).congr fun m =>
        executeFrom_succ hc fuel m

/-- What becomes of a run by its last flush. -/
def settle : Ending → Machine → Ending × Machine
  | .halted, m =>
    match m.output.flush with
    | .ok () => (.halted, m)
    | .error f => (.faulted (.io f), m)
  | ending, m => (ending, m)

theorem execute_eq_settle (fuel : Nat) (codes : Codes) (m : Machine) :
    m.execute fuel codes =
      settle (executeFrom codes fuel 0 m).1 (executeFrom codes fuel 0 m).2 := by
  rw [execute]
  rcases executeFrom codes fuel 0 m with ⟨_ | _ | _, m'⟩ <;> rfl

theorem cuts_settle (ending : Ending) : Cuts (fun f => .faulted (.io f)) (settle ending) := by
  cases ending with
  | halted =>
    refine .of_sink_eq (fun m => ?_) fun m limit => ?_
    · rw [settle]
      cases m.output.flush <;> rfl
    · have hf : (within limit m).output.flush = m.output.flush := rfl
      rw [settle, settle, hf]
      cases m.output.flush <;> rfl
  | faulted fault => exact .pure _
  | unfinished => exact .pure _

theorem cuts_execute (codes : Codes) (fuel : Nat) :
    Cuts (fun f => .faulted (.io f)) fun m : Machine => m.execute fuel codes :=
  ((cuts_executeFrom codes fuel 0).bind _ _ cuts_settle fun _ _ => rfl).congr fun m =>
    execute_eq_settle fuel codes m

end Machine

/-! ## The interpreter -/

theorem Interpreter.cuts_runAssembled (fuel : Nat) (a : Assembler) :
    Cuts (fun f => .failed (.machine (.io f))) fun m : Machine =>
      ((runAssembled fuel ⟨a, m⟩).outcome, (runAssembled fuel ⟨a, m⟩).state.machine) := by
  rcases ha : a.finish with ⟨e | codes, a'⟩
  · refine (Cuts.pure (.failed (.structural e))).congr fun m => ?_
    rw [runAssembled, ha]
  · have hk := (Machine.cuts_execute codes fuel).bind (fun f => .failed (.machine (.io f)))
      (fun ending m => (outcomeOf ending, m)) (fun ending => .pure (outcomeOf ending))
      fun _ _ => rfl
    refine hk.congr fun m => ?_
    rw [runAssembled, ha]
    dsimp only [runCodes]
    rw [Machine.execute_eq]

theorem Interpreter.cuts_translate (fuel : Nat) (p : Program) (a : Assembler) :
    Cuts (fun f => .failed (.machine (.io f))) fun m : Machine =>
      (((backend fuel).translate p ⟨a, m⟩).outcome,
        ((backend fuel).translate p ⟨a, m⟩).state.machine) := by
  have ht (m : Machine) := congrArg (Prod.map id Interpreter.machine) (translate_eq fuel p a m)
  rcases ha : Assembler.placeAll p a with ⟨e | _, a'⟩
  · refine (Cuts.pure (.failed (.structural e))).congr fun m => (ht m).trans ?_
    rw [ha]
    rfl
  · refine (cuts_runAssembled fuel a').congr fun m => (ht m).trans ?_
    rw [ha]
    rfl

/-! ## Every writer -/

namespace Sink

/-- The sink without a limit. -/
def endless (s : Sink) : Sink :=
  { s with limit := none }

end Sink

end NumNum
