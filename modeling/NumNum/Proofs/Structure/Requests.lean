import NumNum.Proofs.Structure.Refusal

/-!
# Requests that fail

Openers and breaks wait for a closer to give them their jumps. `Served` says what a request
does to the positions that wait, and the runs follow from it: a request that fails goes
unnoticed, unless it is a closer that finds a block of the other kind. Such a closer takes the
block off with everything in it that waits, and no later request gives it a jump
(`Assembler.failed_unnoticed_iff`).
-/

namespace NumNum

namespace Assembler

/-! ## Requests one after another -/

/-- The request to close a block of this kind. -/
def Request.closer : BlockKind → Request
  | .conditional => .closeConditional
  | .loop => .closeLoop

/-- The assembler behind requests, whichever of them fail. -/
def serveAll : List Request → Assembler → Assembler
  | [], a => a
  | r :: later, a => serveAll later (serve r a).2

/-- The answers to the requests. -/
def answers : List Request → Assembler → List (Except StructureError (Option Codes))
  | [], _ => []
  | r :: later, a => (serve r a).1 :: answers later (serve r a).2

/-- No request hands out codes. -/
def Withheld (later : List Request) (a : Assembler) : Prop :=
  ∀ codes, .ok (some codes) ∉ answers later a

/-- The request is a closer, and the innermost open block is of the other kind. -/
def Crosses (a : Assembler) (r : Request) : Prop :=
  ∃ kind, r = .closer kind ∧ ∃ other ≠ kind, a.blocks.head? = some other

/-- No request finds a block of the other kind. -/
def Uncrossed : List Request → Assembler → Prop
  | [], _ => True
  | r :: later, a => ¬ a.Crosses r ∧ Uncrossed later (serve r a).2

/-! ## Positions that wait -/

/-- The positions that wait for the innermost block to be closed. -/
def innermost : Assembler → List (Nat × BlockKind)
  | ⟨_, opener :: _, _⟩ => [(opener, .conditional)]
  | ⟨_, [], l :: _⟩ => (l.opener :: l.breaks).map (·, .loop)
  | ⟨_, [], []⟩ => []

/-- Every position that waits, with the kind of closer that it waits for. -/
def waiting (a : Assembler) : List (Nat × BlockKind) :=
  a.conditionals.map (·, .conditional) ++ a.loops.flatMap fun l =>
    (l.opener :: l.breaks).map (·, .loop) ++ l.around.map (·, .conditional)

/-- The assembler without the innermost block. -/
def dropBlock : Assembler → Assembler
  | ⟨codes, _ :: conditionals, loops⟩ => ⟨codes, conditionals, loops⟩
  | ⟨codes, [], l :: loops⟩ => ⟨codes, l.around, loops⟩
  | ⟨codes, [], []⟩ => ⟨codes, [], []⟩

/-- The code at the position jumps forward to a closer of this kind. -/
def Patched (codes : Codes) (kind : BlockKind) (k : Nat) : Prop :=
  ∃ code closer, codes[k]? = some code ∧ k < code.jump ∧ codes[code.jump]? = some closer ∧
    closer.instruction.operator = kind.closer

/-- The code at the position does not jump forward. -/
def Unpatched (codes : Codes) (k : Nat) : Prop :=
  ∃ code, codes[k]? = some code ∧ code.jump ≤ k

variable {a a' : Assembler} {r : Request} {e : StructureError} {kind : BlockKind}

theorem waiting_eq (a : Assembler) : a.waiting = a.innermost ++ a.dropBlock.waiting := by
  obtain ⟨codes, _ | ⟨opener, conditionals⟩, _ | ⟨l, loops⟩⟩ := a <;>
    simp [waiting, innermost, dropBlock]

theorem blocks_dropBlock (a : Assembler) : a.dropBlock.blocks = a.blocks.tail := by
  obtain ⟨codes, _ | ⟨opener, conditionals⟩, _ | ⟨l, loops⟩⟩ := a <;> simp [blocks, dropBlock]

theorem codes_dropBlock (a : Assembler) : a.dropBlock.codes = a.codes := by
  obtain ⟨codes, _ | ⟨opener, conditionals⟩, _ | ⟨l, loops⟩⟩ := a <;> rfl

theorem waiting_eq_nil (h : a.blocks = []) : a.waiting = [] := by
  obtain ⟨codes, _ | ⟨opener, conditionals⟩, _ | ⟨l, loops⟩⟩ := a
  · rfl
  · cases h
  · cases h
  · cases h

theorem kind_of_mem_innermost (h : a.blocks.head? = some kind) :
    ∀ w ∈ a.innermost, w.2 = kind := by
  obtain ⟨codes, _ | ⟨opener, conditionals⟩, _ | ⟨l, loops⟩⟩ := a
  · cases h
  · cases h
    simp [innermost]
  · cases h
    simp [innermost]
  · cases h
    simp [innermost]

/-- The jumps of all the positions are set. -/
def patch (positions : List Nat) (target : Nat) (codes : Codes) : Codes :=
  positions.foldl (fun codes position => setJump codes position target) codes

theorem getElem?_patch (positions : List Nat) (target : Nat) (codes : Codes) (k : Nat) :
    (patch positions target codes)[k]? =
      if k ∈ positions then codes[k]?.map fun code => { code with jump := target }
      else codes[k]? := by
  induction positions generalizing codes with
  | nil => rfl
  | cons position positions ih =>
    rw [patch, List.foldl_cons, ← patch, ih, setJump, Array.getElem?_modify]
    by_cases hk : position = k
    · by_cases hp : k ∈ positions
      · simp [hk, hp]
        rfl
      · simp [hk, hp]
    · by_cases hp : k ∈ positions
      · simp [hk, hp]
      · simp [hk, hp, Ne.symm hk]

theorem size_patch (positions : List Nat) (target : Nat) (codes : Codes) :
    (patch positions target codes).size = codes.size := by
  induction positions generalizing codes with
  | nil => rfl
  | cons position positions ih =>
    rw [patch, List.foldl_cons, ← patch, ih, setJump, Array.size_modify]

/-! ## One request -/

/-- What a request answers and leaves: it appends a code that does not wait or one that does,
closes the innermost block, hands out the codes, or fails. -/
inductive Served (a : Assembler) : Request → Except StructureError (Option Codes) → Assembler → Prop
  | pushed {r : Request} {a' : Assembler} (code : Code) (hcodes : a'.codes = a.codes.push code)
      (hwaiting : a'.waiting = a.waiting) : Served a r (.ok none) a'
  | placed {r : Request} {a' : Assembler} (code : Code) (kind : BlockKind)
      (hcodes : a'.codes = a.codes.push code) (hjump : code.jump ≤ a.codes.size)
      (hwaiting : a'.waiting.Perm ((a.codes.size, kind) :: a.waiting)) : Served a r (.ok none) a'
  | closed {r : Request} {a' : Assembler} (kind : BlockKind) (closer : Code)
      (hkind : a.blocks.head? = some kind) (hcloser : closer.instruction.operator = kind.closer)
      (hcodes : a'.codes =
        (patch (a.innermost.map Prod.fst) a.codes.size a.codes).push closer)
      (hwaiting : a'.waiting = a.dropBlock.waiting) : Served a r (.ok none) a'
  | finished (h : a.blocks = []) : Served a .finish (.ok (some a.codes)) {}
  | refused {r : Request} {e : StructureError} (h : ¬ a.Crosses r) : Served a r (.error e) a
  | crossed {r : Request} {e : StructureError} (h : a.Crosses r) :
      Served a r (.error e) a.dropBlock

theorem not_crosses_of_blocks (h : a.blocks = []) : ¬ a.Crosses r := by
  rintro ⟨kind, -, other, -, hh⟩
  rw [h] at hh
  cases hh

theorem not_crosses_of_ne (h : ∀ kind, r ≠ .closer kind) : ¬ a.Crosses r := by
  rintro ⟨kind, hr, -⟩
  exact h kind hr

theorem served (r : Request) (a : Assembler) : Served a r (serve r a).1 (serve r a).2 := by
  obtain ⟨codes, conditionals, loops⟩ := a
  cases r with
  | push i => exact .pushed _ rfl rfl
  | openConditional op => exact .placed _ .conditional rfl (Nat.zero_le _) (.refl _)
  | openLoop =>
    refine .placed _ .loop rfl (Nat.le_refl _) ?_
    simp [serve, openLoop, waiting]
  | closeConditional =>
    rcases conditionals with _ | ⟨opener, conditionals⟩
    · rcases loops with _ | ⟨l, loops⟩
      · exact .refused (not_crosses_of_blocks rfl)
      · exact .crossed ⟨.conditional, rfl, .loop, nofun, rfl⟩
    · exact .closed .conditional _ rfl rfl rfl rfl
  | closeLoop =>
    rcases conditionals with _ | ⟨opener, conditionals⟩
    · rcases loops with _ | ⟨⟨opener, breaks, around⟩, loops⟩
      · exact .refused (not_crosses_of_blocks rfl)
      · refine .closed .loop { instruction := { operator := .endWhile }, jump := opener }
          rfl rfl ?_ rfl
        have hpositions : (innermost ⟨codes, [], ⟨opener, breaks, around⟩ :: loops⟩).map Prod.fst =
            opener :: breaks := by
          simp [innermost, Function.comp_def]
        rw [hpositions]
        rfl
    · exact .crossed ⟨.loop, rfl, .conditional, nofun, rfl⟩
  | leave =>
    rcases loops with _ | ⟨⟨opener, breaks, around⟩, loops⟩
    · refine .refused (not_crosses_of_ne fun kind => ?_)
      cases kind <;> exact nofun
    · exact .placed _ .loop rfl (Nat.zero_le _)
        (((List.Perm.swap _ _ _).append_left _).trans List.perm_middle)
  | finish =>
    unfold serve finish
    by_cases h : blocks ⟨codes, conditionals, loops⟩ = []
    · rw [if_pos h]
      exact .finished h
    · rw [if_neg h]
      refine .refused (not_crosses_of_ne fun kind => ?_)
      cases kind <;> exact nofun

/-! ## Positions along a request -/

/-- Every position waits once, for a code that does not jump forward yet. -/
structure Consistent (a : Assembler) : Prop where
  nodup : (a.waiting.map Prod.fst).Nodup
  unpatched : ∀ k ∈ a.waiting.map Prod.fst, Unpatched a.codes k

/-- The code at the position does not wait, so that nothing sets its jump. -/
def Settled (a : Assembler) (k : Nat) (code : Code) : Prop :=
  k ∉ a.waiting.map Prod.fst ∧ a.codes[k]? = some code

/-- The position has what it waited for. -/
def Closed (a : Assembler) (w : Nat × BlockKind) : Prop :=
  ∃ code closer, a.Settled w.1 code ∧ w.1 < code.jump ∧ a.Settled code.jump closer ∧
    closer.instruction.operator = w.2.closer

variable {answer : Except StructureError (Option Codes)} {codes : Codes} {code : Code} {k : Nat}
  {w : Nat × BlockKind} {later : List Request}

theorem lt_size_of_getElem? (h : codes[k]? = some code) : k < codes.size :=
  (Array.getElem?_eq_some_iff.mp h).1

theorem getElem?_push_of_some (h : codes[k]? = some code) (new : Code) :
    (codes.push new)[k]? = some code := by
  rw [Array.getElem?_push, if_neg (Nat.ne_of_lt (lt_size_of_getElem? h)), h]

theorem Consistent.lt_size (ha : a.Consistent) (hk : k ∈ a.waiting.map Prod.fst) :
    k < a.codes.size := by
  obtain ⟨code, hcode, -⟩ := ha.unpatched k hk
  exact lt_size_of_getElem? hcode

theorem Consistent.split (ha : a.Consistent) :
    (a.dropBlock.waiting.map Prod.fst).Nodup ∧
      ∀ k ∈ a.dropBlock.waiting.map Prod.fst, k ∉ a.innermost.map Prod.fst := by
  have hn := ha.nodup
  rw [waiting_eq, List.map_append, List.nodup_append] at hn
  obtain ⟨-, hdrop, hne⟩ := hn
  exact ⟨hdrop, fun k hk hi => hne k hi k hk rfl⟩

theorem mem_waiting_of_dropBlock (hk : k ∈ a.dropBlock.waiting.map Prod.fst) :
    k ∈ a.waiting.map Prod.fst := by
  rw [waiting_eq, List.map_append]
  exact List.mem_append_right _ hk

theorem mem_waiting_of_innermost (hk : k ∈ a.innermost.map Prod.fst) :
    k ∈ a.waiting.map Prod.fst := by
  rw [waiting_eq, List.map_append]
  exact List.mem_append_left _ hk

theorem Consistent.empty : Consistent {} :=
  ⟨List.nodup_nil, nofun⟩

theorem Served.consistent (h : Served a r answer a') (ha : a.Consistent) : a'.Consistent := by
  cases h with
  | pushed code hcodes hwaiting =>
    refine ⟨hwaiting ▸ ha.nodup, fun k hk => ?_⟩
    obtain ⟨c, hc, hj⟩ := ha.unpatched k (hwaiting ▸ hk)
    rw [hcodes]
    exact ⟨c, getElem?_push_of_some hc code, hj⟩
  | placed code kind hcodes hjump hwaiting =>
    have hp := hwaiting.map Prod.fst
    rw [List.map_cons] at hp
    refine ⟨hp.nodup_iff.mpr (List.nodup_cons.mpr ⟨fun hk => ?_, ha.nodup⟩), fun k hk => ?_⟩
    · exact absurd (ha.lt_size hk) (Nat.lt_irrefl _)
    · rw [hcodes]
      rcases List.mem_cons.mp (hp.mem_iff.mp hk) with rfl | hk
      · exact ⟨code, Array.getElem?_push_size, hjump⟩
      · obtain ⟨c, hc, hj⟩ := ha.unpatched k hk
        exact ⟨c, getElem?_push_of_some hc code, hj⟩
  | closed kind closer hkind hcloser hcodes hwaiting =>
    refine ⟨hwaiting ▸ ha.split.1, fun k hk => ?_⟩
    rw [hwaiting] at hk
    obtain ⟨c, hc, hj⟩ := ha.unpatched k (mem_waiting_of_dropBlock hk)
    rw [hcodes]
    refine ⟨c, getElem?_push_of_some ?_ closer, hj⟩
    rw [getElem?_patch, if_neg (ha.split.2 k hk), hc]
  | finished => exact .empty
  | refused => exact ha
  | crossed =>
    refine ⟨ha.split.1, fun k hk => ?_⟩
    rw [codes_dropBlock]
    exact ha.unpatched k (mem_waiting_of_dropBlock hk)

/-- A request changes no code that does not wait, unless it hands out all of them. -/
theorem Served.settled (h : Served a r answer a') (hanswer : ∀ codes, answer ≠ .ok (some codes))
    (hs : a.Settled k code) : a'.Settled k code := by
  obtain ⟨hk, hcode⟩ := hs
  cases h with
  | pushed new hcodes hwaiting =>
    refine ⟨hwaiting ▸ hk, ?_⟩
    rw [hcodes]
    exact getElem?_push_of_some hcode new
  | placed new kind hcodes hjump hwaiting =>
    refine ⟨fun hk' => ?_, ?_⟩
    · rcases List.mem_cons.mp ((hwaiting.map Prod.fst).mem_iff.mp hk') with rfl | hk'
      · exact absurd (lt_size_of_getElem? hcode) (Nat.lt_irrefl _)
      · exact hk hk'
    · rw [hcodes]
      exact getElem?_push_of_some hcode new
  | closed kind closer hkind hcloser hcodes hwaiting =>
    refine ⟨fun hk' => hk (mem_waiting_of_dropBlock (hwaiting ▸ hk')), ?_⟩
    rw [hcodes]
    refine getElem?_push_of_some ?_ closer
    rw [getElem?_patch, if_neg fun hi => hk (mem_waiting_of_innermost hi), hcode]
  | finished => exact absurd rfl (hanswer _)
  | refused => exact ⟨hk, hcode⟩
  | crossed => exact ⟨fun hk' => hk (mem_waiting_of_dropBlock hk'), codes_dropBlock a ▸ hcode⟩

/-- What waits goes on waiting until its closer comes, unless the block is taken off. -/
theorem Served.waiting_or_closed (h : Served a r answer a') (ha : a.Consistent)
    (hx : ¬ a.Crosses r) (hanswer : ∀ codes, answer ≠ .ok (some codes)) (hw : w ∈ a.waiting) :
    w ∈ a'.waiting ∨ a'.Closed w := by
  cases h with
  | pushed code hcodes hwaiting => exact .inl (hwaiting ▸ hw)
  | placed code kind hcodes hjump hwaiting =>
    exact .inl (hwaiting.mem_iff.mpr (List.mem_cons_of_mem _ hw))
  | closed kind closer hkind hcloser hcodes hwaiting =>
    rw [waiting_eq] at hw
    rcases List.mem_append.mp hw with hi | hd
    · right
      -- neither the position nor its closer waits any more, so both stay as they are
      have hmem : w.1 ∈ a.innermost.map Prod.fst := List.mem_map_of_mem hi
      obtain ⟨c, hc, hj⟩ := ha.unpatched w.1 (mem_waiting_of_innermost hmem)
      refine ⟨{ c with jump := a.codes.size }, closer, ⟨fun hk => ?_, ?_⟩,
        lt_size_of_getElem? hc, ⟨fun hk => ?_, ?_⟩, ?_⟩
      · exact ha.split.2 w.1 (hwaiting ▸ hk) hmem
      · rw [hcodes]
        refine getElem?_push_of_some ?_ closer
        rw [getElem?_patch, if_pos hmem, hc]
        rfl
      · exact absurd (ha.lt_size (mem_waiting_of_dropBlock (hwaiting ▸ hk))) (Nat.lt_irrefl _)
      · rw [hcodes, Array.getElem?_push, if_pos (size_patch _ _ _).symm]
      · rw [hcloser, kind_of_mem_innermost hkind w hi]
    · exact .inl (hwaiting ▸ hd)
  | finished => exact absurd rfl (hanswer _)
  | refused => exact .inl hw
  | crossed h => exact absurd h hx

/-! ## Runs -/

theorem withheld_cons : Withheld (r :: later) a ↔
    (∀ codes, (serve r a).1 ≠ .ok (some codes)) ∧ Withheld later (serve r a).2 := by
  unfold Withheld
  simp only [answers, List.mem_cons, not_or, forall_and]
  constructor
  · rintro ⟨hr, hlater⟩
    exact ⟨fun codes h => hr codes h.symm, hlater⟩
  · rintro ⟨hr, hlater⟩
    exact ⟨fun codes h => hr codes h.symm, hlater⟩

theorem Consistent.serveAll (ha : a.Consistent) (before : List Request) :
    (serveAll before a).Consistent := by
  induction before generalizing a with
  | nil => exact ha
  | cons r before ih => exact ih ((served r a).consistent ha)

theorem Settled.serveAll (hs : a.Settled k code) (h : Withheld later a) :
    (serveAll later a).Settled k code := by
  induction later generalizing a with
  | nil => exact hs
  | cons r later ih =>
    obtain ⟨hr, hlater⟩ := withheld_cons.mp h
    exact ih ((served r a).settled hr hs) hlater

theorem Closed.serveAll (hc : a.Closed w) (h : Withheld later a) :
    (serveAll later a).Closed w := by
  obtain ⟨code, closer, hcode, hj, hcloser, hop⟩ := hc
  exact ⟨code, closer, hcode.serveAll h, hj, hcloser.serveAll h, hop⟩

theorem Closed.patched (hc : a.Closed w) : Patched a.codes w.2 w.1 := by
  obtain ⟨code, closer, ⟨-, hcode⟩, hj, ⟨-, hcloser⟩, hop⟩ := hc
  exact ⟨code, closer, hcode, hj, hcloser, hop⟩

theorem Consistent.waiting_or_closed (ha : a.Consistent) (hx : Uncrossed later a)
    (h : Withheld later a) (hw : w ∈ a.waiting) :
    w ∈ (Assembler.serveAll later a).waiting ∨ (Assembler.serveAll later a).Closed w := by
  induction later generalizing a with
  | nil => exact .inl hw
  | cons r later ih =>
    obtain ⟨hr, hlater⟩ := withheld_cons.mp h
    -- what is closed here only has to last, what still waits is followed through the others
    rcases (served r a).waiting_or_closed ha hx.1 hr hw with hw | hc
    · exact ih ((served r a).consistent ha) hx.2 hlater hw
    · exact .inr (hc.serveAll hlater)

/-! ## Answers to a finish -/

theorem serve_finish (a : Assembler) : (serve .finish a).1 =
    if a.blocks = [] then .ok (some a.codes) else .error (.unclosed a.blocks.length) := by
  dsimp only [serve, finish]
  by_cases h : a.blocks = []
  · rw [if_pos h, if_pos h]
    rfl
  · rw [if_neg h, if_neg h]
    rfl

theorem serve_closer (h : a.blocks.head? = some kind) :
    (serve (.closer kind) a).1 = .ok none ∧ (serve (.closer kind) a).2.blocks = a.blocks.tail := by
  cases kind with
  | conditional =>
    obtain ⟨hr, hb⟩ := a.closeConditional_eq
    refine ⟨?_, hb⟩
    rw [if_pos h] at hr
    exact congrArg (Except.map fun _ => none) hr
  | loop =>
    obtain ⟨hr, hb⟩ := a.closeLoop_eq
    refine ⟨?_, hb⟩
    rw [if_pos h] at hr
    exact congrArg (Except.map fun _ => none) hr

/-- The closers of the open blocks lead to a finish that hands out the codes. -/
theorem exists_finish (a : Assembler) : ∃ later, Withheld later a ∧
    (serve .finish (serveAll later a)).1 = .ok (some (serveAll later a).codes) := by
  induction hn : a.blocks.length generalizing a with
  | zero =>
    refine ⟨[], nofun, ?_⟩
    rw [serveAll, serve_finish, if_pos (List.length_eq_zero_iff.mp hn)]
  | succ n ih =>
    rcases hb : a.blocks with _ | ⟨kind, blocks⟩
    · rw [hb] at hn
      cases hn
    · obtain ⟨hr, hblocks⟩ := serve_closer (show a.blocks.head? = some kind by rw [hb]; rfl)
      obtain ⟨later, hlater, hf⟩ := ih (serve (.closer kind) a).2 (by
        rw [hblocks, List.length_tail, hn, Nat.add_sub_cancel])
      refine ⟨.closer kind :: later, withheld_cons.mpr ⟨fun codes h => ?_, hlater⟩, hf⟩
      rw [hr] at h
      cases h

theorem answers_finish_dropBlock_ne (h : a.blocks ≠ []) :
    answers [.finish] a.dropBlock ≠ answers [.finish] a := by
  simp only [answers, serve_finish, if_neg h, blocks_dropBlock]
  intro he
  have hhead := (List.cons.inj he).1
  split at hhead
  · cases hhead
  · have hlength := List.length_pos_iff.mpr h
    simp only [Except.error.injEq, StructureError.unclosed.injEq, List.length_tail] at hhead
    omega

/-- A request that fails leaves everything in place, or takes the innermost block off. -/
theorem eq_of_serve_error (h : serve r a = (.error e, a')) :
    ¬ a.Crosses r ∧ a' = a ∨ a.Crosses r ∧ a' = a.dropBlock := by
  have hs := served r a
  rw [h] at hs
  cases hs with
  | refused hx => exact .inl ⟨hx, rfl⟩
  | crossed hx => exact .inr ⟨hx, rfl⟩

theorem Crosses.blocks_ne_nil (h : a.Crosses r) : a.blocks ≠ [] :=
  fun hb => not_crosses_of_blocks hb h

/-- What waited for a block that was taken off is never patched. -/
theorem Consistent.unpatched_dropBlock (ha : a.Consistent) (h : Withheld later a.dropBlock)
    (hw : w ∈ a.innermost) : Unpatched (Assembler.serveAll later a.dropBlock).codes w.1 := by
  have hmem : w.1 ∈ a.innermost.map Prod.fst := List.mem_map_of_mem hw
  obtain ⟨code, hcode, hj⟩ := ha.unpatched w.1 (mem_waiting_of_innermost hmem)
  have hs : a.dropBlock.Settled w.1 code :=
    ⟨fun hk => ha.split.2 w.1 hk hmem, codes_dropBlock a ▸ hcode⟩
  exact ⟨code, (hs.serveAll h).2, hj⟩

/-- After any requests, some of which may have failed, let a request fail. No code changes, and
the later answers are as if it had not been made, exactly if it is no closer that finds a block
of the other kind. Such a closer takes the block off: nothing patches its positions any more, and
the closers of the other blocks lead to a finish that hands the codes out. Where no closer finds
a block of the other kind, every position that waits is patched before a finish succeeds. -/
theorem failed_unnoticed_iff {before : List Request} (hbefore : serveAll before {} = a)
    (h : serve r a = (.error e, a')) :
    a'.codes = a.codes ∧
    ((∀ later, answers later a' = answers later a) ↔ ¬ a.Crosses r) ∧
    (a.Crosses r → a'.blocks = a.blocks.tail ∧
      (∀ later, Withheld later a' →
        ∀ w ∈ a.innermost, Unpatched (serveAll later a').codes w.1) ∧
      ∃ later, Withheld later a' ∧
        (serve .finish (serveAll later a')).1 = .ok (some (serveAll later a').codes)) ∧
    ∀ later, Uncrossed later a → Withheld later a → ∀ w ∈ a.waiting,
      let b := serveAll later a
      (serve .finish b).1 = .error (.unclosed b.blocks.length) ∨ Patched b.codes w.2 w.1 := by
  have ha : a.Consistent := hbefore ▸ Consistent.empty.serveAll before
  refine ⟨?_, ?_, ?_, fun later hx hl w hw => ?_⟩
  · rcases eq_of_serve_error h with ⟨-, rfl⟩ | ⟨-, rfl⟩
    · rfl
    · exact codes_dropBlock a
  · constructor
    · intro hsame hx
      rcases eq_of_serve_error h with ⟨hnx, -⟩ | ⟨-, rfl⟩
      · exact hnx hx
      · exact answers_finish_dropBlock_ne hx.blocks_ne_nil (hsame [.finish])
    · intro hx later
      rcases eq_of_serve_error h with ⟨-, rfl⟩ | ⟨hx', -⟩
      · rfl
      · exact absurd hx' hx
  · intro hx
    rcases eq_of_serve_error h with ⟨hnx, -⟩ | ⟨-, rfl⟩
    · exact absurd hx hnx
    · exact ⟨blocks_dropBlock a, fun later hl w hw => ha.unpatched_dropBlock hl hw,
        exists_finish _⟩
  · rcases ha.waiting_or_closed hx hl hw with hw | hc
    · left
      rw [serve_finish, if_neg fun hb => ?_]
      rw [waiting_eq_nil hb] at hw
      cases hw
    · exact .inr hc.patched

/-- A conditional's closer takes a loop off, and the break in it keeps its jump. -/
theorem failed_unnoticed_iff_loop :
    let a := serveAll [.openLoop, .leave] {}
    serve .closeConditional a = (.error (.unmatched .endIf), a.dropBlock) ∧
      (¬ ∀ later, answers later a.dropBlock = answers later a) ∧
      ∀ later, Withheld later a.dropBlock →
        Unpatched (serveAll later a.dropBlock).codes 1 := by
  intro a
  have h : serve .closeConditional a = (.error (.unmatched .endIf), a.dropBlock) := rfl
  have hx : a.Crosses .closeConditional := ⟨.conditional, rfl, .loop, nofun, rfl⟩
  obtain ⟨-, hsame, hcrossed, -⟩ := failed_unnoticed_iff rfl h
  obtain ⟨-, hunpatched, -⟩ := hcrossed hx
  exact ⟨h, fun hs => hsame.mp hs hx, fun later hl => hunpatched later hl (1, .loop) (by decide)⟩

/-- The loop is not closed, and the codes are handed out behind the closer that failed. -/
theorem answers_closeConditional_finish :
    answers [.openLoop, .closeConditional, .finish] {} =
        [.ok none, .error (.unmatched .endIf),
          .ok (some #[{ instruction := { operator := .whileNotZero }, jump := 0 }])] ∧
      answers [.openLoop, .finish] {} = [.ok none, .error (.unclosed 1)] :=
  ⟨rfl, rfl⟩

end Assembler

end NumNum
