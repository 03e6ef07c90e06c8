import Mathlib.Data.List.Forall2
import NumNum.Proofs.Lua.Layout
import NumNum.Proofs.Lua.Translation

/-!
# Reading written programs

The text that the generator writes determines the program, up to the widths of its constants
(`Generator.translate_determines`). An instruction is read off its first line, or off its second
one if it stores a variable, and which blocks are open tells one end from the other.
-/

namespace NumNum

namespace Operator

/-- The operator that stands for those that do the same. -/
def family : Operator → Operator
  | constant8Bit | constant16Bit => constant32Bit
  | op => op

/-- The operator that stands for those that are written with the same lines. -/
def written : Operator → Operator
  | endWhile => endIf
  | op => op.family

theorem role_family (op : Operator) : op.family.role = op.role := by
  cases op <;> rfl

theorem written_family (op : Operator) : op.family.written = op.written := by
  cases op <;> rfl

theorem operandWidth_family (op : Operator) :
    op.family.operandWidth = 0 ↔ op.operandWidth = 0 := by
  cases op <;> decide

theorem eq_endWhile_or_written (op : Operator) : op = endWhile ∨ op.written = op.family := by
  cases op <;> first | exact .inl rfl | exact .inr rfl

theorem eq_endIf_of_family {op : Operator} (h : op.family = endIf) : op = endIf := by
  cases op <;> first | rfl | cases h

/-- Nothing but the two ends is written alike and does not do the same. -/
theorem family_or_closers {op op' : Operator} (h : op.written = op'.written) :
    op.family = op'.family ∨ ∃ kind kind', op.role = .closer kind ∧ op'.role = .closer kind' := by
  rcases op.eq_endWhile_or_written with rfl | ho
  · rcases op'.eq_endWhile_or_written with rfl | ho'
    · exact .inl rfl
    · rw [eq_endIf_of_family (ho'.symm.trans h.symm)]
      exact .inr ⟨.loop, .conditional, rfl, rfl⟩
  · rcases op'.eq_endWhile_or_written with rfl | ho'
    · rw [eq_endIf_of_family (ho.symm.trans h)]
      exact .inr ⟨.conditional, .loop, rfl, rfl⟩
    · exact .inl (by rw [← ho, ← ho', h])

end Operator

namespace Instruction

variable {i j : Instruction}

/-- The same operator, where the constants count as one, and the same operand, if it has one. -/
def Agrees (i j : Instruction) : Prop :=
  i.operator.family = j.operator.family ∧ (i.operator.operandWidth ≠ 0 → i.value = j.value)

/-- Written with the same lines. -/
def WrittenAlike (i j : Instruction) : Prop :=
  i.operator.written = j.operator.written ∧ i.operand = j.operand

theorem agrees_iff :
    i.Agrees j ↔ i.operator.family = j.operator.family ∧ i.operand = j.operand := by
  refine and_congr_right fun h => ?_
  have hw := i.operator.operandWidth_family.symm.trans (h ▸ j.operator.operandWidth_family)
  unfold operand
  by_cases hi : i.operator.operandWidth = 0
  · rw [if_pos hi, if_pos (hw.mp hi)]
    exact iff_of_true (fun hne => absurd hi hne) rfl
  · rw [if_neg hi, if_neg (mt hw.mpr hi)]
    exact ⟨fun h => h hi, fun h _ => h⟩

theorem Agrees.writtenAlike (h : i.Agrees j) : i.WrittenAlike j := by
  obtain ⟨hf, ho⟩ := agrees_iff.mp h
  refine ⟨?_, ho⟩
  rw [← i.operator.written_family, hf, j.operator.written_family]

theorem Agrees.role_eq (h : i.Agrees j) : i.operator.role = j.operator.role := by
  rw [← i.operator.role_family, h.1, j.operator.role_family]

theorem lines_eq (i : Instruction) :
    i.lines = (⟨i.operator.written, i.operand⟩ : Instruction).lines := by
  obtain ⟨op, value⟩ := i
  cases op <;> rfl

theorem WrittenAlike.lines_eq (h : i.WrittenAlike j) : i.lines = j.lines := by
  rw [i.lines_eq, h.1, h.2, ← j.lines_eq]

end Instruction

/-! ## Reading lines -/

namespace Lua

/-- The operator whose name stands between quotes. -/
def named (line : List Char) : Option Operator :=
  let name := ((line.dropWhile (· ≠ '"')).drop 1).takeWhile (· ≠ '"')
  Operator.all.find? (·.mnemonic.toList = name)

/-- The first number in a line. -/
def number (line : List Char) : Nat :=
  Numeral.value ((line.dropWhile (!·.isDigit)).takeWhile Char.isDigit)

/-- The operator that pushes what is written so. -/
def pushing : List Char → Operator
  | '#' :: _ => .count
  | 'l' :: _ => .loadVariable
  | 'r' :: 'e' :: 'a' :: 'd' :: '_' :: 'c' :: _ => .inputCharacter
  | 'r' :: _ => .inputInteger
  | _ => .constant32Bit

/-- The operator whose lines begin with this one. -/
def readFirst : List Char → Option Operator
  | 'b' :: _ => some .leaveLoop
  | 'e' :: _ => some .endIf
  | 't' :: rest => some (pushing (rest.drop 19))
  | line => named line

/-- The operand of an instruction with this operator, from its lines. -/
def readOperand (op : Operator) (first : List Char) (rest : List (List Char)) : Nat :=
  match op with
  | .constant32Bit | .loadVariable => number first
  | .storeVariable | .copyVariable => number (rest.headD [])
  | _ => 0

/-- The operator and the operand of the instruction that some lines begin with. -/
def readInstruction : List (List Char) → Option (Operator × Nat)
  | [] => none
  | first :: rest => (readFirst first).map fun op => (op, readOperand op first rest)

theorem find?_mnemonic (op : Operator) :
    Operator.all.find? (·.mnemonic.toList = op.mnemonic.toList) = some op := by
  cases op <;> rfl

theorem named_quoted {front : List Char} (hf : '"' ∉ front) (op : Operator) (behind : List Char) :
    named (front ++ '"' :: (op.mnemonic.toList ++ '"' :: behind)) = some op := by
  have hfront : ∀ c ∈ front, decide (c ≠ '"') = true :=
    fun c hc => decide_eq_true fun he => hf (he ▸ hc)
  have hname : ∀ c ∈ op.mnemonic.toList, decide (c ≠ '"') = true := fun c hc =>
    decide_eq_true fun he => op.notMem_mnemonic (c := '"') (by decide) (by decide) (he ▸ hc)
  unfold named
  rw [List.dropWhile_append_of_pos hfront, List.dropWhile_cons_of_neg (by decide), List.drop_one,
    List.tail_cons, List.takeWhile_append_of_pos hname, List.takeWhile_cons_of_neg (by decide),
    List.append_nil]
  exact find?_mnemonic op

theorem exists_digit_cons (n : Nat) :
    ∃ d ds, (Numeral.text n).toList = d :: ds ∧ d.isDigit = true := by
  obtain ⟨d, ds, hds⟩ := List.exists_cons_of_ne_nil (Numeral.text_ne_nil n)
  exact ⟨d, ds, hds, Numeral.isDigit_of_mem_text (by rw [hds]; exact List.mem_cons_self)⟩

theorem number_between {front : List Char} (hf : front.all (!·.isDigit) = true) (n : Nat)
    {c : Char} (hc : c.isDigit = false) (behind : List Char) :
    number (front ++ ((Numeral.text n).toList ++ c :: behind)) = n := by
  have hdrop : ((Numeral.text n).toList ++ c :: behind).dropWhile (!·.isDigit) =
      (Numeral.text n).toList ++ c :: behind := by
    obtain ⟨d, ds, hds, hd⟩ := exists_digit_cons n
    rw [hds, List.cons_append, List.dropWhile_cons_of_neg (by simp [hd])]
  rw [number, List.dropWhile_append_of_pos (List.all_eq_true.mp hf), hdrop,
    List.takeWhile_append_of_pos fun _ => Numeral.isDigit_of_mem_text,
    List.takeWhile_cons_of_neg (by simp [hc]), List.append_nil, Numeral.value_text]

theorem pushing_of_isDigit {d : Char} (h : d.isDigit = true) (ds : List Char) :
    pushing (d :: ds) = .constant32Bit := by
  unfold pushing
  split <;> first | rfl | (rename_i hd; cases hd; cases h)

theorem readFirst_need (d : Nat) (op : Operator) :
    readFirst (Statement.need d op).text.toList = some op := by
  have htext : (Statement.need d op).text.toList =
      ("need(".toList ++ (Numeral.text d).toList ++ ", ".toList) ++
        '"' :: (op.mnemonic.toList ++ '"' :: ")".toList) := by
    rw [Statement.text.eq_def]
    simp
  have hq : '"' ∉ "need(".toList ++ (Numeral.text d).toList ++ ", ".toList := by
    simp [Numeral.notMem_text d]
  rw [htext]
  exact named_quoted hq op _

theorem readFirst_opener (kind : BlockKind) (op : Operator) :
    readFirst (opener kind op).text.toList = some op := by
  cases kind with
  | conditional =>
    let c : Comparison := if op = .ifZero then .equal else .unequal
    have htext : (opener .conditional op).text.toList =
        "if top(".toList ++ '"' :: (op.mnemonic.toList ++
          '"' :: (") ".toList ++ (c.text.toList ++ " 0 then".toList))) := by
      show ("if " ++ ("top(\"" ++ op.mnemonic ++ "\")" ++ " " ++ c.text ++ " " ++ "0") ++
        " then").toList = _
      simp
    rw [htext]
    exact named_quoted (by decide) op _
  | loop =>
    have htext : (opener .loop op).text.toList =
        "while top(".toList ++ '"' :: (op.mnemonic.toList ++ '"' :: ") ~= 0 do".toList) := by
      show ("while " ++ ("top(\"" ++ op.mnemonic ++ "\")" ++ " " ++ "~=" ++ " " ++ "0") ++
        " do").toList = _
      simp
    rw [htext]
    exact named_quoted (by decide) op _

/-! ## Reading instructions -/

section
variable (rest : List (List Char))

theorem read_first {first : List Char} {op : Operator} (h : readFirst first = some op) :
    readInstruction (first :: rest) = some (op, readOperand op first rest) := by
  rw [readInstruction, h, Option.map_some]

theorem read_number (n : Nat) :
    readInstruction ((Statement.insert (.number n)).text.toList :: rest) =
      some (.constant32Bit, n) := by
  have htext : (Statement.insert (.number n)).text.toList =
      "table.insert(stack, ".toList ++ ((Numeral.text n).toList ++ [')']) := by
    show ("table.insert(stack, " ++ Numeral.text n ++ ")").toList = _
    simp
  have hfirst : readFirst (Statement.insert (.number n)).text.toList = some .constant32Bit := by
    obtain ⟨d, ds, hds, hd⟩ := exists_digit_cons n
    rw [htext, hds]
    exact congrArg some (pushing_of_isDigit hd _)
  rw [read_first rest hfirst, readOperand, htext, number_between (by decide) n (by decide)]

theorem read_load (a : UInt32) :
    readInstruction ((Statement.insert (.loadVariable a)).text.toList :: rest) =
      some (.loadVariable, a.toNat) := by
  have htext : (Statement.insert (.loadVariable a)).text.toList =
      "table.insert(stack, load_variable(".toList ++
        ((Numeral.text a.toNat).toList ++ ')' :: [')']) := by
    show ("table.insert(stack, " ++ ("load_variable(" ++ Numeral.text a.toNat ++ ")") ++
      ")").toList = _
    simp
  have hfirst : readFirst (Statement.insert (.loadVariable a)).text.toList =
      some .loadVariable := by
    rw [htext]
    rfl
  rw [read_first rest hfirst, readOperand, htext, number_between (by decide) a.toNat (by decide)]

theorem number_assign (a : UInt32) (values : List Expr) :
    number (Statement.assign [.variable a] values).text.toList = a.toNat := by
  have htext : (Statement.assign [.variable a] values).text.toList =
      "variables[".toList ++ ((Numeral.text a.toNat).toList ++
        ']' :: (" = ".toList ++ (String.intercalate ", " (values.map Expr.text)).toList)) := by
    show ("variables[" ++ Numeral.text a.toNat ++ "]" ++ " = " ++ _).toList = _
    simp
  rw [htext, number_between (by decide) a.toNat (by decide)]

theorem readInstruction_lines (i : Instruction) :
    readInstruction (i.lines.map (·.text.toList) ++ rest) =
      some (i.operator.written, i.operand.toNat) := by
  obtain ⟨op, value⟩ := i
  cases op with
  | constant8Bit => exact read_number rest _
  | constant16Bit => exact read_number rest _
  | constant32Bit => exact read_number rest _
  | loadVariable => exact read_load rest _
  | storeVariable =>
    refine (read_first _ (readFirst_need 1 .storeVariable)).trans ?_
    exact congrArg (fun n => some (Operator.storeVariable, n)) (number_assign value _)
  | copyVariable =>
    refine (read_first _ (readFirst_need 1 .copyVariable)).trans ?_
    exact congrArg (fun n => some (Operator.copyVariable, n)) (number_assign value _)
  | count => rfl
  | inputCharacter => rfl
  | inputInteger => rfl
  | ifNotZero => exact read_first rest (readFirst_opener .conditional _)
  | ifZero => exact read_first rest (readFirst_opener .conditional _)
  | whileNotZero => exact read_first rest (readFirst_opener .loop _)
  | endIf => rfl
  | endWhile => rfl
  | leaveLoop => rfl
  | _ => exact read_first _ (readFirst_need _ _)

end

theorem head?_of_mem_lines {i : Instruction} {l : Line} (h : l ∈ i.lines) :
    ∃ c, l.text.toList.head? = some c ∧ c ≠ ' ' := by
  unfold Instruction.lines at h
  split at h
  case h_1 kind _ =>
    rw [List.mem_singleton.mp h]
    cases kind with
    | conditional => exact ⟨'i', by simp [opener, Line.text], by decide⟩
    | loop => exact ⟨'w', by simp [opener, Line.text], by decide⟩
  case h_2 =>
    rw [List.mem_singleton.mp h]
    exact ⟨'e', rfl, by decide⟩
  case h_3 =>
    rw [List.mem_singleton.mp h]
    exact ⟨'b', rfl, by decide⟩
  case h_4 =>
    obtain ⟨s, hs, rfl⟩ := List.mem_map.mp h
    obtain ⟨c, hc, hne, -⟩ := Statement.head?_text (whole_of_mem_statements hs)
    exact ⟨c, hc, hne⟩

end Lua

namespace Program

variable {p q : Program}

/-- The lines of a program, without any indentation. -/
def codeLines (p : Program) : List (List Char) :=
  p.flatMap fun i => i.lines.map (·.text.toList)

/-- The indentation tells nothing of the instructions. -/
theorem map_dropWhile_placedLines (depth : Nat) (p : Program) :
    (p.placedLines depth).map (·.toList.dropWhile (· = ' ')) = p.codeLines := by
  induction p generalizing depth with
  | nil => rfl
  | cons i p ih =>
    rw [placedLines, List.map_append, ih, List.map_map]
    refine congrArg (· ++ _) (List.map_congr_left fun l hl => ?_)
    obtain ⟨c, hc, hne⟩ := Lua.head?_of_mem_lines hl
    exact Lua.Line.dropWhile_placed hc hne _

theorem writtenAlike_of_codeLines (h : p.codeLines = q.codeLines) :
    List.Forall₂ Instruction.WrittenAlike p q := by
  have hread (i : Instruction) (p : Program) := Lua.readInstruction_lines (p.codeLines) i
  induction p generalizing q with
  | nil =>
    cases q with
    | nil => exact .nil
    | cons j q =>
      have hj := hread j q
      rw [show _ ++ codeLines q = codeLines [] from h.symm] at hj
      cases hj
  | cons i p ih =>
    cases q with
    | nil =>
      have hi := hread i p
      rw [show _ ++ codeLines p = codeLines [] from h] at hi
      cases hi
    | cons j q =>
      have hi := hread i p
      rw [show _ ++ codeLines p = _ ++ codeLines q from h, hread j q] at hi
      obtain ⟨ho, hv⟩ := Prod.mk.inj (Option.some.inj hi)
      have hij : i.WrittenAlike j := ⟨ho.symm, (UInt32.toNat_inj.mp hv).symm⟩
      refine .cons hij (ih ?_)
      unfold codeLines at h
      rw [List.flatMap_cons, List.flatMap_cons, hij.lines_eq] at h
      exact List.append_cancel_left h

theorem agrees_of_take {i j : Instruction} {blocks open₁ open₂ : List BlockKind}
    (h : i.WrittenAlike j) (hi : Nesting.take i blocks = (none, open₁))
    (hj : Nesting.take j blocks = (none, open₂)) : i.Agrees j ∧ open₁ = open₂ := by
  rcases Operator.family_or_closers h.1 with hf | ⟨kind, kind', hk, hk'⟩
  · have hij : i.Agrees j := Instruction.agrees_iff.mpr ⟨hf, h.2⟩
    refine ⟨hij, ?_⟩
    rw [Nesting.take, hij.role_eq, ← Nesting.take, hj] at hi
    exact (Prod.mk.inj hi).2.symm
  · -- the innermost open block is of the kind of both ends
    rw [Nesting.take, hk] at hi
    rw [Nesting.take, hk'] at hj
    obtain ⟨hi, rfl⟩ := Prod.mk.inj hi
    obtain ⟨hj, rfl⟩ := Prod.mk.inj hj
    have hhead : blocks.head? = some kind := by simpa using hi
    have hhead' : blocks.head? = some kind' := by simpa using hj
    rw [hhead] at hhead'
    cases hhead'
    refine ⟨Instruction.agrees_iff.mpr ⟨?_, h.2⟩, rfl⟩
    rw [Operator.eq_closer_of_role hk, Operator.eq_closer_of_role hk']

/-- In accepted programs, the open blocks tell one end from the other. -/
theorem agrees_of_writtenAlike {blocks : List BlockKind}
    (h : List.Forall₂ Instruction.WrittenAlike p q) (hp : Nesting.check p blocks = none)
    (hq : Nesting.check q blocks = none) : List.Forall₂ Instruction.Agrees p q := by
  induction h generalizing blocks with
  | nil => exact .nil
  | @cons i j p q hij _ ih =>
    rw [Nesting.check] at hp hq
    rcases hi : Nesting.take i blocks with ⟨_ | e, open₁⟩
    · rcases hj : Nesting.take j blocks with ⟨_ | e, open₂⟩
      · rw [hi] at hp
        rw [hj] at hq
        obtain ⟨hagree, rfl⟩ := agrees_of_take hij hi hj
        exact .cons hagree (ih hp hq)
      · rw [hj] at hq
        cases hq
    · rw [hi] at hp
      cases hp

theorem placedLines_congr (h : List.Forall₂ Instruction.Agrees p q) (depth : Nat) :
    p.placedLines depth = q.placedLines depth := by
  induction h generalizing depth with
  | nil => rfl
  | cons hij _ ih =>
    rw [placedLines, placedLines, hij.writtenAlike.lines_eq, hij.role_eq, ih]

/-- Of accepted programs, none but those that agree are written with the same lines. -/
theorem placedLines_eq_iff (hp : Nesting.check p [] = none) (hq : Nesting.check q [] = none) :
    p.placedLines 0 = q.placedLines 0 ↔ List.Forall₂ Instruction.Agrees p q := by
  refine ⟨fun h => ?_, fun h => placedLines_congr h 0⟩
  refine agrees_of_writtenAlike (writtenAlike_of_codeLines ?_) hp hq
  rw [← map_dropWhile_placedLines 0 p, ← map_dropWhile_placedLines 0 q, h]

end Program

namespace Lua

/-- The text is one of lines that are indented by the blocks that these lines themselves open and
end, and it leaves none open. -/
def Balanced (text : String) : Prop :=
  ∃ lines, text = unlines lines ∧ (∀ line ∈ lines, '\n' ∉ line.toList) ∧
    lines.foldlM depthBehind 0 = some 0

theorem balanced_placedLines {p : Program} (hp : Nesting.check p [] = none) :
    Balanced (unlines (p.placedLines 0)) :=
  ⟨_, rfl, p.newline_notMem_placedLines 0, Program.foldlM_placedLines hp⟩

theorem encodeText_prelude_inj {text text' : String} :
    Utf8.encodeText (prelude ++ text) = Utf8.encodeText (prelude ++ text') ↔ text = text' := by
  constructor
  · intro h
    have ht := congrArg String.toList (Utf8.encodeText_injective h)
    rw [String.toList_append, String.toList_append] at ht
    exact String.toList_inj.mp (List.append_cancel_left ht)
  · intro h
    rw [h]

/-- Two accepted programs are written as the same text exactly if they agree instruction by
instruction. Behind the prelude, every line of such a text is indented by two spaces for each block
around it, and each block that is opened is ended. -/
theorem Generator.translate_determines {s s' : Sink} {p q : Program} (hs : s.limit = none)
    (hs' : s'.limit = none) (hp : (backend.translate p { output := s }).outcome = .done)
    (hq : (backend.translate q { output := s' }).outcome = .done) :
    ∃ text text',
      (backend.translate p { output := s }).state.output.written =
        s.written ++ Utf8.encodeText (prelude ++ text) ∧
      (backend.translate q { output := s' }).state.output.written =
        s'.written ++ Utf8.encodeText (prelude ++ text') ∧
      (Utf8.encodeText (prelude ++ text) = Utf8.encodeText (prelude ++ text') ↔
        List.Forall₂ Instruction.Agrees p q) ∧
      Balanced text ∧ Balanced text' := by
  have hr := reliable_of_done (g := { output := s }) hs hp
  have hr' := reliable_of_done (g := { output := s' }) hs' hq
  have hcp := check_eq_none_of_done hr rfl hp
  have hcq := check_eq_none_of_done hr' rfl hq
  refine ⟨unlines (p.placedLines 0), unlines (q.placedLines 0), ?_, ?_, ?_,
    balanced_placedLines hcp, balanced_placedLines hcq⟩
  · rw [translate_eq_wrote hr rfl hcp, wrote]
  · rw [translate_eq_wrote hr' rfl hcq, wrote]
  · rw [encodeText_prelude_inj, ← Program.placedLines_eq_iff hcp hcq]
    exact ⟨join_lines_injective (p.newline_notMem_placedLines 0) (q.newline_notMem_placedLines 0),
      congrArg unlines⟩

/-- The width of a constant is not written, and its value is. -/
theorem Generator.translate_determines_constant :
    let p (op : Operator) (n : UInt32) : Program :=
      [⟨op, n⟩, ⟨.whileNotZero, n⟩, ⟨.leaveLoop, 0⟩, ⟨.endWhile, 0⟩]
    (backend.translate (p .constant8Bit 5) { output := {} }).outcome = .done ∧
      (backend.translate (p .constant32Bit 5) { output := {} }).outcome = .done ∧
      (backend.translate (p .constant8Bit 6) { output := {} }).outcome = .done ∧
      (backend.translate (p .constant8Bit 5) { output := {} }).state.output.written =
        (backend.translate (p .constant32Bit 5) { output := {} }).state.output.written ∧
      (backend.translate (p .constant8Bit 5) { output := {} }).state.output.written ≠
        (backend.translate (p .constant8Bit 6) { output := {} }).state.output.written := by
  intro p
  have hdone (op : Operator) (n : UInt32) (h : op.role = .plain) :
      (backend.translate (p op n) { output := {} }).outcome = .done := by
    let b : Block false := .plain ⟨⟨op, n⟩, h⟩ (.loop ⟨⟨.whileNotZero, n⟩, rfl⟩
      (.leave ⟨⟨.leaveLoop, 0⟩, rfl⟩ .done) ⟨⟨.endWhile, 0⟩, rfl⟩ .done)
    exact (translate_eq_done_iff ⟨rfl, rfl⟩ rfl).mpr ⟨b, rfl⟩
  have h₅ := hdone .constant8Bit 5 rfl
  have h₅' := hdone .constant32Bit 5 rfl
  have h₆ := hdone .constant8Bit 6 rfl
  refine ⟨h₅, h₅', h₆, ?_, ?_⟩
  · have hagree : List.Forall₂ Instruction.Agrees (p .constant8Bit 5) (p .constant32Bit 5) :=
      .cons ⟨rfl, fun _ => rfl⟩ (.cons ⟨rfl, fun _ => rfl⟩ (.cons ⟨rfl, fun _ => rfl⟩
        (.cons ⟨rfl, fun _ => rfl⟩ .nil)))
    obtain ⟨text, text', ht, ht', hiff, -⟩ := translate_determines rfl rfl h₅ h₅'
    rw [ht, ht', hiff.mpr hagree]
  · obtain ⟨text, text', ht, ht', hiff, -⟩ := translate_determines rfl rfl h₅ h₆
    intro heq
    rw [ht, ht'] at heq
    have hbytes := congrArg Array.toList heq
    rw [Array.toList_appendList, Array.toList_appendList] at hbytes
    cases hiff.mp (List.append_cancel_left hbytes) with
    | cons hfirst _ => exact absurd (hfirst.2 (by decide)) (by decide)

end Lua

end NumNum
