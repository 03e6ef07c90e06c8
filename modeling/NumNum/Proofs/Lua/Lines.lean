import NumNum.Lua.Template
import NumNum.Lua.Text
import NumNum.Proofs.Text.Lines

/-!
# The lines of written programs

No line of a written program has a line break in it, so the lines can be split again
(`join_lines_injective`), and each line says by its first and its last characters what it does to
the depth of the lines behind it (`Line.depthBehind_placed`).
-/

namespace NumNum

theorem Operator.mnemonic_chars (op : Operator) :
    op.mnemonic.toList.all (fun c => c.isAlphanum || c = '_') = true := by
  cases op <;> decide

theorem Operator.notMem_mnemonic (op : Operator) {c : Char} (h : c.isAlphanum = false)
    (h' : c ≠ '_') : c ∉ op.mnemonic.toList := by
  intro hc
  have hall := List.all_eq_true.mp op.mnemonic_chars c hc
  simp [h, h'] at hall

theorem Numeral.notMem_text (n : Nat) {c : Char} (h : c.isDigit = false) : c ∉ (text n).toList := by
  intro hc
  rw [isDigit_of_mem_text hc] at h
  cases h

namespace Lua

/-! ## Texts on one line -/

section
variable {ss : List String}

@[simp] theorem newline_notMem_numeral (n : Nat) : '\n' ∉ (Numeral.text n).toList :=
  Numeral.notMem_text n (by decide)

@[simp] theorem newline_notMem_mnemonic (op : Operator) : '\n' ∉ op.mnemonic.toList :=
  op.notMem_mnemonic (by decide) (by decide)

theorem newline_notMem_intercalate (h : ∀ s ∈ ss, '\n' ∉ s.toList) :
    '\n' ∉ (String.intercalate ", " ss).toList := by
  induction ss with
  | nil => simp
  | cons s ss ih =>
    obtain ⟨hs, hss⟩ := List.forall_mem_cons.mp h
    cases ss with
    | nil => rwa [String.intercalate_singleton]
    | cons t ss =>
      have ht := ih hss
      rw [String.intercalate_cons_cons, String.toList_append, String.toList_append]
      simp [hs, ht, -String.toList_intercalate]

end

@[simp] theorem Place.newline_notMem (p : Place) : '\n' ∉ p.text.toList := by
  unfold text
  split <;> simp

@[simp] theorem Arithmetic.newline_notMem (o : Arithmetic) : '\n' ∉ o.text.toList := by
  cases o <;> decide

@[simp] theorem Comparison.newline_notMem (c : Comparison) : '\n' ∉ c.text.toList := by
  cases c <;> decide

@[simp] theorem Expr.newline_notMem (e : Expr) : '\n' ∉ e.text.toList := by
  induction e with
  | arithmetic o a b iha ihb => rw [text.eq_def]; simp [iha, ihb]
  | complement a ih => rw [text.eq_def]; simp [ih]
  | parentheses a ih => rw [text.eq_def]; simp [ih]
  | _ => rw [text.eq_def]; simp

@[simp] theorem Condition.newline_notMem (c : Condition) : '\n' ∉ c.text.toList := by
  simp [text]

@[simp] theorem Statement.newline_notMem (s : Statement) : '\n' ∉ s.text.toList := by
  induction s with
  | assign targets values =>
    have ht : '\n' ∉ (String.intercalate ", " (targets.map Place.text)).toList :=
      newline_notMem_intercalate (by simp)
    have hv : '\n' ∉ (String.intercalate ", " (values.map Expr.text)).toList :=
      newline_notMem_intercalate (by simp)
    rw [text.eq_def]
    simp [ht, hv, -String.toList_intercalate]
  | when c s ih => rw [text.eq_def]; simp [ih]
  | choose c s t ihs iht => rw [text.eq_def]; simp [ihs, iht]
  | _ => rw [text.eq_def]; simp

theorem Line.newline_notMem (l : Line) : '\n' ∉ l.text.toList := by
  unfold text
  split <;> simp

/-! ## First and last characters -/

/-- A statement that is a line of its own, and not only part of one. -/
def Statement.whole : Statement → Bool
  | .assign targets _ => !targets.isEmpty
  | .zeroDivision => false
  | _ => true

theorem whole_of_mem_statements {i : Instruction} {s : Statement} (h : s ∈ statements i) :
    s.whole = true := by
  have hall : (statements i).all Statement.whole = true := by
    obtain ⟨op, value⟩ := i
    cases op <;> rfl
  exact List.all_eq_true.mp hall s h

theorem head?_intercalate {s : String} {c : Char} (h : s.toList.head? = some c)
    (ss : List String) : (String.intercalate ", " (s :: ss)).toList.head? = some c := by
  cases ss with
  | nil => rwa [String.intercalate_singleton]
  | cons t ss =>
    rw [String.intercalate_cons_cons, String.toList_append, String.toList_append,
      List.head?_append, List.head?_append, h]
    rfl

/-- The first character of a line tells its statements from its ends. -/
theorem Statement.head?_text {s : Statement} (h : s.whole = true) :
    ∃ c, s.text.toList.head? = some c ∧ c ≠ ' ' ∧ c ≠ 'e' := by
  cases s with
  | assign targets values =>
    cases targets with
    | nil => cases h
    | cons p targets =>
      have hp : ∃ c, p.text.toList.head? = some c ∧ c ≠ ' ' ∧ c ≠ 'e' := by
        unfold Place.text
        split <;> simp
      obtain ⟨c, hc, hne⟩ := hp
      refine ⟨c, ?_, hne⟩
      rw [text.eq_def, String.toList_append, String.toList_append, List.head?_append,
        List.head?_append, List.map_cons, head?_intercalate hc]
      rfl
  | zeroDivision => cases h
  | _ => rw [text.eq_def]; simp

/-- The text ends with a character that no word ends with behind which a block begins. -/
def EndsCode (cs : List Char) : Prop :=
  ∃ c, cs.getLast? = some c ∧ c ≠ 'n' ∧ c ≠ 'o'

theorem endsCode_append {cs ds : List Char} (h : EndsCode ds) : EndsCode (cs ++ ds) := by
  obtain ⟨c, hc, hne⟩ := h
  exact ⟨c, by rw [List.getLast?_append, hc]; rfl, hne⟩

theorem endsCode_numeral (n : Nat) : EndsCode (Numeral.text n).toList := by
  have hd := Numeral.isDigit_of_mem_text (List.getLast_mem (Numeral.text_ne_nil n))
  refine ⟨_, List.getLast?_eq_some_getLast (Numeral.text_ne_nil n), ?_, ?_⟩
  · intro h
    rw [h] at hd
    cases hd
  · intro h
    rw [h] at hd
    cases hd

theorem endsCode_intercalate {ss : List String} (hne : ss ≠ [])
    (h : ∀ s ∈ ss, EndsCode s.toList) : EndsCode (String.intercalate ", " ss).toList := by
  induction ss with
  | nil => exact absurd rfl hne
  | cons s ss ih =>
    obtain ⟨hs, hss⟩ := List.forall_mem_cons.mp h
    cases ss with
    | nil => rwa [String.intercalate_singleton]
    | cons t ss =>
      rw [String.intercalate_cons_cons, String.toList_append]
      exact endsCode_append (ih (List.cons_ne_nil t ss) hss)

theorem Place.endsCode (p : Place) : EndsCode p.text.toList := by
  unfold text EndsCode
  split <;> simp [List.getLast?_cons, List.getLast?_append]

theorem Expr.endsCode (e : Expr) : EndsCode e.text.toList := by
  induction e with
  | number n => exact endsCode_numeral n
  | place p => exact p.endsCode
  | arithmetic o a b _ ih =>
    rw [text.eq_def, String.toList_append]
    exact endsCode_append ih
  | complement a ih =>
    rw [text.eq_def, String.toList_append]
    exact endsCode_append ih
  | _ =>
    rw [text.eq_def]
    simp [EndsCode, List.getLast?_cons, List.getLast?_append]

theorem Statement.endsCode (s : Statement) : EndsCode s.text.toList := by
  cases s with
  | assign targets values =>
    rw [text.eq_def, String.toList_append]
    cases values with
    | nil => simp [EndsCode]
    | cons e values =>
      refine endsCode_append (endsCode_intercalate (List.cons_ne_nil _ _) fun s hs => ?_)
      obtain ⟨e, -, rfl⟩ := List.mem_map.mp hs
      exact e.endsCode
  | _ =>
    rw [text.eq_def]
    simp [EndsCode, List.getLast?_cons, List.getLast?_append]

/-! ## Depths -/

/-- Whether a line begins a block that a line of its own ends. -/
def Heads (code : List Char) : Prop :=
  " then".toList <:+ code ∨ " do".toList <:+ code

instance (code : List Char) : Decidable (Heads code) :=
  inferInstanceAs (Decidable (_ ∨ _))

/-- How many blocks are open behind a line with this many open ahead of it. The line is indented
by two spaces for each block around it, and the end of a block stands outside of it. -/
def depthBehind (depth : Nat) (line : String) : Option Nat :=
  let spaces := (line.toList.takeWhile (· = ' ')).length
  let code := line.toList.dropWhile (· = ' ')
  if code = "end".toList then
    if depth ≠ 0 ∧ spaces = 2 * (depth - 1) then some (depth - 1) else none
  else if spaces = 2 * depth then some (if Heads code then depth + 1 else depth)
  else none

theorem not_heads_of_endsCode {code : List Char} (h : EndsCode code) : ¬ Heads code := by
  obtain ⟨c, hc, hn, ho⟩ := h
  rintro (⟨front, rfl⟩ | ⟨front, rfl⟩)
  · rw [List.getLast?_append] at hc
    exact hn (Option.some.inj hc).symm
  · rw [List.getLast?_append] at hc
    exact ho (Option.some.inj hc).symm

/-- The line as it is written, without the newline. -/
def Line.placed (depth : Nat) (l : Line) : String :=
  String.join (List.replicate depth "  ") ++ l.text

theorem toList_indentation (depth : Nat) :
    (String.join (List.replicate depth "  ")).toList = List.replicate (2 * depth) ' ' := by
  induction depth with
  | zero => rfl
  | succ depth ih =>
    rw [List.replicate_succ, String.join_cons, String.toList_append, ih]
    rfl

theorem Line.newline_notMem_placed (depth : Nat) (l : Line) : '\n' ∉ (l.placed depth).toList := by
  rw [placed, String.toList_append, toList_indentation, List.mem_append, not_or]
  refine ⟨fun h => ?_, l.newline_notMem⟩
  exact absurd (List.eq_of_mem_replicate h) (by decide)

section
variable {l : Line} {c : Char} (hl : l.text.toList.head? = some c) (hc : c ≠ ' ')
include hl hc

theorem Line.dropWhile_placed (depth : Nat) :
    (l.placed depth).toList.dropWhile (· = ' ') = l.text.toList := by
  obtain ⟨cs, hcs⟩ := List.head?_eq_some_iff.mp hl
  have hsp : ∀ a ∈ List.replicate (2 * depth) ' ', decide (a = ' ') = true :=
    fun a ha => decide_eq_true (List.eq_of_mem_replicate ha)
  rw [placed, String.toList_append, toList_indentation, hcs, List.dropWhile_append_of_pos hsp,
    List.dropWhile_cons_of_neg (by simpa using hc)]

theorem Line.takeWhile_placed (depth : Nat) :
    ((l.placed depth).toList.takeWhile (· = ' ')).length = 2 * depth := by
  obtain ⟨cs, hcs⟩ := List.head?_eq_some_iff.mp hl
  have hsp : ∀ a ∈ List.replicate (2 * depth) ' ', decide (a = ' ') = true :=
    fun a ha => decide_eq_true (List.eq_of_mem_replicate ha)
  rw [placed, String.toList_append, toList_indentation, hcs, List.takeWhile_append_of_pos hsp,
    List.takeWhile_cons_of_neg (by simpa using hc), List.append_nil, List.length_replicate]

theorem Line.depthBehind_placed (he : c ≠ 'e') (depth : Nat) :
    depthBehind depth (l.placed depth) =
      some (if Heads l.text.toList then depth + 1 else depth) := by
  have hend : l.text.toList ≠ "end".toList := by
    intro h
    rw [h] at hl
    exact he (Option.some.inj hl).symm
  unfold depthBehind
  dsimp only
  rw [Line.dropWhile_placed hl hc, Line.takeWhile_placed hl hc, if_neg hend, if_pos rfl]

end

theorem depthBehind_statement {s : Statement} (h : s.whole = true) (depth : Nat) :
    depthBehind depth ((Line.statement s).placed depth) = some depth := by
  obtain ⟨c, hl, hc, he⟩ := Statement.head?_text h
  rw [Line.depthBehind_placed (l := .statement s) hl hc he]
  exact congrArg some (if_neg (not_heads_of_endsCode s.endsCode))

theorem depthBehind_opener (kind : BlockKind) (op : Operator) (depth : Nat) :
    depthBehind depth ((opener kind op).placed depth) = some (depth + 1) := by
  have hopener : ∃ c, (opener kind op).text.toList.head? = some c ∧ c ≠ ' ' ∧ c ≠ 'e' ∧
      Heads (opener kind op).text.toList := by
    cases kind with
    | conditional =>
      rw [opener, Line.text, String.toList_append]
      exact ⟨'i', by simp, by decide, by decide, .inl ⟨_, rfl⟩⟩
    | loop =>
      rw [opener, Line.text, String.toList_append]
      exact ⟨'w', by simp, by decide, by decide, .inr ⟨_, rfl⟩⟩
  obtain ⟨c, hl, hc, he, hheads⟩ := hopener
  rw [Line.depthBehind_placed hl hc he, if_pos hheads]

theorem depthBehind_closer (depth : Nat) :
    depthBehind (depth + 1) (Line.closer.placed depth) = some depth := by
  have hl : Line.closer.text.toList.head? = some 'e' := by decide
  have hend : Line.closer.text.toList = "end".toList := rfl
  unfold depthBehind
  dsimp only
  rw [Line.dropWhile_placed hl (by decide), Line.takeWhile_placed hl (by decide), if_pos hend,
    if_pos ⟨Nat.succ_ne_zero depth, rfl⟩]
  rfl

/-! ## Texts and their lines -/

theorem append_cons_inj {c : Char} {xs ys xs' ys' : List Char} (hx : c ∉ xs) (hy : c ∉ ys)
    (h : xs ++ c :: xs' = ys ++ c :: ys') : xs = ys ∧ xs' = ys' := by
  have htake (zs zs' : List Char) (hz : c ∉ zs) :
      (zs ++ c :: zs').takeWhile (· ≠ c) = zs := by
    have hne : ∀ a ∈ zs, decide (a ≠ c) = true := fun a ha => decide_eq_true fun he => hz (he ▸ ha)
    rw [List.takeWhile_append_of_pos hne, List.takeWhile_cons_of_neg (by simp), List.append_nil]
  have hxy : xs = ys := by rw [← htake xs xs' hx, h, htake ys ys' hy]
  subst hxy
  exact ⟨rfl, (List.cons.inj (List.append_cancel_left h)).2⟩

/-- A text is cut at its newlines in one way only. -/
theorem join_lines_injective {xs ys : List String} (hx : ∀ x ∈ xs, '\n' ∉ x.toList)
    (hy : ∀ y ∈ ys, '\n' ∉ y.toList)
    (h : String.join (xs.map (· ++ "\n")) = String.join (ys.map (· ++ "\n"))) : xs = ys := by
  have hcons (x : String) (xs : List String) :
      (String.join ((x :: xs).map (· ++ "\n"))).toList =
        x.toList ++ '\n' :: (String.join (xs.map (· ++ "\n"))).toList := by
    rw [List.map_cons, String.join_cons, String.toList_append, String.toList_append,
      List.append_assoc]
    rfl
  induction xs generalizing ys with
  | nil =>
    cases ys with
    | nil => rfl
    | cons y ys =>
      have ht := congrArg String.toList h
      rw [hcons] at ht
      exact absurd ht.symm (by simp)
  | cons x xs ih =>
    cases ys with
    | nil =>
      have ht := congrArg String.toList h
      rw [hcons] at ht
      exact absurd ht (by simp)
    | cons y ys =>
      obtain ⟨hx₁, hxs⟩ := List.forall_mem_cons.mp hx
      obtain ⟨hy₁, hys⟩ := List.forall_mem_cons.mp hy
      have ht := congrArg String.toList h
      rw [hcons, hcons] at ht
      obtain ⟨hxy, hrest⟩ := append_cons_inj hx₁ hy₁ ht
      rw [String.toList_inj.mp hxy, ih hxs hys (String.toList_inj.mp hrest)]

end Lua

end NumNum
