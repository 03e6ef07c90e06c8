import NumNum.Proofs.Text.Deliveries
import NumNum.Machine.Step

/-!
# Lines and the words they write

A read takes the bytes through the first newline (`Source.Undisturbed.readLine`). Of these bytes
the machine makes a word if they are the decimal numeral of one, with blanks around it
(`lineWord_eq_ok_iff`).
-/

namespace NumNum

/-! ## Texts and their bytes -/

namespace Utf8

theorem toByteArray_encodeText (s : String) : (encodeText s).toByteArray = s.toByteArray :=
  String.utf8Encode_toList

theorem decodeText?_eq_some_iff {bytes : List UInt8} {s : String} :
    decodeText? bytes = some s ↔ encodeText s = bytes := by
  have hinj (h : (encodeText s).toByteArray = bytes.toByteArray) : encodeText s = bytes := by
    simpa using congrArg (fun a => a.data.toList) h
  unfold decodeText? String.fromUTF8?
  by_cases hv : bytes.toByteArray.IsValidUTF8
  · rw [dif_pos hv]
    constructor
    · intro h
      refine hinj ?_
      rw [toByteArray_encodeText, ← Option.some.inj h]
      rfl
    · intro h
      refine congrArg some (String.toByteArray_inj.mp ?_)
      rw [← toByteArray_encodeText s, h]
      rfl
  · rw [dif_neg hv]
    refine ⟨nofun, fun h => absurd (.intro s.toList ?_) hv⟩
    rw [String.utf8Encode_toList, ← toByteArray_encodeText, h]

theorem encodeText_injective {s t : String} (h : encodeText s = encodeText t) : s = t := by
  have ht := decodeText?_eq_some_iff.mpr h
  rw [decodeText?_eq_some_iff.mpr rfl] at ht
  exact (Option.some.inj ht).symm

end Utf8

/-! ## Numerals -/

namespace Numeral

theorem toList_text (n : Nat) : (text n).toList = Nat.toDigits 10 n := by
  rw [text, Nat.toString_eq_repr, Nat.toList_repr]

theorem isDigit_of_mem_text {n : Nat} {c : Char} (h : c ∈ (text n).toList) : c.isDigit = true := by
  rw [toList_text] at h
  exact Nat.isDigit_of_mem_toDigits (by decide) (by decide) h

theorem text_ne_nil (n : Nat) : (text n).toList ≠ [] := by
  rw [toList_text]
  exact Nat.toDigits_ne_nil

theorem value_text (n : Nat) : value (text n).toList = n := by
  have h := Nat.ofDigitChars_ten_toDigits (n := n)
  rw [Nat.ofDigitChars_eq_foldl] at h
  rw [toList_text, value]
  refine Eq.trans ?_ h
  congr 1
  funext m c
  rw [appendDigit, Nat.mul_comm]

end Numeral

/-! ## Blanks around a text -/

namespace Text

def Blank (cs : List Char) : Prop := ∀ c ∈ cs, isBlank c = true

variable {front cs behind : List Char}

theorem Blank.reverse (h : Blank cs) : Blank cs.reverse :=
  fun c hc => h c (List.mem_reverse.mp hc)

theorem blank_takeWhile (cs : List Char) : Blank (cs.takeWhile isBlank) :=
  List.all_eq_true.mp List.all_takeWhile

theorem dropWhile_blank (h : Blank front) (cs : List Char) :
    (front ++ cs).dropWhile isBlank = cs.dropWhile isBlank :=
  List.dropWhile_append_of_pos h

theorem exists_blanks_trim (cs : List Char) :
    ∃ front behind, Blank front ∧ Blank behind ∧ cs = front ++ trim cs ++ behind := by
  refine ⟨cs.takeWhile isBlank, ((cs.dropWhile isBlank).reverse.takeWhile isBlank).reverse,
    blank_takeWhile cs, (blank_takeWhile _).reverse, ?_⟩
  rw [trim, List.append_assoc, ← List.reverse_append, List.takeWhile_append_dropWhile,
    List.reverse_reverse, List.takeWhile_append_dropWhile]

theorem trim_append (h : Blank behind) (cs : List Char) : trim (cs ++ behind) = trim cs := by
  unfold trim
  rw [List.dropWhile_append]
  by_cases hcs : cs.dropWhile isBlank = []
  · have hb : behind.dropWhile isBlank = [] := by
      have hd := dropWhile_blank h []
      rwa [List.append_nil] at hd
    rw [hcs, hb]
    rfl
  · rw [if_neg (by rwa [List.isEmpty_iff]), List.reverse_append, dropWhile_blank h.reverse]

theorem append_trim (h : Blank front) (cs : List Char) : trim (front ++ cs) = trim cs := by
  rw [trim, dropWhile_blank h]
  rfl

theorem dropWhile_of_forall (h : ∀ c ∈ cs, isBlank c = false) : cs.dropWhile isBlank = cs := by
  cases cs with
  | nil => rfl
  | cons c cs => rw [List.dropWhile_cons_of_neg (by simp [h])]

theorem trim_of_forall (h : ∀ c ∈ cs, isBlank c = false) : trim cs = cs := by
  rw [trim, dropWhile_of_forall h, dropWhile_of_forall fun c hc => h c (List.mem_reverse.mp hc),
    List.reverse_reverse]

/-- What is left of a text is what blanks were put around, if it has none itself. -/
theorem trim_eq_of_forall (hf : Blank front) (hb : Blank behind) (h : ∀ c ∈ cs, isBlank c = false) :
    trim (front ++ cs ++ behind) = cs := by
  rw [trim_append hb, append_trim hf, trim_of_forall h]

theorem isBlank_of_isDigit {c : Char} (h : c.isDigit = true) : isBlank c = false := by
  have h9 : 48 ≤ c.toNat ∧ c.toNat ≤ 57 := Char.isDigit_iff_toNat.mp h
  simp [isBlank]
  omega

end Text

/-! ## One line -/

namespace Source

/-- A line ending is blank. -/
theorem exists_ending (line : List Char) :
    ∃ ending, Text.Blank ending ∧ line = chomp line ++ ending := by
  unfold chomp
  split
  case h_1 rest h =>
    refine ⟨['\r', '\n'], by simp [Text.Blank]; decide, ?_⟩
    rw [← List.reverse_reverse line, h]
    simp
  case h_2 rest _ h =>
    refine ⟨['\n'], by simp [Text.Blank]; decide, ?_⟩
    rw [← List.reverse_reverse line, h]
    simp
  case h_3 => exact ⟨[], nofun, (List.append_nil line).symm⟩

theorem trim_chomp (line : List Char) : Text.trim (chomp line) = Text.trim line := by
  obtain ⟨ending, hblank, hline⟩ := exists_ending line
  rw [← Text.trim_append hblank, ← hline]

/-- The bytes through the first newline, or all of them if there is none. -/
def firstLine (bs : List UInt8) : List UInt8 :=
  bs.takeWhile (· ≠ 10) ++ (bs.dropWhile (· ≠ 10)).take 1

/-- The bytes behind the first line. -/
def behindLine (bs : List UInt8) : List UInt8 :=
  (bs.dropWhile (· ≠ 10)).drop 1

theorem firstLine_append_behindLine (bs : List UInt8) : firstLine bs ++ behindLine bs = bs := by
  rw [firstLine, behindLine, List.append_assoc, List.take_append_drop,
    List.takeWhile_append_dropWhile]

theorem firstLine_append {front : List UInt8} (h : 10 ∉ front) (behind : List UInt8) :
    firstLine (front ++ 10 :: behind) = front ++ [10] ∧
      behindLine (front ++ 10 :: behind) = behind := by
  have hne : ∀ b ∈ front, decide (b ≠ 10) = true :=
    fun b hb => decide_eq_true fun h10 => h (h10 ▸ hb)
  rw [firstLine, behindLine, List.takeWhile_append_of_pos hne, List.dropWhile_append_of_pos hne]
  simp

theorem takeLine_ofBytes (taken bs : List UInt8) :
    takeLine taken (ofBytes bs) =
      (.ok (taken.reverse ++ firstLine bs), ofBytes (behindLine bs)) := by
  induction bs generalizing taken with
  | nil => rw [takeLine_eq]; simp [ofBytes, pull, firstLine, behindLine]
  | cons b bs ih =>
    rw [takeLine_eq, ofBytes, pull]
    dsimp only
    by_cases hb : b = 10
    · rw [if_pos hb, hb]
      simp [ofBytes, firstLine, behindLine]
    · rw [if_neg hb, ← ofBytes, ih]
      simp [firstLine, behindLine, hb]

/-- What a line of bytes is read as. -/
def lineOf (bytes : List UInt8) : Except IoFault (Option String) :=
  match Utf8.decodeText? bytes with
  | none => .error Utf8.malformedLine
  | some line =>
    .ok (if bytes = [] then none else some (String.ofList (chomp line.toList)))

theorem readLine_ofBytes (bs : List UInt8) :
    (ofBytes bs).readLine = (lineOf (firstLine bs), ofBytes (behindLine bs)) := by
  rw [readLine, takeLine_ofBytes, lineOf]
  dsimp only
  rw [List.reverse_nil, List.nil_append]
  cases Utf8.decodeText? (firstLine bs) with
  | none => rfl
  | some line =>
    dsimp only
    split <;> rfl

theorem Undisturbed.readLine {s : Source} (h : s.Undisturbed) :
    s.readLine.1 = lineOf (firstLine s.bytes) ∧ s.readLine.2.bytes = behindLine s.bytes ∧
      s.readLine.2.Undisturbed := by
  obtain ⟨hr, hrest⟩ := h.alike_ofBytes.readLine
  rw [readLine_ofBytes] at hr hrest
  refine ⟨hr, ?_, hrest.left⟩
  rw [hrest.bytes, bytes_ofBytes]

end Source

/-! ## The word that a line writes -/

/-- The bytes are the decimal numeral of the word, with blanks around it. -/
def Word.WrittenBy (w : UInt32) (bytes : List UInt8) : Prop :=
  ∃ front digits behind : List Char, bytes = (front ++ digits ++ behind).flatMap Utf8.encode ∧
    Text.Blank front ∧ Text.Blank behind ∧ digits ≠ [] ∧ (∀ c ∈ digits, c.isDigit = true) ∧
    Numeral.value digits = w.toNat

theorem Numeral.word?_eq_some_iff {cs : List Char} {w : UInt32} :
    word? cs = some w ↔ cs ≠ [] ∧ (∀ c ∈ cs, c.isDigit = true) ∧ value cs = w.toNat := by
  rw [word?_eq, ← List.all_eq_true]
  constructor
  · intro h
    split at h
    case isTrue hd =>
      cases h
      exact ⟨hd.1, hd.2.1, (UInt32.toNat_ofNat_of_lt' hd.2.2).symm⟩
    case isFalse => cases h
  · rintro ⟨hne, hd, hv⟩
    rw [if_pos ⟨hne, hd, hv ▸ w.toNat_lt⟩, hv, UInt32.ofNat_toNat]

theorem Word.writtenBy_encodeText_iff {w : UInt32} {line : String} :
    WrittenBy w (Utf8.encodeText line) ↔ Numeral.word? (Text.trim line.toList) = some w := by
  rw [Numeral.word?_eq_some_iff]
  constructor
  · rintro ⟨front, digits, behind, hb, hf, hbehind, hne, hd, hv⟩
    have hline : line = String.ofList (front ++ digits ++ behind) := by
      refine Utf8.encodeText_injective (hb.trans ?_)
      rw [Utf8.encodeText, String.toList_ofList]
    rw [hline, String.toList_ofList,
      Text.trim_eq_of_forall hf hbehind fun c hc => Text.isBlank_of_isDigit (hd c hc)]
    exact ⟨hne, hd, hv⟩
  · rintro ⟨hne, hd, hv⟩
    obtain ⟨front, behind, hf, hbehind, hline⟩ := Text.exists_blanks_trim line.toList
    refine ⟨front, _, behind, ?_, hf, hbehind, hne, hd, hv⟩
    rw [← hline, Utf8.encodeText]

theorem Source.lineOf_eq_ok_iff {bytes : List UInt8} {line? : Option String} :
    lineOf bytes = .ok line? ↔ ∃ line, Utf8.encodeText line = bytes ∧
      line? = if bytes = [] then none else some (String.ofList (chomp line.toList)) := by
  unfold lineOf
  constructor
  · intro h
    cases hd : Utf8.decodeText? bytes with
    | none =>
      rw [hd] at h
      cases h
    | some line =>
      rw [hd] at h
      exact ⟨line, Utf8.decodeText?_eq_some_iff.mp hd, (Except.ok.inj h).symm⟩
  · rintro ⟨line, hb, rfl⟩
    rw [Utf8.decodeText?_eq_some_iff.mpr hb]

/-- The machine takes a line for the word that it writes, whatever ends the line. -/
theorem Machine.lineWord_eq_ok_iff {bytes : List UInt8} {line? : Option String} {w : UInt32}
    (h : Source.lineOf bytes = .ok line?) : lineWord line? = .ok w ↔ Word.WrittenBy w bytes := by
  obtain ⟨line, rfl, rfl⟩ := Source.lineOf_eq_ok_iff.mp h
  have htrim : Text.trim ((if Utf8.encodeText line = [] then none
      else some (String.ofList (Source.chomp line.toList))).getD "").toList =
      Text.trim line.toList := by
    by_cases hb : Utf8.encodeText line = []
    · rw [if_pos hb, Utf8.encodeText_injective (t := "") hb]
      rfl
    · rw [if_neg hb, Option.getD_some, String.toList_ofList, Source.trim_chomp]
  rw [Word.writtenBy_encodeText_iff, lineWord, htrim]
  cases Numeral.word? (Text.trim line.toList) with
  | none => exact iff_of_false nofun nofun
  | some w' => exact ⟨fun h => by rw [Except.ok.inj h], fun h => by rw [Option.some.inj h]⟩

theorem Word.exists_lineOf_of_writtenBy {bytes : List UInt8} {w : UInt32} (h : WrittenBy w bytes) :
    ∃ line?, Source.lineOf bytes = .ok line? := by
  obtain ⟨front, digits, behind, hb, -⟩ := h
  refine ⟨_, Source.lineOf_eq_ok_iff.mpr ⟨String.ofList (front ++ digits ++ behind), ?_, rfl⟩⟩
  rw [hb, Utf8.encodeText, String.toList_ofList]

theorem Word.WrittenBy.unique {w w' : UInt32} {bytes : List UInt8} (h : WrittenBy w bytes)
    (h' : WrittenBy w' bytes) : w = w' := by
  obtain ⟨line?, hline⟩ := exists_lineOf_of_writtenBy h
  have hw := (Machine.lineWord_eq_ok_iff hline).mpr h
  rw [(Machine.lineWord_eq_ok_iff hline).mpr h'] at hw
  exact (Except.ok.inj hw).symm

end NumNum
