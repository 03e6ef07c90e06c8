import NumNum.Proofs.Digit.Items

/-!
# What a source supplies

A source supplies the digits among its bytes, however these are delivered and whatever
else they write, and its failures, in order (`Source.items_eq`). Interruptions are not
noticed, and failures that pass for malformed text are skipped like it.
-/

namespace NumNum

/-- The last decimal digit of a number. -/
def lastDigit (n : Nat) : Fin 10 := Fin.ofNat 10 n

theorem val_lastDigit {n : Nat} (h : n < 10) : (lastDigit n).val = n := Nat.mod_eq_of_lt h

def charDigit (c : Char) : Fin 10 := lastDigit (c.toNat - '0'.toNat)

/-- The digit that a byte writes. -/
def digit? (b : UInt8) : Option (Fin 10) :=
  if 0x30 ≤ b ∧ b ≤ 0x39 then some (lastDigit (b.toNat - 0x30)) else none

def digitsOf (bs : List UInt8) : List (Fin 10) :=
  bs.filterMap digit?

theorem digitsOf_append (bs cs : List UInt8) : digitsOf (bs ++ cs) = digitsOf bs ++ digitsOf cs :=
  List.filterMap_append ..

/-- What a digit reader gets from a failure that it meets. -/
def reported (f : IoFault) : List (Except IoFault Nat) :=
  if f.kind = .invalidData then [] else [.error f]

def Delivery.supplied : Delivery → List (Except IoFault Nat)
  | .chunk bs => DigitSupply.ofDigits (digitsOf bs)
  | .failure f => if f.kind = .interrupted then [] else reported f

/-- What a digit reader gets from the result of reading a character. -/
def scanned : Except IoFault (Option Char) → List (Except IoFault Nat)
  | .ok none => []
  | .ok (some c) => if c.isDigit then [.ok (c.toNat - '0'.toNat)] else []
  | .error f => reported f

/-! ## Bytes and characters -/

theorem digit?_eq_none_of_le {b : UInt8} (h : 0x80 ≤ b) : digit? b = none := by
  have hn : ¬ (0x30 ≤ b ∧ b ≤ 0x39) := by
    rintro ⟨-, h9⟩
    exact absurd (UInt8.le_trans h h9) (by decide)
  rw [digit?, if_neg hn]

theorem digit?_of_toNat {b : UInt8} {c : Char} (h : c.toNat = b.toNat) :
    digit? b = if c.isDigit then some (charDigit c) else none := by
  have hiff : c.isDigit = true ↔ 0x30 ≤ b ∧ b ≤ 0x39 := by
    rw [Char.isDigit_iff_toNat, h]
    rfl
  rw [digit?, charDigit, h]
  by_cases hb : 0x30 ≤ b ∧ b ≤ 0x39
  · rw [if_pos hb, if_pos (hiff.mpr hb)]
    rfl
  · rw [if_neg hb, if_neg (mt hiff.mp hb)]

theorem utf8Size_of_lt {c : Char} (h : c.toNat < 0x80) : c.utf8Size = 1 := by
  rw [Char.utf8Size_eq_one_iff, UInt32.le_iff_toNat_le]
  exact Nat.le_of_lt_succ h

theorem lt_of_isDigit {c : Char} (h : c.isDigit = true) : c.toNat < 0x80 :=
  Nat.lt_of_le_of_lt (Char.isDigit_iff_toNat.mp h).2 (by decide)

theorem toNat_toUInt8 {c : Char} (h : c.toNat < 0x80) : c.toNat = c.val.toUInt8.toNat := by
  have hlt : c.val.toNat < 128 := h
  rw [UInt32.toNat_toUInt8, Nat.mod_eq_of_lt (by omega)]
  rfl

theorem encode_of_lt {c : Char} (h : c.toNat < 0x80) : Utf8.encode c = [c.val.toUInt8] := by
  rw [Utf8.encode, String.utf8EncodeChar_eq_singleton (utf8Size_of_lt h)]

theorem isDigit_of_two_le {bytes : List UInt8} {c : Char} (h : Utf8.decode? bytes = some c)
    (hlen : 2 ≤ bytes.length) : c.isDigit = false := by
  rw [← Utf8.encode_of_decode? h, Utf8.length_encode] at hlen
  rw [Bool.eq_false_iff]
  intro hd
  rw [utf8Size_of_lt (lt_of_isDigit hd)] at hlen
  exact absurd hlen (by decide)

theorem decode?_singleton {b : UInt8} (h : b < 0x80) :
    ∃ c, Utf8.decode? [b] = some c ∧ c.toNat = b.toNat := by
  have hc : (Char.ofUInt8 b).toNat = b.toNat := UInt8.toNat_toUInt32 b
  have hlt : (Char.ofUInt8 b).toNat < 0x80 := hc ▸ UInt8.lt_iff_toNat_lt.mp h
  have hb : (Char.ofUInt8 b).val.toUInt8 = b :=
    UInt8.toNat_inj.mp ((toNat_toUInt8 hlt).symm.trans hc)
  have hd := Utf8.decode?_encode (Char.ofUInt8 b)
  rw [encode_of_lt hlt, hb] at hd
  exact ⟨_, hd, hc⟩

theorem scanned_of_toNat {b : UInt8} {c : Char} (h : c.toNat = b.toNat) :
    scanned (.ok (some c)) = DigitSupply.ofDigits (digit? b).toList := by
  rw [scanned, digit?_of_toNat h]
  by_cases hd : c.isDigit = true
  · have hlt : c.toNat - '0'.toNat < 10 := by
      have hle : c.toNat ≤ '0'.toNat + 9 := (Char.isDigit_iff_toNat.mp hd).2
      omega
    rw [if_pos hd, if_pos hd, Option.toList, DigitSupply.ofDigits, List.map_singleton, charDigit,
      val_lastDigit hlt]
  · rw [if_neg hd, if_neg hd]
    rfl

namespace Source

def supplied (s : Source) : List (Except IoFault Nat) :=
  s.flatMap Delivery.supplied

@[simp] theorem supplied_cons (d : Delivery) (s : Source) :
    supplied (d :: s) = d.supplied ++ s.supplied := rfl

/-! ## Pulls -/

theorem supplied_pull (s : Source) :
    s.supplied =
      match s.pull with
      | .finished => []
      | .fault f rest => reported f ++ rest.supplied
      | .byte b rest => DigitSupply.ofDigits (digit? b).toList ++ rest.supplied := by
  fun_induction pull s with
  | case1 => rfl
  | case2 _ ih => exact ih
  | case3 b bs rest =>
    dsimp only
    rw [supplied_cons, supplied_cons, Delivery.supplied, Delivery.supplied, digitsOf, digitsOf,
      List.filterMap_cons]
    cases digit? b <;> rfl
  | case4 f rest hk ih =>
    rw [supplied_cons, Delivery.supplied, if_pos hk, List.nil_append]
    exact ih
  | case5 f rest hk =>
    dsimp only
    rw [supplied_cons, Delivery.supplied, if_neg hk]

/-! ## Characters -/

/-- The bytes of a sequence of two or more are no digits, and neither is what it decodes to. -/
theorem supplied_readSequence {taken : List UInt8} {missing : Nat} (s : Source)
    (h : 2 ≤ taken.length + missing) :
    s.supplied = scanned (readSequence taken missing s).1 ++
      (readSequence taken missing s).2.supplied := by
  induction missing generalizing taken s with
  | zero =>
    rw [readSequence]
    cases hd : Utf8.decode? taken with
    | none => rfl
    | some c => simp [scanned, isDigit_of_two_le hd h]
  | succ missing ih =>
    have hs := supplied_pull s
    rw [readSequence]
    cases hp : s.pull with
    | finished => rfl
    | fault f rest =>
      rw [hp] at hs
      exact hs
    | byte b rest =>
      rw [hp] at hs
      by_cases hb : Utf8.isContinuation b = true
      · have hle : 0x80 ≤ b := by
          simp only [Utf8.isContinuation, Bool.and_eq_true, decide_eq_true_eq] at hb
          exact hb.1
        dsimp only at hs ⊢
        rw [digit?_eq_none_of_le hle] at hs
        rw [if_pos hb]
        exact hs.trans (ih rest (by simp; omega))
      · dsimp only
        rw [if_neg hb]
        rfl

theorem supplied_readChar (s : Source) :
    s.supplied = scanned s.readChar.1 ++ s.readChar.2.supplied := by
  have hs := supplied_pull s
  rw [readChar]
  cases hp : s.pull with
  | finished => rfl
  | fault f rest =>
    rw [hp] at hs
    exact hs
  | byte b rest =>
    rw [hp] at hs
    rw [hs]
    dsimp only
    by_cases hb : b < 0x80
    · obtain ⟨c, hc, hn⟩ := decode?_singleton hb
      rw [Utf8.sequenceLength?, if_pos hb]
      dsimp only
      rw [readSequence, hc, scanned_of_toNat hn]
    · rw [digit?_eq_none_of_le (UInt8.not_lt.mp hb)]
      cases hs : Utf8.sequenceLength? b with
      | none => rfl
      | some n =>
        have h2 : 2 ≤ n := by
          rw [Utf8.sequenceLength?, if_neg hb] at hs
          split at hs
          · cases hs; decide
          split at hs
          · cases hs; decide
          split at hs
          · cases hs; decide
          · cases hs
        exact supplied_readSequence rest (by simp; omega)

theorem supplied_of_end {s : Source} (h : s.readChar.1 = .ok none) : s.supplied = [] := by
  have hs := supplied_pull s
  rw [readChar] at h
  cases hp : s.pull with
  | finished =>
    rw [hp] at hs
    exact hs
  | fault f rest =>
    rw [hp] at h
    cases h
  | byte b rest =>
    rw [hp] at h
    dsimp only at h
    split at h
    · cases h
    · exact absurd h (readSequence_ne_end _ _ _)

/-! ## Digits -/

theorem supplied_nextDigit? (s : Source) :
    s.supplied =
      match s.nextDigit? with
      | none => []
      | some (item, rest) => item :: rest.supplied := by
  have hs := supplied_readChar s
  fun_induction nextDigit? s with
  | case1 s rest hr => exact supplied_of_end (congrArg Prod.fst hr)
  | case2 s c rest hr hd =>
    rw [hr, scanned, if_pos hd] at hs
    exact hs
  | case3 s c rest hr hd ih =>
    rw [hr, scanned, if_neg hd] at hs
    exact hs.trans (ih (supplied_readChar rest))
  | case4 s f rest hr hk ih =>
    rw [hr, scanned, reported, if_pos hk] at hs
    exact hs.trans (ih (supplied_readChar rest))
  | case5 s f rest hr hk =>
    rw [hr, scanned, reported, if_neg hk] at hs
    exact hs

/-- A source supplies what its deliveries supply, one behind the other. -/
theorem items_eq (s : Source) : DigitSupply.items s = s.supplied := by
  have hs := supplied_nextDigit? s
  fun_induction DigitSupply.items s with
  | case1 s hn =>
    rw [show s.nextDigit? = none from hn] at hs
    exact hs.symm
  | case2 s item rest hn ih =>
    rw [show s.nextDigit? = some (item, rest) from hn] at hs
    rw [hs, ih (supplied_nextDigit? rest)]

end Source

/-- Bytes are decoded by the digits among them. -/
theorem Program.ofSource_ofBytes (bs : List UInt8) :
    ofSource (Source.ofBytes bs) = Decoder.result (Decoder.start.read (digitsOf bs)) := by
  have hs : Source.supplied (Source.ofBytes bs) = DigitSupply.ofDigits (digitsOf bs) :=
    List.append_nil _
  rw [ofSource, Decoding.program_items, Source.items_eq, hs, Decoding.program_ofDigits]

/-! ## Bytes without failures -/

theorem ofDigits_append (ds es : List (Fin 10)) :
    DigitSupply.ofDigits (ds ++ es) = DigitSupply.ofDigits ds ++ DigitSupply.ofDigits es :=
  List.map_append

theorem digitsOf_filter (bs : List UInt8) :
    digitsOf (bs.filter fun b => 0x30 ≤ b ∧ b ≤ 0x39) = digitsOf bs := by
  rw [digitsOf, List.filterMap_filter, digitsOf]
  congr 1
  funext b
  by_cases h : 0x30 ≤ b ∧ b ≤ 0x39
  · rw [if_pos (decide_eq_true h)]
  · rw [digit?, if_neg h, ite_self]

theorem ofDigits_digitsOf (bs : List UInt8) :
    DigitSupply.ofDigits (digitsOf bs) =
      (bs.filter fun b => 0x30 ≤ b ∧ b ≤ 0x39).map fun b => .ok (b.toNat - 0x30) := by
  induction bs with
  | nil => rfl
  | cons b bs ih =>
    rw [digitsOf, List.filterMap_cons, List.filter_cons, digit?]
    by_cases h : 0x30 ≤ b ∧ b ≤ 0x39
    · have hlt : b.toNat - 0x30 < 10 := by
        have hle : b.toNat ≤ 0x39 := UInt8.le_iff_toNat_le.mp h.2
        omega
      rw [if_pos h, if_pos (decide_eq_true h), List.map_cons, ← ih, DigitSupply.ofDigits,
        List.map_cons, val_lastDigit hlt]
      rfl
    · rw [if_neg h, if_neg (by simpa using h), ← ih]
      rfl

theorem Source.supplied_chunks (chunks : List (List UInt8)) :
    supplied (chunks.map .chunk) = DigitSupply.ofDigits (digitsOf (bytes (chunks.map .chunk))) := by
  induction chunks with
  | nil => rfl
  | cons chunk chunks ih =>
    rw [List.map_cons, supplied_cons, ih, Delivery.supplied, ← ofDigits_append, ← digitsOf_append]
    rfl

/-- Bytes that are delivered without a failure supply the values of the ASCII digits among
them, in order and nothing else, whatever the other bytes are. So they are decoded like these
digits alone. -/
theorem Source.items_chunks (chunks : List (List UInt8)) :
    let source : Source := chunks.map .chunk
    let digits := source.bytes.filter fun b => 0x30 ≤ b ∧ b ≤ 0x39
    DigitSupply.items source = digits.map (fun b => .ok (b.toNat - 0x30)) ∧
    Program.ofSource source = Program.ofSource (.ofBytes digits) := by
  intro source digits
  have hs : source.supplied = DigitSupply.ofDigits (digitsOf source.bytes) :=
    supplied_chunks chunks
  constructor
  · rw [items_eq, hs, ofDigits_digitsOf]
  · rw [Program.ofSource_ofBytes, digitsOf_filter, Program.ofSource, Decoding.program_items,
      items_eq, hs, Decoding.program_ofDigits]

end NumNum
