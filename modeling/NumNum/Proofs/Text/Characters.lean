import NumNum.Proofs.Text.Deliveries

/-!
# Characters among bytes

A read takes the whole sequence of a character and nothing else, and a read of anything else
stops ahead of the next byte that can start a sequence. So what is read of some bytes does not
depend on a character behind them, and malformed bytes never cost the text that stands next to
them (`Source.readChar_exact`).
-/

namespace NumNum

/-! ## The sequence of a character -/

namespace Utf8

theorem isContinuation_eq (b : UInt8) :
    isContinuation b = decide (128 ≤ b.toNat ∧ b.toNat ≤ 191) := by
  simp [isContinuation, UInt8.le_iff_toNat_le]

theorem isContinuation_ofNat (n : Nat) : isContinuation (UInt8.ofNat (n % 64 + 128)) = true := by
  have h : (UInt8.ofNat (n % 64 + 128)).toNat = n % 64 + 128 :=
    UInt8.toNat_ofNat_of_lt (show _ < 256 by omega)
  rw [isContinuation_eq, h]
  exact decide_eq_true (by omega)

theorem sequenceLength?_eq (lead : UInt8) : sequenceLength? lead =
    if lead.toNat < 128 then some 1
    else if 194 ≤ lead.toNat ∧ lead.toNat ≤ 223 then some 2
    else if 224 ≤ lead.toNat ∧ lead.toNat ≤ 239 then some 3
    else if 240 ≤ lead.toNat ∧ lead.toNat ≤ 244 then some 4
    else none := rfl

theorem lead_ofNat {n width : Nat} (h : n < 128 ∧ width = 1 ∨ 194 ≤ n ∧ n ≤ 223 ∧ width = 2 ∨
    224 ≤ n ∧ n ≤ 239 ∧ width = 3 ∨ 240 ≤ n ∧ n ≤ 244 ∧ width = 4) :
    sequenceLength? (UInt8.ofNat n) = some width ∧ isContinuation (UInt8.ofNat n) = false := by
  have hn : (UInt8.ofNat n).toNat = n := UInt8.toNat_ofNat_of_lt (show _ < 256 by omega)
  rw [sequenceLength?_eq, isContinuation_eq, hn]
  constructor
  · grind
  · exact decide_eq_false (by omega)

/-- The first byte of a character tells how many bytes continue it, and is none of them. -/
theorem encode_eq_cons (c : Char) :
    ∃ lead tail, encode c = lead :: tail ∧
      (sequenceLength? lead = some (tail.length + 1) ∧ isContinuation lead = false) ∧
      ∀ b ∈ tail, isContinuation b = true := by
  have hmax : c.val.toNat < 0x110000 := by
    rcases c.valid with h | h <;> omega
  unfold encode String.utf8EncodeChar
  dsimp only
  generalize c.val.toNat = v at hmax ⊢
  by_cases h1 : v ≤ 0x7f
  · rw [if_pos h1]
    exact ⟨_, [], rfl, lead_ofNat (.inl ⟨by omega, rfl⟩), nofun⟩
  rw [if_neg h1]
  by_cases h2 : v ≤ 0x7ff
  · rw [if_pos h2]
    refine ⟨_, [_], rfl, lead_ofNat (.inr (.inl ⟨by omega, by omega, rfl⟩)), ?_⟩
    simp [isContinuation_ofNat, -UInt8.ofNat_add]
  rw [if_neg h2]
  by_cases h3 : v ≤ 0xffff
  · rw [if_pos h3]
    refine ⟨_, [_, _], rfl, lead_ofNat (.inr (.inr (.inl ⟨by omega, by omega, rfl⟩))), ?_⟩
    simp [isContinuation_ofNat, -UInt8.ofNat_add]
  · rw [if_neg h3]
    refine ⟨_, [_, _, _], rfl, lead_ofNat (.inr (.inr (.inr ⟨by omega, by omega, rfl⟩))), ?_⟩
    simp [isContinuation_ofNat, -UInt8.ofNat_add]

/-! ## The bytes that continue a sequence -/

variable {bs behind : List UInt8}

/-- The bytes in front that continue a sequence, as long as some are missing. -/
def continuations : Nat → List UInt8 → List UInt8
  | missing + 1, b :: bs => if isContinuation b then b :: continuations missing bs else []
  | _, _ => []

/-- No sequence goes on with the first of these bytes. -/
def Fresh (bs : List UInt8) : Prop := ∀ b, bs.head? = some b → isContinuation b = false

theorem fresh_encode_append (c : Char) (behind : List UInt8) : Fresh (encode c ++ behind) := by
  obtain ⟨lead, tail, hc, ⟨-, hlead⟩, -⟩ := encode_eq_cons c
  intro b hb
  rw [hc] at hb
  cases hb
  exact hlead

theorem continuations_isPrefix (missing : Nat) (bs : List UInt8) :
    continuations missing bs <+: bs := by
  induction missing generalizing bs with
  | zero => exact List.nil_prefix
  | succ missing ih =>
    cases bs with
    | nil => exact List.nil_prefix
    | cons b bs =>
      unfold continuations
      by_cases hb : isContinuation b = true
      · rw [if_pos hb, List.prefix_cons_inj]
        exact ih bs
      · rw [if_neg hb]
        exact List.nil_prefix

theorem continuations_of_fresh (h : Fresh bs) (missing : Nat) : continuations missing bs = [] := by
  cases missing with
  | zero => rfl
  | succ missing =>
    cases bs with
    | nil => rfl
    | cons b bs => simp [continuations, h b rfl]

theorem continuations_append (h : Fresh behind) (missing : Nat) (bs : List UInt8) :
    continuations missing (bs ++ behind) = continuations missing bs := by
  induction bs generalizing missing with
  | nil =>
    rw [List.nil_append, continuations_of_fresh h]
    cases missing <;> rfl
  | cons b bs ih =>
    cases missing with
    | zero => rfl
    | succ missing => rw [List.cons_append, continuations, continuations, ih]

theorem continuations_length_append (h : ∀ b ∈ bs, isContinuation b = true) :
    continuations bs.length (bs ++ behind) = bs := by
  induction bs with
  | nil => rfl
  | cons b bs ih =>
    obtain ⟨hb, hbs⟩ := List.forall_mem_cons.mp h
    rw [List.length_cons, List.cons_append, continuations, if_pos hb, ih hbs]

/-! ## One read -/

/-- What a read reports of a sequence of the right length. -/
def decoded (bytes : List UInt8) : Except IoFault (Option Char) :=
  match decode? bytes with
  | some c => .ok (some c)
  | none => .error malformed

/-- What a read finds in front of the bytes, and the bytes that it leaves. -/
def read : List UInt8 → Except IoFault (Option Char) × List UInt8
  | [] => (.ok none, [])
  | lead :: bs =>
    match sequenceLength? lead with
    | none => (.error malformed, bs)
    | some n =>
      let tail := continuations (n - 1) bs
      (if tail.length = n - 1 then decoded (lead :: tail) else .error malformed,
        bs.drop tail.length)

theorem decoded_cases (bytes : List UInt8) :
    (∃ c, decoded bytes = .ok (some c) ∧ encode c = bytes) ∨ decoded bytes = .error malformed := by
  unfold decoded
  cases h : decode? bytes with
  | none => exact .inr rfl
  | some c => exact .inl ⟨c, rfl, encode_of_decode? h⟩

/-- A read takes nothing at the end, one character, or the bytes of a malformed sequence. -/
theorem read_cases (bs : List UInt8) :
    (bs = [] ∧ (read bs).1 = .ok none) ∨
    (∃ c, (read bs).1 = .ok (some c) ∧ bs = encode c ++ (read bs).2) ∨
    ((read bs).1 = .error malformed ∧ ∃ taken ≠ [], bs = taken ++ (read bs).2) := by
  cases bs with
  | nil => exact .inl ⟨rfl, rfl⟩
  | cons lead bs =>
    refine .inr ?_
    rw [read]
    cases sequenceLength? lead with
    | none => exact .inr ⟨rfl, [lead], by simp⟩
    | some n =>
      dsimp only
      have hsplit : lead :: bs = (lead :: continuations (n - 1) bs) ++
          bs.drop (continuations (n - 1) bs).length := by
        rw [List.cons_append, List.prefix_iff_eq_append.mp (continuations_isPrefix _ bs)]
      by_cases hlen : (continuations (n - 1) bs).length = n - 1
      · rw [if_pos hlen]
        rcases decoded_cases (lead :: continuations (n - 1) bs) with ⟨c, hd, hc⟩ | hd
        · refine .inl ⟨c, hd, ?_⟩
          rw [hc]
          exact hsplit
        · exact .inr ⟨hd, _, by simp, hsplit⟩
      · rw [if_neg hlen]
        exact .inr ⟨rfl, _, by simp, hsplit⟩

theorem read_encode_append (c : Char) (behind : List UInt8) :
    read (encode c ++ behind) = (.ok (some c), behind) := by
  obtain ⟨lead, tail, hc, ⟨hlead, -⟩, htail⟩ := encode_eq_cons c
  rw [hc, List.cons_append, read, hlead]
  simp only [Nat.add_sub_cancel, continuations_length_append htail, if_true, List.drop_left]
  rw [decoded, ← hc, decode?_encode]

theorem eq_append_of_read {c : Char} (h : (read bs).1 = .ok (some c)) :
    bs = encode c ++ (read bs).2 := by
  rcases read_cases bs with ⟨-, hr⟩ | ⟨d, hr, hsplit⟩ | ⟨hr, -⟩
  · rw [hr] at h
    cases h
  · rw [hr] at h
    cases h
    exact hsplit
  · rw [hr] at h
    cases h

theorem read_eq_some_iff (c : Char) : (read bs).1 = .ok (some c) ↔ encode c <+: bs := by
  constructor
  · intro h
    exact ⟨_, (eq_append_of_read h).symm⟩
  · rintro ⟨behind, hb⟩
    rw [← hb, read_encode_append]

theorem read_eq_none_iff : (read bs).1 = .ok none ↔ bs = [] := by
  constructor
  · intro h
    rcases read_cases bs with ⟨hnil, -⟩ | ⟨c, hr, -⟩ | ⟨hr, -⟩
    · exact hnil
    · rw [hr] at h
      cases h
    · rw [hr] at h
      cases h
  · intro h
    rw [h]
    rfl

theorem read_malformed (hbs : bs ≠ []) (h : ∀ c, ¬ encode c <+: bs) :
    (read bs).1 = .error malformed ∧ ∃ taken ≠ [], bs = taken ++ (read bs).2 := by
  rcases read_cases bs with ⟨hnil, -⟩ | ⟨c, -, hsplit⟩ | hmalformed
  · exact absurd hnil hbs
  · exact absurd ⟨_, hsplit.symm⟩ (h c)
  · exact hmalformed

/-- A read ends ahead of bytes that continue nothing, and does not depend on them. -/
theorem read_append (hbs : bs ≠ []) (h : Fresh behind) :
    read (bs ++ behind) = ((read bs).1, (read bs).2 ++ behind) := by
  cases bs with
  | nil => exact absurd rfl hbs
  | cons lead bs =>
    rw [List.cons_append, read, read]
    cases sequenceLength? lead with
    | none => rfl
    | some n =>
      dsimp only
      rw [continuations_append h,
        List.drop_append_of_le_length (continuations_isPrefix _ bs).length_le]

theorem length_read_lt (hbs : bs ≠ []) : (read bs).2.length < bs.length := by
  rcases read_cases bs with ⟨hnil, -⟩ | ⟨c, -, hsplit⟩ | ⟨-, taken, htaken, hsplit⟩
  · exact absurd hnil hbs
  · have hlen := congrArg List.length hsplit
    have hpos := c.utf8Size_pos
    rw [List.length_append, length_encode] at hlen
    omega
  · have hlen := congrArg List.length hsplit
    have hpos := List.length_pos_iff.mpr htaken
    rw [List.length_append] at hlen
    omega

end Utf8

/-! ## Reading a source -/

namespace Source

variable {s t : Source}

theorem readSequence_ofBytes (taken : List UInt8) (missing : Nat) (bs : List UInt8) :
    readSequence taken missing (ofBytes bs) =
      let tail := Utf8.continuations missing bs
      (if tail.length = missing then Utf8.decoded (taken ++ tail) else .error Utf8.malformed,
        ofBytes (bs.drop tail.length)) := by
  induction missing generalizing taken bs with
  | zero =>
    simp only [readSequence, Utf8.continuations, List.append_nil, Utf8.decoded]
    cases Utf8.decode? taken with
    | none => rfl
    | some c => rfl
  | succ missing ih =>
    cases bs with
    | nil => rfl
    | cons b bs =>
      rw [readSequence, ofBytes, pull, Utf8.continuations]
      dsimp only
      by_cases hb : Utf8.isContinuation b = true
      · rw [if_pos hb, if_pos hb, ← ofBytes, ih]
        simp only [List.append_assoc, List.singleton_append, List.length_cons,
          Nat.add_right_cancel_iff, List.drop_succ_cons]
      · rw [if_neg hb, if_neg hb]
        rfl

theorem readChar_ofBytes (bs : List UInt8) :
    (ofBytes bs).readChar = ((Utf8.read bs).1, ofBytes (Utf8.read bs).2) := by
  cases bs with
  | nil => rfl
  | cons lead bs =>
    rw [readChar, ofBytes, pull, Utf8.read]
    dsimp only
    cases Utf8.sequenceLength? lead with
    | none => rfl
    | some n => exact readSequence_ofBytes [lead] (n - 1) bs

theorem Undisturbed.readChar (h : s.Undisturbed) : s.readChar.1 = (Utf8.read s.bytes).1 ∧
    s.readChar.2.bytes = (Utf8.read s.bytes).2 ∧ s.readChar.2.Undisturbed := by
  obtain ⟨hr, hrest⟩ := h.alike_ofBytes.readChar
  rw [readChar_ofBytes] at hr hrest
  refine ⟨hr, ?_, hrest.left⟩
  rw [hrest.bytes, bytes_ofBytes]

/-- The results of reading a source to its end, character by character. -/
def characters (s : Source) : List (Except IoFault Char) :=
  match _h : s.readChar with
  | (.ok none, _) => []
  | (.ok (some c), rest) => .ok c :: characters rest
  | (.error f, rest) => .error f :: characters rest
termination_by s.size
decreasing_by
  all_goals
    have hlt := size_lt_of_readChar (s := s) (by rw [_h]; exact nofun)
    rwa [_h] at hlt

theorem characters_eq (s : Source) :
    s.characters = match s.readChar.1 with
      | .ok none => []
      | .ok (some c) => .ok c :: s.readChar.2.characters
      | .error f => .error f :: s.readChar.2.characters := by
  rw [characters]
  split <;> rename_i h <;> rw [h]

theorem Alike.characters (h : s.Alike t) : s.characters = t.characters := by
  induction hn : s.size using Nat.strongRecOn generalizing s t with
  | ind n ih =>
    obtain ⟨hr, hrest⟩ := h.readChar
    have hlt := size_lt_of_readChar (s := s)
    rw [characters_eq, characters_eq t, ← hr]
    rcases hs : s.readChar.1 with f | _ | c
    · rw [ih _ (hn ▸ hlt (by rw [hs]; exact nofun)) hrest rfl]
    · rfl
    · rw [ih _ (hn ▸ hlt (by rw [hs]; exact nofun)) hrest rfl]

theorem characters_ofBytes_append {behind : List UInt8} (h : Utf8.Fresh behind) (bs : List UInt8) :
    (ofBytes (bs ++ behind)).characters =
      (ofBytes bs).characters ++ (ofBytes behind).characters := by
  induction hn : bs.length using Nat.strongRecOn generalizing bs with
  | ind n ih =>
    -- one read takes the same from both sides, and leaves less of `bs`
    by_cases hbs : bs = []
    · rw [hbs, List.nil_append, characters_eq (ofBytes []), readChar_ofBytes]
      rfl
    · rw [characters_eq, characters_eq (ofBytes bs), readChar_ofBytes, readChar_ofBytes,
        Utf8.read_append hbs h]
      dsimp only
      rw [ih _ (hn ▸ Utf8.length_read_lt hbs) _ rfl]
      rcases Utf8.read_cases bs with ⟨hnil, -⟩ | ⟨c, hc, -⟩ | ⟨hf, -⟩
      · exact absurd hnil hbs
      · rw [hc]
        rfl
      · rw [hf]
        rfl

theorem characters_ofBytes_encode (cs : List Char) (behind : List UInt8) :
    (ofBytes (cs.flatMap Utf8.encode ++ behind)).characters =
      cs.map .ok ++ (ofBytes behind).characters := by
  induction cs with
  | nil => rfl
  | cons c cs ih =>
    rw [List.flatMap_cons, List.append_assoc, characters_eq, readChar_ofBytes,
      Utf8.read_encode_append]
    exact congrArg (.ok c :: ·) ih

theorem Undisturbed.characters_text {before behind : Source} {text : String} (h : s.Undisturbed)
    (hbefore : before.Undisturbed) (hbehind : behind.Undisturbed) (ht : text ≠ "")
    (hs : s.bytes = before.bytes ++ Utf8.encodeText text ++ behind.bytes) :
    s.characters = before.characters ++ text.toList.map .ok ++ behind.characters := by
  have hfresh : Utf8.Fresh (Utf8.encodeText text ++ behind.bytes) := by
    rcases hc : text.toList with _ | ⟨c, cs⟩
    · exact absurd (String.toList_eq_nil_iff.mp hc) ht
    · rw [Utf8.encodeText, hc, List.flatMap_cons, List.append_assoc]
      exact Utf8.fresh_encode_append c _
  rw [h.alike_ofBytes.characters, hbefore.alike_ofBytes.characters,
    hbehind.alike_ofBytes.characters, hs, List.append_assoc, characters_ofBytes_append hfresh,
    Utf8.encodeText, characters_ofBytes_encode, List.append_assoc]

/-- A read reports a character exactly if the bytes start with it, the end exactly if there are
none, and a malformed sequence otherwise. A text among other bytes is read unharmed, and what is
read around it is what the bytes before it and those behind it would give alone. -/
theorem readChar_exact (h : s.Undisturbed) :
    (∀ c, s.readChar.1 = .ok (some c) ↔ Utf8.encode c <+: s.bytes) ∧
    (∀ c, s.readChar.1 = .ok (some c) → s.bytes = Utf8.encode c ++ s.readChar.2.bytes) ∧
    (s.readChar.1 = .ok none ↔ s.bytes = []) ∧
    (s.bytes ≠ [] → (∀ c, ¬ Utf8.encode c <+: s.bytes) →
      s.readChar.1 = .error Utf8.malformed ∧ ∃ taken ≠ [], s.bytes = taken ++ s.readChar.2.bytes) ∧
    s.readChar.2.Undisturbed ∧
    ∀ (before behind : Source) (text : String), before.Undisturbed → behind.Undisturbed →
      text ≠ "" → s.bytes = before.bytes ++ Utf8.encodeText text ++ behind.bytes →
      s.characters = before.characters ++ text.toList.map .ok ++ behind.characters := by
  obtain ⟨hresult, hrest, hquiet⟩ := h.readChar
  rw [hresult, hrest]
  refine ⟨Utf8.read_eq_some_iff, fun c => Utf8.eq_append_of_read, Utf8.read_eq_none_iff,
    Utf8.read_malformed, hquiet, ?_⟩
  intro before behind text hbefore hbehind ht hs
  exact h.characters_text hbefore hbehind ht hs

/-- A cut sequence before a text, and a stray byte behind it, delivered in two chunks. -/
theorem readChar_exact_between_malformed :
    let s : Source := [.chunk [0xe9, 0xe9], .failure ⟨.interrupted, "interrupted"⟩,
      .chunk [0xa5, 0x82, 0x34, 0x80]]
    s.Undisturbed ∧ s.readChar.1 = .error Utf8.malformed ∧
      s.characters = [.error Utf8.malformed, .ok '饂', .ok '4', .error Utf8.malformed] := by
  intro s
  have h : s.Undisturbed := by
    intro f hf
    simp only [s, List.mem_cons, List.not_mem_nil, or_false, reduceCtorEq, false_or] at hf
    cases hf
    rfl
  have hone (b : UInt8) (hb : Utf8.read [b] = (.error Utf8.malformed, [])) :
      (ofBytes [b]).characters = [.error Utf8.malformed] := by
    rw [characters_eq, readChar_ofBytes, hb, characters_eq]
    rfl
  obtain ⟨-, -, -, -, -, htext⟩ := readChar_exact h
  refine ⟨h, rfl, ?_⟩
  rw [htext (.ofBytes [0xe9]) (.ofBytes [0x80]) "饂4" (.ofBytes _) (.ofBytes _) (by decide)
    (by decide), hone 0xe9 rfl, hone 0x80 rfl]
  rfl

end Source

end NumNum
