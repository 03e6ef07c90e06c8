import NumNum.Proofs.Digit.Faults
import NumNum.Text.Line

/-!
# How bytes are delivered

A source whose deliveries are chunks and interruptions shows a reader its bytes and nothing
of where the chunks end. Two such sources of the same bytes are `Source.Alike`: a character
or a line that is read from one is read from the other, and what is left is alike again.
-/

namespace NumNum

namespace Source

/-- Nothing but interruptions stands between the bytes of the source. -/
def Undisturbed (s : Source) : Prop :=
  ∀ f, .failure f ∈ s → f.kind = .interrupted

/-- Both sources bring the same bytes, whatever their chunks and interruptions are. -/
structure Alike (s t : Source) : Prop where
  left : s.Undisturbed
  right : t.Undisturbed
  bytes : s.bytes = t.bytes

/-- A read from either source has the same result and leaves sources that are alike. -/
def AlikeReads {α : Type} (r r' : α × Source) : Prop :=
  r.1 = r'.1 ∧ r.2.Alike r'.2

theorem Undisturbed.ofBytes (bs : List UInt8) : (ofBytes bs).Undisturbed := by
  intro f hf
  cases List.mem_singleton.mp hf

theorem Undisturbed.alike_ofBytes {s : Source} (h : s.Undisturbed) : s.Alike (.ofBytes s.bytes) :=
  ⟨h, .ofBytes _, (bytes_ofBytes _).symm⟩

theorem Undisturbed.of_cons {d : Delivery} {s : Source} (h : Undisturbed (d :: s)) :
    s.Undisturbed :=
  fun f hf => h f (List.mem_cons_of_mem _ hf)

/-! ## Pulls -/

theorem Undisturbed.rest {s rest : Source} {b : UInt8} (h : s.Undisturbed)
    (hp : s.pull = .byte b rest) : rest.Undisturbed := by
  fun_induction pull s with
  | case1 => cases hp
  | case2 _ ih => exact ih h.of_cons hp
  | case3 =>
    cases hp
    intro f hf
    rcases List.mem_cons.mp hf with hf | hf
    · cases hf
    · exact h.of_cons f hf
  | case4 _ _ _ ih => exact ih h.of_cons hp
  | case5 => cases hp

theorem Undisturbed.pull_ne_fault {s rest : Source} {f : IoFault} (h : s.Undisturbed) :
    s.pull ≠ .fault f rest := by
  fun_induction pull s with
  | case1 =>
    intro hp
    cases hp
  | case2 _ ih => exact ih h.of_cons
  | case3 =>
    intro hp
    cases hp
  | case4 _ _ _ ih => exact ih h.of_cons
  | case5 f rest hk => exact absurd (h f List.mem_cons_self) hk

variable {s t : Source}

/-- What a reader meets next is the same byte, or the end of both. -/
theorem Alike.pull (h : s.Alike t) :
    (s.pull = .finished ∧ t.pull = .finished) ∨
      ∃ b s' t', s.pull = .byte b s' ∧ t.pull = .byte b t' ∧ s'.Alike t' := by
  have hb := h.bytes
  cases hs : s.pull with
  | fault f rest => exact absurd hs h.left.pull_ne_fault
  | finished =>
    cases ht : t.pull with
    | fault f rest => exact absurd ht h.right.pull_ne_fault
    | finished => exact .inl ⟨rfl, rfl⟩
    | byte b rest =>
      rw [bytes_of_pull_finished hs, bytes_of_pull_byte ht] at hb
      cases hb
  | byte b s' =>
    rw [bytes_of_pull_byte hs] at hb
    cases ht : t.pull with
    | fault f rest => exact absurd ht h.right.pull_ne_fault
    | finished =>
      rw [bytes_of_pull_finished ht] at hb
      cases hb
    | byte b' t' =>
      rw [bytes_of_pull_byte ht] at hb
      obtain ⟨rfl, hrest⟩ := List.cons.inj hb
      exact .inr ⟨b, s', t', rfl, rfl, h.left.rest hs, h.right.rest ht, hrest⟩

/-! ## Characters and lines -/

theorem Alike.readSequence (h : s.Alike t) (taken : List UInt8) (missing : Nat) :
    AlikeReads (readSequence taken missing s) (readSequence taken missing t) := by
  induction missing generalizing taken s t with
  | zero =>
    rw [Source.readSequence, Source.readSequence]
    cases Utf8.decode? taken with
    | none => exact ⟨rfl, h⟩
    | some c => exact ⟨rfl, h⟩
  | succ missing ih =>
    rw [Source.readSequence, Source.readSequence]
    rcases h.pull with ⟨hs, ht⟩ | ⟨b, s', t', hs, ht, h'⟩
    · rw [hs, ht]
      exact ⟨rfl, h⟩
    · rw [hs, ht]
      dsimp only
      by_cases hb : Utf8.isContinuation b = true
      · rw [if_pos hb, if_pos hb]
        exact ih h' _
      · rw [if_neg hb, if_neg hb]
        exact ⟨rfl, h⟩

theorem Alike.readChar (h : s.Alike t) : AlikeReads s.readChar t.readChar := by
  rw [Source.readChar, Source.readChar]
  rcases h.pull with ⟨hs, ht⟩ | ⟨b, s', t', hs, ht, h'⟩
  · rw [hs, ht]
    exact ⟨rfl, h⟩
  · rw [hs, ht]
    dsimp only
    cases Utf8.sequenceLength? b with
    | none => exact ⟨rfl, h'⟩
    | some n => exact h'.readSequence _ _

theorem takeLine_eq (taken : List UInt8) (s : Source) :
    takeLine taken s =
      match s.pull with
      | .finished => (.ok taken.reverse, s)
      | .fault f rest => (.error f, rest)
      | .byte b rest =>
        if b = 10 then (.ok (b :: taken).reverse, rest) else takeLine (b :: taken) rest := by
  rw [takeLine]
  split <;> rename_i h <;> rw [h]

theorem Alike.takeLine (h : s.Alike t) (taken : List UInt8) :
    AlikeReads (takeLine taken s) (takeLine taken t) := by
  induction hn : s.size using Nat.strongRecOn generalizing taken s t with
  | ind n ih =>
    rw [takeLine_eq, takeLine_eq taken t]
    rcases h.pull with ⟨hs, ht⟩ | ⟨b, s', t', hs, ht, h'⟩
    · rw [hs, ht]
      exact ⟨rfl, h⟩
    · rw [hs, ht]
      dsimp only
      by_cases hb : b = 10
      · rw [if_pos hb, if_pos hb]
        exact ⟨rfl, h'⟩
      · rw [if_neg hb, if_neg hb]
        exact ih _ (hn ▸ size_lt_of_pull_byte hs) h' _ rfl

theorem Alike.readLine (h : s.Alike t) : AlikeReads s.readLine t.readLine := by
  obtain ⟨hr, hl⟩ := h.takeLine []
  rw [Source.readLine, Source.readLine]
  rcases hs : Source.takeLine [] s with ⟨r, s'⟩
  rcases ht : Source.takeLine [] t with ⟨r', t'⟩
  rw [hs, ht] at hr hl
  cases hr
  cases r with
  | error f => exact ⟨rfl, hl⟩
  | ok bytes =>
    dsimp only
    cases Utf8.decodeText? bytes with
    | none => exact ⟨rfl, hl⟩
    | some line =>
      dsimp only
      by_cases hb : bytes = []
      · rw [if_pos hb, if_pos hb]
        exact ⟨rfl, hl⟩
      · rw [if_neg hb, if_neg hb]
        exact ⟨rfl, hl⟩

/-! ## Digits -/

theorem Undisturbed.quiet (h : s.Undisturbed) : s.Quiet :=
  fun f hf hs => hs.1 (h f hf)

theorem Alike.items_eq (h : s.Alike t) : DigitSupply.items s = DigitSupply.items t := by
  rw [Source.items_eq, Source.items_eq, h.left.quiet.supplied, h.right.quiet.supplied, h.bytes]

end Source

namespace Decoding

/-- Attempts at a supply see its items and nothing else. -/
theorem take_itemized {σ : Type} [DigitSupply σ] (n : Nat) (d : Decoding σ) :
    take n d.itemized = take n d := by
  induction n generalizing d with
  | zero => rfl
  | succ n ih =>
    rw [take, take, next?_itemized]
    rcases d.next? with _ | ⟨r, d'⟩
    · exact congrArg (none :: ·) (ih d)
    · exact congrArg (some r :: ·) (ih d')

theorem take_of_alike {s t : Source} (h : s.Alike t) (n : Nat) :
    take n { supply := s } = take n { supply := t } := by
  rw [← take_itemized, itemized, h.items_eq, ← take_itemized n ⟨.start, t⟩]
  rfl

end Decoding

theorem Program.ofSource_of_alike {s t : Source} (h : s.Alike t) : ofSource s = ofSource t := by
  rw [ofSource, Decoding.program_items, h.items_eq, ← Decoding.program_items]
  rfl

end NumNum
