import NumNum.Proofs.Digit.Writing

/-!
# Two attempts at writing

What an effect does to a sink without a limit tells what it does where a limit is set: the same
below the limit, and beyond it nothing but a report. Effects of this kind can be put one behind
the other (`Writer.Cuts.bind`).
-/

namespace NumNum

/-! ## Bytes behind what was written -/

namespace Sink

/-- The sink with bytes behind what was written. -/
def wrote (bs : List UInt8) (s : Sink) : Sink :=
  { s with written := s.written ++ bs }

/-- The sink that takes bytes up to a limit. -/
def within (limit : Nat) (s : Sink) : Sink :=
  { s with limit := some limit }

variable {s : Sink} {limit : Nat}

theorem wrote_nil (s : Sink) : s.wrote [] = s := by
  simp [wrote]

theorem wrote_wrote (bs cs : List UInt8) (s : Sink) :
    (s.wrote bs).wrote cs = s.wrote (bs ++ cs) := by
  rw [wrote, wrote, wrote, ← append_append]

theorem toList_wrote (bs : List UInt8) (s : Sink) :
    (s.wrote bs).written.toList = s.written.toList ++ bs :=
  Array.toList_appendList

theorem size_wrote (bs : List UInt8) (s : Sink) :
    (s.wrote bs).written.size = s.written.size + bs.length := by
  rw [← Array.length_toList, toList_wrote, List.length_append, Array.length_toList]

/-- A write is the same below the limit, and beyond it only the bytes up to the limit land. -/
theorem write_within (hs : s.written.size ≤ limit) (bs : List UInt8) :
    (s.wrote bs).written.size ≤ limit ∧
        (s.within limit).write bs = (.ok (), (s.wrote bs).within limit) ∨
      limit < (s.wrote bs).written.size ∧ ∃ s', (s.within limit).write bs = (.error s.full, s') ∧
        s'.written.toList = (s.wrote bs).written.toList.take limit := by
  have hroom : (s.within limit).room bs.length = min bs.length (limit - s.written.size) := rfl
  rw [size_wrote, toList_wrote, write]
  by_cases h : s.written.size + bs.length ≤ limit
  · rw [if_pos (by omega)]
    exact .inl ⟨h, rfl⟩
  · rw [if_neg (by omega)]
    refine .inr ⟨by omega, _, rfl, ?_⟩
    have htake : limit = s.written.toList.length + (limit - s.written.size) := by
      rw [Array.length_toList]
      omega
    have hmin : min bs.length (limit - s.written.size) = limit - s.written.size := by omega
    rw [hroom, hmin, Array.toList_appendList, htake, List.take_length_add_append]
    rw [Array.length_toList, Nat.add_sub_cancel_left]
    rfl

end Sink

/-! ## Effects on states that keep a sink -/

/-- States that keep a sink. -/
class Writer (σ : Type) where
  sink : σ → Sink
  withSink : Sink → σ → σ
  sink_withSink : ∀ (s : Sink) (w : σ), sink (withSink s w) = s

namespace Writer

variable {ρ σ : Type} [Writer σ]

/-- The state whose sink takes bytes up to a limit. -/
def within (limit : Nat) (s : σ) : σ := withSink ((sink s).within limit) s

/-- Two attempts that started with a sink, which had a limit for the second one: this one did the
same, or it stopped at the limit. -/
inductive Cut (start : Sink) (limit : Nat) (full : ρ) : ρ × σ → ρ × σ → Prop where
  | fits {r : ρ} {s : σ} (out : List UInt8) (hs : sink s = start.wrote out)
      (h : (sink s).written.size ≤ limit) : Cut start limit full (r, s) (r, within limit s)
  | overflows {r : ρ} {s s' : σ} (out : List UInt8) (hs : sink s = start.wrote out)
      (h : limit < (sink s).written.size)
      (hs' : (sink s').written.toList = (sink s).written.toList.take limit) :
      Cut start limit full (r, s) (full, s')

/-- What an effect on a state does is cut at every limit. -/
def Cuts (full : IoFault → ρ) (f : σ → ρ × σ) : Prop :=
  ∀ (s : σ) (limit : Nat), (sink s).limit = none → (sink s).written.size ≤ limit →
    Cut (sink s) limit (full (sink s).full) (f s) (f (within limit s))

variable {full : IoFault → ρ} {f : σ → ρ × σ}

theorem Cut.exists_wrote {start : Sink} {limit : Nat} {failed : ρ} {a b : ρ × σ}
    (h : Cut start limit failed a b) : ∃ out, sink a.2 = start.wrote out := by
  cases h with
  | fits out hs _ => exact ⟨out, hs⟩
  | overflows out hs _ _ => exact ⟨out, hs⟩

theorem Cuts.exists_wrote (h : Cuts full f) {s : σ} (hs : (sink s).limit = none) :
    ∃ out, sink (f s).2 = (sink s).wrote out :=
  (h s _ hs (Nat.le_refl _)).exists_wrote

/-- Effects that leave the sink alone. -/
theorem Cuts.of_sink_eq (h : ∀ s, sink (f s).2 = sink s)
    (hf : ∀ s limit, f (within limit s) = ((f s).1, within limit (f s).2)) : Cuts full f := by
  intro s limit _ hs
  rw [hf]
  exact .fits [] ((h s).trans (Sink.wrote_nil _).symm) (by rwa [h])

theorem Cuts.pure (r : ρ) : Cuts full (fun s : σ => (r, s)) :=
  .of_sink_eq (fun _ => rfl) fun _ _ => rfl

theorem Cuts.congr {g : σ → ρ × σ} (h : Cuts full g) (hf : ∀ s, f s = g s) : Cuts full f :=
  funext hf ▸ h

/-- Effects one after another, of which the second one passes on that the sink was full. -/
theorem Cuts.bind {ρ' : Type} (full' : IoFault → ρ') (k : ρ → σ → ρ' × σ) (hf : Cuts full f)
    (hk : ∀ r, Cuts full' (k r)) (hfull : ∀ e s, k (full e) s = (full' e, s)) :
    Cuts full' fun s => k (f s).1 (f s).2 := by
  intro s limit hnone hs
  have h := hf s limit hnone hs
  dsimp only
  generalize f s = a at h ⊢
  generalize f (within limit s) = b at h ⊢
  cases h with
  | @fits r s₁ out hs₁ hle =>
    have h₁ := hk r s₁ limit (by rw [hs₁]; exact hnone) hle
    dsimp only
    generalize k r s₁ = a at h₁ ⊢
    generalize k r (within limit s₁) = b at h₁ ⊢
    rw [hs₁] at h₁
    cases h₁ with
    | fits out' hs' h' => exact .fits (out ++ out') (by rw [hs', Sink.wrote_wrote]) h'
    | overflows out' hs' h' ht =>
      exact .overflows (out ++ out') (by rw [hs', Sink.wrote_wrote]) h' ht
  | @overflows r s₁ s₁' out hs₁ hlt ht =>
    -- whatever the unlimited attempt goes on to write lands behind the limit
    obtain ⟨out', h'⟩ := (hk r).exists_wrote (s := s₁) (by rw [hs₁]; exact hnone)
    dsimp only
    rw [hfull]
    refine .overflows (out ++ out') ?_ ?_ ?_
    · rw [h', hs₁, Sink.wrote_wrote]
    · rw [h', Sink.size_wrote]
      omega
    · rw [h', Sink.toList_wrote, ht, List.take_append_of_le_length]
      rw [Array.length_toList]
      exact Nat.le_of_lt hlt

end Writer

end NumNum
