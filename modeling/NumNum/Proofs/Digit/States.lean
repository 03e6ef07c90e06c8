import Mathlib.Data.List.Induction
import NumNum.Proofs.Digit.Calls
import NumNum.Proofs.Digit.Cut

/-!
# What a decoder can be

However often a decoding is asked to go on, behind errors and behind the end, its decoder stands
behind two digits of a code at most, all of them above four, or in front of at least one digit of
an operand. So the number of a code never has more than three digits, no error is given without
reason, and the end of the items leaves nothing behind (`Decoding.decoder_wellFormed`).
-/

namespace NumNum

/-! ## Numbers of digits -/

/-- The number that decimal digits write, most significant first. -/
def decimal (ds : List (Fin 10)) : Nat :=
  ds.foldl (fun n d => n * 10 + d.val) 0

theorem decimal_append (ds : List (Fin 10)) (d : Fin 10) :
    decimal (ds ++ [d]) = decimal ds * 10 + d := by
  rw [decimal, List.foldl_append]
  rfl

theorem decimal_lt (ds : List (Fin 10)) : decimal ds < 10 ^ ds.length := by
  induction ds using List.reverseRecOn with
  | nil => decide
  | append_singleton ds d ih =>
    rw [decimal_append, List.length_append, List.length_singleton, Nat.pow_succ]
    omega

namespace Operator

theorem decimal_digits (op : Operator) : decimal op.digits = op.code := by
  cases op <;> rfl

theorem code_mod_ten_lt (op : Operator) : op.code % 10 < 5 := by
  cases op <;> decide

theorem ofCode?_eq_none_of_le {n : Nat} (h : 5 ≤ n % 10) : ofCode? n = none := by
  cases hop : ofCode? n with
  | none => rfl
  | some op =>
    have hlt := op.code_mod_ten_lt
    rw [code_of_ofCode? hop] at hlt
    omega

/-- Every code with fewer than two digits above four selects an operator. -/
theorem exists_ofCode? {lead : List (Fin 10)} (hlead : ∀ d ∈ lead, 5 ≤ d) (hlt : lead.length < 2)
    {d : Fin 10} (hd : d < 5) : ∃ op, ofCode? (decimal lead * 10 + d) = some op := by
  have hdigits : ∃ op ∈ all, op.digits = lead ++ [d] := by
    match lead with
    | [] => exact exists_digits_one d hd
    | [a] => exact exists_digits_two a d (hlead a List.mem_cons_self) hd
  obtain ⟨op, -, hop⟩ := hdigits
  exact ⟨op, by rw [← decimal_append, ← hop, decimal_digits, ofCode?_code]⟩

end Operator

/-! ## One digit -/

/-- An error is given for a reason: the code has three digits and no operator has it, or some of
the digits of the operand are missing. -/
def DecodeError.Justified : DecodeError → Prop
  | .unknownOperator code => 550 ≤ code ∧ code ≤ 999 ∧ Operator.ofCode? code = none
  | .truncatedOperator => True
  | .truncatedOperand operator missing => 1 ≤ missing ∧ missing ≤ operator.operandWidth

namespace Decoder

/-- What a decoder can be between two digits: behind two digits of a code at most, which are above
four and write its number, or in front of some of the digits of an operand. -/
inductive WellFormed : Decoder → Prop where
  | code {lead : List (Fin 10)} (hlead : ∀ d ∈ lead, 5 ≤ d) (hle : lead.length ≤ 2) :
      WellFormed (.code (decimal lead) lead.length)
  | operand (operator : Operator) (value : UInt32) {missing : Nat} (hpos : 1 ≤ missing)
      (hle : missing ≤ operator.operandWidth) : WellFormed (.operand operator value missing)

variable {decoder : Decoder} {number digits : Nat}

theorem wellFormed_start : start.WellFormed := by
  have hnone : ∀ d ∈ ([] : List (Fin 10)), 5 ≤ d := nofun
  exact .code hnone (by decide)

theorem wellFormed_select (operator : Operator) : (select operator).2.WellFormed := by
  rw [select]
  by_cases hw : operator.operandWidth = 0
  · rw [if_pos hw]
    exact wellFormed_start
  · rw [if_neg hw]
    exact .operand operator 0 (Nat.pos_of_ne_zero hw) (Nat.le_refl _)

theorem WellFormed.number_le (h : (Decoder.code number digits).WellFormed) : number ≤ 99 := by
  cases h with
  | @code lead hlead hle =>
    have hpow : 10 ^ lead.length ≤ 10 ^ 2 := Nat.pow_le_pow_right (by decide) hle
    have hlt := decimal_lt lead
    omega

theorem WellFormed.digits_le (h : (Decoder.code number digits).WellFormed) : digits ≤ 2 := by
  cases h with
  | code hlead hle => exact hle

theorem WellFormed.lead (h : (Decoder.code number digits).WellFormed) (hlt : digits < 2)
    {d : Fin 10} (hd : 5 ≤ d) : (Decoder.code (number * 10 + d) (digits + 1)).WellFormed := by
  cases h with
  | @code lead hlead hle =>
    have hmore : ∀ a ∈ lead ++ [d], 5 ≤ a :=
      List.forall_mem_append.mpr ⟨hlead, List.forall_mem_singleton.mpr hd⟩
    have hlen : (lead ++ [d]).length = lead.length + 1 := List.length_append
    have hwf := WellFormed.code hmore (by omega)
    rwa [decimal_append, hlen] at hwf

/-- A digit that neither leads on nor selects an operator stands behind two digits above four. -/
theorem WellFormed.justified_of_unknown (h : (Decoder.code number digits).WellFormed) {d : Fin 10}
    (hd : digits < 2 → d < 5) (hnone : Operator.ofCode? (number * 10 + d) = none) :
    (DecodeError.unknownOperator (number * 10 + d)).Justified := by
  have hle := h.number_le
  cases h with
  | @code lead hlead hlen =>
    have hfull : ¬ lead.length < 2 := by
      intro hlt
      obtain ⟨op, hop⟩ := Operator.exists_ofCode? hlead hlt (hd hlt)
      rw [hop] at hnone
      cases hnone
    match lead with
    | [] | [_] => simp at hfull
    | [a, b] =>
      have ha : 5 ≤ a.val := hlead a (by simp)
      have hb : 5 ≤ b.val := hlead b (by simp)
      have hnumber : decimal [a, b] = (0 * 10 + a) * 10 + b := rfl
      exact ⟨by omega, by omega, hnone⟩

/-- A digit has been taken, or it has been refused for a reason, and the decoder is well-formed. -/
inductive Fed : Except DecodeError (Option Instruction) × Decoder → Prop where
  | taken {instruction : Option Instruction} {next : Decoder} (h : next.WellFormed) :
      Fed (.ok instruction, next)
  | refused {e : DecodeError} {next : Decoder} (h : next.WellFormed) (he : e.Justified) :
      Fed (.error e, next)

theorem WellFormed.feed (h : decoder.WellFormed) (d : Fin 10) : Fed (decoder.feed d) := by
  cases decoder with
  | code number digits =>
    rw [Decoder.feed]
    dsimp only
    by_cases hd : 5 ≤ d.val
    · rw [if_pos hd]
      by_cases hfull : digits = longestLead
      · rw [if_pos hfull]
        have hnone : Operator.ofCode? (number * 10 + d) = none :=
          Operator.ofCode?_eq_none_of_le (by omega)
        exact .refused h (h.justified_of_unknown (fun hlt => absurd hfull (Nat.ne_of_lt hlt)) hnone)
      · rw [if_neg hfull]
        exact .taken (h.lead (Nat.lt_of_le_of_ne h.digits_le hfull) hd)
    · rw [if_neg hd]
      cases hop : Operator.ofCode? (number * 10 + d) with
      | none => exact .refused h (h.justified_of_unknown (fun _ => Nat.lt_of_not_le hd) hop)
      | some operator => exact .taken (wellFormed_select operator)
  | operand operator value missing =>
    rw [Decoder.feed]
    cases h with
    | operand _ _ hpos hle =>
      by_cases hmore : 1 < missing
      · rw [if_pos hmore]
        exact .taken (.operand operator _ (by omega) (by omega))
      · rw [if_neg hmore]
        exact .taken wellFormed_start

theorem WellFormed.justified_of_truncation (h : decoder.WellFormed) {e : DecodeError}
    (he : decoder.truncation? = some e) : e.Justified := by
  cases h with
  | @code lead hlead hle =>
    rw [truncation?] at he
    by_cases hempty : lead.length = 0
    · rw [if_pos hempty] at he
      cases he
    · rw [if_neg hempty] at he
      cases he
      trivial
  | operand operator value hpos hle =>
    cases he
    exact ⟨hpos, hle⟩

/-- The number that a digit leads to is the one that words come to. -/
theorem WellFormed.toNat_word (h : (Decoder.code number digits).WellFormed) {digit : Nat}
    (hd : digit < 10) :
    (UInt32.ofNat number * 10 + UInt32.ofNat digit).toNat = number * 10 + digit := by
  have hle := h.number_le
  simp only [UInt32.toNat_add, UInt32.toNat_mul, UInt32.toNat_ofNat', UInt32.reduceToNat]
  omega

end Decoder

/-! ## Calls -/

namespace Decoding

/-- The decodings that a call visits: the one that it is made on, and those behind the digits that
complete nothing. -/
inductive Visits {σ : Type} [DigitSupply σ] : Decoding σ → Decoding σ → Prop where
  | here (d : Decoding σ) : Visits d d
  | digit {s rest : σ} {digit : Nat} {decoder decoder' : Decoder} {d : Decoding σ}
      (hs : DigitSupply.next? s = some (.ok digit, rest))
      (hf : decoder.feed digit = (.ok none, decoder')) (h : Visits ⟨decoder', rest⟩ d) :
      Visits ⟨decoder, s⟩ d

section

variable {σ : Type} [DigitSupply σ] {d d' d'' : Decoding σ}

/-- A call has the result that it would have from any decoding that it visits. -/
theorem Visits.next?_eq (h : Visits d d') : d.next? = d'.next? := by
  induction h with
  | here => rfl
  | digit hs hf _ ih =>
    rw [next?_of_digit hs, hf]
    exact ih

theorem Visits.trans (h : Visits d d') (h' : Visits d' d'') : Visits d d'' := by
  induction h with
  | here => exact h'
  | digit hs hf _ ih => exact .digit hs hf (ih h')

theorem Visits.exists_after (h : Visits d d') {n : Nat} (h' : Visits (after n d') d'') :
    ∃ m, Visits (after m d) d'' := by
  cases n with
  | zero => exact ⟨0, h.trans h'⟩
  | succ n =>
    cases hn : d'.next? with
    | none =>
      rw [after_of_none hn] at h'
      exact ⟨0, h.trans h'⟩
    | some r =>
      rw [after_of_some hn] at h'
      refine ⟨n + 1, ?_⟩
      rwa [after_of_some (h.next?_eq.trans hn)]

end

variable {d d' : Decoding (List (Except IoFault Nat))}

/-- Some call comes to every digit, whatever the items ahead of it are. -/
theorem exists_visits (before : List (Except IoFault Nat)) (digit : Nat)
    (behind : List (Except IoFault Nat)) (decoder : Decoder) :
    ∃ n d, Visits (after n ⟨decoder, before ++ .ok digit :: behind⟩) d ∧
      d.supply = .ok digit :: behind := by
  induction before generalizing decoder with
  | nil => exact ⟨0, _, .here _, rfl⟩
  | cons item before ih =>
    have hcall : ∀ {r : Except Error Instruction} {decoder' : Decoder},
        next? ⟨decoder, (item :: before) ++ .ok digit :: behind⟩ =
          some (r, ⟨decoder', before ++ .ok digit :: behind⟩) →
        ∃ n d, Visits (after n ⟨decoder, (item :: before) ++ .ok digit :: behind⟩) d ∧
          d.supply = .ok digit :: behind := by
      intro r decoder' hn
      obtain ⟨n, d, hv, hd⟩ := ih decoder'
      exact ⟨n + 1, d, by rwa [after_of_some hn], hd⟩
    cases item with
    | error f => exact hcall (next?_of_fault rfl)
    | ok first =>
      have hn : next? ⟨decoder, (.ok first :: before) ++ .ok digit :: behind⟩ = _ :=
        next?_of_digit rfl
      rcases hf : decoder.feed first with ⟨e | _ | i, decoder'⟩ <;> rw [hf] at hn
      · exact hcall hn
      · obtain ⟨n, d, hv, hd⟩ := ih decoder'
        have hfirst : Visits ⟨decoder, (.ok first :: before) ++ .ok digit :: behind⟩
            ⟨decoder', before ++ .ok digit :: behind⟩ := .digit (by rfl) hf (.here _)
        obtain ⟨m, hm⟩ := hfirst.exists_after hv
        exact ⟨m, d, hm, hd⟩
      · exact hcall hn

/-! ## What calls keep -/

/-- The decoder is well-formed, and there are only decimal digits to come. -/
structure Sound (d : Decoding (List (Except IoFault Nat))) : Prop where
  decoder : d.decoder.WellFormed
  digits : ∀ digit, .ok digit ∈ d.supply → digit < 10

theorem Sound.item {decoder : Decoder} {items rest : List (Except IoFault Nat)}
    {item : Except IoFault Nat} (h : Sound ⟨decoder, items⟩)
    (hs : DigitSupply.next? items = some (item, rest)) :
    Sound ⟨decoder, rest⟩ ∧ ∀ digit, item = .ok digit → digit < 10 := by
  cases items with
  | nil => cases hs
  | cons first items =>
    cases hs
    refine ⟨⟨h.decoder, fun digit hd => h.digits digit (List.mem_cons_of_mem _ hd)⟩, ?_⟩
    rintro digit rfl
    exact h.digits digit List.mem_cons_self

theorem Sound.digit {decoder decoder' : Decoder} {items rest : List (Except IoFault Nat)}
    {digit : Nat} {r : Except DecodeError (Option Instruction)} (h : Sound ⟨decoder, items⟩)
    (hs : DigitSupply.next? items = some (.ok digit, rest))
    (hf : decoder.feed digit = (r, decoder')) :
    Sound ⟨decoder', rest⟩ ∧ ∀ e, r = .error e → e.Justified := by
  obtain ⟨hrest, hdigit⟩ := h.item hs
  have hfed : Decoder.Fed (decoder.feed digit) := h.decoder.feed ⟨digit, hdigit digit rfl⟩
  rw [hf] at hfed
  cases hfed with
  | taken hdecoder => exact ⟨⟨hdecoder, hrest.digits⟩, by rintro e ⟨⟩⟩
  | refused hdecoder he =>
    refine ⟨⟨hdecoder, hrest.digits⟩, ?_⟩
    rintro _ ⟨⟩
    exact he

theorem Sound.visits (h : d.Sound) (hv : Visits d d') : d'.Sound := by
  induction hv with
  | here => exact h
  | digit hs hf _ ih => exact ih (h.digit hs hf).1

/-- What a call keeps, and what its error tells. -/
theorem Sound.call (h : d.Sound) {r : Except Error Instruction} (hn : d.next? = some (r, d')) :
    d'.Sound ∧ ∀ e, r = .error (.decode e) →
      e.Justified ∧ (e.Truncates → d'.decoder = .start) := by
  fun_induction next? d with
  | case1 => cases hn
  | case2 d hs e he =>
    cases hn
    refine ⟨⟨Decoder.wellFormed_start, h.digits⟩, ?_⟩
    rintro _ ⟨⟩
    exact ⟨h.decoder.justified_of_truncation he, fun _ => rfl⟩
  | case3 d f rest hs =>
    cases hn
    exact ⟨(h.item hs).1, by rintro e ⟨⟩⟩
  | case4 d digit rest hs e decoder hf =>
    cases hn
    obtain ⟨hd, he⟩ := h.digit hs hf
    refine ⟨hd, ?_⟩
    rintro _ ⟨⟩
    exact ⟨he e rfl, fun ht => absurd ht (Decoder.not_truncates_of_feed hf)⟩
  | case5 d digit rest hs i decoder hf =>
    cases hn
    exact ⟨(h.digit hs hf).1, by rintro e ⟨⟩⟩
  | case6 d digit rest hs decoder hf ih => exact ih (h.digit hs hf).1 hn

theorem Sound.after (h : d.Sound) (n : Nat) : (Decoding.after n d).Sound := by
  induction n generalizing d with
  | zero => exact h
  | succ n ih =>
    cases hn : d.next? with
    | none => rwa [after_of_none hn]
    | some r =>
      rw [after_of_some hn]
      exact ih (h.call hn).1

/-- However many calls there were, also behind errors and behind the end, the decoder is
well-formed, and it is so ahead of every digit that the next call takes: the number that this
digit leads to has three digits at most, and words come to the same. An error is given for a
reason, and one for the end leaves nothing behind. No digit is left out: some call comes to it. -/
theorem decoder_wellFormed {items : List (Except IoFault Nat)}
    (h : ∀ digit, .ok digit ∈ items → digit < 10) :
    let d : Decoding (List (Except IoFault Nat)) := { supply := items }
    (∀ n, (after n d).decoder.WellFormed ∧
      (∀ d', Visits (after n d) d' → d'.decoder.WellFormed ∧
        ∀ number digits digit rest, d'.decoder = .code number digits →
          d'.supply = .ok digit :: rest → number * 10 + digit ≤ 999 ∧
            (UInt32.ofNat number * 10 + UInt32.ofNat digit).toNat = number * 10 + digit) ∧
      ∀ e d', (after n d).next? = some (.error (.decode e), d') →
        e.Justified ∧ (e.Truncates → d'.decoder = .start)) ∧
    ∀ before digit behind, items = before ++ .ok digit :: behind →
      ∃ n d', Visits (after n d) d' ∧ d'.supply = .ok digit :: behind := by
  intro d
  have hd : d.Sound := ⟨Decoder.wellFormed_start, h⟩
  refine ⟨fun n => ⟨(hd.after n).decoder, fun d' hv => ?_, fun e d' hn => ?_⟩, ?_⟩
  · have hd' := (hd.after n).visits hv
    refine ⟨hd'.decoder, fun number digits digit rest hcode hsupply => ?_⟩
    have hwf := hd'.decoder
    rw [hcode] at hwf
    have hdigit : digit < 10 := hd'.digits digit (hsupply ▸ List.mem_cons_self)
    have hle := hwf.number_le
    exact ⟨by omega, hwf.toNat_word hdigit⟩
  · exact ((hd.after n).call hn).2 e rfl
  · rintro before digit behind rfl
    exact exists_visits before digit behind .start

/-- The two digits ahead of the one that no code has are kept, also behind a failure, and the next
digit completes a code with them. Then the end cuts an operand off behind its first digit. -/
theorem decoder_wellFormed_kept :
    let f : IoFault := ⟨.interrupted, "interrupted"⟩
    let rest : List (Except IoFault Nat) := [.ok 0, .ok 0, .ok 1]
    let items : List (Except IoFault Nat) := .ok 5 :: .ok 5 :: .ok 9 :: .error f :: rest
    let d : Decoding (List (Except IoFault Nat)) := { supply := items }
    let unknown : DecodeError := .unknownOperator 559
    let cut : DecodeError := .truncatedOperand .constant8Bit 3
    (∀ digit, .ok digit ∈ items → digit < 10) ∧
      take 5 d = [some (.error (.decode unknown)), some (.error (.io f)),
        some (.ok { operator := .greaterThan }), some (.error (.decode cut)), none] ∧
      (after 2 d = ⟨.code 55 2, rest⟩ ∧ (Decoder.code 55 2).WellFormed ∧ 55 * 10 + 0 ≤ 999) ∧
      unknown.Justified ∧ cut.Justified ∧ (after 4 d).decoder = .start ∧
      ∃ n d', Visits (after n d) d' ∧ d'.supply = [.ok 1] := by
  intro f rest items d unknown cut
  have h : ∀ digit, .ok digit ∈ items → digit < 10 := by simp [items, rest]
  have hresults : take 5 d = [some (.error (.decode unknown)), some (.error (.io f)),
      some (.ok { operator := .greaterThan }), some (.error (.decode cut)), none] := by
    with_unfolding_all rfl
  have hunknown : (after 0 d).next? =
      some (.error (.decode unknown), ⟨.code 55 2, .error f :: rest⟩) := by
    with_unfolding_all rfl
  have hkept : after 2 d = ⟨.code 55 2, rest⟩ := by with_unfolding_all rfl
  have hcut : (after 3 d).next? = some (.error (.decode cut), after 4 d) := by
    with_unfolding_all rfl
  obtain ⟨hcalls, hdigits⟩ := decoder_wellFormed h
  obtain ⟨hwf, hvisited, -⟩ := hcalls 2
  have hnumber := (hvisited _ (.here _)).2 55 2 0 [.ok 0, .ok 1] (by rw [hkept]) (by rw [hkept])
  rw [hkept] at hwf
  obtain ⟨hjustified, hstart⟩ := (hcalls 3).2.2 cut _ hcut
  exact ⟨h, hresults, ⟨hkept, hwf, hnumber.1⟩, ((hcalls 0).2.2 unknown _ hunknown).1, hjustified,
    hstart trivial, hdigits (.ok 5 :: .ok 5 :: .ok 9 :: .error f :: [.ok 0, .ok 0]) 1 [] rfl⟩

end Decoding

end NumNum
