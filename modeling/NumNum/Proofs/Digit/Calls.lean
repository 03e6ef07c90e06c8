import NumNum.Proofs.Text.Characters

/-!
# One call after the other

A decoding that is asked for one result at a time reads up to the digit that completes the
result, and leaves what stands behind this digit to the next call. There are no more calls with
a result than there are digits, but for one at the end, and behind them every call finds nothing
(`Decoding.next?_reads_no_further`).
-/

namespace NumNum

/-! ## The bytes ahead of a digit -/

namespace Source

variable {s : Source}

/-- What is gone when a character has been read are the bytes of this character, or bytes
without a digit. -/
theorem Undisturbed.exists_taken (h : s.Undisturbed) :
    s.readChar.2.Undisturbed ∧ ∃ taken, s.bytes = taken ++ s.readChar.2.bytes ∧
      DigitSupply.ofDigits (digitsOf taken) = scanned s.readChar.1 ∧
      ∀ c, s.readChar.1 = .ok (some c) → taken = Utf8.encode c := by
  obtain ⟨hr, hrest, hu⟩ := h.readChar
  have hsplit : ∃ taken, s.bytes = taken ++ s.readChar.2.bytes ∧
      ∀ c, s.readChar.1 = .ok (some c) → taken = Utf8.encode c := by
    rw [hr, hrest]
    rcases Utf8.read_cases s.bytes with ⟨hb, hend⟩ | ⟨c, hc, hb⟩ | ⟨hf, taken, -, hb⟩
    · rw [hb]
      exact ⟨[], rfl, nofun⟩
    · rw [hc]
      refine ⟨_, hb, fun c' hc' => ?_⟩
      cases hc'
      rfl
    · rw [hf]
      exact ⟨taken, hb, nofun⟩
  obtain ⟨taken, hb, hc⟩ := hsplit
  have hs := s.supplied_readChar
  rw [h.quiet.supplied, hu.quiet.supplied, hb, digitsOf_append, ofDigits_append] at hs
  exact ⟨hu, taken, hb, List.append_cancel_right hs, hc⟩

/-- What the search for a digit comes to: the first one among the bytes and the source behind
it, or nothing if there is none. -/
inductive Finds (s : Source) : Option (Except IoFault Nat × Source) → Prop
  | nothing (h : digitsOf s.bytes = []) : Finds s none
  | digit {skipped : List UInt8} {b : UInt8} {d : Fin 10} {rest : Source}
      (hbytes : s.bytes = skipped ++ b :: rest.bytes) (hskipped : digitsOf skipped = [])
      (hb : digit? b = some d) (hrest : rest.Undisturbed) : Finds s (some (.ok d.val, rest))

theorem Finds.behind {t : Source} {taken : List UInt8} {r : Option (Except IoFault Nat × Source)}
    (hs : s.bytes = taken ++ t.bytes) (ht : digitsOf taken = []) (h : Finds t r) : Finds s r := by
  cases h with
  | nothing h => exact .nothing (by rw [hs, digitsOf_append, ht, h]; rfl)
  | @digit skipped b d rest hbytes hskipped hb hrest =>
    have hbytes' : s.bytes = (taken ++ skipped) ++ b :: rest.bytes := by
      rw [hs, hbytes, List.append_assoc]
    refine .digit hbytes' ?_ hb hrest
    rw [digitsOf_append, ht, hskipped]
    rfl

theorem Undisturbed.finds (h : s.Undisturbed) : Finds s s.nextDigit? := by
  fun_induction Source.nextDigit? s with
  | case1 s rest hr =>
    obtain ⟨hread, -, -⟩ := h.readChar
    rw [hr] at hread
    exact .nothing (by rw [Utf8.read_eq_none_iff.mp hread.symm]; rfl)
  | case2 s c rest hr hdigit =>
    obtain ⟨hrest, taken, hb, -, hc⟩ := h.exists_taken
    have hlt := lt_of_isDigit hdigit
    have hten : c.toNat - '0'.toNat < 10 := by
      have hle : c.toNat ≤ '0'.toNat + 9 := (Char.isDigit_iff_toNat.mp hdigit).2
      omega
    rw [hr] at hb hc hrest
    rw [hc c rfl, encode_of_lt hlt] at hb
    rw [← val_lastDigit hten]
    have hbytes : s.bytes = [] ++ c.val.toUInt8 :: rest.bytes := hb
    refine .digit hbytes rfl ?_ hrest
    rw [digit?_of_toNat (toNat_toUInt8 hlt), if_pos hdigit]
    rfl
  | case3 s c rest hr hdigit ih =>
    obtain ⟨hrest, taken, hb, hd, -⟩ := h.exists_taken
    rw [hr] at hb hd hrest
    rw [scanned, if_neg hdigit] at hd
    exact .behind hb (List.map_eq_nil_iff.mp hd) (ih hrest)
  | case4 s f rest hr hk ih =>
    obtain ⟨hrest, taken, hb, hd, -⟩ := h.exists_taken
    rw [hr] at hb hd hrest
    rw [scanned, reported, if_pos hk] at hd
    exact .behind hb (List.map_eq_nil_iff.mp hd) (ih hrest)
  | case5 s f rest hr hk =>
    obtain ⟨-, taken, -, hd, -⟩ := h.exists_taken
    rw [hr, scanned, reported, if_neg hk] at hd
    rcases hds : digitsOf taken with _ | ⟨d, ds⟩ <;> rw [hds] at hd <;> cases hd

end Source

namespace Decoding

/-! ## Calls and results -/

section

variable {σ : Type} [DigitSupply σ] {d d' : Decoding σ} {r : Except Error Instruction}

/-- The decoding behind calls, which go on after errors and after the end. -/
def after : Nat → Decoding σ → Decoding σ
  | 0, d => d
  | n + 1, d =>
    match d.next? with
    | none => d
    | some (_, d') => after n d'

theorem after_of_none (h : d.next? = none) (n : Nat) : after n d = d := by
  cases n with
  | zero => rfl
  | succ n => rw [after, h]

theorem after_of_some (h : d.next? = some (r, d')) (n : Nat) : after (n + 1) d = after n d' := by
  rw [after, h]

theorem results_of_none (h : d.next? = none) : results d = [] :=
  resultsFrom_of_none h

theorem resultsFrom_eq (got : List (Except Error Instruction)) (d : Decoding σ) :
    resultsFrom got d = got.reverse ++ results d := by
  rw [results, ← resultsFrom_itemized, ← @resultsFrom_itemized _ _ [], itemized,
    resultsFrom_items, resultsFrom_items, List.append_assoc]
  rfl

theorem results_of_some (h : d.next? = some (r, d')) : results d = r :: results d' := by
  rw [results, resultsFrom_of_some h, resultsFrom_eq]
  rfl

theorem getElem?_results (n : Nat) (d : Decoding σ) :
    (results d)[n]? = (after n d).next?.map Prod.fst := by
  induction n generalizing d with
  | zero =>
    rw [after]
    rcases h : d.next? with _ | ⟨r, d'⟩
    · rw [results_of_none h]
      rfl
    · rw [results_of_some h]
      rfl
  | succ n ih =>
    rcases h : d.next? with _ | ⟨r, d'⟩
    · rw [results_of_none h, after_of_none h, h]
      rfl
    · rw [results_of_some h, after_of_some h, List.getElem?_cons_succ, ih]

/-- Calls have the results one by one, and behind them nothing. -/
theorem take_eq (n : Nat) (d : Decoding σ) :
    take n d = ((results d).map some ++ List.replicate n none).take n := by
  induction n generalizing d with
  | zero => rfl
  | succ n ih =>
    rw [take]
    rcases h : d.next? with _ | ⟨r, d'⟩
    · have hd := ih d
      rw [results_of_none h] at hd ⊢
      simp only [List.map_nil, List.nil_append, List.take_replicate, Nat.min_self] at hd ⊢
      rw [hd, List.replicate_succ]
    · rw [results_of_some h, List.map_cons, List.cons_append, List.take_succ_cons]
      dsimp only
      rw [ih, List.take_append, List.take_append, List.take_replicate, List.take_replicate]
      congr 3
      omega

/-- The program is what the results are together: all instructions, or the first error. -/
theorem programFrom_eq (got : List Instruction) (d : Decoding σ) :
    programFrom got d = ((results d).mapM id).map (got.reverse ++ ·) := by
  fun_induction programFrom got d with
  | case1 got d h =>
    rw [results_of_none h]
    simp [Except.map, pure, Except.pure]
  | case2 got d e d' h =>
    rw [results_of_some h]
    rfl
  | case3 got d i d' h ih =>
    rw [ih, results_of_some h, List.mapM_cons]
    cases (results d').mapM id with
    | error e => rfl
    | ok p => simp [Except.map, bind, Except.bind, pure, Except.pure]

end

end Decoding

/-! ## What digits lead to -/

/-- A digit can lead to the result: it is an instruction, or an error in a code. -/
inductive Decoding.ByDigit : Except Error Instruction → Prop
  | instruction (i : Instruction) : ByDigit (.ok i)
  | unknownOperator (code : Nat) : ByDigit (.error (.decode (.unknownOperator code)))

theorem Decoding.ByDigit.not_truncates {e : DecodeError} (h : ByDigit (.error (.decode e))) :
    ¬ e.Truncates := by
  cases h
  exact id

namespace Decoder

open Decoding (ByDigit)

theorem consume_digit (digit : Nat) (decoder : Decoder) :
    (decoder.consume (.ok digit)).1 = [] ∨
      ∃ r, (decoder.consume (.ok digit)).1 = [r] ∧ ByDigit r := by
  rw [consume]
  rcases hf : decoder.feed digit with ⟨e | _ | i, decoder'⟩
  · obtain ⟨code, rfl⟩ := unknownOperator_of_feed hf
    exact .inr ⟨_, rfl, .unknownOperator code⟩
  · exact .inl rfl
  · exact .inr ⟨_, rfl, .instruction i⟩

theorem length_close_le (decoder : Decoder) : decoder.close.length ≤ 1 := by
  rw [close, List.length_map]
  exact Option.length_toList_le

/-- What the digits among bytes lead to, and the decoder behind them. -/
def consumeBytes (bs : List UInt8) (decoder : Decoder) :
    List (Except Error Instruction) × Decoder :=
  decoder.consumeAll (DigitSupply.ofDigits (digitsOf bs))

theorem consumeBytes_append (bs cs : List UInt8) (decoder : Decoder) :
    decoder.consumeBytes (bs ++ cs) =
      ((decoder.consumeBytes bs).1 ++ ((decoder.consumeBytes bs).2.consumeBytes cs).1,
        ((decoder.consumeBytes bs).2.consumeBytes cs).2) := by
  simp only [consumeBytes, digitsOf_append, ofDigits_append, consumeAll_append]

theorem consumeBytes_of_digit {skipped : List UInt8} {b : UInt8} {d : Fin 10}
    (hskipped : digitsOf skipped = []) (hb : digit? b = some d) (decoder : Decoder) :
    decoder.consumeBytes (skipped ++ [b]) = decoder.consume (.ok d.val) := by
  have hdigits : digitsOf (skipped ++ [b]) = [d] := by
    rw [digitsOf_append, hskipped, digitsOf, List.filterMap_cons, hb]
    rfl
  rw [consumeBytes, hdigits]
  exact Prod.ext (List.append_nil _) rfl

theorem consumeBytes_results (bs : List UInt8) (decoder : Decoder) :
    (decoder.consumeBytes bs).1.length ≤ (digitsOf bs).length ∧
      ∀ r ∈ (decoder.consumeBytes bs).1, ByDigit r := by
  rw [consumeBytes]
  induction digitsOf bs generalizing decoder with
  | nil => exact ⟨Nat.le_refl 0, nofun⟩
  | cons d ds ih =>
    obtain ⟨hlength, hall⟩ := ih (decoder.consume (.ok d.val)).2
    rw [DigitSupply.ofDigits, List.map_cons, ← DigitSupply.ofDigits, consumeAll]
    rcases decoder.consume_digit d.val with hone | ⟨r, hone, hr⟩
    · rw [hone]
      exact ⟨Nat.le_succ_of_le hlength, hall⟩
    · rw [hone]
      exact ⟨Nat.succ_le_succ hlength, List.forall_mem_cons.mpr ⟨hr, hall⟩⟩

end Decoder

/-! ## What a call reads -/

namespace Decoding

/-- What a call comes to: nothing, the result of a digit and what stands behind the digit, or
an error for the end of the source, behind which there is nothing. -/
inductive Called (d : Decoding Source) :
    Option (Except Error Instruction × Decoding Source) → Prop
  | nothing : Called d none
  | completed {before : List UInt8} {b : UInt8} {digit : Fin 10} {rest : Source}
      {decoder : Decoder} {r : Except Error Instruction}
      (hbytes : d.supply.bytes = before ++ b :: rest.bytes) (hb : digit? b = some digit)
      (hrest : rest.Undisturbed) (hbefore : (d.decoder.consumeBytes before).1 = [])
      (hr : d.decoder.consumeBytes (before ++ [b]) = ([r], decoder)) (hdigit : ByDigit r) :
      Called d (some (r, ⟨decoder, rest⟩))
  | truncated {e : DecodeError} {rest : Source} (he : e.Truncates)
      (hend : next? ⟨.start, rest⟩ = none) : Called d (some (.error (.decode e), ⟨.start, rest⟩))

variable {d : Decoding Source}

/-- A digit that completes nothing belongs to what the next digits complete. -/
theorem Called.behind {read : List UInt8} {rest : Source} {decoder : Decoder}
    {r : Option (Except Error Instruction × Decoding Source)}
    (hbytes : d.supply.bytes = read ++ rest.bytes)
    (hread : d.decoder.consumeBytes read = ([], decoder)) (h : Called ⟨decoder, rest⟩ r) :
    Called d r := by
  cases h with
  | nothing => exact .nothing
  | truncated he hend => exact .truncated he hend
  | @completed before b digit rest' decoder' r hbytes' hb hrest hbefore hr hdigit =>
    have hbytes'' : d.supply.bytes = (read ++ before) ++ b :: rest'.bytes := by
      rw [hbytes, hbytes', List.append_assoc]
    refine .completed hbytes'' hb hrest ?_ ?_ hdigit
    · rw [Decoder.consumeBytes_append, hread]
      exact hbefore
    · rw [List.append_assoc, Decoder.consumeBytes_append, hread]
      exact hr

theorem called (h : d.supply.Undisturbed) : Called d d.next? := by
  -- digits that complete nothing are passed over, so the induction is on what is left
  induction hn : d.supply.size using Nat.strongRecOn generalizing d with
  | ind n ih =>
    obtain ⟨decoder, s⟩ := d
    have hf := h.finds
    cases hs : s.nextDigit? with
    | none =>
      rw [next?_of_none hs]
      cases ht : decoder.truncation? with
      | none => exact .nothing
      | some e => exact .truncated (Decoder.truncates ht) (next?_of_none hs)
    | some found =>
      have hlt : found.2.size < s.size := Source.size_lt_of_nextDigit? hs
      rw [hs] at hf
      cases hf with
      | @digit skipped b digit rest hbytes hskipped hb hrest =>
        have hread := decoder.consumeBytes_of_digit hskipped hb
        have hbytes' : s.bytes = (skipped ++ [b]) ++ rest.bytes := by
          rw [hbytes, List.append_assoc]
          rfl
        have hbefore : (decoder.consumeBytes skipped).1 = [] := by
          rw [Decoder.consumeBytes, hskipped]
          rfl
        rw [next?_of_digit hs]
        rw [Decoder.consume] at hread
        rcases hfeed : decoder.feed digit.val with ⟨e | _ | i, decoder'⟩ <;> rw [hfeed] at hread
        · obtain ⟨code, rfl⟩ := Decoder.unknownOperator_of_feed hfeed
          exact .completed hbytes hb hrest hbefore hread (.unknownOperator code)
        · exact .behind hbytes' hread (ih _ (hn ▸ hlt) hrest rfl)
        · exact .completed hbytes hb hrest hbefore hread (.instruction i)

/-! ## Every call -/

/-- Whichever call has a result that a digit leads to, this digit is the last that was read. -/
theorem exists_read {d' : Decoding Source} {r : Except Error Instruction} {n : Nat}
    (h : d.supply.Undisturbed) (hn : (after n d).next? = some (r, d')) (hr : ByDigit r) :
    ∃ before b digit, d.supply.bytes = before ++ b :: d'.supply.bytes ∧ digit? b = some digit ∧
      (d.decoder.consumeBytes before).1 = (results d).take n ∧
      (d.decoder.consumeBytes (before ++ [b])).1 = (results d).take n ++ [r] := by
  induction n generalizing d with
  | zero =>
    have hc := called h
    rw [show d.next? = some (r, d') from hn] at hc
    cases hc with
    | completed hbytes hb hrest hbefore hdigit =>
      exact ⟨_, _, _, hbytes, hb, hbefore, by rw [hdigit]; rfl⟩
    | truncated he =>
      cases hr
      exact absurd he id
  | succ n ih =>
    have hc := called h
    cases hd : d.next? with
    | none =>
      rw [after_of_none hd, hd] at hn
      cases hn
    | some first =>
      rw [hd] at hc
      rw [after_of_some hd] at hn
      rw [results_of_some hd, List.take_succ_cons]
      cases hc with
      | truncated he hend =>
        rw [after_of_none hend, hend] at hn
        cases hn
      | @completed before b digit rest decoder r' hbytes hb hrest hbefore hr' hdigit =>
        obtain ⟨before', b', digit', hbytes', hb', hlast, hcompleted⟩ := ih hrest hn
        refine ⟨before ++ [b] ++ before', b', digit', ?_, hb', ?_, ?_⟩
        · rw [hbytes, hbytes']
          simp
        · rw [Decoder.consumeBytes_append, hr', hlast]
          rfl
        · rw [List.append_assoc, Decoder.consumeBytes_append, hr', hcompleted]
          rfl

/-! ## The results of a source -/

theorem results_of_undisturbed {s : Source} (h : s.Undisturbed) :
    results { supply := s } = (Decoder.start.consumeBytes s.bytes).1 ++
      (Decoder.start.consumeBytes s.bytes).2.close := by
  rw [results_source, h.quiet.supplied, results_items]
  rfl

theorem eq_nil_of_truncates {s : Source} (h : s.Undisturbed)
    {before behind : List (Except Error Instruction)} {e : DecodeError}
    (hs : results { supply := s } = before ++ .error (.decode e) :: behind) (he : e.Truncates) :
    behind = [] := by
  rw [results_of_undisturbed h] at hs
  have hclose := (Decoder.start.consumeBytes s.bytes).2.length_close_le
  obtain ⟨-, hdigits⟩ := Decoder.start.consumeBytes_results s.bytes
  -- no digit leads to the error, so it is what the end leads to
  rcases List.append_eq_append_iff.mp hs with ⟨others, -, hend⟩ | ⟨_ | ⟨r, others⟩, hbytes, hend⟩
  · rw [hend, List.length_append, List.length_cons] at hclose
    exact List.length_eq_zero_iff.mp (by omega)
  · rw [List.nil_append] at hend
    rw [← hend, List.length_cons] at hclose
    exact List.length_eq_zero_iff.mp (by omega)
  · cases hend
    have hr := hdigits (.error (.decode e)) (by rw [hbytes]; simp)
    exact absurd he hr.not_truncates

/-- A call with an instruction or with an error in a code has read up to the digit that
completes it and no further: of what was read without this digit, only the results of the
calls before have come. The calls have the results one by one and then nothing for good. There
is at most one result more than there are digits among the bytes, nothing comes behind the
error for the end of the source, and the program is what all the results are together: the
instructions, or the first error. -/
theorem next?_reads_no_further {s : Source} (h : s.Undisturbed) :
    let d : Decoding Source := { supply := s }
    (∀ n r d', (after n d).next? = some (r, d') → ByDigit r →
      ∃ before b digit, s.bytes = before ++ b :: d'.supply.bytes ∧ digit? b = some digit ∧
        (Decoder.start.consumeBytes before).1 = (results d).take n ∧
        (Decoder.start.consumeBytes (before ++ [b])).1 = (results d).take n ++ [r]) ∧
    (∀ n, take n d = ((results d).map some ++ List.replicate n none).take n) ∧
    (results d).length ≤ (digitsOf s.bytes).length + 1 ∧
    (∀ before e behind, results d = before ++ .error (.decode e) :: behind → e.Truncates →
      behind = []) ∧
    Program.ofSource s = (results d).mapM id := by
  intro d
  refine ⟨fun n r d' hn hr => exists_read (d := d) h hn hr, fun n => take_eq n d, ?_,
    fun before e behind hs he => eq_nil_of_truncates h hs he, ?_⟩
  · have hclose := (Decoder.start.consumeBytes s.bytes).2.length_close_le
    obtain ⟨hlength, -⟩ := Decoder.start.consumeBytes_results s.bytes
    rw [results_of_undisturbed h, List.length_append]
    omega
  · rw [Program.ofSource, program, programFrom_eq]
    cases (results d).mapM id with
    | error e => rfl
    | ok p => rfl

/-- Behind an unknown code the digits ahead of it are kept, so that the next digits are wrong,
too. -/
theorem next?_reads_no_further_kept :
    let s : Source := [.chunk [0x35, 0x39], .failure ⟨.interrupted, "interrupted"⟩,
      .chunk [0x34, 0x20, 0xe9, 0x32, 0x20]]
    let d : Decoding Source := { supply := s }
    let wrong (code : Nat) : Except Error Instruction := .error (.decode (.unknownOperator code))
    s.Undisturbed ∧
      results d = [wrong 594, wrong 592, .error (.decode .truncatedOperator)] ∧
      take 5 d = [some (wrong 594), some (wrong 592), some (.error (.decode .truncatedOperator)),
        none, none] ∧
      (∃ d' before b, (after 1 d).next? = some (wrong 592, d') ∧
        s.bytes = before ++ b :: d'.supply.bytes ∧
        (Decoder.start.consumeBytes (before ++ [b])).1 = [wrong 594, wrong 592]) ∧
      Program.ofSource s = .error (.decode (.unknownOperator 594)) := by
  intro s d wrong
  have h : s.Undisturbed := by
    intro f hf
    simp only [s, List.mem_cons, List.not_mem_nil, or_false, reduceCtorEq, false_or] at hf
    cases hf
    rfl
  have hresults : results d = [wrong 594, wrong 592, .error (.decode .truncatedOperator)] := by
    rw [results_of_undisturbed h]
    rfl
  obtain ⟨hcalls, htake, -, -, hprogram⟩ := next?_reads_no_further h
  refine ⟨h, hresults, ?_, ?_, ?_⟩
  · rw [htake, hresults]
    rfl
  · have hsecond := getElem?_results 1 d
    rw [hresults] at hsecond
    obtain ⟨⟨_, d'⟩, hnext, rfl⟩ := Option.map_eq_some_iff.mp hsecond.symm
    obtain ⟨before, b, -, hbytes, -, -, hread⟩ := hcalls 1 _ d' hnext (.unknownOperator 592)
    refine ⟨d', before, b, hnext, hbytes, ?_⟩
    rw [hread, hresults]
    rfl
  · rw [hprogram, hresults]
    rfl

end Decoding

end NumNum
