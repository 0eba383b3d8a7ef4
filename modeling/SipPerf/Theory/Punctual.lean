import SipPerf.Theory.ClientTransaction.Repetitions

/-!
# Repetitions that Come in Time

How long a request may still be on its way depends on when it was last sent.
The repetitions are due after 1, 3, 7 and so on times half a second, and the
times of a request that is answered provisionally, with other delays, agree
with these up to multiples of eight. So none is due after 64 times half a
second, which is when the transaction ends. With a bound on how late a timer
is served, the last copy of a request is sent before that.

It is not sent any more once the transaction has sent an ACK.

## Main definitions

* `Prompt`: A repetition is not later than it may be.
* `Timed`: When the next repetition is due.
* `OnTime`: The repetitions so far, and the next.
* `Stopped`: No repetition is to come.

## Theorems

* `retransmitTimeout_half`: The delays in halves of a second.
* `ctStep_onTime`: Every event keeps to the times.
* `timed_le`: When the last copy of a request is sent.
* `ctStep_stopped`: Nothing starts the repetitions again.
* `ctStep_outs`: What is reported and acknowledged.
-/

namespace SipPerf

namespace Ctrans

open Transition Backoff MachineInt

/-- A timer for a repetition is served no more than `late` after it is due. -/
def Prompt (late : Nat) (s : CtRun) : CtEvent → Prop
  | .retransmit _ now _ => ∀ ct ∈ s.ct, ∀ d ∈ ct.tmre, now ≤ d + late
  | _ => True

/-- The next repetition is due `m` halves of a second after the start, but for
    the lateness so far. -/
def Timed (ct : SipCtrans) (start late d : Nat) : Prop :=
  ∃ m, start + 500 * m ≤ d ∧ Within start (500 * m) ct.txc late d ∧
    (m % 8 = 1 ∨ m % 8 = 3 ∨ m % 8 = 7) ∧
    (ct.state ≠ .proceeding → m % 8 = if ct.txc = 0 then 1 else if ct.txc = 1 then 3 else 7)

structure OnTime (start late : Nat) (s : CtRun) : Prop where
  timed : ∀ ct ∈ s.ct, ∀ d ∈ ct.tmre, Timed ct start late d
  sent : ∀ a ∈ s.sentAt, a ≤ start + 31500 + 10 * late

/-- No repetition is to come. -/
def Stopped (s : CtRun) : Prop := ∀ ct ∈ s.ct, ct.tmre = none

/-- The delay after a repetition, in halves of a second. -/
theorem retransmitTimeout_half (ct : SipCtrans) (timeout : Nat) (hpos : 0 < ct.txc)
    (hsmall : ct.txc ≤ 11) (h : retransmitTimeout ct = some timeout) :
    ∃ m, timeout = 500 * m ∧ (ct.state = .proceeding → m = 8) ∧
      (ct.state ≠ .proceeding → m % 8 = if ct.txc = 1 then 2 else if ct.txc = 2 then 4 else 0) := by
  have hshift : sipT1 <<< ct.txc = 500 * 2 ^ ct.txc := Nat.shiftLeft_eq _ _
  have hpow : 2 ^ ct.txc ≤ 2 ^ 11 := Nat.pow_le_pow_right (by decide) hsmall
  have hmod : 2 ^ ct.txc % 8 = (if ct.txc = 1 then 2 else if ct.txc = 2 then 4 else 0) ∧
      (3 ≤ ct.txc → 8 ≤ 2 ^ ct.txc) := by
    -- From the third repetition on, the delay is a multiple of four seconds.
    rcases (by omega : ct.txc = 1 ∨ ct.txc = 2 ∨ 3 ≤ ct.txc) with h1 | h2 | h3
    · rw [h1]
      decide
    · rw [h2]
      decide
    · rcases Nat.exists_eq_add_of_le' h3 with ⟨n, hn⟩
      have hone : 1 ≤ 2 ^ n := Nat.one_le_two_pow
      have height : 2 ^ (n + 3) = 2 ^ n * 8 := Nat.pow_add 2 n 3
      rw [hn, height, if_neg (by omega), if_neg (by omega)]
      exact ⟨Nat.mul_mod_left _ _, fun _ => by omega⟩
  unfold retransmitTimeout at h
  cases hs : ct.state with
  | trying =>
      have hu : u32 (min (500 * 2 ^ ct.txc) sipT2) = 500 * min (2 ^ ct.txc) 8 := by
        rw [u32_of_lt _ (by unfold sipT2; omega), sipT2]
        omega
      simp only [hs, Option.some.injEq, hshift, hu] at h
      refine ⟨min (2 ^ ct.txc) 8, h.symm, fun hc => absurd hc (by decide), fun _ => ?_⟩
      by_cases hbig : 3 ≤ ct.txc
      · rw [Nat.min_eq_right (hmod.2 hbig), if_neg (by omega), if_neg (by omega)]
      · have hlow : 2 ^ ct.txc ≤ 2 ^ 2 := Nat.pow_le_pow_right (by decide) (by omega)
        rw [Nat.min_eq_left (by omega)]
        exact hmod.1
  | calling =>
      simp only [hs, Option.some.injEq] at h
      rw [hshift, u32_of_lt _ (by omega)] at h
      exact ⟨2 ^ ct.txc, h.symm, fun hc => absurd hc (by decide), fun _ => hmod.1⟩
  | proceeding =>
      simp only [hs, Option.some.injEq] at h
      exact ⟨8, h.symm, fun _ => rfl, fun hc => absurd rfl hc⟩
  | completed => simp only [hs, reduceCtorEq] at h

/-- A repetition that is due within the time of the transaction is one of the
    first 63 halves of a second. -/
theorem timed_le (ct : SipCtrans) (start late sent d : Nat) (ha : Armed ct start sent d)
    (ht : Timed ct start late d) (hfirst : NotAfter d ct.tmr) (hlt : sent < 11) :
    d + late ≤ start + 31500 + 10 * late := by
  rcases ha.limit with ⟨b, hb, hlimit⟩
  rcases ht with ⟨m, hlow, hhigh, hmod, _⟩
  have hd : d ≤ start + 32000 := Nat.le_trans (hfirst b hb) hlimit
  have hsent := ha.sent_eq
  -- There are ten repetitions at most, each late by as much as it can be.
  have hlate : (ct.txc + 1) * late ≤ 10 * late := Nat.mul_le_mul_right late (by omega)
  rw [Nat.add_mul, Nat.one_mul] at hlate
  unfold Within at hhigh
  omega

theorem retransmitHandler_onTime (invite reliable : Bool) (start late : Nat) (s : CtRun)
    (ct : SipCtrans) (d now err : Nat) (hr : Repeats invite reliable start s)
    (h : OnTime start late s) (hct : s.ct = some ct) (hd : ct.tmre = some d) (hdue : d ≤ now)
    (hprompt : now ≤ d + late) (hfirst : NotAfter d ct.tmr) :
    OnTime start late (s.after now (retransmitHandler ct now err)) := by
  have ha := hr.armed ct hct d hd
  have hlt : s.sentAt.length < 11 := Nat.lt_of_lt_of_le
    (armed_lt_sendLimit ct start s.sentAt.length d ha hfirst) (sendLimit_le ct.invite ct.reliable)
  have htimed := h.timed ct hct d hd
  have hnow : now ≤ start + 31500 + 10 * late :=
    Nat.le_trans hprompt (timed_le ct start late s.sentAt.length d ha htimed hfirst hlt)
  have hsent : ∀ r a, a ∈ (s.after now r).sentAt → a ≤ start + 31500 + 10 * late := by
    intro r a hin
    simp only [CtRun.after] at hin
    split at hin
    · rcases List.mem_cons.mp hin with heq | hin
      · rw [heq]
        exact hnow
      · exact h.sent a hin
    · exact h.sent a hin
  refine ⟨fun x hx d' hd' => ?_, hsent _⟩
  have htxc : u32 (ct.txc + 1) = ct.txc + 1 := u32_of_lt _ (by have := ha.sent_eq; omega)
  simp only [CtRun.after, retransmitHandler] at hx
  cases ht : retransmitTimeout { ct with txc := u32 (ct.txc + 1), tmre := none } with
  | none => exact absurd ((retransmitTimeout_eq_none _).mp ht) ha.repeating.1
  | some timeout =>
      simp only [ht] at hx
      split at hx
      · rw [← Option.some.inj hx] at hd' ⊢
        rw [← Option.some.inj hd']
        rcases htimed with ⟨m, hlow, hhigh, hmod, hres⟩
        have hcount := ha.sent_eq
        rcases retransmitTimeout_half _ timeout (by simp only [htxc]; omega)
          (by simp only [htxc]; omega) ht with ⟨k, hk, hproc, hother⟩
        simp only [htxc] at hother hproc
        -- The next due time is the last one and a delay, both in halves.
        refine ⟨m + k, by omega, ?_, ?_, ?_⟩
        · rw [Nat.mul_add, ← hk]
          simp only [htxc]
          exact within_next start (500 * m) ct.txc late d now timeout hhigh hprompt
        · by_cases hs : ct.state = .proceeding
          · have := hproc hs
            omega
          · have h1 := hres hs
            have h2 := hother hs
            grind
        · intro hs
          have h1 := hres hs
          have h2 := hother hs
          simp only [htxc]
          grind
      · exact absurd hx (by simp only [Option.mem_def, reduceCtorEq, not_false_eq_true])

theorem ctStep_onTime (invite reliable : Bool) (start late : Nat) (s : CtRun) (e : CtEvent)
    (s' : CtRun) (hr : Repeats invite reliable start s) (h : OnTime start late s)
    (hprompt : Prompt late s e) (hstep : ctStep s e = some s') : OnTime start late s' := by
  rcases ctStep_timer s s' e hstep (repeating_of_repeats invite reliable start s hr) with
    ⟨ct, hct, ⟨now, r, _, hs', hk⟩ | ⟨d, j, now, err, he, hd, _, hj, hnow, hfirst, hs'⟩ | ⟨now, _, hs'⟩⟩
  · rw [hs']
    have hsame : (s.after now r).sentAt = s.sentAt := if_neg hk.1
    refine ⟨fun x hx d hd => ?_, fun a ha => h.sent a (by rw [hsame] at ha; exact ha)⟩
    rcases (hk.2 x hx).2.2 with hstopped | ⟨htmre, _, htxc, _, hstate⟩
    · rw [hstopped] at hd
      exact absurd hd (by simp only [Option.mem_def, reduceCtorEq, not_false_eq_true])
    · rw [htmre] at hd
      rcases h.timed ct hct d hd with ⟨m, hlow, hhigh, hmod, hres⟩
      refine ⟨m, hlow, by rw [htxc]; exact hhigh, hmod, fun hne => ?_⟩
      -- A request that is not answered yet was not answered before.
      rcases hstate with hsame' | hproc
      · rw [htxc]
        exact hres (by rw [← hsame']; exact hne)
      · exact absurd hproc hne
  · rw [hs']
    rw [he] at hprompt
    exact retransmitHandler_onTime invite reliable start late s ct d now err hr h hct hd
      (Nat.le_trans hj hnow) (hprompt ct hct d hd) hfirst
  · rw [hs']
    exact ⟨fun x hx => absurd hx (by simp only [Option.mem_def, reduceCtorEq, not_false_eq_true]),
      h.sent⟩

theorem ctInit_onTime (invite reliable : Bool) (t c1 c2 late : Nat) (ht : t ≤ c2) :
    OnTime c2 late (ctInit invite reliable t c1 c2) := by
  refine ⟨fun x hx d hd => ?_, fun a ha => ?_⟩
  · rw [← Option.some.inj hx] at hd ⊢
    cases reliable with
    | true => exact absurd hd (by simp only [if_true, Option.mem_def, reduceCtorEq,
        not_false_eq_true])
    | false =>
        have hdeadline : d = c2 + 500 := (Option.some.inj hd).symm
        rw [hdeadline]
        exact ⟨1, Nat.le_refl _, within_start c2 500 late, Or.inl rfl, fun _ => rfl⟩
  · rw [List.mem_singleton.mp ha]
    omega

/-! ## The end of the repetitions -/

theorem ctStep_stopped (s s' : CtRun) (e : CtEvent) (h : Stopped s) (hstep : ctStep s e = some s') :
    Stopped s' ∧ s'.sentAt = s.sentAt := by
  rcases ctStep_timer s s' e hstep (fun ct hct hne => absurd (h ct hct) hne) with
    ⟨ct, hct, ⟨now, r, _, hs', hk⟩ | ⟨d, _, _, _, _, hd, _⟩ | ⟨now, _, hs'⟩⟩
  · rw [hs']
    refine ⟨fun x hx => ?_, if_neg hk.1⟩
    rcases (hk.2 x hx).2.2 with hstopped | ⟨htmre, _⟩
    · exact hstopped
    · rw [htmre]
      exact h ct hct
  · rw [h ct hct] at hd
    exact absurd hd (by simp only [reduceCtorEq, not_false_eq_true])
  · rw [hs']
    exact ⟨fun x hx => absurd hx (by simp only [Option.mem_def, reduceCtorEq, not_false_eq_true]),
      rfl⟩

/-- The clock, and when the request is sent. -/
theorem ctStep_now (s s' : CtRun) (e : CtEvent) (hrep : ∀ ct ∈ s.ct, ct.tmre ≠ none → Repeating ct)
    (hstep : ctStep s e = some s') :
    s.now ≤ s'.now ∧ ∀ a ∈ s'.sentAt, a ∈ s.sentAt ∨ a = s'.now := by
  have hsent : ∀ now r, ∀ a ∈ (s.after now r).sentAt, a ∈ s.sentAt ∨ a = now := by
    intro now r a ha
    simp only [CtRun.after] at ha
    split at ha
    · exact (List.mem_cons.mp ha).symm
    · exact Or.inl ha
  rcases ctStep_timer s s' e hstep hrep with
    ⟨ct, hct, ⟨now, r, hle, hs', _⟩ | ⟨_, _, now, _, _, _, hle, _, _, _, hs'⟩ | ⟨now, hle, hs'⟩⟩
  · rw [hs']
    exact ⟨hle, hsent now r⟩
  · rw [hs']
    exact ⟨hle, hsent now _⟩
  · rw [hs']
    exact ⟨hle, fun a ha => Or.inl ha⟩

theorem inviteProceeding_outs (ct : SipCtrans) (scode now : Nat) (acked : Bool)
    (h : ct.tmre = none) : ∀ o ∈ (inviteProceeding ct scode now acked).2,
      (∀ c, o = .response c → c = scode) ∧
      (o = .ack → ∀ x ∈ (inviteProceeding ct scode now acked).1, x.tmre = none) := by
  -- The timer was stopped before, and no response starts it.
  have hkeep := inviteProceeding_keepsTimer ct ct scode now acked rfl rfl h
  have hstopped : ∀ x ∈ (inviteProceeding ct scode now acked).1, x.tmre = none := by
    intro x hx
    rcases (hkeep.2 x hx).2.2 with hs | ⟨hs, _⟩
    · exact hs
    · rw [hs]
      exact h
  have hcode : ∀ o ∈ (inviteProceeding ct scode now acked).2, ∀ c, o = .response c → c = scode := by
    intro o ho c hc
    have hin : ∀ o ∈ sendAck acked ++ [CtOut.response scode], o = .response c → c = scode := by
      intro o ho hc
      rcases List.mem_append.mp ho with hack | hresp
      · have := sendAck_quiet acked o hack
        rw [hc] at this
        exact absurd this (by simp only [CtOut.isReport, Bool.true_eq_false, not_false_eq_true])
      · rw [hc, List.mem_singleton, CtOut.response.injEq] at hresp
        exact hresp
    unfold inviteProceeding at ho
    refine hin o ?_ hc
    rw [List.mem_append]
    split at ho
    · exact Or.inr ho
    · split at ho
      · exact Or.inr ho
      · split at ho
        · exact List.mem_append.mp ho
        · exact List.mem_append.mp ho
  exact fun o ho => ⟨hcode o ho, fun _ => hstopped⟩

/-- What is done about a response: nothing but that response is reported, and
    with an ACK the repetitions are over. -/
theorem responseHandler_outs (ct : SipCtrans) (scode now : Nat) (acked : Bool)
    (h : ct.tmre ≠ none → Repeating ct) : ∀ o ∈ (responseHandler ct scode now acked).2,
      (∀ c, o = .response c → c = scode) ∧
      (o = .ack → ct.invite = true ∧
        ∀ x ∈ (responseHandler ct scode now acked).1, x.tmre = none) := by
  have hone : ∀ o ∈ [CtOut.response scode], (∀ c, o = .response c → c = scode) ∧ o ≠ .ack := by
    intro o ho
    rw [List.mem_singleton.mp ho]
    refine ⟨fun c hc => ?_, by simp only [ne_eq, reduceCtorEq, not_false_eq_true]⟩
    rw [CtOut.response.injEq] at hc
    exact hc.symm
  unfold responseHandler
  by_cases hinv : ct.invite = true
  · simp only [if_pos hinv]
    have hstopped := tmre_stopped ct h hinv
    unfold inviteResponse
    split
    next hs =>
      intro o ho
      have := inviteProceeding_outs { ct with tmr := none, tmre := none } scode now acked rfl o ho
      exact ⟨this.1, fun hc => ⟨hinv, this.2 hc⟩⟩
    next hs =>
      intro o ho
      have := inviteProceeding_outs ct scode now acked (hstopped (by rw [hs]; decide)) o ho
      exact ⟨this.1, fun hc => ⟨hinv, this.2 hc⟩⟩
    next hs =>
      split
      · exact fun o ho => absurd ho List.not_mem_nil
      · intro o ho
        refine ⟨fun c hc => ?_, fun _ => ⟨hinv, fun x hx => ?_⟩⟩
        · have := sendAck_quiet acked o ho
          rw [hc] at this
          exact absurd this (by simp only [CtOut.isReport, Bool.true_eq_false, not_false_eq_true])
        · rw [← Option.some.inj hx]
          exact hstopped (by rw [hs]; decide)
    next hs => exact fun o ho => absurd ho List.not_mem_nil
  · simp only [if_neg hinv]
    split
    · split
      · exact fun o ho => ⟨(hone o ho).1, fun hc => absurd hc (hone o ho).2⟩
      · split
        · exact fun o ho => ⟨(hone o ho).1, fun hc => absurd hc (hone o ho).2⟩
        · exact fun o ho => ⟨(hone o ho).1, fun hc => absurd hc (hone o ho).2⟩
    · exact fun o ho => absurd ho List.not_mem_nil

/-- Nothing else reports a response or sends an ACK. -/
theorem quiet_outs (ct : SipCtrans) (err : Nat) :
    ∀ o ∈ terminate ct err, (∀ c, o ≠ .response c) ∧ o ≠ .ack := by
  intro o ho
  unfold terminate at ho
  cases hs : ct.state with
  | completed =>
      simp only [hs] at ho
      exact absurd ho List.not_mem_nil
  | _ =>
      simp only [hs, List.mem_singleton] at ho
      rw [ho]
      exact ⟨fun c => by simp only [ne_eq, reduceCtorEq, not_false_eq_true],
        by simp only [ne_eq, reduceCtorEq, not_false_eq_true]⟩

theorem retransmitHandler_outs (ct : SipCtrans) (now err : Nat) :
    ∀ o ∈ (retransmitHandler ct now err).2, (∀ c, o ≠ .response c) ∧ o ≠ .ack := by
  intro o ho
  unfold retransmitHandler at ho
  simp only at ho
  split at ho
  · exact absurd ho List.not_mem_nil
  · split at ho
    · rw [List.mem_singleton.mp ho]
      exact ⟨fun c => by simp only [ne_eq, reduceCtorEq, not_false_eq_true],
        by simp only [ne_eq, reduceCtorEq, not_false_eq_true]⟩
    · exact quiet_outs _ err o ho

theorem sipCtransCancel_outs (ct : SipCtrans) (now err : Nat) :
    ∀ o ∈ (sipCtransCancel ct now err).2.1, (∀ c, o ≠ .response c) ∧ o ≠ .ack := by
  intro o ho
  unfold sipCtransCancel at ho
  split at ho
  · exact absurd ho List.not_mem_nil
  · split at ho
    · simp only at ho
      split at ho
      · rw [List.mem_singleton.mp ho]
        exact ⟨fun c => by simp only [ne_eq, reduceCtorEq, not_false_eq_true],
          by simp only [ne_eq, reduceCtorEq, not_false_eq_true]⟩
      · exact absurd ho List.not_mem_nil
    · exact absurd ho List.not_mem_nil

/-- What an event adds to the history. -/
theorem ctStep_outs (s s' : CtRun) (e : CtEvent) (hrep : ∀ ct ∈ s.ct, ct.tmre ≠ none → Repeating ct)
    (hstep : ctStep s e = some s') : ∃ new, s'.outs = new ++ s.outs ∧
      ∀ o ∈ new, (∀ c, o = .response c → ∃ now acked, e = .response c now acked) ∧
        (o = .ack → (∃ ct ∈ s.ct, ct.invite = true) ∧ Stopped s') := by
  -- All but a response is dealt with in one way.
  have hquiet : ∀ (l : List CtOut) (s' : CtRun), (∀ o ∈ l, (∀ c, o ≠ .response c) ∧ o ≠ .ack) →
      ∀ o ∈ l.reverse, (∀ c, o = .response c → ∃ now acked, e = .response c now acked) ∧
        (o = .ack → (∃ ct ∈ s.ct, ct.invite = true) ∧ Stopped s') := by
    intro l s' hl o ho
    have := hl o (List.mem_reverse.mp ho)
    exact ⟨fun c hc => absurd hc (this.1 c), fun hc => absurd hc this.2⟩
  unfold ctStep at hstep
  cases hct : s.ct with
  | none => simp only [hct, reduceCtorEq] at hstep
  | some ct =>
      rw [hct] at hquiet
      simp only [hct] at hstep
      cases e with
      | response scode now acked =>
          simp only [Option.ite_none_right_eq_some, Option.some.injEq] at hstep
          rw [← hstep.2]
          refine ⟨_, rfl, fun o ho => ?_⟩
          have := responseHandler_outs ct scode now acked (hrep ct hct) o (List.mem_reverse.mp ho)
          refine ⟨fun c hc => ⟨now, acked, by rw [this.1 c hc]⟩, fun hc => ⟨⟨ct, rfl, ?_⟩, ?_⟩⟩
          · exact (this.2 hc).1
          · exact (this.2 hc).2
      | expire j =>
          cases ht : ct.tmr with
          | none => simp only [ht, reduceCtorEq] at hstep
          | some d =>
              simp only [ht, Option.ite_none_right_eq_some, Option.some.injEq] at hstep
              rw [← hstep.2]
              exact ⟨_, rfl, hquiet _ _ (quiet_outs _ _)⟩
      | retransmit j now err =>
          cases ht : ct.tmre with
          | none => simp only [ht, reduceCtorEq] at hstep
          | some d =>
              simp only [ht, Option.ite_none_right_eq_some, Option.some.injEq] at hstep
              rw [← hstep.2]
              exact ⟨_, rfl, hquiet _ _ (retransmitHandler_outs ct now err)⟩
      | transport now err =>
          simp only [Option.ite_none_right_eq_some, Option.some.injEq] at hstep
          rw [← hstep.2]
          exact ⟨_, rfl, hquiet _ _ (quiet_outs ct err)⟩
      | cancel now err =>
          simp only [Option.ite_none_right_eq_some, Option.some.injEq] at hstep
          rw [← hstep.2]
          exact ⟨_, rfl, hquiet _ _ (sipCtransCancel_outs ct now err)⟩
      | release now =>
          simp only [Option.ite_none_right_eq_some, Option.some.injEq] at hstep
          rw [← hstep.2]
          exact ⟨[], rfl, fun o ho => absurd ho List.not_mem_nil⟩

end Ctrans

end SipPerf
