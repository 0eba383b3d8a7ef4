import SipPerf.Lib.Backoff
import SipPerf.Theory.ClientTransaction.Outcomes

/-!
# How Often a Request is Sent

The request is repeated only while the timer for the end of the transaction is
running, and that is not started again while the request is repeated. So
there are as many repetitions as fit the time of that timer, with the delays
doubling in between. It does not matter how late the timers are served.

## Main definitions

* `schedule`, `sendLimit`: The delays between repetitions, and how often the
  request can be sent.
* `Repeats`: The next repetition comes no earlier than it should.
* `KeepsTimer`: A handler that does not repeat the request.

## Theorems

* `ctStep_timer`: What an event does to the timer for the next repetition.
* `ctStep_repeats`: Every event keeps to the schedule.
* `request_sent_boundedly`: How often a request is sent.
-/

namespace SipPerf

namespace Ctrans

open Transition Backoff MachineInt

/-- The delays between repetitions. -/
def schedule (invite : Bool) (k : Nat) : Nat :=
  if invite then sipT1 <<< k else min (sipT1 <<< k) sipT2

/-- How often a request can be sent. -/
def sendLimit (invite reliable : Bool) : Nat := if reliable then 1 else if invite then 7 else 11

/-- The timer for the next repetition may run. -/
def Repeating (ct : SipCtrans) : Prop := ct.state ≠ .completed ∧ (ct.invite = true → ct.state = .calling)

/-- An INVITE is repeated only as long as it is calling. -/
theorem Repeating.not_invite {ct : SipCtrans} (h : Repeating ct) (hs : ct.state ≠ .calling) :
    ct.invite = false :=
  Bool.eq_false_iff.mpr (fun hinv => hs (h.2 hinv))

theorem tmre_stopped (ct : SipCtrans) (h : ct.tmre ≠ none → Repeating ct) (hinv : ct.invite = true)
    (hs : ct.state ≠ .calling) : ct.tmre = none := by
  by_contra hc
  have hnot := (h hc).not_invite hs
  rw [hinv] at hnot
  exact absurd hnot (by decide)

/-- The request was not sent before its time, given the times it was sent at,
    latest first. -/
def Spaced (delay : Nat → Nat) (start : Nat) : List Nat → Prop
  | [] => True
  | a :: rest => (rest = [] ∨ start + elapsed delay rest.length ≤ a) ∧ Spaced delay start rest

/-- The timer for the next repetition is set to `d`. -/
structure Armed (ct : SipCtrans) (start sent d : Nat) : Prop where
  unreliable : ct.reliable = false
  repeating : Repeating ct
  sent_eq : sent = ct.txc + 1
  limit : ∃ b, ct.tmr = some b ∧ b ≤ start + 64 * sipT1
  behind : Behind (schedule ct.invite) start ct.txc d

/-- The repetitions of a request so far, and the next one. -/
structure Repeats (invite reliable : Bool) (start : Nat) (s : CtRun) : Prop where
  kind : ∀ ct ∈ s.ct, ct.invite = invite ∧ ct.reliable = reliable
  count : s.sentAt.length ≤ sendLimit invite reliable
  spaced : Spaced (schedule invite) start s.sentAt
  armed : ∀ ct ∈ s.ct, ∀ d ∈ ct.tmre, Armed ct start s.sentAt.length d

/-- A handler that sends no request keeps the timer for the next repetition as
    it is, or stops it. -/
def KeepsTimer (ct : SipCtrans) (r : Option SipCtrans × List CtOut) : Prop :=
  CtOut.request ∉ r.2 ∧ ∀ ct' ∈ r.1, ct'.invite = ct.invite ∧ ct'.reliable = ct.reliable ∧
    (ct'.tmre = none ∨ (ct'.tmre = ct.tmre ∧ ct'.tmr = ct.tmr ∧ ct'.txc = ct.txc ∧ Repeating ct' ∧
      (ct'.state = ct.state ∨ ct'.state = .proceeding)))

theorem keepsTimer_none (ct : SipCtrans) (outs : List CtOut) (h : CtOut.request ∉ outs) :
    KeepsTimer ct (none, outs) :=
  ⟨h, fun x hx => absurd hx (by simp only [Option.mem_def, reduceCtorEq, not_false_eq_true])⟩

theorem keepsTimer_same (ct : SipCtrans) (outs : List CtOut) (hout : CtOut.request ∉ outs)
    (h : ct.tmre ≠ none → Repeating ct) : KeepsTimer ct (some ct, outs) := by
  refine ⟨hout, fun x hx => ?_⟩
  rw [Option.mem_def, Option.some.injEq] at hx
  rw [← hx]
  refine ⟨rfl, rfl, ?_⟩
  by_cases ht : ct.tmre = none
  · exact Or.inl ht
  · exact Or.inr ⟨rfl, rfl, rfl, h ht, Or.inl rfl⟩

theorem request_notMem_terminate (ct : SipCtrans) (err : Nat) :
    CtOut.request ∉ terminate ct err := by
  unfold terminate
  cases ct.state with
  | completed => exact List.not_mem_nil
  | _ => exact fun hc => absurd (List.mem_singleton.mp hc) (by simp only [reduceCtorEq,
      not_false_eq_true])

theorem request_notMem_sendAck (acked : Bool) : CtOut.request ∉ sendAck acked := by
  unfold sendAck
  cases acked with
  | true => exact fun hc => absurd (List.mem_singleton.mp hc) (by simp only [reduceCtorEq,
      not_false_eq_true])
  | false => exact List.not_mem_nil

theorem request_notMem_response (scode : Nat) : CtOut.request ∉ [CtOut.response scode] :=
  fun hc => absurd (List.mem_singleton.mp hc) (by simp only [reduceCtorEq, not_false_eq_true])

theorem request_notMem_rejection (acked : Bool) (scode : Nat) :
    CtOut.request ∉ sendAck acked ++ [CtOut.response scode] := by
  rw [List.mem_append]
  exact fun hc => hc.elim (request_notMem_sendAck acked) (request_notMem_response scode)

/-- The timer of an INVITE was stopped by the first response. -/
theorem inviteProceeding_keepsTimer (ct0 ct : SipCtrans) (scode now : Nat) (acked : Bool)
    (hinv : ct.invite = ct0.invite) (hrel : ct.reliable = ct0.reliable) (h : ct.tmre = none) :
    KeepsTimer ct0 (inviteProceeding ct scode now acked) := by
  unfold inviteProceeding
  split
  · refine ⟨request_notMem_response scode, fun x hx => ?_⟩
    rw [← Option.some.inj hx]
    exact ⟨hinv, hrel, Or.inl h⟩
  · split
    · exact keepsTimer_none ct0 _ (request_notMem_response scode)
    · split
      · exact keepsTimer_none ct0 _ (request_notMem_rejection acked scode)
      · refine ⟨request_notMem_rejection acked scode, fun x hx => ?_⟩
        rw [← Option.some.inj hx]
        exact ⟨hinv, hrel, Or.inl h⟩

theorem responseHandler_keepsTimer (ct : SipCtrans) (scode now : Nat) (acked : Bool)
    (h : ct.tmre ≠ none → Repeating ct) : KeepsTimer ct (responseHandler ct scode now acked) := by
  unfold responseHandler
  by_cases hinv : ct.invite = true
  · rw [if_pos hinv]
    -- An INVITE that is not calling any more is not repeated.
    have hstopped := tmre_stopped ct h hinv
    unfold inviteResponse
    split
    next hs =>
      exact inviteProceeding_keepsTimer ct { ct with tmr := none, tmre := none } scode now acked rfl
        rfl rfl
    next hs =>
      refine inviteProceeding_keepsTimer ct ct scode now acked rfl rfl (hstopped ?_)
      rw [hs]
      decide
    next hs =>
      split
      · exact keepsTimer_same ct [] List.not_mem_nil h
      · exact keepsTimer_same ct _ (request_notMem_sendAck acked) h
    next hs => exact keepsTimer_same ct [] List.not_mem_nil h
  · rw [if_neg hinv]
    split
    next hopen =>
      split
      · refine ⟨request_notMem_response scode, fun x hx => ?_⟩
        rw [← Option.some.inj hx]
        refine ⟨rfl, rfl, Or.inr ⟨rfl, rfl, rfl, ⟨?_, fun hc => absurd hc hinv⟩, Or.inr rfl⟩⟩
        simp only [ne_eq, reduceCtorEq, not_false_eq_true]
      · split
        · exact keepsTimer_none ct _ (request_notMem_response scode)
        · refine ⟨request_notMem_response scode, fun x hx => ?_⟩
          rw [← Option.some.inj hx]
          exact ⟨rfl, rfl, Or.inl rfl⟩
    next hover => exact keepsTimer_same ct [] List.not_mem_nil h

theorem sipCtransCancel_keepsTimer (ct : SipCtrans) (now err : Nat)
    (h : ct.tmre ≠ none → Repeating ct) :
    KeepsTimer ct (some (sipCtransCancel ct now err).1, (sipCtransCancel ct now err).2.1) := by
  unfold sipCtransCancel
  split
  next hinv => exact keepsTimer_same ct [] List.not_mem_nil h
  next hinv =>
    split
    next hs =>
      -- Only an INVITE that rings gets the timer for its end back.
      have hstopped : ct.tmre = none :=
        tmre_stopped ct h (by simpa using hinv) (by rw [hs]; decide)
      refine ⟨?_, fun x hx => ?_⟩
      · simp only
        split
        · exact fun hc => absurd (List.mem_singleton.mp hc) (by simp only [reduceCtorEq,
            not_false_eq_true])
        · exact List.not_mem_nil
      · rw [← Option.some.inj hx]
        exact ⟨rfl, rfl, Or.inl hstopped⟩
    next hs => exact keepsTimer_same ct [] List.not_mem_nil h

/-- A handler that sends no request keeps to the schedule. -/
theorem keepsTimer_repeats (invite reliable : Bool) (start : Nat) (s : CtRun) (ct : SipCtrans)
    (now : Nat) (r : Option SipCtrans × List CtOut) (h : Repeats invite reliable start s)
    (hct : s.ct = some ct) (hr : KeepsTimer ct r) : Repeats invite reliable start (s.after now r) := by
  have hsent : (s.after now r).sentAt = s.sentAt := if_neg hr.1
  have hkind := h.kind ct hct
  refine ⟨fun x hx => ?_, ?_, ?_, fun x hx d hd => ?_⟩
  · have hsame := hr.2 x hx
    rw [hsame.1, hsame.2.1]
    exact hkind
  · rw [hsent]
    exact h.count
  · rw [hsent]
    exact h.spaced
  · rw [hsent]
    -- The timer is stopped, or it is the one that was armed before.
    rcases hr.2 x hx with ⟨hinv, hrel, hstopped | ⟨htmre, htmr, htxc, hrep, _⟩⟩
    · rw [hstopped] at hd
      exact absurd hd (by simp only [Option.mem_def, reduceCtorEq, not_false_eq_true])
    · rw [htmre] at hd
      have ha := h.armed ct hct d hd
      refine ⟨hrel.trans ha.unreliable, hrep, ?_, ?_, ?_⟩
      · rw [htxc]
        exact ha.sent_eq
      · rw [htmr]
        exact ha.limit
      · rw [hinv, htxc]
        exact ha.behind

/-- A request that may still be repeated has been sent less often than it
    can. -/
theorem armed_lt_sendLimit (ct : SipCtrans) (start sent d : Nat) (h : Armed ct start sent d)
    (hfirst : NotAfter d ct.tmr) : sent < sendLimit ct.invite ct.reliable := by
  rcases h.limit with ⟨b, hb, hlimit⟩
  -- A repetition is served only up to the end of the transaction.
  have hd : d ≤ start + 32000 := Nat.le_trans (hfirst b hb) hlimit
  have hsent := h.sent_eq
  unfold sendLimit
  rw [h.unreliable, if_neg Bool.false_ne_true]
  cases hinv : ct.invite with
  | true =>
      have := behind_bound (schedule ct.invite) start ct.txc d 32000 7 h.behind hd
        (by rw [hinv]; decide)
      rw [if_pos rfl]
      omega
  | false =>
      have := behind_bound (schedule ct.invite) start ct.txc d 32000 11 h.behind hd
        (by rw [hinv]; decide)
      rw [if_neg Bool.false_ne_true]
      omega

theorem sendLimit_le (invite reliable : Bool) : sendLimit invite reliable ≤ 11 := by
  unfold sendLimit
  split
  · omega
  · split
    · omega
    · omega

/-- The next delay is that of the schedule, or longer once the server has
    answered. -/
theorem schedule_le_retransmitTimeout (ct : SipCtrans) (timeout : Nat) (hrep : Repeating ct)
    (hsmall : ct.txc ≤ 11) (h : retransmitTimeout ct = some timeout) :
    schedule ct.invite ct.txc ≤ timeout := by
  -- The count is small, so the shift fits what holds it.
  have hshift : sipT1 <<< ct.txc < 2 ^ 32 := by
    rw [Nat.shiftLeft_eq]
    have hpow : 2 ^ ct.txc ≤ 2 ^ 11 := Nat.pow_le_pow_right (by decide) hsmall
    calc sipT1 * 2 ^ ct.txc ≤ sipT1 * 2 ^ 11 := Nat.mul_le_mul_left _ hpow
      _ < 2 ^ 32 := by decide
  unfold retransmitTimeout at h
  unfold schedule
  cases hs : ct.state with
  | trying =>
      have hinv := hrep.not_invite (by rw [hs]; decide)
      rw [hs] at h
      rw [if_neg (by rw [hinv]; decide), ← Option.some.inj h, u32_of_lt _ (by omega)]
  | calling =>
      rw [hs] at h
      rw [← Option.some.inj h, u32_of_lt _ hshift]
      split
      · exact Nat.le_refl _
      · exact Nat.min_le_left _ _
  | proceeding =>
      have hinv := hrep.not_invite (by rw [hs]; decide)
      rw [hs] at h
      rw [if_neg (by rw [hinv]; decide), ← Option.some.inj h]
      exact Nat.min_le_right _ _
  | completed => exact absurd hs hrep.1

/-- A repetition, when its timer is served. -/
theorem retransmitHandler_repeats (invite reliable : Bool) (start : Nat) (s : CtRun)
    (ct : SipCtrans) (d j now err : Nat) (h : Repeats invite reliable start s)
    (hct : s.ct = some ct) (hd : ct.tmre = some d) (hj : d ≤ j) (hnow : j ≤ now)
    (hfirst : NotAfter d ct.tmr) :
    Repeats invite reliable start (s.after now (retransmitHandler ct now err)) := by
  have ha := h.armed ct hct d hd
  have hkind := h.kind ct hct
  have hlt := armed_lt_sendLimit ct start s.sentAt.length d ha hfirst
  -- The count is one less than the requests sent, of which few are allowed.
  have hsmall : ct.txc + 1 ≤ 11 := by
    have := sendLimit_le ct.invite ct.reliable
    have := ha.sent_eq
    omega
  have htxc : u32 (ct.txc + 1) = ct.txc + 1 := u32_of_lt _ (by omega)
  unfold retransmitHandler
  cases ht : retransmitTimeout { ct with txc := u32 (ct.txc + 1), tmre := none } with
  | none => exact absurd ((retransmitTimeout_eq_none _).mp ht) ha.repeating.1
  | some timeout =>
      have hdelay : schedule ct.invite (ct.txc + 1) ≤ timeout := by
        have := schedule_le_retransmitTimeout { ct with txc := u32 (ct.txc + 1), tmre := none }
          timeout ha.repeating (by rw [htxc]; exact hsmall) ht
        rw [htxc] at this
        exact this
      simp only [ht]
      split
      · -- It went out, and the next one is due a delay later.
        have hsent : ∀ o, (s.after now (o, [.request])).sentAt = now :: s.sentAt :=
          fun o => by simp only [CtRun.after, List.mem_singleton, if_true]
        refine ⟨fun x hx => ?_, ?_, ?_, fun x hx d' hd' => ?_⟩
        · rw [← Option.some.inj hx]
          exact hkind
        · rw [hsent, List.length_cons, ← hkind.1, ← hkind.2]
          exact hlt
        · rw [hsent]
          refine ⟨Or.inr ?_, h.spaced⟩
          rw [ha.sent_eq, ← hkind.1]
          have hbehind := ha.behind
          unfold Behind at hbehind
          omega
        · rw [hsent, List.length_cons]
          rw [← Option.some.inj hx] at hd' ⊢
          rw [← Option.some.inj hd']
          refine ⟨ha.unreliable, ha.repeating, ?_, ha.limit, ?_⟩
          · simp only [htxc]
            rw [ha.sent_eq]
          · simp only [htxc]
            exact behind_next (schedule ct.invite) start ct.txc d now timeout ha.behind
              (Nat.le_trans hj hnow) hdelay
      · exact keepsTimer_repeats invite reliable start s ct now _ h hct
          (keepsTimer_none ct _ (request_notMem_terminate _ err))

/-- What an event does to the timer for the next repetition. -/
theorem ctStep_timer (s s' : CtRun) (e : CtEvent) (h : ctStep s e = some s')
    (hrep : ∀ ct ∈ s.ct, ct.tmre ≠ none → Repeating ct) :
    ∃ ct, s.ct = some ct ∧ ((∃ now r, s.now ≤ now ∧ s' = s.after now r ∧ KeepsTimer ct r) ∨
      (∃ d j now err, e = .retransmit j now err ∧ ct.tmre = some d ∧ s.now ≤ now ∧ d ≤ j ∧ j ≤ now ∧
        NotAfter d ct.tmr ∧ s' = s.after now (retransmitHandler ct now err)) ∨
      ∃ now, s.now ≤ now ∧ s' = { s with ct := none, now := now, released := true }) := by
  unfold ctStep at h
  cases hct : s.ct with
  | none => simp only [hct, reduceCtorEq] at h
  | some ct =>
      have hrep' := hrep ct hct
      refine ⟨ct, rfl, ?_⟩
      simp only [hct] at h
      cases e with
      | response scode now acked =>
          simp only [Option.ite_none_right_eq_some, Option.some.injEq] at h
          exact Or.inl ⟨now, _, h.1, h.2.symm, responseHandler_keepsTimer ct scode now acked hrep'⟩
      | expire j =>
          cases ht : ct.tmr with
          | none => simp only [ht, reduceCtorEq] at h
          | some d =>
              simp only [ht, Option.ite_none_right_eq_some, Option.some.injEq] at h
              exact Or.inl ⟨j, _, h.1.1, h.2.symm,
                keepsTimer_none ct _ (request_notMem_terminate _ _)⟩
      | retransmit j now err =>
          cases ht : ct.tmre with
          | none => simp only [ht, reduceCtorEq] at h
          | some d =>
              simp only [ht, Option.ite_none_right_eq_some, Option.some.injEq] at h
              exact Or.inr (Or.inl ⟨d, j, now, err, rfl, rfl, Nat.le_trans h.1.1 h.1.2.2.1,
                h.1.2.1, h.1.2.2.1, h.1.2.2.2, h.2.symm⟩)
      | transport now err =>
          simp only [Option.ite_none_right_eq_some, Option.some.injEq] at h
          exact Or.inl ⟨now, _, h.1.1, h.2.symm,
            keepsTimer_none ct _ (request_notMem_terminate ct err)⟩
      | cancel now err =>
          simp only [Option.ite_none_right_eq_some, Option.some.injEq] at h
          exact Or.inl ⟨now, _, h.1, h.2.symm, sipCtransCancel_keepsTimer ct now err hrep'⟩
      | release now =>
          simp only [Option.ite_none_right_eq_some, Option.some.injEq] at h
          exact Or.inr (Or.inr ⟨now, h.1, h.2.symm⟩)

theorem repeating_of_repeats (invite reliable : Bool) (start : Nat) (s : CtRun)
    (h : Repeats invite reliable start s) : ∀ ct ∈ s.ct, ct.tmre ≠ none → Repeating ct := by
  intro ct hct hne
  rcases Option.ne_none_iff_exists'.mp hne with ⟨d, hd⟩
  exact (h.armed ct hct d hd).repeating

theorem ctStep_repeats (invite reliable : Bool) (start : Nat) (s : CtRun) (e : CtEvent) (s' : CtRun)
    (h : Repeats invite reliable start s) (hstep : ctStep s e = some s') :
    Repeats invite reliable start s' := by
  rcases ctStep_timer s s' e hstep (repeating_of_repeats invite reliable start s h) with
    ⟨ct, hct, ⟨now, r, _, hs', hr⟩ | ⟨d, j, now, err, _, hd, _, hj, hnow, hfirst, hs'⟩ | ⟨now, _, hs'⟩⟩
  · rw [hs']
    exact keepsTimer_repeats invite reliable start s ct now r h hct hr
  · rw [hs']
    exact retransmitHandler_repeats invite reliable start s ct d j now err h hct hd hj hnow hfirst
  · rw [hs']
    exact ⟨fun x hx => absurd hx (by simp only [Option.mem_def, reduceCtorEq, not_false_eq_true]),
      h.count, h.spaced, fun x hx => absurd hx (by simp only [Option.mem_def, reduceCtorEq,
        not_false_eq_true])⟩

theorem ctInit_repeats (invite reliable : Bool) (t c1 c2 : Nat) (h : c1 ≤ c2) :
    Repeats invite reliable c2 (ctInit invite reliable t c1 c2) := by
  refine ⟨fun x hx => ?_, ?_, ⟨Or.inl rfl, trivial⟩, fun x hx d hd => ?_⟩
  · rw [← Option.some.inj hx]
    exact ⟨rfl, rfl⟩
  · change 1 ≤ sendLimit invite reliable
    unfold sendLimit
    split
    · omega
    · split
      · omega
      · omega
  · rw [← Option.some.inj hx] at hd ⊢
    cases reliable with
    | true => exact absurd hd (by simp only [if_true, Option.mem_def, reduceCtorEq,
        not_false_eq_true])
    | false =>
        have hdeadline : d = c2 + sipT1 := (Option.some.inj hd).symm
        rw [hdeadline]
        refine ⟨rfl, ⟨?_, fun hinv => if_pos hinv⟩, rfl, ⟨_, rfl, by omega⟩, ?_⟩
        · simp only
          split
          · decide
          · decide
        · refine behind_start (schedule invite) c2 sipT1 ?_
          unfold schedule
          split
          · decide
          · decide

/-- However late the timers are served, and whatever else happens, a request
    is sent at most 7 times if it is an INVITE and 11 times if not, and once
    over a reliable transport. It is not repeated before its time. -/
theorem request_sent_boundedly (invite reliable : Bool) (t c1 c2 : Nat) (hclock : c1 ≤ c2)
    (es : List CtEvent) (s : CtRun)
    (h : exec ctStep (ctInit invite reliable t c1 c2) es = some s) :
    s.sentAt.length ≤ sendLimit invite reliable ∧ Spaced (schedule invite) c2 s.sentAt := by
  have hs : Repeats invite reliable c2 s := exec_invariant ctStep (Repeats invite reliable c2)
    (ctStep_repeats invite reliable c2) es _ s (ctInit_repeats invite reliable t c1 c2 hclock) h
  exact ⟨hs.count, hs.spaced⟩

/-- An INVITE nobody answers, with every timer served on time. -/
theorem request_sent_boundedly_unanswered :
    ∃ s, exec ctStep (ctInit true false 0 0 0) [.retransmit 500 500 0, .retransmit 1500 1500 0,
        .retransmit 3500 3500 0, .retransmit 7500 7500 0, .retransmit 15500 15500 0,
        .retransmit 31500 31500 0, .expire 32000] = some s ∧
      s.sentAt = [31500, 15500, 7500, 3500, 1500, 500, 0] ∧
      s.reports = [.failure etimedout] ∧
      s.sentAt.length ≤ sendLimit true false ∧ Spaced (schedule true) 0 s.sentAt :=
  ⟨_, rfl, by decide, by decide, request_sent_boundedly true false 0 0 0 (Nat.le_refl 0)
    [.retransmit 500 500 0, .retransmit 1500 1500 0, .retransmit 3500 3500 0,
      .retransmit 7500 7500 0, .retransmit 15500 15500 0, .retransmit 31500 31500 0,
      .expire 32000] _ rfl⟩

end Ctrans

end SipPerf
