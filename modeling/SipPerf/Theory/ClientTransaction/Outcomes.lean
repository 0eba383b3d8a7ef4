import SipPerf.Core.Ctrans
import SipPerf.Lib.Transition

/-!
# What a Client Transaction Comes To

A transaction calls its response handler with provisional responses for as
long as it likes, and then once with the outcome: a final response, or an
error. After that it does not call the handler again, even though it may live
on to absorb what is still on its way. A transaction that is gone has called
the handler with an outcome, unless its owner let go of it.

All of this follows from what one call of a handler can do, which is
`Settles`. It is undecided and stays so, it comes to its decision with the
last thing it does, or it was decided before and reports nothing.

## Main definitions

* `Undecided`, `Decided`: Whether there has been an outcome.
* `Settles`: What a handler can do about that.
* `Reported`: The history of a transaction with at most one outcome, at the
  end.

## Theorems

* `responseHandler_settles` and the like: Each handler.
* `ctStep_reported`: Every event keeps the history as it should be.
* `transaction_reports_once`: The outcome of a transaction.
-/

namespace SipPerf

namespace Ctrans

open Transition MachineInt

/-! ## Outcomes -/

/-- The handler is called for the last time. -/
def CtOut.isOutcome : CtOut → Bool
  | .response scode => decide (200 ≤ scode)
  | .failure _ => true
  | _ => false

/-- The handler is called. -/
def CtOut.isReport : CtOut → Bool
  | .response _ => true
  | .failure _ => true
  | _ => false

theorem isReport_of_isOutcome (o : CtOut) (h : o.isOutcome = true) : o.isReport = true := by
  cases o with
  | response scode => rfl
  | failure err => rfl
  | request => exact absurd h (by decide)
  | ack => exact absurd h (by decide)
  | cancel => exact absurd h (by decide)

/-- The transaction has not come to an outcome. -/
def Undecided (ct : SipCtrans) : Prop := ct.state ≠ .completed

/-- The transaction is gone or has come to an outcome. -/
def Decided (o : Option SipCtrans) : Prop := ∀ ct ∈ o, ct.state = .completed

theorem undecided_of (ct : SipCtrans) (state : CtState) (h : ct.state = state)
    (hs : state ≠ .completed) : Undecided ct := by
  rw [Undecided, h]
  exact hs

/-- What a handler can do. -/
inductive Settles (ct : SipCtrans) (r : Option SipCtrans × List CtOut) : Prop where
  | pending (ct' : SipCtrans) (hct : Undecided ct) (hr : r.1 = some ct') (hct' : Undecided ct')
      (houts : ∀ o ∈ r.2, o.isOutcome = false)
  | decides (l : List CtOut) (o : CtOut) (hct : Undecided ct) (hr : Decided r.1)
      (houts : r.2 = l ++ [o]) (hl : ∀ x ∈ l, x.isOutcome = false) (ho : o.isOutcome = true)
  | settled (hct : ct.state = .completed) (hr : Decided r.1) (houts : ∀ o ∈ r.2, o.isReport = false)

theorem terminate_settles (ct : SipCtrans) (err : Nat) :
    Settles ct (none, terminate ct err) := by
  have hgone : Decided none := fun ct' h => absurd h (by simp only [Option.mem_def, reduceCtorEq,
    not_false_eq_true])
  have hnil : ∀ x ∈ ([] : List CtOut), x.isOutcome = false := fun x hx => absurd hx List.not_mem_nil
  unfold terminate
  cases hs : ct.state with
  | trying => exact .decides [] _ (undecided_of ct .trying hs (by decide)) hgone rfl hnil rfl
  | calling => exact .decides [] _ (undecided_of ct .calling hs (by decide)) hgone rfl hnil rfl
  | proceeding => exact .decides [] _ (undecided_of ct .proceeding hs (by decide)) hgone rfl hnil rfl
  | completed => exact .settled hs hgone (fun o ho => absurd ho List.not_mem_nil)

/-- Fields other than the state do not matter. -/
theorem settles_congr (ct ct' : SipCtrans) (r : Option SipCtrans × List CtOut)
    (h : ct'.state = ct.state) (hs : Settles ct' r) : Settles ct r := by
  cases hs with
  | pending x hct hr hx houts => exact .pending x (by rw [Undecided, ← h]; exact hct) hr hx houts
  | decides l o hct hr houts hl ho =>
      exact .decides l o (by rw [Undecided, ← h]; exact hct) hr houts hl ho
  | settled hct hr houts => exact .settled (by rw [← h]; exact hct) hr houts

theorem retransmitTimeout_eq_none (ct : SipCtrans) :
    retransmitTimeout ct = none ↔ ct.state = .completed := by
  unfold retransmitTimeout
  cases ct.state with
  | trying => simp only [reduceCtorEq]
  | calling => simp only [reduceCtorEq]
  | proceeding => simp only [reduceCtorEq]
  | completed => simp only

theorem retransmitHandler_settles (ct : SipCtrans) (now err : Nat) :
    Settles ct (retransmitHandler ct now err) := by
  unfold retransmitHandler
  -- There is no next delay exactly once the transaction has completed.
  have hiff := retransmitTimeout_eq_none { ct with txc := u32 (ct.txc + 1), tmre := none }
  cases ht : retransmitTimeout { ct with txc := u32 (ct.txc + 1), tmre := none } with
  | none =>
      have hs : ct.state = .completed := hiff.mp ht
      simp only [ht]
      refine .settled hs (fun x hx => ?_) (fun o ho => absurd ho List.not_mem_nil)
      rw [← Option.some.inj hx]
      exact hs
  | some timeout =>
      have hun : Undecided ct := fun hs => by
        rw [hiff.mpr hs] at ht
        exact absurd ht (by simp only [reduceCtorEq, not_false_eq_true])
      simp only [ht]
      split
      · refine .pending _ hun rfl hun (fun o ho => ?_)
        rw [List.mem_singleton.mp ho]
        rfl
      -- The repetition did not go out, which is an outcome as well.
      · exact settles_congr ct { ct with txc := u32 (ct.txc + 1), tmre := some (now + timeout) } _
          rfl (terminate_settles _ err)

theorem sendAck_quiet (acked : Bool) : ∀ o ∈ sendAck acked, o.isReport = false := by
  intro o ho
  unfold sendAck at ho
  cases acked with
  | true =>
      rw [List.mem_singleton.mp ho]
      rfl
  | false => exact absurd ho List.not_mem_nil

theorem sendAck_outcome (acked : Bool) : ∀ o ∈ sendAck acked, o.isOutcome = false := by
  intro o ho
  by_contra hc
  have hreport := isReport_of_isOutcome o (by simpa using hc)
  rw [sendAck_quiet acked o ho] at hreport
  exact absurd hreport (by decide)

theorem inviteProceeding_settles (ct : SipCtrans) (scode now : Nat) (acked : Bool)
    (h : Undecided ct) : Settles ct (inviteProceeding ct scode now acked) := by
  have hgone : Decided none := fun ct' h => absurd h (by simp only [Option.mem_def, reduceCtorEq,
    not_false_eq_true])
  unfold inviteProceeding
  by_cases hprov : scode < 200
  · rw [if_pos hprov]
    refine .pending _ h rfl (undecided_of _ .proceeding rfl (by decide)) (fun o ho => ?_)
    rw [List.mem_singleton.mp ho]
    simp only [CtOut.isOutcome, decide_eq_false_iff_not]
    omega
  · have hfinal : (CtOut.response scode).isOutcome = true := by
      simp only [CtOut.isOutcome, decide_eq_true_eq]
      omega
    rw [if_neg hprov]
    split
    · exact .decides [] _ h hgone rfl (fun x hx => absurd hx List.not_mem_nil) hfinal
    · split
      · exact .decides _ _ h hgone rfl (sendAck_outcome acked) hfinal
      · refine .decides _ _ h (fun x hx => ?_) rfl (sendAck_outcome acked) hfinal
        rw [← Option.some.inj hx]

theorem inviteResponse_settles (ct : SipCtrans) (scode now : Nat) (acked : Bool) :
    Settles ct (inviteResponse ct scode now acked) := by
  unfold inviteResponse
  split
  next hs =>
    exact settles_congr ct { ct with tmr := none, tmre := none } _ rfl
      (inviteProceeding_settles _ scode now acked (undecided_of _ .calling hs (by decide)))
  next hs =>
    exact inviteProceeding_settles ct scode now acked (undecided_of ct .proceeding hs (by decide))
  next hs =>
    -- A rejection has been reported, and an ACK is no report.
    have hdone : Decided (some ct) := fun x hx => by rw [← Option.some.inj hx]; exact hs
    split
    · exact .settled hs hdone (fun o ho => absurd ho List.not_mem_nil)
    · exact .settled hs hdone (sendAck_quiet acked)
  next hs =>
    have hun := undecided_of ct .trying hs (by decide)
    exact .pending ct hun rfl hun (fun o ho => absurd ho List.not_mem_nil)

theorem responseHandler_settles (ct : SipCtrans) (scode now : Nat) (acked : Bool) :
    Settles ct (responseHandler ct scode now acked) := by
  unfold responseHandler
  by_cases hinv : ct.invite = true
  · rw [if_pos hinv]
    exact inviteResponse_settles ct scode now acked
  · rw [if_neg hinv]
    by_cases hopen : ct.state = .trying ∨ ct.state = .proceeding
    · have hun : Undecided ct := by
        rcases hopen with hs | hs
        · exact undecided_of ct .trying hs (by decide)
        · exact undecided_of ct .proceeding hs (by decide)
      rw [if_pos hopen]
      by_cases hprov : scode < 200
      · rw [if_pos hprov]
        refine .pending _ hun rfl (undecided_of _ .proceeding rfl (by decide)) (fun o ho => ?_)
        rw [List.mem_singleton.mp ho]
        simp only [CtOut.isOutcome, decide_eq_false_iff_not]
        omega
      · have hfinal : (CtOut.response scode).isOutcome = true := by
          simp only [CtOut.isOutcome, decide_eq_true_eq]
          omega
        rw [if_neg hprov]
        split
        · exact .decides [] _ hun (fun x hx => absurd hx (by simp only [Option.mem_def,
            reduceCtorEq, not_false_eq_true])) rfl (fun x hx => absurd hx List.not_mem_nil) hfinal
        · refine .decides [] _ hun (fun x hx => ?_) rfl (fun x hx => absurd hx List.not_mem_nil)
            hfinal
          rw [← Option.some.inj hx]
    · rw [if_neg hopen]
      -- An INVITE's state, or nothing more to report.
      by_cases hdone : ct.state = .completed
      · refine .settled hdone (fun x hx => ?_) (fun o ho => absurd ho List.not_mem_nil)
        rw [← Option.some.inj hx]
        exact hdone
      · exact .pending ct hdone rfl hdone (fun o ho => absurd ho List.not_mem_nil)

theorem sipCtransCancel_settles (ct : SipCtrans) (now err : Nat) :
    Settles ct (some (sipCtransCancel ct now err).1, (sipCtransCancel ct now err).2.1) := by
  -- Asking for a CANCEL decides nothing: the response to the INVITE does.
  have hstate : (sipCtransCancel ct now err).1.state = ct.state := by
    unfold sipCtransCancel
    split
    · rfl
    · split
      · rfl
      · rfl
  have hquiet : ∀ o ∈ (sipCtransCancel ct now err).2.1, o.isReport = false := by
    intro o ho
    unfold sipCtransCancel at ho
    split at ho
    · exact absurd ho List.not_mem_nil
    · split at ho
      · simp only at ho
        split at ho
        · rw [List.mem_singleton.mp ho]
          rfl
        · exact absurd ho List.not_mem_nil
      · exact absurd ho List.not_mem_nil
  by_cases hdone : ct.state = .completed
  · refine .settled hdone (fun x hx => ?_) hquiet
    rw [← Option.some.inj hx, hstate]
    exact hdone
  · refine .pending _ hdone rfl (by rw [Undecided, hstate]; exact hdone) (fun o ho => ?_)
    by_contra hc
    have hreport := isReport_of_isOutcome o (by simpa using hc)
    rw [hquiet o ho] at hreport
    exact absurd hreport (by decide)

/-! ## One outcome -/

/-- Nothing in the history is an outcome. -/
def NoOutcome (outs : List CtOut) : Prop := ∀ o ∈ outs, o.isOutcome = false

/-- The history has one outcome, and the handler has not been called since. -/
def OneOutcome (outs : List CtOut) : Prop := ∃ late o early, outs = late ++ o :: early ∧
  (∀ x ∈ late, x.isReport = false) ∧ o.isOutcome = true ∧ NoOutcome early

/-- A transaction and its history, latest first. -/
structure Reported (s : CtRun) : Prop where
  undecided : ∀ ct ∈ s.ct, Undecided ct → NoOutcome s.outs
  decided : Decided s.ct → OneOutcome s.outs ∨ (s.released = true ∧ NoOutcome s.outs)
  gone : s.released = true → s.ct = none

/-- The history after a handler. -/
theorem settles_reported (s : CtRun) (ct : SipCtrans) (now : Nat)
    (r : Option SipCtrans × List CtOut) (h : Reported s) (hct : s.ct = some ct)
    (hs : Settles ct r) : Reported (s.after now r) := by
  -- The owner has not let go, as the transaction is there.
  have hkept : (s.after now r).released = true → (s.after now r).ct = none := by
    intro hrel
    rw [h.gone hrel] at hct
    exact absurd hct (by simp only [reduceCtorEq, not_false_eq_true])
  cases hs with
  | pending ct' hun hr hun' houts =>
      have hall : NoOutcome (s.after now r).outs := by
        intro o ho
        rcases List.mem_append.mp ho with hnew | hold
        · exact houts o (List.mem_reverse.mp hnew)
        · exact h.undecided ct hct hun o hold
      refine ⟨fun _ _ _ => hall, fun hdone => ?_, hkept⟩
      exact absurd (hdone ct' hr) hun'
  | decides l o hun hr houts hl ho =>
      refine ⟨fun x hx hxun => absurd (hr x hx) hxun, fun _ => Or.inl ?_, hkept⟩
      refine ⟨[], o, l.reverse ++ s.outs, ?_, fun x hx => absurd hx List.not_mem_nil, ho, ?_⟩
      · simp only [CtRun.after, houts, List.reverse_append, List.reverse_cons, List.reverse_nil,
          List.nil_append, List.cons_append]
      · intro x hx
        rcases List.mem_append.mp hx with hnew | hold
        · exact hl x (List.mem_reverse.mp hnew)
        · exact h.undecided ct hct hun x hold
  | settled hdone hr houts =>
      refine ⟨fun x hx hxun => absurd (hr x hx) hxun, fun _ => ?_, hkept⟩
      -- The outcome came before, and what is new goes behind it.
      have hbefore : Decided s.ct := fun x hx => by
        rw [hct, Option.mem_def, Option.some.injEq] at hx
        rw [← hx]
        exact hdone
      rcases h.decided hbefore with ⟨late, o, early, heq, hlate, ho, hearly⟩ | ⟨hrel, hnone⟩
      · refine Or.inl ⟨r.2.reverse ++ late, o, early, ?_, fun x hx => ?_, ho, hearly⟩
        · simp only [CtRun.after, heq, List.append_assoc]
        · rcases List.mem_append.mp hx with hnew | hold
          · exact houts x (List.mem_reverse.mp hnew)
          · exact hlate x hold
      · refine Or.inr ⟨hrel, fun x hx => ?_⟩
        rcases List.mem_append.mp hx with hnew | hold
        · by_contra hc
          have hreport := isReport_of_isOutcome x (by simpa using hc)
          rw [houts x (List.mem_reverse.mp hnew)] at hreport
          exact absurd hreport (by decide)
        · exact hnone x hold

/-- What an event does: it runs a handler, or the owner lets go. -/
theorem ctStep_cases (s s' : CtRun) (e : CtEvent) (h : ctStep s e = some s') :
    ∃ ct, s.ct = some ct ∧ ((∃ now r, s' = s.after now r ∧ Settles ct r) ∨
      ∃ now, s' = { s with ct := none, now := now, released := true }) := by
  unfold ctStep at h
  cases hct : s.ct with
  | none => simp only [hct, reduceCtorEq] at h
  | some ct =>
      refine ⟨ct, rfl, ?_⟩
      simp only [hct] at h
      cases e with
      | response scode now acked =>
          simp only at h
          split at h
          · exact Or.inl ⟨now, _, (Option.some.inj h).symm, responseHandler_settles ct scode now
              acked⟩
          · exact absurd h (by simp only [reduceCtorEq, not_false_eq_true])
      | expire j =>
          cases ht : ct.tmr with
          | none => simp only [ht, reduceCtorEq] at h
          | some d =>
              simp only [ht] at h
              split at h
              · exact Or.inl ⟨j, _, (Option.some.inj h).symm,
                  settles_congr ct _ _ rfl (terminate_settles _ etimedout)⟩
              · exact absurd h (by simp only [reduceCtorEq, not_false_eq_true])
      | retransmit j now err =>
          cases ht : ct.tmre with
          | none => simp only [ht, reduceCtorEq] at h
          | some d =>
              simp only [ht] at h
              split at h
              · exact Or.inl ⟨now, _, (Option.some.inj h).symm,
                  retransmitHandler_settles ct now err⟩
              · exact absurd h (by simp only [reduceCtorEq, not_false_eq_true])
      | transport now err =>
          simp only at h
          split at h
          · exact Or.inl ⟨now, _, (Option.some.inj h).symm, terminate_settles ct err⟩
          · exact absurd h (by simp only [reduceCtorEq, not_false_eq_true])
      | cancel now err =>
          simp only at h
          split at h
          · exact Or.inl ⟨now, _, (Option.some.inj h).symm, sipCtransCancel_settles ct now err⟩
          · exact absurd h (by simp only [reduceCtorEq, not_false_eq_true])
      | release now =>
          simp only at h
          split at h
          · exact Or.inr ⟨now, (Option.some.inj h).symm⟩
          · exact absurd h (by simp only [reduceCtorEq, not_false_eq_true])

theorem ctStep_reported (s : CtRun) (e : CtEvent) (s' : CtRun) (h : Reported s)
    (hstep : ctStep s e = some s') : Reported s' := by
  rcases ctStep_cases s s' e hstep with ⟨ct, hct, ⟨now, r, hs', hr⟩ | ⟨now, hs'⟩⟩
  · rw [hs']
    exact settles_reported s ct now r h hct hr
  · rw [hs']
    refine ⟨fun x hx => absurd hx (by simp only [Option.mem_def, reduceCtorEq, not_false_eq_true]),
      fun _ => ?_, fun _ => rfl⟩
    -- An owner that lets go before the outcome never gets one.
    by_cases hdone : ct.state = .completed
    · rcases h.decided (fun x hx => by
        rw [hct, Option.mem_def, Option.some.injEq] at hx
        rw [← hx]
        exact hdone) with hone | ⟨_, hnone⟩
      · exact Or.inl hone
      · exact Or.inr ⟨rfl, hnone⟩
    · exact Or.inr ⟨rfl, h.undecided ct hct hdone⟩

theorem ctInit_reported (invite reliable : Bool) (t c1 c2 : Nat) :
    Reported (ctInit invite reliable t c1 c2) := by
  have hnone : NoOutcome [CtOut.request] := by
    intro o ho
    rw [List.mem_singleton.mp ho]
    rfl
  refine ⟨fun _ _ _ => hnone, fun hdone => ?_, fun h => absurd h Bool.false_ne_true⟩
  have hstate := hdone _ rfl
  cases invite with
  | true => exact absurd hstate (by simp only [if_true, reduceCtorEq, not_false_eq_true])
  | false => exact absurd hstate (by simp only [Bool.false_eq_true, if_false, reduceCtorEq,
      not_false_eq_true])

/-- The calls of the response handler so far, in order. -/
def CtRun.reports (s : CtRun) : List CtOut := s.outs.reverse.filter CtOut.isReport

theorem reports_of_noOutcome (s : CtRun) (h : NoOutcome s.outs) :
    ∀ o ∈ s.reports, o.isOutcome = false := by
  intro o ho
  exact h o (List.mem_reverse.mp (List.mem_of_mem_filter ho))

theorem reports_of_oneOutcome (s : CtRun) (h : OneOutcome s.outs) :
    ∃ provisional o, s.reports = provisional ++ [o] ∧ (∀ x ∈ provisional, x.isOutcome = false) ∧
      o.isOutcome = true := by
  rcases h with ⟨late, o, early, heq, hlate, ho, hearly⟩
  refine ⟨early.reverse.filter CtOut.isReport, o, ?_, fun x hx => ?_, ho⟩
  · -- What came after the outcome was sent, not reported.
    have hquiet : late.reverse.filter CtOut.isReport = [] := by
      rw [List.filter_eq_nil_iff]
      intro x hx
      rw [hlate x (List.mem_reverse.mp hx)]
      exact Bool.false_ne_true
    rw [CtRun.reports, heq, List.reverse_append, List.reverse_cons, List.filter_append, hquiet,
      List.filter_append, List.append_nil, List.filter_singleton, isReport_of_isOutcome o ho,
      cond_true]
  · exact hearly x (List.mem_reverse.mp (List.mem_of_mem_filter hx))

/-- Whatever happens, and in whatever order, the response handler is called
    with provisional responses and then with at most one outcome. There has
    been an outcome if the transaction is gone and its owner has not let go of
    it, and of a transaction that is still there exactly if it has completed. -/
theorem transaction_reports_once (invite reliable : Bool) (t c1 c2 : Nat) (es : List CtEvent)
    (s : CtRun) (h : exec ctStep (ctInit invite reliable t c1 c2) es = some s) :
    ∃ provisional outcome, s.reports = provisional ++ outcome ∧
      (∀ o ∈ provisional, o.isOutcome = false) ∧ (∀ o ∈ outcome, o.isOutcome = true) ∧
      outcome.length ≤ 1 ∧ (s.ct = none → s.released = false → outcome.length = 1) ∧
      ∀ ct ∈ s.ct, (outcome.length = 1 ↔ ct.state = .completed) := by
  have hs : Reported s := exec_invariant ctStep Reported ctStep_reported es _ s
    (ctInit_reported invite reliable t c1 c2) h
  by_cases hdone : Decided s.ct
  · rcases hs.decided hdone with hone | ⟨hrel, hnone⟩
    · rcases reports_of_oneOutcome s hone with ⟨provisional, o, heq, hprov, ho⟩
      refine ⟨provisional, [o], heq, hprov, fun x hx => ?_, Nat.le_refl 1, fun _ _ => rfl,
        fun ct hct => ⟨fun _ => hdone ct hct, fun _ => rfl⟩⟩
      rw [List.mem_singleton.mp hx]
      exact ho
    · refine ⟨s.reports, [], (List.append_nil _).symm, reports_of_noOutcome s hnone,
        fun x hx => absurd hx List.not_mem_nil, Nat.zero_le 1, fun _ hkept => ?_, fun ct hct => ?_⟩
      · rw [hrel] at hkept
        exact absurd hkept (by decide)
      · rw [hs.gone hrel] at hct
        exact absurd hct (by simp only [Option.mem_def, reduceCtorEq, not_false_eq_true])
  · cases hct : s.ct with
    | none => exact absurd (fun x hx => by
        rw [hct] at hx
        exact absurd hx (by simp only [Option.mem_def, reduceCtorEq, not_false_eq_true])) hdone
    | some ct =>
        have hun : Undecided ct := fun hc => hdone (fun x hx => by
          rw [hct, Option.mem_def, Option.some.injEq] at hx
          rw [← hx]
          exact hc)
        refine ⟨s.reports, [], (List.append_nil _).symm,
          reports_of_noOutcome s (hs.undecided ct hct hun),
          fun x hx => absurd hx List.not_mem_nil, Nat.zero_le 1,
          fun hc => absurd hc (by simp only [reduceCtorEq, not_false_eq_true]), fun x hx => ?_⟩
        rw [Option.mem_def, Option.some.injEq] at hx
        rw [← hx]
        exact ⟨fun hc => absurd hc (by decide), fun hc => absurd hc hun⟩

/-- A call that rings, is turned down over UDP, and whose rejection comes
    twice. -/
theorem transaction_reports_once_rejected :
    ∃ s, exec ctStep (ctInit true false 0 0 0) [.response 180 5 true, .response 486 9 true,
        .response 486 12 true] = some s ∧ s.reports = [.response 180, .response 486] ∧
      ∃ provisional outcome, s.reports = provisional ++ outcome ∧
        (∀ o ∈ provisional, o.isOutcome = false) ∧ (∀ o ∈ outcome, o.isOutcome = true) ∧
        outcome.length ≤ 1 ∧ (s.ct = none → s.released = false → outcome.length = 1) ∧
        ∀ ct ∈ s.ct, (outcome.length = 1 ↔ ct.state = .completed) :=
  ⟨_, rfl, by decide, transaction_reports_once true false 0 0 0
    [.response 180 5 true, .response 486 9 true, .response 486 12 true] _ rfl⟩

end Ctrans

end SipPerf
