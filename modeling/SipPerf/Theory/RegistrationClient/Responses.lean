import SipPerf.Core.Sipreg

/-!
# Responses to a Registration

An attempt makes a limited number of requests, since every request but the
first answers a response that counts against the loop state. It ends with one
report to the owner and with the timer. `Answers` says which of these the
handler of responses comes to, and `Stepped` what one event does.

## Main definitions

* `WaitFor`: How long the timer runs.
* `Answers`: What the handler of responses can do.
* `Stepped`: What one event does.

## Theorems

* `finish_answers`, `again_answers`, `rejected_answers`: The ends of the
  handler of responses.
* `responseHandler_answers`: The handler of responses.
* `regStep_stepped`: One event.
-/

namespace SipPerf

namespace Sipreg

open MachineInt Sipsess

/-! ## Responses -/

/-- The time to the next attempt is that of a failure, or within what was
    granted. -/
def WaitFor (grant : Option Nat) (wait : Nat) : Prop :=
  match grant with
  | some g => wait = u32 (g * 900)
  | none => 15000 ≤ wait ∧ wait ≤ 1800000

/-- What the handler of responses can do with a client when a request has come
    to its end. `ok` is that the stack takes the requests it makes. -/
inductive Answers (reg : Reg) (grant : Option Nat) (now : Nat) (ok : Prop)
    (r : Option Reg × List RegOut) : Prop where
  | repeats (reg' : Reg) (hr : r = (some reg', [.register reg'.expires])) (hgrant : grant = none)
      (hreq : reg'.req = true) (hls : reg'.ls.failc = reg.ls.failc + 1)
      (hlimit : reg'.ls.failc < 16) (htmr : reg'.tmr = reg.tmr)
      (hterm : reg'.terminated = reg.terminated) (hzero : reg.terminated = true → reg'.expires = 0)
      (hexp : reg.terminated = false → reg'.expires ≠ 0) (hreg : reg'.registered = reg.registered)
  | ends (hr : r = (none, [])) (hterm : reg.terminated = true)
      (hlost : ok → reg.registered = true ∨ grant.isSome = true → reg.expires = 0)
  | unregisters (reg' : Reg) (hr : r = (some reg', [.register 0])) (hterm : reg.terminated = true)
      (hterm' : reg'.terminated = true) (hwas : reg.expires ≠ 0) (hexp : reg'.expires = 0)
      (hreq : reg'.req = true) (hls : reg'.ls.failc = 0) (htmr : reg'.tmr = reg.tmr)
  | waits (reg' : Reg) (err : Nat) (scode : Option Nat) (hr : r = (some reg', [.report err scode]))
      (hterm : reg.terminated = false) (hterm' : reg'.terminated = false) (hexp : reg'.expires ≠ 0)
      (hreq : reg'.req = false) (htmr : reg'.tmr = some (now + reg'.wait))
      (hwait : WaitFor grant reg'.wait)
      (hreg : reg.registered = true ∨ grant.isSome = true → reg'.registered = true)

theorem failwait_bounds (failc rnd : Nat) :
    15000 ≤ failwait failc rnd ∧ failwait failc rnd ≤ 1800000 := by
  have hpow : 1 ≤ 2 ^ min failc 6 := Nat.one_le_two_pow
  have hrnd := Nat.mod_lt rnd (by decide : 0 < 501)
  -- Half a minute at least, doubled up to half an hour.
  have hbase : 30 ≤ min 1800 (30 * 1 <<< min failc 6) ∧
      min 1800 (30 * 1 <<< min failc 6) ≤ 1800 := by
    rw [Nat.one_shiftLeft]
    omega
  unfold failwait
  constructor
  · calc 15000 = 30 * 500 := by decide
      _ ≤ _ := Nat.mul_le_mul hbase.1 (Nat.le_add_right 500 _)
  · calc _ ≤ 1800 * 1000 := Nat.mul_le_mul hbase.2 (by omega)
      _ = 1800000 := by decide

/-- `reg` is the client `reg0` when the handler has read the response. -/
structure Read (reg0 reg : Reg) : Prop where
  terminated : reg.terminated = reg0.terminated
  tmr : reg.tmr = reg0.tmr
  req : reg.req = false
  held : reg0.terminated = false → reg.expires ≠ 0
  expires : reg.expires = 0 ↔ reg0.expires = 0

theorem registered_of_none {registered registered0 : Bool} (h : registered = registered0)
    (hc : registered0 = true ∨ (none : Option Nat).isSome = true) : registered = true := by
  rw [Option.isSome_none, or_iff_left Bool.false_ne_true] at hc
  exact h.trans hc

/-- The end of an attempt. -/
theorem finish_answers (reg0 reg : Reg) (grant : Option Nat) (err : Nat) (scode : Option Nat)
    (now reqerr : Nat) (ok : Prop) (hread : Read reg0 reg) (hok : ok → reqerr = 0)
    (hwait : WaitFor grant reg.wait)
    (hreg : reg0.registered = true ∨ grant.isSome = true → reg.registered = true) :
    Answers reg0 grant now ok (finish reg err scode now reqerr) := by
  unfold finish
  by_cases ht : reg.terminated = true
  · have ht0 : reg0.terminated = true := hread.terminated.symm.trans ht
    -- Nobody is there to report to: the client goes, or deregisters first.
    by_cases he : reg.expires = 0
    · rw [if_pos he, destructor]
      simp only [ht, if_true]
      exact .ends rfl ht0 (fun _ _ => hread.expires.mp he)
    · rw [if_neg he, if_pos ht]
      split
      next hun =>
        refine .ends rfl ht0 (fun _ hc => ?_)
        rw [hreg hc] at hun
        exact absurd hun (by decide)
      · split
        next hacc =>
          simp only [request, ht, if_true, hacc]
          exact .unregisters _ rfl ht0 rfl (fun h0 => he (hread.expires.mpr h0)) rfl rfl rfl
            hread.tmr
        -- The stack did not take the request, and the registration is left.
        next hacc => exact .ends rfl ht0 (fun hc => absurd (hok hc) hacc)
  · have ht0 : reg0.terminated = false := hread.terminated.symm.trans (by simpa using ht)
    rw [if_neg (hread.held ht0), if_neg ht]
    exact .waits _ err scode rfl ht0 (by simpa using ht) (hread.held ht0) hread.req rfl hwait hreg

/-- The request is sent once more. -/
theorem again_answers (reg0 reg : Reg) (scode now reqerr reqerr2 : Nat) (ok : Prop)
    (hread : Read reg0 reg) (hok : ok → reqerr = 0 ∧ reqerr2 = 0) (hwait : WaitFor none reg.wait)
    (hreg : reg.registered = reg0.registered) (hls : reg.ls.failc = reg0.ls.failc + 1)
    (hlimit : reg.ls.failc < 16) :
    Answers reg0 none now ok (again reg scode now reqerr reqerr2) := by
  unfold again
  by_cases hacc : reqerr = 0
  · rw [if_pos hacc]
    by_cases ht : reg.terminated = true
    · have ht0 : reg0.terminated = true := hread.terminated.symm.trans ht
      simp only [request, ht, if_true, Bool.false_eq_true, if_false, hacc]
      refine .repeats _ rfl rfl rfl hls hlimit hread.tmr ht0.symm (fun _ => rfl) (fun hc => ?_) hreg
      rw [ht0] at hc
      exact absurd hc (by decide)
    · have ht0 : reg0.terminated = false := hread.terminated.symm.trans (by simpa using ht)
      simp only [request, ht, Bool.false_eq_true, if_false, hacc, if_true]
      refine .repeats _ rfl rfl rfl hls hlimit hread.tmr ht0.symm (fun hc => ?_)
        (fun _ => hread.held ht0) hreg
      rw [ht0] at hc
      exact absurd hc (by decide)
  · rw [if_neg hacc]
    by_cases ht : reg.terminated = true
    · simp only [request, ht, if_true, Bool.false_eq_true, if_false, hacc, finish, failed, destructor]
      exact .ends rfl (hread.terminated.symm.trans ht) (fun hc => absurd (hok hc).1 hacc)
    · simp only [request, ht, Bool.false_eq_true, if_false, hacc]
      exact finish_answers reg0 (failed reg) none reqerr (some scode) now reqerr2 ok
        ⟨hread.terminated, hread.tmr, hread.req, hread.held, hread.expires⟩
        (fun hc => (hok hc).2) hwait (registered_of_none hreg)

theorem sipRequestLoops_failc (ls : LoopState) (scode : Nat) (hfinal : 300 ≤ scode)
    (h : (sipRequestLoops ls scode).2 = false) :
    (sipRequestLoops ls scode).1.failc = ls.failc + 1 ∧ ls.failc + 1 < 16 := by
  unfold sipRequestLoops at h ⊢
  rw [if_neg (by omega), if_neg (by omega)] at h ⊢
  simp only [decide_eq_false_iff_not, not_or, Nat.not_le] at h
  exact ⟨rfl, h.1⟩

/-- A response of 300 and above that does not count as a loop. -/
theorem rejected_answers (reg0 reg : Reg) (msg : RegMsg) (now reqerr reqerr2 : Nat) (ok : Prop)
    (hread : Read reg0 reg) (hok : ok → reqerr = 0 ∧ reqerr2 = 0) (hwait : WaitFor none reg.wait)
    (hreg : reg.registered = reg0.registered) (hls : reg.ls.failc = reg0.ls.failc + 1)
    (hlimit : reg.ls.failc < 16) :
    Answers reg0 none now ok (rejected reg msg now reqerr reqerr2) := by
  have hkept := registered_of_none hreg
  -- The count of failures decides nothing but the waiting time.
  have hfailed : Read reg0 (failed reg) :=
    ⟨hread.terminated, hread.tmr, hread.req, hread.held, hread.expires⟩
  have hfinish (err : Nat) :
      Answers reg0 none now ok (finish (failed reg) err (some msg.scode) now reqerr2) :=
    finish_answers reg0 _ none err _ now reqerr2 ok hfailed (fun hc => (hok hc).2) hwait hkept
  unfold rejected
  split
  · exact finish_answers reg0 _ none 0 _ now reqerr2 ok hread (fun hc => (hok hc).2) hwait hkept
  · split
    · split
      · exact hfinish _
      · exact again_answers reg0 reg msg.scode now reqerr reqerr2 ok hread hok hwait hreg hls hlimit
    · split
      · simp only
        split
        · exact hfinish 0
        next hmin =>
          -- The interval is the one the registrar asks for.
          rw [not_or] at hmin
          have hboth : u32 (msg.minExpires.getD 0) = 0 ↔ reg0.expires = 0 :=
            ⟨fun h0 => absurd h0 hmin.1, fun h0 => absurd (hread.expires.mpr h0) hmin.2⟩
          exact again_answers reg0 _ msg.scode now reqerr reqerr2 ok
            ⟨hread.terminated, hread.tmr, hread.req, fun _ => hmin.1, hboth⟩ hok hwait hreg hls hlimit
      · exact hfinish 0

theorem responseHandler_provisional (reg : Reg) (result : RegResult) (now rnd reqerr reqerr2 : Nat)
    (h : result.isProvisional = true) :
    responseHandler reg result now rnd reqerr reqerr2 =
      (some { reg with wait := failwait (u32 (reg.failc + 1)) rnd }, []) := by
  cases result with
  | failure err scode => exact absurd h Bool.false_ne_true
  | message msg => exact if_pos (of_decide_eq_true h)

theorem responseHandler_answers (reg : Reg) (result : RegResult) (now rnd reqerr reqerr2 : Nat)
    (hheld : reg.terminated = false → reg.expires ≠ 0) (hfinal : result.isProvisional = false) :
    Answers reg (grantOf reg result) now (reqerr = 0 ∧ reqerr2 = 0)
      (responseHandler reg result now rnd reqerr reqerr2) := by
  have hfw : WaitFor none (failwait (u32 (reg.failc + 1)) rnd) := failwait_bounds _ rnd
  unfold responseHandler
  cases result with
  | failure err scode =>
      exact finish_answers reg _ none err scode now reqerr2 _ ⟨rfl, rfl, rfl, hheld, Iff.rfl⟩
        (fun hc => hc.2) hfw (registered_of_none rfl)
  | message msg =>
      have hprov : ¬msg.scode < 200 := of_decide_eq_false hfinal
      simp only
      rw [if_neg hprov]
      by_cases hok : msg.scode < 300
      · have hloop : (sipRequestLoops reg.ls msg.scode).2 = false := by
          unfold sipRequestLoops
          rw [if_neg hprov, if_pos hok]
        have hgrant : grantOf reg (.message msg) =
            some (contactWait msg.contacts msg.expires reg.expires) :=
          if_pos ⟨by omega, hok⟩
        rw [hloop, if_neg Bool.false_ne_true, if_pos hok, hgrant]
        exact finish_answers reg _ _ 0 _ now reqerr2 _ ⟨rfl, rfl, rfl, hheld, Iff.rfl⟩
          (fun hc => hc.2) rfl (fun _ => rfl)
      · have hgrant : grantOf reg (.message msg) = none := if_neg (fun hc => hok hc.2)
        rw [hgrant, if_neg hok]
        split
        · exact finish_answers reg _ none 0 _ now reqerr2 _ ⟨rfl, rfl, rfl, hheld, Iff.rfl⟩
            (fun hc => hc.2) hfw (registered_of_none rfl)
        next hloop =>
          rcases sipRequestLoops_failc reg.ls msg.scode (by omega) (by simpa using hloop) with
            ⟨hls, hlimit⟩
          exact rejected_answers reg _ msg now reqerr reqerr2 _ ⟨rfl, rfl, rfl, hheld, Iff.rfl⟩
            (fun hc => hc) hfw rfl hls (by rw [hls]; exact hlimit)

/-! ## Events -/

/-- One event, by what it is. -/
inductive Stepped (s : RegRun) (reg : Reg) : RegEvent → RegRun → Prop where
  | provisional (result : RegResult) (now rnd reqerr reqerr2 : Nat) (hreq : reg.req = true)
      (hprov : result.isProvisional = true) (w : Nat) :
      Stepped s reg (.response result now rnd reqerr reqerr2)
        { s with reg := some { reg with wait := w }, now := now }
  | final (result : RegResult) (now rnd reqerr reqerr2 : Nat) (hreq : reg.req = true)
      (hfinal : result.isProvisional = false) :
      Stepped s reg (.response result now rnd reqerr reqerr2)
        (s.after now (grantOf reg result) (responseHandler reg result now rnd reqerr reqerr2))
  | timer (j now rnd reqerr d : Nat) (htmr : reg.tmr = some d) :
      Stepped s reg (.timer j now rnd reqerr)
        (s.after now none (some (tmrHandler reg now rnd reqerr).1, (tmrHandler reg now rnd reqerr).2))
  | keepalive (err now rnd : Nat) :
      Stepped s reg (.keepalive err now rnd)
        (s.after now none (some (keepaliveHandler reg err now rnd).1,
          (keepaliveHandler reg err now rnd).2))
  | release (now reqerr : Nat) (hheld : s.released = false) :
      Stepped s reg (.release now reqerr)
        { s.after now none (destructor reg reqerr) with released := true }

theorem regStep_stepped (s s' : RegRun) (e : RegEvent) (h : regStep s e = some s') :
    ∃ reg, s.reg = some reg ∧ Stepped s reg e s' := by
  unfold regStep at h
  cases hreg : s.reg with
  | none =>
      rw [hreg] at h
      exact absurd h (by simp only [reduceCtorEq, not_false_eq_true])
  | some reg =>
      refine ⟨reg, rfl, ?_⟩
      rw [hreg] at h
      cases e with
      | response result now rnd reqerr reqerr2 =>
          rw [Option.ite_none_right_eq_some, Option.some.injEq] at h
          rw [← h.2]
          cases hprov : result.isProvisional with
          | true =>
              rw [responseHandler_provisional reg result now rnd reqerr reqerr2 hprov]
              exact .provisional result now rnd reqerr reqerr2 h.1.2 hprov _
          | false => exact .final result now rnd reqerr reqerr2 h.1.2 hprov
      | timer j now rnd reqerr =>
          simp only at h
          cases htmr : reg.tmr with
          | none =>
              rw [htmr] at h
              exact absurd h (by simp only [reduceCtorEq, not_false_eq_true])
          | some d =>
              simp only [htmr, Option.ite_none_right_eq_some, Option.some.injEq] at h
              rw [← h.2]
              exact .timer j now rnd reqerr d htmr
      | keepalive err now rnd =>
          rw [Option.ite_none_right_eq_some, Option.some.injEq] at h
          rw [← h.2]
          exact .keepalive err now rnd
      | release now reqerr =>
          rw [Option.ite_none_right_eq_some, Option.some.injEq] at h
          rw [← h.2]
          exact .release now reqerr h.1.2

end Sipreg

end SipPerf
