import SipPerf.Lib.Transition
import SipPerf.Theory.RegistrationClient.Responses

/-!
# What a Registration Client Waits For

A registration client either waits for the result of a request or for its
timer, and never for both or for nothing. The timer runs for a bounded time
after a failure and does not run past the registration after a success.

## Main definitions

* `attempt`: The requests since the latest report.
* `Held`, `LetGo`, `Sane`: The state of a client and its latest attempt.

## Theorems

* `regStep_sane`: Every event keeps the client in order.
* `registration_never_stalls`: The client waits for one thing, and an attempt
  makes at most 16 requests.
* `next_attempt_in_time`: When the next attempt begins.
-/

namespace SipPerf

namespace Sipreg

open MachineInt Sipsess Transition

/-- How many requests the latest attempt has made. -/
def attempt (outs : List RegOut) : Nat := (outs.takeWhile RegOut.isRegister).length

/-- A client with an owner waits for its request or for its timer. -/
structure Held (s : RegRun) (reg : Reg) : Prop where
  terminated : reg.terminated = false
  expires : reg.expires ≠ 0
  busy : reg.req = true → reg.tmr = none ∧ attempt s.outs = reg.ls.failc + 1 ∧ reg.ls.failc < 16
  idle : reg.req = false →
    attempt s.outs = 0 ∧ ∃ w, reg.tmr = some (s.since + w) ∧ WaitFor s.granted w

/-- A client without an owner waits for its request. -/
structure LetGo (reg : Reg) : Prop where
  terminated : reg.terminated = true
  pending : reg.req = true
  stopped : reg.tmr = none
  limit : reg.ls.failc < 16

/-- The client is gone only if its owner has let go of it. -/
def Sane (s : RegRun) : Prop :=
  (s.released = false ∧ ∃ reg, s.reg = some reg ∧ Held s reg) ∨
    (s.released = true ∧ ∀ reg, s.reg = some reg → LetGo reg)

theorem sipLoopstateReset_failc : sipLoopstateReset.failc < 16 := by decide

theorem Sane.letGo {s : RegRun} (hs : Sane s) (hrel : s.released = true) (reg : Reg)
    (hreg : s.reg = some reg) : LetGo reg := by
  rcases hs with ⟨hown, _⟩ | ⟨_, hgo⟩
  · rw [hrel] at hown
    exact absurd hown (by decide)
  · exact hgo reg hreg

theorem regInit_sane (now expires : Nat) (regid : Int) (h : expires ≠ 0) :
    Sane (regInit now expires regid) :=
  Or.inl ⟨rfl, _, rfl, rfl, h, fun _ => ⟨rfl, rfl, sipLoopstateReset_failc⟩,
    fun hc => absurd hc Bool.false_ne_true.symm⟩

/-- The client takes up its registration once more. -/
theorem held_registers (s : RegRun) (reg : Reg) (now : Nat) (grant : Option Nat)
    (hterm : reg.terminated = false) (hexp : reg.expires ≠ 0) (hreq : reg.req = true)
    (htmr : reg.tmr = none) (htried : attempt s.outs = reg.ls.failc) (hlimit : reg.ls.failc < 16) :
    Held (s.after now grant (some reg, [.register reg.expires])) reg := by
  refine ⟨hterm, hexp, fun _ => ⟨htmr, ?_, hlimit⟩, fun hc => ?_⟩
  · exact congrArg (· + 1) htried
  · rw [hreq] at hc
    exact absurd hc (by decide)

/-- The attempt ends with a report. -/
theorem held_reports (s : RegRun) (reg : Reg) (now w err : Nat) (scode grant : Option Nat)
    (hterm : reg.terminated = false) (hexp : reg.expires ≠ 0) (hreq : reg.req = false)
    (htmr : reg.tmr = some (now + w)) (hwait : WaitFor grant w) :
    Held (s.after now grant (some reg, [.report err scode])) reg := by
  refine ⟨hterm, hexp, fun hc => ?_, fun _ => ⟨rfl, w, htmr, hwait⟩⟩
  rw [hreq] at hc
  exact absurd hc (by decide)

theorem tmrHandler_held (s : RegRun) (reg : Reg) (now rnd reqerr d : Nat) (h : Held s reg)
    (htmr : reg.tmr = some d) :
    Held (s.after now none (some (tmrHandler reg now rnd reqerr).1, (tmrHandler reg now rnd reqerr).2))
      (tmrHandler reg now rnd reqerr).1 := by
  -- A running timer means that no request is pending.
  have hidle : reg.req = false := by
    by_contra hc
    rw [(h.busy (by simpa using hc)).1] at htmr
    exact absurd htmr (by simp only [reduceCtorEq, not_false_eq_true])
  unfold tmrHandler
  by_cases hok : reqerr = 0
  · simp only [request, h.terminated, Bool.false_eq_true, if_false, if_true, hok]
    exact held_registers s _ now none rfl h.expires rfl rfl (h.idle hidle).1
      sipLoopstateReset_failc
  · simp only [request, h.terminated, Bool.false_eq_true, if_false, if_true, hok, failed]
    exact held_reports s _ now _ _ none none rfl h.expires hidle rfl (failwait_bounds _ rnd)

theorem keepaliveHandler_held (s : RegRun) (reg : Reg) (err now rnd : Nat) (h : Held s reg) :
    Held (s.after now none (some (keepaliveHandler reg err now rnd).1,
        (keepaliveHandler reg err now rnd).2)) (keepaliveHandler reg err now rnd).1 := by
  unfold keepaliveHandler
  cases hreq : reg.req with
  | true =>
      simp only [true_or, if_true]
      exact ⟨h.terminated, h.expires, fun _ => h.busy hreq,
        fun hc => absurd hc Bool.false_ne_true.symm⟩
  | false =>
      simp only [h.terminated, Bool.false_eq_true, or_self, if_false, failed]
      exact held_reports s _ now _ err none none rfl h.expires rfl rfl (failwait_bounds _ rnd)

theorem destructor_letGo (s : RegRun) (reg reg' : Reg) (reqerr : Nat) (h : Held s reg)
    (hr : (destructor reg reqerr).1 = some reg') : LetGo reg' := by
  unfold destructor at hr
  simp only [h.terminated, Bool.false_eq_true, if_false] at hr
  split at hr
  -- The pending request goes on, within its limit.
  next hreq =>
    rw [Option.some.injEq] at hr
    rw [← hr]
    exact ⟨rfl, hreq, rfl, (h.busy hreq).2.2⟩
  · split at hr
    next hok =>
      simp only [request, if_true, hok.2, Option.some.injEq] at hr
      rw [← hr]
      exact ⟨rfl, rfl, rfl, sipLoopstateReset_failc⟩
    · exact absurd hr (by simp only [reduceCtorEq, not_false_eq_true])

/-- The last requests, when no one is there to report to. -/
theorem answers_letGo (reg reg' : Reg) (grant : Option Nat) (now : Nat) (ok : Prop)
    (r : Option Reg × List RegOut) (ha : Answers reg grant now ok r) (h : LetGo reg)
    (hr : r.1 = some reg') : LetGo reg' := by
  cases ha with
  | repeats reg1 hr1 _ hreq _ hlimit htmr hterm _ _ _ =>
      rw [hr1, Option.some.injEq] at hr
      rw [← hr]
      exact ⟨hterm.trans h.terminated, hreq, htmr.trans h.stopped, hlimit⟩
  | ends hr1 _ _ =>
      rw [hr1] at hr
      exact absurd hr (by simp only [reduceCtorEq, not_false_eq_true])
  -- The request to deregister begins to count afresh.
  | unregisters reg1 hr1 _ hterm' _ _ hreq hls htmr =>
      rw [hr1, Option.some.injEq] at hr
      rw [← hr]
      exact ⟨hterm', hreq, htmr.trans h.stopped, by rw [hls]; decide⟩
  | waits reg1 err scode hr1 hterm _ _ _ _ _ _ =>
      rw [h.terminated] at hterm
      exact absurd hterm (by decide)

/-- What comes of a result while the owner is there. -/
theorem answers_held (s : RegRun) (reg : Reg) (grant : Option Nat) (now : Nat) (ok : Prop)
    (r : Option Reg × List RegOut) (ha : Answers reg grant now ok r) (h : Held s reg)
    (hreq : reg.req = true) :
    ∃ reg', r.1 = some reg' ∧ Held (s.after now grant r) reg' := by
  -- With an owner the client is not terminated, which rules two ends out.
  have hno (hc : reg.terminated = true) : False := by
    rw [h.terminated] at hc
    exact absurd hc (by decide)
  rcases h.busy hreq with ⟨htmr, htried, _⟩
  cases ha with
  | repeats reg1 hr1 _ hreq1 hls hlimit htmr1 hterm _ hexp _ =>
      rw [hr1]
      exact ⟨reg1, rfl, held_registers s reg1 now grant (hterm.trans h.terminated)
        (hexp h.terminated) hreq1 (htmr1.trans htmr) (htried.trans hls.symm) hlimit⟩
  | ends hr1 hterm _ => exact absurd (hno hterm) id
  | unregisters reg1 hr1 hterm _ _ _ _ _ _ => exact absurd (hno hterm) id
  | waits reg1 err scode hr1 _ hterm hexp hreq1 htmr1 hwait _ =>
      rw [hr1]
      exact ⟨reg1, rfl, held_reports s reg1 now reg1.wait err scode grant hterm hexp hreq1 htmr1 hwait⟩

theorem regStep_sane (s : RegRun) (e : RegEvent) (s' : RegRun) (hs : Sane s)
    (h : regStep s e = some s') : Sane s' := by
  rcases regStep_stepped s s' e h with ⟨reg, hreg, hstep⟩
  rcases hs with ⟨hown, reg1, hreg1, hheld⟩ | ⟨hrel, hgo⟩
  · rw [hreg, Option.some.injEq] at hreg1
    rw [← hreg1] at hheld
    cases hstep with
    | provisional result now rnd reqerr reqerr2 hreq hprov w =>
        exact Or.inl ⟨hown, _, rfl, hheld.terminated, hheld.expires, hheld.busy, hheld.idle⟩
    | final result now rnd reqerr reqerr2 hreq hfinal =>
        have ha := responseHandler_answers reg result now rnd reqerr reqerr2
          (fun _ => hheld.expires) hfinal
        rcases answers_held s reg _ now _ _ ha hheld hreq with ⟨reg', hr', hheld'⟩
        exact Or.inl ⟨hown, reg', hr', hheld'⟩
    | timer j now rnd reqerr d htmr =>
        exact Or.inl ⟨hown, _, rfl, tmrHandler_held s reg now rnd reqerr d hheld htmr⟩
    | keepalive err now rnd =>
        exact Or.inl ⟨hown, _, rfl, keepaliveHandler_held s reg err now rnd hheld⟩
    | release now reqerr _ =>
        exact Or.inr ⟨rfl, fun reg' hr' => destructor_letGo s reg reg' reqerr hheld hr'⟩
  · have hlet := hgo reg hreg
    cases hstep with
    | provisional result now rnd reqerr reqerr2 hreq hprov w =>
        refine Or.inr ⟨hrel, fun reg' hr' => ?_⟩
        rw [Option.some.injEq] at hr'
        rw [← hr']
        exact ⟨hlet.terminated, hlet.pending, hlet.stopped, hlet.limit⟩
    | final result now rnd reqerr reqerr2 hreq hfinal =>
        have ha := responseHandler_answers reg result now rnd reqerr reqerr2
          (fun hc => absurd (hlet.terminated.symm.trans hc) (by decide)) hfinal
        exact Or.inr ⟨hrel, fun reg' hr' => answers_letGo reg reg' _ now _ _ ha hlet hr'⟩
    | timer j now rnd reqerr d htmr =>
        rw [hlet.stopped] at htmr
        exact absurd htmr (by simp only [reduceCtorEq, not_false_eq_true])
    | keepalive err now rnd =>
        refine Or.inr ⟨hrel, fun reg' hr' => ?_⟩
        simp only [RegRun.after, keepaliveHandler, hlet.pending, true_or, if_true,
          Option.some.injEq] at hr'
        rw [← hr']
        exact ⟨hlet.terminated, rfl, hlet.stopped, hlet.limit⟩
    | release now reqerr hown =>
        rw [hrel] at hown
        exact absurd hown (by decide)

theorem regRun_sane (now expires : Nat) (regid : Int) (hexp : expires ≠ 0) (es : List RegEvent)
    (s : RegRun) (h : exec regStep (regInit now expires regid) es = some s) : Sane s :=
  exec_invariant regStep Sane regStep_sane es _ s (regInit_sane now expires regid hexp) h

/-- As long as its owner holds it, the client is there and waits for one thing:
    for the request it has made, which is one of at most 16 since its latest
    report, or for its timer, which runs after a report. Without an owner, it is
    there only while it waits for a request. -/
theorem registration_never_stalls (now expires : Nat) (regid : Int) (hexp : expires ≠ 0)
    (es : List RegEvent) (s : RegRun) (h : exec regStep (regInit now expires regid) es = some s) :
    (s.released = false → ∃ reg, s.reg = some reg ∧
      (reg.req = true ∧ reg.tmr = none ∧ 1 ≤ attempt s.outs ∧ attempt s.outs ≤ 16 ∨
        reg.req = false ∧ reg.tmr.isSome = true ∧ attempt s.outs = 0)) ∧
      (s.released = true → ∀ reg, s.reg = some reg → reg.req = true ∧ reg.tmr = none) := by
  rcases regRun_sane now expires regid hexp es s h with ⟨hown, reg, hreg, hheld⟩ | ⟨hrel, hgo⟩
  · refine ⟨fun _ => ⟨reg, hreg, ?_⟩, fun hc => ?_⟩
    · cases hreq : reg.req with
      | true =>
          rcases hheld.busy hreq with ⟨htmr, htried, hlimit⟩
          exact Or.inl ⟨rfl, htmr, by omega, by omega⟩
      | false =>
          rcases hheld.idle hreq with ⟨htried, w, htmr, _⟩
          exact Or.inr ⟨rfl, by rw [htmr]; rfl, htried⟩
    · rw [hown] at hc
      exact absurd hc (by decide)
  · refine ⟨fun hc => ?_, fun _ reg hreg => ⟨(hgo reg hreg).pending, (hgo reg hreg).stopped⟩⟩
    rw [hrel] at hc
    exact absurd hc (by decide)

/-- A client that is asked for credentials, registers, and refreshes the
    registration with a request that the registrar turns down. -/
theorem registration_never_stalls_refresh :
    ∃ s, exec regStep (regInit 0 60 0) [.response (.message ⟨401, [], none, none, 0, false⟩) 5 0 0 0,
        .response (.message ⟨200, [⟨true, some 60⟩], none, none, 0, false⟩) 9 0 0 0,
        .timer 54010 54012 0 0,
        .response (.message ⟨500, [], none, none, 0, false⟩) 54020 0 0 0] = some s ∧
      s.outs = [.report 0 (some 500), .register 60, .report 0 (some 200), .register 60,
        .register 60] ∧
      ((s.released = false → ∃ reg, s.reg = some reg ∧
        (reg.req = true ∧ reg.tmr = none ∧ 1 ≤ attempt s.outs ∧ attempt s.outs ≤ 16 ∨
          reg.req = false ∧ reg.tmr.isSome = true ∧ attempt s.outs = 0)) ∧
        (s.released = true → ∀ reg, s.reg = some reg → reg.req = true ∧ reg.tmr = none)) :=
  ⟨_, rfl, by decide, registration_never_stalls 0 60 0 (by decide)
    [.response (.message ⟨401, [], none, none, 0, false⟩) 5 0 0 0,
      .response (.message ⟨200, [⟨true, some 60⟩], none, none, 0, false⟩) 9 0 0 0,
      .timer 54010 54012 0 0,
      .response (.message ⟨500, [], none, none, 0, false⟩) 54020 0 0 0] _ rfl⟩

/-- The timer runs out at nine tenths of the time that the registrar has
    granted, and no later even where this overflows. After a failure it runs
    for 15 seconds at least and for half an hour at most. -/
theorem next_attempt_in_time (now expires : Nat) (regid : Int) (hexp : expires ≠ 0)
    (es : List RegEvent) (s : RegRun) (h : exec regStep (regInit now expires regid) es = some s)
    (reg : Reg) (hreg : s.reg = some reg) (d : Nat) (hd : reg.tmr = some d) :
    (∀ g, s.granted = some g → d ≤ s.since + 900 * g ∧ (900 * g < 2 ^ 32 → d = s.since + 900 * g)) ∧
      (s.granted = none → s.since + 15000 ≤ d ∧ d ≤ s.since + 1800000) := by
  rcases regRun_sane now expires regid hexp es s h with ⟨_, reg1, hreg1, hheld⟩ | ⟨_, hgo⟩
  · rw [hreg, Option.some.injEq] at hreg1
    rw [← hreg1] at hheld
    have hidle : reg.req = false := by
      by_contra hc
      rw [(hheld.busy (by simpa using hc)).1] at hd
      exact absurd hd (by simp only [reduceCtorEq, not_false_eq_true])
    rcases hheld.idle hidle with ⟨_, w, htmr, hwait⟩
    rw [hd, Option.some.injEq] at htmr
    constructor
    · intro g hg
      rw [hg] at hwait
      have hw : w = (g * 900) % 2 ^ 32 := hwait
      have hle := Nat.mod_le (g * 900) (2 ^ 32)
      refine ⟨by omega, fun hlt => ?_⟩
      -- Below the bound the product has not wrapped.
      rw [Nat.mod_eq_of_lt (by omega)] at hw
      omega
    · intro hg
      rw [hg] at hwait
      have hw : 15000 ≤ w ∧ w ≤ 1800000 := hwait
      omega
  · rw [(hgo reg hreg).stopped] at hd
    exact absurd hd (by simp only [reduceCtorEq, not_false_eq_true])

/-- A registration for a minute is refreshed after 54 seconds. -/
theorem next_attempt_in_time_granted :
    (∀ g, some 60 = some g → 54009 ≤ 9 + 900 * g ∧ (900 * g < 2 ^ 32 → 54009 = 9 + 900 * g)) ∧
      (some 60 = (none : Option Nat) → 9 + 15000 ≤ 54009 ∧ 54009 ≤ 9 + 1800000) :=
  next_attempt_in_time 0 60 0 (by decide)
    [.response (.message ⟨200, [⟨true, some 60⟩], none, none, 0, false⟩) 9 0 0 0] _ rfl _ rfl 54009 rfl

end Sipreg

end SipPerf
