import Mathlib.Order.Lattice
import SipPerf.Core.RepeatingTimer
import SipPerf.Lib.Transition

/-!
# Pacing

A repeating timer neither drifts nor runs early, however late it is served
and however long its work takes. The tick number `k` belongs to the instant
`S + k * m` on the clock, where `S` is the reading at which the timer was
started and `m` its interval. That instant is what `timer_fn` compares the
clock with and what it arms the timer for, and it does not depend on when the
ticks before it were served. A tick that is served late therefore leaves the
ones after it where they were, and they are served one by one until the
schedule is caught up with.

The source computes the time left as an `int`. It is exact as long as the
true difference is in the range of `int`, and that has to be known before the
branch on its sign is of any use. From below it is the assumption that the
timer is not `2 ^ 31` milliseconds late. From above it is an invariant: the
tick before was not early, so the next one is at most an interval away.

`WallClock` is the one assumption about the clock itself. It is read with
`gettimeofday`, which counts from 1970, so a reading in milliseconds is
within 31 bits of the end of the 64-bit range only after half a billion
years.

## Main definitions

* `tickTime`: The instant a tick belongs to.
* `WallClock`, `InTime`, `Allowed`: What is assumed of the clock and of the
  lateness.
* `Paces`: The invariant.

## Theorems

* `diff_exact`: The time left is computed exactly.
* `timerFn_early`, `timerFn_due`: The two branches of `timer_fn`.
* `paceStep_paces`: Every step keeps the invariant.
* `act_not_early`, `serve_takes_due_tick`, `armed_for_next_tick`: What a step
  does, by the invariant.
* `repeating_timer_keeps_schedule`: Ticks are never early and none is skipped,
  every deadline is that of the next tick, and a timer that has stopped stays
  stopped.
-/

namespace SipPerf

namespace RepeatingTimers

open TmrHeap Timers MachineInt Transition

/-- The instant the next tick belongs to. -/
def tickTime (r : RepeatingTimer) : Nat := r.startTime + r.msPerTick * r.tick

/-- The readings of an event are such as `gettimeofday` gives. -/
def WallClock : PaceEvent → Prop
  | .start _ c2 _ => c2 + 2 ^ 31 ≤ 2 ^ 64
  | .serve _ _ _ c2 _ => c2 + 2 ^ 31 ≤ 2 ^ 64

/-- Calls for other timers. -/
def Foreign (t : TmrPtr) (calls : List TmrCall) : Prop := ∀ c ∈ calls, target c ≠ t

/-- The timer is not `2 ^ 31` milliseconds late when it is served, and the
    work done in `act` makes no calls for it: it is private to the object. -/
def InTime (p : Paced) : PaceEvent → Prop
  | .start _ _ _ => True
  | .serve _ c1 act _ _ => c1 < tickTime p.timer + 2 ^ 31 ∧ Foreign p.timer.timer act.1

/-- What holds of a repeating timer between the events of the loop. The next
    tick is at most an interval ahead of the clock. -/
structure Paces (m : Nat) (p : Paced) : Prop where
  interval : p.timer.msPerTick = m
  counted : p.timer.tick = p.acts
  idle : p.started = false → p.timer.tick = 0 ∧ p.armed = none
  ahead : p.started = true → tickTime p.timer ≤ p.now + m
  clock : p.now + 2 ^ 31 ≤ 2 ^ 64
  halted : p.stopped = true → p.started = true ∧ p.armed = none

/-! ## One firing -/

theorem nextTick_eq (r : RepeatingTimer) (h : tickTime r < 2 ^ 64) : nextTick r = tickTime r := by
  unfold nextTick tickTime at *
  rw [u64_of_lt (r.msPerTick * r.tick) (by omega), u64_of_lt _ h]

/-- The `int` is the true difference, neither `2 ^ 31` ahead nor `2 ^ 31`
    behind. -/
theorem diff_exact (r : RepeatingTimer) (c1 : Nat) (hahead : tickTime r < c1 + 2 ^ 31)
    (hlate : c1 < tickTime r + 2 ^ 31) (hclock : c1 + 2 ^ 31 ≤ 2 ^ 64) :
    diff r c1 = (tickTime r : Int) - c1 := by
  unfold diff
  rw [nextTick_eq r (by omega), toInt32_sub64]
  exact toInt32_of_range _ (by omega) (by omega)

/-- The delay after a tick, when the tick before was due. -/
theorem msToSleep_eq (r : RepeatingTimer) (d : Int) (hlo : -2 ^ 31 ≤ d)
    (hhi : d + r.msPerTick < 2 ^ 31) : msToSleep r d = max 0 (d + r.msPerTick) := by
  unfold msToSleep
  rw [toInt32_of_range _ (by omega) (by omega)]
  by_cases hneg : d + r.msPerTick < 0
  · rw [if_pos hneg, max_eq_left (le_of_lt hneg)]
  · rw [if_neg hneg, max_eq_right (not_lt.mp hneg)]

/-- Before its time the tick is put off until then, and `act` is not
    called. -/
theorem timerFn_early (r : RepeatingTimer) (c1 : Nat) (act : List TmrCall × Bool) (c2 : Nat)
    (grow : Bool) (hd : diff r c1 = (tickTime r : Int) - c1) (h : c1 < tickTime r) :
    timerFn r c1 act c2 grow = (r, [arm r (tickTime r - c1) c2 grow], false) := by
  unfold timerFn
  have hpos : diff r c1 > 0 := by
    rw [hd]
    omega
  have hnat : (diff r c1).toNat = tickTime r - c1 := by
    rw [hd]
    omega
  simp only [if_pos hpos, hnat]

/-- The object after a tick. -/
def ticked (r : RepeatingTimer) : RepeatingTimer := { r with tick := r.tick + 1 }

theorem tickTime_ticked (r : RepeatingTimer) : tickTime (ticked r) = tickTime r + r.msPerTick := by
  unfold tickTime ticked
  rw [Nat.mul_add, Nat.mul_one, Nat.add_assoc]

/-- From its time on the tick is taken, and the timer is armed for the next
    one if `act` asks for that. -/
theorem timerFn_due (r : RepeatingTimer) (c1 : Nat) (act : List TmrCall × Bool) (c2 : Nat)
    (grow : Bool) (hd : diff r c1 = (tickTime r : Int) - c1) (h : tickTime r ≤ c1)
    (hlate : c1 < tickTime r + 2 ^ 31)
    (hnext : act.2 = true → tickTime r + r.msPerTick < c1 + 2 ^ 31) (htick : r.tick + 1 < 2 ^ 64) :
    timerFn r c1 act c2 grow =
      if act.2 then
        (ticked r, act.1 ++ [arm (ticked r) (tickTime (ticked r) - c1) c2 grow], true)
      else (ticked r, act.1, true) := by
  unfold timerFn
  have hneg : ¬ diff r c1 > 0 := by
    rw [hd]
    omega
  -- The next tick is one interval after this one, which was due. If that has
  -- passed too there is nothing to wait for.
  have hsleep : act.2 = true →
      (msToSleep (ticked r) (diff r c1)).toNat = tickTime (ticked r) - c1 := fun hact => by
    have hlt := hnext hact
    have hsum : diff r c1 + (ticked r).msPerTick < 2 ^ 31 := by
      simp only [ticked]
      omega
    rw [msToSleep_eq (ticked r) (diff r c1) (by omega) hsum, hd, tickTime_ticked]
    simp only [ticked]
    omega
  simp only [if_neg hneg, u64_of_lt _ htick]
  by_cases hact : act.2 = true
  · rw [if_pos hact, if_pos hact, ← hsleep hact]
    rfl
  · rw [if_neg hact, if_neg hact]
    rfl

/-! ## The armed deadline -/

/-- Calls that end with a start of the timer leave it armed by that. -/
theorem armedBy_last (t : TmrPtr) (armed : Option Nat) (calls : List TmrCall) (delay : Nat)
    (th : TmrH) (arg now : Nat) (grow : Bool) :
    (calls ++ [TmrCall.start t delay th arg now grow]).foldl (armedBy t) armed =
      some (deadline delay now) := by
  simp only [List.foldl_append, List.foldl_cons, List.foldl_nil, armedBy, target,
    if_true]

theorem armedBy_foreign (t : TmrPtr) : ∀ (calls : List TmrCall) (armed : Option Nat),
    Foreign t calls → calls.foldl (armedBy t) armed = armed := by
  intro calls
  induction calls with
  | nil =>
      intro armed _
      rfl
  | cons c calls ih =>
      intro armed h
      simp only [List.foldl_cons, armedBy, if_neg (h c List.mem_cons_self)]
      exact ih armed (fun c' hc' => h c' (List.mem_cons_of_mem c hc'))

/-- What serving the timer can do: put the tick off, take it and arm the
    timer for the next one, or take it and stop. -/
theorem serve_cases (m : Nat) (p p' : Paced) (j c1 : Nat) (act : List TmrCall × Bool) (c2 : Nat)
    (grow : Bool) (hm : 1 ≤ m ∧ m < 2 ^ 31) (hp : Paces m p)
    (hclock : WallClock (.serve j c1 act c2 grow)) (htime : InTime p (.serve j c1 act c2 grow))
    (h : paceStep p (.serve j c1 act c2 grow) = some p') :
    p.now ≤ c1 ∧ c1 ≤ c2 ∧ p.started = true ∧ p.stopped = false ∧
      ((c1 < tickTime p.timer ∧
          p' = { p with armed := some (tickTime p.timer - c1 + c2), now := c2 }) ∨
        (tickTime p.timer ≤ c1 ∧ act.2 = true ∧
          p' = { p with
            timer := ticked p.timer, armed := some (tickTime (ticked p.timer) - c1 + c2),
            now := c2, acts := p.acts + 1 }) ∨
        (tickTime p.timer ≤ c1 ∧ act.2 = false ∧
          p' = { p with
            timer := ticked p.timer, armed := none, now := c2, acts := p.acts + 1,
            stopped := true })) := by
  simp only [WallClock] at hclock
  rcases htime with ⟨hlate, hforeign⟩
  simp only [paceStep] at h
  cases harmed : p.armed with
  | none => simp only [harmed, reduceCtorEq] at h
  | some D =>
      simp only [harmed] at h
      -- Only a timer that has been started and not stopped is armed.
      have hstarted : p.started = true := by
        by_contra hc
        have hnone := (hp.idle (by simpa using hc)).2
        rw [harmed] at hnone
        exact absurd hnone (by simp only [reduceCtorEq, not_false_eq_true])
      have hstopped : p.stopped = false := by
        by_contra hc
        have hnone := (hp.halted (by simpa using hc)).2
        rw [harmed] at hnone
        exact absurd hnone (by simp only [reduceCtorEq, not_false_eq_true])
      by_cases hen : D ≤ j ∧ p.now ≤ j ∧ j ≤ c1 ∧ c1 ≤ c2
      · rw [if_pos hen, Option.some.injEq] at h
        have hahead := hp.ahead hstarted
        have hmtick : p.timer.msPerTick < 2 ^ 31 := by
          rw [hp.interval]
          exact hm.2
        -- The next tick was at most an interval ahead, and the clock has not gone
        -- back since.
        have hd := diff_exact p.timer c1 (by omega) hlate (by omega)
        refine ⟨by omega, hen.2.2.2, hstarted, hstopped, ?_⟩
        by_cases hearly : c1 < tickTime p.timer
        · refine Or.inl ⟨hearly, ?_⟩
          rw [timerFn_early p.timer c1 act c2 grow hd hearly] at h
          have hdead : deadline (tickTime p.timer - c1) c2 = tickTime p.timer - c1 + c2 :=
            u64_of_lt _ (by omega)
          simp only [arm, List.foldl_cons, List.foldl_nil, armedBy, target, if_true, hdead,
            Bool.false_eq_true, if_false, Bool.false_and, Bool.or_false] at h
          exact h.symm
        · -- The tick count is bounded by the clock, for the interval is positive.
          have hle : p.timer.tick ≤ p.timer.msPerTick * p.timer.tick :=
            Nat.le_mul_of_pos_left _ (by rw [hp.interval]; exact hm.1)
          have htick : p.timer.tick + 1 < 2 ^ 64 := by
            unfold tickTime at hearly
            omega
          rw [timerFn_due p.timer c1 act c2 grow hd (not_lt.mp hearly) hlate (fun _ => by omega)
            htick] at h
          refine Or.inr ?_
          cases hact : act.2 with
          | true =>
              refine Or.inl ⟨not_lt.mp hearly, rfl, ?_⟩
              have hnext := tickTime_ticked p.timer
              have hdead : deadline (tickTime (ticked p.timer) - c1) c2 =
                  tickTime (ticked p.timer) - c1 + c2 := u64_of_lt _ (by omega)
              simp only [hact, if_true, arm] at h
              rw [show p.timer.timer = (ticked p.timer).timer from rfl, armedBy_last, hdead] at h
              simp only [Bool.not_true, Bool.and_false, Bool.or_false] at h
              exact h.symm
          | false =>
              refine Or.inr ⟨not_lt.mp hearly, rfl, ?_⟩
              simp only [hact, Bool.false_eq_true, if_false, if_true, Bool.not_false,
                Bool.and_true, Bool.or_true] at h
              rw [armedBy_foreign _ _ _ hforeign] at h
              exact h.symm
      · simp only [if_neg hen, reduceCtorEq] at h

/-- What starting the timer does. -/
theorem start_cases (p p' : Paced) (c1 c2 : Nat) (grow : Bool)
    (hclock : WallClock (.start c1 c2 grow)) (h : paceStep p (.start c1 c2 grow) = some p') :
    p.started = false ∧ c1 ≤ c2 ∧
      p' = { p with
        timer := { p.timer with startTime := c1 }, armed := some c2, now := c2,
        started := true } := by
  simp only [WallClock] at hclock
  simp only [paceStep] at h
  by_cases hen : p.started = false ∧ p.now ≤ c1 ∧ c1 ≤ c2
  · rw [if_pos hen, Option.some.injEq] at h
    have hdead : deadline 0 c2 = c2 := by
      unfold deadline
      rw [Nat.zero_add]
      exact u64_of_lt _ (by omega)
    simp only [start, arm, List.foldl_cons, List.foldl_nil, armedBy, target, if_true, hdead] at h
    exact ⟨hen.1, hen.2.2, h.symm⟩
  · simp only [if_neg hen, reduceCtorEq] at h

/-! ## Runs -/

theorem paceStep_paces (m : Nat) (p p' : Paced) (e : PaceEvent) (hm : 1 ≤ m ∧ m < 2 ^ 31)
    (hp : Paces m p) (hclock : WallClock e) (htime : InTime p e) (h : paceStep p e = some p') :
    Paces m p' := by
  cases e with
  | start c1 c2 grow =>
      rcases start_cases p p' c1 c2 grow hclock h with ⟨hfirst, hle, hp'⟩
      have htick := (hp.idle hfirst).1
      have hnot : p.stopped = true → False := fun hs => by
        rw [(hp.halted hs).1] at hfirst
        exact absurd hfirst (by simp only [reduceCtorEq, not_false_eq_true])
      rw [hp']
      refine ⟨hp.interval, hp.counted, fun hc => ?_, fun _ => ?_, hclock, fun hs => ?_⟩
      · exact absurd hc (by simp only [reduceCtorEq, not_false_eq_true])
      · -- No tick yet, so the next one belongs to the start itself.
        simp only [tickTime, htick, Nat.mul_zero, Nat.add_zero]
        omega
      · exact (hnot hs).elim
  | serve j c1 act c2 grow =>
      rcases serve_cases m p p' j c1 act c2 grow hm hp hclock htime h with
        ⟨hnow, hle, hstarted, hstopped, hcase⟩
      have hahead := hp.ahead hstarted
      have hnext := tickTime_ticked p.timer
      rw [hp.interval] at hnext
      have hrunning : p.started ≠ false := by
        rw [hstarted]
        exact Bool.noConfusion
      have hgoing : p.stopped ≠ true := by
        rw [hstopped]
        exact Bool.noConfusion
      -- A tick that was due moves the next one up by an interval, from an
      -- instant that has passed.
      rcases hcase with ⟨_, hp'⟩ | ⟨hdue, _, hp'⟩ | ⟨hdue, _, hp'⟩
      · rw [hp']
        refine ⟨hp.interval, hp.counted, fun hc => absurd hc hrunning, fun _ => ?_, hclock,
          fun hs => absurd hs hgoing⟩
        simp only
        omega
      · rw [hp']
        refine ⟨hp.interval, congrArg (· + 1) hp.counted, fun hc => absurd hc hrunning, fun _ => ?_,
          hclock, fun hs => absurd hs hgoing⟩
        simp only
        omega
      · rw [hp']
        refine ⟨hp.interval, congrArg (· + 1) hp.counted, fun hc => absurd hc hrunning, fun _ => ?_,
          hclock, fun _ => ⟨hstarted, rfl⟩⟩
        simp only
        omega

/-- The two readings of an event: when the remaining time is computed, and
    inside `tmr_start`. -/
def readings : PaceEvent → Nat × Nat
  | .start c1 c2 _ => (c1, c2)
  | .serve _ c1 _ c2 _ => (c1, c2)

/-- What is assumed of a step. -/
def Allowed (p : Paced) (e : PaceEvent) : Prop := WallClock e ∧ InTime p e

instance decidableAllowed (p : Paced) : (e : PaceEvent) → Decidable (Allowed p e)
  | .start _ c2 _ => inferInstanceAs (Decidable (c2 + 2 ^ 31 ≤ 2 ^ 64 ∧ True))
  | .serve _ c1 act c2 _ => inferInstanceAs (Decidable (c2 + 2 ^ 31 ≤ 2 ^ 64 ∧
      c1 < tickTime p.timer + 2 ^ 31 ∧ ∀ c ∈ act.1, target c ≠ p.timer.timer))

/-- The invariant, with the instant of the start. -/
def PacesFrom (m S : Nat) (p : Paced) : Prop :=
  Paces m p ∧ (p.started = true → p.timer.startTime = S)

theorem pacedInit_paces (this garbage m S : Nat) (t : TmrPtr) :
    PacesFrom m S (pacedInit this t m garbage) := by
  refine ⟨⟨rfl, rfl, fun _ => ⟨rfl, rfl⟩, fun hc => ?_, by simp only [pacedInit]; omega,
    fun hc => ?_⟩, fun hc => ?_⟩
  · exact absurd hc (by simp only [pacedInit, Bool.false_eq_true, not_false_eq_true])
  · exact absurd hc (by simp only [pacedInit, Bool.false_eq_true, not_false_eq_true])
  · exact absurd hc (by simp only [pacedInit, Bool.false_eq_true, not_false_eq_true])

/-- The start instant does not change once there is one. -/
theorem paceStep_pacesFrom (m S : Nat) (p p' : Paced) (e : PaceEvent) (hm : 1 ≤ m ∧ m < 2 ^ 31)
    (hS : p.started = false → (readings e).1 = S) (hp : PacesFrom m S p) (hok : Allowed p e)
    (h : paceStep p e = some p') : PacesFrom m S p' ∧ p'.started = true := by
  have hpaces := paceStep_paces m p p' e hm hp.1 hok.1 hok.2 h
  cases e with
  | start c1 c2 grow =>
      rcases start_cases p p' c1 c2 grow hok.1 h with ⟨hfirst, _, hp'⟩
      have hstart : p'.timer.startTime = c1 ∧ p'.started = true := by
        rw [hp']
        exact ⟨rfl, rfl⟩
      exact ⟨⟨hpaces, fun _ => hstart.1.trans (hS hfirst)⟩, hstart.2⟩
  | serve j c1 act c2 grow =>
      rcases serve_cases m p p' j c1 act c2 grow hm hp.1 hok.1 hok.2 h with
        ⟨_, _, hstarted, _, hcase⟩
      have hsame : p'.timer.startTime = p.timer.startTime ∧ p'.started = p.started := by
        rcases hcase with ⟨_, hp'⟩ | ⟨_, _, hp'⟩ | ⟨_, _, hp'⟩
        · rw [hp']
          exact ⟨rfl, rfl⟩
        · rw [hp']
          exact ⟨rfl, rfl⟩
        · rw [hp']
          exact ⟨rfl, rfl⟩
      exact ⟨⟨hpaces, fun _ => hsame.1.trans (hp.2 hstarted)⟩, hsame.2.trans hstarted⟩

/-- A run of a timer that has been started keeps the invariant. -/
theorem exec_pacesFrom (m S : Nat) (hm : 1 ≤ m ∧ m < 2 ^ 31) : ∀ (es : List PaceEvent)
    (p p' : Paced), PacesFrom m S p → p.started = true → Along paceStep Allowed p es →
      exec paceStep p es = some p' → PacesFrom m S p' ∧ p'.started = true := by
  intro es p p' hp hstarted hok hrun
  refine exec_invariant_along paceStep Allowed (fun q => PacesFrom m S q ∧ q.started = true)
    (fun q e q' hq hqok hstep => ?_) es p p' ⟨hp, hstarted⟩ hok hrun
  refine paceStep_pacesFrom m S q q' e hm (fun hc => ?_) hq.1 hqok hstep
  rw [hq.2] at hc
  exact absurd hc (by simp only [reduceCtorEq, not_false_eq_true])

/-- The invariant at any point of a run that begins with the start. -/
theorem pacesFrom_of_run (this garbage m S c0 : Nat) (t : TmrPtr) (grow : Bool)
    (hm : 1 ≤ m ∧ m < 2 ^ 31) (pre post : List PaceEvent) (q : Paced)
    (hok : Along paceStep Allowed (pacedInit this t m garbage) (.start S c0 grow :: (pre ++ post)))
    (hrun : exec paceStep (pacedInit this t m garbage) (.start S c0 grow :: pre) = some q) :
    PacesFrom m S q ∧ q.started = true ∧ Along paceStep Allowed q post := by
  -- The start establishes the invariant, and the rest of the run keeps it.
  rcases exec_cons paceStep _ q _ pre hrun with ⟨p1, hp1, hrest⟩
  rcases paceStep_pacesFrom m S _ p1 _ hm (fun _ => rfl) (pacedInit_paces this garbage m S t)
    hok.1 hp1 with ⟨hp1paces, hp1started⟩
  rcases along_append paceStep Allowed pre post p1 q hrest (hok.2 p1 hp1) with ⟨hpre, hpost⟩
  rcases exec_pacesFrom m S hm pre p1 q hp1paces hp1started hpre hrest with ⟨hq, hqs⟩
  exact ⟨hq, hqs, hpost⟩

/-- Once `act` has returned `false` the timer is not armed. -/
theorem stopped_stays (m : Nat) (hm : 1 ≤ m ∧ m < 2 ^ 31) (es : List PaceEvent) (p p' : Paced)
    (hp : Paces m p) (hok : Along paceStep Allowed p es) (hrun : exec paceStep p es = some p')
    (hstop : p.stopped = true) : p'.armed = none := by
  have hinv := exec_invariant_along paceStep Allowed
    (fun q => Paces m q ∧ q.stopped = true) (fun q e q' hq hqok hstep => ?_) es p p' ⟨hp, hstop⟩
    hok hrun
  · exact (hinv.1.halted hinv.2).2
  · refine ⟨paceStep_paces m q q' e hm hq.1 hqok.1 hqok.2 hstep, ?_⟩
    cases e with
    | start c1 c2 grow =>
        rw [(start_cases q q' c1 c2 grow hqok.1 hstep).2.2]
        exact hq.2
    | serve j c1 act c2 grow =>
        have hrunning := (serve_cases m q q' j c1 act c2 grow hm hq.1 hqok.1 hqok.2 hstep).2.2.2.1
        rw [hq.2] at hrunning
        exact absurd hrunning (by simp only [reduceCtorEq, not_false_eq_true])

/-- The tick that is waited for is the one after those `act` was called
    for. -/
theorem tickTime_paces (m S : Nat) (q : Paced) (hq : PacesFrom m S q)
    (hstarted : q.started = true) : tickTime q.timer = S + q.acts * m := by
  unfold tickTime
  rw [hq.2 hstarted, hq.1.interval, hq.1.counted, Nat.mul_comm]

/-- The call of `act` that a step makes does not come before its tick. -/
theorem act_not_early (m S : Nat) (q q' : Paced) (e : PaceEvent) (hm : 1 ≤ m ∧ m < 2 ^ 31)
    (hq : PacesFrom m S q) (hstarted : q.started = true) (hok : Allowed q e)
    (hstep : paceStep q e = some q') (hact : q'.acts ≠ q.acts) :
    q'.acts = q.acts + 1 ∧ S + q.acts * m ≤ (readings e).1 := by
  cases e with
  | start c1 c2 grow =>
      rw [(start_cases q q' c1 c2 grow hok.1 hstep).2.2] at hact
      exact absurd rfl hact
  | serve j c1 act c2 grow =>
      rw [← tickTime_paces m S q hq hstarted]
      rcases (serve_cases m q q' j c1 act c2 grow hm hq.1 hok.1 hok.2 hstep).2.2.2.2 with
        ⟨_, hq'⟩ | ⟨hdue, _, hq'⟩ | ⟨hdue, _, hq'⟩
      · rw [hq'] at hact
        exact absurd rfl hact
      · rw [hq']
        exact ⟨rfl, hdue⟩
      · rw [hq']
        exact ⟨rfl, hdue⟩

/-- Serving the timer takes its tick if that is due, and leaves it armed
    unless `act` was called for it and returned `false`. -/
theorem serve_takes_due_tick (m S : Nat) (q q' : Paced) (j c1 : Nat) (act : List TmrCall × Bool)
    (c2 : Nat) (grow : Bool) (hm : 1 ≤ m ∧ m < 2 ^ 31) (hq : PacesFrom m S q)
    (hstarted : q.started = true) (hok : Allowed q (.serve j c1 act c2 grow))
    (hstep : paceStep q (.serve j c1 act c2 grow) = some q') :
    (S + q.acts * m ≤ c1 → q'.acts = q.acts + 1) ∧
      (q'.armed = none ↔ S + q.acts * m ≤ c1 ∧ act.2 = false) := by
  rw [← tickTime_paces m S q hq hstarted]
  rcases (serve_cases m q q' j c1 act c2 grow hm hq.1 hok.1 hok.2 hstep).2.2.2.2 with
    ⟨hearly, hq'⟩ | ⟨hdue, hact, hq'⟩ | ⟨hdue, hact, hq'⟩
  · -- Put off: the tick is still to come.
    rw [hq']
    refine ⟨fun hdue => by omega, fun hnone => ?_, fun hboth => by omega⟩
    exact absurd hnone (by simp only [reduceCtorEq, not_false_eq_true])
  · rw [hq']
    refine ⟨fun _ => rfl, fun hnone => ?_, fun hboth => ?_⟩
    · exact absurd hnone (by simp only [reduceCtorEq, not_false_eq_true])
    · rw [hact] at hboth
      exact absurd hboth.2 (by simp only [Bool.true_eq_false, not_false_eq_true])
  · rw [hq']
    exact ⟨fun _ => rfl, fun _ => ⟨hdue, hact⟩, fun _ => rfl⟩

/-- The deadline a step arms the timer with is that of the next tick. -/
theorem armed_for_next_tick (m S : Nat) (q q' : Paced) (e : PaceEvent) (hm : 1 ≤ m ∧ m < 2 ^ 31)
    (hS : q.started = false → (readings e).1 = S) (hq : PacesFrom m S q) (hok : Allowed q e)
    (hstep : paceStep q e = some q') (D : Nat) (hD : q'.armed = some D) :
    max (readings e).2 (S + m * q'.timer.tick) ≤ D ∧
      D ≤ max (readings e).2 (S + m * q'.timer.tick) + ((readings e).2 - (readings e).1) := by
  cases e with
  | start c1 c2 grow =>
      rcases start_cases q q' c1 c2 grow hok.1 hstep with ⟨hfirst, hle, hq'⟩
      have hc1 := hS hfirst
      rw [hq'] at hD
      simp only [Option.some.injEq] at hD
      simp only [readings] at hc1
      rw [hq']
      simp only [readings, (hq.1.idle hfirst).1, Nat.mul_zero, Nat.add_zero]
      omega
  | serve j c1 act c2 grow =>
      rcases serve_cases m q q' j c1 act c2 grow hm hq.1 hok.1 hok.2 hstep with
        ⟨_, hle, hstarted, _, hcase⟩
      rcases hcase with ⟨hearly, hq'⟩ | ⟨hdue, _, hq'⟩ | ⟨hdue, _, hq'⟩
      · have hN : S + m * q'.timer.tick = tickTime q.timer := by
          rw [hq', ← hq.2 hstarted, ← hq.1.interval]
          rfl
        rw [hq'] at hD
        simp only [Option.some.injEq] at hD
        rw [hN]
        simp only [readings]
        omega
      · have hN : S + m * q'.timer.tick = tickTime (ticked q.timer) := by
          rw [hq', ← hq.2 hstarted, ← hq.1.interval]
          rfl
        rw [hq'] at hD
        simp only [Option.some.injEq] at hD
        rw [hN]
        simp only [readings]
        omega
      · rw [hq'] at hD
        exact absurd hD (by simp only [reduceCtorEq, not_false_eq_true])

/-- A run of a repeating timer started at `S`. The call number `k` of `act`
    does not come before `S + k * m`; whatever arms the timer arms it for the
    next tick, or for now if that is past, up to the time that passed while
    it did so; and after `act` has returned `false` the timer is not armed
    again. No tick is skipped: there is one call of `act` for each, the timer
    is armed by its start, and every serving that finds the tick due makes its
    call, and leaves the timer armed if `act` returns `true`. -/
theorem repeating_timer_keeps_schedule (this garbage m S c0 : Nat) (t : TmrPtr) (grow : Bool)
    (hm : 1 ≤ m ∧ m < 2 ^ 31) (es : List PaceEvent)
    (hok : Along paceStep Allowed (pacedInit this t m garbage) (.start S c0 grow :: es)) :
    (∀ pre e post q q', es = pre ++ e :: post →
      exec paceStep (pacedInit this t m garbage) (.start S c0 grow :: pre) = some q →
      paceStep q e = some q' → q'.acts ≠ q.acts →
      q'.acts = q.acts + 1 ∧ S + q.acts * m ≤ (readings e).1) ∧
      (∀ pre e post q q', PaceEvent.start S c0 grow :: es = pre ++ e :: post →
        exec paceStep (pacedInit this t m garbage) pre = some q → paceStep q e = some q' →
        ∀ D, q'.armed = some D →
          max (readings e).2 (S + m * q'.timer.tick) ≤ D ∧
          D ≤ max (readings e).2 (S + m * q'.timer.tick) + ((readings e).2 - (readings e).1)) ∧
      (∀ pre mid post q q', es = pre ++ mid ++ post →
        exec paceStep (pacedInit this t m garbage) (.start S c0 grow :: pre) = some q →
        q.stopped = true → exec paceStep q mid = some q' → q'.armed = none) ∧
      (∀ q, exec paceStep (pacedInit this t m garbage) [.start S c0 grow] = some q →
        q.acts = 0 ∧ q.armed ≠ none) ∧
      (∀ pre post q, es = pre ++ post →
        exec paceStep (pacedInit this t m garbage) (.start S c0 grow :: pre) = some q →
        q.timer.tick = q.acts) ∧
      ∀ pre j c1 act c2 grow' post q q', es = pre ++ .serve j c1 act c2 grow' :: post →
        exec paceStep (pacedInit this t m garbage) (.start S c0 grow :: pre) = some q →
        paceStep q (.serve j c1 act c2 grow') = some q' →
        (S + q.acts * m ≤ c1 → q'.acts = q.acts + 1) ∧
          (q'.armed = none ↔ S + q.acts * m ≤ c1 ∧ act.2 = false) := by
  refine ⟨?_, ?_, ?_, ?_, ?_, ?_⟩
  · intro pre e post q q' hes hq hstep hact
    rw [hes] at hok
    rcases pacesFrom_of_run this garbage m S c0 t grow hm pre (e :: post) q hok hq with
      ⟨hpaces, hstarted, hgood⟩
    exact act_not_early m S q q' e hm hpaces hstarted hgood.1 hstep hact
  · intro pre e post q q' hes hq hstep D hD
    cases pre with
    | nil =>
        -- The first event is the start, of a timer that has not been started.
        simp only [List.nil_append, List.cons.injEq] at hes
        simp only [exec, Option.some.injEq] at hq
        rw [← hq, ← hes.1] at hstep
        rw [← hes.1]
        exact armed_for_next_tick m S _ q' _ hm (fun _ => rfl)
          (pacedInit_paces this garbage m S t) hok.1 hstep D hD
    | cons e' pre =>
        simp only [List.cons_append, List.cons.injEq] at hes
        rw [hes.2] at hok
        rw [← hes.1] at hq
        rcases pacesFrom_of_run this garbage m S c0 t grow hm pre (e :: post) q hok hq with
          ⟨hpaces, hstarted, hgood⟩
        refine armed_for_next_tick m S q q' e hm (fun hc => ?_) hpaces hgood.1 hstep D hD
        rw [hstarted] at hc
        exact absurd hc (by simp only [reduceCtorEq, not_false_eq_true])
  · intro pre mid post q q' hes hq hstop hmid
    rw [hes, List.append_assoc] at hok
    rcases pacesFrom_of_run this garbage m S c0 t grow hm pre (mid ++ post) q hok hq with
      ⟨hpaces, _, hgood⟩
    exact stopped_stays m hm mid q q' hpaces.1 (along_append paceStep Allowed mid post q q' hmid
      hgood).1 hmid hstop
  · intro q hq
    rcases exec_cons paceStep _ q _ _ hq with ⟨q', hstep, hrest⟩
    simp only [exec, Option.some.injEq] at hrest
    rw [← hrest, (start_cases _ q' S c0 grow hok.1.1 hstep).2.2]
    exact ⟨rfl, by simp only [ne_eq, reduceCtorEq, not_false_eq_true]⟩
  · intro pre post q hes hq
    rw [hes] at hok
    exact (pacesFrom_of_run this garbage m S c0 t grow hm pre post q hok hq).1.1.counted
  · intro pre j c1 act c2 grow' post q q' hes hq hstep
    rw [hes] at hok
    rcases pacesFrom_of_run this garbage m S c0 t grow hm pre _ q hok hq with
      ⟨hpaces, hstarted, hgood⟩
    exact serve_takes_due_tick m S q q' j c1 act c2 grow' hm hpaces hstarted hgood.1 hstep

/-- A timer of 10 ms started at 1000 is served late, twice, and the second
    time it is so late that the tick after is due at once. -/
theorem repeating_timer_keeps_schedule_run :
    ∃ q q', exec paceStep (pacedInit 5 1 10 0)
        [.start 1000 1001 true, .serve 1001 1003 ([], true) 1030 true] = some q ∧
      paceStep q (.serve 1040 1040 ([.start 2 0 7 0 1040 true], true) 1041 true) = some q' ∧
      q'.acts = 2 ∧ q'.armed = some 1041 ∧ 1000 + q.acts * 10 ≤ 1040 := by
  have hex : ((exec paceStep (pacedInit 5 1 10 0)
        [.start 1000 1001 true, .serve 1001 1003 ([], true) 1030 true]).bind (fun q =>
      (paceStep q (.serve 1040 1040 ([.start 2 0 7 0 1040 true], true) 1041 true)).map
        (fun q' => (q'.acts, q'.armed, q.acts)))) = some (2, some 1041, 1) := by
    decide +kernel
  rcases Option.bind_eq_some_iff.mp hex with ⟨q, hq, hmap⟩
  rcases Option.map_eq_some_iff.mp hmap with ⟨q', hq', hvals⟩
  simp only [Prod.mk.injEq] at hvals
  rcases hvals with ⟨hacts, harmed, hbefore⟩
  have hne : q'.acts ≠ q.acts := by
    rw [hacts, hbefore]
    decide
  refine ⟨q, q', hq, hq', hacts, harmed, ?_⟩
  exact ((repeating_timer_keeps_schedule 5 0 10 1000 1001 1 true (by decide)
    [.serve 1001 1003 ([], true) 1030 true,
      .serve 1040 1040 ([.start 2 0 7 0 1040 true], true) 1041 true] (by decide +kernel)).1
    [.serve 1001 1003 ([], true) 1030 true] _ [] q q' rfl hq hq' hne).2

end RepeatingTimers

end SipPerf
