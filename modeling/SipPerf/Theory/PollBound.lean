import Mathlib.Algebra.BigOperators.Group.Finset.Piecewise
import Mathlib.Algebra.Order.BigOperators.Group.Finset
import SipPerf.Theory.Pacing
import SipPerf.Theory.Poll

/-!
# How Long a Poll Takes

A repeating timer that is late arms itself without delay, to catch up with its
schedule. If the clock has not moved since the poll read it, the timer is due
again in the same loop, so the number of timers in the heap says nothing about
how many rounds the loop takes. What goes down is the number of ticks that
were missed, over all the timers that are due.

`PollBudget` gives each timer that was due when the poll began a number of
firings it may still have: one, or for a repeating timer the ticks it has
missed by the clock reading of the poll. A firing uses up one of its timer's.
Nothing the handlers start is due in this poll, since they start timers with a
delay and from a clock that is not behind. The one exception is the repeating
timer that was just served, and it arms itself for its next tick, which is one
missed tick fewer. So the sum of what is left falls by one in every round, and
a poll with one round more than the sum to begin with comes to an end.

For this the delay has to be the time until the next tick. `timer_fn` computes
it as an `int`, and where the next tick is `2 ^ 31` milliseconds away or more
the value comes out negative and is taken for zero: the timer arms itself for
now although its next tick is weeks ahead. An interval of that length is all
it takes. `InRange` is the condition under which the computation is exact.

## Main definitions

* `fires`: How often a timer is invoked in a list of events.
* `PollAlong`: A condition holds of every invocation of a poll.
* `Later`, `Reads`, `InRange`, `FiringOk`: What is asked of an invocation.
* `ticksLeft`, `share`: The firings a timer may have in a poll.
* `PollBudget`: The invariant of the loop.

## Theorems

* `timerFn_calls`: What an invocation of `timer_fn` does.
* `ticksLeft_ticked`: A tick taken is one tick fewer to come.
* `firing_budget`: A firing uses up one of its timer's share.
* `pollLoop_budget`: The loop ends within the budget.
* `poll_ends_within_missed_ticks`: A poll ends, and how often it invokes each
  timer.
-/

namespace SipPerf

namespace RepeatingTimers

open TmrHeap Timers MachineInt Transition

/-! ## The invocations of a poll -/

/-- The event is an invocation for the timer. -/
def isFire (t : TmrPtr) : TmrEvent → Bool
  | .fire _ u _ _ => u = t
  | _ => false

def fires (es : List TmrEvent) (t : TmrPtr) : Nat := es.countP (isFire t)

/-- The condition holds of each invocation in the first rounds of a poll. It
    is given the handler, its argument, and the application and the timers as
    the handler finds them. -/
def PollAlong {σ : Type} (H : Handlers σ) (guard : TmrH → Nat → σ → Store → Prop) (jfs : Nat) :
    Nat → σ → Store → Prop
  | 0, _, _ => True
  | n + 1, a, s => match pollIter s jfs with
    | .done => True
    | .drop s' => PollAlong H guard jfs n a s'
    | .fire _ th arg s' => guard th arg a s' ∧
        PollAlong H guard jfs n (H th arg a s').2 ((H th arg a s').1.foldl runCall s')

instance decidablePollAlong {σ : Type} (H : Handlers σ) (guard : TmrH → Nat → σ → Store → Prop)
    (jfs : Nat) [∀ th arg a s, Decidable (guard th arg a s)] :
    ∀ (n : Nat) (a : σ) (s : Store), Decidable (PollAlong H guard jfs n a s)
  | 0, _, _ => isTrue trivial
  | n + 1, a, s => match h : pollIter s jfs with
    | .done => isTrue (by simp only [PollAlong, h])
    | .drop s' =>
        have := decidablePollAlong H guard jfs n a s'
        decidable_of_iff (PollAlong H guard jfs n a s') (by simp only [PollAlong, h])
    | .fire _ th arg s' =>
        have := decidablePollAlong H guard jfs n (H th arg a s').2
          ((H th arg a s').1.foldl runCall s')
        decidable_of_iff (guard th arg a s' ∧ PollAlong H guard jfs n (H th arg a s').2
          ((H th arg a s').1.foldl runCall s')) (by simp only [PollAlong, h])

/-- What holds of every invocation holds of the first and of those after
    it. -/
theorem pollAlong_fire {σ : Type} (H : Handlers σ) (guard : TmrH → Nat → σ → Store → Prop)
    (jfs : Nat) (t : TmrPtr) (th : TmrH) (arg : Nat) (a : σ) (s s' : Store)
    (hp : pollIter s jfs = .fire t th arg s') (h : ∀ k, PollAlong H guard jfs k a s) :
    guard th arg a s' ∧
      ∀ k, PollAlong H guard jfs k (H th arg a s').2 ((H th arg a s').1.foldl runCall s') := by
  have hstep : ∀ k, guard th arg a s' ∧
      PollAlong H guard jfs k (H th arg a s').2 ((H th arg a s').1.foldl runCall s') := fun k => by
    have hk := h (k + 1)
    simp only [PollAlong, hp] at hk
    exact hk
  exact ⟨(hstep 0).1, fun k => (hstep k).2⟩

/-- A poll that has ended has no further invocations. -/
theorem pollAlong_of_ended {σ : Type} (H : Handlers σ) (guard : TmrH → Nat → σ → Store → Prop)
    (jfs : Nat) : ∀ (n : Nat) (a : σ) (s : Store), (pollLoop H jfs n a s).isSome = true →
      PollAlong H guard jfs n a s → ∀ k, PollAlong H guard jfs k a s := by
  intro n
  induction n with
  | zero =>
      intro a s hend
      simp only [pollLoop, Option.isSome_none, Bool.false_eq_true] at hend
  | succ n ih =>
      intro a s hend hal k
      cases k with
      | zero => trivial
      | succ k =>
          cases hp : pollIter s jfs with
          | done => simp only [PollAlong, hp]
          | drop s1 =>
              simp only [PollAlong, hp] at hal ⊢
              refine ih a s1 ?_ hal k
              cases hrec : pollLoop H jfs n a s1 with
              | none => simp only [pollLoop, hp, hrec, Option.isSome_none, Bool.false_eq_true] at hend
              | some r => rfl
          | fire t th arg s1 =>
              simp only [PollAlong, hp] at hal ⊢
              refine ⟨hal.1, ih _ _ ?_ hal.2 k⟩
              cases hrec : pollLoop H jfs n (H th arg a s1).2
                  ((H th arg a s1).1.foldl runCall s1) with
              | none => simp only [pollLoop, hp, hrec, Option.isSome_none, Bool.false_eq_true] at hend
              | some r => rfl

/-- The call starts no timer that a poll at `J` finds due. -/
def Later (J : Nat) : TmrCall → Prop
  | .start _ delay _ _ now _ => 1 ≤ delay ∧ J ≤ now
  | _ => True

/-- What an invocation of `timer_fn` reads of the clock: nothing before `J`,
    nothing that goes back, and nothing `2 ^ 31` milliseconds after the tick
    it serves. -/
structure Reads (J : Nat) (r : RepeatingTimer) (v : Serving) : Prop where
  after : J ≤ v.c1
  forward : v.c1 ≤ v.c2
  clock : v.c1 + 2 ^ 31 ≤ 2 ^ 64
  late : v.c1 < tickTime r + 2 ^ 31

/-- The tick that is waited for, this one or the next, is less than `2 ^ 31`
    milliseconds ahead. -/
structure InRange (r : RepeatingTimer) (v : Serving) : Prop where
  this : tickTime r < v.c1 + 2 ^ 31
  next : tickTime r ≤ v.c1 → v.act.2 = true → tickTime r + r.msPerTick < v.c1 + 2 ^ 31

/-- What is asked of an invocation of a handler: that memory and 64-bit range
    suffice for its calls, that it starts timers only with a delay, and of
    `timer_fn` what it reads of the clock. -/
def FiringOk {ε : Type} (code : Code ε) (J : Nat) (th : TmrH) (arg : Nat) (a : App ε)
    (s : Store) : Prop :=
  Along timerStep Fits s ((handlers code th arg a s).1.map .call) ∧
    if th = staticTimerFn then
      Reads J (a.objects arg) (code.serve arg a.rest s).1 ∧
        ∀ c ∈ (code.serve arg a.rest s).1.act.1, Later J c
    else ∀ c ∈ (code.other th arg a.rest s).1, Later J c

/-- The condition under which the delay of an invocation of `timer_fn` is the
    time until its tick. -/
def FiringInRange {ε : Type} (code : Code ε) (th : TmrH) (arg : Nat) (a : App ε) (s : Store) :
    Prop :=
  th = staticTimerFn → InRange (a.objects arg) (code.serve arg a.rest s).1

instance decidableLater (J : Nat) : (c : TmrCall) → Decidable (Later J c)
  | .init _ => isTrue trivial
  | .start _ delay _ _ now _ => inferInstanceAs (Decidable (1 ≤ delay ∧ J ≤ now))
  | .cancel _ => isTrue trivial

instance decidableReads (J : Nat) (r : RepeatingTimer) (v : Serving) : Decidable (Reads J r v) :=
  decidable_of_iff (J ≤ v.c1 ∧ v.c1 ≤ v.c2 ∧ v.c1 + 2 ^ 31 ≤ 2 ^ 64 ∧ v.c1 < tickTime r + 2 ^ 31)
    ⟨fun h => ⟨h.1, h.2.1, h.2.2.1, h.2.2.2⟩, fun h => ⟨h.after, h.forward, h.clock, h.late⟩⟩

instance decidableInRange (r : RepeatingTimer) (v : Serving) : Decidable (InRange r v) :=
  decidable_of_iff (tickTime r < v.c1 + 2 ^ 31 ∧
      (tickTime r ≤ v.c1 → v.act.2 = true → tickTime r + r.msPerTick < v.c1 + 2 ^ 31))
    ⟨fun h => ⟨h.1, h.2⟩, fun h => ⟨h.this, h.next⟩⟩

instance decidableFiringOk {ε : Type} (code : Code ε) (J : Nat) (th : TmrH) (arg : Nat)
    (a : App ε) (s : Store) : Decidable (FiringOk code J th arg a s) :=
  inferInstanceAs (Decidable (_ ∧ _))

instance decidableFiringInRange {ε : Type} (code : Code ε) (th : TmrH) (arg : Nat)
    (a : App ε) (s : Store) : Decidable (FiringInRange code th arg a s) :=
  inferInstanceAs (Decidable (_ → _))

/-! ## One invocation -/

/-- What an invocation of `timer_fn` does: put the tick off until its time, or
    take it and wait for the next one if `act` asks for that. -/
theorem timerFn_calls (J : Nat) (r : RepeatingTimer) (v : Serving) (hm : 1 ≤ r.msPerTick)
    (hread : Reads J r v) (hrange : InRange r v) :
    (v.c1 < tickTime r ∧
        timerFn r v.c1 v.act v.c2 v.grow = (r, [arm r (tickTime r - v.c1) v.c2 v.grow], false)) ∨
      (tickTime r ≤ v.c1 ∧ timerFn r v.c1 v.act v.c2 v.grow =
        if v.act.2 then
          (ticked r, v.act.1 ++ [arm (ticked r) (tickTime (ticked r) - v.c1) v.c2 v.grow], true)
        else (ticked r, v.act.1, true)) := by
  have hd := diff_exact r v.c1 hrange.this hread.late hread.clock
  by_cases hearly : v.c1 < tickTime r
  · exact Or.inl ⟨hearly, timerFn_early r v.c1 v.act v.c2 v.grow hd hearly⟩
  · have hdue := not_lt.mp hearly
    have htick : r.tick + 1 < 2 ^ 64 := by
      have hle : r.tick ≤ r.msPerTick * r.tick := Nat.le_mul_of_pos_left _ hm
      have hclock := hread.clock
      unfold tickTime at hdue
      omega
    exact Or.inr ⟨hdue, timerFn_due r v.c1 v.act v.c2 v.grow hd hdue hread.late
      (hrange.next hdue) htick⟩

/-- The firings a repeating timer may have in a poll at `J`: one for each tick
    that has passed and has not been taken, and at least one. -/
def ticksLeft (J : Nat) (r : RepeatingTimer) : Nat :=
  max 1 ((J - r.startTime) / r.msPerTick + 1 - r.tick)

/-- A tick that is taken while the next one has passed too leaves one tick
    fewer. -/
theorem ticksLeft_ticked (J : Nat) (r : RepeatingTimer) (hm : 1 ≤ r.msPerTick)
    (h : tickTime (ticked r) ≤ J) : ticksLeft J (ticked r) + 1 ≤ ticksLeft J r := by
  -- The next tick has passed, so the number of ticks that have is greater
  -- than that of the ticks taken.
  have hpassed : r.tick + 1 ≤ (J - r.startTime) / r.msPerTick := by
    rw [Nat.le_div_iff_mul_le hm, Nat.mul_comm]
    simp only [tickTime, ticked] at h
    omega
  simp only [ticksLeft, ticked]
  omega

/-! ## The budget -/

/-- The repeating timer at an address is the one whose timer is `t`. -/
structure Owns (objects : Nat → RepeatingTimer) (t : TmrPtr) (arg : Nat) : Prop where
  timer : (objects arg).timer = t
  this : (objects arg).this = arg
  interval : 1 ≤ (objects arg).msPerTick

/-- The firings a timer may have in a poll at `J`, by the handler and the
    argument it is armed with. -/
def share (J : Nat) (objects : Nat → RepeatingTimer) (th : TmrH) (arg : Nat) : Nat :=
  if th = staticTimerFn then ticksLeft J (objects arg) else 1

theorem share_pos (J : Nat) (objects : Nat → RepeatingTimer) (th : TmrH) (arg : Nat) :
    1 ≤ share J objects th arg := by
  unfold share
  by_cases hth : th = staticTimerFn
  · rw [if_pos hth]
    exact le_max_left _ _
  · rw [if_neg hth]

/-- Whatever is due at `J` is among the timers `D` and has its share left. -/
def PollBudget (J : Nat) (D : Finset TmrPtr) (objects : Nat → RepeatingTimer) (A : Sched)
    (left : TmrPtr → Nat) : Prop :=
  ∀ t r, A.armed t = some r → r.deadline ≤ J → t ∈ D ∧ share J objects r.th r.arg ≤ left t ∧
    (r.th = staticTimerFn → Owns objects t r.arg)

/-- The budget after a firing. -/
def spend (left : TmrPtr → Nat) (t : TmrPtr) : TmrPtr → Nat :=
  Function.update left t (left t - 1)

theorem sum_spend (D : Finset TmrPtr) (left : TmrPtr → Nat) (t : TmrPtr) (ht : t ∈ D)
    (hpos : 1 ≤ left t) : ∑ u ∈ D, spend left t u + 1 = ∑ u ∈ D, left u := by
  unfold spend
  rw [Finset.sum_update_of_mem ht, ← Finset.erase_eq, ← Finset.add_sum_erase D left ht]
  omega

/-- What is due after calls that start nothing due was due before them. -/
theorem later_armed (J : Nat) : ∀ (calls : List TmrCall) (A : Sched) (u : TmrPtr) (r : Armed),
    (∀ c ∈ calls, Later J c) → ((calls.map TmrEvent.call).foldl schedStep A).armed u = some r →
      r.deadline ≤ J → A.armed u = some r := by
  intro calls
  induction calls with
  | nil =>
      intro A u r _ h _
      exact h
  | cons c calls ih =>
      intro A u r hlater h hdue
      rw [List.map_cons, List.foldl_cons] at h
      have hstep := ih (schedStep A (.call c)) u r
        (fun c' hc' => hlater c' (List.mem_cons_of_mem c hc')) h hdue
      rcases schedStep_armed A (.call c) u r hstep with ⟨hold, _⟩ | ⟨_, delay, now, grow, hc, hd⟩
      · exact hold
      · have hl := hlater c List.mem_cons_self
        rw [TmrEvent.call.inj hc] at hl
        simp only [Later] at hl
        omega

/-- What is due after an invocation of `timer_fn` was due before it, or is the
    timer itself, armed for a tick that has been missed too. -/
theorem served_armed (J : Nat) (r0 : RepeatingTimer) (v : Serving) (hm : 1 ≤ r0.msPerTick)
    (hread : Reads J r0 v) (hrange : InRange r0 v) (hlater : ∀ c ∈ v.act.1, Later J c)
    (R : RepeatingTimer × List TmrCall × Bool) (hR : timerFn r0 v.c1 v.act v.c2 v.grow = R)
    (A : Sched) (u : TmrPtr) (r : Armed)
    (h : ((R.2.1.map TmrEvent.call).foldl schedStep A).armed u = some r) (hdue : r.deadline ≤ J) :
    A.armed u = some r ∨ (u = r0.timer ∧ r.th = staticTimerFn ∧ r.arg = r0.this ∧
      R.1 = ticked r0 ∧ tickTime (ticked r0) ≤ J) := by
  have hafter := hread.after
  have hforward := hread.forward
  rcases timerFn_calls J r0 v hm hread hrange with ⟨hearly, hfn⟩ | ⟨_, hfn⟩
  · -- Put off to its time, which is after the reading of the poll.
    rw [← hR, hfn] at h
    simp only [List.map_cons, List.map_nil, List.foldl_cons, List.foldl_nil] at h
    rcases schedStep_armed A _ u r h with ⟨hold, _⟩ | ⟨_, delay, now, grow, hc, hd⟩
    · exact Or.inl hold
    · simp only [arm, TmrEvent.call.injEq, TmrCall.start.injEq] at hc
      omega
  · rw [← hR, hfn] at h
    rw [← hR, hfn]
    by_cases hact : v.act.2 = true
    · rw [if_pos hact] at h ⊢
      simp only [List.map_append, List.map_cons, List.map_nil, List.foldl_append, List.foldl_cons,
        List.foldl_nil] at h
      rcases schedStep_armed _ _ u r h with ⟨hold, _⟩ | ⟨_, delay, now, grow, hc, hd⟩
      · exact Or.inl (later_armed J v.act.1 A u r hlater hold hdue)
      · simp only [arm, TmrEvent.call.injEq, TmrCall.start.injEq] at hc
        rcases hc with ⟨hu, hdelay, hth, harg, hnow, _⟩
        refine Or.inr ⟨hu.symm, hth.symm, harg.symm, rfl, ?_⟩
        -- Due already, so there was nothing to wait for and the clock stands.
        omega
    · rw [if_neg hact] at h
      exact Or.inl (later_armed J v.act.1 A u r hlater h hdue)

/-- What was due before a firing and is still is another timer. -/
theorem armed_after_fire (A : Sched) (left : TmrPtr → Nat) (J : Nat) (t : TmrPtr) (th : TmrH)
    (arg : Nat) (u : TmrPtr) (r : Armed)
    (h : (schedStep A (.fire J t th arg)).armed u = some r) :
    A.armed u = some r ∧ u ≠ t ∧ spend left t u = left u := by
  rcases schedStep_armed A _ u r h with ⟨hold, hnot⟩ | ⟨_, _, _, _, hc, _⟩
  · have hut : u ≠ t := fun hc => hnot hc.symm
    exact ⟨hold, hut, Function.update_of_ne hut _ _⟩
  · exact absurd hc (by simp only [reduceCtorEq, not_false_eq_true])

theorem owns_of_eq (objects objects' : Nat → RepeatingTimer) (t : TmrPtr) (arg : Nat)
    (h : Owns objects t arg) (htimer : (objects' arg).timer = (objects arg).timer)
    (hthis : (objects' arg).this = (objects arg).this)
    (hinterval : (objects' arg).msPerTick = (objects arg).msPerTick) : Owns objects' t arg :=
  ⟨htimer.trans h.timer, hthis.trans h.this, hinterval.symm ▸ h.interval⟩

/-- An invocation of `timer_fn` uses up one of the timer's missed ticks. `R`
    is what it comes to, and `hserved` what can be due after it. -/
theorem serve_budget (J : Nat) (D : Finset TmrPtr) (objects : Nat → RepeatingTimer) (A : Sched)
    (left : TmrPtr → Nat) (t : TmrPtr) (arg : Nat) (R : RepeatingTimer × List TmrCall × Bool)
    (hb : PollBudget J D objects A left) (htD : t ∈ D) (hown : Owns objects t arg)
    (hshare : ticksLeft J (objects arg) ≤ left t)
    (hserved : ∀ u r, ((R.2.1.map TmrEvent.call).foldl schedStep
        (schedStep A (.fire J t staticTimerFn arg))).armed u = some r → r.deadline ≤ J →
      (schedStep A (.fire J t staticTimerFn arg)).armed u = some r ∨
        (u = (objects arg).timer ∧ r.th = staticTimerFn ∧ r.arg = (objects arg).this ∧
          R.1 = ticked (objects arg) ∧ tickTime (ticked (objects arg)) ≤ J)) :
    PollBudget J D (Function.update objects arg R.1) ((R.2.1.map TmrEvent.call).foldl schedStep
      (schedStep A (.fire J t staticTimerFn arg))) (spend left t) := by
  intro u r h hdue
  rcases hserved u r h hdue with hold | ⟨hu, hth, harg, htick, hmissed⟩
  · rcases armed_after_fire A left J t _ arg u r hold with ⟨hA, hut, hleft⟩
    rcases hb u r hA hdue with ⟨huD, hshare', howns⟩
    rw [hleft]
    by_cases hth : r.th = staticTimerFn
    · -- Another repeating timer, at another address.
      have hne : r.arg ≠ arg := fun hc => hut (by
        rw [← (howns hth).timer, hc, hown.timer])
      have hsame : Function.update objects arg R.1 r.arg = objects r.arg :=
        Function.update_of_ne hne _ _
      refine ⟨huD, ?_, fun _ => owns_of_eq objects _ u r.arg (howns hth) (by rw [hsame])
        (by rw [hsame]) (by rw [hsame])⟩
      unfold share at hshare' ⊢
      rw [hsame]
      exact hshare'
    · unfold share at hshare' ⊢
      rw [if_neg hth] at hshare' ⊢
      exact ⟨huD, hshare', fun hc => absurd hc hth⟩
  · -- The timer itself, with one missed tick fewer.
    rw [hown.timer] at hu
    rw [hown.this] at harg
    have hself : Function.update objects arg R.1 arg = ticked (objects arg) := by
      rw [Function.update_self, htick]
    have hfewer := ticksLeft_ticked J (objects arg) hown.interval hmissed
    rw [hu, harg]
    refine ⟨htD, ?_, fun _ => owns_of_eq objects _ t arg hown (by rw [hself]; rfl)
      (by rw [hself]; rfl) (by rw [hself]; rfl)⟩
    rw [share, if_pos hth, hself, spend, Function.update_self]
    omega

theorem handlers_static {ε : Type} (code : Code ε) (arg : Nat) (a a' : App ε) (s : Store)
    (v : Serving) (R : RepeatingTimer × List TmrCall × Bool) (calls : List TmrCall)
    (hv : (code.serve arg a.rest s).1 = v)
    (hR : timerFn (a.objects arg) v.c1 v.act v.c2 v.grow = R)
    (h : handlers code staticTimerFn arg a s = (calls, a')) :
    calls = R.2.1 ∧ a'.objects = Function.update a.objects arg R.1 := by
  unfold handlers at h
  rw [if_pos rfl] at h
  simp only [hv, hR, Prod.mk.injEq] at h
  rw [← h.1, ← h.2]
  exact ⟨rfl, rfl⟩

theorem handlers_other {ε : Type} (code : Code ε) (th : TmrH) (arg : Nat) (a a' : App ε)
    (s : Store) (calls : List TmrCall) (hth : th ≠ staticTimerFn)
    (h : handlers code th arg a s = (calls, a')) :
    calls = (code.other th arg a.rest s).1 ∧ a'.objects = a.objects := by
  unfold handlers at h
  rw [if_neg hth, Prod.mk.injEq] at h
  rw [← h.1, ← h.2]
  exact ⟨rfl, rfl⟩

/-- A firing uses up one of its timer's share. -/
theorem firing_budget {ε : Type} (code : Code ε) (J : Nat) (D : Finset TmrPtr) (a a' : App ε)
    (s : Store) (A : Sched) (left : TmrPtr → Nat) (t : TmrPtr) (th : TmrH) (arg : Nat)
    (calls : List TmrCall) (hH : handlers code th arg a s = (calls, a'))
    (hb : PollBudget J D a.objects A left) (htD : t ∈ D)
    (hshare : share J a.objects th arg ≤ left t)
    (howns : th = staticTimerFn → Owns a.objects t arg) (hok : FiringOk code J th arg a s)
    (hrange : FiringInRange code th arg a s) :
    PollBudget J D a'.objects ((calls.map TmrEvent.call).foldl schedStep
      (schedStep A (.fire J t th arg))) (spend left t) := by
  have hok' := hok.2
  -- A repeating timer may arm itself for `J` once more. Any other handler
  -- starts timers for later only.
  by_cases hth : th = staticTimerFn
  · have hown := howns hth
    rw [if_pos hth] at hok'
    rcases hok' with ⟨hread, hlater⟩
    rw [share, if_pos hth] at hshare
    rw [hth] at hH ⊢
    rcases handlers_static code arg a a' s _ _ calls rfl rfl hH with ⟨hcalls, hobjects⟩
    rw [hcalls, hobjects]
    exact serve_budget J D a.objects A left t arg _ hb htD hown hshare
      (served_armed J (a.objects arg) _ hown.interval hread (hrange hth) hlater _ rfl _)
  · rw [if_neg hth] at hok'
    rcases handlers_other code th arg a a' s calls hth hH with ⟨hcalls, hobjects⟩
    rw [hcalls, hobjects]
    intro u r h hdue
    rcases armed_after_fire A left J t th arg u r (later_armed J _ _ u r hok' h hdue) with
      ⟨hA, _, hleft⟩
    rw [hleft]
    exact hb u r hA hdue

/-! ## The loop -/

/-- A timer that a round finds due is one of the budget. -/
theorem due_share (J : Nat) (D : Finset TmrPtr) (objects : Nat → RepeatingTimer) (s : Store)
    (A : Sched) (left : TmrPtr → Nat) (t : TmrPtr) (th : TmrH) (arg : Nat) (s1 : Store)
    (hf : Follows s A) (hb : PollBudget J D objects A left)
    (hp : pollIter s J = .fire t th arg s1) :
    t ∈ D ∧ share J objects th arg ≤ left t ∧ (th = staticTimerFn → Owns objects t arg) := by
  rcases pollIter_fires s J t th arg s1 hf.sound hp with ⟨⟨hpeek, hdue, hth, harg⟩, _⟩
  cases harm : A.armed t with
  | none => exact absurd (heapPeek_min s hf.sound t hpeek).1 (hf.idle t harm).2
  | some r =>
      rcases hf.running t r harm with ⟨_, hrth, hrarg, hrjfs⟩
      have h := hb t r harm (hrjfs ▸ hdue)
      rw [Option.some.inj (hrth.symm.trans hth), hrarg.symm.trans harg] at h
      exact h

/-- A round that calls a handler is one invocation of its timer. -/
theorem fires_round (j : Nat) (t : TmrPtr) (th : TmrH) (arg : Nat) (calls : List TmrCall)
    (es : List TmrEvent) (u : TmrPtr) :
    fires (.fire j t th arg :: (calls.map .call ++ es)) u =
      fires es u + if t = u then 1 else 0 := by
  have hcalls : (calls.map TmrEvent.call).countP (isFire u) = 0 := by
    rw [List.countP_map, List.countP_eq_zero]
    intro c _
    simp only [Function.comp_apply, isFire, Bool.false_eq_true, not_false_eq_true]
  unfold fires
  rw [List.countP_cons, List.countP_append, hcalls, Nat.zero_add]
  simp only [isFire, decide_eq_true_eq]

/-- The loop ends within the budget, and invokes no timer more often than its
    share. -/
theorem pollLoop_budget {ε : Type} (code : Code ε) (J : Nat) (D : Finset TmrPtr) :
    ∀ (n : Nat) (a : App ε) (s : Store) (A : Sched) (left : TmrPtr → Nat), Follows s A →
      s.count < 2 ^ 30 → PollBudget J D a.objects A left → ∑ u ∈ D, left u ≤ n →
      (∀ k, PollAlong (handlers code) (FiringOk code J) J k a s) →
      (∀ k, PollAlong (handlers code) (FiringInRange code) J k a s) →
      ∃ a' s' es, pollLoop (handlers code) J (n + 1) a s = some (a', s', es) ∧
        s'.count < 2 ^ 30 ∧ ∀ t, fires es t ≤ left t := by
  intro n
  -- On what is left of the budget. A round that calls a handler uses up one
  -- firing, so a round without any left is the last.
  induction n with
  | zero =>
      intro a s A left hf hfew hb hsum _ _
      cases hp : pollIter s J with
      | done =>
          refine ⟨a, s, [], ?_, hfew, fun t => Nat.zero_le _⟩
          simp only [pollLoop, hp]
      | drop s1 =>
          exact absurd hp (pollIter_not_drop s J s1 hf.sound (follows_isSome_iff s A hf))
      | fire t th arg s1 =>
          rcases due_share J D a.objects s A left t th arg s1 hf hb hp with ⟨htD, hshare, _⟩
          have hpos := share_pos J a.objects th arg
          -- A timer that is due has a share, but nothing is left.
          have hle := Finset.single_le_sum (fun u _ => Nat.zero_le (left u)) htD
          omega
  | succ n ih =>
      intro a s A left hf hfew hb hsum hal hin
      cases hp : pollIter s J with
      | done =>
          refine ⟨a, s, [], ?_, hfew, fun t => Nat.zero_le _⟩
          simp only [pollLoop, hp]
      | drop s1 =>
          exact absurd hp (pollIter_not_drop s J s1 hf.sound (follows_isSome_iff s A hf))
      | fire t th arg s1 =>
          rcases due_share J D a.objects s A left t th arg s1 hf hb hp with ⟨htD, hshare, howns⟩
          have hpos := share_pos J a.objects th arg
          have hspend := sum_spend D left t htD (by omega)
          have hok := (pollAlong_fire _ _ J t th arg a s s1 hp hal).1
          have hrange := (pollAlong_fire _ _ J t th arg a s s1 hp hin).1
          -- The heap goes on to follow the schedule: after the timer is taken out,
          -- and after what its handler does.
          have hstep : timerStep s (.fire J t th arg) = some s1 := by
            simp only [timerStep, hp, and_self, if_true]
          have hf1 := timerStep_follows s s1 A (.fire J t th arg) hf trivial hstep
          have hfew1 := timerStep_count s s1 A (.fire J t th arg) hf hfew trivial hstep
          rcases hH : handlers code th arg a s1 with ⟨calls, a1⟩
          have hb1 := firing_budget code J D a a1 s1 A left t th arg calls hH hb htD hshare howns
            hok hrange
          have hfit := hok.1
          rw [hH] at hfit
          have hf2 := exec_follows _ s1 _ _ hf1 hfit (exec_calls calls s1)
          have hfew2 := exec_count _ s1 _ _ hf1 hfew1 hfit (exec_calls calls s1)
          have hal' := (pollAlong_fire _ _ J t th arg a s s1 hp hal).2
          have hin' := (pollAlong_fire _ _ J t th arg a s s1 hp hin).2
          rw [hH] at hal' hin'
          rcases ih a1 _ _ (spend left t) hf2 hfew2 hb1 (by omega) hal' hin' with
            ⟨a', s', es, hloop, hfew', hfires⟩
          refine ⟨a', s', .fire J t th arg :: (calls.map .call ++ es), ?_, hfew', fun u => ?_⟩
          · rw [pollLoop]
            simp only [hp, hH, hloop]
          · rw [fires_round]
            have hu := hfires u
            by_cases htu : t = u
            · rw [if_pos htu, ← htu]
              rw [← htu, spend, Function.update_self] at hu
              omega
            · rw [if_neg htu]
              rw [spend, Function.update_of_ne (fun hc => htu hc.symm)] at hu
              exact hu

/-- Any heap in which the timers that have a handler are those in the heap
    follows some schedule. -/
theorem follows_of_sound (s : Store) (hs : Sound s)
    (hrun : ∀ t, tmrIsrunning s (some t) = true ↔ Member s t) : ∃ A, Follows s A := by
  refine ⟨⟨0, fun t => (s.tmr t).th.map (fun th => ⟨0, (s.tmr t).jfs, th, (s.tmr t).arg⟩)⟩, hs,
    fun t h => ?_, fun t r h => ?_⟩
  · have hth := Option.map_eq_none_iff.mp h
    refine ⟨hth, fun hc => ?_⟩
    have hsome := (hrun t).mpr hc
    simp only [tmrIsrunning, hth, Option.isSome_none, Bool.false_eq_true] at hsome
  · rcases Option.map_eq_some_iff.mp h with ⟨th, hth, hr⟩
    rw [← hr]
    refine ⟨(hrun t).mp ?_, hth, rfl, rfl⟩
    simp only [tmrIsrunning, hth, Option.isSome_some]

/-- Each timer that runs with the handler `static_timer_fn` is that of the
    repeating timer its argument points to. -/
def OwnTimers (objects : Nat → RepeatingTimer) (s : Store) : Prop :=
  ∀ t, (s.tmr t).th = some staticTimerFn → Owns objects t (s.tmr t).arg

/-- The missed ticks as the difference of the ticks that have passed by `J`
    and those that were taken. -/
theorem ticksLeft_eq (J : Nat) (r : RepeatingTimer) (hm : 1 ≤ r.msPerTick) :
    (ticksLeft J r : Int) =
      max 1 (((J : Int) - r.startTime) / r.msPerTick - r.tick + 1) := by
  unfold ticksLeft
  by_cases hS : r.startTime ≤ J
  · have hdiv : ((J : Int) - r.startTime) / r.msPerTick =
        ((J - r.startTime) / r.msPerTick : Nat) := by
      rw [Int.natCast_ediv, Int.natCast_sub hS]
    rw [hdiv]
    omega
  · -- Not started yet by the clock of the poll: no tick has passed.
    have hneg : ((J : Int) - r.startTime) / r.msPerTick < 0 :=
      Int.ediv_neg_of_neg_of_pos (by omega) (by omega)
    have hzero : J - r.startTime = 0 := by omega
    rw [hzero, Nat.zero_div]
    omega

/-- The timers in the heap. -/
def heapTimers (s : Store) : Finset TmrPtr := (Finset.range s.count).image s.array

/-- What each timer may have of a poll to begin with. -/
def fullShare (J : Nat) (objects : Nat → RepeatingTimer) (s : Store) (t : TmrPtr) : Nat :=
  match (s.tmr t).th with
  | none => 0
  | some th => share J objects th (s.tmr t).arg

theorem fullShare_budget (J : Nat) (objects : Nat → RepeatingTimer) (s : Store) (A : Sched)
    (hf : Follows s A) (hown : OwnTimers objects s) :
    PollBudget J (heapTimers s) objects A (fullShare J objects s) := by
  intro t r harm _
  rcases hf.running t r harm with ⟨⟨i, hi, hit⟩, hth, harg, _⟩
  refine ⟨Finset.mem_image.mpr ⟨i, Finset.mem_range.mpr hi, hit⟩, ?_, fun hc => ?_⟩
  · simp only [fullShare, hth, harg, le_refl]
  · rw [← harg]
    exact hown t (hth.trans (congrArg some hc))

/-- A poll that read the clock as `J`, of any heap of repeating timers and
    others, with any code in the handlers that starts timers only with a
    delay, and with clock readings that may all be `J`. Where no tick that is
    waited for is `2 ^ 31` milliseconds ahead, the poll ends; it invokes a
    repeating timer at most once for each tick that has been missed, or once;
    and any other timer at most once. The heap stays so small that its
    positions fit an `int`. -/
theorem poll_ends_within_missed_ticks {ε : Type} (code : Code ε) (J : Nat) (a : App ε) (s : Store)
    (hs : Sound s) (hrun : ∀ t, tmrIsrunning s (some t) = true ↔ Member s t)
    (hfew : s.count < 2 ^ 30) (hown : OwnTimers a.objects s)
    (hok : ∀ k, PollAlong (handlers code) (FiringOk code J) J k a s)
    (hrange : ∀ k, PollAlong (handlers code) (FiringInRange code) J k a s) :
    ∃ rounds, ∀ n, rounds ≤ n → ∃ a' s' es,
      tmrPoll (handlers code) n a s J = some (a', s', es) ∧ s'.count < 2 ^ 30 ∧
      (∀ t, (s.tmr t).th ≠ some staticTimerFn → fires es t ≤ 1) ∧
      ∀ t r, (s.tmr t).th = some staticTimerFn → a.objects (s.tmr t).arg = r →
        (fires es t : Int) ≤ max 1 (((J : Int) - r.startTime) / r.msPerTick - r.tick + 1) := by
  -- The budget is the sum of what the timers in the heap may have. More
  -- rounds than that do no harm.
  rcases follows_of_sound s hs hrun with ⟨A, hf⟩
  have hb := fullShare_budget J a.objects s A hf hown
  refine ⟨∑ u ∈ heapTimers s, fullShare J a.objects s u + 1, fun n hn => ?_⟩
  rcases Nat.exists_eq_add_of_le' hn with ⟨k, hk⟩
  rcases pollLoop_budget code J _ (k + ∑ u ∈ heapTimers s, fullShare J a.objects s u) a s A _ hf
    hfew hb (Nat.le_add_left _ _) hok hrange with ⟨a', s', es, hloop, hfew', hfires⟩
  refine ⟨a', s', es, ?_, hfew', fun t hth => ?_, fun t r hth hr => ?_⟩
  · rw [tmrPoll, hk]
    exact hloop
  · refine le_trans (hfires t) ?_
    cases ht : (s.tmr t).th with
    | none => simp only [fullShare, ht, Nat.zero_le]
    | some th =>
        have hne : th ≠ staticTimerFn := fun hc => hth (ht.trans (congrArg some hc))
        simp only [fullShare, ht, share, if_neg hne, le_refl]
  · have hle := hfires t
    have hinterval := (hown t hth).interval
    simp only [fullShare, hth, share, if_true] at hle
    rw [hr] at hle hinterval
    rw [← ticksLeft_eq J r hinterval]
    exact_mod_cast hle

/-! ## A late timer, and one with a long interval -/

/-- Timers started by a list of calls. -/
theorem started_timers (objects : Nat → RepeatingTimer) (h : List TmrEvent) (s : Store)
    (hfit : Along timerStep Fits (heapNew (fun _ => 0) (fun _ => initTmr)) h)
    (hs : exec timerStep (heapNew (fun _ => 0) (fun _ => initTmr)) h = some s)
    (howns : ∀ t r, (schedOf h).armed t = some r → r.th = staticTimerFn → Owns objects t r.arg) :
    Sound s ∧ (∀ t, tmrIsrunning s (some t) = true ↔ Member s t) ∧ s.count < 2 ^ 30 ∧
      OwnTimers objects s := by
  have hinit := fresh_follows (fun _ => 0) (fun _ => initTmr) (fun _ => Or.inl rfl)
  have hf : Follows s (schedOf h) := exec_follows h _ s schedInit hinit hfit hs
  refine ⟨hf.sound, tmrIsrunning_iff s _ hf,
    exec_count h _ s schedInit hinit (by simp only [heapNew]; omega) hfit hs, fun t hth => ?_⟩
  cases harm : (schedOf h).armed t with
  | none =>
      rw [(hf.idle t harm).1] at hth
      exact absurd hth (by simp only [reduceCtorEq, not_false_eq_true])
  | some r =>
      rcases hf.running t r harm with ⟨_, hrth, hrarg, _⟩
      rw [hrarg]
      exact howns t r harm (Option.some.inj (hrth.symm.trans hth))

/-- The clock reads 1025 throughout, the repeating timers go on, and the other
    handlers start the timer 3 with a delay. -/
def standingClock : Code Unit where
  serve := fun _ e _ => (⟨1025, ([], true), 1025, true⟩, e)
  other := fun _ _ e _ => ([.start 3 1 8 0 1025 true], e)

/-- A repeating timer of 10 ms, started at 1000. -/
def tenMs : RepeatingTimer := ⟨5, 10, 1, 1000, 0⟩

/-- Three ticks have been missed, and the poll serves them all while the clock
    stands. -/
theorem poll_ends_within_missed_ticks_run :
    ∃ s, exec timerStep (heapNew (fun _ => 0) (fun _ => initTmr))
        [.call (.start 1 0 staticTimerFn 5 1000 true), .call (.start 2 5 7 0 1010 true)] = some s ∧
      (tmrPoll (handlers standingClock) 5 ⟨fun _ => tenMs, ()⟩ s 1025).any
        (fun r => fires r.2.2 1 = 3 ∧ fires r.2.2 2 = 1) = true ∧
      ∃ rounds, ∀ n, rounds ≤ n → ∃ a' s' es,
        tmrPoll (handlers standingClock) n ⟨fun _ => tenMs, ()⟩ s 1025 = some (a', s', es) ∧
        fires es 2 ≤ 1 ∧ (fires es 1 : Int) ≤ max 1 ((1025 - 1000) / 10 - 0 + 1) := by
  let h : List TmrEvent :=
    [.call (.start 1 0 staticTimerFn 5 1000 true), .call (.start 2 5 7 0 1010 true)]
  let a : App Unit := ⟨fun _ => tenMs, ()⟩
  have hex : (exec timerStep (heapNew (fun _ => 0) (fun _ => initTmr)) h).any (fun s =>
      (tmrPoll (handlers standingClock) 5 a s 1025).any
        (fun r => fires r.2.2 1 = 3 ∧ fires r.2.2 2 = 1) ∧
      PollAlong (handlers standingClock) (FiringOk standingClock 1025) 1025 5 a s ∧
      PollAlong (handlers standingClock) (FiringInRange standingClock) 1025 5 a s ∧
      (s.tmr 1).th = some staticTimerFn ∧ (s.tmr 2).th = some 7) = true := by
    decide +kernel
  rcases (Option.any_eq_true _ _).mp hex with ⟨s, hs, hP⟩
  rcases of_decide_eq_true hP with ⟨hpoll, hok, hrange, hth1, hth2⟩
  have hend : (pollLoop (handlers standingClock) 1025 5 a s).isSome = true := by
    rcases (Option.any_eq_true _ _).mp hpoll with ⟨r, hr, _⟩
    exact Option.isSome_iff_exists.mpr ⟨r, hr⟩
  have howns : ∀ t r, (schedOf h).armed t = some r → r.th = staticTimerFn →
      Owns a.objects t r.arg := fun t r harm hth => by
    -- Of the two timers that are armed only the first has the handler.
    simp only [h, schedOf, List.foldl_cons, List.foldl_nil, schedStep, schedInit,
      Function.update_apply] at harm
    by_cases h2 : t = 2
    · rw [if_pos h2, Option.some.injEq] at harm
      rw [← harm] at hth
      exact absurd hth (by decide)
    · rw [if_neg h2] at harm
      by_cases h1 : t = 1
      · rw [if_pos h1, Option.some.injEq] at harm
        rw [← harm, h1]
        exact ⟨rfl, rfl, by decide⟩
      · rw [if_neg h1] at harm
        exact absurd harm (by simp only [reduceCtorEq, not_false_eq_true])
  rcases started_timers a.objects h s (by decide +kernel) hs howns with
    ⟨hsound, hrun, hfew, hown⟩
  rcases poll_ends_within_missed_ticks standingClock 1025 a s hsound hrun hfew hown
    (pollAlong_of_ended _ _ 1025 5 a s hend hok)
    (pollAlong_of_ended _ _ 1025 5 a s hend hrange) with ⟨rounds, hrounds⟩
  refine ⟨s, hs, hpoll, rounds, fun n hn => ?_⟩
  rcases hrounds n hn with ⟨a', s', es, hes, _, hothers, hrepeating⟩
  refine ⟨a', s', es, hes, hothers 2 ?_, hrepeating 1 tenMs hth1 rfl⟩
  rw [hth2]
  decide

/-- The clock reads 1000 until the repeating timer has armed itself for the
    second time. -/
def movingClock : Code Nat where
  serve := fun _ e _ => (⟨1000, ([], true), if e = 0 then 1000 else 1001, true⟩, e + 1)
  other := fun _ _ e _ => ([], e)

/-- A repeating timer of `2 ^ 31` ms, started at 1000. -/
def longInterval : RepeatingTimer := ⟨5, 2 ^ 31, 1, 1000, 0⟩

/-- Its first tick is due and its second almost 25 days ahead, and one poll
    serves both. -/
theorem long_interval_is_served_twice :
    ∃ s a' s' es, Sound s ∧ (∀ t, tmrIsrunning s (some t) = true ↔ Member s t) ∧
      s.count < 2 ^ 30 ∧ OwnTimers (fun _ => longInterval) s ∧
      (∀ k, PollAlong (handlers movingClock) (FiringOk movingClock 1000) 1000 k
        ⟨fun _ => longInterval, 0⟩ s) ∧
      (s.tmr 1).th = some staticTimerFn ∧
      tmrPoll (handlers movingClock) 3 ⟨fun _ => longInterval, 0⟩ s 1000 = some (a', s', es) ∧
      ¬ (fires es 1 : Int) ≤ max 1 (((1000 : Nat) - longInterval.startTime) /
        longInterval.msPerTick - longInterval.tick + 1) := by
  let h : List TmrEvent := [.call (.start 1 0 staticTimerFn 5 1000 true)]
  let a : App Nat := ⟨fun _ => longInterval, 0⟩
  have hex : (exec timerStep (heapNew (fun _ => 0) (fun _ => initTmr)) h).any (fun s =>
      (tmrPoll (handlers movingClock) 3 a s 1000).any (fun r => fires r.2.2 1 = 2) ∧
      PollAlong (handlers movingClock) (FiringOk movingClock 1000) 1000 3 a s ∧
      (s.tmr 1).th = some staticTimerFn) = true := by
    decide +kernel
  rcases (Option.any_eq_true _ _).mp hex with ⟨s, hs, hP⟩
  rcases of_decide_eq_true hP with ⟨hpoll, hok, hth⟩
  rcases (Option.any_eq_true _ _).mp hpoll with ⟨⟨a', s', es⟩, hr, htwice⟩
  have howns : ∀ t r, (schedOf h).armed t = some r → r.th = staticTimerFn →
      Owns a.objects t r.arg := fun t r harm _ => by
    simp only [h, schedOf, List.foldl_cons, List.foldl_nil, schedStep, schedInit,
      Function.update_apply] at harm
    by_cases h1 : t = 1
    · rw [if_pos h1, Option.some.injEq] at harm
      rw [← harm, h1]
      exact ⟨rfl, rfl, by decide⟩
    · rw [if_neg h1] at harm
      exact absurd harm (by simp only [reduceCtorEq, not_false_eq_true])
  rcases started_timers a.objects h s (by decide +kernel) hs howns with
    ⟨hsound, hrun, hfew, hown⟩
  refine ⟨s, a', s', es, hsound, hrun, hfew, hown,
    pollAlong_of_ended _ _ 1000 3 a s (Option.isSome_iff_exists.mpr ⟨_, hr⟩) hok, hth, hr, ?_⟩
  rw [of_decide_eq_true htwice]
  decide

end RepeatingTimers

end SipPerf
