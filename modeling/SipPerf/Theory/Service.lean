import SipPerf.Core.RepeatingTimer
import SipPerf.Theory.TimerRuns

/-!
# Repeating Timers in the Timer Service

`Paced` keeps the deadline of a repeating timer beside it, as if the timer
service did nothing but remember it. Here the service is the one of `tmr.c`:
the deadline is in the memory of the timer, the heap decides which timer a
poll serves, and the calls a repeating timer makes are run against it, among
the calls and polls of all the other timers.

`view` forgets the service and keeps the deadline. A step of the whole is
then a step of the repeating timer alone, or it is about other timers and the
view does not change. So whatever holds of every run of a repeating timer by
itself holds of it in the service.

What makes this true is that the service gives each timer what was asked for
it and nothing else, which is the schedule that the memory follows. The
deadline in memory is read off that, and the rest is that calls change the
schedule as `armedBy` says.

## Main definitions

* `armedIn`: The deadline a timer is armed with in memory.
* `Service`, `ServiceEvent`, `serviceStep`: A repeating timer in the service.
* `view`: The repeating timer alone.
* `ServiceFits`: Memory and 64-bit range suffice for an event.

## Theorems

* `foldl_runCall_armedIn`: Calls arm a timer in memory as `armedBy` says.
* `serviceStep_view`: A step is one of the repeating timer, or does not
  concern it.
* `exec_view`: A run in the service is a run of the repeating timer alone.
-/

namespace SipPerf

namespace RepeatingTimers

open TmrHeap Timers MachineInt Transition

/-! ## The deadline in memory -/

/-- The deadline a timer is armed with, as it stands in memory. -/
def armedIn (s : Store) (t : TmrPtr) : Option Nat :=
  if tmrIsrunning s (some t) then some (s.tmr t).jfs else none

theorem armedIn_eq (s : Store) (A : Sched) (h : Follows s A) (t : TmrPtr) :
    armedIn s t = (A.armed t).map Armed.deadline := by
  cases harm : A.armed t with
  | none =>
      simp only [armedIn, tmrIsrunning, (h.idle t harm).1, Option.isSome_none, Bool.false_eq_true,
        if_false, Option.map_none]
  | some r =>
      rcases h.running t r harm with ⟨_, hth, _, hjfs⟩
      simp only [armedIn, tmrIsrunning, hth, hjfs, Option.isSome_some, if_true, Option.map_some]

/-- A call arms and disarms timers in memory as it does on paper. -/
theorem runCall_armedIn (s : Store) (A : Sched) (c : TmrCall) (t : TmrPtr) (h : Follows s A)
    (hfit : Fits s (.call c)) : armedIn (runCall s c) t = armedBy t (armedIn s t) c := by
  rw [armedIn_eq _ _ (timerStep_follows s _ A (.call c) h hfit rfl), armedIn_eq s A h]
  unfold armedBy
  by_cases htc : target c = t
  · rw [if_pos htc]
    cases c with
    | init u =>
        rw [← htc]
        simp only [schedStep, target, Function.update_self, Option.map_none]
    | start u delay th arg now grow =>
        -- The deadline is stored in 64 bits.
        have hlt : delay + now < 2 ^ 64 := hfit.2.2
        rw [← htc]
        simp only [schedStep, target, Function.update_self, Option.map_some, deadline,
          u64_of_lt _ hlt]
    | cancel u =>
        rw [← htc]
        simp only [schedStep, target, Function.update_self, Option.map_none]
  · rw [if_neg htc, schedStep_other A (.call c) t htc]

theorem foldl_runCall_armedIn (t : TmrPtr) : ∀ (calls : List TmrCall) (s : Store) (A : Sched),
    Follows s A → Along timerStep Fits s (calls.map .call) →
      armedIn (calls.foldl runCall s) t = calls.foldl (armedBy t) (armedIn s t) ∧
        ∃ A', Follows (calls.foldl runCall s) A' := by
  intro calls
  induction calls with
  | nil =>
      intro s A h _
      exact ⟨rfl, A, h⟩
  | cons c calls ih =>
      intro s A h hfit
      have hnext := timerStep_follows s (runCall s c) A (.call c) h hfit.1 rfl
      rw [List.foldl_cons, List.foldl_cons, ← runCall_armedIn s A c t h hfit.1]
      exact ih (runCall s c) _ hnext (hfit.2 _ rfl)

/-- A poll serves a timer that is armed and due, and disarms it. -/
theorem fire_armedIn (s s' : Store) (A : Sched) (j : Nat) (t : TmrPtr) (th : TmrH) (arg : Nat)
    (h : Follows s A) (hfire : pollIter s j = .fire t th arg s') :
    (∃ D, armedIn s t = some D ∧ D ≤ j) ∧ armedIn s' t = none ∧ ∃ A', Follows s' A' := by
  rcases pollIter_fires s j t th arg s' h.sound hfire with ⟨⟨_, hdue, hth, _⟩, hu, hth', hm⟩
  refine ⟨⟨(s.tmr t).jfs, ?_, hdue⟩, ?_, _, follows_disarm s s' A t h hu hth' hm⟩
  · simp only [armedIn, tmrIsrunning, hth, Option.isSome_some, if_true]
  · simp only [armedIn, tmrIsrunning, hth', Option.isSome_none, Bool.false_eq_true, if_false]

/-! ## A repeating timer in the service -/

/-- A repeating timer and the timer service: the object, the timers and the
    heap, and what `Paced` has beside the deadline. -/
structure Service where
  store : Store
  timer : RepeatingTimer
  now : Nat
  started : Bool
  acts : Nat
  stopped : Bool

/-- The repeating timer alone. -/
def view (x : Service) : Paced :=
  { timer := x.timer, armed := armedIn x.store x.timer.timer, now := x.now, started := x.started,
    acts := x.acts, stopped := x.stopped }

/-- The repeating timer is started or served, or something happens to other
    timers. -/
inductive ServiceEvent where
  | pace (e : PaceEvent)
  | other (e : TmrEvent)

instance decidableConcerns (t : TmrPtr) : (e : TmrEvent) → Decidable (Concerns t e)
  | .call c => inferInstanceAs (Decidable (target c = t))
  | .drop _ => isFalse id
  | .fire _ u _ _ => inferInstanceAs (Decidable (u = t))

/-- A repeating timer after it has been served, given what `timer_fn` came
    to. -/
def served (p : Paced) (r : RepeatingTimer × List TmrCall × Bool) (go : Bool) (c2 : Nat) :
    Paced :=
  { p with
    timer := r.1, armed := r.2.1.foldl (armedBy p.timer.timer) none, now := c2,
    acts := if r.2.2 then p.acts + 1 else p.acts, stopped := p.stopped || (r.2.2 && !go) }

/-- The same in the service, whose timers are `s` when `timer_fn` is called. -/
def servedIn (x : Service) (s : Store) (r : RepeatingTimer × List TmrCall × Bool) (go : Bool)
    (c2 : Nat) : Service :=
  { x with
    store := r.2.1.foldl runCall s, timer := r.1, now := c2,
    acts := if r.2.2 then x.acts + 1 else x.acts, stopped := x.stopped || (r.2.2 && !go) }

/-- A step of the service. Which timer a poll serves is for the heap to say,
    and the calls of the methods are run against it. -/
def serviceStep (x : Service) : ServiceEvent → Option Service
  | .other e =>
      if Concerns x.timer.timer e then none
      else match timerStep x.store e with
        | none => none
        | some s => some { x with store := s }
  | .pace (.start c1 c2 grow) =>
      if x.started = false ∧ x.now ≤ c1 ∧ c1 ≤ c2 then
        let r := start x.timer c1 c2 grow
        some { x with
          store := r.2.foldl runCall x.store, timer := r.1, now := c2, started := true }
      else none
  | .pace (.serve j c1 act c2 grow) => match pollIter x.store j with
    | .fire t _ _ s =>
        if t = x.timer.timer ∧ x.now ≤ j ∧ j ≤ c1 ∧ c1 ≤ c2 then
          some (servedIn x s (timerFn x.timer c1 act c2 grow) act.2 c2)
        else none
    | _ => none

/-- What an event needs from its surroundings, the calls of the methods
    included. -/
def ServiceFits (x : Service) : ServiceEvent → Prop
  | .other e => Fits x.store e
  | .pace (.start c1 c2 grow) =>
      Along timerStep Fits x.store ((start x.timer c1 c2 grow).2.map .call)
  | .pace (.serve j c1 act c2 grow) => ∀ t th arg s, pollIter x.store j = .fire t th arg s →
      Along timerStep Fits s ((timerFn x.timer c1 act c2 grow).2.1.map .call)

/-- The events of the repeating timer among all events. -/
def paceOf : ServiceEvent → Option PaceEvent
  | .pace e => some e
  | .other _ => none

theorem timerFn_timer (r : RepeatingTimer) (c1 : Nat) (act : List TmrCall × Bool) (c2 : Nat)
    (grow : Bool) : (timerFn r c1 act c2 grow).1.timer = r.timer := by
  by_cases hd : diff r c1 > 0
  · simp only [timerFn, if_pos hd]
  · cases hact : act.2 with
    | true => simp only [timerFn, if_neg hd, hact, if_true]
    | false => simp only [timerFn, if_neg hd, hact, Bool.false_eq_true, if_false]

/-- What happens to other timers does not concern the repeating timer. -/
theorem other_view (x x' : Service) (A : Sched) (e : TmrEvent) (h : Follows x.store A)
    (hfit : Fits x.store e) (hstep : serviceStep x (.other e) = some x') :
    view x' = view x ∧ ∃ A', Follows x'.store A' := by
  simp only [serviceStep] at hstep
  by_cases hc : Concerns x.timer.timer e
  · simp only [if_pos hc, reduceCtorEq] at hstep
  · rw [if_neg hc] at hstep
    cases hs : timerStep x.store e with
    | none => simp only [hs, reduceCtorEq] at hstep
    | some s =>
        simp only [hs, Option.some.injEq] at hstep
        have hnext := timerStep_follows x.store s A e h hfit hs
        -- Both are what the schedule says, and that has not changed here.
        have hsame : armedIn s x.timer.timer = armedIn x.store x.timer.timer := by
          rw [armedIn_eq s _ hnext, armedIn_eq x.store A h, schedStep_other A e _ hc]
        rw [← hstep]
        refine ⟨?_, _, hnext⟩
        simp only [view, hsame]

theorem start_view (x x' : Service) (A : Sched) (c1 c2 : Nat) (grow : Bool)
    (h : Follows x.store A) (hfit : ServiceFits x (.pace (.start c1 c2 grow)))
    (hstep : serviceStep x (.pace (.start c1 c2 grow)) = some x') :
    paceStep (view x) (.start c1 c2 grow) = some (view x') ∧ ∃ A', Follows x'.store A' := by
  simp only [serviceStep] at hstep
  simp only [ServiceFits] at hfit
  by_cases hen : x.started = false ∧ x.now ≤ c1 ∧ c1 ≤ c2
  · rw [if_pos hen, Option.some.injEq] at hstep
    rcases foldl_runCall_armedIn x.timer.timer (start x.timer c1 c2 grow).2 x.store A h hfit with
      ⟨harmed, hnext⟩
    rw [← hstep]
    refine ⟨?_, hnext⟩
    have hview : (view x).started = false ∧ (view x).now ≤ c1 ∧ c1 ≤ c2 := hen
    have htimer : (start x.timer c1 c2 grow).1.timer = x.timer.timer := rfl
    simp only [paceStep, if_pos hview, Option.some.injEq]
    simp only [view, htimer, harmed]
  · simp only [if_neg hen, reduceCtorEq] at hstep

theorem paceStep_serve (p : Paced) (j c1 : Nat) (act : List TmrCall × Bool) (c2 : Nat)
    (grow : Bool) (D : Nat) (harm : p.armed = some D)
    (hen : D ≤ j ∧ p.now ≤ j ∧ j ≤ c1 ∧ c1 ≤ c2) :
    paceStep p (.serve j c1 act c2 grow) =
      some (served p (timerFn p.timer c1 act c2 grow) act.2 c2) := by
  simp only [paceStep, harm, if_pos hen, served]

theorem servedIn_view (x : Service) (s : Store) (r : RepeatingTimer × List TmrCall × Bool)
    (go : Bool) (c2 : Nat) (htimer : r.1.timer = x.timer.timer)
    (harmed : armedIn (r.2.1.foldl runCall s) x.timer.timer =
      r.2.1.foldl (armedBy x.timer.timer) none) :
    view (servedIn x s r go c2) = served (view x) r go c2 := by
  simp only [view, servedIn, served, htimer, harmed]

/-- The heap serves the timer only when it is armed and due, which is what the
    timer alone would wait for. -/
theorem serve_view (x x' : Service) (A : Sched) (j c1 : Nat) (act : List TmrCall × Bool)
    (c2 : Nat) (grow : Bool) (h : Follows x.store A)
    (hfit : ServiceFits x (.pace (.serve j c1 act c2 grow)))
    (hstep : serviceStep x (.pace (.serve j c1 act c2 grow)) = some x') :
    paceStep (view x) (.serve j c1 act c2 grow) = some (view x') ∧
      ∃ A', Follows x'.store A' := by
  simp only [serviceStep] at hstep
  cases hp : pollIter x.store j with
  | done => simp only [hp, reduceCtorEq] at hstep
  | drop s => simp only [hp, reduceCtorEq] at hstep
  | fire t th arg s =>
      simp only [hp] at hstep
      by_cases hen : t = x.timer.timer ∧ x.now ≤ j ∧ j ≤ c1 ∧ c1 ≤ c2
      · rw [if_pos hen, Option.some.injEq] at hstep
        have hcalls := hfit t th arg s hp
        rw [hen.1] at hp
        -- The timer is out of the heap when its handler runs, and armed again by
        -- the calls that makes.
        rcases fire_armedIn x.store s A j _ th arg h hp with ⟨⟨D, hD, hdue⟩, hnone, A1, hA1⟩
        rcases foldl_runCall_armedIn x.timer.timer _ s A1 hA1 hcalls with ⟨harmed, hnext⟩
        rw [hnone] at harmed
        rw [← hstep, servedIn_view x s _ act.2 c2 (timerFn_timer x.timer c1 act c2 grow) harmed]
        exact ⟨paceStep_serve (view x) j c1 act c2 grow D hD ⟨hdue, hen.2⟩, hnext⟩
      · simp only [if_neg hen, reduceCtorEq] at hstep

/-- A step of the service is a step of the repeating timer alone, or it does
    not concern it. -/
theorem serviceStep_view (x x' : Service) (A : Sched) (e : ServiceEvent) (h : Follows x.store A)
    (hfit : ServiceFits x e) (hstep : serviceStep x e = some x') :
    exec paceStep (view x) (paceOf e).toList = some (view x') ∧ ∃ A', Follows x'.store A' := by
  cases e with
  | other e =>
      rcases other_view x x' A e h hfit hstep with ⟨hsame, hnext⟩
      refine ⟨?_, hnext⟩
      simp only [paceOf, Option.toList_none, exec, hsame]
  | pace e =>
      have hpace : paceStep (view x) e = some (view x') ∧ ∃ A', Follows x'.store A' := by
        cases e with
        | start c1 c2 grow => exact start_view x x' A c1 c2 grow h hfit hstep
        | serve j c1 act c2 grow => exact serve_view x x' A j c1 act c2 grow h hfit hstep
      refine ⟨?_, hpace.2⟩
      simp only [paceOf, Option.toList_some, exec, hpace.1]

/-- A run in the service is a run of the repeating timer alone, with the
    events of other timers left out. -/
theorem exec_view : ∀ (es : List ServiceEvent) (x x' : Service) (A : Sched), Follows x.store A →
    Along serviceStep ServiceFits x es → exec serviceStep x es = some x' →
      exec paceStep (view x) (es.filterMap paceOf) = some (view x') ∧
        ∃ A', Follows x'.store A' := by
  intro es
  induction es with
  | nil =>
      intro x x' A h _ hrun
      simp only [exec, Option.some.injEq] at hrun
      rw [← hrun]
      exact ⟨rfl, A, h⟩
  | cons e es ih =>
      intro x x' A h hfit hrun
      rcases exec_cons serviceStep x x' e es hrun with ⟨x1, hx1, hrest⟩
      rcases serviceStep_view x x1 A e h hfit.1 hx1 with ⟨hfirst, A1, hA1⟩
      rcases ih x1 x' A1 hA1 (hfit.2 x1 hx1) hrest with ⟨htail, hend⟩
      refine ⟨?_, hend⟩
      -- An event of another timer is no step, and any other is one.
      have hsplit : (e :: es).filterMap paceOf = (paceOf e).toList ++ es.filterMap paceOf := by
        cases e with
        | pace e => rfl
        | other e => rfl
      rw [hsplit, exec_append]
      exact ⟨view x1, hfirst, htail⟩

end RepeatingTimers

end SipPerf
