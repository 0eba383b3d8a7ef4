import SipPerf.Theory.TimerRuns

/-!
# A Whole Poll

What one call of `tmr_poll` does, whatever the timeout handlers do in it. The
handlers are arbitrary code that may start, restart and cancel any timers, so
the heap the loop looks at in one round need not resemble the one it left in
the round before, and no property of the heap at entry survives. What does
survive is the schedule: a poll is a stretch of the same history of events
that every other run is, and the timers follow the schedule of that history
at each point of it.

The facts about a poll are then facts about histories. Which start an
invocation serves is which start armed the timer, and starts are told apart
by when they happened. A start that has been served, cancelled or superseded
has left the schedule, and time does not return to it, so it is not served
again. Deadlines do not decrease from one invocation to the next because the
first is served when it is earliest, and everything started after that is
due no earlier than the clock the poll went by.

The last point is the only use made of the clock, and it needs only that what
a handler reads is not before what the poll read.

## Main definitions

* `PollRun`: The events of a poll.
* `NotBefore`: A clock reading is not before that of the poll.
* `Serves`: An invocation is for a given start.

## Theorems

* `pollLoop_run`: A poll is a run of its events.
* `fire_serves_earliest`: An invocation serves an earliest armed timer.
* `fires_nondecreasing`: Deadlines do not decrease along a poll.
* `fires_once`: No start is served twice.
* `fires_after_touch`: A restarted timer is served for its new start.
* `untouched_stays`: A later timer that is let alone stays armed.
* `due_fires`: A due timer is invoked unless a handler calls for it first.
* `poll_drops_none`: No timer is thrown away.
* `tmrPoll_fires_due_timers`: All of this, for any poll of any timers.
-/

namespace SipPerf

namespace Timers

open TmrHeap Transition

/-! ## A poll is a run -/

theorem exec_calls (cs : List TmrCall) : ∀ (s : Store),
    exec timerStep s (cs.map .call) = some (cs.foldl runCall s) := by
  induction cs with
  | nil =>
      intro s
      rfl
  | cons c cs ih =>
      intro s
      simp only [List.map_cons, exec, timerStep, List.foldl_cons]
      exact ih (runCall s c)

/-- The events of a poll: a run, all by one clock reading, that ends when the
    earliest timer is not due. -/
structure PollRun (jfs : Nat) (s s' : Store) (es : List TmrEvent) : Prop where
  run : exec timerStep s es = some s'
  clock : ∀ j t th arg, TmrEvent.fire j t th arg ∈ es → j = jfs
  done : pollIter s' jfs = .done

theorem pollLoop_run {σ : Type} (H : Handlers σ) (jfs : Nat) : ∀ (n : Nat) (a a' : σ)
    (s s' : Store) (es : List TmrEvent), pollLoop H jfs n a s = some (a', s', es) →
      PollRun jfs s s' es := by
  intro n
  -- Round by round. Each round is an event, followed by the calls of the
  -- handler it invoked.
  induction n with
  | zero =>
      intro a a' s s' es h
      simp only [pollLoop, reduceCtorEq] at h
  | succ n ih =>
      intro a a' s s' es h
      simp only [pollLoop] at h
      cases hp : pollIter s jfs with
      | done =>
          simp only [hp, Option.some.injEq, Prod.mk.injEq] at h
          rw [← h.2.1, ← h.2.2]
          exact ⟨rfl, fun j t th arg hc => absurd hc List.not_mem_nil, hp⟩
      | drop s1 =>
          simp only [hp] at h
          cases hrec : pollLoop H jfs n a s1 with
          | none => simp only [hrec, reduceCtorEq] at h
          | some r =>
              rcases r with ⟨a1, s2, fs⟩
              simp only [hrec, Option.some.injEq, Prod.mk.injEq] at h
              rw [← h.2.1, ← h.2.2]
              have hrest := ih a a1 s1 s2 fs hrec
              refine ⟨?_, fun j t th arg hmem => ?_, hrest.done⟩
              · simp only [exec, timerStep, hp]
                exact hrest.run
              · simp only [List.mem_cons, reduceCtorEq, false_or] at hmem
                exact hrest.clock j t th arg hmem
      | fire t th arg s1 =>
          simp only [hp] at h
          cases hrec : pollLoop H jfs n (H th arg a s1).2 ((H th arg a s1).1.foldl runCall s1) with
          | none => simp only [hrec, reduceCtorEq] at h
          | some r =>
              rcases r with ⟨a1, s2, fs⟩
              simp only [hrec, Option.some.injEq, Prod.mk.injEq] at h
              rw [← h.2.1, ← h.2.2]
              have hrest := ih _ a1 _ s2 fs hrec
              refine ⟨?_, fun j t' th' arg' hmem => ?_, hrest.done⟩
              · -- The handler's calls, and then the rest of the loop.
                simp only [exec, timerStep, hp, and_self, if_true]
                exact (exec_append timerStep _ fs s1 s2).mpr
                  ⟨_, exec_calls (H th arg a s1).1 s1, hrest.run⟩
              · simp only [List.mem_cons, TmrEvent.fire.injEq, List.mem_append, List.mem_map,
                  reduceCtorEq, and_false, exists_false, false_or] at hmem
                rcases hmem with hhead | htail
                · exact hhead.1
                · exact hrest.clock j t' th' arg' htail

/-! ## Histories -/

/-- The event reads the clock, if it does, as `jfs` or later. -/
def NotBefore (jfs : Nat) : TmrEvent → Prop
  | .call (.start _ _ _ _ now _) => jfs ≤ now
  | _ => True

/-- The event `n` of a history invokes the handler that the start at event `k`
    set: nothing between the two concerns the timer. -/
structure Serves (es : List TmrEvent) (n k : Nat) (t : TmrPtr) (th : TmrH) (arg D : Nat) :
    Prop where
  fire : ∃ jfs, es[n]? = some (.fire jfs t th arg)
  start : ∃ delay now grow, es[k]? = some (.call (.start t delay th arg now grow)) ∧
    D = delay + now
  before : k < n
  latest : ∀ i e, k < i → i < n → es[i]? = some e → ¬ Concerns t e

theorem schedOf_time (es : List TmrEvent) : (schedOf es).time = es.length := by
  induction es using List.reverseRecOn with
  | nil => rfl
  | append_singleton es e ih =>
      rw [schedOf_append, List.foldl_cons, List.foldl_nil, schedStep_time, ih, List.length_append,
        List.length_singleton]

/-- An armed timer was armed by the event its stamp names, and nothing has
    concerned it since. -/
theorem armed_latest (t : TmrPtr) : ∀ (es : List TmrEvent) (r : Armed),
    (schedOf es).armed t = some r → r.stamp < es.length ∧
      (∃ delay now grow, es[r.stamp]? = some (.call (.start t delay r.th r.arg now grow)) ∧
        r.deadline = delay + now) ∧
      ∀ i e, r.stamp < i → es[i]? = some e → ¬ Concerns t e := by
  intro es
  induction es using List.reverseRecOn with
  | nil =>
      intro r hr
      simp only [schedOf, List.foldl_nil, schedInit, reduceCtorEq] at hr
  | append_singleton es f ih =>
      intro r hr
      rw [schedOf_append, List.foldl_cons, List.foldl_nil] at hr
      rw [List.length_append, List.length_singleton]
      rcases schedStep_armed _ f t r hr with ⟨hold, hother⟩ | ⟨hstamp, delay, now, grow, hf, hd⟩
      · -- Armed before the last event, which is about some other timer.
        rcases ih r hold with ⟨hlt, ⟨delay, now, grow, hget, hd⟩, hsince⟩
        refine ⟨by omega, ⟨delay, now, grow, ?_, hd⟩, fun i e hi he => ?_⟩
        · rw [List.getElem?_append_left hlt]
          exact hget
        · by_cases hlast : i < es.length
          · rw [List.getElem?_append_left hlast] at he
            exact hsince i e hi he
          · rw [List.getElem?_append_right (not_lt.mp hlast), List.getElem?_singleton] at he
            split at he
            · rw [← Option.some.inj he]
              exact hother
            · exact absurd he (by simp only [reduceCtorEq, not_false_eq_true])
      · rw [schedOf_time] at hstamp
        refine ⟨by omega, ⟨delay, now, grow, ?_, hd⟩, fun i e hi he => ?_⟩
        · rw [hstamp, List.getElem?_concat_length, hf]
        · -- Nothing has happened since.
          have hend : (es ++ [f]).length ≤ i := by
            rw [List.length_append, List.length_singleton]
            omega
          rw [List.getElem?_eq_none hend] at he
          exact absurd he (by simp only [reduceCtorEq, not_false_eq_true])

/-- No start is served twice: the first invocation concerns the timer, so the
    second would not be for its latest start. -/
theorem fires_once (es : List TmrEvent) (n n' k : Nat) (t t' : TmrPtr) (th th' : TmrH)
    (arg arg' D D' : Nat) (h : Serves es n k t th arg D) (h' : Serves es n' k t' th' arg' D') :
    n = n' := by
  rcases h.start with ⟨delay, now, grow, hk, _⟩
  rcases h'.start with ⟨delay', now', grow', hk', _⟩
  rw [hk] at hk'
  simp only [Option.some.injEq, TmrEvent.call.injEq, TmrCall.start.injEq] at hk'
  rcases h.fire with ⟨jfs, hn⟩
  rcases h'.fire with ⟨jfs', hn'⟩
  -- Of two invocations for one start the earlier stands between the start
  -- and the later.
  rcases lt_trichotomy n n' with hlt | heq | hgt
  · exact absurd hk'.1 (h'.latest n _ h.before hlt hn)
  · exact heq
  · exact absurd hk'.1.symm (h.latest n' _ h'.before hgt hn')

/-- An invocation after a call for its timer is not for a start before it. -/
theorem fires_after_touch (es : List TmrEvent) (n k i : Nat) (e : TmrEvent) (t : TmrPtr)
    (th : TmrH) (arg D : Nat) (h : Serves es n k t th arg D) (hi : i < n)
    (he : es[i]? = some e) (ht : Touches t e) : i ≤ k := by
  by_contra hc
  refine h.latest i e (not_le.mp hc) hi he ?_
  cases e with
  | call c => exact ht
  | drop jfs => exact ht
  | fire jfs u th arg => exact absurd ht id

/-! ## Invocations -/

/-- The timers follow the schedule at each point of a run. -/
theorem follows_take (h es : List TmrEvent) (s m : Store) (hf : Follows s (schedOf h))
    (hfit : Along timerStep Fits s es) (n : Nat) (hm : exec timerStep s (es.take n) = some m) :
    Follows m (schedOf (h ++ es.take n)) := by
  rw [← List.take_append_drop n es] at hfit
  rw [schedOf_append]
  exact exec_follows _ s m _ hf (along_append timerStep Fits _ _ s m hm hfit).1 hm

/-- An invocation is for an earliest running timer, which is due, and serves
    its latest start. -/
theorem fire_serves_earliest (h es : List TmrEvent) (s s' m : Store)
    (hf : Follows s (schedOf h)) (hfit : Along timerStep Fits s es)
    (hrun : exec timerStep s es = some s') (n : Nat) (hm : exec timerStep s (es.take n) = some m)
    (jfs : Nat) (t : TmrPtr) (th : TmrH) (arg : Nat)
    (hn : es[n]? = some (.fire jfs t th arg)) :
    tmrIsrunning m (some t) = true ∧
      (∃ k, Serves (h ++ es) (h.length + n) k t th arg (m.tmr t).jfs) ∧ (m.tmr t).jfs ≤ jfs ∧
      ∀ u, tmrIsrunning m (some u) = true → (m.tmr t).jfs ≤ (m.tmr u).jfs := by
  have hfm := follows_take h es s m hf hfit n hm
  have hlen : n < es.length := (List.getElem?_eq_some_iff.mp hn).1
  rcases exec_at timerStep es s s' m hrun n _ hn hm with ⟨m', hm'⟩
  rcases pollIter_fires m jfs t th arg m' hfm.sound (timerStep_fire m m' jfs t th arg hm') with
    ⟨⟨hpeek, hdue, hth, harg⟩, _⟩
  rcases heapPeek_min m hfm.sound t hpeek with ⟨hmem, hmin⟩
  refine ⟨(tmrIsrunning_iff m _ hfm t).mpr hmem, ?_, hdue,
    fun u hu => hmin u ((tmrIsrunning_iff m _ hfm u).mp hu)⟩
  cases harm : (schedOf (h ++ es.take n)).armed t with
  | none => exact absurd hmem (hfm.idle t harm).2
  | some r =>
      -- What the timer has in memory is what the start it serves asked for.
      rcases hfm.running t r harm with ⟨_, hrth, hrarg, hrjfs⟩
      have hthr : r.th = th := Option.some.inj (hrth.symm.trans hth)
      have hargr : r.arg = arg := hrarg.symm.trans harg
      rcases armed_latest t _ r harm with ⟨hstamp, ⟨delay, now, grow, hget, hd⟩, hsince⟩
      have hlen' : (h ++ es.take n).length = h.length + n := by
        rw [List.length_append, List.length_take, Nat.min_eq_left (le_of_lt hlen)]
      -- Positions up to the invocation are the same in the whole history.
      have hpast : ∀ i, i < h.length + n → (h ++ es.take n)[i]? = (h ++ es)[i]? := fun i hi => by
        conv_rhs => rw [← List.take_append_drop n es, ← List.append_assoc]
        exact (List.getElem?_append_left (hlen' ▸ hi)).symm
      rw [hlen'] at hstamp
      rw [hpast r.stamp hstamp, hthr, hargr] at hget
      refine ⟨r.stamp, ⟨jfs, ?_⟩, ⟨delay, now, grow, hget, hrjfs.trans hd⟩, hstamp,
        fun i e hi hin he => hsince i e hi (by rw [hpast i hin]; exact he)⟩
      rw [List.getElem?_append_right (Nat.le_add_right h.length n), Nat.add_sub_cancel_left]
      exact hn

/-- Every armed timer is due at `D` or later. -/
def DueFrom (D : Nat) (A : Sched) : Prop := ∀ t r, A.armed t = some r → D ≤ r.deadline

theorem foldl_schedStep_dueFrom (D jfs : Nat) (hD : D ≤ jfs) : ∀ (es : List TmrEvent) (A : Sched),
    DueFrom D A → (∀ e ∈ es, NotBefore jfs e) → DueFrom D (es.foldl schedStep A) := by
  intro es
  induction es with
  | nil =>
      intro A h _
      exact h
  | cons e es ih =>
      intro A h hclock
      refine ih (schedStep A e) (fun t r hr => ?_)
        (fun f hf => hclock f (List.mem_cons_of_mem e hf))
      rcases schedStep_armed A e t r hr with ⟨hold, _⟩ | ⟨_, delay, now, grow, he, hd⟩
      · exact h t r hold
      · -- A timer started in the poll is due after the clock reading it added to.
        have hnow := hclock e List.mem_cons_self
        rw [he] at hnow
        simp only [NotBefore] at hnow
        omega

/-- Deadlines do not decrease along a poll. -/
theorem fires_nondecreasing (h es : List TmrEvent) (s s' m m' : Store) (jfs : Nat)
    (hf : Follows s (schedOf h)) (hfit : Along timerStep Fits s es) (hpoll : PollRun jfs s s' es)
    (hclock : ∀ e ∈ es, NotBefore jfs e) (n n' : Nat) (hle : n ≤ n')
    (hm : exec timerStep s (es.take n) = some m) (hm' : exec timerStep s (es.take n') = some m')
    (j j' : Nat) (t t' : TmrPtr) (th th' : TmrH) (arg arg' : Nat)
    (hn : es[n]? = some (.fire j t th arg)) (hn' : es[n']? = some (.fire j' t' th' arg')) :
    (m.tmr t).jfs ≤ (m'.tmr t').jfs := by
  have hfm := follows_take h es s m hf hfit n hm
  have hfm' := follows_take h es s m' hf hfit n' hm'
  rcases fire_serves_earliest h es s s' m hf hfit hpoll.run n hm j t th arg hn with
    ⟨_, _, hdue, hmin⟩
  rcases fire_serves_earliest h es s s' m' hf hfit hpoll.run n' hm' j' t' th' arg' hn' with
    ⟨hrun', _⟩
  rw [hpoll.clock j t th arg (List.mem_of_getElem? hn)] at hdue
  -- Nothing is due before the first invocation, which serves an earliest
  -- timer.
  have hfrom : DueFrom (m.tmr t).jfs (schedOf (h ++ es.take n)) := fun u r hr => by
    rcases hfm.running u r hr with ⟨hmem, _, _, hrjfs⟩
    rw [← hrjfs]
    exact hmin u ((tmrIsrunning_iff m _ hfm u).mpr hmem)
  -- What happens between the two invocations arms nothing before the clock
  -- reading of the poll.
  have hsplit : h ++ es.take n' = (h ++ es.take n) ++ (es.drop n).take (n' - n) := by
    conv_lhs => rw [← Nat.add_sub_cancel' hle, List.take_add]
    rw [List.append_assoc]
  have hfrom' : DueFrom (m.tmr t).jfs (schedOf (h ++ es.take n')) := by
    rw [hsplit, schedOf_append]
    exact foldl_schedStep_dueFrom _ jfs hdue _ _ hfrom
      (fun e he => hclock e (List.mem_of_mem_drop (List.mem_of_mem_take he)))
  cases harm : (schedOf (h ++ es.take n')).armed t' with
  | none =>
      exact absurd ((tmrIsrunning_iff m' _ hfm' t').mp hrun') (hfm'.idle t' harm).2
  | some r =>
      rw [(hfm'.running t' r harm).2.2.2]
      exact hfrom' t' r harm

/-- An event that does not concern an armed timer leaves it armed as it
    was. -/
theorem armed_next (h es : List TmrEvent) (n : Nat) (t : TmrPtr) (r : Armed)
    (hr : (schedOf (h ++ es.take n)).armed t = some r)
    (hother : ∀ e, es[n]? = some e → ¬ Concerns t e) :
    (schedOf (h ++ es.take (n + 1))).armed t = some r := by
  rw [List.take_add_one, ← List.append_assoc]
  cases he : es[n]? with
  | none =>
      rw [Option.toList_none, List.append_nil]
      exact hr
  | some e =>
      rw [Option.toList_some, schedOf_append, List.foldl_cons, List.foldl_nil,
        schedStep_other _ e t (hother e he)]
      exact hr

/-- An event of a poll that concerns an armed timer, and is not a call for it,
    invokes what it is armed with. -/
theorem concern_fires (h es : List TmrEvent) (s s' : Store) (jfs : Nat)
    (hf : Follows s (schedOf h)) (hfit : Along timerStep Fits s es) (hpoll : PollRun jfs s s' es)
    (n : Nat) (t : TmrPtr) (r : Armed) (hr : (schedOf (h ++ es.take n)).armed t = some r)
    (e : TmrEvent) (he : es[n]? = some e) (hconc : Concerns t e) (halone : ¬ Touches t e) :
    e = .fire jfs t r.th r.arg ∧ r.deadline ≤ jfs := by
  cases e with
  | call c => exact absurd hconc halone
  | drop j => exact absurd hconc id
  | fire j u th arg =>
      have hu : u = t := hconc
      have hj := hpoll.clock j u th arg (List.mem_of_getElem? he)
      rw [hu, hj] at he ⊢
      -- What is invoked is what the timer has in memory.
      rcases exec_take timerStep es s s' hpoll.run n with ⟨m, hm, _⟩
      rcases exec_at timerStep es s s' m hpoll.run n _ he hm with ⟨m', hm'⟩
      have hfm := follows_take h es s m hf hfit n hm
      rcases hfm.running t r hr with ⟨_, hrth, hrarg, hrjfs⟩
      rcases pollIter_fires m jfs t th arg m' hfm.sound (timerStep_fire m m' jfs t th arg hm') with
        ⟨⟨_, hdue, hth, harg⟩, _⟩
      rw [Option.some.inj (hrth.symm.trans hth), ← hrarg, harg, ← hrjfs]
      exact ⟨rfl, hdue⟩

/-- A timer that is not due in a poll and that is let alone is armed as it
    was, at every later point of the poll. -/
theorem untouched_stays (h es : List TmrEvent) (s s' : Store) (jfs : Nat)
    (hf : Follows s (schedOf h)) (hfit : Along timerStep Fits s es) (hpoll : PollRun jfs s s' es)
    (n : Nat) (t : TmrPtr) (r : Armed) (hr : (schedOf (h ++ es.take n)).armed t = some r)
    (hlate : jfs < r.deadline) (halone : ∀ e ∈ es.drop n, ¬ Touches t e) :
    ∀ i, (schedOf (h ++ es.take (n + i))).armed t = some r := by
  intro i
  -- Step by step along the poll: what could change the timer is a call for it
  -- or an invocation, and it is not due.
  induction i with
  | zero => exact hr
  | succ i ih =>
      refine armed_next h es (n + i) t r ih (fun e he hconc => ?_)
      have hmem : e ∈ es.drop n := by
        rw [← List.getElem?_drop] at he
        exact List.mem_of_getElem? he
      have hdue := (concern_fires h es s s' jfs hf hfit hpoll (n + i) t r ih e he hconc
        (halone e hmem)).2
      omega

/-- The next event of a poll that concerns an armed timer is there if the
    timer is due, and it is a call for the timer or its invocation. -/
theorem due_fires (h es : List TmrEvent) (s s' : Store) (jfs : Nat)
    (hf : Follows s (schedOf h)) (hfit : Along timerStep Fits s es) (hpoll : PollRun jfs s s' es)
    (t : TmrPtr) (r : Armed) (hdue : r.deadline ≤ jfs) : ∀ (k n : Nat), es.length ≤ n + k →
      (schedOf (h ++ es.take n)).armed t = some r →
      ∃ i, n ≤ i ∧ (∀ j e, n ≤ j → j < i → es[j]? = some e → ¬ Concerns t e) ∧
        ((∃ e, es[i]? = some e ∧ Touches t e) ∨ es[i]? = some (.fire jfs t r.th r.arg)) := by
  intro k
  -- On what is left of the poll. At its end nothing that is armed is due.
  induction k with
  | zero =>
      intro n hend hr
      have hf' : Follows s' (schedOf (h ++ es)) := by
        rw [schedOf_append]
        exact exec_follows es s s' _ hf hfit hpoll.run
      rw [List.take_of_length_le (show es.length ≤ n from hend)] at hr
      rcases hf'.running t r hr with ⟨hmem, _, _, hrjfs⟩
      have hlate := pollIter_done s' jfs hf'.sound hpoll.done t hmem
      omega
  | succ k ih =>
      intro n hend hr
      by_cases hconc : ∃ e, es[n]? = some e ∧ Concerns t e
      · rcases hconc with ⟨e, he, hconc⟩
        refine ⟨n, le_refl n, fun j f hj hjn => by omega, ?_⟩
        by_cases htouch : Touches t e
        · exact Or.inl ⟨e, he, htouch⟩
        · rw [(concern_fires h es s s' jfs hf hfit hpoll n t r hr e he hconc htouch).1] at he
          exact Or.inr he
      · have hother : ∀ e, es[n]? = some e → ¬ Concerns t e := fun e he hc => hconc ⟨e, he, hc⟩
        rcases ih (n + 1) (by omega) (armed_next h es n t r hr hother) with
          ⟨i, hi, hbetween, hevent⟩
        refine ⟨i, by omega, fun j f hj hji hf => ?_, hevent⟩
        by_cases hjn : j = n
        · exact hother f (hjn ▸ hf)
        · exact hbetween j f (by omega) hji hf

/-- No round of a poll throws a timer away. -/
theorem poll_drops_none (h es : List TmrEvent) (s s' : Store) (hf : Follows s (schedOf h))
    (hfit : Along timerStep Fits s es) (hrun : exec timerStep s es = some s') (j : Nat) :
    TmrEvent.drop j ∉ es := by
  intro hmem
  rcases List.mem_iff_getElem?.mp hmem with ⟨n, hn⟩
  rcases exec_take timerStep es s s' hrun n with ⟨m, hm, _⟩
  rcases exec_at timerStep es s s' m hrun n _ hn hm with ⟨m', hm'⟩
  have hfm := follows_take h es s m hf hfit n hm
  rw [timerStep_drop m j hfm.sound (follows_isSome_iff m _ hfm)] at hm'
  exact absurd hm' (by simp only [reduceCtorEq, not_false_eq_true])

/-- One poll that read the clock as `J`, of any timers in use, with any
    handlers. It invokes an earliest running timer each time, for its latest
    start; the deadlines of the invocations do not decrease; no start is
    served twice, and none that a handler has cancelled or superseded; what is
    not due and let alone stays; what is due is invoked, unless a handler
    starts or cancels it before; no timer is thrown away; and nothing due is
    left. -/
theorem tmrPoll_fires_due_timers {σ : Type} (array : Nat → TmrPtr) (tmr : TmrPtr → Tmr)
    (hfresh : Fresh tmr) (h : List TmrEvent) (s : Store)
    (hfit : Along timerStep Fits (heapNew array tmr) h)
    (hrun : exec timerStep (heapNew array tmr) h = some s)
    (H : Handlers σ) (rounds : Nat) (a a' : σ) (s' : Store) (J : Nat) (es : List TmrEvent)
    (hpoll : tmrPoll H rounds a s J = some (a', s', es)) (hfit' : Along timerStep Fits s es)
    (hclock : ∀ e ∈ es, NotBefore J e) :
    (∀ n j t th arg, es[n]? = some (.fire j t th arg) → j = J ∧
      ∃ m, exec timerStep s (es.take n) = some m ∧ tmrIsrunning m (some t) = true ∧
        (∃ k, Serves (h ++ es) (h.length + n) k t th arg (m.tmr t).jfs) ∧ (m.tmr t).jfs ≤ J ∧
        ∀ u, tmrIsrunning m (some u) = true → (m.tmr t).jfs ≤ (m.tmr u).jfs) ∧
      (∀ n n' j j' t t' th th' arg arg' m m', n ≤ n' → es[n]? = some (.fire j t th arg) →
        es[n']? = some (.fire j' t' th' arg') → exec timerStep s (es.take n) = some m →
        exec timerStep s (es.take n') = some m' → (m.tmr t).jfs ≤ (m'.tmr t').jfs) ∧
      (∀ n n' k t t' th th' arg arg' D D', Serves (h ++ es) n k t th arg D →
        Serves (h ++ es) n' k t' th' arg' D' → n = n') ∧
      (∀ n k t th arg D, Serves (h ++ es) (h.length + n) k t th arg D →
        ∀ i e, i < n → es[i]? = some e → Touches t e → h.length + i ≤ k) ∧
      (∀ n m t, exec timerStep s (es.take n) = some m → tmrIsrunning m (some t) = true →
        J < (m.tmr t).jfs → (∀ e ∈ es.drop n, ¬ Touches t e) →
        tmrIsrunning s' (some t) = true ∧ (s'.tmr t).jfs = (m.tmr t).jfs) ∧
      (∀ n m t, exec timerStep s (es.take n) = some m → tmrIsrunning m (some t) = true →
        (m.tmr t).jfs ≤ J → ∃ i, n ≤ i ∧
          (∀ k e, n ≤ k → k < i → es[k]? = some e → ¬ Concerns t e) ∧
          ((∃ e, es[i]? = some e ∧ Touches t e) ∨
            ∃ th, (m.tmr t).th = some th ∧ es[i]? = some (.fire J t th (m.tmr t).arg))) ∧
      (∀ j, TmrEvent.drop j ∉ es) ∧
      ∀ t, tmrIsrunning s' (some t) = true → J < (s'.tmr t).jfs := by
  have hf : Follows s (schedOf h) :=
    exec_follows h _ s schedInit (fresh_follows array tmr hfresh) hfit hrun
  have hp : PollRun J s s' es := pollLoop_run H J rounds a a' s s' es hpoll
  have hf' : Follows s' (schedOf (h ++ es)) := by
    rw [schedOf_append]
    exact exec_follows es s s' _ hf hfit' hp.run
  refine ⟨?_, ?_, ?_, ?_, ?_, ?_, poll_drops_none h es s s' hf hfit' hp.run, ?_⟩
  · intro n j t th arg hn
    have hj := hp.clock j t th arg (List.mem_of_getElem? hn)
    rcases exec_take timerStep es s s' hp.run n with ⟨m, hm, _⟩
    have hserve := fire_serves_earliest h es s s' m hf hfit' hp.run n hm j t th arg hn
    rw [hj] at hserve
    exact ⟨hj, m, hm, hserve⟩
  · intro n n' j j' t t' th th' arg arg' m m' hle hn hn' hm hm'
    exact fires_nondecreasing h es s s' m m' J hf hfit' hp hclock n n' hle hm hm' j j' t t' th th'
      arg arg' hn hn'
  · intro n n' k t t' th th' arg arg' D D'
    exact fires_once (h ++ es) n n' k t t' th th' arg arg' D D'
  · intro n k t th arg D hserve i e hi he ht
    refine fires_after_touch (h ++ es) (h.length + n) k (h.length + i) e t th arg D hserve
      (Nat.add_lt_add_left hi _) ?_ ht
    rw [List.getElem?_append_right (Nat.le_add_right h.length i), Nat.add_sub_cancel_left]
    exact he
  · intro n m t hm hrunning hlate halone
    have hfm := follows_take h es s m hf hfit' n hm
    cases harm : (schedOf (h ++ es.take n)).armed t with
    | none => exact absurd ((tmrIsrunning_iff m _ hfm t).mp hrunning) (hfm.idle t harm).2
    | some r =>
        have hd := (hfm.running t r harm).2.2.2
        have hstays := untouched_stays h es s s' J hf hfit' hp n t r harm (hd ▸ hlate) halone
          es.length
        rw [List.take_of_length_le (Nat.le_add_left es.length n)] at hstays
        rcases hf'.running t r hstays with ⟨hmem, _, _, hd'⟩
        exact ⟨(tmrIsrunning_iff s' _ hf' t).mpr hmem, hd'.trans hd.symm⟩
  · intro n m t hm hrunning hdue
    have hfm := follows_take h es s m hf hfit' n hm
    cases harm : (schedOf (h ++ es.take n)).armed t with
    | none => exact absurd ((tmrIsrunning_iff m _ hfm t).mp hrunning) (hfm.idle t harm).2
    | some r =>
        rcases hfm.running t r harm with ⟨_, hrth, hrarg, hrjfs⟩
        rw [hrjfs] at hdue
        rcases due_fires h es s s' J hf hfit' hp t r hdue es.length n (Nat.le_add_left _ n) harm with
          ⟨i, hi, hbetween, hevent⟩
        refine ⟨i, hi, hbetween, hevent.imp_right fun hfire => ⟨r.th, hrth, ?_⟩⟩
        rw [hrarg]
        exact hfire
  · intro t ht
    exact pollIter_done s' J hf'.sound hp.done t ((tmrIsrunning_iff s' _ hf' t).mp ht)

/-- The handlers of a small application: the handler 9 cancels the timer 1 and
    restarts the timer 2, and the others do nothing. -/
def meddling : Handlers Unit := fun th _ _ _ =>
  (if th = 9 then [.cancel 1, .start 2 0 8 5 20 true] else [], ())

/-- A poll in which the first handler cancels one due timer and restarts the
    other. -/
theorem tmrPoll_fires_due_timers_run :
    ∃ s s' es, exec timerStep (heapNew (fun _ => 0) (fun _ => initTmr))
        [.call (.start 1 9 7 0 10 true), .call (.start 2 3 8 0 10 true),
          .call (.start 3 2 9 0 10 true)] = some s ∧
      tmrPoll meddling 4 () s 20 = some ((), s', es) ∧
      es = [.fire 20 3 9 0, .call (.cancel 1), .call (.start 2 0 8 5 20 true), .fire 20 2 8 5] ∧
      ∀ t, tmrIsrunning s' (some t) = true → 20 < (s'.tmr t).jfs := by
  let h : List TmrEvent := [.call (.start 1 9 7 0 10 true), .call (.start 2 3 8 0 10 true),
    .call (.start 3 2 9 0 10 true)]
  let s0 := heapNew (fun _ => 0) (fun _ => initTmr)
  let es : List TmrEvent :=
    [.fire 20 3 9 0, .call (.cancel 1), .call (.start 2 0 8 5 20 true), .fire 20 2 8 5]
  have hall : ∃ s, exec timerStep s0 h = some s ∧
      (tmrPoll meddling 4 () s 20).map (fun r => r.2.2) = some es ∧
      Along timerStep Fits s es := by
    cases hs : exec timerStep s0 h with
    | none =>
        have hsome : (exec timerStep s0 h).isSome = true := by decide +kernel
        rw [hs] at hsome
        exact absurd hsome (by decide)
    | some s =>
        have heq : s = (exec timerStep s0 h).get (by decide +kernel) := by
          simp only [hs, Option.get_some]
        refine ⟨s, rfl, ?_, ?_⟩
        · rw [heq]
          decide +kernel
        · rw [heq]
          decide +kernel
  rcases hall with ⟨s, hs, hpoll, hfit⟩
  rcases Option.map_eq_some_iff.mp hpoll with ⟨⟨a', s', es'⟩, hr, hes⟩
  simp only at hes
  rw [hes] at hr
  refine ⟨s, s', es, hs, hr, rfl, ?_⟩
  refine (tmrPoll_fires_due_timers (fun _ => 0) (fun _ => initTmr) (fun _ => Or.inl rfl) h s
    (by decide +kernel) hs meddling 4 () () s' 20 es hr hfit ?_).2.2.2.2.2.2.2
  intro e he
  simp only [es, List.mem_cons, List.not_mem_nil, or_false] at he
  rcases he with he | he | he | he
  · rw [he]
    trivial
  · rw [he]
    trivial
  · rw [he]
    exact le_refl 20
  · rw [he]
    trivial

end Timers

end SipPerf
