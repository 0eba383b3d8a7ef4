import Mathlib.Data.List.Induction
import SipPerf.Core.Tmr
import SipPerf.Lib.Transition
import SipPerf.Theory.HeapOps

/-!
# Timers Over Whole Runs

What the timer service is for, and that `tmr.c` does it. `Sched` is the
purpose in its own terms: each timer is armed or it is not, and an armed
timer has the deadline, the handler and the argument of the start that armed
it, which is identified by when it happened. Starting a timer arms it anew,
cancelling or firing it disarms it, and there is no heap.

`Follows` relates the memory of the program to that. A timer is armed exactly
when its handler pointer is set and exactly when it stands in the heap. The
back-pointer of a timer outside the heap is not mentioned, and it could not
be: a timer that was cleared rather than initialised has `heap_idx` zero, and
one that left the heap from its last slot keeps the position it had. Nothing
reads it there, because `tmr_start` looks at `heap_idx` only when the handler
pointer is set.

Every change the service makes to a timer is one of two, arming and
disarming, and each leaves all other timers alone. `Updates` is that frame,
and `follows_update` carries the relation across it, so that an operation has
only to be shown to be one of the two.

The events of a run are calls and rounds of polls in any order. A call may
therefore stand between two rounds of one poll, which is where a handler
makes it.

## Main definitions

* `Armed`, `Sched`: The timers as their users see them.
* `schedStep`, `schedOf`: The schedule after an event, and after a history.
* `Touches`, `Concerns`: An event is about a given timer.
* `Few`: A start keeps the heap so small that its positions fit an `int`.
* `Fits`: Memory and 64-bit range suffice for an event.
* `Updates`: One timer has changed.
* `Follows`: The timers in memory follow a schedule.

## Theorems

* `schedStep_armed`: What an event can have done to an armed timer.
* `follows_update`: One timer changes, and the schedule with it.
* `beforeOffer_spec`: What `tmr_start` has done when it offers the timer.
* `tmrStart_arms`, `tmrCancel_disarms`, `pollIter_fires`: The operations.
* `timerStep_follows`: Every event keeps the timers following the schedule.
* `exec_count`: The heap stays small along a run.
* `running_timers_agree`: Running flag, heap slot, deadline and wake-up time
  agree after any run.
-/

namespace SipPerf

namespace Timers

open TmrHeap MachineInt Transition

/-! ## The schedule -/

/-- An armed timer: when it was started, and what the start asked for. -/
structure Armed where
  stamp : Nat
  deadline : Nat
  th : TmrH
  arg : Nat
deriving DecidableEq

/-- The timers as their users see them, after `time` events. -/
structure Sched where
  time : Nat
  armed : TmrPtr → Option Armed

/-- The schedule after an event. -/
def schedStep (A : Sched) : TmrEvent → Sched
  | .call (.init t) => ⟨A.time + 1, Function.update A.armed t none⟩
  | .call (.start t delay th arg now _) =>
      ⟨A.time + 1, Function.update A.armed t (some ⟨A.time, delay + now, th, arg⟩)⟩
  | .call (.cancel t) => ⟨A.time + 1, Function.update A.armed t none⟩
  | .drop _ => ⟨A.time + 1, A.armed⟩
  | .fire _ t _ _ => ⟨A.time + 1, Function.update A.armed t none⟩

/-- No timer armed, nothing happened. -/
def schedInit : Sched := ⟨0, fun _ => none⟩

/-- The schedule after a history. A timer is armed in it if it has been
    started since it was last cancelled or fired, and then with what its
    latest start asked for. -/
def schedOf (es : List TmrEvent) : Sched := es.foldl schedStep schedInit

theorem schedOf_append (es fs : List TmrEvent) :
    schedOf (es ++ fs) = fs.foldl schedStep (schedOf es) := by
  simp only [schedOf, List.foldl_append]

theorem schedStep_time (A : Sched) (e : TmrEvent) : (schedStep A e).time = A.time + 1 := by
  cases e with
  | call c =>
      cases c with
      | init t => rfl
      | start t delay th arg now grow => rfl
      | cancel t => rfl
  | drop jfs => rfl
  | fire jfs t th arg => rfl

/-- The event is a call for the timer: a start, a cancel, an initialisation. -/
def Touches (t : TmrPtr) : TmrEvent → Prop
  | .call c => target c = t
  | _ => False

/-- The event is a call for the timer or an invocation of its handler. -/
def Concerns (t : TmrPtr) : TmrEvent → Prop
  | .fire _ u _ _ => u = t
  | e => Touches t e

/-- What an event can have done to a timer that is armed after it: left it
    alone, or started it. -/
theorem schedStep_armed (A : Sched) (e : TmrEvent) (u : TmrPtr) (r : Armed)
    (h : (schedStep A e).armed u = some r) :
    (A.armed u = some r ∧ ¬ Concerns u e) ∨
      (r.stamp = A.time ∧ ∃ delay now grow, e = .call (.start u delay r.th r.arg now grow) ∧
        r.deadline = delay + now) := by
  cases e with
  | call c =>
      cases c with
      | init t =>
          by_cases hut : u = t
          · simp only [schedStep, hut, Function.update_self, reduceCtorEq] at h
          · simp only [schedStep, Function.update_of_ne hut] at h
            exact Or.inl ⟨h, fun hc => hut hc.symm⟩
      | start t delay th arg now grow =>
          by_cases hut : u = t
          · simp only [schedStep, hut, Function.update_self, Option.some.injEq] at h
            rw [← h, hut]
            exact Or.inr ⟨rfl, delay, now, grow, rfl, rfl⟩
          · simp only [schedStep, Function.update_of_ne hut] at h
            exact Or.inl ⟨h, fun hc => hut hc.symm⟩
      | cancel t =>
          by_cases hut : u = t
          · simp only [schedStep, hut, Function.update_self, reduceCtorEq] at h
          · simp only [schedStep, Function.update_of_ne hut] at h
            exact Or.inl ⟨h, fun hc => hut hc.symm⟩
  | drop jfs => exact Or.inl ⟨h, id⟩
  | fire jfs t th arg =>
      by_cases hut : u = t
      · simp only [schedStep, hut, Function.update_self, reduceCtorEq] at h
      · simp only [schedStep, Function.update_of_ne hut] at h
        exact Or.inl ⟨h, fun hc => hut hc.symm⟩

/-- An event that does not concern a timer leaves it as it is. -/
theorem schedStep_other (A : Sched) (e : TmrEvent) (u : TmrPtr) (h : ¬ Concerns u e) :
    (schedStep A e).armed u = A.armed u := by
  cases e with
  | call c =>
      cases c with
      | init t => exact Function.update_of_ne (fun hc => h hc.symm) _ _
      | start t delay th arg now grow => exact Function.update_of_ne (fun hc => h hc.symm) _ _
      | cancel t => exact Function.update_of_ne (fun hc => h hc.symm) _ _
  | drop jfs => rfl
  | fire jfs t th arg => exact Function.update_of_ne (fun hc => h hc.symm) _ _

/-! ## One timer changes -/

/-- A start of the timer, which takes it out of the heap first if it runs,
    leaves fewer than `2 ^ 30` members. Their positions and those of their
    children then fit an `int` (`childRight_lt_of_count`). -/
def Few (s : Store) (t : TmrPtr) : Prop :=
  (if (s.tmr t).th.isSome then heapRemoveItem s t else s).count + 1 < 2 ^ 30

instance decidableFew (s : Store) (t : TmrPtr) : Decidable (Few s t) :=
  inferInstanceAs (Decidable (_ < _))

/-- What an event needs from its surroundings: the heap can grow and does not
    outgrow its positions, the deadline fits 64 bits, and a timer is not
    initialised while it runs. -/
def Fits (s : Store) : TmrEvent → Prop
  | .call (.init t) => (s.tmr t).th = none
  | .call (.start t delay _ _ now grow) => grow = true ∧ Few s t ∧ delay + now < 2 ^ 64
  | _ => True

instance decidableFits (s : Store) : (e : TmrEvent) → Decidable (Fits s e)
  | .call (.init t) => inferInstanceAs (Decidable ((s.tmr t).th = none))
  | .call (.start t delay _ _ now grow) =>
      inferInstanceAs (Decidable (grow = true ∧ Few s t ∧ delay + now < 2 ^ 64))
  | .call (.cancel _) => isTrue trivial
  | .drop _ => isTrue trivial
  | .fire _ _ _ _ => isTrue trivial

/-- The heap is sound, and every timer but `t` is as it was. -/
structure Updates (s s' : Store) (t : TmrPtr) : Prop where
  sound : Sound s'
  other : ∀ u, u ≠ t → SameFields s s' u ∧ (Member s' u ↔ Member s u)

/-- The timers in memory follow a schedule. -/
structure Follows (s : Store) (A : Sched) : Prop where
  sound : Sound s
  idle : ∀ t, A.armed t = none → (s.tmr t).th = none ∧ ¬ Member s t
  running : ∀ t r, A.armed t = some r → Member s t ∧ (s.tmr t).th = some r.th ∧
    (s.tmr t).arg = r.arg ∧ (s.tmr t).jfs = r.deadline

/-- One timer changes, and the schedule with it. -/
theorem follows_update (s s' : Store) (A : Sched) (t : TmrPtr) (v : Option Armed)
    (h : Follows s A) (hu : Updates s s' t)
    (hnone : v = none → (s'.tmr t).th = none ∧ ¬ Member s' t)
    (hsome : ∀ r, v = some r → Member s' t ∧ (s'.tmr t).th = some r.th ∧
      (s'.tmr t).arg = r.arg ∧ (s'.tmr t).jfs = r.deadline) :
    Follows s' ⟨A.time + 1, Function.update A.armed t v⟩ := by
  refine ⟨hu.sound, fun u hidle => ?_, fun u r hrunning => ?_⟩
  · by_cases hut : u = t
    · simp only [hut, Function.update_self] at hidle
      rw [hut]
      exact hnone hidle
    · simp only [Function.update_of_ne hut] at hidle
      rcases hu.other u hut with ⟨hf, hmem⟩
      rw [hf.1, hmem]
      exact h.idle u hidle
  · by_cases hut : u = t
    · simp only [hut, Function.update_self] at hrunning
      rw [hut]
      exact hsome r hrunning
    · simp only [Function.update_of_ne hut] at hrunning
      rcases hu.other u hut with ⟨hf, hmem⟩
      rw [hmem, hf.1, hf.2.1, hf.2.2]
      exact h.running u r hrunning

/-- Disarming one timer, whatever disarmed it. -/
theorem follows_disarm (s s' : Store) (A : Sched) (t : TmrPtr) (h : Follows s A)
    (hu : Updates s s' t) (hth : (s'.tmr t).th = none) (hm : ¬ Member s' t) :
    Follows s' ⟨A.time + 1, Function.update A.armed t none⟩ :=
  follows_update s s' A t none h hu (fun _ => ⟨hth, hm⟩)
    (fun r hr => absurd hr (by simp only [reduceCtorEq, not_false_eq_true]))

/-- Arming one timer. The new start is stamped with the time of the event. -/
theorem follows_arm (s s' : Store) (A : Sched) (t : TmrPtr) (d : Nat) (th : TmrH) (arg : Nat)
    (h : Follows s A) (hu : Updates s s' t) (hm : Member s' t) (hth : (s'.tmr t).th = some th)
    (harg : (s'.tmr t).arg = arg) (hjfs : (s'.tmr t).jfs = d) :
    Follows s' ⟨A.time + 1, Function.update A.armed t (some ⟨A.time, d, th, arg⟩)⟩ := by
  refine follows_update s s' A t _ h hu (fun hc => ?_) (fun r hr => ?_)
  · exact absurd hc (by simp only [reduceCtorEq, not_false_eq_true])
  · rw [← Option.some.inj hr]
    exact ⟨hm, hth, harg, hjfs⟩

/-! ## The operations -/

theorem setTmr_member (s : Store) (t u : TmrPtr) (x : Tmr) :
    Member (setTmr s t x) u ↔ Member s u := Iff.rfl

theorem setTmr_other (s : Store) (t u : TmrPtr) (x : Tmr) (h : u ≠ t) :
    (setTmr s t x).tmr u = s.tmr u := by
  simp only [setTmr]
  exact Function.update_of_ne h _ _

theorem setTmr_self (s : Store) (t : TmrPtr) (x : Tmr) : (setTmr s t x).tmr t = x := by
  simp only [setTmr, Function.update_self]

/-- A timer outside the heap may be rewritten freely. -/
theorem setTmr_sound (s : Store) (t : TmrPtr) (x : Tmr) (hs : Sound s) (hm : ¬ Member s t) :
    Sound (setTmr s t x) := by
  -- No member is written to, so order and positions stand.
  refine touch_sound s hs _ (fun u hu => ?_)
  have hut : u ≠ t := fun hc => hm (hc ▸ hu)
  rw [Function.update_of_ne hut]
  exact ⟨rfl, rfl⟩

/-- The first lines of `tmr_start`: the timer leaves the heap if it runs. -/
theorem unlink_drops (s : Store) (t : TmrPtr) (hs : Sound s)
    (hrun : (s.tmr t).th.isSome ↔ Member s t) :
    Drops s (if (s.tmr t).th.isSome then heapRemoveItem s t else s) t := by
  by_cases hth : (s.tmr t).th.isSome
  · rw [if_pos hth]
    exact heapRemoveItem_drops s hs t (hrun.mp hth)
  · rw [if_neg hth]
    have hm : ¬ Member s t := fun hc => hth (hrun.mpr hc)
    refine ⟨⟨hs, fun u => ?_, fun u => ⟨rfl, rfl, rfl⟩, fun u _ _ => rfl⟩, rfl,
      le_refl _⟩
    exact ⟨fun hu => ⟨hu, fun hc => hm (hc ▸ hu)⟩, fun hu => hu.1⟩

/-- In a heap that follows a schedule, running and standing in the heap are
    one thing. -/
theorem follows_isSome_iff (s : Store) (A : Sched) (h : Follows s A) (t : TmrPtr) :
    (s.tmr t).th.isSome ↔ Member s t := by
  cases harm : A.armed t with
  | none =>
      rcases h.idle t harm with ⟨hth, hm⟩
      rw [hth]
      exact ⟨fun hc => absurd hc (by simp only [Option.isSome_none, Bool.false_eq_true,
        not_false_eq_true]), fun hc => absurd hc hm⟩
  | some r =>
      rcases h.running t r harm with ⟨hm, hth, _, _⟩
      rw [hth]
      exact ⟨fun _ => hm, fun _ => rfl⟩

theorem tmrCancel_disarms (s : Store) (t : TmrPtr) (hs : Sound s)
    (hrun : (s.tmr t).th.isSome ↔ Member s t) :
    Updates s (tmrCancel s (some t)) t ∧ ((tmrCancel s (some t)).tmr t).th = none ∧
      ¬ Member (tmrCancel s (some t)) t := by
  rcases unlink_drops s t hs hrun with ⟨hb, _⟩
  simp only [tmrCancel, tmrStart, Option.isNone_none, if_true]
  set s1 := if (s.tmr t).th.isSome then heapRemoveItem s t else s with hs1
  -- From here on the timer is outside the heap.
  have hm1 : ¬ Member s1 t := fun hc => ((hb.member t).mp hc).2 rfl
  refine ⟨⟨setTmr_sound s1 t _ hb.sound hm1, fun u hut => ⟨?_, ?_⟩⟩, ?_, hm1⟩
  · unfold SameFields
    rw [setTmr_other s1 t u _ hut]
    exact hb.fields u
  · rw [setTmr_member, hb.member u]
    exact ⟨fun hu => hu.1, fun hu => ⟨hu, hut⟩⟩
  · rw [setTmr_self]

/-- The timers as `heap_offer` finds them in `tmr_start`. -/
def beforeOffer (s : Store) (t : TmrPtr) (delay : Nat) (th : TmrH) (arg now : Nat) : Store :=
  let s1 := if (s.tmr t).th.isSome then heapRemoveItem s t else s
  let s2 := setTmr s1 t { s1.tmr t with th := some th, arg := arg }
  setTmr s2 t { s2.tmr t with jfs := deadline delay now }

theorem tmrStart_eq (s : Store) (t : TmrPtr) (delay : Nat) (th : TmrH) (arg now : Nat)
    (grow : Bool) : tmrStart s (some t) delay (some th) arg now grow =
      (heapOffer (beforeOffer s t delay th arg now) t grow).1 := rfl

/-- By then the timer is outside the heap and has what the start asks for, and
    the others are as they were. -/
theorem beforeOffer_spec (s : Store) (t : TmrPtr) (delay : Nat) (th : TmrH) (arg now : Nat)
    (hs : Sound s) (hrun : (s.tmr t).th.isSome ↔ Member s t) :
    let s3 := beforeOffer s t delay th arg now
    Updates s s3 t ∧ ¬ Member s3 t ∧ (s3.tmr t).th = some th ∧ (s3.tmr t).arg = arg ∧
      (s3.tmr t).jfs = deadline delay now ∧ s3.size = s.size ∧ s3.count ≤ s.count := by
  rcases unlink_drops s t hs hrun with ⟨hb, hsize, hcount⟩
  unfold beforeOffer
  set s1 := if (s.tmr t).th.isSome then heapRemoveItem s t else s with hs1
  have hm1 : ¬ Member s1 t := fun hc => ((hb.member t).mp hc).2 rfl
  set s2 := setTmr s1 t { s1.tmr t with th := some th, arg := arg } with hs2
  -- The two writes of the code are one write of the whole timer.
  set s3 := setTmr s2 t { s2.tmr t with jfs := deadline delay now } with hs3
  have hself : s3.tmr t =
      { th := some th, arg := arg, jfs := deadline delay now, heapIdx := (s1.tmr t).heapIdx } := by
    rw [hs3, setTmr_self, hs2, setTmr_self]
  have hother : ∀ u, u ≠ t → s3.tmr u = s1.tmr u := fun u hut => by
    rw [hs3, setTmr_other s2 t u _ hut, hs2, setTmr_other s1 t u _ hut]
  refine ⟨⟨setTmr_sound s2 t _ (setTmr_sound s1 t _ hb.sound hm1) hm1, fun u hut => ⟨?_, ?_⟩⟩,
    hm1, ?_, ?_, ?_, hsize, hcount⟩
  · unfold SameFields
    rw [hother u hut]
    exact hb.fields u
  · change Member s1 u ↔ Member s u
    rw [hb.member u]
    exact ⟨fun hu => hu.1, fun hu => ⟨hu, hut⟩⟩
  · rw [hself]
  · rw [hself]
  · rw [hself]

/-- A start of a timer whose offer finds room. -/
theorem offer_arms (s : Store) (t : TmrPtr) (delay : Nat) (th : TmrH) (arg now : Nat)
    (hs : Sound s) (hrun : (s.tmr t).th.isSome ↔ Member s t)
    (hroom : HasRoom (beforeOffer s t delay th arg now)) :
    let s' := (heapOffer (beforeOffer s t delay th arg now) t true).1
    Updates s s' t ∧ Member s' t ∧ (s'.tmr t).th = some th ∧ (s'.tmr t).arg = arg ∧
      (s'.tmr t).jfs = deadline delay now := by
  rcases beforeOffer_spec s t delay th arg now hs hrun with ⟨hu, hm, hth, harg, hjfs, _, _⟩
  set s3 := beforeOffer s t delay th arg now with hs3
  -- The offer adds the timer and moves the rest, and changes no field.
  rcases heapOffer_becomes s3 hu.sound t hm hroom with ⟨hb, _, _, _⟩
  rcases hb.fields t with ⟨hth', harg', hjfs'⟩
  refine ⟨⟨hb.sound, fun u hut => ⟨?_, ?_⟩⟩, (hb.member t).mpr (Or.inr rfl), hth'.trans hth,
    harg'.trans harg, hjfs'.trans hjfs⟩
  · exact sameFields_trans s s3 _ u (hu.other u hut).1 (hb.fields u)
  · rw [hb.member u, ← (hu.other u hut).2]
    exact ⟨fun h => h.resolve_right hut, Or.inl⟩

/-- An array that is full of so few timers can still be doubled. -/
theorem few_room (s : Store) (t : TmrPtr) (delay : Nat) (th : TmrH) (arg now : Nat)
    (hs : Sound s) (hrun : (s.tmr t).th.isSome ↔ Member s t) (hfew : Few s t) :
    HasRoom (beforeOffer s t delay th arg now) := by
  have hcount : (beforeOffer s t delay th arg now).count + 1 < 2 ^ 30 := hfew
  rcases beforeOffer_spec s t delay th arg now hs hrun with ⟨hu, _⟩
  -- The array is as long as it has members, when it is full.
  have hle := hu.sound.count_le
  unfold HasRoom
  omega

theorem tmrStart_arms (s : Store) (t : TmrPtr) (delay : Nat) (th : TmrH) (arg now : Nat)
    (hs : Sound s) (hrun : (s.tmr t).th.isSome ↔ Member s t) (hfew : Few s t) :
    let s' := tmrStart s (some t) delay (some th) arg now true
    Updates s s' t ∧ Member s' t ∧ (s'.tmr t).th = some th ∧ (s'.tmr t).arg = arg ∧
      (s'.tmr t).jfs = deadline delay now := by
  rw [tmrStart_eq]
  exact offer_arms s t delay th arg now hs hrun (few_room s t delay th arg now hs hrun hfew)

theorem tmrStart_count (s : Store) (t : TmrPtr) (delay : Nat) (th : TmrH) (arg now : Nat)
    (hs : Sound s) (hrun : (s.tmr t).th.isSome ↔ Member s t) (hfew : Few s t) :
    (tmrStart s (some t) delay (some th) arg now true).count < 2 ^ 30 := by
  have hroom := few_room s t delay th arg now hs hrun hfew
  rcases beforeOffer_spec s t delay th arg now hs hrun with ⟨hu, hm, _⟩
  rw [tmrStart_eq, (heapOffer_becomes _ hu.sound t hm hroom).2.2.1]
  exact hfew

/-- What is left once a round of a poll has taken a timer out. -/
def takeOut (s : Store) (t : TmrPtr) : Store :=
  heapRemoveItem (setTmr s t { s.tmr t with th := none }) t

/-- What a round of a poll can come to: the loop ends because no timer is in
    the heap or the earliest is not due, or the earliest is taken out. -/
theorem pollIter_cases (s : Store) (jfs : Nat) :
    (heapPeek s = none ∧ pollIter s jfs = .done) ∨
      ∃ t, heapPeek s = some t ∧
        ((jfs < (s.tmr t).jfs ∧ pollIter s jfs = .done) ∨
          ((s.tmr t).jfs ≤ jfs ∧ (s.tmr t).th = none ∧ pollIter s jfs = .drop (takeOut s t)) ∨
          ((s.tmr t).jfs ≤ jfs ∧ ∃ th, (s.tmr t).th = some th ∧
            pollIter s jfs = .fire t th (s.tmr t).arg (takeOut s t))) := by
  unfold pollIter
  cases hp : heapPeek s with
  | none => exact Or.inl ⟨rfl, rfl⟩
  | some t =>
      refine Or.inr ⟨t, rfl, ?_⟩
      by_cases hgt : (s.tmr t).jfs > jfs
      · exact Or.inl ⟨hgt, by simp only [if_pos hgt]⟩
      · refine Or.inr ?_
        simp only [if_neg hgt]
        cases hth : (s.tmr t).th with
        | none => exact Or.inl ⟨not_lt.mp hgt, rfl, rfl⟩
        | some th => exact Or.inr ⟨not_lt.mp hgt, th, rfl, rfl⟩

/-- What a round of a poll that leaves the loop has found. -/
theorem pollIter_done (s : Store) (jfs : Nat) (hs : Sound s) (h : pollIter s jfs = .done) :
    ∀ t, Member s t → jfs < (s.tmr t).jfs := by
  intro t ht
  rcases pollIter_cases s jfs with ⟨hp, _⟩ | ⟨u, hp, ⟨hgt, _⟩ | ⟨_, _, hd⟩ | ⟨_, _, _, hd⟩⟩
  · exact absurd ht ((heapPeek_eq_none s).mp hp t)
  · exact lt_of_lt_of_le hgt ((heapPeek_min s hs u hp).2 t ht)
  · exact absurd (h.symm.trans hd) (by simp only [reduceCtorEq, not_false_eq_true])
  · exact absurd (h.symm.trans hd) (by simp only [reduceCtorEq, not_false_eq_true])

/-- Clearing the handler leaves deadline and back-pointer alone. -/
theorem clearTh_sound (s : Store) (t : TmrPtr) (hs : Sound s) :
    Sound (setTmr s t { s.tmr t with th := none }) := by
  refine touch_sound s hs _ (fun u _ => ?_)
  by_cases hut : u = t
  · rw [hut, Function.update_self]
    exact ⟨rfl, rfl⟩
  · rw [Function.update_of_ne hut]
    exact ⟨rfl, rfl⟩

/-- The timer that a round takes out no longer runs, and the others are as
    they were. -/
theorem takeOut_disarms (s : Store) (t : TmrPtr) (hs : Sound s) (hp : heapPeek s = some t) :
    Updates s (takeOut s t) t ∧ ((takeOut s t).tmr t).th = none ∧ ¬ Member (takeOut s t) t := by
  have hm := (heapPeek_min s hs t hp).1
  unfold takeOut
  have hs1sound := clearTh_sound s t hs
  set s1 := setTmr s t { s.tmr t with th := none } with hs1
  rcases heapRemoveItem_drops s1 hs1sound t hm with ⟨hb, _, _⟩
  refine ⟨⟨hb.sound, fun u hut => ⟨?_, ?_⟩⟩, ?_, fun hc => ((hb.member t).mp hc).2 rfl⟩
  · have hf := hb.fields u
    unfold SameFields at hf ⊢
    rw [hs1, setTmr_other s t u _ hut] at hf
    exact hf
  · rw [hb.member u]
    exact ⟨fun hu => hu.1, fun hu => ⟨hu, hut⟩⟩
  · rw [(hb.fields t).1, hs1, setTmr_self]

/-- What a round that calls a handler has found. -/
theorem pollIter_fire (s : Store) (jfs : Nat) (t : TmrPtr) (th : TmrH) (arg : Nat) (s' : Store)
    (h : pollIter s jfs = .fire t th arg s') :
    heapPeek s = some t ∧ (s.tmr t).jfs ≤ jfs ∧ (s.tmr t).th = some th ∧ (s.tmr t).arg = arg ∧
      s' = takeOut s t := by
  rcases pollIter_cases s jfs with ⟨_, hd⟩ | ⟨u, hp, ⟨_, hd⟩ | ⟨_, _, hd⟩ | ⟨hdue, f, hth, hd⟩⟩
  · exact absurd (h.symm.trans hd) (by simp only [reduceCtorEq, not_false_eq_true])
  · exact absurd (h.symm.trans hd) (by simp only [reduceCtorEq, not_false_eq_true])
  · exact absurd (h.symm.trans hd) (by simp only [reduceCtorEq, not_false_eq_true])
  · rw [hd, PollIter.fire.injEq] at h
    rcases h with ⟨rfl, rfl, rfl, rfl⟩
    exact ⟨hp, hdue, hth, rfl, rfl⟩

/-- A round that calls a handler calls that of an earliest timer, which is
    due and is no longer running when the handler starts. -/
theorem pollIter_fires (s : Store) (jfs : Nat) (t : TmrPtr) (th : TmrH) (arg : Nat) (s' : Store)
    (hs : Sound s) (h : pollIter s jfs = .fire t th arg s') :
    (heapPeek s = some t ∧ (s.tmr t).jfs ≤ jfs ∧ (s.tmr t).th = some th ∧ (s.tmr t).arg = arg) ∧
      Updates s s' t ∧ (s'.tmr t).th = none ∧ ¬ Member s' t := by
  rcases pollIter_fire s jfs t th arg s' h with ⟨hp, hdue, hth, harg, hs'⟩
  rw [hs']
  exact ⟨⟨hp, hdue, hth, harg⟩, takeOut_disarms s t hs hp⟩

/-- No round drops a timer where every timer in the heap has a handler. -/
theorem pollIter_not_drop (s : Store) (jfs : Nat) (s' : Store) (hs : Sound s)
    (hrun : ∀ t, (s.tmr t).th.isSome ↔ Member s t) : pollIter s jfs ≠ .drop s' := by
  intro h
  rcases pollIter_cases s jfs with ⟨_, hd⟩ | ⟨u, hp, ⟨_, hd⟩ | ⟨_, hth, _⟩ | ⟨_, _, _, hd⟩⟩
  · exact absurd (h.symm.trans hd) (by simp only [reduceCtorEq, not_false_eq_true])
  · exact absurd (h.symm.trans hd) (by simp only [reduceCtorEq, not_false_eq_true])
  · have hsome := (hrun u).mpr (heapPeek_min s hs u hp).1
    rw [hth] at hsome
    exact absurd hsome (by simp only [Option.isSome_none, Bool.false_eq_true, not_false_eq_true])
  · exact absurd (h.symm.trans hd) (by simp only [reduceCtorEq, not_false_eq_true])

/-! ## Runs -/

/-- The step an event takes, as the source's functions take it. -/
theorem timerStep_fire (s s' : Store) (jfs : Nat) (t : TmrPtr) (th : TmrH) (arg : Nat)
    (h : timerStep s (.fire jfs t th arg) = some s') :
    pollIter s jfs = .fire t th arg s' := by
  simp only [timerStep] at h
  cases hp : pollIter s jfs with
  | done => simp only [hp, reduceCtorEq] at h
  | drop s1 => simp only [hp, reduceCtorEq] at h
  | fire t' th' arg' s1 =>
      simp only [hp] at h
      by_cases hsame : t' = t ∧ th' = th ∧ arg' = arg
      · rw [if_pos hsame, Option.some.injEq] at h
        rw [hsame.1, hsame.2.1, hsame.2.2, h]
      · simp only [if_neg hsame, reduceCtorEq] at h

theorem timerStep_drop (s : Store) (jfs : Nat) (hs : Sound s)
    (hrun : ∀ t, (s.tmr t).th.isSome ↔ Member s t) : timerStep s (.drop jfs) = none := by
  simp only [timerStep]
  cases hp : pollIter s jfs with
  | done => rfl
  | drop s1 => exact absurd hp (pollIter_not_drop s jfs s1 hs hrun)
  | fire t th arg s1 => rfl

theorem timerStep_follows (s s' : Store) (A : Sched) (e : TmrEvent) (h : Follows s A)
    (hfit : Fits s e) (hstep : timerStep s e = some s') : Follows s' (schedStep A e) := by
  cases e with
  | call c =>
      simp only [timerStep, Option.some.injEq] at hstep
      rw [← hstep]
      cases c with
      | init t =>
          -- Initialising a timer that does not run changes nothing it has.
          have hm : ¬ Member s t := fun hc => by
            have hsome := (follows_isSome_iff s A h t).mpr hc
            rw [hfit] at hsome
            exact absurd hsome (by simp only [Option.isSome_none, Bool.false_eq_true,
              not_false_eq_true])
          refine follows_disarm s _ A t h ⟨setTmr_sound s t _ h.sound hm, fun u hut => ?_⟩ ?_ hm
          · simp only [SameFields, runCall, tmrInit, setTmr_other s t u _ hut, and_self,
              setTmr_member]
          · simp only [runCall, tmrInit, setTmr_self, initTmr, zeroTmr]
      | start t delay th arg now grow =>
          rcases hfit with ⟨hgrow, hroom, hlt⟩
          -- Whether the timer runs already makes no difference to what it is armed
          -- with.
          rcases tmrStart_arms s t delay th arg now h.sound (follows_isSome_iff s A h t) hroom with
            ⟨hu, hm, hth, harg, hjfs⟩
          rw [deadline, u64_of_lt _ hlt] at hjfs
          simp only [runCall, hgrow]
          exact follows_arm s _ A t (delay + now) th arg h hu hm hth harg hjfs
      | cancel t =>
          rcases tmrCancel_disarms s t h.sound (follows_isSome_iff s A h t) with ⟨hu, hth, hm⟩
          exact follows_disarm s _ A t h hu hth hm
  | drop jfs =>
      rw [timerStep_drop s jfs h.sound (follows_isSome_iff s A h)] at hstep
      exact absurd hstep (by simp only [reduceCtorEq, not_false_eq_true])
  | fire jfs t th arg =>
      rcases pollIter_fires s jfs t th arg s' h.sound
        (timerStep_fire s s' jfs t th arg hstep) with ⟨_, hu, hth, hm⟩
      exact follows_disarm s s' A t h hu hth hm

/-- Only a start adds a member, and there are few of them after it. -/
theorem timerStep_count (s s' : Store) (A : Sched) (e : TmrEvent) (h : Follows s A)
    (hcount : s.count < 2 ^ 30) (hfit : Fits s e) (hstep : timerStep s e = some s') :
    s'.count < 2 ^ 30 := by
  have hrun := follows_isSome_iff s A h
  cases e with
  | call c =>
      simp only [timerStep, Option.some.injEq] at hstep
      rw [← hstep]
      cases c with
      | init t => exact hcount
      | start t delay th arg now grow =>
          rcases hfit with ⟨hgrow, hfew, _⟩
          simp only [runCall, hgrow]
          exact tmrStart_count s t delay th arg now h.sound (hrun t) hfew
      | cancel t => exact lt_of_le_of_lt (unlink_drops s t h.sound (hrun t)).2.2 hcount
  | drop jfs =>
      rw [timerStep_drop s jfs h.sound hrun] at hstep
      exact absurd hstep (by simp only [reduceCtorEq, not_false_eq_true])
  | fire jfs t th arg =>
      rcases pollIter_fire s jfs t th arg s' (timerStep_fire s s' jfs t th arg hstep) with
        ⟨hp, _, _, _, hs'⟩
      have hm := (heapPeek_min s h.sound t hp).1
      rw [hs']
      exact lt_of_le_of_lt (heapRemoveItem_drops _ (clearTh_sound s t h.sound) t hm).2.2 hcount

/-- The timers follow the schedule of their history along any run. -/
theorem exec_follows : ∀ (es : List TmrEvent) (s s' : Store) (A : Sched), Follows s A →
    Along timerStep Fits s es → exec timerStep s es = some s' →
      Follows s' (es.foldl schedStep A) := by
  intro es
  induction es with
  | nil =>
      intro s s' A h _ hrun
      simp only [exec, Option.some.injEq] at hrun
      rw [← hrun]
      exact h
  | cons e es ih =>
      intro s s' A h hal hrun
      rcases exec_cons timerStep s s' e es hrun with ⟨s1, hs1, hrest⟩
      -- Memory and schedule take the event together.
      exact ih s1 s' (schedStep A e) (timerStep_follows s s1 A e h hal.1 hs1) (hal.2 s1 hs1) hrest

/-- The heap stays small along any run. -/
theorem exec_count (es : List TmrEvent) (s s' : Store) (A : Sched) (h : Follows s A)
    (hcount : s.count < 2 ^ 30) (hal : Along timerStep Fits s es)
    (hrun : exec timerStep s es = some s') : s'.count < 2 ^ 30 := by
  refine (exec_invariant_along timerStep Fits (fun x => (∃ B, Follows x B) ∧ x.count < 2 ^ 30)
    (fun x e x' hx hfit hstep => ?_) es s s' ⟨⟨A, h⟩, hcount⟩ hal hrun).2
  rcases hx with ⟨⟨B, hB⟩, hx⟩
  exact ⟨⟨schedStep B e, timerStep_follows x x' B e hB hfit hstep⟩,
    timerStep_count x x' B e hB hx hfit hstep⟩

/-- Timers that have been initialised or cleared, and none started. -/
def Fresh (tmr : TmrPtr → Tmr) : Prop := ∀ t, tmr t = initTmr ∨ tmr t = zeroTmr

theorem fresh_follows (array : Nat → TmrPtr) (tmr : TmrPtr → Tmr) (h : Fresh tmr) :
    Follows (heapNew array tmr) schedInit := by
  rcases heapNew_sound array tmr with ⟨hs, hm⟩
  refine ⟨hs, fun t _ => ⟨?_, hm t⟩, fun t r hr => ?_⟩
  · change (tmr t).th = none
    rcases h t with ht | ht
    · rw [ht]
      rfl
    · rw [ht]
      rfl
  · exact absurd hr (by simp only [schedInit, reduceCtorEq, not_false_eq_true])

/-- The deadline a timer was last given, after one more event. -/
def startStep (t : TmrPtr) (d : Option Nat) : TmrEvent → Option Nat
  | .call (.start u delay _ _ now _) => if u = t then some (delay + now) else d
  | _ => d

/-- The clock reading plus the delay of the latest `tmr_start` of a timer. -/
def latestStart (es : List TmrEvent) (t : TmrPtr) : Option Nat := es.foldl (startStep t) none

theorem startStep_other (t : TmrPtr) (d : Option Nat) (e : TmrEvent) (h : ¬ Concerns t e) :
    startStep t d e = d := by
  cases e with
  | call c =>
      cases c with
      | init u => rfl
      | start u delay th arg now grow => exact if_neg h
      | cancel u => rfl
  | drop jfs => rfl
  | fire jfs u th arg => rfl

/-- An armed timer has the deadline of its latest start: what disarms it does
    not change which start is the latest. -/
theorem latestStart_of_armed (t : TmrPtr) : ∀ (es : List TmrEvent) (r : Armed),
    (schedOf es).armed t = some r → latestStart es t = some r.deadline := by
  intro es
  -- From the end of the history: either the last event armed the timer, or
  -- it was armed before and the last event is about another.
  induction es using List.reverseRecOn with
  | nil =>
      intro r hr
      simp only [schedOf, List.foldl_nil, schedInit, reduceCtorEq] at hr
  | append_singleton es e ih =>
      intro r hr
      rw [schedOf_append] at hr
      simp only [latestStart, List.foldl_append, List.foldl_cons, List.foldl_nil] at hr ih ⊢
      rcases schedStep_armed _ e t r hr with ⟨hold, hother⟩ | ⟨_, delay, now, grow, he, hd⟩
      · rw [startStep_other t _ e hother]
        exact ih r hold
      · simp only [he, startStep, if_true, hd]

/-- The wake-up time is read off the root, which is an earliest member. -/
theorem tmrNextTimeout_spec (s : Store) (hs : Sound s) (now : Nat) :
    (tmrNextTimeout s now = 0 ↔ ∀ t, ¬ Member s t) ∧
      ∀ t, heapPeek s = some t → tmrNextTimeout s now = max 1 ((s.tmr t).jfs - now) := by
  unfold tmrNextTimeout
  cases hp : heapPeek s with
  | none =>
      refine ⟨⟨fun _ => (heapPeek_eq_none s).mp hp, fun _ => rfl⟩, fun t ht => ?_⟩
      exact absurd ht (by simp only [reduceCtorEq, not_false_eq_true])
  | some u =>
      have hm := (heapPeek_min s hs u hp).1
      simp only [Option.some.injEq]
      refine ⟨⟨fun h => ?_, fun h => absurd hm (h u)⟩, fun t ht => ?_⟩
      · by_cases hle : (s.tmr u).jfs ≤ now
        · rw [if_pos hle] at h
          omega
        · rw [if_neg hle] at h
          omega
      · rw [← ht]
        by_cases hle : (s.tmr u).jfs ≤ now
        · rw [if_pos hle]
          omega
        · rw [if_neg hle]
          omega

theorem tmrIsrunning_iff (s : Store) (A : Sched) (h : Follows s A) (t : TmrPtr) :
    tmrIsrunning s (some t) = true ↔ Member s t := follows_isSome_iff s A h t

/-- After any run of calls and rounds of polls, calls of handlers included, a
    timer runs exactly when it stands in the heap, in one slot, which is the
    one its `heap_idx` names, with the deadline of its latest start; the
    wake-up time is that of the earliest running timer; and the positions of
    the heap fit an `int`. -/
theorem running_timers_agree (array : Nat → TmrPtr) (tmr : TmrPtr → Tmr) (hfresh : Fresh tmr)
    (es : List TmrEvent) (s : Store) (hfit : Along timerStep Fits (heapNew array tmr) es)
    (hrun : exec timerStep (heapNew array tmr) es = some s) :
    (∀ t, tmrIsrunning s (some t) = true ↔ ∃ i, i < s.count ∧ s.array i = t) ∧
      (∀ t, tmrIsrunning s (some t) = true → (∃! i, i < s.count ∧ s.array i = t) ∧
        (∃ i : Nat, (s.tmr t).heapIdx = i ∧ i < s.count ∧ s.array i = t) ∧
        latestStart es t = some (s.tmr t).jfs) ∧
      (∀ now, (tmrNextTimeout s now = 0 ↔ ∀ t, tmrIsrunning s (some t) = false) ∧
        ((∃ t, tmrIsrunning s (some t) = true) →
          ∃ D, (∃ t, tmrIsrunning s (some t) = true ∧ (s.tmr t).jfs = D) ∧
            (∀ t, tmrIsrunning s (some t) = true → D ≤ (s.tmr t).jfs) ∧
            tmrNextTimeout s now = max 1 (D - now))) ∧
      ∀ i, i < s.count → childRight i < 2 ^ 31 := by
  have hinit := fresh_follows array tmr hfresh
  have hf : Follows s (schedOf es) := exec_follows es _ s schedInit hinit hfit hrun
  have hcount : s.count < 2 ^ 30 :=
    exec_count es _ s schedInit hinit (by simp only [heapNew]; omega) hfit hrun
  have hiff := tmrIsrunning_iff s _ hf
  have hpos := hf.sound.positioned
  refine ⟨hiff, fun t ht => ⟨?_, ?_, ?_⟩, fun now => ⟨?_, fun hany => ?_⟩,
    fun i hi => childRight_lt_of_count s i hi hcount⟩
  -- Two slots of one timer would both be the one `heap_idx` names.
  · rcases (hiff t).mp ht with ⟨i, hi, hit⟩
    refine ⟨i, ⟨hi, hit⟩, fun j hj => ?_⟩
    exact Slots.tracked_inj s.array _ s.count j i hpos hj.1 hi (hj.2.trans hit.symm)
  · rcases member_at_heapIdx s hpos t ((hiff t).mp ht) with ⟨i, hi, hit, hidx⟩
    exact ⟨i, hidx, hi, hit⟩
  · -- A running timer is armed, and an armed timer has its latest deadline.
    cases harm : (schedOf es).armed t with
    | none => exact absurd ((hiff t).mp ht) (hf.idle t harm).2
    | some r =>
        rw [(hf.running t r harm).2.2.2]
        exact latestStart_of_armed t es r harm
  · -- No timer in the heap is no timer running.
    rw [(tmrNextTimeout_spec s hf.sound now).1]
    refine forall_congr' fun t => ?_
    rw [← hiff t, Bool.not_eq_true]
  · rcases hany with ⟨t, ht⟩
    cases hp : heapPeek s with
    | none => exact absurd ((hiff t).mp ht) ((heapPeek_eq_none s).mp hp t)
    | some u =>
        rcases heapPeek_min s hf.sound u hp with ⟨hu, hmin⟩
        exact ⟨(s.tmr u).jfs, ⟨u, (hiff u).mpr hu, rfl⟩, fun v hv => hmin v ((hiff v).mp hv),
          (tmrNextTimeout_spec s hf.sound now).2 u hp⟩

/-- Two cleared timers are started; the second fires, and its handler
    restarts the first and then itself, at a later clock reading. -/
theorem running_timers_agree_run :
    ∃ s, exec timerStep (heapNew (fun _ => 0) (fun _ => zeroTmr))
        [.call (.start 1 9 7 0 10 true), .call (.start 2 3 8 0 10 true), .fire 15 2 8 0,
          .call (.start 1 2 7 0 16 true), .call (.start 2 0 8 0 17 true)] = some s ∧
      (∀ t, tmrIsrunning s (some t) = true ↔ ∃ i, i < s.count ∧ s.array i = t) := by
  rcases Option.isSome_iff_exists.mp (show (exec timerStep
      (heapNew (fun _ => 0) (fun _ => zeroTmr))
      [.call (.start 1 9 7 0 10 true), .call (.start 2 3 8 0 10 true), .fire 15 2 8 0,
        .call (.start 1 2 7 0 16 true), .call (.start 2 0 8 0 17 true)]).isSome = true by
      decide +kernel) with ⟨s, hs⟩
  exact ⟨s, hs, (running_timers_agree _ _ (fun _ => Or.inr rfl) _ s (by decide +kernel) hs).1⟩

end Timers

end SipPerf
