import SipPerf.Theory.TimerRuns

/-!
# Growing the Heap When Memory Runs Out

What becomes of the timers when a `realloc` fails. `__ensurecapacity` doubles
`size` before it calls `realloc`, and does not undo that. `heap_offer`
reports the failure, and `tmr_start` ignores the report, after it has set the
handler of the timer. So one failure has two consequences: the heap takes the
array for twice as long as it is, and the next timers are written past its
end; and a timer counts as running that is not in the heap, so that
cancelling it removes whatever its stale back-pointer names.

Nothing of the kind happens as long as every `realloc` succeeds, and a start
calls `realloc` only when the array is full and the timer is not already in
it. All of this is about heaps of fewer than `2 ^ 30` timers. The positions of
the timers are computed as `int`, and in a larger heap they overflow.

## Main definitions

* `carefulStep`: The events of the service, where a timer is initialised only
  while it does not run.
* `InBounds`: The array is as long as the heap takes it to be.
* `FailsCleanly`: An event keeps the bounds, takes no other timer out, and if
  it is a start that fails, leaves no trace.
* `Grows`: A start finds a free slot, or memory for more of them.
* `FewAfter`: The heap is small after an event.
* `Linked`: The timers in the heap are the running ones.

## Theorems

* `heapOffer_full`: An offer to a full heap that cannot grow.
* `carefulStep_linked`: What an event keeps when the heap can grow.
* `failsCleanly_iff`: An event is as it should be exactly when the heap can
  grow.
* `growth_safe_iff`: The same over whole runs.
-/

namespace SipPerf

namespace Timers

open TmrHeap MachineInt Transition

/-- An event of the timer service. A timer that runs is not initialised. -/
def carefulStep (s : Store) : TmrEvent → Option Store
  | .call (.init t) => if (s.tmr t).th = none then timerStep s (.call (.init t)) else none
  | e => timerStep s e

/-- There are as many slots as the heap thinks, and it uses no more. -/
def InBounds (s : Store) : Prop := s.count ≤ s.size ∧ s.size ≤ s.alloc

/-- What is asked of an event: the bounds hold after it, a call takes no timer
    out of the heap but its own, and a start whose offer fails is reported as
    such and leaves the heap unchanged and the timer not running. -/
def FailsCleanly (s : Store) (e : TmrEvent) : Prop :=
  (∀ s', carefulStep s e = some s' → InBounds s' ∧
    ∀ c, e = .call c → ∀ u, u ≠ target c → Member s u → Member s' u) ∧
  ∀ t delay th arg now grow, e = .call (.start t delay th arg now grow) →
    let s3 := beforeOffer s t delay th arg now
    let r := heapOffer s3 t grow
    r.2 ≠ 0 → r.2 = -1 ∧ r.1.size = s3.size ∧ r.1.count = s3.count ∧ r.1.array = s3.array ∧
      tmrIsrunning (tmrStart s (some t) delay (some th) arg now grow) (some t) = false

/-- A start finds the timer in the heap already or a slot free, or `realloc`
    succeeds. -/
def Grows (s : Store) : TmrEvent → Prop
  | .call (.start t _ _ _ _ grow) => (s.tmr t).th.isSome ∨ s.count < s.size ∨ grow = true
  | _ => True

instance decidableGrows (s : Store) : (e : TmrEvent) → Decidable (Grows s e)
  | .call (.init _) => isTrue trivial
  | .call (.start t _ _ _ _ grow) =>
      inferInstanceAs (Decidable ((s.tmr t).th.isSome ∨ s.count < s.size ∨ grow = true))
  | .call (.cancel _) => isTrue trivial
  | .drop _ => isTrue trivial
  | .fire _ _ _ _ => isTrue trivial

/-- A start keeps the heap so small that its positions fit an `int`. -/
def FewAfter (s : Store) : TmrEvent → Prop
  | .call (.start t _ _ _ _ _) => Few s t
  | _ => True

instance decidableFewAfter (s : Store) : (e : TmrEvent) → Decidable (FewAfter s e)
  | .call (.init _) => isTrue trivial
  | .call (.start t _ _ _ _ _) => inferInstanceAs (Decidable (Few s t))
  | .call (.cancel _) => isTrue trivial
  | .drop _ => isTrue trivial
  | .fire _ _ _ _ => isTrue trivial

/-- The heap is sound, and it holds the timers that run. -/
structure Linked (s : Store) : Prop where
  sound : Sound s
  running : ∀ t, (s.tmr t).th.isSome ↔ Member s t

/-! ## Offers -/

/-- With a slot free, `realloc` is not called. -/
theorem heapOffer_free (s : Store) (t : TmrPtr) (grow : Bool) (h : s.count < s.size) :
    heapOffer s t grow = heapOffer s t true := by
  simp only [heapOffer, ensurecapacity, if_pos h]

/-- Without one, a failed `realloc` leaves the capacity doubled. -/
theorem heapOffer_full (s : Store) (t : TmrPtr) (h : ¬ s.count < s.size) :
    heapOffer s t false = ({ s with size := u32 (s.size * 2) }, -1) := by
  simp only [heapOffer, ensurecapacity, if_neg h, Bool.false_eq_true, if_false, ne_eq,
    one_ne_zero, not_false_eq_true, if_true]

/-! ## Events -/

/-- How full the heap is when a start makes its offer. -/
theorem beforeOffer_counts (s : Store) (h : Linked s) (t : TmrPtr) (delay : Nat) (th : TmrH)
    (arg now : Nat) :
    (beforeOffer s t delay th arg now).size = s.size ∧
      ((s.tmr t).th.isSome → (beforeOffer s t delay th arg now).count + 1 = s.count) ∧
      (¬ (s.tmr t).th.isSome → (beforeOffer s t delay th arg now).count = s.count) := by
  refine ⟨(beforeOffer_spec s t delay th arg now h.sound (h.running t)).2.2.2.2.2.1, ?_, ?_⟩
  · intro hrun
    simp only [beforeOffer, if_pos hrun, setTmr]
    exact heapRemoveItem_count s h.sound t ((h.running t).mp hrun)
  · intro hrun
    simp only [beforeOffer, if_neg hrun, setTmr]

/-- Where a start can go ahead, so does its offer, whether or not `realloc`
    would have worked. -/
theorem grows_offer (s : Store) (h : Linked s) (t : TmrPtr) (delay : Nat) (th : TmrH)
    (arg now : Nat) (grow : Bool) (hfew : Few s t)
    (hg : Grows s (.call (.start t delay th arg now grow))) :
    let s3 := beforeOffer s t delay th arg now
    HasRoom s3 ∧ heapOffer s3 t grow = heapOffer s3 t true := by
  have hle := h.sound.count_le
  rcases beforeOffer_counts s h t delay th arg now with ⟨hsize, hrun, hidle⟩
  -- A timer that runs is taken out first, and leaves a slot free.
  have hfree : (s.tmr t).th.isSome ∨ s.count < s.size →
      (beforeOffer s t delay th arg now).count < (beforeOffer s t delay th arg now).size := by
    intro hfree
    rw [hsize]
    by_cases hr : (s.tmr t).th.isSome
    · have hc := hrun hr
      omega
    · rw [hidle hr]
      exact hfree.resolve_left hr
  refine ⟨few_room s t delay th arg now h.sound (h.running t) hfew, ?_⟩
  have hcases : ((s.tmr t).th.isSome ∨ s.count < s.size) ∨ grow = true := or_assoc.mpr hg
  rcases hcases with hroom | hgrow
  · exact heapOffer_free _ t grow (hfree hroom)
  · rw [hgrow]

/-- The timers that run are those in the heap, after one of them has changed
    in the way an event changes it. -/
theorem updates_running (s s' : Store) (t : TmrPtr) (h : Linked s) (hu : Updates s s' t)
    (ht : (s'.tmr t).th.isSome ↔ Member s' t) : ∀ u, (s'.tmr u).th.isSome ↔ Member s' u := by
  intro u
  by_cases hut : u = t
  · rw [hut]
    exact ht
  · rw [(hu.other u hut).1.1, (hu.other u hut).2]
    exact h.running u

theorem isSome_iff_of_idle (s : Store) (t : TmrPtr) (hth : (s.tmr t).th = none)
    (hm : ¬ Member s t) : (s.tmr t).th.isSome ↔ Member s t := by
  rw [hth]
  exact ⟨fun hc => absurd hc (by simp only [Option.isSome_none, Bool.false_eq_true,
    not_false_eq_true]), fun hc => absurd hc hm⟩

/-- A start that can go ahead. -/
theorem start_linked (s : Store) (h : Linked s) (t : TmrPtr) (delay : Nat) (th : TmrH)
    (arg now : Nat) (grow : Bool) (hfew : Few s t)
    (hg : Grows s (.call (.start t delay th arg now grow))) :
    let s' := tmrStart s (some t) delay (some th) arg now grow
    Linked s' ∧ ∀ u, u ≠ t → (Member s' u ↔ Member s u) := by
  rcases grows_offer s h t delay th arg now grow hfew hg with ⟨hroom, hsame⟩
  rcases offer_arms s t delay th arg now h.sound (h.running t) hroom with ⟨hu, hm, hth, _, _⟩
  rw [tmrStart_eq, hsame]
  refine ⟨⟨hu.sound, updates_running s _ t h hu ?_⟩, fun u hut => (hu.other u hut).2⟩
  rw [hth]
  exact ⟨fun _ => hm, fun _ => rfl⟩

theorem cancel_linked (s : Store) (h : Linked s) (t : TmrPtr) :
    Linked (tmrCancel s (some t)) ∧
      ∀ u, u ≠ t → (Member (tmrCancel s (some t)) u ↔ Member s u) := by
  rcases tmrCancel_disarms s t h.sound (h.running t) with ⟨hu, hth, hm⟩
  exact ⟨⟨hu.sound, updates_running s _ t h hu (isSome_iff_of_idle _ t hth hm)⟩,
    fun u hut => (hu.other u hut).2⟩

theorem init_linked (s : Store) (h : Linked s) (t : TmrPtr) (hidle : (s.tmr t).th = none) :
    Linked (tmrInit s (some t)) := by
  have hm : ¬ Member s t := fun hc => by
    have hsome := (h.running t).mpr hc
    rw [hidle] at hsome
    exact absurd hsome (by simp only [Option.isSome_none, Bool.false_eq_true, not_false_eq_true])
  have hu : Updates s (tmrInit s (some t)) t := by
    refine ⟨setTmr_sound s t _ h.sound hm, fun u hut => ?_⟩
    simp only [SameFields, tmrInit, setTmr_other s t u _ hut, and_self, setTmr_member]
  refine ⟨hu.sound, updates_running s _ t h hu (isSome_iff_of_idle _ t ?_ hm)⟩
  simp only [tmrInit, setTmr_self, initTmr, zeroTmr]

/-- An event keeps the heap linked when the heap can grow, and a call is about
    one timer. -/
theorem carefulStep_linked (s s' : Store) (e : TmrEvent) (h : Linked s) (hfew : FewAfter s e)
    (hg : Grows s e) (hstep : carefulStep s e = some s') :
    Linked s' ∧ ∀ c, e = .call c → ∀ u, u ≠ target c → (Member s' u ↔ Member s u) := by
  cases e with
  | call c =>
      simp only [TmrEvent.call.injEq, forall_eq']
      cases c with
      | init t =>
          simp only [carefulStep] at hstep
          split at hstep
          · rename_i hidle
            simp only [timerStep, Option.some.injEq, runCall] at hstep
            rw [← hstep]
            exact ⟨init_linked s h t hidle, fun u _ => Iff.rfl⟩
          · exact absurd hstep (by simp only [reduceCtorEq, not_false_eq_true])
      | start t delay th arg now grow =>
          simp only [carefulStep, timerStep, Option.some.injEq, runCall] at hstep
          rw [← hstep]
          exact start_linked s h t delay th arg now grow hfew hg
      | cancel t =>
          simp only [carefulStep, timerStep, Option.some.injEq, runCall] at hstep
          rw [← hstep]
          exact cancel_linked s h t
  | drop jfs =>
      simp only [carefulStep] at hstep
      rw [timerStep_drop s jfs h.sound h.running] at hstep
      exact absurd hstep (by simp only [reduceCtorEq, not_false_eq_true])
  | fire jfs t th arg =>
      -- A poll takes out the timer it serves, and clears its handler.
      rcases pollIter_fires s jfs t th arg s' h.sound
        (timerStep_fire s s' jfs t th arg hstep) with ⟨_, hu, hth, hm⟩
      exact ⟨⟨hu.sound, updates_running s s' t h hu (isSome_iff_of_idle s' t hth hm)⟩,
        fun c hc => absurd hc (by simp only [reduceCtorEq, not_false_eq_true])⟩

/-- A start that cannot go ahead leaves the capacity doubled. -/
theorem start_not_clean (s : Store) (h : Linked s) (t : TmrPtr) (delay : Nat) (th : TmrH)
    (arg now : Nat) (grow : Bool) (hg : ¬ Grows s (.call (.start t delay th arg now grow))) :
    ¬ FailsCleanly s (.call (.start t delay th arg now grow)) := by
  have hpos := h.sound.size_pos
  have hlt := h.sound.size_lt
  simp only [Grows, not_or, not_lt] at hg
  have hfalse : grow = false := Bool.eq_false_iff.mpr hg.2.2
  rcases beforeOffer_counts s h t delay th arg now with ⟨hsize, _, hidle⟩
  have hcount := hidle hg.1
  intro hclean
  have hfull : ¬ (beforeOffer s t delay th arg now).count <
      (beforeOffer s t delay th arg now).size := by omega
  -- The capacity has changed.
  have hfail := hclean.2 t delay th arg now grow rfl
  simp only [hfalse, heapOffer_full _ t hfull] at hfail
  have hkept := (hfail (by decide)).2.1
  rw [hsize] at hkept
  unfold u32 at hkept
  omega

theorem failsCleanly_iff (s : Store) (e : TmrEvent) (h : Linked s) (hfew : FewAfter s e) :
    FailsCleanly s e ↔ Grows s e := by
  constructor
  · intro hclean
    cases e with
    | call c =>
        cases c with
        | start t delay th arg now grow =>
            -- Only a start needs memory.
            by_contra hg
            exact start_not_clean s h t delay th arg now grow hg hclean
        | _ => exact trivial
    | _ => exact trivial
  · intro hg
    refine ⟨fun s' hs' => ?_, fun t delay th arg now grow he => ?_⟩
    · rcases carefulStep_linked s s' e h hfew hg hs' with ⟨hl, hother⟩
      exact ⟨⟨hl.sound.count_le, hl.sound.size_le⟩,
        fun c hc u hu => (hother c hc u hu).mpr⟩
    · -- The offer does not fail.
      rw [he] at hg hfew
      rcases grows_offer s h t delay th arg now grow hfew hg with ⟨hroom, hsame⟩
      rcases beforeOffer_spec s t delay th arg now h.sound (h.running t) with ⟨hu3, hm3, _⟩
      intro s3 r hfail
      change (heapOffer (beforeOffer s t delay th arg now) t grow).2 ≠ 0 at hfail
      rw [hsame] at hfail
      exact absurd (heapOffer_becomes _ hu3.sound t hm3 hroom).2.1 hfail

/-- Over any run of calls and rounds of polls that keeps the heap small,
    whatever `realloc` does in each: the array is always as long as the heap
    takes it to be, no call takes another timer out of the heap, and every
    start that fails leaves the heap unchanged and the timer not running,
    exactly when no start needs more memory than it gets. -/
theorem growth_safe_iff (array : Nat → TmrPtr) (tmr : TmrPtr → Tmr) (hfresh : Fresh tmr)
    (es : List TmrEvent) (hfew : Along carefulStep FewAfter (heapNew array tmr) es) :
    Along carefulStep FailsCleanly (heapNew array tmr) es ↔
      Along carefulStep Grows (heapNew array tmr) es := by
  have hf := fresh_follows array tmr hfresh
  have hstart : Linked (heapNew array tmr) := ⟨hf.sound, follows_isSome_iff _ _ hf⟩
  -- The bound is part of both sides, so that the steps may use it.
  have hiff := along_iff carefulStep (fun s e => FewAfter s e ∧ FailsCleanly s e)
    (fun s e => FewAfter s e ∧ Grows s e) Linked
    (fun s e h => and_congr_right (failsCleanly_iff s e h))
    (fun s e s' h hg hstep => (carefulStep_linked s s' e h hg.1 hg.2 hstep).1) es _ hstart
  rw [along_and, along_and] at hiff
  exact ⟨fun h => (hiff.mp ⟨hfew, h⟩).2, fun h => (hiff.mpr ⟨hfew, h⟩).2⟩

/-- Starts of the timers `1` to `n`, of which none can grow the heap. -/
def startsWithoutMemory (n : Nat) : List TmrEvent :=
  (List.range n).map (fun t => .call (.start (t + 1) 5 7 0 10 false))

/-- The array is filled without calling `realloc`, and a timer in it is
    restarted. -/
theorem growth_safe_iff_run :
    Along carefulStep FailsCleanly (heapNew (fun _ => 0) (fun _ => zeroTmr))
      (startsWithoutMemory 13 ++ [.call (.start 4 1 7 0 11 false)]) :=
  (growth_safe_iff (fun _ => 0) (fun _ => zeroTmr) (fun _ => Or.inr rfl) _
    (by decide +kernel)).mpr (by decide +kernel)

/-- The fourteenth start finds the array full and gets no memory. Its timer
    counts as running, and the heap takes the array for twice as long as it
    is. -/
theorem failed_growth_is_not_undone :
    ¬ ∀ es : List TmrEvent, Along carefulStep FewAfter (heapNew (fun _ => 0) (fun _ => zeroTmr)) es →
      Along carefulStep FailsCleanly (heapNew (fun _ => 0) (fun _ => zeroTmr)) es := by
  intro hall
  have hrun : (exec carefulStep (heapNew (fun _ => 0) (fun _ => zeroTmr))
      (startsWithoutMemory 13)).any (fun s =>
        decide ((heapOffer (beforeOffer s 14 5 7 0 10) 14 false).2 ≠ 0 ∧
          tmrIsrunning (tmrStart s (some 14) 5 (some 7) 0 10 false) (some 14) = true)) = true := by
    decide +kernel
  rcases (Option.any_eq_true _ _).mp hrun with ⟨s, hs, hboth⟩
  have hfailed := of_decide_eq_true hboth
  have hlast := (along_append carefulStep FailsCleanly (startsWithoutMemory 13)
    [.call (.start 14 5 7 0 10 false)] _ s hs (hall _ (by decide +kernel))).2.1
  have hidle := (hlast.2 14 5 7 0 10 false rfl hfailed.1).2.2.2.2
  rw [hfailed.2] at hidle
  exact absurd hidle (by decide)

end Timers

end SipPerf
