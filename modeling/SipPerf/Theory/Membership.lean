import SipPerf.Lib.Transition
import SipPerf.Theory.HeapOps

/-!
# The Membership Test of the Heap

`heap_contains_item` looks at the back-pointer of a timer and nothing else,
and `heap_remove_item` trusts it in the same way. So both are right about a
timer exactly as long as the back-pointers of the timers outside the heap say
so, which is what `Marked` asks for.

Two operations can leave a timer unmarked. A timer removed from the last slot
is also the timer that is moved into its place, and its back-pointer is
written again after it was cleared. A timer polled when it is alone is in the
same position. From then on the test says that the timer is in the heap, and
removing it once more takes out another timer. Every other operation keeps
the timers marked. So the test is exact after every operation of a sequence
exactly when none of the two happens.

The bound on the number of members is the one that keeps every position in
the range of an `int`.

## Main definitions

* `SlotOp`, `slotStep`: Operations on the heap, by members and others.
* `Marked`: Timers outside the heap have a back-pointer that says so.
* `ExactAfter`: The test is exact after an operation, and removing a timer
  that is not in the heap changes nothing.
* `LeavesMarked`: The operation does not take a timer out of the last slot.

## Theorems

* `exact_iff_marked`: The test is exact where timers are marked.
* `slotStep_marked`: An operation leaves the timers marked exactly when it
  takes none out of the last slot.
* `membership_exact_iff`: Exactness over any sequence of operations.
-/

namespace SipPerf

namespace TmrHeap

open MachineInt BinaryHeap Slots Transition

instance decidableMember (s : Store) (t : TmrPtr) : Decidable (Member s t) :=
  inferInstanceAs (Decidable (∃ i, i < s.count ∧ s.array i = t))

/-- An operation on the heap, or a new deadline for a timer outside it. -/
inductive SlotOp where
  | offer (t : TmrPtr)
  | poll
  | remove (t : TmrPtr)
  | retime (t : TmrPtr) (jfs : Nat)

/-- One operation. Only timers that are not in the heap are offered to it or
    given a new deadline. Any timer may be removed. -/
def slotStep (s : Store) : SlotOp → Option Store
  | .offer t => if Member s t then none else some (heapOffer s t true).1
  | .poll => some (heapPoll s).1
  | .remove t => some (heapRemoveItem s t)
  | .retime t jfs =>
      if Member s t then none
      else some { s with tmr := Function.update s.tmr t { s.tmr t with jfs := jfs } }

/-- A timer is offered only to a heap of fewer than `2 ^ 30` members. -/
def Small (s : Store) : SlotOp → Prop
  | .offer _ => s.count + 1 < 2 ^ 30
  | _ => True

instance decidableSmall (s : Store) : (op : SlotOp) → Decidable (Small s op)
  | .offer _ => inferInstanceAs (Decidable (s.count + 1 < 2 ^ 30))
  | .poll => isTrue trivial
  | .remove _ => isTrue trivial
  | .retime _ _ => isTrue trivial

/-- The test says of every timer whether it is in the heap. -/
def ExactTest (s : Store) : Prop := ∀ t, heapContainsItem s t = true ↔ Member s t

/-- What is asked of an operation: the test is exact after it, and if it
    removes a timer that is not in the heap, it changes no slot and no
    back-pointer of a member. -/
def ExactAfter (s : Store) (op : SlotOp) : Prop :=
  ∀ s', slotStep s op = some s' → ExactTest s' ∧
    ∀ t, op = .remove t → ¬ Member s t → s'.count = s.count ∧
      (∀ i, i < s.count → s'.array i = s.array i) ∧
      ∀ u, Member s u → (s'.tmr u).heapIdx = (s.tmr u).heapIdx

/-- No timer is taken out of the last slot: it is not polled alone, and not
    removed from there. -/
def LeavesMarked (s : Store) : SlotOp → Prop
  | .poll => s.count ≠ 1
  | .remove t => Member s t → (s.tmr t).heapIdx + 1 ≠ s.count
  | _ => True

instance decidableLeavesMarked (s : Store) : (op : SlotOp) → Decidable (LeavesMarked s op)
  | .offer _ => isTrue trivial
  | .poll => inferInstanceAs (Decidable (s.count ≠ 1))
  | .remove t => inferInstanceAs (Decidable (Member s t → (s.tmr t).heapIdx + 1 ≠ s.count))
  | .retime _ _ => isTrue trivial

/-! ## One operation -/

/-- Every timer outside the heap is marked as outside. -/
def Marked (s : Store) : Prop := ∀ t, ¬ Member s t → (s.tmr t).heapIdx = -1

theorem exact_iff_marked (s : Store) (hs : Positioned s) : ExactTest s ↔ Marked s := by
  constructor
  · intro h t ht
    by_contra hidx
    exact ht ((h t).mp (decide_eq_true hidx))
  · intro h t
    rw [heapContainsItem, decide_eq_true_eq]
    constructor
    · intro hidx
      by_contra ht
      exact hidx (h t ht)
    · intro ht
      rcases member_at_heapIdx s hs t ht with ⟨i, _, _, hi⟩
      rw [hi]
      omega

/-- Taking a timer out leaves the others as they were, so what matters is how
    it leaves that timer. -/
theorem drops_marked (s s' : Store) (t : TmrPtr) (h : Marked s) (hd : Drops s s' t) :
    Marked s' ↔ (s'.tmr t).heapIdx = -1 := by
  have hgone : ∀ u, ¬ Member s' u ↔ ¬ (Member s u ∧ u ≠ t) := fun u => not_congr (hd.1.member u)
  constructor
  · intro h'
    exact h' t ((hgone t).mpr (fun hc => hc.2 rfl))
  · intro hidx u hu
    by_cases hut : u = t
    · rw [hut]
      exact hidx
    · -- Any other timer that is outside was so before.
      have hus : ¬ Member s u := fun hc => (hgone u).mp hu ⟨hc, hut⟩
      rw [hd.1.frame u hus (fun hc => hus hc.1)]
      exact h u hus

/-- Removing a timer that is marked as outside the heap does nothing. -/
theorem heapRemoveItem_marked (s : Store) (t : TmrPtr) (h : (s.tmr t).heapIdx = -1) :
    heapRemoveItem s t = s := by
  have hset : s.setIdx t (-1) = s := by
    unfold Store.setIdx
    rw [← h, Function.update_eq_self]
  simp only [heapRemoveItem, h, hset, if_true]

/-- The heap is sound, its timers are marked, and its capacity can be doubled
    while it is small. -/
structure Tidy (s : Store) : Prop where
  sound : Sound s
  marked : Marked s
  size_lt : s.size < 2 ^ 31

theorem tidy_room (s : Store) (h : Tidy s) : HasRoom s := by
  have hlt := h.size_lt
  exact Or.inr (by omega)

/-- What an operation does to the heap of a tidy store, its timers apart. -/
theorem slotStep_sound (s s' : Store) (op : SlotOp) (h : Tidy s) (hsmall : Small s op)
    (hstep : slotStep s op = some s') : Sound s' ∧ s'.size < 2 ^ 31 := by
  have hlt := h.size_lt
  cases op with
  | offer t =>
      simp only [slotStep] at hstep
      split at hstep
      · exact absurd hstep (by simp only [reduceCtorEq, not_false_eq_true])
      · rename_i hnew
        rw [Option.some.injEq] at hstep
        rcases heapOffer_becomes s h.sound t hnew (tidy_room s h) with ⟨hb, _, _, hsize⟩
        rw [← hstep]
        refine ⟨hb.sound, ?_⟩
        -- A full array has as many slots as there are members.
        have hle := h.sound.count_le
        have hfew : s.count + 1 < 2 ^ 30 := hsmall
        rw [hsize]
        split
        · exact hlt
        · omega
  | poll =>
      simp only [slotStep, Option.some.injEq] at hstep
      rw [← hstep]
      by_cases h0 : s.count = 0
      · simp only [heapPoll, if_pos h0]
        exact ⟨h.sound, hlt⟩
      · rcases (heapPoll_drops s h.sound h0).2 with ⟨hb, hsize, _⟩
        rw [hsize]
        exact ⟨hb.sound, hlt⟩
  | remove t =>
      simp only [slotStep, Option.some.injEq] at hstep
      rw [← hstep]
      by_cases hm : Member s t
      · rcases heapRemoveItem_drops s h.sound t hm with ⟨hb, hsize, _⟩
        rw [hsize]
        exact ⟨hb.sound, hlt⟩
      · rw [heapRemoveItem_marked s t (h.marked t hm)]
        exact ⟨h.sound, hlt⟩
  | retime t jfs =>
      simp only [slotStep] at hstep
      split at hstep
      · exact absurd hstep (by simp only [reduceCtorEq, not_false_eq_true])
      · rename_i hm
        rw [Option.some.injEq] at hstep
        rw [← hstep]
        refine ⟨touch_sound s h.sound _ (fun u hu => ?_), hlt⟩
        have hut : u ≠ t := fun hc => hm (hc ▸ hu)
        rw [Function.update_of_ne hut]
        exact ⟨rfl, rfl⟩

/-- An operation leaves the timers marked exactly when it takes none out of
    the last slot. -/
theorem slotStep_marked (s s' : Store) (op : SlotOp) (h : Tidy s)
    (hstep : slotStep s op = some s') : Marked s' ↔ LeavesMarked s op := by
  cases op with
  | offer t =>
      simp only [slotStep] at hstep
      split at hstep
      · exact absurd hstep (by simp only [reduceCtorEq, not_false_eq_true])
      · rename_i hnew
        rw [Option.some.injEq] at hstep
        rcases heapOffer_becomes s h.sound t hnew (tidy_room s h) with ⟨hb, _, _, _⟩
        rw [← hstep]
        refine ⟨fun _ => trivial, fun _ u hu => ?_⟩
        have hout : ¬ (Member s u ∨ u = t) := fun hc => hu ((hb.member u).mpr hc)
        have hus : ¬ Member s u := fun hc => hout (Or.inl hc)
        rw [hb.frame u hus hout]
        exact h.marked u hus
  | poll =>
      simp only [slotStep, Option.some.injEq] at hstep
      rw [← hstep]
      by_cases h0 : s.count = 0
      · simp only [heapPoll, if_pos h0, LeavesMarked]
        exact ⟨fun _ => by omega, fun _ => h.marked⟩
      · -- The root is in the last slot only if it is alone.
        rw [drops_marked s _ _ h.marked (heapPoll_drops s h.sound h0).2,
          heapPoll_left s h.sound h0]
        simp only [LeavesMarked]
        split
        · omega
        · omega
  | remove t =>
      simp only [slotStep, Option.some.injEq] at hstep
      rw [← hstep]
      by_cases hm : Member s t
      · -- `heapRemoveItem_left` says how the timer is left, by its slot.
        rcases member_at_heapIdx s h.sound.positioned t hm with ⟨i, hi, hit, hidx⟩
        rw [drops_marked s _ t h.marked (heapRemoveItem_drops s h.sound t hm),
          heapRemoveItem_left s h.sound t i hi hit hidx]
        simp only [LeavesMarked, hm, hidx, forall_const]
        split
        · omega
        · omega
      · rw [heapRemoveItem_marked s t (h.marked t hm)]
        exact ⟨fun _ hc => absurd hc hm, fun _ => h.marked⟩
  | retime t jfs =>
      simp only [slotStep] at hstep
      split at hstep
      · exact absurd hstep (by simp only [reduceCtorEq, not_false_eq_true])
      · rename_i hm
        rw [Option.some.injEq] at hstep
        rw [← hstep]
        refine ⟨fun _ => trivial, fun _ u hu => ?_⟩
        change (Function.update s.tmr t { s.tmr t with jfs := jfs } u).heapIdx = -1
        by_cases hut : u = t
        · rw [hut, Function.update_self]
          exact h.marked t hm
        · rw [Function.update_of_ne hut]
          exact h.marked u hu

/-- Over a tidy heap, an operation is as it should be exactly when it takes no
    timer out of the last slot. -/
theorem exactAfter_iff (s : Store) (op : SlotOp) (h : Tidy s) (hsmall : Small s op) :
    ExactAfter s op ↔ ∀ s', slotStep s op = some s' → LeavesMarked s op := by
  constructor
  · intro hexact s' hs'
    have hsound := slotStep_sound s s' op h hsmall hs'
    exact (slotStep_marked s s' op h hs').mp
      ((exact_iff_marked s' hsound.1.positioned).mp (hexact s' hs').1)
  · intro hleaves s' hs'
    have hsound := slotStep_sound s s' op h hsmall hs'
    refine ⟨(exact_iff_marked s' hsound.1.positioned).mpr
      ((slotStep_marked s s' op h hs').mpr (hleaves s' hs')), fun t hop hm => ?_⟩
    rw [hop] at hs'
    simp only [slotStep, Option.some.injEq] at hs'
    rw [← hs', heapRemoveItem_marked s t (h.marked t hm)]
    exact ⟨rfl, fun _ _ => rfl, fun _ _ => rfl⟩

/-- An operation that cannot be made takes no timer out. -/
theorem leavesMarked_of_stuck (s : Store) (op : SlotOp) (h : slotStep s op = none) :
    LeavesMarked s op := by
  cases op with
  | offer t => exact trivial
  | poll => exact absurd h (by simp only [slotStep, reduceCtorEq, not_false_eq_true])
  | remove t => exact absurd h (by simp only [slotStep, reduceCtorEq, not_false_eq_true])
  | retime t jfs => exact trivial

/-- After every operation of a sequence on initialised timers the membership
    test is exact, and removing a timer that is not in the heap changes
    nothing, exactly when no timer is polled alone or removed from the last
    slot. -/
theorem membership_exact_iff (array : Nat → TmrPtr) (tmr : TmrPtr → Tmr)
    (hinit : ∀ t, (tmr t).heapIdx = -1) (ops : List SlotOp)
    (hsmall : Along slotStep Small (heapNew array tmr) ops) :
    Along slotStep ExactAfter (heapNew array tmr) ops ↔
      Along slotStep LeavesMarked (heapNew array tmr) ops := by
  have hstart : Tidy (heapNew array tmr) := by
    refine ⟨(heapNew_sound array tmr).1, fun t _ => hinit t, ?_⟩
    simp only [heapNew, defaultCapacity]
    omega
  -- The bound is part of both sides, so that the steps may use it.
  have hiff := along_iff slotStep (fun s op => Small s op ∧ ExactAfter s op)
    (fun s op => Small s op ∧ LeavesMarked s op) Tidy
    (fun s op h => and_congr_right fun hs => (exactAfter_iff s op h hs).trans
      ⟨fun hl => by
        cases hstep : slotStep s op with
        | none => exact leavesMarked_of_stuck s op hstep
        | some s' => exact hl s' hstep, fun hl _ _ => hl⟩)
    (fun s op s' h hg hstep => by
      have hsound := slotStep_sound s s' op h hg.1 hstep
      exact ⟨hsound.1, (slotStep_marked s s' op h hstep).mpr hg.2, hsound.2⟩) ops _ hstart
  rw [along_and, along_and] at hiff
  exact ⟨fun h => (hiff.mp ⟨hsmall, h⟩).2, fun h => (hiff.mpr ⟨hsmall, h⟩).2⟩

/-- Timers that have been initialised. -/
def initialised : TmrPtr → Tmr := fun _ => { th := none, arg := 0, jfs := 0, heapIdx := -1 }

/-- A timer is removed from the middle of the heap twice, and another is
    polled. -/
theorem membership_exact_iff_run :
    Along slotStep ExactAfter (heapNew (fun _ => 0) initialised)
      [.retime 1 5, .retime 2 7, .offer 3, .offer 1, .offer 2, .offer 4, .remove 3, .remove 3,
        .poll] :=
  (membership_exact_iff (fun _ => 0) initialised (fun _ => rfl) _ (by decide +kernel)).mpr
    (by decide +kernel)

/-- A timer that was alone is removed. The test says it is still there. -/
theorem removed_timer_is_contained :
    ¬ ∀ ops : List SlotOp, Along slotStep Small (heapNew (fun _ => 0) initialised) ops →
      Along slotStep ExactAfter (heapNew (fun _ => 0) initialised) ops := by
  intro hall
  have hrun : (exec slotStep (heapNew (fun _ => 0) initialised) [.offer 1, .remove 1]).any
      (fun s => heapContainsItem s 1 && decide (¬ Member s 1)) = true := by
    decide +kernel
  rcases (Option.any_eq_true _ _).mp hrun with ⟨s, hs, hboth⟩
  rw [Bool.and_eq_true, decide_eq_true_eq] at hboth
  rcases exec_cons slotStep _ s _ _ hs with ⟨s1, h1, hrest⟩
  rcases exec_cons slotStep s1 s _ _ hrest with ⟨s2, h2, hlast⟩
  simp only [exec, Option.some.injEq] at hlast
  rw [hlast] at h2
  have hexact := (((hall [.offer 1, .remove 1] (by decide +kernel)).2 s1 h1).1 s h2).1
  exact hboth.2 ((hexact 1).mp hboth.1)

end TmrHeap

end SipPerf
