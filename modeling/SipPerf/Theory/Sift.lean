import Mathlib.Order.Nat
import SipPerf.Core.TmrHeap
import SipPerf.Lib.Slots

/-!
# The Two Sifts

What `__pushup` and `__pushdown` do to a heap. Neither adds or removes a
timer, so both are a `Shuffle`: the same timers in the same number of slots,
with their back-pointers rewritten to match, and nothing else about any timer
changed. What distinguishes the two is the order they restore, and that part
is the library's: each round of a loop is one exchange, and an exchange moves
the hole in the heap order by one level.

Keeping the two halves apart is what makes the rest of the development short.
A caller that has just disturbed one slot has to say only on which side the
order is broken there, and gets back a heap that is ordered and holds what it
held.

## Main definitions

* `Member`: A timer stands in one of the heap's slots.
* `Positioned`: The back-pointers of the members are right.
* `Sorted`: No member is due before its parent.
* `Shuffle`: The same timers, rearranged.

## Theorems

* `swap_array`, `swap_key`: An exchange permutes the slots and their keys.
* `swap_shuffle`: An exchange of two members is a shuffle.
* `pushup_shuffle`, `pushup_sorted`: The upward sift.
* `pickChild_min`: `__pushdown` compares with an earliest child.
* `pushdown_shuffle`, `pushdown_sorted`: The downward sift.
-/

namespace SipPerf

namespace TmrHeap

open MachineInt BinaryHeap Slots

/-- The timer stands in one of the slots `array[0..count)`. -/
def Member (s : Store) (t : TmrPtr) : Prop := Occupies s.array s.count t

/-- Every member's `heap_idx` is its slot. -/
def Positioned (s : Store) : Prop := Tracked s.array (fun t => (s.tmr t).heapIdx) s.count

/-- Every member is due no earlier than the one in the parent slot. -/
def Sorted (s : Store) : Prop := Ordered s.key s.count

/-- The timer's handler, argument and deadline are what they were. -/
def SameFields (s s' : Store) (t : TmrPtr) : Prop :=
  (s'.tmr t).th = (s.tmr t).th ∧ (s'.tmr t).arg = (s.tmr t).arg ∧ (s'.tmr t).jfs = (s.tmr t).jfs

/-- The second heap is the first one rearranged: only the order of the slots
    and the back-pointers of the members may differ. -/
structure Shuffle (s s' : Store) : Prop where
  size : s'.size = s.size
  count : s'.count = s.count
  alloc : s'.alloc = s.alloc
  fields : ∀ t, SameFields s s' t
  member : ∀ t, Member s' t ↔ Member s t
  positioned : Positioned s → Positioned s'
  frame : ∀ t, ¬ Member s t → (s'.tmr t).heapIdx = (s.tmr t).heapIdx

theorem sameFields_trans (s s' s'' : Store) (t : TmrPtr) (h1 : SameFields s s' t)
    (h2 : SameFields s' s'' t) : SameFields s s'' t :=
  ⟨h2.1.trans h1.1, h2.2.1.trans h1.2.1, h2.2.2.trans h1.2.2⟩

theorem shuffle_refl (s : Store) : Shuffle s s :=
  ⟨rfl, rfl, rfl, fun _ => ⟨rfl, rfl, rfl⟩, fun _ => Iff.rfl, id, fun _ _ => rfl⟩

theorem shuffle_trans (s s' s'' : Store) (h1 : Shuffle s s') (h2 : Shuffle s' s'') :
    Shuffle s s'' := by
  refine ⟨h2.size.trans h1.size, h2.count.trans h1.count, h2.alloc.trans h1.alloc,
    fun t => sameFields_trans s s' s'' t (h1.fields t) (h2.fields t),
    fun t => (h2.member t).trans (h1.member t),
    fun h => h2.positioned (h1.positioned h), fun t ht => ?_⟩
  rw [h2.frame t (fun hc => ht ((h1.member t).mp hc)), h1.frame t ht]

/-! ## Exchanging two slots -/

theorem swap_array (s : Store) (i j : Nat) : (swap s i j).array = s.array ∘ Equiv.swap i j := by
  funext k
  simp only [swap, Store.setSlot, Store.setIdx, Function.comp_apply]
  by_cases hkj : k = j
  · rw [hkj, Function.update_self, Equiv.swap_apply_right]
  · rw [Function.update_of_ne hkj]
    by_cases hki : k = i
    · rw [hki, Function.update_self, Equiv.swap_apply_left]
    · rw [Function.update_of_ne hki, Equiv.swap_apply_of_ne_of_ne hki hkj]

/-- The second write wins when both slots hold the same timer. -/
theorem swap_tmr (s : Store) (i j : Nat) (t : TmrPtr) : (swap s i j).tmr t =
    if t = s.array i then { s.tmr t with heapIdx := (j : Int) }
    else if t = s.array j then { s.tmr t with heapIdx := (i : Int) } else s.tmr t := by
  simp only [swap, Store.setSlot, Store.setIdx, Function.update_self]
  by_cases hti : t = s.array i
  · rw [if_pos hti, hti, Function.update_self]
    by_cases hij : s.array i = s.array j
    · rw [← hij, Function.update_self]
    · rw [Function.update_of_ne hij]
  · rw [if_neg hti, Function.update_of_ne hti]
    by_cases htj : t = s.array j
    · rw [if_pos htj, htj, Function.update_self]
    · rw [if_neg htj, Function.update_of_ne htj]

theorem setIdx_fields (s : Store) (u : TmrPtr) (k : Int) (t : TmrPtr) :
    SameFields s (s.setIdx u k) t := by
  unfold SameFields Store.setIdx
  by_cases ht : t = u
  · simp only [ht, Function.update_self, and_self]
  · simp only [Function.update_of_ne ht, and_self]

theorem swap_fields (s : Store) (i j : Nat) (t : TmrPtr) : SameFields s (swap s i j) t :=
  sameFields_trans s _ _ t (setIdx_fields s _ i t) (setIdx_fields _ _ j t)

theorem swap_count (s : Store) (i j : Nat) : (swap s i j).count = s.count := rfl

theorem swap_key (s : Store) (i j : Nat) : (swap s i j).key = s.key ∘ Equiv.swap i j := by
  funext k
  simp only [Store.key, (swap_fields s i j _).2.2, swap_array, Function.comp_apply]

theorem swap_shuffle (s : Store) (i j : Nat) (hi : i < s.count) (hj : j < s.count) :
    Shuffle s (swap s i j) := by
  refine ⟨rfl, rfl, rfl, swap_fields s i j, fun t => ?_, fun h => ?_, fun t ht => ?_⟩
  · unfold Member
    rw [swap_array, swap_count]
    exact occupies_swap s.array s.count i j hi hj t
  · unfold Positioned
    rw [swap_array, swap_count]
    refine tracked_swap s.array _ _ s.count i j hi hj h ?_ ?_ (fun t hti htj => ?_)
    · simp only [swap_tmr, if_true]
    · -- Two slots holding the same timer are the same slot.
      by_cases hij : s.array j = s.array i
      · have hsame := tracked_inj s.array _ s.count j i h hj hi hij
        simp only [swap_tmr, hsame, if_true]
      · simp only [swap_tmr, if_neg hij, if_true]
    · simp only [swap_tmr, if_neg hti, if_neg htj]
  · -- Only the two timers that change places are written.
    have hti : t ≠ s.array i := fun hc => ht ⟨i, hi, hc.symm⟩
    have htj : t ≠ s.array j := fun hc => ht ⟨j, hj, hc.symm⟩
    rw [swap_tmr, if_neg hti, if_neg htj]

theorem keycompare_neg_iff (a b : Nat) : keycompare a b < 0 ↔ b < a := by
  unfold keycompare
  split
  · omega
  · split
    · omega
    · omega

/-! ## The upward sift -/

theorem pushup_shuffle (s : Store) (idx : Nat) (hidx : idx < s.count) :
    Shuffle s (pushup s idx).1 := by
  fun_induction pushup s idx with
  | case1 s => exact shuffle_refl s
  | case2 s idx h0 hstop => exact shuffle_refl s
  | case3 s idx h0 hgo ih =>
      have hp := parent_lt idx (Nat.pos_of_ne_zero h0)
      exact shuffle_trans s _ _ (swap_shuffle s idx (parent idx) hidx (by omega))
        (ih (by rw [swap_count]; omega))

theorem pushup_sorted (s : Store) (idx : Nat) (hidx : idx < s.count)
    (h : UpReady s.key s.count idx) : Sorted (pushup s idx).1 := by
  fun_induction pushup s idx with
  | case1 s => exact ordered_of_upReady s.key s.count 0 h (fun hc => absurd hc (by omega))
  | case2 s idx h0 hstop =>
      rw [keycompare_neg_iff] at hstop
      exact ordered_of_upReady s.key s.count idx h (fun _ => le_of_lt hstop)
  | case3 s idx h0 hgo ih =>
      rw [keycompare_neg_iff, not_lt] at hgo
      have hpos := Nat.pos_of_ne_zero h0
      have hp := parent_lt idx hpos
      -- The timer is due no later than its parent, so the hole moves up.
      refine ih (by rw [swap_count]; omega) ?_
      rw [swap_key, swap_count]
      exact upReady_swap s.key s.count idx h hpos hidx hgo

/-! ## The downward sift -/

/-- A position with no child in the heap is a leaf. -/
theorem pickChild_none (s : Store) (idx : Nat) (h : pickChild s idx = none) :
    ∀ j, 0 < j → j < s.count → parent j ≠ idx := by
  intro j hj hjc hp
  unfold pickChild childLeft childRight at h
  unfold parent at hp
  split at h
  · split at h
    · omega
    · exact absurd h (by simp only [reduceCtorEq, not_false_eq_true])
  · split at h
    · exact absurd h (by simp only [reduceCtorEq, not_false_eq_true])
    · exact absurd h (by simp only [reduceCtorEq, not_false_eq_true])

/-- The child `__pushdown` compares with is due no later than its sibling. -/
theorem pickChild_min (s : Store) (idx c : Nat) (h : pickChild s idx = some c) :
    ∀ j, 0 < j → j < s.count → parent j = idx → s.key c ≤ s.key j := by
  intro j hj hjc hp
  -- A position has two children, and the one picked is one of them.
  have hj2 : j = childLeft idx ∨ j = childRight idx := by
    unfold childLeft childRight
    unfold parent at hp
    omega
  unfold pickChild at h
  split at h
  · split at h
    · exact absurd h (by simp only [reduceCtorEq, not_false_eq_true])
    · simp only [Option.some.injEq] at h
      rcases hj2 with rfl | rfl
      · rw [h]
      · omega
  · split at h
    · next hlt =>
      rw [keycompare_neg_iff] at hlt
      simp only [Option.some.injEq] at h
      rcases hj2 with rfl | rfl
      · rw [← h]
        exact le_of_lt hlt
      · rw [h]
    · next hge =>
      rw [keycompare_neg_iff, not_lt] at hge
      simp only [Option.some.injEq] at h
      rcases hj2 with rfl | rfl
      · rw [h]
      · rw [← h]
        exact hge

theorem pushdown_shuffle (s : Store) (idx : Nat) : Shuffle s (pushdown s idx) := by
  fun_induction pushdown s idx with
  | case1 s idx hnone => exact shuffle_refl s
  | case2 s idx c hc hgo ih =>
      have hb := pickChild_bounds s idx c hc
      exact shuffle_trans s _ _ (swap_shuffle s idx c (by omega) hb.2.1) ih
  | case3 s idx c hc hstop => exact shuffle_refl s

theorem pushdown_sorted (s : Store) (idx : Nat) (h : DownReady s.key s.count idx) :
    Sorted (pushdown s idx) := by
  fun_induction pushdown s idx with
  | case1 s idx hnone =>
      exact ordered_of_downReady s.key s.count idx h
        (fun j hj hjc hp => absurd hp (pickChild_none s idx hnone j hj hjc))
  | case2 s idx c hc hgo ih =>
      rw [keycompare_neg_iff] at hgo
      have hb := pickChild_bounds s idx c hc
      -- The smaller child comes up, and the hole moves down to it.
      refine ih ?_
      rw [swap_key, swap_count]
      exact downReady_swap s.key s.count idx c h hb.1 hb.2.1 hb.2.2.1
        (pickChild_min s idx c hc) (le_of_lt hgo)
  | case3 s idx c hc hstop =>
      rw [keycompare_neg_iff, not_lt] at hstop
      exact ordered_of_downReady s.key s.count idx h
        (fun j hj hjc hp => le_trans hstop (pickChild_min s idx c hc j hj hjc hp))

end TmrHeap

end SipPerf
