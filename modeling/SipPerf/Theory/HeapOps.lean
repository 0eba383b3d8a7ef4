import Mathlib.Tactic.Set
import SipPerf.Theory.Sift

/-!
# What Each Heap Operation Does

One specification for each of `heap_offer`, `heap_poll` and
`heap_remove_item`. `Sound` is the representation invariant of the heap, and
`Becomes` is the shape all three specifications share: a sound heap holding a
stated set of timers, in which no timer's deadline, handler or argument has
changed and no back-pointer outside the old and the new set has been touched.

The two removals are the same move. Both put the last timer in the place of
the one that leaves and then sift, and they differ in where that place is and
in what they write to the timer that leaves. `Pulled` is the state between
the move and the sift. Neither writes a reliable `-1` there: when the timer
that leaves stands in the last slot it is also the timer that is moved, and
its back-pointer is written again. That is harmless to the heap, whose
invariant speaks of members only, and `Pulled` says nothing about it. What is
left in it is the subject of `heapRemoveItem_left` and `heapPoll_left`.

`heap_remove_item` sifts in one direction only, chosen by comparing the moved
timer with its new parent. At the root the parent is the root itself and the
comparison is with the timer's own deadline, so the sift is downward, as it
has to be.

## Main definitions

* `Sound`: The representation invariant of the heap.
* `Becomes`: A sound heap with a stated set of members.
* `Pulled`: A slot has been overwritten by the last timer.
* `Drops`: One timer has been taken out.
* `HasRoom`: The array has a free slot, or can be given one.

## Theorems

* `heapNew_sound`: A new heap is sound and empty.
* `heapPeek_min`: Peeking returns an earliest member.
* `touch_sound`: Members must keep their deadlines and back-pointers.
* `heapOffer_becomes`: Offering a timer adds it.
* `heapRemoveItem_drops`: Removing a member takes out that member.
* `heapPoll_drops`: Polling takes out the root.
* `heapRemoveItem_left`, `heapPoll_left`: The back-pointer of the timer that
  has left.
-/

namespace SipPerf

namespace TmrHeap

open MachineInt BinaryHeap Slots

/-- The representation invariant: back-pointers, order, and a capacity that
    is really there. -/
structure Sound (s : Store) : Prop where
  positioned : Positioned s
  sorted : Sorted s
  size_pos : 0 < s.size
  count_le : s.count ≤ s.size
  size_le : s.size ≤ s.alloc
  size_lt : s.size < 2 ^ 32

/-- The second heap is sound and holds the timers of `M`; nothing but slots
    and back-pointers of old and new members has changed. -/
structure Becomes (s s' : Store) (M : TmrPtr → Prop) : Prop where
  sound : Sound s'
  member : ∀ t, Member s' t ↔ M t
  fields : ∀ t, SameFields s s' t
  frame : ∀ t, ¬ Member s t → ¬ M t → (s'.tmr t).heapIdx = (s.tmr t).heapIdx

theorem heapNew_sound (array : Nat → TmrPtr) (tmr : TmrPtr → Tmr) :
    Sound (heapNew array tmr) ∧ ∀ t, ¬ Member (heapNew array tmr) t := by
  refine ⟨⟨fun i hi => ?_, fun i _ hi => ?_, Nat.succ_pos _, Nat.zero_le _, le_refl _, ?_⟩, ?_⟩
  · exact absurd hi (Nat.not_lt_zero i)
  · exact absurd hi (Nat.not_lt_zero i)
  · simp only [heapNew, defaultCapacity]
    omega
  · rintro t ⟨i, hi, _⟩
    exact absurd hi (Nat.not_lt_zero i)

/-- A member stands in the slot its `heap_idx` names. -/
theorem member_at_heapIdx (s : Store) (hs : Positioned s) (t : TmrPtr) (ht : Member s t) :
    ∃ i, i < s.count ∧ s.array i = t ∧ (s.tmr t).heapIdx = i := by
  rcases ht with ⟨i, hi, rfl⟩
  exact ⟨i, hi, rfl, hs i hi⟩

theorem heapPeek_eq_none (s : Store) : heapPeek s = none ↔ ∀ t, ¬ Member s t := by
  unfold heapPeek
  split
  · next h0 =>
    refine ⟨fun _ t ⟨i, hi, _⟩ => by omega, fun _ => rfl⟩
  · next h0 =>
    refine ⟨fun h => absurd h (by simp only [reduceCtorEq, not_false_eq_true]), fun h => ?_⟩
    exact absurd ⟨0, Nat.pos_of_ne_zero h0, rfl⟩ (h (s.array 0))

theorem heapPeek_min (s : Store) (hs : Sound s) (t : TmrPtr) (h : heapPeek s = some t) :
    Member s t ∧ ∀ u, Member s u → (s.tmr t).jfs ≤ (s.tmr u).jfs := by
  unfold heapPeek at h
  split at h
  · exact absurd h (by simp only [reduceCtorEq, not_false_eq_true])
  · next h0 =>
    simp only [Option.some.injEq] at h
    rw [← h]
    refine ⟨⟨0, Nat.pos_of_ne_zero h0, rfl⟩, ?_⟩
    rintro u ⟨i, hi, rfl⟩
    exact ordered_root_le s.key s.count hs.sorted i hi

/-- Rewriting the timers keeps the heap when the members keep their deadlines
    and back-pointers. -/
theorem touch_sound (s : Store) (hs : Sound s) (tmr : TmrPtr → Tmr)
    (h : ∀ t, Member s t → (tmr t).jfs = (s.tmr t).jfs ∧ (tmr t).heapIdx = (s.tmr t).heapIdx) :
    Sound { s with tmr := tmr } := by
  refine ⟨fun i hi => ?_, fun i hi hin => ?_, hs.size_pos, hs.count_le, hs.size_le, hs.size_lt⟩
  · change (tmr (s.array i)).heapIdx = i
    rw [(h (s.array i) ⟨i, hi, rfl⟩).2]
    exact hs.positioned i hi
  · -- Both ends of an edge are members, and keep their keys.
    change i < s.count at hin
    have hp := parent_lt i hi
    change (tmr (s.array (parent i))).jfs ≤ (tmr (s.array i)).jfs
    rw [(h _ ⟨parent i, by omega, rfl⟩).1, (h _ ⟨i, hin, rfl⟩).1]
    exact hs.sorted i hi hin

/-! ## Adding a timer -/

/-- The array has a free slot, or its doubled capacity is still an
    `unsigned int`. -/
def HasRoom (s : Store) : Prop := s.count < s.size ∨ s.size * 2 < 2 ^ 32

/-- A capacity that could be ensured leaves the heap as it was, with a free
    slot. -/
theorem ensurecapacity_ok (s : Store) (hs : Sound s) (hroom : HasRoom s) :
    (ensurecapacity s true).2 = 0 ∧ Sound (ensurecapacity s true).1 ∧
      (ensurecapacity s true).1.count = s.count ∧ (ensurecapacity s true).1.array = s.array ∧
      (ensurecapacity s true).1.tmr = s.tmr ∧ s.count < (ensurecapacity s true).1.size := by
  unfold ensurecapacity
  by_cases hlt : s.count < s.size
  · rw [if_pos hlt]
    exact ⟨rfl, hs, rfl, rfl, rfl, hlt⟩
  · have hdouble : u32 (s.size * 2) = s.size * 2 := by
      refine u32_of_lt _ ?_
      rcases hroom with h | h
      · exact absurd h hlt
      · exact h
    have hle := hs.count_le
    have hpos := hs.size_pos
    rw [if_neg hlt]
    simp only [if_true, hdouble]
    refine ⟨trivial, ⟨hs.positioned, hs.sorted, ?_, ?_, le_refl _, ?_⟩, trivial, trivial,
      trivial, ?_⟩
    · change 0 < s.size * 2
      omega
    · change s.count ≤ s.size * 2
      omega
    · change s.size * 2 < 2 ^ 32
      rcases hroom with h | h
      · exact absurd h hlt
      · exact h
    · omega

theorem offerx_becomes (s : Store) (hs : Sound s) (item : TmrPtr) (hnew : ¬ Member s item)
    (hroom : s.count < s.size) :
    Becomes s (offerx s item) (fun t => Member s t ∨ t = item) ∧
      (offerx s item).count = s.count + 1 ∧ (offerx s item).size = s.size := by
  have hlt := hs.size_lt
  have hcount : u32 (s.count + 1) = s.count + 1 := u32_of_lt _ (by omega)
  -- The heap with the timer in its new slot, before the sift.
  set s1 : Store := { (s.setIdx item s.count).setSlot s.count item with
    count := s.count + 1 } with hs1
  have hoffer : offerx s item = (pushup s1 s.count).1 := by
    rw [hs1, ← hcount]
    rfl
  have hslot : ∀ i, i < s.count → s1.array i = s.array i := fun i hi => by
    simp only [hs1, Store.setSlot, Store.setIdx]
    exact Function.update_of_ne (by omega) _ _
  have hlast : s1.array s.count = item := by
    simp only [hs1, Store.setSlot, Store.setIdx, Function.update_self]
  have hself : (s1.tmr item).heapIdx = s.count := by
    simp only [hs1, Store.setSlot, Store.setIdx, Function.update_self]
  have hother : ∀ t, t ≠ item → s1.tmr t = s.tmr t := fun t ht => by
    simp only [hs1, Store.setSlot, Store.setIdx]
    exact Function.update_of_ne ht _ _
  -- The timer is new, so writing it touches no timer in the heap.
  have hne : ∀ i, i < s.count → s.array i ≠ item := fun i hi hc => hnew ⟨i, hi, hc⟩
  have hmem : ∀ t, Member s1 t ↔ Member s t ∨ t = item := by
    intro t
    have hpush := occupies_push s.array s1.array s.count hslot t
    rw [hlast] at hpush
    exact hpush
  have hpos1 : Positioned s1 := by
    refine tracked_push s.array s1.array _ _ s.count hs.positioned hslot ?_ (fun i hi => ?_)
    · rw [hlast, hself]
    · rw [hother _ (hne i hi)]
  have hkey : ∀ i, i < s.count → s1.key i = s.key i := fun i hi => by
    simp only [Store.key, hslot i hi, hother _ (hne i hi)]
  -- The old edges are in order, and the new one is the hole of the sift.
  have hready : UpReady s1.key s1.count s.count := by
    refine upReady_append s1.key s.count (fun i hi hin => ?_)
    have hp := parent_lt i hi
    rw [hkey i hin, hkey (parent i) (by omega)]
    exact hs.sorted i hi hin
  have hc1 : s1.count = s.count + 1 := rfl
  have hsh := pushup_shuffle s1 s.count (by omega)
  rw [hoffer]
  refine ⟨⟨⟨hsh.positioned hpos1, pushup_sorted s1 s.count (by omega) hready, ?_, ?_, ?_, ?_⟩,
    fun t => (hsh.member t).trans (hmem t), fun t => ?_, fun t ht hM => ?_⟩, ?_, ?_⟩
  · rw [hsh.size]
    exact hs.size_pos
  · rw [hsh.count, hsh.size]
    exact hroom
  · rw [hsh.size, hsh.alloc]
    exact hs.size_le
  · rw [hsh.size]
    exact hlt
  · exact sameFields_trans s s1 _ t (setIdx_fields s item s.count t) (hsh.fields t)
  · rw [hsh.frame t (fun hc => hM ((hmem t).mp hc)), hother t (fun hc => hM (Or.inr hc))]
  · rw [hsh.count]
  · rw [hsh.size]
    rfl

theorem heapOffer_becomes (s : Store) (hs : Sound s) (item : TmrPtr) (hnew : ¬ Member s item)
    (hroom : HasRoom s) :
    Becomes s (heapOffer s item true).1 (fun t => Member s t ∨ t = item) ∧
      (heapOffer s item true).2 = 0 ∧ (heapOffer s item true).1.count = s.count + 1 ∧
      (heapOffer s item true).1.size = if s.count < s.size then s.size else s.size * 2 := by
  rcases ensurecapacity_ok s hs hroom with ⟨hok, hsound, hcount, harray, htmr, hlt⟩
  have hsize : (ensurecapacity s true).1.size = if s.count < s.size then s.size else s.size * 2 := by
    unfold ensurecapacity
    by_cases hlt' : s.count < s.size
    · rw [if_pos hlt', if_pos hlt']
    · rw [if_neg hlt', if_neg hlt']
      rcases hroom with h | h
      · exact absurd h hlt'
      · simp only [if_true, u32_of_lt _ h]
  -- The heap after growing, which is the same heap in a longer array.
  set s1 := (ensurecapacity s true).1 with hs1
  have hmem1 : ∀ t, Member s1 t ↔ Member s t := fun t => by
    unfold Member
    rw [harray, hcount]
  have hoffer : heapOffer s item true = (offerx s1 item, 0) := by
    simp only [heapOffer, hok, ne_eq, not_true_eq_false, if_false, hs1]
  rcases offerx_becomes s1 hsound item (fun hc => hnew ((hmem1 item).mp hc))
    (by rw [hcount]; exact hlt) with ⟨hb, hbc, hbs⟩
  rw [hoffer]
  refine ⟨⟨hb.sound, fun t => ?_, fun t => ?_, fun t ht hM => ?_⟩, rfl, ?_, ?_⟩
  · rw [hb.member t, hmem1 t]
  · have hf := hb.fields t
    unfold SameFields at hf ⊢
    rw [htmr] at hf
    exact hf
  · rw [hb.frame t (fun hc => ht ((hmem1 t).mp hc)) (by rw [hmem1 t]; exact hM), htmr]
  · rw [hbc, hcount]
  · rw [hbs, hsize]

/-! ## Taking a timer out -/

/-- Slot `i` has been overwritten by the last timer, and the last slot given
    up. Nothing is said about the back-pointer of the timer that left. -/
structure Pulled (s s1 : Store) (i : Nat) : Prop where
  size : s1.size = s.size
  alloc : s1.alloc = s.alloc
  count : s1.count + 1 = s.count
  fields : ∀ t, SameFields s s1 t
  move : i < s1.count → s1.array i = s.array s1.count
  keep : ∀ j, j < s1.count → j ≠ i → s1.array j = s.array j
  moved : i < s1.count → (s1.tmr (s.array s1.count)).heapIdx = i
  frame : ∀ t, t ≠ s.array s1.count → t ≠ s.array i → (s1.tmr t).heapIdx = (s.tmr t).heapIdx

/-- One timer has been taken out of the heap, within the same array. -/
def Drops (s s' : Store) (t : TmrPtr) : Prop :=
  Becomes s s' (fun u => Member s u ∧ u ≠ t) ∧ s'.size = s.size ∧ s'.count ≤ s.count

theorem pulled_positioned (s s1 : Store) (i : Nat) (h : Pulled s s1 i) (hs : Positioned s)
    (hi : i < s.count) : Positioned s1 := by
  have hc := h.count
  refine tracked_pull s.array s1.array _ _ s1.count i (by omega) ?_ h.move h.keep h.moved h.frame
  rw [hc]
  exact hs

theorem pulled_member (s s1 : Store) (i : Nat) (h : Pulled s s1 i) (hs : Positioned s)
    (hi : i < s.count) (t : TmrPtr) : Member s1 t ↔ Member s t ∧ t ≠ s.array i := by
  have hc := h.count
  have hpull := occupies_pull s.array s1.array (fun t => (s.tmr t).heapIdx) s1.count i (by omega)
    (by rw [hc]; exact hs) h.move h.keep t
  rw [hc] at hpull
  exact hpull

theorem pulled_key (s s1 : Store) (i : Nat) (h : Pulled s s1 i) :
    ∀ j, j ≠ i → j < s1.count → s1.key j = s.key j := by
  intro j hji hj
  simp only [Store.key, h.keep j hj hji, (h.fields _).2.2]

/-- Any rearrangement that sorts a pulled heap completes the removal. -/
theorem pulled_drops (s s1 s2 : Store) (i : Nat) (h : Pulled s s1 i) (hs : Sound s)
    (hi : i < s.count) (hsh : Shuffle s1 s2) (hsorted : Sorted s2) :
    Drops s s2 (s.array i) := by
  have hc := h.count
  have hle := hs.count_le
  -- The sift rearranges the members, so it is enough to know them before it.
  have hmem := pulled_member s s1 i h hs.positioned hi
  refine ⟨⟨⟨hsh.positioned (pulled_positioned s s1 i h hs.positioned hi), hsorted, ?_, ?_, ?_,
    ?_⟩, fun t => (hsh.member t).trans (hmem t), fun t => ?_, fun t ht _ => ?_⟩,
    hsh.size.trans h.size, by rw [hsh.count]; omega⟩
  · rw [hsh.size, h.size]
    exact hs.size_pos
  · rw [hsh.count, hsh.size, h.size]
    omega
  · rw [hsh.size, hsh.alloc, h.size, h.alloc]
    exact hs.size_le
  · rw [hsh.size, h.size]
    exact hs.size_lt
  · exact sameFields_trans s s1 s2 t (h.fields t) (hsh.fields t)
  · rw [hsh.frame t (fun hc' => ht ((hmem t).mp hc').1)]
    exact h.frame t (fun hc' => ht ⟨s1.count, by omega, hc'.symm⟩)
      (fun hc' => ht ⟨i, hi, hc'.symm⟩)

/-- The downward sift completes a removal when the moved timer is not due
    before its new parent. -/
theorem pulled_pushdown (s s1 : Store) (i : Nat) (h : Pulled s s1 i) (hs : Sound s)
    (hi : i < s.count) (hge : 0 < i → i < s1.count → s1.key (parent i) ≤ s1.key i) :
    Drops s (pushdown s1 i) (s.array i) := by
  refine pulled_drops s s1 _ i h hs hi (pushdown_shuffle s1 i) (pushdown_sorted s1 i ?_)
  refine downReady_replace s.key s1.key s1.count i ?_ (pulled_key s s1 i h) hge
  rw [h.count]
  exact hs.sorted

theorem pulled_pushup (s s1 : Store) (i : Nat) (h : Pulled s s1 i) (hs : Sound s)
    (hi0 : 0 < i) (hi : i < s1.count) (hlt : s1.key i ≤ s1.key (parent i)) :
    Drops s (pushup s1 i).1 (s.array i) := by
  have hc := h.count
  refine pulled_drops s s1 _ i h hs (by omega) (pushup_shuffle s1 i hi)
    (pushup_sorted s1 i hi ?_)
  refine upReady_replace s.key s1.key s1.count i ?_ (pulled_key s s1 i h) hi0 hi hlt
  rw [hc]
  exact hs.sorted

/-- With nothing left to sift, a pulled heap is already sorted. -/
theorem pulled_last (s s1 : Store) (i : Nat) (h : Pulled s s1 i) (hs : Sound s)
    (hi : i = s1.count) : Drops s s1 (s.array i) := by
  have hc := h.count
  -- The heap is a beginning of the old one, and so are its edges.
  refine pulled_drops s s1 s1 i h hs (by omega) (shuffle_refl s1) (fun j hj hjn => ?_)
  have hp := parent_lt j hj
  have hkey := pulled_key s s1 i h
  rw [hkey j (by omega) hjn, hkey (parent j) (by omega) (by omega)]
  exact hs.sorted j hj (by omega)

/-- Both removals write the same two back-pointers in the same order, the one
    of the timer that leaves and the one of the timer that moves, and leave
    the slots below the last one as the move makes them. -/
theorem pulled_of_writes (s s1 : Store) (i : Nat) (hi : i < s.count) (hsize : s1.size = s.size)
    (halloc : s1.alloc = s.alloc) (hcount : s1.count = s.count - 1)
    (htmr : s1.tmr = ((s.setIdx (s.array i) (-1)).setIdx (s.array (s.count - 1)) i).tmr)
    (hslot : ∀ j, j < s.count - 1 →
      s1.array j = if j = i then s.array (s.count - 1) else s.array j) : Pulled s s1 i := by
  refine ⟨hsize, halloc, by omega, fun t => ?_, fun h => ?_, fun j hj hji => ?_, fun h => ?_,
    fun t htl hti => ?_⟩
  · unfold SameFields
    rw [htmr]
    exact sameFields_trans s _ _ t (setIdx_fields s _ (-1) t) (setIdx_fields _ _ i t)
  · rw [hslot i (by omega), if_pos rfl, hcount]
  · rw [hslot j (by omega), if_neg hji]
  · rw [htmr, hcount]
    simp only [Store.setIdx, Function.update_self]
  · rw [hcount] at htl
    rw [htmr]
    simp only [Store.setIdx]
    rw [Function.update_of_ne htl, Function.update_of_ne hti]

/-- The timer that has left a pulled heap is out of reach of the sift, and
    keeps the back-pointer the two writes have left it with. -/
theorem pulled_left (s s1 s2 : Store) (i : Nat) (h : Pulled s s1 i) (hs : Positioned s)
    (hi : i < s.count)
    (htmr : s1.tmr = ((s.setIdx (s.array i) (-1)).setIdx (s.array (s.count - 1)) i).tmr)
    (hsh : Shuffle s1 s2) :
    (s2.tmr (s.array i)).heapIdx = if i + 1 = s.count then (i : Int) else -1 := by
  rw [hsh.frame (s.array i) (fun hc => ((pulled_member s s1 i h hs hi _).mp hc).2 rfl), htmr]
  by_cases hlast : i + 1 = s.count
  · have heq : i = s.count - 1 := by omega
    rw [if_pos hlast, ← heq]
    simp only [Store.setIdx, Function.update_self]
  · -- The two slots hold different timers.
    have hne : s.array i ≠ s.array (s.count - 1) := fun hc => by
      have hij := tracked_inj s.array _ s.count i (s.count - 1) hs hi (by omega) hc
      omega
    rw [if_neg hlast]
    simp only [Store.setIdx]
    rw [Function.update_of_ne hne, Function.update_self]

/-- The heap between the move and the sift of `heap_remove_item`. -/
theorem heapRemoveItem_pulled (s : Store) (hs : Sound s) (item : TmrPtr) (i : Nat)
    (hi : i < s.count) (hitem : s.array i = item) (hidx : (s.tmr item).heapIdx = i) :
    ∃ s1, Pulled s s1 i ∧
      s1.tmr = ((s.setIdx (s.array i) (-1)).setIdx (s.array (s.count - 1)) i).tmr ∧
      heapRemoveItem s item =
        if i ≠ s1.count then
          if s1.key i ≥ s1.key (parent i) then pushdown s1 i else (pushup s1 i).1
        else s1 := by
  have hle := hs.count_le
  have hlt := hs.size_lt
  have hlast : dec32 s.count = s.count - 1 := dec32_of_pos _ (by omega) (by omega)
  set s1 : Store := { (((s.setIdx item (-1)).setSlot i (s.array (s.count - 1))).setIdx
    (s.array (s.count - 1)) i).setSlot (s.count - 1) deadBeef with count := s.count - 1 } with hs1
  have htmr : s1.tmr = ((s.setIdx (s.array i) (-1)).setIdx (s.array (s.count - 1)) i).tmr := by
    rw [hitem]
    rfl
  refine ⟨s1, pulled_of_writes s s1 i hi rfl rfl rfl htmr (fun j hj => ?_), htmr, ?_⟩
  · simp only [hs1, Store.setSlot, Store.setIdx]
    rw [Function.update_of_ne (by omega)]
    by_cases hji : j = i
    · rw [if_pos hji, hji, Function.update_self]
    · rw [if_neg hji, Function.update_of_ne hji]
  · have hne : ¬ ((i : Int) = -1) := by omega
    simp only [heapRemoveItem, hidx, if_neg hne, Int.toNat_natCast, hs1, Store.setIdx,
      Store.setSlot, hlast, Function.update_self]

theorem heapRemoveItem_drops (s : Store) (hs : Sound s) (item : TmrPtr) (hm : Member s item) :
    Drops s (heapRemoveItem s item) item := by
  rcases member_at_heapIdx s hs.positioned item hm with ⟨i, hi, hitem, hidx⟩
  rcases heapRemoveItem_pulled s hs item i hi hitem hidx with ⟨s1, hp, _, hrun⟩
  have hc1 := hp.count
  rw [hrun, ← hitem]
  -- The direction of the sift is chosen by comparing with the parent.
  by_cases hil : i = s1.count
  · rw [if_neg (not_not.mpr hil)]
    exact pulled_last s s1 i hp hs hil
  · rw [if_pos hil]
    by_cases hge : s1.key i ≥ s1.key (parent i)
    · rw [if_pos hge]
      exact pulled_pushdown s s1 i hp hs hi (fun _ _ => hge)
    · -- The root is its own parent, so a timer before its parent is no root.
      rw [if_neg hge]
      rw [ge_iff_le, not_le] at hge
      have hi0 : 0 < i := by
        rcases Nat.eq_zero_or_pos i with h0 | h0
        · rw [h0] at hge
          exact absurd hge (lt_irrefl _)
        · exact h0
      exact pulled_pushup s s1 i hp hs hi0 (by omega) (le_of_lt hge)

/-- The sift of `heap_remove_item` rearranges what the move has left. -/
theorem heapRemoveItem_shuffle (s : Store) (hs : Sound s) (item : TmrPtr) (i : Nat)
    (hi : i < s.count) (hitem : s.array i = item) (hidx : (s.tmr item).heapIdx = i) :
    ∃ s1, Pulled s s1 i ∧
      s1.tmr = ((s.setIdx (s.array i) (-1)).setIdx (s.array (s.count - 1)) i).tmr ∧
      Shuffle s1 (heapRemoveItem s item) := by
  rcases heapRemoveItem_pulled s hs item i hi hitem hidx with ⟨s1, hp, htmr, hrun⟩
  have hc1 := hp.count
  refine ⟨s1, hp, htmr, ?_⟩
  rw [hrun]
  split
  · split
    · exact pushdown_shuffle s1 i
    · exact pushup_shuffle s1 i (by omega)
  · exact shuffle_refl s1

theorem heapRemoveItem_count (s : Store) (hs : Sound s) (item : TmrPtr) (hm : Member s item) :
    (heapRemoveItem s item).count + 1 = s.count := by
  rcases member_at_heapIdx s hs.positioned item hm with ⟨i, hi, hitem, hidx⟩
  rcases heapRemoveItem_shuffle s hs item i hi hitem hidx with ⟨s1, hp, _, hsh⟩
  rw [hsh.count]
  exact hp.count

/-- A removed timer is marked as outside the heap, unless it was in the last
    slot: then it keeps its position. -/
theorem heapRemoveItem_left (s : Store) (hs : Sound s) (item : TmrPtr) (i : Nat)
    (hi : i < s.count) (hitem : s.array i = item) (hidx : (s.tmr item).heapIdx = i) :
    ((heapRemoveItem s item).tmr item).heapIdx = if i + 1 = s.count then (i : Int) else -1 := by
  rcases heapRemoveItem_shuffle s hs item i hi hitem hidx with ⟨s1, hp, htmr, hsh⟩
  rw [← pulled_left s s1 _ i hp hs.positioned hi htmr hsh, hitem]

/-- The heap with the last timer at the root, before the sift of
    `heap_poll`. -/
theorem heapPoll_pulled (s : Store) (hs : Sound s) (hne : s.count ≠ 0) :
    ∃ s1, Pulled s s1 0 ∧
      s1.tmr = ((s.setIdx (s.array 0) (-1)).setIdx (s.array (s.count - 1)) (0 : Nat)).tmr ∧
      heapPoll s =
        if s1.count > 1 then (pushdown s1 0, some (s.array 0)) else (s1, some (s.array 0)) := by
  have hle := hs.count_le
  have hlt := hs.size_lt
  have hlast : dec32 s.count = s.count - 1 := dec32_of_pos _ (by omega) (by omega)
  set s1 : Store := { ((s.setIdx (s.array 0) (-1)).setSlot 0 (s.array (s.count - 1))).setIdx
    (s.array (s.count - 1)) 0 with count := s.count - 1 } with hs1
  refine ⟨s1, pulled_of_writes s s1 0 (by omega) rfl rfl rfl rfl (fun j hj => ?_), rfl, ?_⟩
  · simp only [hs1, Store.setSlot, Store.setIdx]
    by_cases hj0 : j = 0
    · rw [if_pos hj0, hj0, Function.update_self]
    · rw [if_neg hj0, Function.update_of_ne hj0]
  · simp only [heapPoll, if_neg hne, hs1, Store.setIdx, Store.setSlot, hlast,
      Function.update_self]

theorem heapPoll_drops (s : Store) (hs : Sound s) (hne : s.count ≠ 0) :
    (heapPoll s).2 = some (s.array 0) ∧ Drops s (heapPoll s).1 (s.array 0) := by
  rcases heapPoll_pulled s hs hne with ⟨s1, hp, _, hrun⟩
  have hc1 := hp.count
  rw [hrun]
  -- The root is removed, so the sift can only go down.
  by_cases hgt : s1.count > 1
  · rw [if_pos hgt]
    exact ⟨rfl, pulled_pushdown s s1 0 hp hs (by omega) (fun h0 => absurd h0 (by omega))⟩
  · -- A heap of at most one timer has no edge to mend.
    rw [if_neg hgt]
    refine ⟨rfl, pulled_drops s s1 s1 0 hp hs (by omega) (shuffle_refl s1) (fun j hj hjn => ?_)⟩
    omega

/-- A polled timer is marked as outside the heap, unless it was alone. -/
theorem heapPoll_left (s : Store) (hs : Sound s) (hne : s.count ≠ 0) :
    ((heapPoll s).1.tmr (s.array 0)).heapIdx = if s.count = 1 then 0 else -1 := by
  rcases heapPoll_pulled s hs hne with ⟨s1, hp, htmr, hrun⟩
  have hsh : Shuffle s1 (heapPoll s).1 := by
    rw [hrun]
    split
    · exact pushdown_shuffle s1 0
    · exact shuffle_refl s1
  rw [pulled_left s s1 _ 0 hp hs.positioned (Nat.pos_of_ne_zero hne) htmr hsh]
  by_cases hone : s.count = 1
  · rw [if_pos hone, if_pos (by omega)]
    rfl
  · rw [if_neg hone, if_neg (by omega)]

end TmrHeap

end SipPerf
