import Mathlib.Data.Finset.Card
import SipPerf.Lib.Transition
import SipPerf.Theory.HeapOps

/-!
# The Timer Heap as a Priority Queue

The heap seen from outside. A caller of `tmr_heap.c` thinks of a set of
timers ordered by deadline, from which it may take an earliest one or any one
it names. `heapStep` runs the operations on the heap and keeps that set
beside it, changed only by what the operations answer: an offered timer is
added, a polled timer is the one that was returned, a removed timer is the
one that was named. The heap refines the set if the two agree after every
sequence of operations.

Between operations the rest of the program owns the timers. It may rewrite
them as it likes, timers outside the heap entirely and members except for
their deadline and their `heap_idx`, and `touch` is one such rewriting. The
sequences of operations are those the callers are held to: a timer is offered
when it is not in the heap, removed by name when it is, and there are fewer
than `2 ^ 30` members.

That last bound is what makes the heap's own integers safe. It keeps the
capacity and every index that the sifts compute inside the range of an
`int`, and `heap_refines_priority_queue` says so beside the refinement.

## Main definitions

* `HeapOp`: An operation on the heap, or a rewriting of the timers.
* `heapStep`: One operation, with the set of timers it should leave.
* `Represents`: A sound heap holds a given set.

## Theorems

* `card_of_represents`: The heap's count is the size of the set.
* `heapStep_represents`: Every operation keeps the heap in step with the set.
* `heap_refines_priority_queue`: The refinement, after any operations.
-/

namespace SipPerf

namespace TmrHeap

open MachineInt BinaryHeap Slots Transition

/-- An operation on the heap, or a change to the timers made elsewhere. -/
inductive HeapOp where
  | offer (t : TmrPtr)
  | poll
  | remove (t : TmrPtr)
  | touch (tmr : TmrPtr → Tmr)

/-- One operation of the heap, beside the set of timers offered and not yet
    taken out. Operations a caller may not make have no step. -/
def heapStep : Store × Finset TmrPtr → HeapOp → Option (Store × Finset TmrPtr)
  | (s, M), .offer t =>
      if t ∉ M ∧ M.card + 1 < 2 ^ 30 then some ((heapOffer s t true).1, insert t M) else none
  | (s, M), .poll =>
      match heapPoll s with
      | (s', none) => some (s', M)
      | (s', some t) => some (s', M.erase t)
  | (s, M), .remove t =>
      if t ∈ M then some (heapRemoveItem s t, M.erase t) else none
  | (s, M), .touch tmr =>
      if ∀ t ∈ M, (tmr t).jfs = (s.tmr t).jfs ∧ (tmr t).heapIdx = (s.tmr t).heapIdx then
        some ({ s with tmr := tmr }, M)
      else none

/-- The heap is sound and its slots hold the timers of the set. The bounds
    are the ones an `int` index needs. -/
structure Represents (s : Store) (M : Finset TmrPtr) : Prop where
  sound : Sound s
  member : ∀ t, Member s t ↔ t ∈ M
  card_lt : M.card < 2 ^ 30
  size_lt : s.size < 2 ^ 31

/-- The slots enumerate the set, each timer once. -/
theorem card_of_represents (s : Store) (M : Finset TmrPtr) (hs : Positioned s)
    (hm : ∀ t, Member s t ↔ t ∈ M) : M.card = s.count := by
  -- The slots are an image of the positions, and no two of them agree.
  have himage : M = (Finset.range s.count).image s.array := by
    ext t
    rw [← hm t, Finset.mem_image]
    refine ⟨fun ⟨i, hi, hit⟩ => ⟨i, Finset.mem_range.mpr hi, hit⟩, fun ⟨i, hi, hit⟩ => ?_⟩
    exact ⟨i, Finset.mem_range.mp hi, hit⟩
  rw [himage, Finset.card_image_of_injOn, Finset.card_range]
  intro i hi j hj hij
  exact tracked_inj s.array _ s.count i j hs (Finset.mem_range.mp hi) (Finset.mem_range.mp hj) hij

theorem heapNew_represents (array : Nat → TmrPtr) (tmr : TmrPtr → Tmr) :
    Represents (heapNew array tmr) ∅ := by
  rcases heapNew_sound array tmr with ⟨hs, hm⟩
  refine ⟨hs, fun t => ?_, ?_, ?_⟩
  · exact ⟨fun h => absurd h (hm t), fun h => absurd h (Finset.notMem_empty t)⟩
  · simp only [Finset.card_empty]
    omega
  · simp only [heapNew, defaultCapacity]
    omega

theorem offer_represents (s : Store) (M : Finset TmrPtr) (h : Represents s M) (t : TmrPtr)
    (hnew : t ∉ M) (hcard : M.card + 1 < 2 ^ 30) :
    Represents (heapOffer s t true).1 (insert t M) := by
  have hcount := card_of_represents s M h.sound.positioned h.member
  have hle := h.sound.count_le
  have hsize := h.size_lt
  -- A full array has at most as many slots as there are members.
  have hroom : HasRoom s := by
    by_cases hlt : s.count < s.size
    · exact Or.inl hlt
    · exact Or.inr (by omega)
  rcases heapOffer_becomes s h.sound t (fun hc => hnew ((h.member t).mp hc)) hroom with
    ⟨hb, _, _, hs'⟩
  refine ⟨hb.sound, fun u => ?_, ?_, ?_⟩
  · rw [hb.member u, h.member u, Finset.mem_insert, or_comm]
  · rw [Finset.card_insert_of_notMem hnew]
    exact hcard
  · rw [hs']
    split
    · exact hsize
    · omega

/-- Taking one member out, however it is done, leaves the set without it. -/
theorem drops_represents (s s' : Store) (M : Finset TmrPtr) (h : Represents s M) (t : TmrPtr)
    (hd : Drops s s' t) : Represents s' (M.erase t) := by
  rcases hd with ⟨hb, hsize, _⟩
  refine ⟨hb.sound, fun u => ?_, ?_, ?_⟩
  · rw [hb.member u, h.member u, Finset.mem_erase, and_comm]
  · exact lt_of_le_of_lt (Finset.card_erase_le) h.card_lt
  · rw [hsize]
    exact h.size_lt

theorem heapPoll_empty (s : Store) (h : s.count = 0) : heapPoll s = (s, none) := by
  rw [heapPoll, if_pos h]

/-- Every operation keeps the heap in step with the set beside it. -/
theorem heapStep_represents (x : Store × Finset TmrPtr) (op : HeapOp) (x' : Store × Finset TmrPtr)
    (h : Represents x.1 x.2) (hstep : heapStep x op = some x') : Represents x'.1 x'.2 := by
  rcases x with ⟨s, M⟩
  cases op with
  | offer t =>
      simp only [heapStep] at hstep
      by_cases hok : t ∉ M ∧ M.card + 1 < 2 ^ 30
      · rw [if_pos hok, Option.some.injEq] at hstep
        rw [← hstep]
        exact offer_represents s M h t hok.1 hok.2
      · rw [if_neg hok] at hstep
        exact absurd hstep (by simp only [reduceCtorEq, not_false_eq_true])
  | poll =>
      by_cases h0 : s.count = 0
      · simp only [heapStep, heapPoll_empty s h0, Option.some.injEq] at hstep
        rw [← hstep]
        exact h
      · rcases heapPoll_drops s h.sound h0 with ⟨hret, hd⟩
        -- What is polled is the root, so the set loses the timer that is there.
        have heq : heapPoll s = ((heapPoll s).1, some (s.array 0)) := by rw [← hret]
        simp only [heapStep] at hstep
        rw [heq] at hstep
        simp only [Option.some.injEq] at hstep
        rw [← hstep]
        exact drops_represents s _ M h (s.array 0) hd
  | remove t =>
      simp only [heapStep] at hstep
      by_cases ht : t ∈ M
      · rw [if_pos ht, Option.some.injEq] at hstep
        rw [← hstep]
        exact drops_represents s _ M h t
          (heapRemoveItem_drops s h.sound t ((h.member t).mpr ht))
      · rw [if_neg ht] at hstep
        exact absurd hstep (by simp only [reduceCtorEq, not_false_eq_true])
  | touch tmr =>
      simp only [heapStep] at hstep
      by_cases hok : ∀ t ∈ M, (tmr t).jfs = (s.tmr t).jfs ∧ (tmr t).heapIdx = (s.tmr t).heapIdx
      · rw [if_pos hok, Option.some.injEq] at hstep
        rw [← hstep]
        exact ⟨touch_sound s h.sound tmr (fun t ht => hok t ((h.member t).mp ht)), h.member,
          h.card_lt, h.size_lt⟩
      · rw [if_neg hok] at hstep
        exact absurd hstep (by simp only [reduceCtorEq, not_false_eq_true])

theorem exec_heapStep_represents (array : Nat → TmrPtr) (tmr : TmrPtr → Tmr) (ops : List HeapOp)
    (s : Store) (M : Finset TmrPtr)
    (h : exec heapStep (heapNew array tmr, ∅) ops = some (s, M)) : Represents s M :=
  exec_invariant heapStep (fun x => Represents x.1 x.2)
    (fun x op x' hx hstep => heapStep_represents x op x' hx hstep) ops _ (s, M)
    (heapNew_represents array tmr) h

/-- The earliest members of a heap, as peeking and polling return them. -/
theorem represents_peek (s : Store) (M : Finset TmrPtr) (h : Represents s M) :
    (heapPeek s = none ↔ M = ∅) ∧ ∀ t, heapPeek s = some t →
      t ∈ M ∧ ∀ u ∈ M, (s.tmr t).jfs ≤ (s.tmr u).jfs := by
  refine ⟨?_, fun t ht => ?_⟩
  · rw [heapPeek_eq_none, Finset.eq_empty_iff_forall_notMem]
    exact forall_congr' fun t => not_congr (h.member t)
  · rcases heapPeek_min s h.sound t ht with ⟨hm, hmin⟩
    exact ⟨(h.member t).mp hm, fun u hu => hmin u ((h.member u).mpr hu)⟩

/-- Polling returns what peeking would have, and takes out that timer. -/
theorem represents_poll (s : Store) (M : Finset TmrPtr) (h : Represents s M) :
    (heapPoll s).2 = heapPeek s ∧ ∀ t, (heapPoll s).2 = some t →
      ∀ u, Member (heapPoll s).1 u ↔ u ∈ M ∧ u ≠ t := by
  by_cases h0 : s.count = 0
  · rw [heapPoll_empty s h0, heapPeek, if_pos h0]
    exact ⟨rfl, fun t ht => absurd ht (by simp only [reduceCtorEq, not_false_eq_true])⟩
  · rcases heapPoll_drops s h.sound h0 with ⟨hret, hd⟩
    rw [hret, heapPeek, if_neg h0]
    refine ⟨rfl, fun t ht u => ?_⟩
    rw [Option.some.injEq] at ht
    rw [hd.1.member u, h.member u, ht]

/-- After any sequence of operations the slots hold exactly the timers that
    were offered and not taken out, in heap order and with right
    back-pointers. So peeking and polling find an earliest timer, polling
    takes out the timer it returns, and a removal takes out the timer it
    names, wherever that stands. -/
theorem heap_refines_priority_queue (array : Nat → TmrPtr) (tmr : TmrPtr → Tmr)
    (ops : List HeapOp) (s : Store) (M : Finset TmrPtr)
    (h : exec heapStep (heapNew array tmr, ∅) ops = some (s, M)) :
    ((∀ t ∈ M, ∃! i, i < s.count ∧ s.array i = t) ∧ (∀ i, i < s.count → s.array i ∈ M)) ∧
      (∀ t ∈ M, ∃ i : Nat, (s.tmr t).heapIdx = i ∧ i < s.count ∧ s.array i = t) ∧
      (∀ i, 0 < i → i < s.count →
        (s.tmr (s.array ((i - 1) / 2))).jfs ≤ (s.tmr (s.array i)).jfs) ∧
      ((heapPeek s = none ↔ M = ∅) ∧ ∀ t, heapPeek s = some t →
        t ∈ M ∧ ∀ u ∈ M, (s.tmr t).jfs ≤ (s.tmr u).jfs) ∧
      (((heapPoll s).2 = none ↔ M = ∅) ∧ ∀ t, (heapPoll s).2 = some t →
        (t ∈ M ∧ ∀ u ∈ M, (s.tmr t).jfs ≤ (s.tmr u).jfs) ∧
          ∀ u, Member (heapPoll s).1 u ↔ u ∈ M ∧ u ≠ t) ∧
      (∀ t ∈ M, ∀ u, Member (heapRemoveItem s t) u ↔ u ∈ M ∧ u ≠ t) ∧
      s.size < 2 ^ 31 ∧ ∀ i, i < s.count → childRight i < 2 ^ 31 := by
  have hr := exec_heapStep_represents array tmr ops s M h
  have hpos := hr.sound.positioned
  have hcount := card_of_represents s M hpos hr.member
  have hcard := hr.card_lt
  have hpeek := represents_peek s M hr
  have hpoll := represents_poll s M hr
  refine ⟨⟨fun t ht => ?_, fun i hi => (hr.member _).mp ⟨i, hi, rfl⟩⟩, fun t ht => ?_,
    hr.sound.sorted, hpeek, ⟨?_, fun t ht => ⟨?_, hpoll.2 t ht⟩⟩, fun t ht u => ?_, hr.size_lt,
    fun i hi => childRight_lt_of_count s i hi (by omega)⟩
  · -- Two slots holding the same timer would give it two back-pointers.
    rcases (hr.member t).mpr ht with ⟨i, hi, hit⟩
    refine ⟨i, ⟨hi, hit⟩, fun j hj => ?_⟩
    exact tracked_inj s.array _ s.count j i hpos hj.1 hi (hj.2.trans hit.symm)
  · rcases member_at_heapIdx s hpos t ((hr.member t).mpr ht) with ⟨i, hi, hit, hidx⟩
    exact ⟨i, hidx, hi, hit⟩
  · rw [hpoll.1]
    exact hpeek.1
  · exact hpeek.2 t (hpoll.1 ▸ ht)
  · rw [(heapRemoveItem_drops s hr.sound t ((hr.member t).mpr ht)).1.member u, hr.member u]

/-- Timers with deadlines 5, 3, 9 and 3, of which the first is removed from
    the middle of the heap. -/
theorem heap_refines_priority_queue_run :
    ∃ s, exec heapStep (heapNew (fun _ => 0) (fun t =>
        ⟨none, 0, if t = 1 then 5 else if t = 3 then 9 else 3, 0⟩), ∅)
        [.offer 1, .offer 2, .offer 3, .offer 4, .remove 1] = some (s, {2, 3, 4}) ∧
      (∀ i, i < s.count → s.array i ∈ ({2, 3, 4} : Finset Nat)) ∧ heapPeek s ≠ none := by
  have hrun : (exec heapStep (heapNew (fun _ => 0) (fun t =>
      ⟨none, 0, if t = 1 then 5 else if t = 3 then 9 else 3, 0⟩), ∅)
      [.offer 1, .offer 2, .offer 3, .offer 4, .remove 1]).map Prod.snd = some {2, 3, 4} := by
    decide +kernel
  rcases Option.map_eq_some_iff.mp hrun with ⟨⟨s, M⟩, h, hM⟩
  simp only at hM
  rw [hM] at h
  have hr := heap_refines_priority_queue _ _ _ s _ h
  exact ⟨s, h, hr.1.2, fun hc => absurd (hr.2.2.2.1.1.mp hc) (by decide)⟩

end TmrHeap

end SipPerf
