import Mathlib.Logic.Equiv.Basic

/-!
# Slots with Back-Pointers

An array whose elements know where they are. `slot` gives the element at a
position and `pos` the position an element believes it has; `Tracked` says
that the first `n` beliefs are right, and `Occupies` that an element is among
the first `n`. An element then occupies one position only, since it cannot
believe in two, so a tracked array is a set with an index into it.

Three changes keep an array tracked. Exchanging two positions keeps the set.
Writing one more position adds an element. Moving the last element over
another one takes that other one out, also when the two are the same, which
is the case a caller is likely to forget.

The back-pointers after a change are given by what they are on the elements
that moved and by their being unchanged elsewhere, rather than by a term, so
that it does not matter in which order a program writes them.

## Main definitions

* `Tracked`: The first `n` elements know their positions.
* `Occupies`: An element is among the first `n`.

## Theorems

* `tracked_inj`: A tracked element occupies one position.
* `tracked_swap`: Exchanging two positions.
* `occupies_swap`: Exchanging two positions keeps the set.
* `tracked_push`: Writing one more position.
* `occupies_push`: Writing one more position adds an element.
* `tracked_pull`: Moving the last element over another.
* `occupies_pull`: Moving the last element over another takes it out.
-/

namespace SipPerf

namespace Slots

variable {α : Type*}

/-- Each of the first `n` elements has its own position as back-pointer. -/
def Tracked (slot : Nat → α) (pos : α → Int) (n : Nat) : Prop :=
  ∀ i, i < n → pos (slot i) = i

/-- The element stands at one of the first `n` positions. -/
def Occupies (slot : Nat → α) (n : Nat) (t : α) : Prop :=
  ∃ i, i < n ∧ slot i = t

theorem tracked_inj (slot : Nat → α) (pos : α → Int) (n i j : Nat) (h : Tracked slot pos n)
    (hi : i < n) (hj : j < n) (heq : slot i = slot j) : i = j := by
  have hpi := h i hi
  rw [heq, h j hj] at hpi
  omega

theorem tracked_swap (slot : Nat → α) (pos pos' : α → Int) (n a b : Nat) (ha : a < n)
    (hb : b < n) (h : Tracked slot pos n) (hpa : pos' (slot a) = b) (hpb : pos' (slot b) = a)
    (hoff : ∀ t, t ≠ slot a → t ≠ slot b → pos' t = pos t) :
    Tracked (slot ∘ Equiv.swap a b) pos' n := by
  intro i hi
  simp only [Function.comp_apply]
  by_cases hia : i = a
  · rw [hia, Equiv.swap_apply_left, hpb]
  · by_cases hib : i = b
    · rw [hib, Equiv.swap_apply_right, hpa]
    · rw [Equiv.swap_apply_of_ne_of_ne hia hib]
      -- A third position holds a third element, whose back-pointer was not
      -- written.
      rw [hoff (slot i) (fun hc => hia (tracked_inj slot pos n i a h hi ha hc))
        (fun hc => hib (tracked_inj slot pos n i b h hi hb hc))]
      exact h i hi

/-- One direction of the exchange; the other is the same exchange again. -/
theorem occupies_of_swap (slot : Nat → α) (n a b : Nat) (ha : a < n) (hb : b < n) (t : α)
    (h : Occupies (slot ∘ Equiv.swap a b) n t) : Occupies slot n t := by
  rcases h with ⟨i, hi, hit⟩
  refine ⟨Equiv.swap a b i, ?_, hit⟩
  by_cases hia : i = a
  · rw [hia, Equiv.swap_apply_left]
    exact hb
  · by_cases hib : i = b
    · rw [hib, Equiv.swap_apply_right]
      exact ha
    · rw [Equiv.swap_apply_of_ne_of_ne hia hib]
      exact hi

theorem occupies_swap (slot : Nat → α) (n a b : Nat) (ha : a < n) (hb : b < n) (t : α) :
    Occupies (slot ∘ Equiv.swap a b) n t ↔ Occupies slot n t := by
  refine ⟨occupies_of_swap slot n a b ha hb t, fun h => ?_⟩
  refine occupies_of_swap (slot ∘ Equiv.swap a b) n a b ha hb t ?_
  -- Exchanging twice is doing nothing.
  have hid : (slot ∘ Equiv.swap a b) ∘ Equiv.swap a b = slot := by
    funext i
    simp only [Function.comp_apply, Equiv.swap_apply_self]
  rw [hid]
  exact h

theorem tracked_push (slot slot' : Nat → α) (pos pos' : α → Int) (n : Nat)
    (h : Tracked slot pos n) (hkeep : ∀ i, i < n → slot' i = slot i)
    (hnew : pos' (slot' n) = n) (hoff : ∀ i, i < n → pos' (slot i) = pos (slot i)) :
    Tracked slot' pos' (n + 1) := by
  intro i hi
  by_cases hin : i = n
  · rw [hin, hnew]
  · rw [hkeep i (by omega), hoff i (by omega)]
    exact h i (by omega)

theorem occupies_push (slot slot' : Nat → α) (n : Nat) (hkeep : ∀ i, i < n → slot' i = slot i)
    (t : α) : Occupies slot' (n + 1) t ↔ Occupies slot n t ∨ t = slot' n := by
  constructor
  · rintro ⟨i, hi, hit⟩
    by_cases hin : i = n
    · exact Or.inr (by rw [← hit, hin])
    · exact Or.inl ⟨i, by omega, by rw [← hkeep i (by omega)]; exact hit⟩
  · rintro (⟨i, hi, hit⟩ | rfl)
    · exact ⟨i, by omega, by rw [hkeep i hi]; exact hit⟩
    · exact ⟨n, by omega, rfl⟩

/-- Moving the last element over position `i` keeps the array tracked. When
    `i` is itself the last position there is nothing to keep, the moved
    element having dropped off the end. -/
theorem tracked_pull (slot slot' : Nat → α) (pos pos' : α → Int) (n i : Nat) (hi : i ≤ n)
    (h : Tracked slot pos (n + 1)) (hmove : i < n → slot' i = slot n)
    (hkeep : ∀ j, j < n → j ≠ i → slot' j = slot j) (hpos : i < n → pos' (slot n) = i)
    (hoff : ∀ t, t ≠ slot n → t ≠ slot i → pos' t = pos t) : Tracked slot' pos' n := by
  intro j hj
  by_cases hji : j = i
  · rw [hji] at hj ⊢
    rw [hmove hj, hpos hj]
  · rw [hkeep j hj hji]
    rw [hoff (slot j)
      (fun hc => by have := tracked_inj slot pos (n + 1) j n h (by omega) (by omega) hc; omega)
      (fun hc => hji (tracked_inj slot pos (n + 1) j i h (by omega) (by omega) hc))]
    exact h j (by omega)

theorem occupies_pull (slot slot' : Nat → α) (pos : α → Int) (n i : Nat) (hi : i ≤ n)
    (h : Tracked slot pos (n + 1)) (hmove : i < n → slot' i = slot n)
    (hkeep : ∀ j, j < n → j ≠ i → slot' j = slot j) (t : α) :
    Occupies slot' n t ↔ Occupies slot (n + 1) t ∧ t ≠ slot i := by
  constructor
  · rintro ⟨j, hj, hjt⟩
    by_cases hji : j = i
    · subst hji
      rw [hmove hj] at hjt
      refine ⟨⟨n, by omega, hjt⟩, fun hc => ?_⟩
      -- The last element is not the one at `i`, which has another position.
      have := tracked_inj slot pos (n + 1) n j h (by omega) (by omega) (hjt.trans hc)
      omega
    · rw [hkeep j hj hji] at hjt
      refine ⟨⟨j, by omega, hjt⟩, fun hc => ?_⟩
      exact hji (tracked_inj slot pos (n + 1) j i h (by omega) (by omega) (hjt.trans hc))
  · rintro ⟨⟨j, hj, hjt⟩, hne⟩
    -- An element that stays stands where it stood, or it was the last one and
    -- stands at `i` now.
    have hji : j ≠ i := fun hc => hne (by rw [← hjt, hc])
    by_cases hjn : j = n
    · exact ⟨i, by omega, by rw [hmove (by omega), ← hjn]; exact hjt⟩
    · exact ⟨j, by omega, by rw [hkeep j (by omega) hji]; exact hjt⟩

end Slots

end SipPerf
