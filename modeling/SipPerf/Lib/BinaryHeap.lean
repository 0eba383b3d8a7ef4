import Mathlib.Algebra.Order.Ring.Nat
import Mathlib.Logic.Equiv.Basic

/-!
# Heap Order on Level-Order Arrays

The order theory of a binary min-heap laid out in level order, stated for a
bare key function `key : Nat → α` and a length `n`. Nothing here knows how
the keys are stored. A concrete heap has its own array, its own swap and its
own loops, and what it needs from the theory is only how the order moves when
two positions are exchanged.

A sift is a loop whose invariant is the heap order with one hole in it.
`UpReady` is the hole of an upward sift: the only edge that may be wrong is
the one entering the position. `DownReady` is the hole of a downward sift:
the only edges that may be wrong are the ones leaving it. Both carry the same
extra clause, that the position's parent is below the position's children,
which is what keeps the order intact when the hole moves on.

`upReady_swap` and `downReady_swap` move the hole by one level, and
`ordered_of_upReady` and `ordered_of_downReady` close it. The remaining
lemmas open a hole: appending a key opens one at the end, and putting the
last key in the place of another opens one there, upward or downward
according to how the key compares with its new parent.

## Main definitions

* `parent`: The parent of a position.
* `Ordered`: No key is below its parent's key.
* `UpReady`: The order with a hole on the edge entering a position.
* `DownReady`: The order with a hole on the edges leaving a position.

## Theorems

* `parent_lt`: A parent precedes its child.
* `ordered_root_le`: The root is a smallest key.
* `ordered_of_upReady`: Closing the hole of an upward sift.
* `ordered_of_downReady`: Closing the hole of a downward sift.
* `upReady_swap`: Moving the hole up by one level.
* `downReady_swap`: Moving the hole down by one level.
* `upReady_append`: A key appended at the end leaves an upward hole.
* `downReady_replace`: A replaced key not below its parent leaves a downward
  hole.
* `upReady_replace`: A replaced key below its parent leaves an upward hole.
-/

namespace SipPerf

namespace BinaryHeap

variable {α : Type*} [LinearOrder α]

/-- The parent of position `i`. The root is its own parent. -/
def parent (i : Nat) : Nat := (i - 1) / 2

theorem parent_lt (i : Nat) (hi : 0 < i) : parent i < i := by
  unfold parent
  omega

/-- No key among the first `n` is below the key of its parent. -/
def Ordered (key : Nat → α) (n : Nat) : Prop :=
  ∀ i, 0 < i → i < n → key (parent i) ≤ key i

/-- The heap order, with a hole on the edge entering `i`. -/
structure UpReady (key : Nat → α) (n i : Nat) : Prop where
  except : ∀ j, 0 < j → j < n → j ≠ i → key (parent j) ≤ key j
  grand : 0 < i → ∀ j, 0 < j → j < n → parent j = i → key (parent i) ≤ key j

/-- The heap order, with a hole on the edges leaving `i`. -/
structure DownReady (key : Nat → α) (n i : Nat) : Prop where
  except : ∀ j, 0 < j → j < n → parent j ≠ i → key (parent j) ≤ key j
  grand : 0 < i → ∀ j, 0 < j → j < n → parent j = i → key (parent i) ≤ key j

theorem ordered_root_le (key : Nat → α) (n : Nat) (h : Ordered key n) :
    ∀ i, i < n → key 0 ≤ key i := by
  intro i
  -- Climb to the parent, which is a smaller position.
  induction i using Nat.strongRecOn with
  | ind i ih =>
    intro hi
    rcases Nat.eq_zero_or_pos i with rfl | hpos
    · exact le_refl _
    · have hp := parent_lt i hpos
      exact le_trans (ih (parent i) hp (by omega)) (h i hpos hi)

theorem ordered_of_upReady (key : Nat → α) (n i : Nat) (h : UpReady key n i)
    (hi : 0 < i → key (parent i) ≤ key i) : Ordered key n := by
  intro j hj hjn
  by_cases hji : j = i
  · rw [hji] at hj ⊢
    exact hi hj
  · exact h.except j hj hjn hji

theorem ordered_of_downReady (key : Nat → α) (n i : Nat) (h : DownReady key n i)
    (hi : ∀ j, 0 < j → j < n → parent j = i → key i ≤ key j) : Ordered key n := by
  intro j hj hjn
  by_cases hji : parent j = i
  · rw [hji]
    exact hi j hj hjn hji
  · exact h.except j hj hjn hji

/-- Exchanging `i` with its parent moves an upward hole to the parent. The
    keys may be equal: a sift that swaps on ties loses nothing. -/
theorem upReady_swap (key : Nat → α) (n i : Nat) (h : UpReady key n i) (hi : 0 < i)
    (hin : i < n) (hle : key i ≤ key (parent i)) :
    UpReady (key ∘ Equiv.swap i (parent i)) n (parent i) := by
  have hp := parent_lt i hi
  refine ⟨fun j hj hjn hjp => ?_, fun hp0 j hj hjn hjp => ?_⟩
  · simp only [Function.comp_apply]
    by_cases hji : j = i
    · -- The edge just mended: the smaller of the two keys is now on top.
      rw [hji, Equiv.swap_apply_right, Equiv.swap_apply_left]
      exact hle
    · rw [Equiv.swap_apply_of_ne_of_ne hji hjp]
      by_cases hpi : parent j = i
      · -- A child of `i` now sits under the old parent.
        rw [hpi, Equiv.swap_apply_left]
        exact h.grand hi j hj hjn hpi
      · by_cases hpp : parent j = parent i
        · -- The sibling of `i` now sits under the key that came up.
          rw [hpp, Equiv.swap_apply_right]
          have hold := h.except j hj hjn hji
          rw [hpp] at hold
          exact le_trans hle hold
        · rw [Equiv.swap_apply_of_ne_of_ne hpi hpp]
          exact h.except j hj hjn hji
  · have hpp := parent_lt (parent i) hp0
    have hup : key (parent (parent i)) ≤ key (parent i) :=
      h.except (parent i) hp0 (by omega) (by omega)
    simp only [Function.comp_apply]
    rw [Equiv.swap_apply_of_ne_of_ne (by omega : parent (parent i) ≠ i) (by omega)]
    by_cases hji : j = i
    · rw [hji, Equiv.swap_apply_left]
      exact hup
    · have hjp' : j ≠ parent i := by
        intro hc
        have hlt := parent_lt j hj
        rw [hjp] at hlt
        omega
      rw [Equiv.swap_apply_of_ne_of_ne hji hjp']
      have hold := h.except j hj hjn hji
      rw [hjp] at hold
      exact le_trans hup hold

/-- Exchanging `i` with its smallest child moves a downward hole to that
    child. -/
theorem downReady_swap (key : Nat → α) (n i c : Nat) (h : DownReady key n i) (hc : 0 < c)
    (hcn : c < n) (hci : parent c = i)
    (hmin : ∀ j, 0 < j → j < n → parent j = i → key c ≤ key j) (hle : key c ≤ key i) :
    DownReady (key ∘ Equiv.swap i c) n c := by
  -- The edges leaving `c` are the only ones the exchange can have broken.
  have hic : i < c := hci ▸ parent_lt c hc
  refine ⟨fun j hj hjn hjc => ?_, fun _ j hj hjn hjc => ?_⟩
  · simp only [Function.comp_apply]
    have hjp := parent_lt j hj
    by_cases hji : j = i
    · -- The edge entering `i`: the child that came up is above the parent.
      subst hji
      rw [Equiv.swap_apply_left, Equiv.swap_apply_of_ne_of_ne (by omega) (by omega)]
      exact h.grand hj c hc hcn hci
    · by_cases hpi : parent j = i
      · rw [hpi, Equiv.swap_apply_left]
        by_cases hjc' : j = c
        · rw [hjc', Equiv.swap_apply_right]
          exact hle
        · rw [Equiv.swap_apply_of_ne_of_ne hji hjc']
          exact hmin j hj hjn hpi
      · have hjc' : j ≠ c := fun hcc => hpi (hcc ▸ hci)
        rw [Equiv.swap_apply_of_ne_of_ne hpi hjc, Equiv.swap_apply_of_ne_of_ne hji hjc']
        exact h.except j hj hjn hpi
  · have hjp := parent_lt j hj
    simp only [Function.comp_apply]
    rw [hci, Equiv.swap_apply_left, Equiv.swap_apply_of_ne_of_ne (by omega) (by omega)]
    -- The children of `c` were below it, and it has moved up to be their
    -- grandparent.
    have hold := h.except j hj hjn (by omega)
    rw [hjc] at hold
    exact hold

/-- Whatever key stands at position `n`, an ordered heap of length `n` is
    ordered up to the edge entering `n`, which has no children yet. -/
theorem upReady_append (key : Nat → α) (n : Nat) (h : Ordered key n) :
    UpReady key (n + 1) n := by
  refine ⟨fun j hj hjn hne => h j hj (by omega), fun _ j hj hjn hjp => ?_⟩
  have hlt := parent_lt j hj
  omega

/-- In an ordered heap a grandparent is below its grandchildren, whatever
    stands between them. -/
theorem ordered_grand (key : Nat → α) (n i j : Nat) (h : Ordered key n) (hi : 0 < i)
    (hj : 0 < j) (hjn : j < n) (hji : parent j = i) : key (parent i) ≤ key j := by
  have hlt := parent_lt j hj
  have h1 := h i hi (by omega)
  have h2 := h j hj hjn
  rw [hji] at h2
  exact le_trans h1 h2

theorem downReady_replace (key key' : Nat → α) (n i : Nat) (h : Ordered key (n + 1))
    (hoff : ∀ j, j ≠ i → j < n → key' j = key j)
    (hi : 0 < i → i < n → key' (parent i) ≤ key' i) : DownReady key' n i := by
  refine ⟨fun j hj hjn hjp => ?_, fun hi0 j hj hjn hjp => ?_⟩
  · have hlt := parent_lt j hj
    by_cases hji : j = i
    · rw [hji] at hj hjn ⊢
      exact hi hj hjn
    · rw [hoff j hji hjn, hoff (parent j) hjp (by omega)]
      exact h j hj (by omega)
  · have hlt := parent_lt j hj
    have hpi := parent_lt i hi0
    rw [hoff j (by omega) hjn, hoff (parent i) (by omega) (by omega)]
    exact ordered_grand key (n + 1) i j h hi0 hj (by omega) hjp

theorem upReady_replace (key key' : Nat → α) (n i : Nat) (h : Ordered key (n + 1))
    (hoff : ∀ j, j ≠ i → j < n → key' j = key j)
    (hi0 : 0 < i) (hin : i < n) (hlt : key' i ≤ key' (parent i)) : UpReady key' n i := by
  have hpi := parent_lt i hi0
  refine ⟨fun j hj hjn hji => ?_, fun _ j hj hjn hjp => ?_⟩
  · have hjlt := parent_lt j hj
    rw [hoff j hji hjn]
    by_cases hjp : parent j = i
    · -- The child was above the old parent, which is above the new key.
      rw [hjp]
      refine le_trans hlt ?_
      rw [hoff (parent i) (by omega) (by omega)]
      exact ordered_grand key (n + 1) i j h hi0 hj (by omega) hjp
    · rw [hoff (parent j) hjp (by omega)]
      exact h j hj (by omega)
  · have hjlt := parent_lt j hj
    rw [hoff j (by omega) hjn, hoff (parent i) (by omega) (by omega)]
    exact ordered_grand key (n + 1) i j h hi0 hj (by omega) hjp

end BinaryHeap

end SipPerf
