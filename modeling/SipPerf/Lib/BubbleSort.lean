import Mathlib.Data.List.Chain
import Mathlib.Data.List.Nodup

/-!
# Sorting by Neighbours

The sort that passes over a list, exchanges neighbours that are out of order,
and starts again until there is nothing left to exchange. It is given by a
test on two elements, over any type.

It comes to an end whenever the test calls two elements in order one way round
at least, since every exchange removes one inversion and no other pair is
turned. A test that refuses two neighbours both ways keeps it exchanging them
for ever. What it comes to is what every stable sort comes to, if the test is
transitive as well.

## Main definitions

* `bubble`: One pass, with an element in hand.
* `bubblePass`, `bubbleSort`: One pass, and passes until nothing is exchanged.
* `inversions`: How many pairs are out of order.

## Theorems

* `bubble_perm`, `bubble_pair`: A pass keeps the elements, and pairs that are in
  order stay so.
* `bubble_inversions`: Every exchange removes an inversion.
* `bubbleSort_ends`: The sort ends.
* `stable_unique`: Two stable sorts agree.
* `bubbleSort_eq`: The sort is the stable one.
* `map_bubbleSort`: A sort by what is read off the elements.
-/

namespace SipPerf

namespace BubbleSort

variable {α : Type*}

/-- A pass over a list with an element in hand, and whether it has exchanged
    anything. -/
def bubble (r : α → α → Bool) : α → List α → List α × Bool
  | x, [] => ([x], false)
  | x, y :: ys =>
      if r x y then (x :: (bubble r y ys).1, (bubble r y ys).2) else (y :: (bubble r x ys).1, true)

def bubblePass (r : α → α → Bool) : List α → List α × Bool
  | [] => ([], false)
  | x :: xs => bubble r x xs

/-- Passes over a list until one exchanges nothing. -/
def bubbleSort (r : α → α → Bool) : Nat → List α → Option (List α)
  | 0, _ => none
  | n + 1, xs =>
      if (bubblePass r xs).2 then bubbleSort r n (bubblePass r xs).1 else some (bubblePass r xs).1

/-- The pairs that are out of order. -/
def inversions (r : α → α → Bool) : List α → Nat
  | [] => 0
  | x :: xs => xs.countP (fun y => !r x y) + inversions r xs

/-! ## One pass -/

theorem bubble_perm (r : α → α → Bool) (ys : List α) : ∀ (x : α),
    List.Perm (bubble r x ys).1 (x :: ys) := by
  induction ys with
  | nil =>
      intro x
      exact List.Perm.refl _
  | cons y ys ih =>
      intro x
      rw [bubble]
      split
      · exact (ih y).cons x
      · exact ((ih x).cons y).trans (List.Perm.swap x y ys)

/-- A pass that exchanges nothing has found every element in order with the
    next one. -/
theorem bubble_done (r : α → α → Bool) (ys : List α) : ∀ (x : α), (bubble r x ys).2 = false →
    (bubble r x ys).1 = x :: ys ∧ List.IsChain (fun a b => r a b = true) (x :: ys) := by
  induction ys with
  | nil =>
      intro x _
      exact ⟨rfl, List.isChain_singleton x⟩
  | cons y ys ih =>
      intro x h
      rw [bubble] at h ⊢
      split at h
      next hxy =>
        rcases ih y h with ⟨heq, hchain⟩
        rw [if_pos hxy, heq]
        exact ⟨rfl, List.isChain_cons_cons.mpr ⟨hxy, hchain⟩⟩
      · exact absurd h (by simp only [Bool.true_eq_false, not_false_eq_true])

/-- A pair that is in order is not turned round. -/
theorem bubble_pair (r : α → α → Bool) (a b : α) (hab : r a b = true) (ys : List α) : ∀ (x : α),
    List.Sublist [a, b] (x :: ys) → List.Sublist [a, b] (bubble r x ys).1 := by
  induction ys with
  | nil =>
      intro x h
      exact h
  | cons y ys ih =>
      intro x h
      rw [bubble]
      have hmem (z : α) : b ∈ z :: ys → List.Sublist [b] (bubble r z ys).1 := fun hb =>
        List.singleton_sublist.mpr ((bubble_perm r ys z).mem_iff.mpr hb)
      split
      next hxy =>
        rcases List.sublist_cons_iff.mp h with hrest | ⟨t, ht, hrest⟩
        · exact (ih y hrest).cons x
        · rw [List.cons.injEq] at ht
          rw [ht.1]
          rw [← ht.2] at hrest
          exact (hmem y (List.singleton_sublist.mp hrest)).cons_cons x
      next hxy =>
        rcases List.sublist_cons_iff.mp h with hrest | ⟨t, ht, hrest⟩
        · rcases List.sublist_cons_iff.mp hrest with hys | ⟨t, ht, hys⟩
          · exact (ih x (hys.cons x)).cons y
          · rw [List.cons.injEq] at ht
            rw [ht.1]
            rw [← ht.2] at hys
            exact (hmem x (List.mem_cons_of_mem x (List.singleton_sublist.mp hys))).cons_cons y
        · rw [List.cons.injEq] at ht
          rw [← ht.2] at hrest
          rcases List.mem_cons.mp (List.singleton_sublist.mp hrest) with hb | hb
          · rw [← ht.1, ← hb] at hxy
            exact absurd hab hxy
          · rw [ht.1] at ih hab ⊢
            exact (ih x ((List.singleton_sublist.mpr hb).cons_cons x)).cons y

/-! ## Inversions -/

theorem inversions_le (r : α → α → Bool) (xs : List α) : inversions r xs ≤ xs.length * xs.length := by
  induction xs with
  | nil => exact Nat.le_refl 0
  | cons x xs ih =>
      have hcount : xs.countP (fun y => !r x y) ≤ xs.length := List.countP_le_length
      rw [inversions, List.length_cons, Nat.succ_mul_succ]
      omega

/-- A pass adds no inversion, and an exchange removes one. -/
theorem bubble_inversions (r : α → α → Bool) (htotal : ∀ a b, r a b = true ∨ r b a = true)
    (ys : List α) : ∀ (x : α), inversions r (bubble r x ys).1 +
      (bubble r x ys).2.toNat ≤ inversions r (x :: ys) := by
  induction ys with
  | nil =>
      intro x
      exact Nat.le_refl _
  | cons y ys ih =>
      intro x
      rw [bubble]
      split
      next hxy =>
        have hperm := (bubble_perm r ys y).countP_eq (fun z => !r x z)
        have hrest := ih y
        simp only [inversions] at hrest ⊢
        omega
      next hxy =>
        have hyx : r y x = true := by
          rcases htotal x y with h | h
          · exact absurd h hxy
          · exact h
        have hperm := (bubble_perm r ys x).countP_eq (fun z => !r y z)
        have hrest := ih x
        simp only [inversions, List.countP_cons, hyx, hxy, Bool.not_true, Bool.not_false,
          Bool.false_eq_true, if_true, if_false, Bool.toNat_true] at hperm hrest ⊢
        have hbit := Bool.toNat_le (bubble r x ys).2
        omega

theorem bubblePass_inversions (r : α → α → Bool) (htotal : ∀ a b, r a b = true ∨ r b a = true)
    (xs : List α) :
    inversions r (bubblePass r xs).1 + (bubblePass r xs).2.toNat ≤ inversions r xs := by
  cases xs with
  | nil => exact Nat.le_refl 0
  | cons x xs => exact bubble_inversions r htotal xs x

theorem bubblePass_perm (r : α → α → Bool) (xs : List α) : List.Perm (bubblePass r xs).1 xs := by
  cases xs with
  | nil => exact List.Perm.refl _
  | cons x xs => exact bubble_perm r xs x

theorem bubblePass_pair (r : α → α → Bool) (a b : α) (hab : r a b = true) (xs : List α)
    (h : List.Sublist [a, b] xs) : List.Sublist [a, b] (bubblePass r xs).1 := by
  cases xs with
  | nil => exact h
  | cons x xs => exact bubble_pair r a b hab xs x h

/-! ## All passes -/

/-- The sort ends with every element in order with the next one. -/
theorem bubbleSort_ends (r : α → α → Bool) (htotal : ∀ a b, r a b = true ∨ r b a = true) (n : Nat) :
    ∀ (xs : List α), inversions r xs < n → ∃ ys, bubbleSort r n xs = some ys ∧ List.Perm ys xs ∧
      List.IsChain (fun a b => r a b = true) ys ∧
      ∀ a b, r a b = true → List.Sublist [a, b] xs → List.Sublist [a, b] ys := by
  induction n with
  | zero =>
      intro xs h
      exact absurd h (Nat.not_lt_zero _)
  | succ n ih =>
      intro xs h
      have hinv := bubblePass_inversions r htotal xs
      rw [bubbleSort]
      split
      next hagain =>
        rw [hagain, Bool.toNat_true] at hinv
        rcases ih (bubblePass r xs).1 (by omega) with ⟨ys, hys, hperm, hchain, hpair⟩
        exact ⟨ys, hys, hperm.trans (bubblePass_perm r xs), hchain,
          fun a b hab hsub => hpair a b hab (bubblePass_pair r a b hab xs hsub)⟩
      next hdone =>
        rw [Bool.not_eq_true] at hdone
        refine ⟨_, rfl, bubblePass_perm r xs, ?_, fun a b hab hsub => bubblePass_pair r a b hab xs hsub⟩
        cases xs with
        | nil => exact List.isChain_nil
        | cons x xs =>
            rcases bubble_done r xs x hdone with ⟨heq, hchain⟩
            rw [bubblePass, heq]
            exact hchain

/-- Two elements that are in order neither way are exchanged for ever. -/
theorem bubbleSort_stuck (r : α → α → Bool) (a b : α) (hab : r a b = false) (hba : r b a = false)
    (n : Nat) : bubbleSort r n [a, b] = none := by
  induction n generalizing a b with
  | zero => rfl
  | succ n ih =>
      simp only [bubbleSort, bubblePass, bubble, hab, Bool.false_eq_true, if_false, if_true]
      exact ih b a hba hab

/-! ## Stability -/

theorem pair_of_mem (xs : List α) (a b : α) (ha : a ∈ xs) (hb : b ∈ xs) (hne : a ≠ b) :
    List.Sublist [a, b] xs ∨ List.Sublist [b, a] xs := by
  induction xs with
  | nil => exact absurd ha List.not_mem_nil
  | cons x xs ih =>
      rcases List.mem_cons.mp ha with ha | ha
      · rcases List.mem_cons.mp hb with hb | hb
        · exact absurd (ha.trans hb.symm) hne
        · rw [ha]
          exact Or.inl ((List.singleton_sublist.mpr hb).cons_cons x)
      · rcases List.mem_cons.mp hb with hb | hb
        · rw [hb]
          exact Or.inr ((List.singleton_sublist.mpr ha).cons_cons x)
        · exact (ih ha hb).imp (fun h => h.cons x) (fun h => h.cons x)

theorem not_both (xs : List α) (hnd : xs.Nodup) (a b : α) (hab : List.Sublist [a, b] xs)
    (hba : List.Sublist [b, a] xs) : False := by
  induction xs with
  | nil => exact absurd (hab.subset List.mem_cons_self) List.not_mem_nil
  | cons x xs ih =>
      have hout := List.nodup_cons.mp hnd
      rcases List.sublist_cons_iff.mp hab with hab' | ⟨t, ht, hab'⟩
      · rcases List.sublist_cons_iff.mp hba with hba' | ⟨t, ht, _⟩
        · exact ih hout.2 hab' hba'
        · rw [List.cons.injEq] at ht
          rw [← ht.1] at hout
          exact hout.1 (hab'.subset (List.mem_cons_of_mem a List.mem_cons_self))
      · rw [List.cons.injEq] at ht
        rw [← ht.1] at hout
        have ha : a ∈ xs := by
          rcases List.sublist_cons_iff.mp hba with hba' | ⟨t', ht', hba'⟩
          · exact hba'.subset (List.mem_cons_of_mem b List.mem_cons_self)
          · rw [List.cons.injEq] at ht'
            rw [← ht'.2] at hba'
            exact List.singleton_sublist.mp hba'
        exact hout.1 ha

/-- Two sorts of a list that keep the order of pairs that are in order either
    way come to the same. -/
theorem stable_unique (r : α → α → Bool) (xs ys zs : List α) (hnd : xs.Nodup)
    (hys : List.Perm ys xs) (hzs : List.Perm zs xs) (hry : ys.Pairwise (fun a b => r a b = true))
    (hrz : zs.Pairwise (fun a b => r a b = true))
    (hsy : ∀ a b, r a b = true → List.Sublist [a, b] xs → List.Sublist [a, b] ys)
    (hsz : ∀ a b, r a b = true → List.Sublist [a, b] xs → List.Sublist [a, b] zs) : ys = zs := by
  -- One element stands in front of another if it is to and if it did before
  -- should they be in order either way.
  have hpairwise (ws : List α) (hws : List.Perm ws xs) (hrw : ws.Pairwise (fun a b => r a b = true))
      (hsw : ∀ a b, r a b = true → List.Sublist [a, b] xs → List.Sublist [a, b] ws) :
      ws.Pairwise (fun a b => r a b = true ∧ (r b a = true → List.Sublist [a, b] xs)) := by
    have hndw := hws.nodup_iff.mpr hnd
    refine List.pairwise_iff_forall_sublist.mpr (fun {a b} hab => ?_)
    refine ⟨List.pairwise_iff_forall_sublist.mp hrw hab, fun hba => ?_⟩
    have ha : a ∈ xs := hws.mem_iff.mp (hab.subset List.mem_cons_self)
    have hb : b ∈ xs := hws.mem_iff.mp (hab.subset (List.mem_cons_of_mem a List.mem_cons_self))
    have hne : a ≠ b := List.pairwise_iff_forall_sublist.mp hndw hab
    rcases pair_of_mem xs a b ha hb hne with h | h
    · exact h
    · exact absurd (hsw b a hba h) (fun hc => not_both ws hndw a b hab hc)
  refine List.Perm.eq_of_pairwise (fun a b ha hb hab hba => ?_) (hpairwise ys hys hry hsy)
    (hpairwise zs hzs hrz hsz) (hys.trans hzs.symm)
  exact absurd (hba.2 hab.1) (fun hc => not_both xs hnd a b (hab.2 hba.1) hc)

/-- The sort is the stable one. -/
theorem bubbleSort_eq (r : α → α → Bool) (htotal : ∀ a b, r a b = true ∨ r b a = true)
    (htrans : ∀ a b c, r a b = true → r b c = true → r a c = true) (xs : List α) (hnd : xs.Nodup)
    (n : Nat) (hn : xs.length * xs.length < n) : bubbleSort r n xs = some (xs.mergeSort r) := by
  rcases bubbleSort_ends r htotal n xs (Nat.lt_of_le_of_lt (inversions_le r xs) hn) with
    ⟨ys, hys, hperm, hchain, hpair⟩
  have : IsTrans α (fun a b => r a b = true) := ⟨htrans⟩
  have htotal' (a b : α) : (r a b || r b a) = true := by
    rw [Bool.or_eq_true]
    exact htotal a b
  rw [hys, stable_unique r xs ys (xs.mergeSort r) hnd hperm (List.mergeSort_perm xs r)
    hchain.pairwise (List.pairwise_mergeSort htrans htotal' xs) hpair
    (fun a b hab hsub => List.pair_sublist_mergeSort htrans htotal' hab hsub)]

/-! ## Keys -/

variable {β : Type*}

theorem map_bubble (f : α → β) (r : β → β → Bool) (ys : List α) : ∀ (x : α),
    ((bubble (fun a b => r (f a) (f b)) x ys).1.map f,
      (bubble (fun a b => r (f a) (f b)) x ys).2) = bubble r (f x) (ys.map f) := by
  induction ys with
  | nil =>
      intro x
      rfl
  | cons y ys ih =>
      intro x
      have hx := ih x
      have hy := ih y
      rw [Prod.ext_iff] at hx hy
      by_cases h : r (f x) (f y) = true
      · rw [bubble, List.map_cons, bubble, if_pos h, if_pos h, ← hy.1, ← hy.2]
        rfl
      · rw [bubble, List.map_cons, bubble, if_neg h, if_neg h, ← hx.1]
        rfl

/-- A sort that compares what is read off the elements is the sort of what is
    read off. -/
theorem map_bubbleSort (f : α → β) (r : β → β → Bool) (n : Nat) : ∀ (xs : List α),
    (bubbleSort (fun a b => r (f a) (f b)) n xs).map (List.map f) = bubbleSort r n (xs.map f) := by
  induction n with
  | zero =>
      intro xs
      rfl
  | succ n ih =>
      intro xs
      have hpass : ((bubblePass (fun a b => r (f a) (f b)) xs).1.map f,
          (bubblePass (fun a b => r (f a) (f b)) xs).2) = bubblePass r (xs.map f) := by
        cases xs with
        | nil => rfl
        | cons x xs => exact map_bubble f r xs x
      rw [bubbleSort, bubbleSort, ← hpass]
      cases (bubblePass (fun a b => r (f a) (f b)) xs).2 with
      | true => exact ih _
      | false => rfl

end BubbleSort

end SipPerf
