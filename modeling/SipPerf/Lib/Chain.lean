import Mathlib.Data.List.Nodup
import Mathlib.Logic.Function.Basic

/-!
# Chains of Linked Elements

Doubly linked lists over any type of elements. The two directions are given by
two functions on optional elements, where `none` stands for the list itself: in
front of the first element and behind the last one. So the first element is
what comes after `none` and the last one what comes before it, and an element
in the middle is no different from one at an end.

`Path` says that the functions lead through the elements of a list and back.
To link an element in at any place, or to unlink it, is then one change to
each function on either side of the place. Both come down to a path that is
given another end, `path_relast`, and one that is given another beginning,
`path_rehead`.

## Main definitions

* `Path`: The links lead through a list of elements.
* `lastOr`: The last element, or what comes before the list.
* `headOr`: The first element, or what comes after the list.

## Theorems

* `path_append`: A path splits at any point.
* `path_congr`: Only the links of the elements and of the ends count.
* `path_neighbours`: What is on either side of an element.
* `path_insert`: An element is linked in.
* `path_remove`: An element is unlinked.
-/

namespace SipPerf

namespace Chain

variable {α : Type*}

/-- From `p` the links lead through the elements to `n`, and back. -/
def Path (fwd bwd : Option α → Option α) : Option α → List α → Option α → Prop
  | p, [], n => fwd p = n ∧ bwd n = p
  | p, x :: xs, n => fwd p = some x ∧ bwd (some x) = p ∧ Path fwd bwd (some x) xs n

/-- The last element of a list, or `p` if there is none. -/
def lastOr (p : Option α) : List α → Option α
  | [] => p
  | x :: xs => lastOr (some x) xs

/-- The first element of a list, or `n` if there is none. -/
def headOr (n : Option α) : List α → Option α
  | [] => n
  | x :: _ => some x

theorem headOr_none (xs : List α) : headOr none xs = xs.head? := by
  cases xs <;> rfl

theorem lastOr_append_singleton (p : Option α) (xs : List α) (x : α) :
    lastOr p (xs ++ [x]) = some x := by
  induction xs generalizing p with
  | nil => rfl
  | cons y ys ih => exact ih (some y)

theorem lastOr_mem (p : Option α) (xs : List α) :
    lastOr p xs = p ∨ ∃ x ∈ xs, lastOr p xs = some x := by
  induction xs generalizing p with
  | nil => exact Or.inl rfl
  | cons y ys ih =>
      right
      rcases ih (some y) with h | ⟨x, hx, h⟩
      · exact ⟨y, List.mem_cons_self, h⟩
      · exact ⟨x, List.mem_cons_of_mem y hx, h⟩

theorem headOr_mem (n : Option α) (xs : List α) :
    headOr n xs = n ∨ ∃ x ∈ xs, headOr n xs = some x := by
  cases xs with
  | nil => exact Or.inl rfl
  | cons x xs => exact Or.inr ⟨x, List.mem_cons_self, rfl⟩

theorem lastOr_ne (xs : List α) (e : α) (he : e ∉ xs) : lastOr none xs ≠ some e := by
  rcases lastOr_mem none xs with h | ⟨x, hx, h⟩
  · rw [h]
    exact (Option.some_ne_none e).symm
  · rw [h]
    exact fun hc => he (Option.some.inj hc ▸ hx)

theorem headOr_ne (xs : List α) (e : α) (he : e ∉ xs) : headOr none xs ≠ some e := by
  rcases headOr_mem none xs with h | ⟨x, hx, h⟩
  · rw [h]
    exact (Option.some_ne_none e).symm
  · rw [h]
    exact fun hc => he (Option.some.inj hc ▸ hx)

theorem at_ne (xs : List α) (e : α) (he : e ∉ xs) (q : Option α)
    (hq : q = none ∨ ∃ x ∈ xs, q = some x) : q ≠ some e := by
  rcases hq with h | ⟨x, hx, h⟩
  · rw [h]
    exact (Option.some_ne_none e).symm
  · rw [h]
    exact fun hc => he (Option.some.inj hc ▸ hx)

section Links

variable {fwd bwd fwd' bwd' : Option α → Option α}

/-- The first link of a path, and the last one. -/
theorem path_head (p n : Option α) (xs : List α) (h : Path fwd bwd p xs n) :
    fwd p = headOr n xs ∧ bwd (headOr n xs) = p := by
  cases xs with
  | nil => exact h
  | cons x xs => exact ⟨h.1, h.2.1⟩

theorem path_last (n : Option α) (xs : List α) : ∀ (p : Option α), Path fwd bwd p xs n →
    fwd (lastOr p xs) = n ∧ bwd n = lastOr p xs := by
  induction xs with
  | nil =>
      intro p h
      exact h
  | cons x xs ih =>
      intro p h
      exact ih (some x) h.2.2

theorem path_append (xs ys : List α) (n : Option α) : ∀ (p : Option α),
    Path fwd bwd p (xs ++ ys) n ↔
      Path fwd bwd p xs (headOr n ys) ∧ Path fwd bwd (lastOr p xs) ys n := by
  induction xs with
  | nil =>
      intro p
      exact ⟨fun h => ⟨path_head p n ys h, h⟩, fun h => h.2⟩
  | cons x xs ih =>
      intro p
      simp only [List.cons_append, Path, lastOr, ih, and_assoc]

/-- What is on either side of an element. -/
theorem path_neighbours (p n : Option α) (xs ys : List α) (x : α)
    (h : Path fwd bwd p (xs ++ x :: ys) n) :
    bwd (some x) = lastOr p xs ∧ fwd (some x) = headOr n ys := by
  rcases (path_append xs (x :: ys) n p).mp h with ⟨_, h2⟩
  exact ⟨h2.2.1, (path_head (some x) n ys h2.2.2).1⟩

theorem path_congr (n : Option α) (xs : List α) : ∀ (p : Option α), Path fwd bwd p xs n →
    fwd' p = fwd p → bwd' n = bwd n →
    (∀ x ∈ xs, fwd' (some x) = fwd (some x) ∧ bwd' (some x) = bwd (some x)) →
    Path fwd' bwd' p xs n := by
  induction xs with
  | nil =>
      intro p h hp hn _
      exact ⟨hp.trans h.1, hn.trans h.2⟩
  | cons x xs ih =>
      intro p h hp hn hx
      have hself := hx x List.mem_cons_self
      exact ⟨hp.trans h.1, hself.2.trans h.2.1, ih (some x) h.2.2 hself.1 hn
        (fun y hy => hx y (List.mem_cons_of_mem x hy))⟩

/-- The path leads to another end. -/
theorem path_relast (n n' : Option α) (xs : List α) : ∀ (p : Option α), Path fwd bwd p xs n →
    xs.Nodup → (∀ x ∈ xs, p ≠ some x) →
    (∀ q, q ≠ lastOr p xs → (q = p ∨ ∃ x ∈ xs, q = some x) → fwd' q = fwd q) →
    (∀ x ∈ xs, bwd' (some x) = bwd (some x)) →
    fwd' (lastOr p xs) = n' → bwd' n' = lastOr p xs → Path fwd' bwd' p xs n' := by
  induction xs with
  | nil =>
      intro p _ _ _ _ _ hl hn
      exact ⟨hl, hn⟩
  | cons x xs ih =>
      intro p h hnd hp hf hb hl hn
      have hnd' := List.nodup_cons.mp hnd
      -- `p` is not the last element, so its own link is the old one.
      have hne : p ≠ lastOr (some x) xs := by
        rcases lastOr_mem (some x) xs with hlast | ⟨y, hy, hlast⟩
        · rw [hlast]
          exact hp x List.mem_cons_self
        · rw [hlast]
          exact hp y (List.mem_cons_of_mem x hy)
      refine ⟨(hf p hne (Or.inl rfl)).trans h.1, (hb x List.mem_cons_self).trans h.2.1, ?_⟩
      refine ih (some x) h.2.2 hnd'.2 (fun y hy hc => ?_) (fun q hq hin => ?_)
        (fun y hy => hb y (List.mem_cons_of_mem x hy)) hl hn
      · rw [Option.some.injEq] at hc
        exact hnd'.1 (hc ▸ hy)
      · rcases hin with hin | ⟨y, hy, hin⟩
        · exact hf q hq (Or.inr ⟨x, List.mem_cons_self, hin⟩)
        · exact hf q hq (Or.inr ⟨y, List.mem_cons_of_mem x hy, hin⟩)

/-- The path begins elsewhere. -/
theorem path_rehead (p p' n : Option α) (ys : List α) (h : Path fwd bwd p ys n) (hnd : ys.Nodup)
    (hn : ∀ y ∈ ys, n ≠ some y) (hf : ∀ y ∈ ys, fwd' (some y) = fwd (some y))
    (hb : ∀ q, q ≠ headOr n ys → (q = n ∨ ∃ y ∈ ys, q = some y) → bwd' q = bwd q)
    (hl : fwd' p' = headOr n ys) (hr : bwd' (headOr n ys) = p') : Path fwd' bwd' p' ys n := by
  cases ys with
  | nil => exact ⟨hl, hr⟩
  | cons y ys =>
      have hnd' := List.nodup_cons.mp hnd
      -- Behind the first element nothing changes.
      refine ⟨hl, hr, path_congr n ys (some y) h.2.2 (hf y List.mem_cons_self)
        (hb n (hn y List.mem_cons_self) (Or.inl rfl)) (fun x hx => ?_)⟩
      refine ⟨hf x (List.mem_cons_of_mem y hx), hb (some x) (fun hc => ?_)
        (Or.inr ⟨x, List.mem_cons_of_mem y hx, rfl⟩)⟩
      rw [headOr, Option.some.injEq] at hc
      exact hnd'.1 (hc ▸ hx)

end Links

section Changes

variable [DecidableEq α] {fwd bwd fwd' bwd' : Option α → Option α}

/-- An element from outside is linked in between its neighbours. -/
theorem path_insert (xs ys : List α) (e : α) (h : Path fwd bwd none (xs ++ ys) none)
    (hnd : (xs ++ ys).Nodup) (he : e ∉ xs ++ ys)
    (hf : ∀ q, q ≠ some e → fwd' q = Function.update fwd (lastOr none xs) (some e) q)
    (hfe : fwd' (some e) = headOr none ys)
    (hb : ∀ q, q ≠ some e → bwd' q = Function.update bwd (headOr none ys) (some e) q)
    (hbe : bwd' (some e) = lastOr none xs) : Path fwd' bwd' none (xs ++ e :: ys) none := by
  have hxs : e ∉ xs := fun hc => he (List.mem_append_left ys hc)
  have hys : e ∉ ys := fun hc => he (List.mem_append_right xs hc)
  -- The two halves share nothing, so each has one link that changes.
  have hdis := List.disjoint_of_nodup_append hnd
  -- The half in front gets a new end, the one behind a new beginning.
  rcases (path_append xs ys none none).mp h with ⟨hpre, hpost⟩
  refine (path_append xs (e :: ys) none none).mpr ⟨?_, ?_, hbe, ?_⟩
  · refine path_relast _ (some e) xs none hpre (List.Nodup.of_append_left hnd)
      (fun x _ => (Option.some_ne_none x).symm) (fun q hq hin => ?_) (fun x hx => ?_) ?_ hbe
    · rw [hf q (at_ne xs e hxs q hin), Function.update_of_ne hq]
    · rw [hb (some x) (fun hc => hxs (Option.some.inj hc ▸ hx)),
        Function.update_of_ne (headOr_ne ys x (hdis hx)).symm]
    · rw [hf _ (lastOr_ne xs e hxs), Function.update_self]
  · rw [hf _ (lastOr_ne xs e hxs), Function.update_self]
  · refine path_rehead _ (some e) none ys hpost (List.Nodup.of_append_right hnd)
      (fun y _ => (Option.some_ne_none y).symm) (fun y hy => ?_) (fun q hq hin => ?_) hfe ?_
    · rw [hf (some y) (fun hc => hys (Option.some.inj hc ▸ hy)),
        Function.update_of_ne (lastOr_ne xs y (fun hc => hdis hc hy)).symm]
    · rw [hb q (at_ne ys e hys q hin), Function.update_of_ne hq]
    · rw [hb _ (headOr_ne ys e hys), Function.update_self]

/-- An element is taken out from between its neighbours. -/
theorem path_remove (xs ys : List α) (e : α) (h : Path fwd bwd none (xs ++ e :: ys) none)
    (hnd : (xs ++ e :: ys).Nodup)
    (hf : ∀ q, q ≠ some e → fwd' q = Function.update fwd (lastOr none xs) (headOr none ys) q)
    (hb : ∀ q, q ≠ some e → bwd' q = Function.update bwd (headOr none ys) (lastOr none xs) q) :
    Path fwd' bwd' none (xs ++ ys) none := by
  have hmid := List.nodup_middle.mp hnd
  have hout := List.nodup_cons.mp hmid
  have hxs : e ∉ xs := fun hc => hout.1 (List.mem_append_left ys hc)
  have hys : e ∉ ys := fun hc => hout.1 (List.mem_append_right xs hc)
  have hdis := List.disjoint_of_nodup_append hout.2
  rcases (path_append xs (e :: ys) none none).mp h with ⟨hpre, hpost⟩
  -- The two halves are linked to each other.
  have hlink : fwd' (lastOr none xs) = headOr none ys ∧ bwd' (headOr none ys) = lastOr none xs := by
    rw [hf _ (lastOr_ne xs e hxs), hb _ (headOr_ne ys e hys), Function.update_self,
      Function.update_self]
    exact ⟨rfl, rfl⟩
  refine (path_append xs ys none none).mpr ⟨?_, ?_⟩
  · refine path_relast _ _ xs none hpre (List.Nodup.of_append_left hout.2)
      (fun x _ => (Option.some_ne_none x).symm) (fun q hq hin => ?_) (fun x hx => ?_) hlink.1 hlink.2
    · rw [hf q (at_ne xs e hxs q hin), Function.update_of_ne hq]
    · rw [hb (some x) (fun hc => hxs (Option.some.inj hc ▸ hx)),
        Function.update_of_ne (headOr_ne ys x (hdis hx)).symm]
  · refine path_rehead (some e) _ none ys hpost.2.2 (List.Nodup.of_append_right hout.2)
      (fun y _ => (Option.some_ne_none y).symm) (fun y hy => ?_) (fun q hq hin => ?_) hlink.1 hlink.2
    · rw [hf (some y) (fun hc => hys (Option.some.inj hc ▸ hy)),
        Function.update_of_ne (lastOr_ne xs y (fun hc => hdis hc hy)).symm]
    · rw [hb q (at_ne ys e hys q hin), Function.update_of_ne hq]

end Changes

end Chain

end SipPerf
