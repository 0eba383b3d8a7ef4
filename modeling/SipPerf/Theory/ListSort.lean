import SipPerf.Lib.BubbleSort
import SipPerf.Theory.LinkedList

/-!
# Sorting a Linked List

`list_sort` compares the data of neighbours, links an element in again behind
the next one if they are out of order, and passes over the list until it has
nothing to do. In memory that is the sort of `BubbleSort` on the list the
memory stands for, so it ends for every handler that never refuses two
elements both ways, and comes to the stable order if the handler is transitive
as well. A handler that refuses two elements both ways can keep it in its loop
for ever.

## Theorems

* `swap_repr`: Two neighbours are exchanged.
* `sortFrom_repr`: One pass in memory is one pass on the list.
* `list_sort_sorts`: The sort ends in the stable order.
* `list_sort_stuck`: A sort that does not end.
-/

namespace SipPerf

namespace LinkedList

open Chain BubbleSort Transition

variable {α κ δ : Type*} [DecidableEq α] [DecidableEq κ]

/-- The lists with another order of one of them. -/
def Lists.reorder (a : Lists α κ δ) (k : κ) (xs : List α) : Lists α κ δ :=
  { a with chain := Function.update a.chain k xs }

/-- An element goes behind the next one. -/
theorem swap_repr (m : Mem α κ δ) (a : Lists α κ δ) (k : κ) (xs ys : List α) (e tle : α)
    (h : Repr m a) (hk : a.chain k = xs ++ e :: tle :: ys) :
    Repr (listInsertAfter (listUnlink m e) k tle e ((listUnlink m e).le e).data)
      (a.reorder k (xs ++ tle :: e :: ys)) := by
  have hnd := h.nodup k
  rw [hk] at hnd
  have hout := List.nodup_cons.mp (List.nodup_middle.mp hnd)
  have hek : e ∈ a.chain k := hk ▸ List.mem_append_right xs List.mem_cons_self
  have hown : a.owner e = some k := (h.list e).symm.trans ((h.owner k e).mp hek)
  have herase : (a.chain k).erase e = xs ++ tle :: ys := by
    rw [hk, List.erase_append_right _ (fun hc => hout.1 (List.mem_append_left _ hc)),
      List.erase_cons_head]
  -- `tle` is in the list once, so `e` goes behind that place.
  have htle : tle ∉ xs := by
    intro hc
    exact (List.nodup_cons.mp (List.nodup_middle.mp hout.2)).1 (List.mem_append_left ys hc)
  -- First the element is out of every list, with its data still there.
  have hremove : a.remove e = { a with
      chain := Function.update a.chain k (xs ++ tle :: ys)
      owner := Function.update a.owner e none } := by
    rw [Lists.remove, hown, ← herase]
  have hunlink := listUnlink_repr m a e h
  rw [hremove] at hunlink
  have hinsert := listInsertAfter_repr _ _ k tle e ((listUnlink m e).le e).data hunlink (by
    simp only [Function.update_self]
    exact List.mem_append_right xs List.mem_cons_self)
  -- Then it is back in the list it was in, one place further on.
  have hplace : Lists.place { a with
      chain := Function.update a.chain k (xs ++ tle :: ys)
      owner := Function.update a.owner e none } k e ((listUnlink m e).le e).data (behind tle e) =
      a.reorder k (xs ++ tle :: e :: ys) := by
    have hdata : ((listUnlink m e).le e).data = a.data e := hunlink.data e
    simp only [Lists.place, Lists.reorder, Function.update_self, Option.isSome_none,
      Bool.false_eq_true, if_false, Function.update_idem, behind_split xs ys tle e htle, hdata,
      Function.update_eq_self, ← hown]
  rw [hplace] at hinsert
  exact hinsert

/-- One pass from an element on. -/
theorem sortFrom_repr (sh : α → α → Bool) (k : κ) (ys : List α) : ∀ (m : Mem α κ δ)
    (a : Lists α κ δ) (xs : List α) (e : α) (sort : Bool) (fuel : Nat), Repr m a →
    a.chain k = xs ++ e :: ys → ys.length < fuel →
    ∃ m', sortFrom sh k fuel m (some e) sort = some (m', sort || (bubble sh e ys).2) ∧
      Repr m' (a.reorder k (xs ++ (bubble sh e ys).1)) := by
  induction ys with
  | nil =>
      intro m a xs e sort fuel h hk hfuel
      rcases Nat.exists_eq_succ_of_ne_zero (Nat.ne_zero_of_lt hfuel) with ⟨n, hn⟩
      have hnext := (h.links k xs [] e hk).2
      have hsame : a.reorder k (xs ++ [e]) = a := by
        rw [Lists.reorder, ← hk, Function.update_eq_self]
      rw [hn]
      simp only [sortFrom, hnext, headOr, bubble, Bool.or_false, hsame]
      exact ⟨m, rfl, h⟩
  | cons y ys ih =>
      intro m a xs e sort fuel h hk hfuel
      rcases Nat.exists_eq_succ_of_ne_zero (Nat.ne_zero_of_lt hfuel) with ⟨n, hn⟩
      rw [hn] at hfuel ⊢
      have hlen : ys.length < n := Nat.lt_of_succ_lt_succ hfuel
      have hnext := (h.links k xs (y :: ys) e hk).2
      cases hsh : sh e y with
      | true =>
          -- In order: the pass goes on from `y`, with `e` behind it.
          have hk' : a.chain k = (xs ++ [e]) ++ y :: ys := by
            rw [hk, List.append_assoc, List.singleton_append]
          rcases ih m a (xs ++ [e]) y sort n h hk' hlen with ⟨m', hrun, hrepr⟩
          refine ⟨m', ?_, ?_⟩
          · simp only [sortFrom, hnext, headOr, hsh, if_true, bubble]
            exact hrun
          · simp only [bubble, hsh, if_true]
            rwa [List.append_assoc, List.singleton_append] at hrepr
      | false =>
          -- Out of order: `y` stays behind, and the pass goes on from `e`.
          have hswap := swap_repr m a k xs ys e y h hk
          have hk' : (a.reorder k (xs ++ y :: e :: ys)).chain k = (xs ++ [y]) ++ e :: ys := by
            simp only [Lists.reorder, Function.update_self, List.append_assoc, List.singleton_append]
          rcases ih _ _ (xs ++ [y]) e true n hswap hk' hlen with ⟨m', hrun, hrepr⟩
          refine ⟨m', ?_, ?_⟩
          · simp only [sortFrom, hnext, headOr, hsh, Bool.false_eq_true, if_false, bubble,
              Bool.or_true]
            rw [Bool.true_or] at hrun
            exact hrun
          · simp only [bubble, hsh, Bool.false_eq_true, if_false]
            rwa [Lists.reorder, Lists.reorder, Function.update_idem, List.append_assoc,
              List.singleton_append] at hrepr

theorem sortFrom_head (sh : α → α → Bool) (k : κ) (m : Mem α κ δ) (a : Lists α κ δ) (fuel : Nat)
    (h : Repr m a) (hfuel : (a.chain k).length < fuel) :
    ∃ m', sortFrom sh k fuel m (m.head k) false = some (m', (bubblePass sh (a.chain k)).2) ∧
      Repr m' (a.reorder k (bubblePass sh (a.chain k)).1) := by
  cases hchain : a.chain k with
  | nil =>
      rcases Nat.exists_eq_succ_of_ne_zero (Nat.ne_zero_of_lt hfuel) with ⟨n, hn⟩
      have hsame : a.reorder k [] = a := by
        rw [Lists.reorder, ← hchain, Function.update_eq_self]
      refine ⟨m, ?_, ?_⟩
      · rw [h.head_eq k, hchain, hn]
        rfl
      · rw [bubblePass, hsame]
        exact h
  | cons e ys =>
      rw [hchain] at hfuel
      rcases sortFrom_repr sh k ys m a [] e false fuel h hchain (Nat.lt_of_succ_lt hfuel) with
        ⟨m', hrun, hrepr⟩
      refine ⟨m', ?_, hrepr⟩
      rw [h.head_eq k, hchain, headOr, hrun, Bool.false_or, bubblePass]

/-- All passes in memory are all passes on the list. -/
theorem listSort_repr (sh : α → α → Bool) (k : κ) (fuel : Nat) (passes : Nat) : ∀ (m : Mem α κ δ)
    (a : Lists α κ δ) (xs : List α), Repr m a → (a.chain k).length < fuel →
    bubbleSort sh passes (a.chain k) = some xs →
    ∃ m', listSort sh k fuel passes m = some m' ∧ Repr m' (a.reorder k xs) := by
  induction passes with
  | zero =>
      intro m a xs _ _ hsort
      exact absurd hsort (by simp only [bubbleSort, reduceCtorEq, not_false_eq_true])
  | succ passes ih =>
      intro m a xs h hfuel hsort
      rcases sortFrom_head sh k m a fuel h hfuel with ⟨m', hrun, hrepr⟩
      rw [bubbleSort] at hsort
      cases hagain : (bubblePass sh (a.chain k)).2 with
      | true =>
          rw [hagain, if_pos rfl] at hsort
          have hchain : (a.reorder k (bubblePass sh (a.chain k)).1).chain k =
              (bubblePass sh (a.chain k)).1 := Function.update_self k _ _
          -- A pass only reorders the list, so the fuel is still enough.
          have hlen : ((a.reorder k (bubblePass sh (a.chain k)).1).chain k).length < fuel := by
            rw [hchain, (bubblePass_perm sh (a.chain k)).length_eq]
            exact hfuel
          rw [← hchain] at hsort
          rcases ih m' _ xs hrepr hlen hsort with ⟨m'', hrun', hrepr'⟩
          refine ⟨m'', ?_, ?_⟩
          · simp only [listSort, hrun, hagain, if_true]
            exact hrun'
          · rwa [Lists.reorder, Lists.reorder, Function.update_idem] at hrepr'
      | false =>
          rw [hagain, if_neg Bool.false_ne_true, Option.some.injEq] at hsort
          rw [hsort] at hrepr
          refine ⟨m', ?_, hrepr⟩
          simp only [listSort, hrun, hagain, Bool.false_eq_true, if_false]

/-- A sort that does not end on the list does not end in memory. -/
theorem listSort_none (sh : α → α → Bool) (k : κ) (fuel : Nat) (passes : Nat) : ∀ (m : Mem α κ δ)
    (a : Lists α κ δ), Repr m a → (a.chain k).length < fuel →
    bubbleSort sh passes (a.chain k) = none → listSort sh k fuel passes m = none := by
  induction passes with
  | zero =>
      intro m a _ _ _
      rfl
  | succ passes ih =>
      intro m a h hfuel hsort
      rcases sortFrom_head sh k m a fuel h hfuel with ⟨m', hrun, hrepr⟩
      rw [bubbleSort] at hsort
      cases hagain : (bubblePass sh (a.chain k)).2 with
      | true =>
          rw [hagain, if_pos rfl] at hsort
          have hchain : (a.reorder k (bubblePass sh (a.chain k)).1).chain k =
              (bubblePass sh (a.chain k)).1 := Function.update_self k _ _
          have hlen : ((a.reorder k (bubblePass sh (a.chain k)).1).chain k).length < fuel := by
            rw [hchain, (bubblePass_perm sh (a.chain k)).length_eq]
            exact hfuel
          rw [← hchain] at hsort
          simp only [listSort, hrun, hagain, if_true]
          exact ih m' _ hrepr hlen hsort
      | false =>
          rw [hagain, if_neg Bool.false_ne_true] at hsort
          exact absurd hsort (Option.some_ne_none _)

/-- After any operations on any lists, sorting one of them ends, if the handler
    finds any two elements in order one way round at least and is transitive.
    The list is then in the order of the stable sort, and the other lists are
    as they were. -/
theorem list_sort_sorts (ops : List (ListOp α κ δ)) (m : Mem α κ δ)
    (h : exec memStep zeroed ops = some m) (k : κ) (sh : α → α → Bool)
    (htotal : ∀ e1 e2, sh e1 e2 = true ∨ sh e2 e1 = true)
    (htrans : ∀ e1 e2 e3, sh e1 e2 = true → sh e2 e3 = true → sh e1 e3 = true) (fuel passes : Nat)
    (hfuel : ((ops.foldl absStep emptyLists).chain k).length < fuel)
    (hpasses : ((ops.foldl absStep emptyLists).chain k).length *
      ((ops.foldl absStep emptyLists).chain k).length < passes) :
    ∃ m', listSort sh k fuel passes m = some m' ∧
      Repr m' ((ops.foldl absStep emptyLists).reorder k
        (((ops.foldl absStep emptyLists).chain k).mergeSort sh)) := by
  have hrepr := exec_repr ops zeroed m emptyLists zeroed_repr h
  exact listSort_repr sh k fuel passes m _ _ hrepr hfuel
    (bubbleSort_eq sh htotal htrans _ (hrepr.nodup k) passes hpasses)

theorem list_sort_sorts_three :
    ∃ m, exec memStep zeroed someOps = some m ∧
      ∃ m', listSort (fun e1 e2 => decide (e1 ≤ e2)) true 4 10 m = some m' ∧
        Repr m' ((someOps.foldl absStep emptyLists).reorder true
          (((someOps.foldl absStep emptyLists).chain true).mergeSort
            (fun e1 e2 => decide (e1 ≤ e2)))) :=
  ⟨_, rfl, list_sort_sorts someOps _ rfl true (fun e1 e2 => decide (e1 ≤ e2))
    (fun e1 e2 => by simp only [decide_eq_true_eq]; exact Nat.le_total e1 e2)
    (fun e1 e2 e3 => by simp only [decide_eq_true_eq]; exact Nat.le_trans) 4 10 (by decide)
    (by decide)⟩

/-- A handler that refuses two elements both ways keeps the sort of a list of
    the two from ending. -/
theorem list_sort_stuck (m : Mem α κ δ) (a : Lists α κ δ) (h : Repr m a) (k : κ)
    (sh : α → α → Bool) (e1 e2 : α) (hk : a.chain k = [e1, e2]) (h12 : sh e1 e2 = false)
    (h21 : sh e2 e1 = false) (fuel passes : Nat) (hfuel : 2 < fuel) :
    listSort sh k fuel passes m = none :=
  listSort_none sh k fuel passes m a h (by rw [hk]; exact hfuel)
    (by rw [hk]; exact bubbleSort_stuck sh e1 e2 h12 h21 passes)

end LinkedList

end SipPerf
