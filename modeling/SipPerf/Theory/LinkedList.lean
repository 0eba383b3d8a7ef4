import SipPerf.Theory.LinkedList.Loops

/-!
# What Linked Lists Hold

The memory of linked lists stands for lists. Any number of lists share the
elements, and every operation changes the memory as the same operation on
plain lists changes those. What a loop over a list passes can therefore be read
off the operations.

## Theorems

* `lists_follow_operations`: Any operations in any order.
* `list_apply_visits`: A loop passes the elements a list had when it began.
-/

namespace SipPerf

namespace LinkedList

open MachineInt Transition

variable {α κ δ : Type*}

section Runs

variable [DecidableEq α] [DecidableEq κ]

/-- After any operations on any lists, a loop passes the elements of a list in
    the order that the same operations on plain lists give, and in the opposite
    order backwards. Their number is that of the list, unless it overflows, and
    every element knows its list. -/
theorem lists_follow_operations (ops : List (ListOp α κ δ)) (m : Mem α κ δ)
    (h : exec memStep zeroed ops = some m) (k : κ) (fuel : Nat)
    (hfuel : ((ops.foldl absStep emptyLists).chain k).length ≤ fuel) :
    listApply collect true fuel m k [] =
        some ((m, (ops.foldl absStep emptyLists).chain k), none) ∧
      listApply collect false fuel m k [] =
        some ((m, ((ops.foldl absStep emptyLists).chain k).reverse), none) ∧
      listCount fuel m k = some (u32 ((ops.foldl absStep emptyLists).chain k).length) ∧
      ∀ e, e ∈ (ops.foldl absStep emptyLists).chain k ↔ (m.le e).list = some k := by
  have hrepr := exec_repr ops zeroed m emptyLists zeroed_repr h
  refine ⟨?_, ?_, ?_, hrepr.owner k⟩
  · rw [listApply_visit collect true k (collect_leavesRest true k) m _ [] fuel hrepr hfuel,
      visit_collect]
    rfl
  · rw [listApply_visit collect false k (collect_leavesRest false k) m _ [] fuel hrepr hfuel,
      visit_collect]
    rfl
  · rw [listCount, hrepr.head_eq k, countFrom_length m _ k hrepr _ [] 0 fuel rfl hfuel (by decide),
      Nat.zero_add]

/-- Three elements of one list and one of another. -/
def someOps : List (ListOp Nat Bool Nat) :=
  [.append true 3 none, .append false 9 none, .prepend true 8 none, .append true 9 none,
    .insertAfter true 8 5 none]

theorem lists_follow_operations_some :
    ∃ m, exec memStep zeroed someOps = some m ∧
      listApply collect true 3 m true [] =
        some ((m, (someOps.foldl absStep emptyLists).chain true), none) ∧
      listApply collect false 3 m true [] =
        some ((m, ((someOps.foldl absStep emptyLists).chain true).reverse), none) ∧
      listCount 3 m true = some (u32 ((someOps.foldl absStep emptyLists).chain true).length) ∧
      ∀ e, e ∈ (someOps.foldl absStep emptyLists).chain true ↔ (m.le e).list = some true :=
  ⟨_, rfl, lists_follow_operations someOps _ rfl true 3 (by decide)⟩

/-- An element that was refused by a second list, and the order of the
    first. -/
example : (someOps.foldl absStep emptyLists).chain true = [8, 5, 3] ∧
    (someOps.foldl absStep emptyLists).chain false = [9] := by decide

/-- A handler that unlinks the elements it is called for. -/
theorem unlinking_leavesRest {σ : Type*} (f : α → σ → σ) (stop : α → σ → Bool) (fwd : Bool) (k : κ) :
    LeavesRest (δ := δ) (fun x m s => ((listUnlink m x, f x s), stop x s)) fwd k := by
  intro m a xs ys x s h hk
  refine ⟨a.remove x, xs, listUnlink_repr m a x h, ?_⟩
  have hnd := h.nodup k
  have hin : x ∈ a.chain k := by
    rw [hk]
    cases fwd <;> simp [along]
  have hown : a.owner x = some k := (h.list x).symm.trans ((h.owner k x).mp hin)
  rw [Lists.remove, hown]
  simp only [Function.update_self]
  have hmem : ∀ y, y ∈ (a.chain k).erase x ↔ y ≠ x ∧ y ∈ a.chain k := fun y => hnd.mem_erase_iff
  rw [hk] at hnd ⊢
  cases fwd with
  | true =>
      have hout := List.nodup_cons.mp (List.nodup_middle.mp hnd)
      rw [along, if_pos rfl, along, if_pos rfl,
        List.erase_append_right _ (fun hc => hout.1 (List.mem_append_left ys hc)),
        List.erase_cons_head]
  | false =>
      rw [along, if_neg Bool.false_ne_true] at hnd
      have hout := List.nodup_cons.mp (List.nodup_middle.mp (List.nodup_reverse.mp hnd))
      rw [along, if_neg Bool.false_ne_true, along, if_neg Bool.false_ne_true, List.reverse_append,
        List.reverse_cons, List.append_assoc, List.singleton_append,
        List.erase_append_right _ (fun hc => hout.1
          (List.mem_append_right xs (List.mem_reverse.mp hc))), List.erase_cons_head,
        List.reverse_append]

/-- After any operations on any lists, a loop calls its handler for the
    elements a list had when it began, one after the other until the handler
    returns true, even if the handler unlinks the elements it is called for. -/
theorem list_apply_visits (ops : List (ListOp α κ δ)) (m : Mem α κ δ)
    (h : exec memStep zeroed ops = some m) {σ : Type*}
    (ah : α → Mem α κ δ → σ → (Mem α κ δ × σ) × Bool) (fwd : Bool) (k : κ)
    (hah : LeavesRest ah fwd k) (s : σ) (fuel : Nat)
    (hfuel : ((ops.foldl absStep emptyLists).chain k).length ≤ fuel) :
    listApply ah fwd fuel m k s =
      some (visit ah (along fwd ((ops.foldl absStep emptyLists).chain k)) m s) :=
  listApply_visit ah fwd k hah m _ s fuel (exec_repr ops zeroed m emptyLists zeroed_repr h) hfuel

/-- All elements are unlinked from behind. -/
theorem list_apply_visits_unlinking :
    ∃ m, exec memStep zeroed someOps = some m ∧
      listApply (fun x m n => ((listUnlink m x, n + 1), false)) false 3 m true 0 =
        some (visit (fun x m n => ((listUnlink m x, n + 1), false))
          (along false ((someOps.foldl absStep emptyLists).chain true)) m 0) :=
  ⟨_, rfl, list_apply_visits someOps _ rfl _ false true
    (unlinking_leavesRest (fun _ n => n + 1) (fun _ _ => false) false true) 0 3 (by decide)⟩

end Runs

end LinkedList

end SipPerf
