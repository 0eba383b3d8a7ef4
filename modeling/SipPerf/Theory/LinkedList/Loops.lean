import SipPerf.Theory.LinkedList.Operations

/-!
# Loops over Linked Lists

A loop reads where it goes next before it does anything with an element, so
what it passes are the elements that the list had, as long as what is done
leaves the rest of the list in place.

## Main definitions

* `LeavesRest`, `visit`: A handler that does so, and a loop with it.
* `Lists.flush`, `Mem.flushed`: A list that has let go of its elements.

## Theorems

* `listApply_visit`: What a loop passes.
* `countFrom_length`: How many elements a list has.
* `listFlush_eq`, `flushed_repr`: What letting go of the elements leaves.
-/

namespace SipPerf

namespace LinkedList

open Chain MachineInt

variable {α κ δ : Type*}

/-! ## Loops -/

/-- The elements in the direction of a loop. -/
def along (fwd : Bool) (xs : List α) : List α := if fwd then xs else xs.reverse

/-- The handler is called for one element after the other until it returns
    true. -/
def visit {σ : Type*} (ah : α → Mem α κ δ → σ → (Mem α κ δ × σ) × Bool) :
    List α → Mem α κ δ → σ → (Mem α κ δ × σ) × Option α
  | [], m, s => ((m, s), none)
  | x :: xs, m, s =>
      if (ah x m s).2 then ((ah x m s).1, some x) else visit ah xs (ah x m s).1.1 (ah x m s).1.2

/-- What is left of a list when the handler has been called for an element
    still ends with what comes after it. The handler may unlink the element
    itself. -/
def LeavesRest {σ : Type*} (ah : α → Mem α κ δ → σ → (Mem α κ δ × σ) × Bool) (fwd : Bool) (k : κ) :
    Prop :=
  ∀ (m : Mem α κ δ) (a : Lists α κ δ) (xs ys : List α) (x : α) (s : σ), Repr m a →
    a.chain k = along fwd (xs ++ x :: ys) →
    ∃ a' xs', Repr (ah x m s).1.1 a' ∧ a'.chain k = along fwd (xs' ++ ys)

theorem lastOr_reverse (xs : List α) : lastOr none xs.reverse = headOr none xs := by
  cases xs with
  | nil => rfl
  | cons x xs => rw [List.reverse_cons, lastOr_append_singleton, headOr]

/-- The next element in the direction of a loop. -/
theorem Repr.step {m : Mem α κ δ} {a : Lists α κ δ} (h : Repr m a) (fwd : Bool) (k : κ)
    (xs ys : List α) (x : α) (hk : a.chain k = along fwd (xs ++ x :: ys)) :
    (if fwd then (m.le x).next else (m.le x).prev) = headOr none ys := by
  cases fwd with
  | true => exact (h.links k xs ys x hk).2
  | false =>
      have hrev : a.chain k = ys.reverse ++ x :: xs.reverse := by
        rw [hk, along, if_neg Bool.false_ne_true, List.reverse_append, List.reverse_cons,
          List.append_assoc, List.singleton_append]
      exact (h.links k ys.reverse xs.reverse x hrev).1.trans (lastOr_reverse ys)

theorem applyFrom_visit {σ : Type*} (ah : α → Mem α κ δ → σ → (Mem α κ δ × σ) × Bool) (fwd : Bool)
    (k : κ) (hah : LeavesRest ah fwd k) (ys : List α) : ∀ (m : Mem α κ δ) (a : Lists α κ δ)
    (xs : List α) (s : σ) (fuel : Nat), Repr m a → a.chain k = along fwd (xs ++ ys) →
    ys.length ≤ fuel → applyFrom ah fwd fuel m s (headOr none ys) = some (visit ah ys m s) := by
  induction ys with
  | nil =>
      intro m a xs s fuel _ _ _
      cases fuel <;> rfl
  | cons y ys ih =>
      intro m a xs s fuel h hk hfuel
      cases fuel with
      | zero => exact absurd hfuel (Nat.not_succ_le_zero _)
      | succ fuel =>
          -- The next element is known before the handler is called.
          have hnext := h.step fwd k xs ys y hk
          rcases hah m a xs ys y s h hk with ⟨a', xs', h', hk'⟩
          simp only [headOr, applyFrom, visit, hnext]
          split
          · rfl
          · exact ih _ a' xs' _ fuel h' hk' (Nat.le_of_succ_le_succ hfuel)

theorem listApply_visit {σ : Type*} (ah : α → Mem α κ δ → σ → (Mem α κ δ × σ) × Bool) (fwd : Bool)
    (k : κ) (hah : LeavesRest ah fwd k) (m : Mem α κ δ) (a : Lists α κ δ) (s : σ) (fuel : Nat)
    (h : Repr m a) (hfuel : (a.chain k).length ≤ fuel) :
    listApply ah fwd fuel m k s = some (visit ah (along fwd (a.chain k)) m s) := by
  have htwice : a.chain k = along fwd ([] ++ along fwd (a.chain k)) := by
    cases fwd with
    | true => rfl
    | false => exact (List.reverse_reverse _).symm
  have hlen : (along fwd (a.chain k)).length ≤ fuel := by
    cases fwd with
    | true => exact hfuel
    | false => exact (List.length_reverse ..).trans_le hfuel
  -- Read in its direction, the list begins at its head or its tail.
  have hstart : (if fwd then m.head k else m.tail k) = headOr none (along fwd (a.chain k)) := by
    cases fwd with
    | true => exact h.head_eq k
    | false =>
        rw [if_neg Bool.false_ne_true, h.tail_eq k, along, if_neg Bool.false_ne_true,
          ← lastOr_reverse, List.reverse_reverse]
  rw [listApply, hstart]
  exact applyFrom_visit ah fwd k hah _ m a [] s fuel h htwice hlen

/-- A handler that only takes down what it is called for. -/
def collect (e : α) (m : Mem α κ δ) (seen : List α) : (Mem α κ δ × List α) × Bool :=
  ((m, seen ++ [e]), false)

theorem collect_leavesRest (fwd : Bool) (k : κ) :
    LeavesRest (collect : α → Mem α κ δ → List α → (Mem α κ δ × List α) × Bool) fwd k := by
  intro m a xs ys x s h hk
  refine ⟨a, xs ++ [x], h, ?_⟩
  rw [hk, List.append_assoc, List.singleton_append]

theorem visit_collect (m : Mem α κ δ) (xs : List α) : ∀ (seen : List α),
    visit collect xs m seen = ((m, seen ++ xs), none) := by
  induction xs with
  | nil =>
      intro seen
      rw [List.append_nil]
      rfl
  | cons x xs ih =>
      intro seen
      calc visit collect (x :: xs) m seen = visit collect xs m (seen ++ [x]) := rfl
        _ = ((m, seen ++ x :: xs), none) := by
            rw [ih, List.append_assoc, List.singleton_append]

theorem countFrom_length (m : Mem α κ δ) (a : Lists α κ δ) (k : κ) (h : Repr m a) (ys : List α) :
    ∀ (xs : List α) (n fuel : Nat), a.chain k = xs ++ ys → ys.length ≤ fuel → n < 2 ^ 32 →
    countFrom fuel m (headOr none ys) n = some (u32 (n + ys.length)) := by
  induction ys with
  | nil =>
      intro xs n fuel _ _ hn
      have hu : u32 (n + ([] : List α).length) = n := Nat.mod_eq_of_lt hn
      rw [hu]
      cases fuel <;> rfl
  | cons y ys ih =>
      intro xs n fuel hk hfuel _
      cases fuel with
      | zero => exact absurd hfuel (Nat.not_succ_le_zero _)
      | succ fuel =>
          have hk' : a.chain k = (xs ++ [y]) ++ ys := by
            rw [hk, List.append_assoc, List.singleton_append]
          have hu : u32 (n + 1) < 2 ^ 32 := Nat.mod_lt _ (by decide)
          -- Wrapping at every element comes to wrapping once.
          have hmod : u32 (u32 (n + 1) + ys.length) = u32 (n + 1 + ys.length) :=
            Nat.mod_add_mod (n + 1) (2 ^ 32) ys.length
          calc countFrom (fuel + 1) m (some y) n
              = countFrom fuel m (m.le y).next (u32 (n + 1)) := rfl
            _ = countFrom fuel m (headOr none ys) (u32 (n + 1)) := by rw [(h.links k xs ys y hk).2]
            _ = some (u32 (u32 (n + 1) + ys.length)) :=
                ih (xs ++ [y]) _ fuel hk' (Nat.le_of_succ_le_succ hfuel) hu
            _ = some (u32 (n + (y :: ys).length)) := by
                rw [hmod, List.length_cons, Nat.add_assoc, Nat.add_comm 1]

/-- A handler that only tests what it is called for ends a loop at the first
    element that passes. -/
theorem visit_find {σ : Type*} (test : α → Bool) (m : Mem α κ δ) (s : σ) (xs : List α) :
    visit (fun x m s => ((m, s), test x)) xs m s = ((m, s), xs.find? test) := by
  induction xs with
  | nil => rfl
  | cons x xs ih =>
      rw [visit, List.find?_cons]
      cases test x with
      | true => rfl
      | false => exact ih

theorem test_leavesRest {σ : Type*} (test : α → Bool) (fwd : Bool) (k : κ) :
    LeavesRest (fun x (m : Mem α κ δ) (s : σ) => ((m, s), test x)) fwd k := by
  intro m a xs ys x s h hk
  refine ⟨a, xs ++ [x], h, ?_⟩
  rw [hk, List.append_assoc, List.singleton_append]

/-! ## Letting go of the elements -/

section Flush

variable [DecidableEq α]

/-- A loop that lets go of the elements it passes. -/
theorem clearFrom_spec (ys : List α) : ∀ (m : Mem α κ δ) (fuel : Nat), ys.Nodup →
    (∀ xs x zs, ys = xs ++ x :: zs → (m.le x).next = headOr none zs) → ys.length ≤ fuel →
    clearFrom fuel m (headOr none ys) =
      some ({ m with le := fun e => if e ∈ ys then ⟨none, none, none, none⟩ else m.le e },
        ys.map (fun e => (m.le e).data)) := by
  induction ys with
  | nil =>
      intro m fuel _ _ _
      simp only [headOr, List.not_mem_nil, if_false, List.map_nil]
      cases fuel <;> rfl
  | cons y ys ih =>
      intro m fuel hnd hnext hfuel
      have hout := List.nodup_cons.mp hnd
      cases fuel with
      | zero => exact absurd hfuel (Nat.not_succ_le_zero _)
      | succ fuel =>
          -- Clearing `y` does not touch the rest, where it is not found again.
          have hkeep : ∀ x ∈ ys, (m.setLe y ⟨none, none, none, none⟩).le x = m.le x := by
            intro x hx
            have hne : x ≠ y := fun hc => hout.1 (hc ▸ hx)
            exact Function.update_of_ne hne _ _
          have hrest := ih (m.setLe y ⟨none, none, none, none⟩) fuel hout.2 (fun xs x zs heq => by
            rw [hkeep x (heq ▸ List.mem_append_right xs List.mem_cons_self)]
            exact hnext (y :: xs) x zs (by rw [heq, List.cons_append]))
            (Nat.le_of_succ_le_succ hfuel)
          have hdata : ys.map (fun e => ((m.setLe y ⟨none, none, none, none⟩).le e).data) =
              ys.map (fun e => (m.le e).data) :=
            List.map_congr_left (fun x hx => by rw [hkeep x hx])
          have hle : (fun e => if e ∈ ys then ⟨none, none, none, none⟩
              else (m.setLe y ⟨none, none, none, none⟩).le e) =
              fun e => if e ∈ y :: ys then ⟨none, none, none, none⟩ else m.le e := by
            funext e
            by_cases hy : e = y
            · simp only [hy, hout.1, if_false, List.mem_cons, true_or, if_true, Mem.setLe,
                Function.update_self]
            · simp only [List.mem_cons, hy, false_or, Mem.setLe, Function.update_of_ne hy]
          rw [headOr, clearFrom, hnext [] y ys rfl, hrest, hdata, hle]
          rfl

variable [DecidableEq κ]

/-- A list has let go of its elements. -/
def Lists.flush (a : Lists α κ δ) (k : κ) : Lists α κ δ :=
  { chain := Function.update a.chain k []
    owner := fun e => if e ∈ a.chain k then none else a.owner e
    data := fun e => if e ∈ a.chain k then none else a.data e }

/-- The memory once a list has let go of these elements. -/
def Mem.flushed (m : Mem α κ δ) (k : κ) (ys : List α) : Mem α κ δ :=
  { le := fun e => if e ∈ ys then ⟨none, none, none, none⟩ else m.le e
    head := Function.update m.head k none
    tail := Function.update m.tail k none }

theorem listFlush_eq (m : Mem α κ δ) (a : Lists α κ δ) (k : κ) (fuel : Nat) (h : Repr m a)
    (hfuel : (a.chain k).length ≤ fuel) :
    listFlush fuel m k = some (m.flushed k (a.chain k), (a.chain k).map a.data) := by
  have hclear := clearFrom_spec (a.chain k) m fuel (h.nodup k)
    (fun xs x zs heq => (h.links k xs zs x heq).2) hfuel
  rw [← h.head_eq k] at hclear
  have hdata : (a.chain k).map (fun e => (m.le e).data) = (a.chain k).map a.data :=
    List.map_congr_left (fun x _ => h.data x)
  rw [listFlush, hclear, hdata]
  rfl

theorem flushed_repr (m : Mem α κ δ) (a : Lists α κ δ) (k : κ) (h : Repr m a) :
    Repr (m.flushed k (a.chain k)) (a.flush k) := by
  refine ⟨fun k' => ?_, fun k' => ?_, fun k' e => ?_, fun e => ?_, fun e => ?_⟩
  · by_cases hk : k' = k
    · rw [hk]
      simp only [Lists.flush, Function.update_self]
      exact ⟨by simp only [Mem.fwd, Mem.flushed, Function.update_self],
        by simp only [Mem.bwd, Mem.flushed, Function.update_self]⟩
    · simp only [Lists.flush, Function.update_of_ne hk]
      refine path_congr none (a.chain k') none (h.path k') ?_ ?_ (fun x hx => ?_)
      · simp only [Mem.fwd, Mem.flushed, Function.update_of_ne hk]
      · simp only [Mem.bwd, Mem.flushed, Function.update_of_ne hk]
      -- What is in another list is not among what is let go of.
      · have hout : x ∉ a.chain k := h.disjoint k' k (Ne.symm hk) x hx
        simp only [Mem.fwd, Mem.bwd, Mem.flushed, hout, if_false, and_self]
  · by_cases hk : k' = k
    · rw [hk]
      simp only [Lists.flush, Function.update_self]
      exact List.nodup_nil
    · simp only [Lists.flush, Function.update_of_ne hk]
      exact h.nodup k'
  · simp only [Lists.flush, Mem.flushed]
    by_cases he : e ∈ a.chain k
    · by_cases hk : k' = k
      · simp only [hk, Function.update_self, List.not_mem_nil, he, if_true, reduceCtorEq]
      · have hout := h.disjoint k k' hk e he
        simp only [Function.update_of_ne hk, hout, he, if_true, reduceCtorEq]
    · by_cases hk : k' = k
      · have hnot : (m.le e).list ≠ some k := fun hc => he ((h.owner k e).mpr hc)
        simp only [hk, Function.update_self, List.not_mem_nil, he, if_false, hnot]
      · simp only [Function.update_of_ne hk, he, if_false]
        exact h.owner k' e
  · simp only [Lists.flush, Mem.flushed]
    split
    · rfl
    · exact h.list e
  · simp only [Lists.flush, Mem.flushed]
    split
    · rfl
    · exact h.data e

end Flush

end LinkedList

end SipPerf
