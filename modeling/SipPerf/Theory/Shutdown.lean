import Mathlib.Algebra.BigOperators.Group.List.Basic
import Mathlib.Data.List.GetD
import Mathlib.Order.Nat
import SipPerf.Core.Stack

/-!
# Shutdown

When the exit handler runs, and who still holds a reference then. The two
calls of `Cleanup` release two references on each stack, and the program
holds only one. If nothing else holds a reference the destructor makes up the
difference: closing brings the count to zero, the exit handler runs, and the
reference the destructor took is the one that freeing releases. If a session
or a registration holds a reference then closing does not bring the count to
zero, and the second release is taken out of what the others hold. The count
reaches zero one release too early, with one holder left, and that is when
the exit handler runs.

So the shutdown waits for outstanding work exactly when there is none. What
does hold in every case is that the handler runs once for each stack: the
flag that makes the destructor call it is set by closing, and the destructor
clears it.

The count is a 32-bit value, and the argument is carried out with the
wrapping arithmetic of the source, for any number of holders.

## Main definitions

* `exitsOf`, `owed`: Calls of the exit handler, made and due.
* `Graceful`: The exit handler ran when it should.

## Theorems

* `memDeref_cases`: What releasing a reference can do.
* `exec_onStack`: Something done to each of several stacks.
* `exitsOf_le_one`: The exit handler runs at most once for a stack.
* `shutdown_idle`: Without holders all records are of no holders.
* `shutdown_busy`: What the shutdown does to each stack.
* `early_exit`: With a holder, some order of releases is cut short.
* `shutdown_waits_iff_idle`: The shutdown waits exactly when nothing is held.
-/

namespace SipPerf

namespace Stack

open MachineInt Transition

/-- The calls of the exit handler for a stack. -/
def exitsOf (w : Stacks) (i : Nat) : Nat := w.exits.countP (fun x => decide (x.stack = i))

/-- The exit handler is called at most once for a stack, never while something
    holds a reference on it, and the last active stack goes only when nothing
    holds a reference on any. -/
def Graceful (w : Stacks) : Prop :=
  (∀ i, exitsOf w i ≤ 1) ∧ ∀ x ∈ w.exits, x.held = 0 ∧ (x.active = 0 → x.heldAll = 0)

/-! ## One stack -/

/-- What releasing a reference can do: lower the count, call the exit handler
    and leave the reference of the destructor, or free the object. -/
theorem memDeref_cases (s s' : Sip) (b : Bool) (h : memDeref s = some (s', b)) :
    (0 < dec32 s.nrefs ∧ s' = { s with nrefs := dec32 s.nrefs } ∧ b = false) ∨
      (dec32 s.nrefs = 0 ∧ s.closing = true ∧ s' = sipAlloc ∧ b = true) ∨
      (dec32 s.nrefs = 0 ∧ s.closing = false ∧ s' = ⟨0, false, true⟩ ∧ b = false) := by
  unfold memDeref at h
  cases hf : s.freed with
  | true => simp only [hf, if_true, reduceCtorEq] at h
  | false =>
      simp only [hf, Bool.false_eq_true, if_false] at h
      by_cases hpos : 0 < dec32 s.nrefs
      · rw [if_pos hpos, Option.some.injEq, Prod.mk.injEq] at h
        exact Or.inl ⟨hpos, h.1.symm, h.2.symm⟩
      · rw [if_neg hpos] at h
        -- The last reference is gone, and the destructor decides.
        have hzero : dec32 s.nrefs = 0 := Nat.eq_zero_of_not_pos hpos
        cases hc : s.closing with
        | true =>
            have hone : 0 < u32 (0 + 1) := by decide
            simp only [destructor, memRef, hc, if_true, hzero, if_pos hone, Option.some.injEq,
              Prod.mk.injEq] at h
            refine Or.inr (Or.inl ⟨hzero, rfl, ?_, h.2.symm⟩)
            rw [← h.1]
            rfl
        | false =>
            simp only [destructor, hc, Bool.false_eq_true, if_false, hzero] at h
            rw [if_neg (lt_irrefl 0), Option.some.injEq, Prod.mk.injEq] at h
            exact Or.inr (Or.inr ⟨hzero, rfl, h.1.symm, h.2.symm⟩)

theorem memDeref_total (s : Sip) (h : s.freed = false) : ∃ s' b, memDeref s = some (s', b) := by
  unfold memDeref
  rw [h]
  simp only [Bool.false_eq_true, if_false]
  split
  · exact ⟨_, _, rfl⟩
  · split
    · exact ⟨_, _, rfl⟩
    · exact ⟨_, _, rfl⟩

/-- An object that is closed is not freed by that. -/
theorem sipClose_total (s : Sip) (h : s.freed = false) :
    ∃ s' b, sipClose s = some (s', b) ∧ s'.freed = false := by
  unfold sipClose
  cases hc : s.closing with
  | true =>
      rw [if_pos rfl]
      exact ⟨s, false, rfl, h⟩
  | false =>
      rw [if_neg (by decide)]
      -- The closing flag is set, so the case that frees the object is out.
      rcases memDeref_total { s with closing := true } h with ⟨s', b, hs⟩
      refine ⟨s', b, hs, ?_⟩
      rcases memDeref_cases _ s' b hs with ⟨_, hs', _⟩ | ⟨_, _, hs', _⟩ | ⟨_, hclosing, _, _⟩
      · rw [hs']
        exact h
      · rw [hs']
        rfl
      · exact absurd hclosing (by simp only [Bool.true_eq_false, not_false_eq_true])

/-- A stack with sessions and registrations on it. -/
theorem hold_iterate (r : Nat) :
    hold^[r] ⟨sipAlloc, 0⟩ = ⟨{ nrefs := u32 (r + 1), closing := false, freed := false }, r⟩ := by
  induction r with
  | zero => rfl
  | succ r ih =>
      rw [Function.iterate_succ_apply', ih]
      simp only [hold, memRef, u32, Nat.mod_add_mod]

/-! ## Something done to a stack -/

/-- What becomes of the stacks when something is done to one of them. -/
theorem onStack_cases (f : Sip → Option (Sip × Bool)) (w w' : Stacks) (i : Nat)
    (h : onStack f w i = some w') :
    ∃ m b, f (w.stack i).sip = some (m, b) ∧
      w'.stack = Function.update w.stack i { w.stack i with sip := m } ∧
      w'.count = w.count ∧ w'.listed = w.listed ∧
      w'.exits = w.exits ++
        (if b then [⟨i, (w.stack i).held, heldAll (setSip w i m), w.activeSipStacks - 1⟩]
          else []) := by
  unfold onStack at h
  cases hf : f (w.stack i).sip with
  | none => simp only [hf, reduceCtorEq] at h
  | some r =>
      rcases r with ⟨m, b⟩
      simp only [hf, Option.some.injEq] at h
      refine ⟨m, b, rfl, ?_⟩
      cases b with
      | true =>
          rw [if_pos rfl] at h
          rw [← h]
          refine ⟨rfl, rfl, rfl, ?_⟩
          simp only [exitHandler, setSip, Function.update_self, if_true]
      | false =>
          rw [if_neg (by decide)] at h
          rw [← h]
          refine ⟨rfl, rfl, rfl, ?_⟩
          simp only [setSip, Bool.false_eq_true, if_false, List.append_nil]

theorem onStack_held (f : Sip → Option (Sip × Bool)) (w w' : Stacks) (i : Nat)
    (h : onStack f w i = some w') (j : Nat) : (w'.stack j).held = (w.stack j).held := by
  rcases onStack_cases f w w' i h with ⟨m, b, _, hstack, _⟩
  rw [hstack]
  by_cases hji : j = i
  · rw [hji, Function.update_self]
  · rw [Function.update_of_ne hji]

/-! ## The exit handler runs once -/

/-- The calls of the exit handler for a stack, with the one that is due when
    its count next reaches zero. -/
def owed (w : Stacks) (i : Nat) : Nat :=
  exitsOf w i + if (w.stack i).sip.closing then 1 else 0

theorem memDeref_closing (s s' : Sip) (b : Bool) (h : memDeref s = some (s', b)) :
    (if b then 1 else 0) + (if s'.closing then 1 else 0) = if s.closing then 1 else 0 := by
  rcases memDeref_cases s s' b h with ⟨_, hs', hb⟩ | ⟨_, hc, hs', hb⟩ | ⟨_, hc, hs', hb⟩
  · rw [hs', hb]
    simp only [Bool.false_eq_true, if_false, Nat.zero_add]
  · rw [hs', hb, hc]
    rfl
  · rw [hs', hb, hc]
    rfl

theorem sipClose_closing (s s' : Sip) (b : Bool) (h : sipClose s = some (s', b)) :
    (if b then 1 else 0) + (if s'.closing then 1 else 0) ≤ 1 := by
  unfold sipClose at h
  cases hc : s.closing with
  | true =>
      simp only [hc, if_true, Option.some.injEq, Prod.mk.injEq] at h
      rw [← h.1, ← h.2, hc]
      decide
  | false =>
      simp only [hc, Bool.false_eq_true, if_false] at h
      rw [memDeref_closing _ s' b h]
      simp only [if_true, le_refl]

theorem onStack_exitsOf (f : Sip → Option (Sip × Bool)) (w w' : Stacks) (i : Nat)
    (h : onStack f w i = some w') :
    ∃ m b, f (w.stack i).sip = some (m, b) ∧
      ∀ j, exitsOf w' j = exitsOf w j + if b ∧ i = j then 1 else 0 := by
  rcases onStack_cases f w w' i h with ⟨m, b, hf, _, _, _, hexits⟩
  refine ⟨m, b, hf, fun j => ?_⟩
  unfold exitsOf
  rw [hexits, List.countP_append]
  cases b with
  | true => simp only [if_true, List.countP_singleton, true_and, decide_eq_true_eq]
  | false => simp only [Bool.false_eq_true, if_false, List.countP_nil, false_and]

/-- What is owed for the stacks after something is done to one of them. -/
theorem onStack_owed (f : Sip → Option (Sip × Bool)) (w w' : Stacks) (i : Nat)
    (h : onStack f w i = some w') :
    (∀ j, j ≠ i → owed w' j = owed w j) ∧
      ∃ m b, f (w.stack i).sip = some (m, b) ∧
        owed w' i = exitsOf w i + ((if b then 1 else 0) + if m.closing then 1 else 0) := by
  rcases onStack_cases f w w' i h with ⟨m, b, hf, hstack, _⟩
  rcases onStack_exitsOf f w w' i h with ⟨m', b', hf', hcount⟩
  rw [hf, Option.some.injEq, Prod.mk.injEq] at hf'
  rw [← hf'.2] at hcount
  refine ⟨fun j hj => ?_, m, b, hf, ?_⟩
  · unfold owed
    rw [hcount j, hstack, Function.update_of_ne hj, if_neg (fun hc => hj hc.2.symm), Nat.add_zero]
  · unfold owed
    rw [hcount i, hstack, Function.update_self, Nat.add_assoc]
    simp only [and_true]

/-- Releasing a reference settles what is owed, and owes nothing new. -/
theorem onStack_memDeref_owed (w w' : Stacks) (i : Nat) (h : onStack memDeref w i = some w')
    (j : Nat) : owed w' j = owed w j := by
  rcases onStack_owed memDeref w w' i h with ⟨hother, m, b, hf, hown⟩
  by_cases hji : j = i
  · rw [hji, hown, memDeref_closing _ m b hf]
    rfl
  · exact hother j hji

/-- Closing stacks for which the exit handler has not been called. -/
theorem exec_sipClose_owed : ∀ (is : List Nat) (w w' : Stacks), is.Nodup →
    (∀ i ∈ is, exitsOf w i = 0) → (∀ i, owed w i ≤ 1) →
    exec (onStack sipClose) w is = some w' → ∀ i, owed w' i ≤ 1 := by
  intro is
  induction is with
  | nil =>
      intro w w' _ _ hle hrun
      simp only [exec, Option.some.injEq] at hrun
      rw [← hrun]
      exact hle
  | cons k is ih =>
      intro w w' hnd hzero hle hrun
      rcases exec_cons _ w w' k is hrun with ⟨w1, hw1, hrest⟩
      rcases onStack_owed sipClose w w1 k hw1 with ⟨hother, m, b, hf, hown⟩
      rw [List.nodup_cons] at hnd
      have hclose := sipClose_closing _ m b hf
      refine ih w1 w' hnd.2 (fun i hi => ?_) (fun i => ?_) hrest
      · -- The stacks that are still to be closed are not the one just closed.
        have hne : k ≠ i := fun hc => hnd.1 (hc ▸ hi)
        rcases onStack_exitsOf sipClose w w1 k hw1 with ⟨_, _, _, hcount⟩
        rw [hcount i, hzero i (List.mem_cons_of_mem k hi), if_neg (fun hc => hne hc.2)]
      · by_cases hik : i = k
        · rw [hik, hown, hzero k List.mem_cons_self, Nat.zero_add]
          exact hclose
        · rw [hother i hik]
          exact hle i

theorem setHeld_owed (w : Stacks) (i held j : Nat) : owed (setHeld w i held) j = owed w j := by
  unfold owed setHeld
  by_cases hji : j = i
  · simp only [hji, Function.update_self]
    rfl
  · simp only [Function.update_of_ne hji]
    rfl

theorem release_owed (w w' : Stacks) (i : Nat) (h : release w i = some w') (j : Nat) :
    owed w' j = owed w j := by
  unfold release at h
  split at h
  · rw [onStack_memDeref_owed _ w' i h j, setHeld_owed]
  · exact absurd h (by simp only [reduceCtorEq, not_false_eq_true])

theorem exec_onStack_listed (f : Sip → Option (Sip × Bool)) (is : List Nat) (w w' : Stacks)
    (hl : w.listed = true) (h : exec (onStack f) w is = some w') : w'.listed = true :=
  exec_invariant (onStack f) (fun v => v.listed = true) (fun v i v' hv hs => by
    rcases onStack_cases f v v' i hs with ⟨_, _, _, _, _, hlisted, _⟩
    rw [hlisted, hv]) is w w' hl h

theorem shutdown_of_halves (w w1 w2 : Stacks) (hl : w.listed = true)
    (hclose : exec (onStack sipClose) w (List.range w.count) = some w1)
    (hfree : exec (onStack memDeref) w1 (List.range w1.count) = some w2) :
    shutdown w = some { w2 with listed := false } := by
  have hl1 := exec_onStack_listed sipClose _ w w1 hl hclose
  simp only [shutdown, closeSipStacks, if_pos hl, hclose, freeSipStacks, if_pos hl1, hfree]

/-- Shutting down, in its two halves. -/
theorem shutdown_cases (w w' : Stacks) (hl : w.listed = true) (h : shutdown w = some w') :
    ∃ w1 w2, exec (onStack sipClose) w (List.range w.count) = some w1 ∧
      exec (onStack memDeref) w1 (List.range w1.count) = some w2 ∧
      w' = { w2 with listed := false } := by
  cases hc : exec (onStack sipClose) w (List.range w.count) with
  | none => simp only [shutdown, closeSipStacks, if_pos hl, hc, reduceCtorEq] at h
  | some w1 =>
      have hl1 := exec_onStack_listed sipClose _ w w1 hl hc
      cases hd : exec (onStack memDeref) w1 (List.range w1.count) with
      | none =>
          simp only [shutdown, closeSipStacks, if_pos hl, hc, freeSipStacks, if_pos hl1, hd,
            reduceCtorEq] at h
      | some w2 =>
          rw [shutdown_of_halves w w1 w2 hl hc hd, Option.some.injEq] at h
          exact ⟨w1, w2, rfl, hd, h.symm⟩

theorem busy_stack (counts : List Nat) (i : Nat) :
    (busy counts).stack i =
      ⟨{ nrefs := u32 (counts.getD i 0 + 1), closing := false, freed := false },
        counts.getD i 0⟩ := hold_iterate _

theorem shutdown_owed (counts : List Nat) (w : Stacks) (h : shutdown (busy counts) = some w) :
    ∀ i, owed w i ≤ 1 := by
  rcases shutdown_cases (busy counts) w rfl h with ⟨w1, w2, hclose, hfree, hw⟩
  have hfresh : ∀ i, owed (busy counts) i = 0 := fun i => by
    unfold owed
    rw [busy_stack]
    rfl
  have hclosed : ∀ i, owed w1 i ≤ 1 :=
    exec_sipClose_owed _ (busy counts) w1 List.nodup_range (fun i _ => rfl)
      (fun i => le_trans (le_of_eq (hfresh i)) (Nat.zero_le 1)) hclose
  -- Freeing may settle what closing has left owed, and adds nothing.
  have hfreed : ∀ i, owed w2 i ≤ 1 :=
    exec_invariant (onStack memDeref) (fun v => ∀ i, owed v i ≤ 1)
      (fun v k v' hv hs i => by
        rw [onStack_memDeref_owed v v' k hs i]
        exact hv i) _ w1 w2 hclosed hfree
  rw [hw]
  exact hfreed

/-- Whatever is held, the exit handler runs at most once for a stack. -/
theorem exitsOf_le_one (counts : List Nat) (w w' : Stacks) (order : List Nat)
    (hshut : shutdown (busy counts) = some w) (hrun : exec release w order = some w') (i : Nat) :
    exitsOf w' i ≤ 1 := by
  have howed : ∀ j, owed w' j ≤ 1 :=
    exec_invariant release (fun v => ∀ j, owed v j ≤ 1)
      (fun v k v' hv hs j => by
        rw [release_owed v v' k hs j]
        exact hv j) order w w' (shutdown_owed counts w hshut) hrun
  exact le_trans (Nat.le_add_right _ _) (howed i)

/-! ## Nothing held -/

/-- Nothing holds a reference, and nothing did when the exit handler ran. -/
structure Idle (w : Stacks) : Prop where
  held : ∀ i, (w.stack i).held = 0
  exits : ∀ x ∈ w.exits, x.held = 0 ∧ x.heldAll = 0

theorem onStack_idle (f : Sip → Option (Sip × Bool)) (w : Stacks) (i : Nat) (w' : Stacks)
    (hw : Idle w) (h : onStack f w i = some w') : Idle w' := by
  refine ⟨fun j => (onStack_held f w w' i h j).trans (hw.held j), fun x hx => ?_⟩
  rcases onStack_cases f w w' i h with ⟨m, b, _, _, _, _, hexits⟩
  rw [hexits, List.mem_append] at hx
  rcases hx with hx | hx
  · exact hw.exits x hx
  · cases b with
    | true =>
        simp only [if_true, List.mem_singleton] at hx
        rw [hx]
        refine ⟨hw.held i, List.sum_eq_zero fun n hn => ?_⟩
        rcases List.mem_map.mp hn with ⟨j, _, hj⟩
        rw [← hj]
        simp only [setSip]
        by_cases hji : j = i
        · rw [hji, Function.update_self]
          exact hw.held i
        · rw [Function.update_of_ne hji]
          exact hw.held j
    | false => exact absurd hx (by simp only [Bool.false_eq_true, if_false, List.not_mem_nil,
        not_false_eq_true])

theorem shutdown_idle (w w' : Stacks) (hl : w.listed = true) (hw : Idle w)
    (h : shutdown w = some w') : Idle w' := by
  rcases shutdown_cases w w' hl h with ⟨w1, w2, hclose, hfree, hw'⟩
  have h1 := exec_invariant _ Idle (fun v i v' hv hs => onStack_idle sipClose v i v' hv hs) _ w w1
    hw hclose
  have h2 := exec_invariant _ Idle (fun v i v' hv hs => onStack_idle memDeref v i v' hv hs) _ w1 w2
    h1 hfree
  rw [hw']
  exact ⟨h2.held, h2.exits⟩

/-- Where nothing is held nothing can be released. -/
theorem exec_release_idle (w w' : Stacks) (hw : Idle w) (is : List Nat)
    (h : exec release w is = some w') : w' = w := by
  cases is with
  | nil =>
      simp only [exec, Option.some.injEq] at h
      exact h.symm
  | cons i is =>
      rcases exec_cons release w w' i is h with ⟨w1, hw1, _⟩
      unfold release at hw1
      rw [if_neg (by rw [hw.held i]; exact lt_irrefl 0)] at hw1
      exact absurd hw1 (by simp only [reduceCtorEq, not_false_eq_true])

/-! ## Something held -/

/-- Something done to each of several stacks is done to each as if to it
    alone, and leaves the others as they were. -/
theorem exec_onStack (f : Sip → Option (Sip × Bool)) : ∀ (is : List Nat) (w : Stacks), is.Nodup →
    (∀ i ∈ is, ∃ m b, f (w.stack i).sip = some (m, b)) →
    ∃ w', exec (onStack f) w is = some w' ∧ w'.count = w.count ∧
      (∀ x ∈ w.exits, x ∈ w'.exits) ∧ (∀ i, i ∉ is → w'.stack i = w.stack i) ∧
      ∀ i ∈ is, ∀ m b, f (w.stack i).sip = some (m, b) →
        w'.stack i = ⟨m, (w.stack i).held⟩ ∧
        (b = true → ∃ x ∈ w'.exits, x.held = (w.stack i).held) := by
  intro is
  induction is with
  | nil =>
      intro w _ _
      exact ⟨w, rfl, rfl, fun x hx => hx, fun i _ => rfl,
        fun i hi => absurd hi List.not_mem_nil⟩
  | cons k is ih =>
      intro w hnd htotal
      rw [List.nodup_cons] at hnd
      rcases htotal k List.mem_cons_self with ⟨m, b, hf⟩
      have hstep : ∃ w1, onStack f w k = some w1 := by
        unfold onStack
        rw [hf]
        exact ⟨_, rfl⟩
      rcases hstep with ⟨w1, hw1⟩
      rcases onStack_cases f w w1 k hw1 with ⟨m', b', hf', hstack, hcount, _, hexits⟩
      rw [hf, Option.some.injEq, Prod.mk.injEq] at hf'
      rw [← hf'.1] at hstack hexits
      rw [← hf'.2] at hexits
      -- The first stack is done with, and the others have not been touched.
      have hother : ∀ i, i ≠ k → w1.stack i = w.stack i := fun i hi => by
        rw [hstack, Function.update_of_ne hi]
      have hlater : ∀ i ∈ is, i ≠ k := fun i hi hc => hnd.1 (hc ▸ hi)
      rcases ih w1 hnd.2 (fun i hi => by
        rw [hother i (hlater i hi)]
        exact htotal i (List.mem_cons_of_mem k hi)) with ⟨w', hrun, hcount', hsub, hout, hin⟩
      have hpast : ∀ x ∈ w.exits, x ∈ w1.exits := fun x hx => by
        rw [hexits]
        exact List.mem_append_left _ hx
      refine ⟨w', ?_, hcount'.trans hcount, fun x hx => hsub x (hpast x hx), fun i hi => ?_,
        fun i hi => ?_⟩
      · simp only [exec, hw1]
        exact hrun
      · rw [List.mem_cons, not_or] at hi
        rw [hout i hi.2, hother i hi.1]
      · rw [List.mem_cons] at hi
        rcases hi with hik | hi
        · rw [hik]
          intro mk bk hfk
          rw [hf, Option.some.injEq, Prod.mk.injEq] at hfk
          rw [hout k hnd.1, hstack, Function.update_self, hfk.1]
          refine ⟨rfl, fun hb => ⟨_, hsub ⟨k, (w.stack k).held, heldAll (setSip w k m),
            w.activeSipStacks - 1⟩ ?_, rfl⟩⟩
          rw [hexits, hfk.2, if_pos hb]
          exact List.mem_append_right _ List.mem_cons_self
        · rw [← hother i (hlater i hi)]
          exact hin i hi

/-- A holder of a stack lets go. -/
theorem release_held (w : Stacks) (i : Nat) (m : Sip) (b : Bool) (hpos : 0 < (w.stack i).held)
    (hf : memDeref (w.stack i).sip = some (m, b)) :
    ∃ w', release w i = some w' ∧ w'.stack i = ⟨m, (w.stack i).held - 1⟩ ∧
      (b = true → ∃ x ∈ w'.exits, x.held = (w.stack i).held - 1) := by
  -- The holder is gone before its reference is released.
  set v := setHeld w i ((w.stack i).held - 1) with hv
  have hvi : v.stack i = ⟨(w.stack i).sip, (w.stack i).held - 1⟩ := by
    rw [hv]
    simp only [setHeld, Function.update_self]
  have hfv : memDeref (v.stack i).sip = some (m, b) := by
    rw [hvi]
    exact hf
  rcases exec_onStack memDeref [i] v (List.pairwise_singleton _ i) (fun j hj => by
    rw [List.mem_singleton.mp hj]
    exact ⟨m, b, hfv⟩) with ⟨w', hrun, _, _, _, hin⟩
  rcases exec_cons _ v w' i [] hrun with ⟨w1, hw1, hend⟩
  simp only [exec, Option.some.injEq] at hend
  rcases hin i List.mem_cons_self m b hfv with ⟨hstack, hexits⟩
  rw [hvi] at hstack hexits
  refine ⟨w', ?_, hstack, hexits⟩
  unfold release
  rw [if_pos hpos, ← hv, hw1, hend]

/-- A closing stack whose count is below the number of holders: the exit
    handler runs before the last of them lets go. -/
theorem release_until_exit (i : Nat) : ∀ (k : Nat) (w : Stacks),
    (w.stack i).sip = ⟨k + 1, true, false⟩ → k + 1 < (w.stack i).held → k + 1 < 2 ^ 32 →
    ∃ w', exec release w (List.replicate (k + 1) i) = some w' ∧ ∃ x ∈ w'.exits, x.held ≠ 0 := by
  intro k
  -- By induction on the count. Every release lowers it and the number of
  -- holders by one, so the count stays below.
  induction k with
  | zero =>
      intro w hsip hheld _
      have hone : memDeref (w.stack i).sip = some (sipAlloc, true) := by
        rw [hsip]
        rfl
      rcases release_held w i sipAlloc true (by omega) hone with ⟨w', hrel, _, hexits⟩
      rcases hexits rfl with ⟨x, hx, hxheld⟩
      refine ⟨w', ?_, x, hx, by omega⟩
      simp only [List.replicate, exec, hrel]
  | succ k ih =>
      intro w hsip hheld hlt
      have hdec : dec32 (k + 1 + 1) = k + 1 := dec32_of_pos _ (by omega) (by omega)
      have hderef : memDeref (w.stack i).sip = some (⟨k + 1, true, false⟩, false) := by
        simp only [hsip, memDeref, Bool.false_eq_true, if_false, hdec, if_pos (Nat.succ_pos k)]
      rcases release_held w i _ false (by omega) hderef with ⟨w1, hrel, hstack, _⟩
      rcases ih w1 (by rw [hstack]) (by rw [hstack]; simp only; omega) (by omega) with
        ⟨w', hrun, hx⟩
      refine ⟨w', ?_, hx⟩
      rw [List.replicate_succ, exec, hrel]
      exact hrun

/-- A stack with holders is closed: its exit handler runs with all of them
    left, or it has one reference fewer than them. -/
theorem sipClose_held (r : Nat) :
    let s : Sip := { nrefs := u32 (r + 1), closing := false, freed := false }
    (r % 2 ^ 32 = 0 → sipClose s = some (sipAlloc, true)) ∧
      (0 < r % 2 ^ 32 → sipClose s = some (⟨r % 2 ^ 32, true, false⟩, false)) := by
  have hdec : dec32 (u32 (r + 1)) = r % 2 ^ 32 := by
    unfold dec32 u32
    omega
  refine ⟨fun hr => ?_, fun hr => ?_⟩
  · simp only [sipClose, memDeref, hdec, hr, Bool.false_eq_true, if_false]
    rfl
  · simp only [sipClose, memDeref, hdec, Bool.false_eq_true, if_false, if_pos hr]

/-- The shutdown runs to its end, and does to each stack what closing and then
    freeing it does. -/
theorem shutdown_busy (counts : List Nat) :
    ∃ w, shutdown (busy counts) = some w ∧
      ∀ i, i < counts.length → ∀ m1 b1 m2 b2,
        sipClose ((busy counts).stack i).sip = some (m1, b1) → memDeref m1 = some (m2, b2) →
        w.stack i = ⟨m2, counts.getD i 0⟩ ∧
          (b1 ∨ b2 → ∃ x ∈ w.exits, x.held = counts.getD i 0) := by
  have hopen : ∀ j, ((busy counts).stack j).sip.freed = false := fun j => by
    rw [busy_stack]
  rcases exec_onStack sipClose (List.range (busy counts).count) (busy counts) List.nodup_range
    (fun j _ => by
      rcases sipClose_total _ (hopen j) with ⟨m, b, hf, _⟩
      exact ⟨m, b, hf⟩) with ⟨w1, hclose, hcount, _, hout, hin⟩
  -- Closing frees no stack, so freeing finds all of them.
  have hopen1 : ∀ j, (w1.stack j).sip.freed = false := fun j => by
    by_cases hj : j ∈ List.range (busy counts).count
    · rcases sipClose_total _ (hopen j) with ⟨m, b, hf, hnf⟩
      rw [(hin j hj m b hf).1]
      exact hnf
    · rw [hout j hj]
      exact hopen j
  rcases exec_onStack memDeref (List.range w1.count) w1 List.nodup_range
    (fun j _ => memDeref_total _ (hopen1 j)) with ⟨w2, hfree, _, hsub, _, hin2⟩
  refine ⟨_, shutdown_of_halves _ w1 w2 rfl hclose hfree, fun i hi m1 b1 m2 b2 hf1 hf2 => ?_⟩
  have hmem : i ∈ List.range (busy counts).count := List.mem_range.mpr hi
  have hheld : ((busy counts).stack i).held = counts.getD i 0 := by
    rw [busy_stack]
  rcases hin i hmem m1 b1 hf1 with ⟨hstack1, hexits1⟩
  rw [hheld] at hstack1 hexits1
  rw [← hcount] at hmem
  rcases hin2 i hmem m2 b2 (by rw [hstack1]; exact hf2) with ⟨hstack2, hexits2⟩
  rw [hstack1] at hstack2 hexits2
  refine ⟨hstack2, fun hb => ?_⟩
  rcases hb with hb | hb
  · rcases hexits1 hb with ⟨x, hx, hxheld⟩
    exact ⟨x, hsub x hx, hxheld⟩
  · exact hexits2 hb

/-- With a holder on some stack, some order of releases finds the exit handler
    running while a reference is held. -/
theorem early_exit (counts : List Nat) (i : Nat) (hi : i < counts.length)
    (hr : counts.getD i 0 ≠ 0) :
    ∃ w order w', shutdown (busy counts) = some w ∧ exec release w order = some w' ∧
      ∃ x ∈ w'.exits, x.held ≠ 0 := by
  rcases shutdown_busy counts with ⟨w, hshut, hafter⟩
  have hstack := hafter i hi
  rw [busy_stack] at hstack
  set r := counts.getD i 0
  rcases sipClose_held r with ⟨hwrap, hkeep⟩
  by_cases hzero : r % 2 ^ 32 = 0
  · -- So many holders that the count has wrapped around.
    rcases memDeref_total sipAlloc rfl with ⟨m, b, hlast⟩
    rcases hstack _ true m b (hwrap hzero) hlast with ⟨_, hx⟩
    rcases hx (Or.inl rfl) with ⟨x, hx, hxheld⟩
    exact ⟨w, [], w, hshut, rfl, x, hx, by rw [hxheld]; exact hr⟩
  · have hpos : 0 < r % 2 ^ 32 := Nat.pos_of_ne_zero hzero
    have hclose := hkeep hpos
    by_cases hone : r % 2 ^ 32 = 1
    · -- Freeing releases the one reference there is, which is not the program's.
      rw [hone] at hclose
      rcases hstack _ false sipAlloc true hclose rfl with ⟨_, hx⟩
      rcases hx (Or.inr rfl) with ⟨x, hx, hxheld⟩
      exact ⟨w, [], w, hshut, rfl, x, hx, by rw [hxheld]; exact hr⟩
    · -- Two references fewer than the holders would need are left.
      have hlt : r % 2 ^ 32 < 2 ^ 32 := Nat.mod_lt r (by decide)
      have hle : r % 2 ^ 32 ≤ r := Nat.mod_le r _
      have hdec : dec32 (r % 2 ^ 32) = r % 2 ^ 32 - 2 + 1 := by
        rw [dec32_of_pos _ hpos hlt.le]
        omega
      have hderef : memDeref ⟨r % 2 ^ 32, true, false⟩ =
          some (⟨r % 2 ^ 32 - 2 + 1, true, false⟩, false) := by
        simp only [memDeref, hdec, Bool.false_eq_true, if_false, if_pos (Nat.succ_pos _)]
      rcases hstack _ false _ false hclose hderef with ⟨hleft, _⟩
      rcases release_until_exit i (r % 2 ^ 32 - 2) w (by rw [hleft])
        (by rw [hleft]; simp only; omega) (by omega) with ⟨w', hrun, hx⟩
      exact ⟨w, _, w', hshut, hrun, hx⟩

/-- For any number of stacks with any number of sessions and registrations on
    each: the exit handler runs at most once for a stack, not while something
    holds a reference on it, and the main loop is stopped only when nothing
    holds a reference on any, whatever the order of the releases, exactly if
    nothing holds a reference when the shutdown begins. -/
theorem shutdown_waits_iff_idle (counts : List Nat) :
    (∀ w order w', shutdown (busy counts) = some w → exec release w order = some w' →
      Graceful w') ↔ ∀ r ∈ counts, r = 0 := by
  constructor
  · intro h r hmem
    by_contra hr
    -- Some stack has a holder, and its shutdown is early.
    rcases List.getElem_of_mem hmem with ⟨i, hi, hget⟩
    have hgetD : counts.getD i 0 = r := by
      rw [List.getD_eq_getElem counts 0 hi, hget]
    rcases early_exit counts i hi (by rw [hgetD]; exact hr) with
      ⟨w, order, w', hshut, hrun, x, hx, hxheld⟩
    exact hxheld ((h w order w' hshut hrun).2 x hx).1
  · intro h w order w' hshut hrun
    have hidle : Idle (busy counts) := by
      refine ⟨fun i => ?_, fun x hx => absurd hx List.not_mem_nil⟩
      rw [busy_stack]
      by_cases hi : i < counts.length
      · simp only [List.getD_eq_getElem counts 0 hi]
        exact h _ (List.getElem_mem hi)
      · simp only [List.getD_eq_default counts 0 (not_lt.mp hi)]
    have hw := shutdown_idle (busy counts) w rfl hidle hshut
    refine ⟨exitsOf_le_one counts w w' order hshut hrun, fun x hx => ?_⟩
    rw [exec_release_idle w w' hw order hrun] at hx
    exact ⟨(hw.exits x hx).1, fun _ => (hw.exits x hx).2⟩

/-- One stack and one registration that is still being removed: the exit
    handler runs, and the main loop stops, with the reference held. -/
theorem shutdown_with_one_holder :
    ¬ ∀ w order w', shutdown (busy [1]) = some w → exec release w order = some w' →
      Graceful w' := by
  intro h
  rcases Option.isSome_iff_exists.mp (show (shutdown (busy [1])).isSome = true by decide +kernel)
    with ⟨w, hw⟩
  have hexits : (shutdown (busy [1])).map (fun w => w.exits) = some [⟨0, 1, 1, 0⟩] := by
    decide +kernel
  rw [hw, Option.map_some, Option.some.injEq] at hexits
  have hbad := (h w [] w hw rfl).2 ⟨0, 1, 1, 0⟩ (by rw [hexits]; exact List.mem_cons_self)
  exact absurd hbad.1 (by decide)

end Stack

end SipPerf
