import Mathlib.Data.List.Basic
import Mathlib.Data.List.Infix
import Mathlib.Order.Nat
import SipPerf.Core.ControlFlow
import SipPerf.Lib.Transition

/-!
# The Phases of a Run

A run registers its users, makes its calls and cleans up, in that order, once.
`fullLog` is what a run does when it goes on for long enough. The log of a
run is a beginning of one, and everything that is claimed about the order of
actions is true of a beginning of a list if it is true of the list. So it is
enough to look at one log, and to show that the timers write nothing else.

At any time one timer is armed, and the log says which phase the run is in.
`Registering`, `Calling` and `Cleaning` are the three phases, and a tick of
the timer that is armed stays in its phase or begins the next.

This holds up to a number of users. The registrar computes how many users are
due as an `int`. With more than `2 ^ 31 + 1` of them the difference can be
below the range of `int` when the clock has been set back, and is then taken
for a large positive number. The loop runs that often, past the end of the
list of users.

## Main definitions

* `PhasesKept`: The phases do not overlap or repeat.
* `fullLog`: The log of a run that has finished.
* `Registering`, `Calling`, `Cleaning`: The phases.

## Theorems

* `phasesKept_of_begins`: The beginning of a log is in order if the log is.
* `fullLog_phasesKept`: The log of a finished run is in order.
* `uesToRegister_le`: The registrar does not go past the end.
* `step_inPhase`: A tick stays in its phase or begins the next.
* `registers_past_end`: With too many users the registrar does.
* `phases_kept_iff`: The phases are kept exactly up to a number of users.
-/

namespace SipPerf

namespace ControlFlow

open MachineInt Transition

/-! ## Logs -/

/-- The user that an action registers. -/
def registeredUe : Action → Option Nat
  | .registerUe i _ => some i
  | _ => none

/-- The user that an action unregisters. -/
def unregisteredUe : Action → Option Nat
  | .unregister i => some i
  | _ => none

def isStartCleanup : Action → Bool
  | .startCleanup _ _ => true
  | _ => false

/-- The phases do not overlap or repeat. -/
structure PhasesKept (n maxCalls : Nat) (log : List Action) : Prop where
  inOrder : ∃ k, k ≤ n ∧ log.filterMap registeredUe = List.range k
  callsOnce : log.count .startCalls ≤ 1
  callsAfter : ∀ pre post, log = pre ++ .startCalls :: post →
    pre.filterMap registeredUe = List.range n
  cleanupOnce : log.countP isStartCleanup ≤ 1
  cleanupEnough : ∀ a m, .startCleanup a m ∈ log → m = maxCalls ∧ m ≤ a
  quiet : ∀ pre a m post, log = pre ++ .startCleanup a m :: post →
    ∀ x ∈ post, x ≠ .call ∧ ∀ i k, x ≠ .registerUe i k
  unregisterOnce : ∀ i, log.count (.unregister i) ≤ 1
  closeAfter : ∀ pre post, log = pre ++ .closeSipStacks :: post →
    pre.filterMap unregisteredUe = List.range n
  closeOnce : log.count .closeSipStacks ≤ 1
  freeOnce : log.count .freeSipStacks ≤ 1
  sipStacks : ∀ i k, .registerUe i k ∈ log → k ≠ 0

theorem phasesKept_of_begins (n maxCalls : Nat) (log log' : List Action) (hp : log' <+: log)
    (h : PhasesKept n maxCalls log) : PhasesKept n maxCalls log' := by
  have hmem : ∀ x ∈ log', x ∈ log := fun x hx => hp.subset hx
  have hcount : ∀ x, log'.count x ≤ log.count x := fun x => hp.sublist.count_le x
  rcases hp with ⟨rest, hlog⟩
  -- A split of the beginning is a split of the whole.
  have hsplit : ∀ pre x post, log' = pre ++ x :: post → log = pre ++ x :: (post ++ rest) := by
    intro pre x post hs
    rw [← hlog, hs, List.append_assoc, List.cons_append]
  refine ⟨?_, le_trans (hcount _) h.callsOnce, fun pre post hs => h.callsAfter pre _ (hsplit _ _ _ hs),
    ?_, fun a m hx => h.cleanupEnough a m (hmem _ hx), fun pre a m post hs x hx => ?_,
    fun i => le_trans (hcount _) (h.unregisterOnce i),
    fun pre post hs => h.closeAfter pre _ (hsplit _ _ _ hs), le_trans (hcount _) h.closeOnce,
    le_trans (hcount _) h.freeOnce, fun i k hx => h.sipStacks i k (hmem _ hx)⟩
  · rcases h.inOrder with ⟨k, hk, hreg⟩
    rw [← hlog, List.filterMap_append] at hreg
    -- A beginning of the users in order is the users in order.
    have htake := congrArg (List.take (log'.filterMap registeredUe).length) hreg
    rw [List.take_left, List.take_range] at htake
    exact ⟨_, le_trans (min_le_right _ _) hk, htake⟩
  · refine le_trans ?_ h.cleanupOnce
    rw [← hlog, List.countP_append]
    exact Nat.le_add_right _ _
  · exact h.quiet pre a m _ (hsplit _ _ _ hs) x (List.mem_append_left _ hx)

/-- The users that have been registered. -/
def registered (k : Nat) : List Action :=
  (List.range k).map (fun i => .registerUe i howManyStacks)

/-- What the cleanup does after a number of ticks. -/
def cleanupLog (n times : Nat) : List Action :=
  (if 2 ≤ times then (List.range n).map .unregister else []) ++
    if 13 ≤ times then [.closeSipStacks, .freeSipStacks] else []

/-- The log of a run that has finished, with a number of calls. -/
def fullLog (n c a m : Nat) : List Action :=
  registered n ++ .startCalls :: (List.replicate c .call ++ .startCleanup a m :: cleanupLog n 13)

/-- What stands before the cleanup in it. -/
def beforeCleanup (n c : Nat) : List Action :=
  registered n ++ .startCalls :: List.replicate c .call

/-- What stands before the closing of the stacks. -/
def beforeClose (n c a m : Nat) : List Action :=
  beforeCleanup n c ++ .startCleanup a m :: (List.range n).map .unregister

/-- The actions in the order in which a run comes to them. -/
def rank : Action → Nat
  | .registerUe _ _ => 0
  | .startCalls => 1
  | .call => 2
  | .startCleanup _ _ => 3
  | .unregister _ => 4
  | .closeSipStacks => 5
  | .freeSipStacks => 6

theorem rank_registered (k : Nat) (x : Action) (h : x ∈ registered k) : rank x = 0 := by
  rcases List.mem_map.mp h with ⟨i, _, hx⟩
  rw [← hx]
  rfl

theorem rank_before_cleanup (n c : Nat) (x : Action)
    (h : x ∈ beforeCleanup n c) : rank x ≤ 2 := by
  rw [beforeCleanup, List.mem_append, List.mem_cons] at h
  rcases h with h | h | h
  · rw [rank_registered n x h]
    exact Nat.zero_le 2
  · rw [h]
    decide
  · rw [List.eq_of_mem_replicate h]
    decide

theorem rank_cleanupLog (n times : Nat) (x : Action) (h : x ∈ cleanupLog n times) :
    4 ≤ rank x := by
  rw [cleanupLog, List.mem_append] at h
  rcases h with h | h
  · split at h
    · rcases List.mem_map.mp h with ⟨i, _, hx⟩
      rw [← hx]
      exact le_refl 4
    · exact absurd h List.not_mem_nil
  · split at h
    · rw [List.mem_cons, List.mem_singleton] at h
      rcases h with h | h
      · rw [h]
        decide
      · rw [h]
        decide
    · exact absurd h List.not_mem_nil

theorem rank_after_calls (n c a m : Nat) (x : Action)
    (h : x ∈ List.replicate c Action.call ++ .startCleanup a m :: cleanupLog n 13) :
    2 ≤ rank x := by
  rw [List.mem_append, List.mem_cons] at h
  rcases h with h | h | h
  · rw [List.eq_of_mem_replicate h]
    decide
  · rw [h]
    exact Nat.le_succ 2
  · exact le_trans (by decide) (rank_cleanupLog n 13 x h)

/-! The same log, cut at the cleanup and at the closing of the stacks. -/

theorem fullLog_cut_cleanup (n c a m : Nat) :
    fullLog n c a m = beforeCleanup n c ++ .startCleanup a m :: cleanupLog n 13 := by
  rw [fullLog, beforeCleanup, List.append_assoc, List.cons_append]

theorem fullLog_cut_close (n c a m : Nat) :
    fullLog n c a m = beforeClose n c a m ++ .closeSipStacks :: [.freeSipStacks] := by
  rw [fullLog_cut_cleanup, beforeClose, List.append_assoc, List.cons_append]
  rfl

theorem rank_before_close (n c a m : Nat) (x : Action)
    (h : x ∈ beforeClose n c a m) : rank x ≤ 4 := by
  rw [beforeClose, List.mem_append, List.mem_cons] at h
  rcases h with h | h | h
  · exact le_trans (rank_before_cleanup n c x h) (by decide)
  · rw [h]
    exact Nat.le_succ 3
  · rcases List.mem_map.mp h with ⟨i, _, hx⟩
    rw [← hx]
    exact le_refl 4

theorem filterMap_registered (k : Nat) : (registered k).filterMap registeredUe = List.range k := by
  rw [registered, List.filterMap_map]
  exact List.filterMap_some

/-- Only the first phase registers users. -/
theorem registeredUe_of_rank (x : Action) (h : 0 < rank x) : registeredUe x = none := by
  cases x with
  | registerUe i k => exact absurd h (lt_irrefl 0)
  | startCalls => rfl
  | call => rfl
  | startCleanup a m => rfl
  | unregister i => rfl
  | closeSipStacks => rfl
  | freeSipStacks => rfl

/-- Nothing before the cleanup unregisters users. -/
theorem unregisteredUe_of_rank (x : Action) (h : rank x < 4) : unregisteredUe x = none := by
  cases x with
  | registerUe i k => rfl
  | startCalls => rfl
  | call => rfl
  | startCleanup a m => rfl
  | unregister i => exact absurd h (lt_irrefl 4)
  | closeSipStacks => rfl
  | freeSipStacks => rfl

theorem rank_of_isStartCleanup (x : Action) (h : isStartCleanup x = true) : rank x = 3 := by
  cases x with
  | startCleanup a m => rfl
  | registerUe i k => exact absurd h Bool.false_ne_true
  | startCalls => exact absurd h Bool.false_ne_true
  | call => exact absurd h Bool.false_ne_true
  | unregister i => exact absurd h Bool.false_ne_true
  | closeSipStacks => exact absurd h Bool.false_ne_true
  | freeSipStacks => exact absurd h Bool.false_ne_true

/-- An action that stands in one place is taken once. -/
theorem count_once (x : Action) (pre post : List Action) (hpre : x ∉ pre) (hpost : x ∉ post) :
    (pre ++ x :: post).count x ≤ 1 := by
  rw [List.count_append, List.count_eq_zero_of_not_mem hpre, List.count_cons_self,
    List.count_eq_zero_of_not_mem hpost]

theorem fullLog_registered (n c a m : Nat) :
    (fullLog n c a m).filterMap registeredUe = List.range n := by
  have hrest : (Action.startCalls :: (List.replicate c .call ++
      .startCleanup a m :: cleanupLog n 13)).filterMap registeredUe = [] := by
    rw [List.filterMap_eq_nil_iff]
    intro x hx
    refine registeredUe_of_rank x ?_
    rcases List.mem_cons.mp hx with hx | hx
    · rw [hx]
      decide
    · exact lt_of_lt_of_le (by decide) (rank_after_calls n c a m x hx)
  rw [fullLog, List.filterMap_append, hrest, filterMap_registered, List.append_nil]

theorem before_close_unregistered (n c a m : Nat) :
    (beforeClose n c a m).filterMap unregisteredUe = List.range n := by
  have hbefore : (beforeCleanup n c).filterMap unregisteredUe = [] := by
    rw [List.filterMap_eq_nil_iff]
    intro x hx
    exact unregisteredUe_of_rank x (lt_of_le_of_lt (rank_before_cleanup n c x hx) (by decide))
  rw [beforeClose, List.filterMap_append, hbefore, List.nil_append, List.filterMap_cons,
    List.filterMap_map]
  exact List.filterMap_some

theorem cleanupLog_nodup (n : Nat) : (cleanupLog n 13).Nodup := by
  refine List.Nodup.append ?_ (by decide) (fun x hx hx' => ?_)
  · exact List.nodup_range.map (fun a b hab => Action.unregister.inj hab)
  · rcases List.mem_map.mp hx with ⟨j, _, hj⟩
    rw [← hj] at hx'
    exact absurd hx' (by simp only [Nat.le_refl, if_true, List.mem_cons, reduceCtorEq,
      List.not_mem_nil, or_self, not_false_eq_true])

/-! Each change of phase stands in one place. -/

theorem startCalls_in_place (n c a m : Nat) :
    Action.startCalls ∉ registered n ∧ Action.startCalls ∉
      List.replicate c Action.call ++ .startCleanup a m :: cleanupLog n 13 :=
  ⟨fun hx => absurd (rank_registered n _ hx) (by decide),
    fun hx => absurd (rank_after_calls n c a m _ hx) (by decide)⟩

theorem startCleanup_in_place (n c a m : Nat) :
    Action.startCleanup a m ∉ beforeCleanup n c ∧ Action.startCleanup a m ∉ cleanupLog n 13 :=
  ⟨fun hx => absurd (show 3 ≤ 2 from rank_before_cleanup n c _ hx) (by decide),
    fun hx => absurd (show 4 ≤ 3 from rank_cleanupLog n 13 _ hx) (by decide)⟩

theorem fullLog_startCleanup (n c a m : Nat) : (fullLog n c a m).countP isStartCleanup = 1 := by
  have hnone : ∀ l : List Action, (∀ x ∈ l, rank x ≠ 3) → l.countP isStartCleanup = 0 := by
    intro l hl
    rw [List.countP_eq_zero]
    exact fun x hx hs => hl x hx (rank_of_isStartCleanup x hs)
  have hbefore := hnone (beforeCleanup n c) fun x hx => by
    have := rank_before_cleanup n c x hx
    omega
  have hafter := hnone (cleanupLog n 13) fun x hx => by
    have := rank_cleanupLog n 13 x hx
    omega
  rw [fullLog_cut_cleanup, List.countP_append, List.countP_cons, hbefore, hafter]
  rfl

theorem fullLog_unregister (n c a m i : Nat) : (fullLog n c a m).count (.unregister i) ≤ 1 := by
  have hnot : Action.unregister i ∉ beforeCleanup n c := fun hx =>
    absurd (show 4 ≤ 2 from rank_before_cleanup n c _ hx) (by decide)
  have hne : Action.startCleanup a m ≠ .unregister i := by
    simp only [ne_eq, reduceCtorEq, not_false_eq_true]
  rw [fullLog_cut_cleanup, List.count_append, List.count_eq_zero_of_not_mem hnot,
    List.count_cons_of_ne hne, Nat.zero_add]
  exact List.nodup_iff_count_le_one.mp (cleanupLog_nodup n) _

/-- The log of a run that has finished is in order. -/
theorem fullLog_phasesKept (n c a m : Nat) (h : m ≤ a) : PhasesKept n m (fullLog n c a m) := by
  have hcalls := startCalls_in_place n c a m
  have hstart := startCleanup_in_place n c
  have hclose : Action.closeSipStacks ∉ beforeClose n c a m := fun hx =>
    absurd (rank_before_close n c a m _ hx) (by decide)
  have hfree : Action.freeSipStacks ∉ beforeClose n c a m := fun hx =>
    absurd (rank_before_close n c a m _ hx) (by decide)
  refine ⟨⟨n, le_refl n, fullLog_registered n c a m⟩, count_once _ _ _ hcalls.1 hcalls.2,
    fun pre post hs => ?_, le_of_eq (fullLog_startCleanup n c a m), fun a' m' hx => ?_,
    fun pre a' m' post hs x hx => ?_, fullLog_unregister n c a m, fun pre post hs => ?_, ?_, ?_,
    fun i k hx => ?_⟩
  · rcases (List.append_cons_inj_of_notMem hcalls.1 hcalls.2).mp hs with ⟨hpre, _, _⟩
    rw [← hpre]
    exact filterMap_registered n
  · rw [fullLog_cut_cleanup, List.mem_append, List.mem_cons] at hx
    rcases hx with hx | hx | hx
    · exact absurd hx (hstart a' m').1
    · rw [Action.startCleanup.injEq] at hx
      rw [hx.1, hx.2]
      exact ⟨rfl, h⟩
    · exact absurd hx (hstart a' m').2
  · rw [fullLog_cut_cleanup] at hs
    rcases (List.append_cons_inj_of_notMem (hstart a' m').1 (hstart a' m').2).mp hs with
      ⟨_, _, hpost⟩
    rw [← hpost] at hx
    have hr := rank_cleanupLog n 13 x hx
    refine ⟨fun hc => ?_, fun i k hc => ?_⟩
    · rw [hc] at hr
      exact absurd hr (by decide)
    · rw [hc] at hr
      exact absurd (show 4 ≤ 0 from hr) (by decide)
  · rw [fullLog_cut_close] at hs
    rcases (List.append_cons_inj_of_notMem hclose (by decide)).mp hs with ⟨hpre, _, _⟩
    rw [← hpre]
    exact before_close_unregistered n c a m
  · rw [fullLog_cut_close]
    exact count_once _ _ _ hclose (by decide)
  · rw [fullLog_cut_close, List.count_append, List.count_eq_zero_of_not_mem hfree]
    decide
  · -- Only the first phase asks for a stack, and they are all there then.
    rw [fullLog, List.mem_append, List.mem_cons] at hx
    rcases hx with hx | hx | hx
    · rcases List.mem_map.mp hx with ⟨j, _, hj⟩
      rw [← (Action.registerUe.inj hj).2]
      decide
    · exact absurd hx (by simp only [reduceCtorEq, not_false_eq_true])
    · exact absurd (show 2 ≤ 0 from rank_after_calls n c a m _ hx) (by decide)

/-! ## The phases -/

/-- Users are being registered, in order. -/
structure Registering (n maxCalls : Nat) (s : Control) : Prop where
  ues : s.ues = n
  max : s.sched.maxCalls = maxCalls
  armed : s.registering = true ∧ s.calling = false ∧ s.cleaning = false
  times : s.times = 0
  sipStacks : s.sipStacks = howManyStacks
  count : s.actualUesRegistered ≤ n
  log : s.log = registered s.actualUesRegistered

/-- All users have been registered and calls are being made. -/
structure Calling (n maxCalls : Nat) (s : Control) : Prop where
  ues : s.ues = n
  max : s.sched.maxCalls = maxCalls
  armed : s.registering = false ∧ s.calling = true ∧ s.cleaning = false
  times : s.times = 0
  log : ∃ c, s.log = beforeCleanup n c

/-- Enough calls have been made and the run is being wound up. -/
structure Cleaning (n maxCalls : Nat) (s : Control) : Prop where
  ues : s.ues = n
  armed : s.registering = false ∧ s.calling = false ∧ s.cleaning = true
  log : ∃ c a, maxCalls ≤ a ∧
    s.log = beforeCleanup n c ++ .startCleanup a maxCalls :: cleanupLog n s.times

/-- The run is in one of its phases. -/
def InPhase (n maxCalls : Nat) (s : Control) : Prop :=
  Registering n maxCalls s ∨ Calling n maxCalls s ∨ Cleaning n maxCalls s

theorem registerLoop_eq : ∀ (k : Nat) (s : Control), s.actualUesRegistered < 2 ^ 64 →
    registerLoop k s = { s with
      log := s.log ++ (List.range k).map (fun i =>
        .registerUe (u64 (s.actualUesRegistered + i)) s.sipStacks),
      actualUesRegistered := u64 (s.actualUesRegistered + k) } := by
  intro k
  induction k with
  | zero =>
      intro s hs
      rw [registerLoop, Nat.add_zero, u64_of_lt _ hs, List.range_zero, List.map_nil,
        List.append_nil]
  | succ k ih =>
      intro s hs
      -- The first round registers the user at the counter, and the rest is the
      -- loop from the next one on.
      have hwrap : ∀ j, u64 (u64 (s.actualUesRegistered + 1) + j) =
          u64 (s.actualUesRegistered + (j + 1)) := fun j => by
        unfold u64
        omega
      have hfirst : u64 (s.actualUesRegistered + 0) = s.actualUesRegistered := by
        rw [Nat.add_zero, u64_of_lt _ hs]
      rw [registerLoop, ih _ (Nat.mod_lt _ (by decide)), List.range_succ_eq_map, List.map_cons,
        List.map_map]
      simp only [hwrap, hfirst, List.append_assoc, List.singleton_append]
      rfl

/-- The registrar registers the next few users, if there are so many. -/
theorem registrarAct_registering (n maxCalls : Nat) (s : Control) (expected : Nat)
    (hn : n < 2 ^ 64) (h : Registering n maxCalls s) (hlt : s.actualUesRegistered < n)
    (hle : s.actualUesRegistered + (uesToRegister s expected).toNat ≤ n) :
    Registering n maxCalls (registrarAct s expected) ∧
      (registrarAct s expected).actualUesRegistered =
        s.actualUesRegistered + (uesToRegister s expected).toNat := by
  unfold registrarAct
  rw [if_neg (by rw [h.ues]; exact Nat.ne_of_lt hlt)]
  generalize (uesToRegister s expected).toNat = k at hle ⊢
  rw [registerLoop_eq k s (by omega), u64_of_lt _ (by omega)]
  refine ⟨⟨h.ues, h.max, h.armed, h.times, h.sipStacks, hle, ?_⟩, rfl⟩
  simp only [h.log, h.sipStacks, registered]
  rw [List.range_add, List.map_append, List.map_map]
  congr 1
  refine List.map_congr_left fun i hi => ?_
  rw [List.mem_range] at hi
  simp only [Function.comp, u64_of_lt (s.actualUesRegistered + i) (by omega)]

/-- With few enough users the registrar does not go past the last one. The
    difference is never so far below zero that it wraps around. -/
theorem uesToRegister_le (s : Control) (expected : Nat) (hn : s.ues ≤ 2 ^ 31 + 1)
    (hlt : s.actualUesRegistered < s.ues) :
    s.actualUesRegistered + (uesToRegister s expected).toNat ≤ s.ues := by
  unfold uesToRegister
  rw [toInt32_sub64]
  -- The difference is between minus the users registered and the users left.
  -- Of the first there are at most `2 ^ 31`, so it is not below an `int`.
  have hmin : min expected s.ues ≤ s.ues := min_le_right _ _
  generalize min expected s.ues = e at hmin ⊢
  unfold toInt32
  omega

theorem registrarAct_inPhase (n maxCalls : Nat) (s : Control) (expected : Nat)
    (hn : n ≤ 2 ^ 31 + 1) (h : Registering n maxCalls s) :
    InPhase n maxCalls (registrarAct s expected) := by
  by_cases hall : s.actualUesRegistered = n
  · -- All users have been registered, and the calls are started.
    unfold registrarAct
    rw [if_pos (by rw [h.ues]; exact hall)]
    refine Or.inr (Or.inl ⟨h.ues, h.max, ⟨rfl, rfl, h.armed.2.2⟩, h.times, 0, ?_⟩)
    simp only [h.log, hall]
    rfl
  · have hlt : s.actualUesRegistered < n := lt_of_le_of_ne h.count hall
    have hle := uesToRegister_le s expected (by rw [h.ues]; exact hn) (by rw [h.ues]; exact hlt)
    rw [h.ues] at hle
    exact Or.inl (registrarAct_registering n maxCalls s expected (by omega) h hlt hle).1

theorem schedulerAct_inPhase {π : Type} (n maxCalls : Nat) (s : Control) (P : Pool π)
    (rounds : Nat) (p : π) (h : Calling n maxCalls s) :
    InPhase n maxCalls (schedulerAct s P rounds p) := by
  rcases h.log with ⟨c, hlog⟩
  unfold schedulerAct
  generalize (makeCalls P rounds 0 p).2 = made
  have hmore : s.log ++ List.replicate made .call = beforeCleanup n (c + made) := by
    rw [hlog, beforeCleanup, beforeCleanup, List.append_assoc, List.cons_append,
      List.replicate_append_replicate]
  -- The limit is a constant of the scheduler.
  have hmax : (s.sched.actFor P rounds p).2.1.maxCalls = maxCalls := h.max
  cases hgo : (s.sched.actFor P rounds p).2.2 with
  | true =>
      simp only [hgo, if_true]
      exact Or.inr (Or.inl ⟨h.ues, hmax, h.armed, h.times, c + made, hmore⟩)
  | false =>
      have henough : maxCalls ≤ (s.sched.actFor P rounds p).2.1.actualCalls := by
        rw [← hmax]
        exact not_lt.mp (of_decide_eq_false hgo)
      simp only [hgo, Bool.false_eq_true, if_false]
      refine Or.inr (Or.inr ⟨h.ues, ⟨h.armed.1, rfl, rfl⟩, c + made, _, henough, ?_⟩)
      simp only [hmore, hmax, h.times]
      rfl

/-- What a tick of the cleanup does to the log and to the counter. The rest of
    what it does concerns no other timer. -/
theorem cleanupAct_eq (s : Control) :
    ∃ left cancel, cleanupAct s = { s with
      log := s.log ++ (if s.times = 1 then (List.range s.ues).map .unregister
        else if s.times = 12 then [.closeSipStacks, .freeSipStacks] else []),
      times := s.times + 1, sipStacks := left, reCancel := cancel } := by
  unfold cleanupAct
  by_cases h1 : s.times = 1
  · exact ⟨s.sipStacks, s.reCancel, by simp only [if_pos h1]⟩
  · by_cases h12 : s.times = 12
    · exact ⟨0, s.reCancel, by simp only [if_neg h1, if_pos h12]⟩
    · by_cases h30 : s.times = 30
      · exact ⟨s.sipStacks, true, by
          simp only [if_neg h1, if_neg h12, if_pos h30, List.append_nil]⟩
      · exact ⟨s.sipStacks, s.reCancel, by
          simp only [if_neg h1, if_neg h12, if_neg h30, List.append_nil]⟩

theorem cleanupAct_inPhase (n maxCalls : Nat) (s : Control) (h : Cleaning n maxCalls s) :
    InPhase n maxCalls (cleanupAct s) := by
  rcases h.log with ⟨c, a, hle, hlog⟩
  rcases cleanupAct_eq s with ⟨left, cancel, hact⟩
  rw [hact]
  refine Or.inr (Or.inr ⟨h.ues, h.armed, c, a, hle, ?_⟩)
  simp only [hlog, h.ues, List.append_assoc, List.cons_append]
  congr 2
  unfold cleanupLog
  by_cases h1 : s.times = 1
  · rw [h1]
    simp only [Nat.reduceAdd, Nat.reduceLeDiff, if_true, if_false, List.append_nil, List.nil_append]
  · by_cases h12 : s.times = 12
    · rw [h12]
      simp only [Nat.reduceAdd, Nat.reduceLeDiff, Nat.reduceEqDiff, if_true, if_false,
        List.append_nil]
    · have h2 : 2 ≤ s.times ↔ 2 ≤ s.times + 1 := by omega
      have h13 : 13 ≤ s.times ↔ 13 ≤ s.times + 1 := by omega
      simp only [if_neg h1, if_neg h12, List.append_nil, ← h2, ← h13]

/-- A tick stays in its phase or begins the next. Only the timer of the phase
    is armed. -/
theorem step_inPhase {π : Type} (n maxCalls : Nat) (hn : n ≤ 2 ^ 31 + 1) (s : Control)
    (e : Tick π) (s' : Control) (h : InPhase n maxCalls s) (hstep : controlStep s e = some s') :
    InPhase n maxCalls s' := by
  cases e with
  | registrar expected =>
      simp only [controlStep] at hstep
      cases hr : s.registering with
      | false => simp only [hr, Bool.false_eq_true, if_false, reduceCtorEq] at hstep
      | true =>
          simp only [hr, if_true, Option.some.injEq] at hstep
          rw [← hstep]
          rcases h with h | h | h
          · exact registrarAct_inPhase n maxCalls s expected hn h
          · exact absurd (hr.symm.trans h.armed.1) (by decide)
          · exact absurd (hr.symm.trans h.armed.1) (by decide)
  | scheduler expected P p =>
      simp only [controlStep] at hstep
      cases hc : s.calling with
      | false => simp only [hc, Bool.false_eq_true, if_false, reduceCtorEq] at hstep
      | true =>
          simp only [hc, if_true, Option.some.injEq] at hstep
          rw [← hstep]
          rcases h with h | h | h
          · exact absurd (hc.symm.trans h.armed.2.1) (by decide)
          · exact schedulerAct_inPhase n maxCalls s P _ p h
          · exact absurd (hc.symm.trans h.armed.2.1) (by decide)
  | cleanup =>
      simp only [controlStep] at hstep
      by_cases hc : s.cleaning = true ∧ s.times + 1 < 2 ^ 31
      · rw [if_pos hc, Option.some.injEq] at hstep
        rw [← hstep]
        rcases h with h | h | h
        · exact absurd (hc.1.symm.trans h.armed.2.2) (by decide)
        · exact absurd (hc.1.symm.trans h.armed.2.2) (by decide)
        · exact cleanupAct_inPhase n maxCalls s h
      · rw [if_neg hc] at hstep
        exact absurd hstep (by simp only [reduceCtorEq, not_false_eq_true])

theorem begin_registering (n maxCalls : Nat) : Registering n maxCalls (begin n maxCalls) :=
  ⟨rfl, rfl, ⟨rfl, rfl, rfl⟩, rfl, rfl, Nat.zero_le n, rfl⟩

/-- What the cleanup has done so far is the beginning of all it does. -/
theorem cleanupLog_begins (n times : Nat) : cleanupLog n times <+: cleanupLog n 13 := by
  by_cases h13 : 13 ≤ times
  · have h2 : 2 ≤ times := by omega
    unfold cleanupLog
    rw [if_pos h2, if_pos h13]
    exact List.prefix_refl _
  · by_cases h2 : 2 ≤ times
    · unfold cleanupLog
      rw [if_pos h2, if_neg h13, List.append_nil]
      exact List.prefix_append _ _
    · unfold cleanupLog
      rw [if_neg h2, if_neg h13]
      exact List.nil_prefix

/-- In each phase the log is the beginning of that of a finished run. -/
theorem inPhase_begins (n maxCalls : Nat) (s : Control) (h : InPhase n maxCalls s) :
    ∃ c a, maxCalls ≤ a ∧ s.log <+: fullLog n c a maxCalls := by
  rcases h with h | h | h
  · refine ⟨0, maxCalls, le_refl _, ?_⟩
    rw [h.log, fullLog, registered, registered, ← Nat.add_sub_cancel' h.count, List.range_add,
      List.map_append, List.append_assoc]
    exact List.prefix_append _ _
  · rcases h.log with ⟨c, hlog⟩
    refine ⟨c, maxCalls, le_refl _, ?_⟩
    rw [hlog, fullLog_cut_cleanup]
    exact List.prefix_append _ _
  · rcases h.log with ⟨c, a, hle, hlog⟩
    refine ⟨c, a, hle, ?_⟩
    rw [hlog, fullLog_cut_cleanup]
    exact (List.prefix_append_right_inj _).mpr
      ((List.prefix_cons_inj _).mpr (cleanupLog_begins n s.times))

/-! ## Too many users -/

/-- Users can be registered one at a time. -/
theorem register_one_by_one (n maxCalls : Nat) (hn : n < 2 ^ 64) : ∀ k, k < n →
    ∃ s, exec controlStep (begin n maxCalls)
        ((List.range k).map (fun i => (Tick.registrar (i + 1) : Tick Unit))) = some s ∧
      Registering n maxCalls s ∧ s.actualUesRegistered = k := by
  intro k
  induction k with
  | zero =>
      intro _
      exact ⟨begin n maxCalls, rfl, begin_registering n maxCalls, rfl⟩
  | succ k ih =>
      intro hk
      rcases ih (by omega) with ⟨s, hrun, hreg, hcount⟩
      -- One more user is due than has been registered.
      have hone : (uesToRegister s (k + 1)).toNat = 1 := by
        unfold uesToRegister
        rw [toInt32_sub64, hreg.ues, hcount, min_eq_left (by omega)]
        unfold toInt32
        omega
      rcases registrarAct_registering n maxCalls s (k + 1) hn hreg (by omega) (by omega) with
        ⟨hreg', hcount'⟩
      refine ⟨registrarAct s (k + 1), ?_, hreg', by rw [hcount', hone, hcount]⟩
      rw [List.range_succ, List.map_append, exec_append]
      refine ⟨s, hrun, ?_⟩
      simp only [List.map_cons, List.map_nil, exec, controlStep, hreg.armed.1, if_true]

/-- With one user left to register, a count that is expected to be far behind
    makes the registrar go on past the last one. -/
theorem registers_past_end (n maxCalls : Nat) (hlo : 2 ^ 31 + 2 ≤ n) (hhi : n < 2 ^ 64) :
    ∃ (es : List (Tick Unit)) (s : Control), exec controlStep (begin n maxCalls) es = some s ∧
      .registerUe n howManyStacks ∈ s.log := by
  rcases register_one_by_one n maxCalls hhi (n - 1) (by omega) with ⟨s, hrun, hreg, hcount⟩
  -- The clock has been set back by as much as it takes to leave the range of `int`.
  have hmany : 2 ≤ (uesToRegister s (n - 1 - (2 ^ 31 + 1))).toNat := by
    unfold uesToRegister
    rw [toInt32_sub64, hreg.ues, hcount, min_eq_left (by omega)]
    unfold toInt32
    omega
  refine ⟨_ ++ [.registrar (n - 1 - (2 ^ 31 + 1))], registrarAct s (n - 1 - (2 ^ 31 + 1)),
    (exec_append controlStep _ _ _ _).mpr ⟨s, hrun, ?_⟩, ?_⟩
  · simp only [exec, controlStep, hreg.armed.1, if_true]
  · unfold registrarAct
    rw [if_neg (by rw [hcount, hreg.ues]; omega)]
    generalize (uesToRegister s (n - 1 - (2 ^ 31 + 1))).toNat = k at hmany ⊢
    rw [registerLoop_eq k s (by omega)]
    refine List.mem_append_right _ (List.mem_map.mpr ⟨1, List.mem_range.mpr (by omega), ?_⟩)
    rw [hcount, hreg.sipStacks, Nat.sub_add_cancel (by omega), u64_of_lt n hhi]

/-- Registering something that is not one of the users is out of order. -/
theorem not_phasesKept_of_past_end (n maxCalls : Nat) (log : List Action) (k : Nat)
    (h : .registerUe n k ∈ log) : ¬ PhasesKept n maxCalls log := by
  intro hkept
  rcases hkept.inOrder with ⟨j, hj, hreg⟩
  -- The users that are registered in order are numbered below `n`.
  have hmem : n ∈ log.filterMap registeredUe := List.mem_filterMap.mpr ⟨_, h, rfl⟩
  rw [hreg, List.mem_range] at hmem
  exact absurd hmem (not_lt.mpr hj)

/-- The phases of a run do not overlap or repeat, whatever the limits, the
    clock and the pool, exactly if there are not too many users. -/
theorem phases_kept_iff (n : Nat) (hn : n < 2 ^ 64) :
    (∀ (π : Type) (maxCalls : Nat) (es : List (Tick π)) (s : Control),
      exec controlStep (begin n maxCalls) es = some s → PhasesKept n maxCalls s.log) ↔
      n ≤ 2 ^ 31 + 1 := by
  constructor
  · intro h
    -- With too many users there is a run that goes past the end.
    by_contra hbig
    rcases registers_past_end n 0 (by omega) hn with ⟨es, s, hrun, hmem⟩
    exact not_phasesKept_of_past_end n 0 s.log _ hmem (h Unit 0 es s hrun)
  · intro hle π maxCalls es s hrun
    -- Otherwise every run stays in its phases, and its log is a beginning of
    -- one that is in order.
    have hphase : InPhase n maxCalls s := exec_invariant controlStep (InPhase n maxCalls)
      (fun s e s' => step_inPhase n maxCalls hle s e s') es _ s
      (Or.inl (begin_registering n maxCalls)) hrun
    rcases inPhase_begins n maxCalls s hphase with ⟨c, a, ha, hpre⟩
    exact phasesKept_of_begins n maxCalls _ s.log hpre (fullLog_phasesKept n c a maxCalls ha)

/-- A pool that never runs out. -/
def endlessPool : Pool Unit where
  getUaFreeForCall := fun i p => (some i, p)
  call := fun _ _ _ p => p
  markUaNotInCall := fun _ p => p

/-- Two users, a clock that is set back once, one call, and a cleanup that
    unregisters the users. -/
theorem phases_kept_iff_two :
    ∃ s, exec controlStep (begin 2 1)
        [.registrar 1, .registrar 0, .registrar 2, .registrar 2, .scheduler 0 endlessPool (),
          .scheduler 1 endlessPool (), .cleanup, .cleanup] = some s ∧
      s.log = [.registerUe 0 75, .registerUe 1 75, .startCalls, .call, .startCleanup 1 1,
        .unregister 0, .unregister 1] ∧
      PhasesKept 2 1 s.log := by
  have hrun : (exec controlStep (begin 2 1)
        [.registrar 1, .registrar 0, .registrar 2, .registrar 2, .scheduler 0 endlessPool (),
          .scheduler 1 endlessPool (), .cleanup, .cleanup]).any
        (fun s => decide (s.log = [.registerUe 0 75, .registerUe 1 75, .startCalls, .call,
          .startCleanup 1 1, .unregister 0, .unregister 1])) = true := by
    decide +kernel
  rcases (Option.any_eq_true _ _).mp hrun with ⟨s, hs, hlog⟩
  exact ⟨s, hs, of_decide_eq_true hlog,
    (phases_kept_iff 2 (by decide)).mpr (by decide) Unit 1 _ s hs⟩

/-- The least number of users for which the registrar can go past the end. -/
theorem phases_break_with_many_users :
    ¬ ∀ (π : Type) (maxCalls : Nat) (es : List (Tick π)) (s : Control),
      exec controlStep (begin (2 ^ 31 + 2) maxCalls) es = some s →
        PhasesKept (2 ^ 31 + 2) maxCalls s.log := by
  intro h
  rcases registers_past_end (2 ^ 31 + 2) 0 (le_refl _) (by decide) with ⟨es, s, hrun, hmem⟩
  exact not_phasesKept_of_past_end _ 0 s.log _ hmem (h Unit 0 es s hrun)

end ControlFlow

end SipPerf
