import Mathlib.Algebra.Order.Group.Unbundled.Int
import SipPerf.Theory.AgentOps

/-!
# The Calls of a Tick

What one run of `CallScheduler::act` does, exactly, and what follows for the
rate and for the limit on the number of calls.

A round of the loop takes two user agents out of the pool, and if it gets
both it makes a call. Taking two of `n` free user agents leaves `n - 2`, and
the round that finds fewer puts back what it took. So the loop stops after
`n / 2` calls if it does not stop before, and everyone in a call of the tick
was free when the tick began. `Made` says what a list of calls has to do with
the states before and after it, and `makeCalls_made` is the induction.

The rate is never exceeded, since a tick does not make more calls than are
due. That needs no bound on the numbers: narrowing a difference to `int`
never makes it larger.

The limit is another matter. It is looked at after a tick and not in it, so a
tick may pass it by all the calls it makes. A run of the scheduler respects
the limit exactly when every tick does.

## Main definitions

* `parties`: The user agents of a list of calls.
* `Made`: The calls of a list are what happened between two states.
* `expectedOf`: The numbers of calls expected in the ticks of a run.
* `WithinLimit`: A tick cannot pass the limit.

## Theorems

* `makeCalls_made`: The loop.
* `tick_made`: One tick.
* `scheduler_makes_calls_due`: One tick makes the calls due, and no run makes
  more.
* `call_limit_kept_iff`: The limit is respected exactly when no tick can pass
  it.
-/

namespace SipPerf

namespace Agents

open MachineInt UAManager Transition

variable {name : UAId → String}

/-- The user agents of a list of calls. -/
def parties (cs : List SchedCall) : List UAId := cs.flatMap (fun x => [x.caller, x.callee])

theorem parties_append (cs ds : List SchedCall) : parties (cs ++ ds) = parties cs ++ parties ds :=
  List.flatMap_append

theorem parties_single (x : SchedCall) : parties [x] = [x.caller, x.callee] := rfl

theorem parties_length (cs : List SchedCall) : (parties cs).length = 2 * cs.length := by
  induction cs with
  | nil => rfl
  | cons x cs ih =>
      have hcons : parties (x :: cs) = [x.caller, x.callee] ++ parties cs := rfl
      rw [hcons, List.length_append, ih, List.length_cons, List.length_cons, List.length_nil,
        List.length_cons]
      omega

/-- The calls of the list, latest first, were made between two states. They
    are between different user agents that were free, and the others are as
    free as they were. -/
structure Made (w w' : World name) (cs : List SchedCall) : Prop where
  calls : w'.calls = cs ++ w.calls
  nodup : (parties cs).Nodup
  free : ∀ u ∈ parties cs, w.mgr.Free u
  rest : ∀ v, w'.mgr.Free v ↔ w.mgr.Free v ∧ v ∉ parties cs
  known : ∀ v, w'.mgr.Known v ↔ w.mgr.Known v
  counted : u32 w'.stats.initCall = u32 (w.stats.initCall + cs.length)

theorem made_size (w w' : World name) (cs : List SchedCall) (h : Made w w' cs) :
    w'.mgr.freeUes.size + 2 * cs.length = w.mgr.freeUes.size := by
  rw [← parties_length]
  exact NamedPool.size_remove w.mgr.freeUes w'.mgr.freeUes (parties cs) h.nodup h.free h.rest

theorem made_nil (w : World name) (m : UAManager name) (hfree : ∀ v, m.Free v ↔ w.mgr.Free v)
    (hknown : ∀ v, m.Known v ↔ w.mgr.Known v) : Made w { w with mgr := m } [] where
  calls := rfl
  nodup := List.nodup_nil
  free := fun u hu => absurd hu List.not_mem_nil
  rest := fun v => by
    rw [hfree v]
    exact ⟨fun h => ⟨h, List.not_mem_nil⟩, fun h => h.1⟩
  known := hknown
  counted := rfl

/-- One call, between two free user agents that have been taken. -/
theorem made_call (hname : Function.Injective name) (w : World name) (a b : UAId) (ok : Bool)
    (ha : w.mgr.Free a) (hb : w.mgr.Free b) (hab : a ≠ b) :
    Made w (schedCall (taken w a b) a b ok) [⟨a, b, if ok then some w.nextSess else none⟩] where
  calls := by
    cases ok with
    | true => rfl
    | false => rfl
  nodup := by
    rw [parties_single, List.nodup_cons, List.mem_singleton]
    exact ⟨hab, List.nodup_singleton b⟩
  free := by
    intro u hu
    rw [parties_single, List.mem_cons, List.mem_singleton] at hu
    rcases hu with hu | hu
    · rw [hu]
      exact ha
    · rw [hu]
      exact hb
  rest := fun v => by
    rw [schedCall_free hname, parties_single, List.mem_cons, List.mem_singleton, not_or]
  known := schedCall_known w a b ok
  counted := by
    rw [schedCall_stats]
    exact Nat.mod_mod _ _

theorem made_trans (w w' w'' : World name) (cs ds : List SchedCall) (h1 : Made w w' cs)
    (h2 : Made w' w'' ds) : Made w w'' (ds ++ cs) where
  calls := by rw [h2.calls, h1.calls, List.append_assoc]
  nodup := by
    rw [parties_append]
    refine List.nodup_append.mpr ⟨h2.nodup, h1.nodup, fun u hu v hv huv => ?_⟩
    -- Whoever was free after the first calls was in none of them.
    have hnot := ((h1.rest u).mp (h2.free u hu)).2
    rw [huv] at hnot
    exact hnot hv
  free := by
    intro u hu
    rw [parties_append, List.mem_append] at hu
    rcases hu with hu | hu
    · exact ((h1.rest u).mp (h2.free u hu)).1
    · exact h1.free u hu
  rest := fun v => by
    rw [h2.rest v, h1.rest v, parties_append, List.mem_append, not_or]
    exact ⟨fun h => ⟨h.1.1, h.2, h.1.2⟩, fun h => ⟨⟨h.1, h.2.2⟩, h.2.1⟩⟩
  known := fun v => (h2.known v).trans (h1.known v)
  counted := by
    have hc1 := h1.counted
    have hc2 := h2.counted
    rw [List.length_append]
    unfold u32 at hc1 hc2 ⊢
    omega

/-- What a round of the loop does. Either it takes two different free user
    agents, or there were fewer than two and it gives back what it took. -/
theorem round_cases (hname : Function.Injective name) (c : Choice) (n ii : Nat) (w : World name) :
    (∃ a b, w.mgr.Free a ∧ w.mgr.Free b ∧ a ≠ b ∧
      makeCalls (schedulerPool name c) (n + 1) ii w =
        let r := makeCalls (schedulerPool name c) n (ii + 1)
          (schedCall (taken w a b) a b (c.connected ii))
        (r.1, r.2 + 1)) ∨
    (w.mgr.freeUes.size < 2 ∧ ∃ m : UAManager name, (∀ v, m.Free v ↔ w.mgr.Free v) ∧
      (∀ v, m.Known v ↔ w.mgr.Known v) ∧
      makeCalls (schedulerPool name c) (n + 1) ii w = ({ w with mgr := m }, 0)) := by
  rcases getUaFreeForCall_cases c (2 * ii) w with ⟨a, ha, h1⟩ | ⟨hempty, h1⟩
  · rcases getUaFreeForCall_cases c (2 * ii + 1) { w with mgr := w.mgr.markUaInCall a } with
      ⟨b, hb, h2⟩ | ⟨hempty, h2⟩
    · have hb' := (mem_markUaInCall hname w.mgr a b).mp hb
      refine Or.inl ⟨a, b, ha, hb'.1, Ne.symm hb'.2, ?_⟩
      simp only [makeCalls, h1, h2]
      rfl
    · -- Nobody is left without `a`, so `a` was alone.
      have hsize := NamedPool.size_remove w.mgr.freeUes (w.mgr.markUaInCall a).freeUes [a]
        (List.nodup_singleton a)
        (fun u hu => by rw [List.mem_singleton.mp hu]; exact ha)
        (fun v => by rw [List.mem_singleton]; exact mem_markUaInCall hname w.mgr a v)
      rw [NamedPool.size_eq_zero _ hempty, List.length_singleton] at hsize
      refine Or.inr ⟨by omega, (w.mgr.markUaInCall a).markUaNotInCall (some a),
        free_giveBack hname w.mgr a ha, fun v => Iff.rfl, ?_⟩
      simp only [makeCalls, h1, h2]
      rfl
  · rcases getUaFreeForCall_cases c (2 * ii + 1) w with ⟨b, hb, _⟩ | ⟨_, h2⟩
    · exact absurd hb (hempty b)
    · refine Or.inr ⟨?_, w.mgr, fun v => Iff.rfl, fun v => Iff.rfl, ?_⟩
      · rw [NamedPool.size_eq_zero _ hempty]
        omega
      · simp only [makeCalls, h1, h2]
        rfl

/-- The loop makes as many calls as it may, or as there are pairs of free user
    agents. -/
theorem makeCalls_made (hname : Function.Injective name) (c : Choice) :
    ∀ (n ii : Nat) (w : World name), ∃ cs : List SchedCall,
      Made w (makeCalls (schedulerPool name c) n ii w).1 cs ∧
      (makeCalls (schedulerPool name c) n ii w).2 = cs.length ∧
      cs.length = min n (w.mgr.freeUes.size / 2) := by
  intro n
  -- On the rounds left. A round that makes a call leaves two free user agents
  -- fewer, and one that does not is the last.
  induction n with
  | zero =>
      intro ii w
      exact ⟨[], made_nil w w.mgr (fun v => Iff.rfl) (fun v => Iff.rfl), rfl,
        by rw [List.length_nil, Nat.zero_min]⟩
  | succ n ih =>
      intro ii w
      rcases round_cases hname c n ii w with ⟨a, b, ha, hb, hab, heq⟩ | ⟨hsize, m, hf, hk, heq⟩
      · have hone := made_call hname w a b (c.connected ii) ha hb hab
        rcases ih (ii + 1) (schedCall (taken w a b) a b (c.connected ii)) with
          ⟨cs, hmade, hcount, hlen⟩
        have hleft := made_size w _ _ hone
        rw [heq]
        refine ⟨cs ++ [_], made_trans w _ _ _ cs hone hmade, ?_, ?_⟩
        · simp only [hcount, List.length_append, List.length_singleton]
        · rw [List.length_append, hlen, List.length_singleton]
          rw [List.length_singleton] at hleft
          omega
      · rw [heq]
        refine ⟨[], made_nil w m hf hk, rfl, ?_⟩
        rw [List.length_nil]
        omega

/-! ## One tick -/

/-- What a tick does, whatever the bound of the loop is. -/
theorem actFor_made (hname : Function.Injective name) (w : World name) (c : Choice)
    (rounds : Nat) (r : World name × CallScheduler × Bool)
    (h : r = w.sched.actFor (schedulerPool name c) rounds w) :
    ∃ cs : List SchedCall, Made w { r.1 with sched := r.2.1 } cs ∧
      cs.length = min rounds (w.mgr.freeUes.size / 2) ∧
      r.2.1.actualCalls = u64 (w.sched.actualCalls + cs.length) := by
  rcases makeCalls_made hname c rounds 0 w with ⟨cs, hmade, hcount, hlen⟩
  refine ⟨cs, ?_, hlen, ?_⟩
  · rw [h]
    exact ⟨hmade.calls, hmade.nodup, hmade.free, hmade.rest, hmade.known, hmade.counted⟩
  · rw [h, ← hcount]
    rfl

theorem tick_made (hname : Function.Injective name) (w : World name) (e : Nat) (c : Choice) :
    ∃ cs : List SchedCall, Made w (tick w e c) cs ∧
      cs.length = min (callsToMake w.sched e).toNat (w.mgr.freeUes.size / 2) ∧
      (tick w e c).sched.actualCalls = u64 (w.sched.actualCalls + cs.length) :=
  actFor_made hname w c (callsToMake w.sched e).toNat _ rfl

/-! ## The rate -/

/-- At most as many calls are due as are left to make, or there are not enough
    free user agents for more. -/
def WithinLimit (expected : Int → Nat → Nat) (s : SchedulerRun) (t : Act name) : Prop :=
  min (callsToMake s.sched (expectedCalls expected s t.now)).toNat (t.users.mgr.freeUes.size / 2) ≤
    s.sched.maxCalls - s.sched.actualCalls

instance decidableWithinLimit (expected : Int → Nat → Nat) (s : SchedulerRun) (t : Act name) :
    Decidable (WithinLimit expected s t) := Nat.decLe _ _

/-- A step of the scheduler, whatever the bound of the loop is. -/
theorem actFor_counts (hname : Function.Injective name) (s : CallScheduler) (t : Act name)
    (rounds : Nat) :
    (makeCalls (schedulerPool name t.choice) rounds 0 t.users).2 =
      min rounds (t.users.mgr.freeUes.size / 2) ∧
    (s.actFor (schedulerPool name t.choice) rounds t.users).2.1 =
      { s with actualCalls := u64 (s.actualCalls + min rounds (t.users.mgr.freeUes.size / 2)) } := by
  rcases makeCalls_made hname t.choice rounds 0 t.users with ⟨cs, _, hcount, hlen⟩
  have hmade := hcount.trans hlen
  refine ⟨hmade, ?_⟩
  rw [← hmade]
  rfl

theorem actStep_counts (hname : Function.Injective name) (expected : Int → Nat → Nat)
    (s s' : SchedulerRun) (t : Act name) (h : actStep expected s t = some s') :
    let k := min (callsToMake s.sched (expectedCalls expected s t.now)).toNat
      (t.users.mgr.freeUes.size / 2)
    s'.made = s.made + k ∧
      s'.sched = { s.sched with actualCalls := u64 (s.sched.actualCalls + k) } := by
  unfold actStep at h
  split at h
  · rw [Option.some.injEq] at h
    rw [← h]
    have hcounts := actFor_counts hname s.sched t
      (callsToMake s.sched (expectedCalls expected s t.now)).toNat
    exact ⟨congrArg (s.made + ·) hcounts.1, hcounts.2⟩
  · exact absurd h (by simp only [reduceCtorEq, not_false_eq_true])

theorem exec_made_mono (hname : Function.Injective name) (expected : Int → Nat → Nat) (b : Nat) :
    ∀ (ts : List (Act name)) (s s' : SchedulerRun), b ≤ s.made →
      exec (actStep expected) s ts = some s' → b ≤ s'.made :=
  exec_invariant (actStep expected) (fun s => b ≤ s.made) (fun s t s' hs h => by
    rw [(actStep_counts hname expected s s' t h).1]
    exact le_trans hs (Nat.le_add_right _ _))

/-- While the limit has not been passed, the number of calls made is what the
    scheduler thinks it is. So the first tick that can pass it does. -/
theorem exec_limit (hname : Function.Injective name) (expected : Int → Nat → Nat) (maxCalls : Nat)
    (hmax : maxCalls < 2 ^ 64) :
    ∀ (ts : List (Act name)) (s s' : SchedulerRun), s.sched.maxCalls = maxCalls →
      s.sched.actualCalls = s.made → s.made ≤ maxCalls →
      exec (actStep expected) s ts = some s' →
      (s'.made ≤ maxCalls ↔ Along (actStep expected) (WithinLimit expected) s ts) := by
  intro ts
  induction ts with
  | nil =>
      intro s s' _ _ hle h
      simp only [exec, Option.some.injEq] at h
      rw [← h]
      exact ⟨fun _ => trivial, fun _ => hle⟩
  | cons t ts ih =>
      intro s s' hlimit hactual hle h
      rcases exec_cons (actStep expected) s s' t ts h with ⟨s1, h1, h2⟩
      have hcounts := actStep_counts hname expected s s1 t h1
      simp only [Along, h1, Option.some.injEq, forall_eq']
      unfold WithinLimit
      -- The bound of the loop does not matter from here on.
      generalize min (callsToMake s.sched (expectedCalls expected s t.now)).toNat
        (t.users.mgr.freeUes.size / 2) = k at hcounts ⊢
      rw [hlimit, hactual]
      by_cases hk : k ≤ maxCalls - s.made
      · have hrest := ih s1 s' (by rw [hcounts.2]; exact hlimit)
          (by rw [hcounts.2, hcounts.1, hactual]; exact u64_of_lt _ (by omega))
          (by rw [hcounts.1]; omega) h2
        exact ⟨fun hs => ⟨hk, hrest.mp hs⟩, fun hs => hrest.mpr hs.2⟩
      · -- Calls that have been made stay made, so the limit stays passed.
        have hover := exec_made_mono hname expected (maxCalls + 1) ts s1 s'
          (by rw [hcounts.1]; omega) h2
        exact ⟨fun hs => absurd hs (by omega), fun hs => absurd hs.1 hk⟩

/-- Over a whole run of the scheduler, whatever the rate, the clock and the
    user agents it finds, at most as many calls are made as the limit says
    exactly when no tick has both more calls due and more pairs of free user
    agents than calls are left to make. -/
theorem call_limit_kept_iff (pid : Nat) (expected : Int → Nat → Nat) (callsPerSec : Int)
    (maxCalls startTime : Nat) (ts : List (Act (uaName pid))) (s : SchedulerRun)
    (hmax : maxCalls < 2 ^ 64)
    (hrun : exec (actStep expected) (schedulerStart callsPerSec maxCalls startTime) ts = some s) :
    s.made ≤ maxCalls ↔
      Along (actStep expected) (WithinLimit expected)
        (schedulerStart callsPerSec maxCalls startTime) ts :=
  exec_limit (uaName_injective pid) expected maxCalls hmax ts _ s rfl rfl (Nat.zero_le maxCalls)
    hrun

/-- Four user agents, all registered. -/
def fourUsers : World (uaName 7) :=
  (exec step (start (uaName 7) (fun _ => false) 0) [.register 0 (some 200), .register 1 (some 200),
    .register 2 (some 200), .register 3 (some 200)]).getD (start (uaName 7) (fun _ => false) 0)

/-- The product of the rate and the time, where it needs no rounding. -/
def exactCalls (callsPerSec : Int) (ms : Nat) : Nat := (callsPerSec * ms / 1000).toNat

/-- Two calls a second, and a limit of two: two ticks, one of them late. -/
theorem call_limit_kept_iff_run :
    ∃ s, exec (actStep exactCalls) (schedulerStart 2 2 5000)
        [⟨5000, fourUsers, plainChoice⟩, ⟨6000, fourUsers, plainChoice⟩] = some s ∧
      s.made ≤ 2 := by
  have hrun : (exec (actStep exactCalls) (schedulerStart 2 2 5000)
        [⟨5000, fourUsers, plainChoice⟩, ⟨6000, fourUsers, plainChoice⟩]).isSome = true := by
    decide +kernel
  rcases Option.isSome_iff_exists.mp hrun with ⟨s, hs⟩
  exact ⟨s, hs, (call_limit_kept_iff 7 exactCalls 2 2 5000 _ s (by decide) hs).mpr
    (by decide +kernel)⟩

/-- The same with a limit of one. The second tick makes two calls. -/
theorem late_tick_passes_limit :
    ¬ ∀ (expected : Int → Nat → Nat) (callsPerSec : Int) (maxCalls startTime : Nat)
      (ts : List (Act (uaName 7))) (s : SchedulerRun), maxCalls < 2 ^ 64 →
      exec (actStep expected) (schedulerStart callsPerSec maxCalls startTime) ts = some s →
      s.made ≤ maxCalls := by
  intro hall
  have hrun : (exec (actStep exactCalls) (schedulerStart 2 1 5000)
        [⟨5000, fourUsers, plainChoice⟩, ⟨6000, fourUsers, plainChoice⟩]).any
        (fun s => decide (s.made = 2)) = true := by
    decide +kernel
  rcases (Option.any_eq_true _ _).mp hrun with ⟨s, hs, htwo⟩
  have hle := hall exactCalls 2 1 5000 _ s (by decide) hs
  rw [of_decide_eq_true htwo] at hle
  exact absurd hle (by decide)

end Agents

end SipPerf
