import SipPerf.Theory.AgentOps

/-!
# Sessions and the User Agents They Report To

A session reports to a user agent, and the handlers act on the session that
the user agent's one pointer names and in the role its one flag says. All is
well while a user agent has one session at a time: the pointer names the
session that reports, and the flag is the session's own.

Nothing in the program sees to that. An INVITE that arrives while a session is
live is accepted like any other, and overwrites both (the line that would
have answered 486 Busy is commented out). From then on the first session
reports to a user agent that takes it for the second. `OneAtATime` says that
this does not happen. It allows for an attempt that fails, which leaves the
pointer alone but sets the flag all the same.

The counters are a different matter. They are meant to balance: a call that
was started has succeeded, has failed, or is still going on. They are moved
by the handlers, which go by the flag and the error code and not by the
session, on the callee's side as on the caller's. `CountedOnce` says what
each event has to be like for the balance to be kept: attempts to connect
succeed, a success is counted when an outgoing session is released, and a
failure is counted when the sessions that end include one outgoing session,
and not otherwise.

## Main definitions

* `OwnSession`: Every live session is the one its user agent knows of.
* `OneAtATime`: No user agent is given a second session.
* `liveOutgoing`, `Balanced`: The balance of the counters.
* `CountedOnce`: An event moves the counters with the sessions.

## Theorems

* `step_ownSession`: Every event keeps sessions with their user agents.
* `callbacks_act_on_own_session`: Callbacks act on the session that reports.
* `returnSession_outgoing`: How many outgoing sessions are left.
* `step_balanced`: Every event keeps the balance.
* `call_statistics_balance`: The counters balance after any run.
-/

namespace SipPerf

namespace Agents

open MachineInt UAManager Transition

variable {name : UAId → String}

/-! ## Callbacks act on their own session -/

/-- Every live session is the one that the user agent it reports to has its
    pointer on, in the role the user agent takes itself to be in. -/
def OwnSession (w : World name) : Prop :=
  ∀ x ∈ w.live, (w.ua x.ua).sess = some x.id ∧ (w.ua x.ua).caller = x.outgoing

/-- A user agent may be given a session in a role: it has none, or there will
    be none and the role is the one it has. -/
def MayTake (w : World name) (u : UAId) (outgoing ok : Bool) : Prop :=
  (w.ua u).sess = none ∨ (ok = false ∧ (w.ua u).caller = outgoing)

/-- No user agent is given a session while it has one. -/
def OneAtATime (w : World name) : Event → Prop
  | .tick n c => CallsAlong (schedulerPool name c)
      (fun ii a _ p => MayTake p a true (c.connected ii)) (callsToMake w.sched n).toNat 0 w
  | .call u connected => MayTake w u true connected
  | .invite user accepted _ => ∀ u ∈ (w.mgr.getUaByName user).1, MayTake w u false accepted
  | _ => True

instance decidableMayTake (w : World name) (u : UAId) (outgoing ok : Bool) :
    Decidable (MayTake w u outgoing ok) :=
  inferInstanceAs (Decidable ((w.ua u).sess = none ∨ (ok = false ∧ (w.ua u).caller = outgoing)))

instance decidableOneAtATime (w : World name) : (e : Event) → Decidable (OneAtATime w e)
  | .register _ _ => isTrue trivial
  | .tick n c => inferInstanceAs (Decidable (CallsAlong (schedulerPool name c)
      (fun ii a _ p => MayTake p a true (c.connected ii)) (callsToMake w.sched n).toNat 0 w))
  | .call u connected => inferInstanceAs (Decidable (MayTake w u true connected))
  | .invite user accepted _ => inferInstanceAs (Decidable (∀ u ∈ (w.mgr.getUaByName user).1,
      MayTake w u false accepted))
  | .establish _ => isTrue trivial
  | .close _ _ => isTrue trivial

theorem takeSession_own (w : World name) (u : UAId) (outgoing ok : Bool) (h : OwnSession w)
    (hok : MayTake w u outgoing ok) : OwnSession (takeSession w u outgoing ok) := by
  intro x hx
  rw [takeSession_live] at hx
  -- A session that was there keeps its user agent, or that had none to lose.
  have hold : x ∈ w.live → (x.ua = u → ok = false) →
      ((takeSession w u outgoing ok).ua x.ua).sess = some x.id ∧
        ((takeSession w u outgoing ok).ua x.ua).caller = x.outgoing := by
    intro hmem hfail
    rcases h x hmem with ⟨hs, hc⟩
    by_cases hxu : x.ua = u
    · rw [hxu] at hs hc
      rw [hxu, takeSession_self, hfail hxu, if_neg (by decide)]
      rcases hok with hnone | ⟨_, hrole⟩
      · rw [hnone] at hs
        exact absurd hs (by simp only [reduceCtorEq, not_false_eq_true])
      · exact ⟨hs, hrole.symm.trans hc⟩
    · rw [takeSession_other w u x.ua outgoing ok hxu]
      exact ⟨hs, hc⟩
  cases ok with
  | true =>
      rcases List.mem_cons.mp hx with hnew | hmem
      · rw [hnew]
        simp only [takeSession_self, if_true, and_self]
      · refine hold hmem (fun hxu => ?_)
        rcases hok with hnone | ⟨hc, _⟩
        · have hs := (h x hmem).1
          rw [hxu, hnone] at hs
          exact absurd hs (by simp only [reduceCtorEq, not_false_eq_true])
        · exact hc
  | false => exact hold hx (fun _ => rfl)

/-- Releasing the session of a user agent leaves none that reports to it. -/
theorem returnSession_own (w : World name) (u : UAId) (h : OwnSession w) :
    OwnSession (returnSession w u) := by
  intro x hx
  rw [returnSession_live, List.mem_filter, decide_eq_true_eq] at hx
  -- A session that reports to `u` is the one that is released.
  have hxu : x.ua ≠ u := fun hc => hx.2 (hc ▸ (h x hx.1).1.symm)
  rw [returnSession_other w u x.ua hxu]
  exact h x hx.1

theorem setEstablished_own (w : World name) (i : SessId) (h : OwnSession w) :
    OwnSession (setEstablished w i) := by
  intro x hx
  rcases setEstablished_mem w i x hx with ⟨y, hy, hid, hua, hout⟩
  rw [← hid, ← hua, ← hout]
  exact h y hy

theorem step_ownSession (hname : Function.Injective name) (w : World name) (e : Event)
    (w' : World name) (h : OwnSession w) (hok : OneAtATime w e) (hstep : step w e = some w') :
    OwnSession w' := by
  cases e with
  | register u scode =>
      simp only [step, Option.some.injEq, registerHandler] at hstep
      rw [← hstep]
      by_cases hs : scode = some 200
      · rw [if_pos hs]
        exact h
      · rw [if_neg hs]
        exact h
  | tick n c =>
      rcases step_tick w w' n c hstep with ⟨s, hw'⟩
      rw [hw']
      refine tick_invariant hname c (fun ii a _ p => MayTake p a true (c.connected ii)) OwnSession
        (fun _ _ h => h) (fun _ _ h _ _ => h) (fun w ii a b h _ _ _ hmay => ?_) w _ h hok s
      unfold schedCall
      rw [call_eq]
      exact takeSession_own (taken w a b) a true (c.connected ii) h hmay
  | call u connected =>
      simp only [step, Option.some.injEq] at hstep
      rw [← hstep, call_eq]
      exact takeSession_own w u true connected h hok
  | invite user accepted answered =>
      rcases step_invite w w' user accepted answered hstep with ⟨u, huser, hu, hw'⟩
      rw [hw']
      exact takeSession_own w u false accepted h
        (hok u (getUaByName_of_known w.mgr user u huser hu))
  | establish i =>
      rcases step_establish w w' i hstep with ⟨x, _, _, hw'⟩
      rw [hw']
      by_cases hc : (w.ua x.ua).caller
      · rw [if_pos hc]
        exact returnSession_own (setEstablished w i) x.ua (setEstablished_own w i h)
      · rw [if_neg hc]
        exact setEstablished_own w i h
  | close i err =>
      rcases step_close w w' i err hstep with ⟨x, _, _, hw'⟩
      rw [hw']
      exact returnSession_own (endSession w i) x.ua (fun y hy => h y (List.mem_filter.mp hy).1)

/-- In any run in which no user agent is given a session while it has one,
    every live session is the one its user agent has its pointer on, in the
    role its user agent takes itself to be in. So when it is reported
    established the handler releases it if it is outgoing and nothing
    otherwise, and when it is reported closed the handler releases it and
    nothing else. -/
theorem callbacks_act_on_own_session (pid : Nat) (caller : UAId → Bool) (maxCalls : Nat)
    (es : List Event) (w : World (uaName pid))
    (hok : Along step OneAtATime (start (uaName pid) caller maxCalls) es)
    (hrun : exec step (start (uaName pid) caller maxCalls) es = some w) :
    (∀ x ∈ w.live, (w.ua x.ua).sess = some x.id ∧ ((w.ua x.ua).caller = true ↔ x.outgoing = true)) ∧
      (∀ i w', step w (.establish i) = some w' → ∃ x ∈ w.live, x.id = i ∧
        ∀ j, LiveId w' j ↔ LiveId w j ∧ (x.outgoing = true → j ≠ i)) ∧
      ∀ i err w', step w (.close i err) = some w' → ∀ j, LiveId w' j ↔ LiveId w j ∧ j ≠ i := by
  have h : OwnSession w := exec_invariant_along step OneAtATime OwnSession
    (fun w e w' => step_ownSession (uaName_injective pid) w e w') es _ w
    (fun x hx => absurd hx List.not_mem_nil) hok hrun
  refine ⟨fun x hx => ⟨(h x hx).1, by rw [(h x hx).2]⟩, fun i w' hstep => ?_,
    fun i err w' hstep j => ?_⟩
  · rcases step_establish w w' i hstep with ⟨x, hx, hid, hw'⟩
    refine ⟨x, hx, hid, fun j => ?_⟩
    rcases h x hx with ⟨hs, hc⟩
    rw [hw']
    by_cases hcaller : (w.ua x.ua).caller
    · rw [if_pos hcaller]
      change LiveId (returnSession (setEstablished w i) x.ua) j ↔ _
      rw [returnSession_liveId, setEstablished_liveId, ← hc, hcaller]
      change LiveId w j ∧ (w.ua x.ua).sess ≠ some j ↔ _
      rw [hs, hid]
      simp only [ne_eq, Option.some.injEq, forall_const, eq_comm]
    · rw [if_neg hcaller, setEstablished_liveId, ← hc]
      simp only [hcaller, Bool.false_eq_true, false_implies, and_true]
  · rcases step_close w w' i err hstep with ⟨x, hx, hid, hw'⟩
    rw [hw']
    change LiveId (returnSession (endSession w i) x.ua) j ↔ _
    rw [returnSession_liveId, endSession_liveId]
    change (LiveId w j ∧ j ≠ i) ∧ (w.ua x.ua).sess ≠ some j ↔ _
    rw [(h x hx).1, hid]
    simp only [ne_eq, Option.some.injEq, eq_comm, and_assoc, and_self]

/-- A call is set up, with the session of the callee still live. -/
theorem callbacks_act_on_own_session_run :
    ∃ w, exec step (start (uaName 7) (fun _ => false) 10)
        [.register 0 (some 200), .register 1 (some 200), .tick 1 plainChoice,
          .invite "7-ue0" true true, .establish 1, .establish 0] = some w ∧
      (∃ x ∈ w.live, x.id = 1) ∧
      ∀ x ∈ w.live, (w.ua x.ua).sess = some x.id ∧
        ((w.ua x.ua).caller = true ↔ x.outgoing = true) := by
  have hrun : (exec step (start (uaName 7) (fun _ => false) 10)
        [.register 0 (some 200), .register 1 (some 200), .tick 1 plainChoice,
          .invite "7-ue0" true true, .establish 1, .establish 0]).any
        (fun w => decide (∃ x ∈ w.live, x.id = 1)) = true := by
    decide +kernel
  rcases (Option.any_eq_true _ _).mp hrun with ⟨w, hw, hs⟩
  exact ⟨w, hw, of_decide_eq_true hs,
    (callbacks_act_on_own_session 7 (fun _ => false) 10 _ w (by decide +kernel) hw).1⟩

/-- A user agent makes a call and receives an INVITE before it is set up. -/
theorem invite_overwrites_live_session :
    ¬ ∀ (es : List Event) (w : World (uaName 7)),
      exec step (start (uaName 7) (fun _ => false) 10) es = some w →
        ∀ x ∈ w.live, (w.ua x.ua).sess = some x.id ∧
          ((w.ua x.ua).caller = true ↔ x.outgoing = true) := by
  intro hall
  have hrun : (exec step (start (uaName 7) (fun _ => false) 10)
        [.register 0 (some 200), .call 0 true, .invite "7-ue0" true true]).any
        (fun w => decide (⟨0, 0, true, false⟩ ∈ w.live ∧ (w.ua 0).sess = some 1)) = true := by
    decide +kernel
  rcases (Option.any_eq_true _ _).mp hrun with ⟨w, hw, hs⟩
  rcases of_decide_eq_true hs with ⟨hmem, hsess⟩
  have hown := (hall _ w hw _ hmem).1
  rw [hsess] at hown
  exact absurd hown (by decide)

/-! ## The counters balance -/

/-- The number of outgoing sessions that are live. -/
def liveOutgoing (w : World name) : Nat := w.live.countP (fun x => x.outgoing)

/-- The calls that were started have succeeded, have failed or are going on,
    as far as 32-bit counters can tell. -/
def Balanced (w : World name) : Prop :=
  w.stats.initCall = u32 (w.stats.successCall + w.stats.failedCall + liveOutgoing w)

/-- The number of live outgoing sessions among the given ones. -/
def outgoingAmong (w : World name) (is : List SessId) : Nat :=
  w.live.countP (fun x => x.outgoing && decide (x.id ∈ is))

/-- The event moves the counters as it ends sessions: attempts to connect
    succeed, a caller that is established has an outgoing session, and the
    sessions that a close ends include one outgoing session if it is counted
    as a failure, and none if it is not. -/
def CountedOnce (w : World name) : Event → Prop
  | .tick n c => CallsAlong (schedulerPool name c) (fun ii _ _ _ => c.connected ii = true)
      (callsToMake w.sched n).toNat 0 w
  | .call _ connected => connected = true
  | .establish i => ∀ x ∈ w.live, x.id = i → (w.ua x.ua).caller = true →
      outgoingAmong w (w.ua x.ua).sess.toList = 1
  | .close i err => ∀ x ∈ w.live, x.id = i →
      outgoingAmong w (i :: (w.ua x.ua).sess.toList) = if err ≠ econnreset then 1 else 0
  | _ => True

instance decidableCountedOnce (w : World name) : (e : Event) → Decidable (CountedOnce w e)
  | .register _ _ => isTrue trivial
  | .tick n c => inferInstanceAs (Decidable (CallsAlong (schedulerPool name c)
      (fun ii _ _ _ => c.connected ii = true) (callsToMake w.sched n).toNat 0 w))
  | .call _ connected => inferInstanceAs (Decidable (connected = true))
  | .invite _ _ _ => isTrue trivial
  | .establish i => inferInstanceAs (Decidable (∀ x ∈ w.live, x.id = i →
      (w.ua x.ua).caller = true → outgoingAmong w (w.ua x.ua).sess.toList = 1))
  | .close i err => inferInstanceAs (Decidable (∀ x ∈ w.live, x.id = i →
      outgoingAmong w (i :: (w.ua x.ua).sess.toList) = if err ≠ econnreset then 1 else 0))

theorem takeSession_outgoing (w : World name) (u : UAId) (outgoing ok : Bool) :
    liveOutgoing (takeSession w u outgoing ok) =
      liveOutgoing w + if ok && outgoing then 1 else 0 := by
  unfold liveOutgoing
  rw [takeSession_live]
  cases ok with
  | true =>
      rw [if_pos rfl, List.countP_cons]
      simp only [Bool.true_and]
  | false => simp only [Bool.false_eq_true, if_false, Bool.false_and, Nat.add_zero]

/-- The sessions that are left when some have ended. -/
theorem liveOutgoing_filter (w w' : World name) (is : List SessId)
    (h : w'.live = w.live.filter (fun x => decide (x.id ∉ is))) :
    liveOutgoing w = liveOutgoing w' + outgoingAmong w is := by
  unfold liveOutgoing outgoingAmong
  rw [h, List.countP_eq_countP_filter_add w.live (fun x => x.outgoing)
    (fun x => decide (x.id ∉ is)), List.countP_filter (l := w.live)
    (q := fun x => !decide (x.id ∉ is))]
  congr 2
  ext x
  simp only [decide_not, Bool.not_not]

/-- How many outgoing sessions are left when a user agent returns. -/
theorem returnSession_outgoing (w : World name) (u : UAId) :
    liveOutgoing w =
      liveOutgoing (returnSession w u) + outgoingAmong w (w.ua u).sess.toList := by
  refine liveOutgoing_filter w _ _ ?_
  rw [returnSession_live]
  congr 1
  ext x
  rw [decide_eq_decide, Option.mem_toList, ne_eq, eq_comm]

/-- The same when another session has just been closed. -/
theorem close_outgoing (w : World name) (i : SessId) (u : UAId) :
    liveOutgoing w = liveOutgoing (returnSession (endSession w i) u) +
      outgoingAmong w (i :: (w.ua u).sess.toList) := by
  refine liveOutgoing_filter w _ _ ?_
  rw [returnSession_live, endSession, List.filter_filter]
  congr 1
  ext x
  rw [← Bool.decide_and, decide_eq_decide, List.mem_cons, Option.mem_toList, not_or, ne_eq, ne_eq,
    @eq_comm _ (some x.id), and_comm]

/-- Being established ends no session. -/
theorem setEstablished_outgoing (w : World name) (i : SessId) (is : List SessId) :
    liveOutgoing (setEstablished w i) = liveOutgoing w ∧
      outgoingAmong (setEstablished w i) is = outgoingAmong w is := by
  unfold liveOutgoing outgoingAmong setEstablished
  rw [List.countP_map, List.countP_map]
  refine ⟨List.countP_congr fun x _ => ?_, List.countP_congr fun x _ => ?_⟩
  · simp only [Function.comp]
    split
    · exact Iff.rfl
    · exact Iff.rfl
  · simp only [Function.comp]
    split
    · exact Iff.rfl
    · exact Iff.rfl

/-- A call that gets a session adds one to either side. -/
theorem balanced_of_call (w w' : World name) (h : Balanced w)
    (hlive : liveOutgoing w' = liveOutgoing w + 1)
    (hstats : w'.stats = { w.stats with initCall := u32 (w.stats.initCall + 1) }) :
    Balanced w' := by
  unfold Balanced at *
  rw [hlive, hstats]
  simp only [u32] at *
  omega

/-- Every event keeps the balance. -/
theorem step_balanced (hname : Function.Injective name) (w : World name) (e : Event)
    (w' : World name) (h : Balanced w) (hok : CountedOnce w e) (hstep : step w e = some w') :
    Balanced w' := by
  cases e with
  | register u scode =>
      simp only [step, Option.some.injEq, registerHandler] at hstep
      rw [← hstep]
      by_cases hs : scode = some 200
      · rw [if_pos hs]
        exact h
      · rw [if_neg hs]
        exact h
  | tick n c =>
      rcases step_tick w w' n c hstep with ⟨s, hw'⟩
      rw [hw']
      refine tick_invariant hname c (fun ii _ _ _ => c.connected ii = true) Balanced
        (fun _ _ h => h) (fun _ _ h _ _ => h) (fun w ii a b h _ _ _ hc => ?_) w _ h hok s
      refine balanced_of_call w _ h ?_ (schedCall_stats w a b _)
      unfold liveOutgoing
      rw [schedCall_live, hc, if_pos rfl, List.countP_cons, if_pos rfl]
  | call u connected =>
      simp only [step, Option.some.injEq] at hstep
      rw [← hstep, call_eq]
      refine balanced_of_call w _ h ?_ rfl
      have htake := takeSession_outgoing w u true connected
      rw [show connected = true from hok] at htake ⊢
      exact htake
  | invite user accepted answered =>
      rcases step_invite w w' user accepted answered hstep with ⟨u, _, _, hw'⟩
      rw [hw']
      unfold Balanced at h ⊢
      rw [(takeSession_rest w u false accepted).2.1, takeSession_outgoing, Bool.and_false,
        if_neg (by decide), Nat.add_zero]
      exact h
  | establish i =>
      rcases step_establish w w' i hstep with ⟨x, hx, hid, hw'⟩
      rw [hw']
      by_cases hc : (w.ua x.ua).caller
      · rw [if_pos hc]
        -- One outgoing session becomes one success.
        have hone := hok x hx hid hc
        have hleft := returnSession_outgoing (setEstablished w i) x.ua
        rcases setEstablished_outgoing w i ((w.ua x.ua).sess.toList) with ⟨hsame, hamong⟩
        rw [hsame] at hleft
        change liveOutgoing w = _ + outgoingAmong (setEstablished w i) (w.ua x.ua).sess.toList
          at hleft
        rw [hamong, hone] at hleft
        unfold Balanced at h ⊢
        change w.stats.initCall = u32 (u32 (w.stats.successCall + 1) + w.stats.failedCall +
          liveOutgoing (returnSession (setEstablished w i) x.ua))
        rw [h, hleft]
        simp only [u32]
        omega
      · rw [if_neg hc]
        unfold Balanced at h ⊢
        rw [(setEstablished_outgoing w i []).1]
        exact h
  | close i err =>
      rcases step_close w w' i err hstep with ⟨x, hx, hid, hw'⟩
      rw [hw']
      -- Whatever ends with the close is counted by what the guard says of it.
      have hleft := close_outgoing w i x.ua
      rw [hok x hx hid] at hleft
      unfold Balanced at h ⊢
      by_cases he : err ≠ econnreset
      · rw [if_pos he] at hleft
        simp only [if_pos he]
        change w.stats.initCall = u32 (w.stats.successCall + u32 (w.stats.failedCall + 1) +
          liveOutgoing (returnSession (endSession w i) x.ua))
        rw [h, hleft]
        simp only [u32]
        omega
      · rw [if_neg he, Nat.add_zero] at hleft
        simp only [if_neg he]
        change w.stats.initCall = u32 (w.stats.successCall + w.stats.failedCall +
          liveOutgoing (returnSession (endSession w i) x.ua))
        rw [h, hleft]

theorem start_balanced (caller : UAId → Bool) (maxCalls : Nat) :
    Balanced (start name caller maxCalls) := rfl

/-- In any run whose events count each call once, the calls that were started
    have succeeded, have failed or are going on. -/
theorem call_statistics_balance (pid : Nat) (caller : UAId → Bool) (maxCalls : Nat)
    (es : List Event) (w : World (uaName pid))
    (hok : Along step CountedOnce (start (uaName pid) caller maxCalls) es)
    (hrun : exec step (start (uaName pid) caller maxCalls) es = some w) :
    w.stats.initCall = u32 (w.stats.successCall + w.stats.failedCall + liveOutgoing w) :=
  exec_invariant_along step CountedOnce Balanced
    (fun w e w' => step_balanced (uaName_injective pid) w e w') es _ w
    (start_balanced caller maxCalls) hok hrun

/-- Two calls are started; one succeeds and is hung up, and one fails. -/
theorem call_statistics_balance_run :
    ∃ w, exec step (start (uaName 7) (fun _ => false) 10)
        [.register 0 (some 200), .register 1 (some 200), .tick 1 plainChoice,
          .invite "7-ue0" true true, .establish 1, .establish 0, .close 1 econnreset,
          .call 1 true, .close 2 110] = some w ∧
      (w.stats.initCall = 2 ∧ w.stats.successCall = 1 ∧ w.stats.failedCall = 1) ∧
      w.stats.initCall = u32 (w.stats.successCall + w.stats.failedCall + liveOutgoing w) := by
  have hrun : (exec step (start (uaName 7) (fun _ => false) 10)
        [.register 0 (some 200), .register 1 (some 200), .tick 1 plainChoice,
          .invite "7-ue0" true true, .establish 1, .establish 0, .close 1 econnreset,
          .call 1 true, .close 2 110]).any
        (fun w => decide (w.stats.initCall = 2 ∧ w.stats.successCall = 1 ∧
          w.stats.failedCall = 1)) = true := by
    decide +kernel
  rcases (Option.any_eq_true _ _).mp hrun with ⟨w, hw, hs⟩
  exact ⟨w, hw, of_decide_eq_true hs,
    call_statistics_balance 7 (fun _ => false) 10 _ w (by decide +kernel) hw⟩

/-- A call for which the library cannot connect is counted as started and as
    nothing else. -/
theorem failed_connect_is_not_counted :
    ¬ ∀ (es : List Event) (w : World (uaName 7)),
      exec step (start (uaName 7) (fun _ => false) 10) es = some w →
        w.stats.initCall = u32 (w.stats.successCall + w.stats.failedCall + liveOutgoing w) := by
  intro hall
  have hrun : (exec step (start (uaName 7) (fun _ => false) 10) [.call 0 false]).any
        (fun w => decide (w.stats.initCall ≠
          u32 (w.stats.successCall + w.stats.failedCall + liveOutgoing w))) = true := by
    decide +kernel
  rcases (Option.any_eq_true _ _).mp hrun with ⟨w, hw, hs⟩
  exact of_decide_eq_true hs (hall _ w hw)

end Agents

end SipPerf
