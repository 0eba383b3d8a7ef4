import SipPerf.Theory.AgentOps

/-!
# The Pool of Free User Agents

Two things are wanted of the pool. A user agent in it is not in a call, or it
would be called or made to call while it is. And a user agent that is in no
call is in it, or it would never be used again.

Neither holds of the program as it stands, and the reasons are apart. The
first is lost when a registration is refreshed: every successful REGISTER
puts the user agent in the pool, and the library refreshes registrations on
its own while calls are going on. Nothing else puts a user agent that has a
session in the pool. `NoRefreshInCall` rules that one event out, and then no
interleaving of the others does any harm.

The second is lost when something fails that the program only logs. A call
takes two user agents out of the pool, and counts on a callback of each to
put them back. The caller's callback comes from its session, so if there is
no session it does not come. The callee's comes from the session that the
INVITE makes, so it does not come if the INVITE does not, or is not accepted,
and the caller's callback does not put the callee back. `NothingLost` says
that none of this happens: the sessions asked for are made, and a session
does not end while its callee is still waiting to be called.

## Main definitions

* `FreeIdle`: No free user agent has a session.
* `NoRefreshInCall`: No successful REGISTER for a user agent with a session.
* `Kept`: A user agent is free, has a session, or is waited for.
* `NothingLost`: Nothing fails that would lose a user agent.

## Theorems

* `step_freeIdle`: Every event keeps free user agents idle.
* `free_agents_not_in_call`: No user agent is ever free and in a call.
* `step_accounted`: Every event accounts for every user agent.
* `agents_stay_in_pool`: No user agent is ever lost.
-/

namespace SipPerf

namespace Agents

open MachineInt UAManager Transition

variable {name : UAId → String}

/-! ## Free user agents are not in a call -/

/-- No free user agent has a session. -/
def FreeIdle (w : World name) : Prop := ∀ u, w.mgr.Free u → (w.ua u).sess = none

/-- The event is not a successful REGISTER for a user agent that has a
    session. -/
def NoRefreshInCall (w : World name) : Event → Prop
  | .register u scode => scode = some 200 → (w.ua u).sess = none
  | _ => True

instance decidableNoRefreshInCall (w : World name) : (e : Event) → Decidable (NoRefreshInCall w e)
  | .register u scode => inferInstanceAs (Decidable (scode = some 200 → (w.ua u).sess = none))
  | .tick _ _ => isTrue trivial
  | .call _ _ => isTrue trivial
  | .invite _ _ _ => isTrue trivial
  | .establish _ => isTrue trivial
  | .close _ _ => isTrue trivial

theorem takeSession_freeIdle (hname : Function.Injective name) (w : World name) (u : UAId)
    (outgoing ok : Bool) (h : FreeIdle w) : FreeIdle (takeSession w u outgoing ok) := by
  intro v hv
  rw [(takeSession_rest w u outgoing ok).1, mem_markUaInCall hname] at hv
  rw [takeSession_other w u v outgoing ok hv.2]
  exact h v hv.1

theorem returnSession_freeIdle (hname : Function.Injective name) (w : World name) (u : UAId)
    (h : FreeIdle w) : FreeIdle (returnSession w u) := by
  intro v hv
  rw [(returnSession_rest w u).1, mem_markUaNotInCall hname] at hv
  by_cases hvu : v = u
  · rw [hvu, returnSession_self]
  · rw [returnSession_other w u v hvu]
    rcases hv with hc | hv
    · exact absurd hc hvu
    · exact h v hv

/-- Taking user agents out of the pool does no harm. -/
theorem freeIdle_of_free (w : World name) (m : UAManager name) (h : FreeIdle w)
    (hsub : ∀ v, m.Free v → w.mgr.Free v) : FreeIdle { w with mgr := m } :=
  fun v hv => h v (hsub v hv)

theorem taken_freeIdle (hname : Function.Injective name) (w : World name) (a b : UAId)
    (h : FreeIdle w) : FreeIdle (taken w a b) := by
  refine freeIdle_of_free w _ h (fun v hv => ?_)
  rw [mem_markUaInCall hname, mem_markUaInCall hname] at hv
  exact hv.1.1

theorem schedCall_freeIdle (hname : Function.Injective name) (w : World name) (a b : UAId)
    (connected : Bool) (h : FreeIdle w) : FreeIdle (schedCall w a b connected) := by
  unfold schedCall
  rw [call_eq]
  exact takeSession_freeIdle hname w a true connected h

theorem step_freeIdle (hname : Function.Injective name) (w : World name) (e : Event)
    (w' : World name) (h : FreeIdle w) (hok : NoRefreshInCall w e) (hstep : step w e = some w') :
    FreeIdle w' := by
  cases e with
  | register u scode =>
      simp only [step, Option.some.injEq, registerHandler] at hstep
      rw [← hstep]
      by_cases hs : scode = some 200
      · rw [if_pos hs]
        intro v hv
        rcases ((mem_markUaRegistered hname w.mgr u v).1).mp hv with hvu | hv
        · rw [hvu]
          exact hok hs
        · exact h v hv
      · rw [if_neg hs]
        exact h
  | tick n c =>
      rcases step_tick w w' n c hstep with ⟨s, hw'⟩
      rw [hw']
      -- A call takes a session for a user agent that is in the pool no more.
      refine tick_invariant hname c (fun _ _ _ _ => True) FreeIdle (fun _ _ h => h)
        (fun w m h hfree _ => freeIdle_of_free w m h (fun v => (hfree v).mp))
        (fun w ii a b h _ _ _ _ => ?_) w _ h ?_ s
      · exact schedCall_freeIdle hname _ a b _ (taken_freeIdle hname w a b h)
      · exact callsAlong_trivial _ _ _ _
  | call u connected =>
      simp only [step, Option.some.injEq] at hstep
      rw [← hstep, call_eq]
      exact takeSession_freeIdle hname w u true connected h
  | invite user accepted answered =>
      rcases step_invite w w' user accepted answered hstep with ⟨u, _, _, hw'⟩
      rw [hw']
      exact takeSession_freeIdle hname w u false accepted h
  | establish i =>
      rcases step_establish w w' i hstep with ⟨x, _, _, hw'⟩
      rw [hw']
      by_cases hc : (w.ua x.ua).caller
      · rw [if_pos hc]
        exact returnSession_freeIdle hname (setEstablished w i) x.ua h
      · rw [if_neg hc]
        exact h
  | close i err =>
      rcases step_close w w' i err hstep with ⟨x, _, _, hw'⟩
      rw [hw']
      exact returnSession_freeIdle hname (endSession w i) x.ua h

theorem start_freeIdle (caller : UAId → Bool) (maxCalls : Nat) :
    FreeIdle (start name caller maxCalls) := fun _ _ => rfl

/-- Whatever a tick draws from the pool has no session. -/
theorem freeIdle_draws (hname : Function.Injective name) (c : Choice) (w : World name)
    (h : FreeIdle w) (n : Nat) :
    DrawsAlong (schedulerPool name c) (fun u w => (w.ua u).sess = none) n 0 w := by
  refine drawsAlong_of_free c _ FreeIdle (fun p a hp ha => ⟨?_, hp a ha⟩)
    (fun p a b connected hp => schedCall_freeIdle hname p a b connected hp) w h n
  exact freeIdle_of_free p _ hp (fun v hv => ((mem_markUaInCall hname p.mgr a v).mp hv).1)

/-- In any run in which no user agent is registered again while it has a
    session, no user agent is ever free and in a call, and the scheduler is
    handed none that is in a call. -/
theorem free_agents_not_in_call (pid : Nat) (caller : UAId → Bool) (maxCalls : Nat)
    (es : List Event) (w : World (uaName pid))
    (hok : Along step NoRefreshInCall (start (uaName pid) caller maxCalls) es)
    (hrun : exec step (start (uaName pid) caller maxCalls) es = some w) :
    (∀ u, (w.ua u).sess ≠ none → ¬ w.mgr.Free u) ∧
      (∀ i u, (w.mgr.getUaFreeForCall i).1 = some u → (w.ua u).sess = none) ∧
      ∀ expectedCalls c, DrawsAlong (schedulerPool (uaName pid) c)
        (fun u w => (w.ua u).sess = none) (callsToMake w.sched expectedCalls).toNat 0 w := by
  have hname := uaName_injective pid
  have h : FreeIdle w := exec_invariant_along step NoRefreshInCall FreeIdle
    (fun w e w' => step_freeIdle hname w e w') es _ w (start_freeIdle caller maxCalls) hok hrun
  refine ⟨fun u hs hf => hs (h u hf), fun i u hu => ?_, fun n c => freeIdle_draws hname c w h _⟩
  unfold getUaFreeForCall at hu
  cases hd : w.mgr.freeUes.draw i with
  | none => simp only [hd, reduceCtorEq] at hu
  | some v =>
      simp only [hd, Option.some.injEq] at hu
      rw [← hu]
      exact h v (NamedPool.draw_eq_some _ i v hd)

/-- Two user agents register, one calls the other, the call is set up and hung
    up, and the caller's registration is refreshed after that. -/
theorem free_agents_not_in_call_run :
    ∃ w, exec step (start (uaName 7) (fun _ => false) 10)
        [.register 0 (some 200), .register 1 (some 200), .tick 1 plainChoice,
          .invite "7-ue0" true true, .establish 0, .register 1 (some 200)] = some w ∧
      (w.ua 0).sess = some 1 ∧ ¬ w.mgr.Free 0 := by
  have hrun : (exec step (start (uaName 7) (fun _ => false) 10)
        [.register 0 (some 200), .register 1 (some 200), .tick 1 plainChoice,
          .invite "7-ue0" true true, .establish 0, .register 1 (some 200)]).any
        (fun w => decide ((w.ua 0).sess = some 1)) = true := by
    decide +kernel
  rcases (Option.any_eq_true _ _).mp hrun with ⟨w, hw, hs⟩
  have hsess := of_decide_eq_true hs
  refine ⟨w, hw, hsess, (free_agents_not_in_call 7 (fun _ => false) 10 _ w (by decide +kernel)
    hw).1 0 ?_⟩
  rw [hsess]
  simp only [ne_eq, reduceCtorEq, not_false_eq_true]

/-- The same with the registration refreshed while the call is going on. -/
theorem refreshed_agent_is_free_in_call :
    ¬ ∀ (es : List Event) (w : World (uaName 7)),
      exec step (start (uaName 7) (fun _ => false) 10) es = some w →
        ∀ u, (w.ua u).sess ≠ none → ¬ w.mgr.Free u := by
  intro hall
  have hrun : (exec step (start (uaName 7) (fun _ => false) 10)
        [.register 0 (some 200), .register 1 (some 200), .tick 1 plainChoice,
          .register 1 (some 200)]).any
        (fun w => decide ((w.ua 1).sess ≠ none ∧ w.mgr.Free 1)) = true := by
    decide +kernel
  rcases (Option.any_eq_true _ _).mp hrun with ⟨w, hw, hs⟩
  have hboth := of_decide_eq_true hs
  exact hall _ w hw 1 hboth.1 hboth.2

/-! ## User agents stay in the pool -/

/-- The user agent is waited for: the scheduler has taken it as the callee of
    a call whose session is live. -/
def Awaited (w : World name) (u : UAId) : Prop := ∃ i ∈ w.reservedFor u, LiveId w i

/-- The user agent is free, has a session, or is waited for. -/
def Kept (w : World name) (u : UAId) : Prop :=
  w.mgr.Free u ∨ (w.ua u).sess ≠ none ∨ Awaited w u

/-- A session ends without leaving its callee behind: the callee that is
    waited for is in the pool or has a session, or is the user agent that is
    being put back. -/
def Reaches (w : World name) (i : SessId) (u : UAId) : Prop :=
  ∀ r ∈ w.calls, r.sess = some i → w.reservedFor r.callee = some i →
    r.callee = u ∨ w.mgr.Free r.callee ∨ (w.ua r.callee).sess ≠ none

/-- Nothing fails that would lose a user agent: calls of the scheduler get a
    session, an INVITE to a user agent that nothing else keeps is accepted,
    and no session ends before its callee has been reached. Calls are made by
    the scheduler only. -/
def NothingLost (w : World name) : Event → Prop
  | .register _ _ => True
  | .tick n c => CallsAlong (schedulerPool name c) (fun ii _ _ _ => c.connected ii = true)
      (callsToMake w.sched n).toNat 0 w
  | .call _ _ => False
  | .invite user accepted _ => accepted = true ∨
      ∀ u ∈ (w.mgr.getUaByName user).1, (w.ua u).sess ≠ none ∨ Awaited w u
  | .establish i => ∀ x ∈ w.live, x.id = i → (w.ua x.ua).caller = true →
      ∀ j ∈ (w.ua x.ua).sess, Reaches w j x.ua
  | .close i _ => ∀ x ∈ w.live, x.id = i → Reaches w i x.ua ∧
      ∀ j ∈ (w.ua x.ua).sess, Reaches w j x.ua

instance decidableLiveId (w : World name) (i : SessId) : Decidable (LiveId w i) :=
  inferInstanceAs (Decidable (∃ x ∈ w.live, x.id = i))

instance decidableAwaited (w : World name) (u : UAId) : Decidable (Awaited w u) :=
  inferInstanceAs (Decidable (∃ i ∈ w.reservedFor u, LiveId w i))

instance decidableReaches (w : World name) (i : SessId) (u : UAId) : Decidable (Reaches w i u) :=
  inferInstanceAs (Decidable (∀ r ∈ w.calls, r.sess = some i → w.reservedFor r.callee = some i →
    r.callee = u ∨ w.mgr.Free r.callee ∨ (w.ua r.callee).sess ≠ none))

instance decidableNothingLost (w : World name) : (e : Event) → Decidable (NothingLost w e)
  | .register _ _ => isTrue trivial
  | .tick n c => inferInstanceAs (Decidable (CallsAlong (schedulerPool name c)
      (fun ii _ _ _ => c.connected ii = true) (callsToMake w.sched n).toNat 0 w))
  | .call _ _ => isFalse id
  | .invite user accepted _ => inferInstanceAs (Decidable (accepted = true ∨
      ∀ u ∈ (w.mgr.getUaByName user).1, (w.ua u).sess ≠ none ∨ Awaited w u))
  | .establish i => inferInstanceAs (Decidable (∀ x ∈ w.live, x.id = i →
      (w.ua x.ua).caller = true → ∀ j ∈ (w.ua x.ua).sess, Reaches w j x.ua))
  | .close i _ => inferInstanceAs (Decidable (∀ x ∈ w.live, x.id = i → Reaches w i x.ua ∧
      ∀ j ∈ (w.ua x.ua).sess, Reaches w j x.ua))

/-- Every user agent is accounted for, and the records of the scheduler's
    calls are in order. -/
structure Accounted (w : World name) : Prop where
  kept : ∀ u, w.mgr.Known u → Kept w u
  freeKnown : ∀ u, w.mgr.Free u → w.mgr.Known u
  liveKnown : ∀ x ∈ w.live, w.mgr.Known x.ua
  callsKnown : ∀ r ∈ w.calls, w.mgr.Known r.caller ∧ w.mgr.Known r.callee
  connected : ∀ r ∈ w.calls, ∃ i, r.sess = some i ∧ i < w.nextSess
  reserved : ∀ u i, w.reservedFor u = some i → ∃ r ∈ w.calls, r.callee = u ∧ r.sess = some i
  latest : ∀ r ∈ w.calls, ∀ i, r.sess = some i → ∀ u, u = r.caller ∨ u = r.callee →
    ∀ j, w.reservedFor u = some j → i ≤ j

/-- Where the scheduler makes no call, its records stay in order, and the user
    agents have to be accounted for. -/
theorem accounted_of_kept (w w' : World name) (h : Accounted w)
    (hkept : ∀ u, w'.mgr.Known u → Kept w' u) (hknown : ∀ u, w.mgr.Known u → w'.mgr.Known u)
    (hfree : ∀ u, w'.mgr.Free u → w'.mgr.Known u) (hlive : ∀ x ∈ w'.live, w'.mgr.Known x.ua)
    (hnext : w.nextSess ≤ w'.nextSess) (hres : w'.reservedFor = w.reservedFor)
    (hcalls : w'.calls = w.calls) : Accounted w' := by
  refine ⟨hkept, hfree, hlive, ?_, ?_, ?_, ?_⟩
  · intro r hr
    rw [hcalls] at hr
    exact ⟨hknown _ (h.callsKnown r hr).1, hknown _ (h.callsKnown r hr).2⟩
  · intro r hr
    rw [hcalls] at hr
    rcases h.connected r hr with ⟨i, hi, hlt⟩
    exact ⟨i, hi, lt_of_lt_of_le hlt hnext⟩
  · rw [hcalls, hres]
    exact h.reserved
  · rw [hcalls, hres]
    exact h.latest

/-- The manager may change as long as the same user agents are in it. -/
theorem accounted_of_mgr (w : World name) (m : UAManager name) (h : Accounted w)
    (hfree : ∀ v, m.Free v ↔ w.mgr.Free v) (hknown : ∀ v, m.Known v ↔ w.mgr.Known v) :
    Accounted { w with mgr := m } := by
  refine accounted_of_kept w _ h (fun u hu => ?_) (fun u => (hknown u).mpr) (fun u hu => ?_)
    (fun x hx => (hknown x.ua).mpr (h.liveKnown x hx)) (le_refl _) rfl rfl
  · rcases h.kept u ((hknown u).mp hu) with hf | hs | ha
    · exact Or.inl ((hfree u).mpr hf)
    · exact Or.inr (Or.inl hs)
    · exact Or.inr (Or.inr ha)
  · exact (hknown u).mpr (h.freeKnown u ((hfree u).mp hu))

/-- The counters have no part in it. -/
theorem accounted_counters (w : World name) (st : Stats) (s : CallScheduler) (h : Accounted w) :
    Accounted { w with stats := st, sched := s } :=
  ⟨h.kept, h.freeKnown, h.liveKnown, h.callsKnown, h.connected, h.reserved, h.latest⟩

theorem register_accounted (hname : Function.Injective name) (w : World name) (u : UAId)
    (scode : Option Nat) (h : Accounted w) : Accounted (registerHandler w u scode) := by
  unfold registerHandler
  by_cases hs : scode = some 200
  · rw [if_pos hs]
    have hmem := mem_markUaRegistered hname w.mgr u
    refine accounted_of_kept w _ h (fun v hv => ?_) (fun v hv => (hmem v).2.mpr (Or.inr hv))
      (fun v hv => ?_) (fun x hx => (hmem x.ua).2.mpr (Or.inr (h.liveKnown x hx))) (le_refl _)
      rfl rfl
    · rcases (hmem v).2.mp hv with hvu | hv
      · exact Or.inl ((hmem v).1.mpr (Or.inl hvu))
      · rcases h.kept v hv with hf | hs | ha
        · exact Or.inl ((hmem v).1.mpr (Or.inr hf))
        · exact Or.inr (Or.inl hs)
        · exact Or.inr (Or.inr ha)
    · rcases (hmem v).1.mp hv with hvu | hf
      · exact (hmem v).2.mpr (Or.inl hvu)
      · exact (hmem v).2.mpr (Or.inr (h.freeKnown v hf))
  · rw [if_neg hs]
    exact accounted_counters w _ w.sched h

theorem takeSession_liveId (w : World name) (u : UAId) (outgoing ok : Bool) (i : SessId)
    (h : LiveId w i) : LiveId (takeSession w u outgoing ok) i := by
  rcases h with ⟨x, hx, hid⟩
  refine ⟨x, ?_, hid⟩
  rw [takeSession_live]
  cases ok with
  | true => exact List.mem_cons_of_mem _ hx
  | false => exact hx

theorem invite_accounted (hname : Function.Injective name) (w : World name) (u : UAId)
    (accepted : Bool) (h : Accounted w) (hu : w.mgr.Known u)
    (hok : accepted = true ∨ (w.ua u).sess ≠ none ∨ Awaited w u) :
    Accounted (takeSession w u false accepted) := by
  rcases takeSession_rest w u false accepted with ⟨hmgr, _, hres, hcalls, hnext⟩
  have hknown : ∀ v, (takeSession w u false accepted).mgr.Known v ↔ w.mgr.Known v := fun v => by
    rw [hmgr]
    exact Iff.rfl
  have hawait : ∀ v, Awaited w v → Awaited (takeSession w u false accepted) v := by
    intro v hv
    rcases hv with ⟨i, hi, hl⟩
    exact ⟨i, by rw [hres]; exact hi, takeSession_liveId w u false accepted i hl⟩
  refine accounted_of_kept w _ h (fun v hv => ?_) (fun v => (hknown v).mpr) (fun v hv => ?_)
    (fun x hx => ?_) ?_ hres hcalls
  · by_cases hvu : v = u
    · -- The user agent itself has left the pool, and something else keeps it.
      rw [hvu]
      refine Or.inr ?_
      rcases hok with hacc | hs | ha
      · refine Or.inl ?_
        rw [takeSession_self, hacc, if_pos rfl]
        simp only [ne_eq, reduceCtorEq, not_false_eq_true]
      · refine Or.inl ?_
        rw [takeSession_self]
        split
        · simp only [ne_eq, reduceCtorEq, not_false_eq_true]
        · exact hs
      · exact Or.inr (hawait u ha)
    · rcases h.kept v ((hknown v).mp hv) with hf | hs | ha
      · refine Or.inl ?_
        rw [hmgr, mem_markUaInCall hname]
        exact ⟨hf, hvu⟩
      · refine Or.inr (Or.inl ?_)
        rw [takeSession_other w u v false accepted hvu]
        exact hs
      · exact Or.inr (Or.inr (hawait v ha))
  · rw [hmgr, mem_markUaInCall hname] at hv
    exact (hknown v).mpr (h.freeKnown v hv.1)
  · rw [takeSession_live] at hx
    refine (hknown x.ua).mpr ?_
    split at hx
    · rcases List.mem_cons.mp hx with hnew | hold
      · rw [hnew]
        exact hu
      · exact h.liveKnown x hold
    · exact h.liveKnown x hx
  · rw [hnext]
    split
    · exact Nat.le_succ _
    · exact le_refl _

/-- Which reservations there are after a call: that of the callee, and the old
    ones of all but the two. -/
theorem schedCall_reservedFor (w : World name) (a b v : UAId) (i : SessId)
    (h : (schedCall (taken w a b) a b true).reservedFor v = some i) :
    (v = b ∧ i = w.nextSess) ∨ (v ≠ a ∧ v ≠ b ∧ w.reservedFor v = some i) := by
  change Function.update (Function.update w.reservedFor a none) b (some w.nextSess) v = some i at h
  by_cases hvb : v = b
  · rw [hvb, Function.update_self, Option.some.injEq] at h
    exact Or.inl ⟨hvb, h.symm⟩
  · rw [Function.update_of_ne hvb] at h
    by_cases hva : v = a
    · rw [hva, Function.update_self] at h
      exact absurd h (by simp only [reduceCtorEq, not_false_eq_true])
    · rw [Function.update_of_ne hva] at h
      exact Or.inr ⟨hva, hvb, h⟩

/-- The caller has the new session, the callee is waited for by it, and the
    other user agents are kept by whatever kept them. -/
theorem schedCall_kept (hname : Function.Injective name) (w : World name) (a b v : UAId)
    (h : Kept w v) : Kept (schedCall (taken w a b) a b true) v := by
  by_cases hva : v = a
  · refine Or.inr (Or.inl ?_)
    rw [hva, schedCall_self, if_pos rfl]
    simp only [ne_eq, reduceCtorEq, not_false_eq_true]
  · by_cases hvb : v = b
    · refine Or.inr (Or.inr ⟨w.nextSess, ?_, ⟨w.nextSess, a, true, false⟩, ?_, rfl⟩)
      · change Function.update (Function.update w.reservedFor a none) b (some w.nextSess) v =
          some w.nextSess
        rw [hvb, Function.update_self]
      · rw [schedCall_live, if_pos rfl]
        exact List.mem_cons_self
    · rcases h with hf | hs | ⟨i, hi, x, hx, hid⟩
      · exact Or.inl ((schedCall_free hname w a b true v).mpr ⟨hf, hva, hvb⟩)
      · refine Or.inr (Or.inl ?_)
        rw [schedCall_other w a b true v hva]
        exact hs
      · refine Or.inr (Or.inr ⟨i, ?_, x, ?_, hid⟩)
        · change Function.update (Function.update w.reservedFor a none) b _ v = some i
          rw [Function.update_of_ne hvb, Function.update_of_ne hva]
          exact hi
        · rw [schedCall_live, if_pos rfl]
          exact List.mem_cons_of_mem _ hx

/-- A call between two user agents that were free. -/
theorem schedCall_accounted (hname : Function.Injective name) (w : World name) (a b : UAId)
    (h : Accounted w) (ha : w.mgr.Free a) (hb : w.mgr.Free b) :
    Accounted (schedCall (taken w a b) a b true) := by
  have hknown := schedCall_known w a b true
  -- The records are the old ones and that of the new call, whose session has
  -- the largest number so far.
  have hcalls : ∀ r ∈ (schedCall (taken w a b) a b true).calls,
      r = ⟨a, b, some w.nextSess⟩ ∨ r ∈ w.calls := fun r hr => List.mem_cons.mp hr
  refine ⟨fun v hv => schedCall_kept hname w a b v (h.kept v ((hknown v).mp hv)), fun v hv => ?_,
    fun x hx => ?_, fun r hr => ?_, fun r hr => ?_, fun v i hi => ?_, fun r hr i hi v hv j hj => ?_⟩
  · exact (hknown v).mpr (h.freeKnown v ((schedCall_free hname w a b true v).mp hv).1)
  · rw [schedCall_live, if_pos rfl] at hx
    refine (hknown x.ua).mpr ?_
    rcases List.mem_cons.mp hx with hnew | hold
    · rw [hnew]
      exact h.freeKnown a ha
    · exact h.liveKnown x hold
  · rcases hcalls r hr with hnew | hold
    · rw [hnew]
      exact ⟨(hknown a).mpr (h.freeKnown a ha), (hknown b).mpr (h.freeKnown b hb)⟩
    · exact ⟨(hknown _).mpr (h.callsKnown r hold).1, (hknown _).mpr (h.callsKnown r hold).2⟩
  · rcases hcalls r hr with hnew | hold
    · rw [hnew]
      exact ⟨w.nextSess, rfl, Nat.lt_succ_self _⟩
    · rcases h.connected r hold with ⟨i, hi, hlt⟩
      exact ⟨i, hi, Nat.lt_succ_of_lt hlt⟩
  · rcases schedCall_reservedFor w a b v i hi with ⟨hvb, hin⟩ | ⟨_, _, hold⟩
    · refine ⟨⟨a, b, some w.nextSess⟩, List.mem_cons_self, hvb.symm, ?_⟩
      rw [hin]
    · rcases h.reserved v i hold with ⟨r, hr, hcallee, hsess⟩
      exact ⟨r, List.mem_cons_of_mem _ hr, hcallee, hsess⟩
  · rcases hcalls r hr with hnew | hold
    · -- The two user agents have no reservation but the new one.
      rw [hnew] at hi hv
      simp only [Option.some.injEq] at hi
      rcases schedCall_reservedFor w a b v j hj with ⟨_, hjn⟩ | ⟨hva, hvb, _⟩
      · rw [hjn, ← hi]
      · rcases hv with hc | hc
        · exact absurd hc hva
        · exact absurd hc hvb
    · rcases schedCall_reservedFor w a b v j hj with ⟨_, hjn⟩ | ⟨_, _, hjold⟩
      · rcases h.connected r hold with ⟨i', hi', hlt⟩
        rw [hi, Option.some.injEq] at hi'
        rw [hjn, hi']
        exact le_of_lt hlt
      · exact h.latest r hold i hi v hv j hjold

/-- A user agent returns to the pool. The sessions that end with that are the
    ones in `w` that are not live any more. -/
theorem return_accounted (hname : Function.Injective name) (w w1 : World name) (u : UAId)
    (h : Accounted w) (hu : w.mgr.Known u) (hmgr : w1.mgr = w.mgr) (hua : w1.ua = w.ua)
    (hres : w1.reservedFor = w.reservedFor) (hcalls : w1.calls = w.calls)
    (hnext : w1.nextSess = w.nextSess)
    (hlive : ∀ x ∈ w1.live, ∃ y ∈ w.live, y.id = x.id ∧ y.ua = x.ua)
    (hended : ∀ i, LiveId w i → ¬ LiveId (returnSession w1 u) i → Reaches w i u) :
    Accounted (returnSession w1 u) := by
  rcases returnSession_rest w1 u with ⟨hmgr', _, hres', hcalls', hnext'⟩
  rw [hmgr] at hmgr'
  have hknown : ∀ v, (returnSession w1 u).mgr.Known v ↔ w.mgr.Known v := fun v => by
    rw [hmgr']
    exact Iff.rfl
  refine accounted_of_kept w _ h (fun v hv => ?_) (fun v => (hknown v).mpr) (fun v hv => ?_)
    (fun x hx => ?_) (by rw [hnext', hnext]) (hres'.trans hres) (hcalls'.trans hcalls)
  · have hback : v = u ∨ w.mgr.Free v → Kept (returnSession w1 u) v := fun hf => by
      refine Or.inl ?_
      rw [hmgr', mem_markUaNotInCall hname]
      exact hf
    have hstill : v ≠ u → (w.ua v).sess ≠ none → Kept (returnSession w1 u) v := fun hvu hs => by
      refine Or.inr (Or.inl ?_)
      rw [returnSession_other w1 u v hvu, hua]
      exact hs
    by_cases hvu : v = u
    · exact hback (Or.inl hvu)
    · rcases h.kept v ((hknown v).mp hv) with hf | hs | ⟨i, hi, hl⟩
      · exact hback (Or.inr hf)
      · exact hstill hvu hs
      · by_cases hl' : LiveId (returnSession w1 u) i
        · exact Or.inr (Or.inr ⟨i, by rw [hres', hres]; exact hi, hl'⟩)
        · -- The session that waited for it has ended, so it had been reached.
          rcases h.reserved v i hi with ⟨r, hr, hcallee, hsess⟩
          have hreach := hended i hl hl' r hr hsess (by rw [hcallee]; exact hi)
          rw [hcallee] at hreach
          rcases hreach with hc | hf | hs
          · exact absurd hc hvu
          · exact hback (Or.inr hf)
          · exact hstill hvu hs
  · rw [hmgr', mem_markUaNotInCall hname] at hv
    refine (hknown v).mpr ?_
    rcases hv with hvu | hf
    · rw [hvu]
      exact hu
    · exact h.freeKnown v hf
  · rw [returnSession_live, List.mem_filter] at hx
    rcases hlive x hx.1 with ⟨y, hy, _, hyua⟩
    rw [← hyua]
    exact (hknown y.ua).mpr (h.liveKnown y hy)

/-- Every event accounts for every user agent. -/
theorem step_accounted (hname : Function.Injective name) (w : World name) (e : Event)
    (w' : World name) (h : Accounted w) (hok : NothingLost w e) (hstep : step w e = some w') :
    Accounted w' := by
  cases e with
  | register u scode =>
      simp only [step, Option.some.injEq] at hstep
      rw [← hstep]
      exact register_accounted hname w u scode h
  | tick n c =>
      rcases step_tick w w' n c hstep with ⟨s, hw'⟩
      rw [hw']
      refine tick_invariant hname c (fun ii _ _ _ => c.connected ii = true) Accounted
        (fun w s h => accounted_counters w w.stats s h) accounted_of_mgr
        (fun w ii a b h ha hb _ hc => ?_) w _ h hok s
      rw [hc]
      exact schedCall_accounted hname w a b h ha hb
  | call u connected => exact absurd hok id
  | invite user accepted answered =>
      rcases step_invite w w' user accepted answered hstep with ⟨u, huser, hu, hw'⟩
      rw [hw']
      refine invite_accounted hname w u accepted h hu ?_
      rcases hok with hacc | hother
      · exact Or.inl hacc
      · exact Or.inr (hother u (getUaByName_of_known w.mgr user u huser hu))
  | establish i =>
      rcases step_establish w w' i hstep with ⟨x, hx, hid, hw'⟩
      rw [hw']
      have hmem := setEstablished_mem w i
      by_cases hc : (w.ua x.ua).caller
      · rw [if_pos hc]
        refine accounted_counters _ _ _ (return_accounted hname w (setEstablished w i) x.ua h
          (h.liveKnown x hx) rfl rfl rfl rfl rfl (fun y hy => ?_) (fun j hl hl' => ?_))
        · rcases hmem y hy with ⟨z, hz, hzid, hzua, _⟩
          exact ⟨z, hz, hzid, hzua⟩
        · rw [returnSession_liveId, setEstablished_liveId] at hl'
          exact hok x hx hid hc j (by_contra fun hne => hl' ⟨hl, hne⟩)
      · rw [if_neg hc]
        refine accounted_of_kept w _ h (fun v hv => ?_) (fun _ hv => hv) h.freeKnown
          (fun y hy => ?_) (le_refl _) rfl rfl
        · rcases h.kept v hv with hf | hs | ⟨j, hj, hl⟩
          · exact Or.inl hf
          · exact Or.inr (Or.inl hs)
          · exact Or.inr (Or.inr ⟨j, hj, (setEstablished_liveId w i j).mpr hl⟩)
        · rcases hmem y hy with ⟨z, hz, _, hzua, _⟩
          rw [← hzua]
          exact h.liveKnown z hz
  | close i err =>
      rcases step_close w w' i err hstep with ⟨x, hx, hid, hw'⟩
      rw [hw']
      rcases hok x hx hid with ⟨hown, hsess⟩
      -- Up to two sessions end: the one that was reported, and the one the
      -- user agent has its pointer on.
      refine accounted_counters _ _ _ (return_accounted hname w (endSession w i) x.ua h
        (h.liveKnown x hx) rfl rfl rfl rfl rfl
        (fun y hy => ⟨y, (List.mem_filter.mp hy).1, rfl, rfl⟩) (fun j hl hl' => ?_))
      rw [returnSession_liveId, endSession_liveId] at hl'
      by_cases hji : j = i
      · rw [hji]
        exact hown
      · exact hsess j (by_contra fun hne => hl' ⟨⟨hl, hji⟩, hne⟩)

theorem start_accounted (caller : UAId → Bool) (maxCalls : Nat) :
    Accounted (start name caller maxCalls) := by
  refine ⟨fun u hu => ?_, fun u hu => absurd hu (NamedPool.not_holds_empty u),
    fun x hx => absurd hx List.not_mem_nil, fun r hr => absurd hr List.not_mem_nil,
    fun r hr => absurd hr List.not_mem_nil, fun u i hi => ?_, fun r hr => absurd hr List.not_mem_nil⟩
  · simp only [start, Known, UAManager.init, AList.lookup_empty, reduceCtorEq] at hu
  · exact absurd hi (by simp only [start, reduceCtorEq, not_false_eq_true])

/-- In any run in which nothing fails that would lose a user agent, every
    registered user agent is free, has a session, or is waited for. So when
    a call of the scheduler is over and neither of its user agents has a
    session, each of them is free or waited for in a later call. -/
theorem agents_stay_in_pool (pid : Nat) (caller : UAId → Bool) (maxCalls : Nat) (es : List Event)
    (w : World (uaName pid))
    (hok : Along step NothingLost (start (uaName pid) caller maxCalls) es)
    (hrun : exec step (start (uaName pid) caller maxCalls) es = some w) :
    (∀ u, w.mgr.Known u → w.mgr.Free u ∨ (w.ua u).sess ≠ none ∨
      ∃ i, w.reservedFor u = some i ∧ LiveId w i) ∧
      ∀ r ∈ w.calls, ∃ i, r.sess = some i ∧
        (¬ LiveId w i → (w.ua r.caller).sess = none → (w.ua r.callee).sess = none →
          ∀ u, u = r.caller ∨ u = r.callee → w.mgr.Free u ∨
            ∃ j, i < j ∧ w.reservedFor u = some j ∧ LiveId w j) := by
  have h : Accounted w := exec_invariant_along step NothingLost Accounted
    (fun w e w' => step_accounted (uaName_injective pid) w e w') es _ w
    (start_accounted caller maxCalls) hok hrun
  refine ⟨h.kept, fun r hr => ?_⟩
  rcases h.connected r hr with ⟨i, hi, _⟩
  refine ⟨i, hi, fun hended hcaller hcallee u hu => ?_⟩
  have hknown : w.mgr.Known u := by
    rcases hu with hu | hu
    · rw [hu]
      exact (h.callsKnown r hr).1
    · rw [hu]
      exact (h.callsKnown r hr).2
  have hnone : (w.ua u).sess = none := by
    rcases hu with hu | hu
    · rw [hu]
      exact hcaller
    · rw [hu]
      exact hcallee
  rcases h.kept u hknown with hf | hs | ⟨j, hj, hl⟩
  · exact Or.inl hf
  · exact absurd hnone hs
  · -- A reservation that is still live is not that of the call that is over.
    have hle := h.latest r hr i hi u hu j hj
    have hne : i ≠ j := fun hc => hended (hc ▸ hl)
    exact Or.inr ⟨j, lt_of_le_of_ne hle hne, hj, hl⟩

/-- A call is set up and hung up on both sides, and both user agents are free
    again. -/
theorem agents_stay_in_pool_run :
    ∃ w, exec step (start (uaName 7) (fun _ => false) 10)
        [.register 0 (some 200), .register 1 (some 200), .tick 1 plainChoice,
          .invite "7-ue0" true true, .establish 0, .close 1 econnreset] = some w ∧
      (w.mgr.Known 0 ∧ (w.ua 0).sess = none ∧ w.live = []) ∧ w.mgr.Free 0 := by
  have hrun : (exec step (start (uaName 7) (fun _ => false) 10)
        [.register 0 (some 200), .register 1 (some 200), .tick 1 plainChoice,
          .invite "7-ue0" true true, .establish 0, .close 1 econnreset]).any
        (fun w => decide (w.mgr.Known 0 ∧ (w.ua 0).sess = none ∧ w.live = [])) = true := by
    decide +kernel
  rcases (Option.any_eq_true _ _).mp hrun with ⟨w, hw, hs⟩
  have hvals := of_decide_eq_true hs
  refine ⟨w, hw, hvals, ?_⟩
  rcases (agents_stay_in_pool 7 (fun _ => false) 10 _ w (by decide +kernel) hw).1 0 hvals.1 with
    hf | hc | ⟨i, _, x, hx, _⟩
  · exact hf
  · exact absurd hvals.2.1 hc
  · rw [hvals.2.2] at hx
    exact absurd hx List.not_mem_nil

/-- The library cannot connect: both user agents are lost. -/
theorem failed_connect_loses_agents :
    ¬ ∀ (es : List Event) (w : World (uaName 7)),
      exec step (start (uaName 7) (fun _ => false) 10) es = some w →
        ∀ u, w.mgr.Known u → w.mgr.Free u ∨ (w.ua u).sess ≠ none ∨
          ∃ i, w.reservedFor u = some i ∧ LiveId w i := by
  intro hall
  have hrun : (exec step (start (uaName 7) (fun _ => false) 10)
        [.register 0 (some 200), .register 1 (some 200),
          .tick 1 { plainChoice with connected := fun _ => false }]).any
        (fun w => decide (w.mgr.Known 1 ∧ ¬ w.mgr.Free 1 ∧ (w.ua 1).sess = none ∧
          w.live = [])) = true := by
    decide +kernel
  rcases (Option.any_eq_true _ _).mp hrun with ⟨w, hw, hs⟩
  rcases of_decide_eq_true hs with ⟨hknown, hfree, hsess, hlive⟩
  rcases hall _ w hw 1 hknown with hf | hc | ⟨i, _, x, hx, _⟩
  · exact hfree hf
  · exact absurd hsess hc
  · rw [hlive] at hx
    exact absurd hx List.not_mem_nil

end Agents

end SipPerf
