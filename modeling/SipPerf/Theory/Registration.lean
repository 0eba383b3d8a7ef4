import SipPerf.Theory.Scheduling

/-!
# Registration and the Pool

Whether the user agents offered for calls are registered. The program keeps
no record of that. A user agent is put in the pool when a REGISTER succeeds,
and nothing takes it out when a later one fails: `mark_ua_unregistered` is
declared and never defined. It is also put back in the pool at the end of
each call, whatever has become of its registration in the meantime.

`Registrations` is the program together with the latest REGISTER outcome of
every user agent. What the pool may hand out is then a question about one
state, and the steps that can make the answer wrong are the failures of user
agents in the pool and the ends of calls of user agents whose latest REGISTER
has failed.

## Main definitions

* `Registrations`, `registrationStep`: The program with the latest outcomes.
* `OffersRegistered`: Every user agent the pool may hand out is registered.
* `putBackBy`: The user agent that the end of a call puts back.
* `FreesRegistered`: A step leaves no unregistered user agent in the pool.

## Theorems

* `offersRegistered_iff`: What the pool may hand out is what it holds.
* `step_free`: What a step does to the pool.
* `offers_registered_iff`: Only registered user agents are offered for calls
  exactly when no step leaves another in the pool.
-/

namespace SipPerf

namespace Agents

open MachineInt UAManager Transition

variable {name : UAId → String}

/-- The program, and the latest REGISTER outcome of every user agent that has
    had one: the status code, if there was a response. -/
structure Registrations (name : UAId → String) where
  world : World name
  outcome : UAId → Option (Option Nat)

/-- The latest outcomes after an event. -/
def outcomeAfter (outcome : UAId → Option (Option Nat)) : Event → UAId → Option (Option Nat)
  | .register u scode => Function.update outcome u (some scode)
  | _ => outcome

def registrationStep (s : Registrations name) (ev : Event) : Option (Registrations name) :=
  match step s.world ev with
  | none => none
  | some w => some { world := w, outcome := outcomeAfter s.outcome ev }

def registrationStart (name : UAId → String) (caller : UAId → Bool) (maxCalls : Nat) :
    Registrations name :=
  { world := start name caller maxCalls, outcome := fun _ => none }

/-- The latest REGISTER of the user agent succeeded. -/
def Registered (s : Registrations name) (u : UAId) : Prop := s.outcome u = some (some 200)

instance decidableRegistered (s : Registrations name) (u : UAId) : Decidable (Registered s u) :=
  inferInstanceAs (Decidable (s.outcome u = some (some 200)))

/-- Whatever the pool hands out is registered. -/
def OffersRegistered (s : Registrations name) : Prop :=
  ∀ i u, (s.world.mgr.getUaFreeForCall i).1 = some u → Registered s u

/-- The user agent that the end of a call puts back in the pool. -/
def putBackBy (w : World name) : Event → Option UAId
  | .establish i => match findSession w i with
    | none => none
    | some x => if x.established = false ∧ (w.ua x.ua).caller = true then some x.ua else none
  | .close i _ => (findSession w i).map Session.ua
  | _ => none

/-- The user agent whose REGISTER fails. -/
def failedBy : Event → Option UAId
  | .register u scode => if scode = some 200 then none else some u
  | _ => none

/-- The user agent that is put back at the end of a call is registered, and a
    REGISTER does not fail for a user agent in the pool. -/
def FreesRegistered (s : Registrations name) (ev : Event) : Prop :=
  (∀ u ∈ putBackBy s.world ev, Registered s u) ∧ ∀ u ∈ failedBy ev, ¬ s.world.mgr.Free u

instance decidableFreesRegistered (s : Registrations name) (ev : Event) :
    Decidable (FreesRegistered s ev) :=
  inferInstanceAs (Decidable ((∀ u ∈ putBackBy s.world ev, Registered s u) ∧
    ∀ u ∈ failedBy ev, ¬ s.world.mgr.Free u))

/-- What is asked of a step: after it the pool offers only registered user
    agents, and if it is a tick, every user agent it draws is registered. -/
def OffersThroughout (s : Registrations name) (ev : Event) : Prop :=
  (∀ s', registrationStep s ev = some s' → OffersRegistered s') ∧
  ∀ e c, ev = .tick e c → DrawsAlong (schedulerPool name c) (fun u _ => Registered s u)
    (callsToMake s.world.sched e).toNat 0 s.world

/-! ## The pool -/

theorem offersRegistered_iff (s : Registrations name) :
    OffersRegistered s ↔ ∀ u, s.world.mgr.Free u → Registered s u := by
  have hget : ∀ i u, (s.world.mgr.getUaFreeForCall i).1 = some u ↔
      s.world.mgr.freeUes.draw i = some u := by
    intro i u
    unfold getUaFreeForCall
    cases hd : s.world.mgr.freeUes.draw i with
    | none => exact Iff.rfl
    | some v => exact Iff.rfl
  constructor
  · intro h u hu
    rcases NamedPool.draw_of_holds s.world.mgr.freeUes u hu with ⟨i, hi⟩
    exact h i u ((hget i u).mpr hi)
  · intro h i u hu
    exact h u (NamedPool.draw_eq_some _ i u ((hget i u).mp hu))

/-- What an event other than a REGISTER outcome does to the pool: nobody comes
    in but the user agent that is put back, and that one does. -/
theorem step_free (hname : Function.Injective name) (w w' : World name) (ev : Event)
    (hev : ∀ u scode, ev ≠ .register u scode) (h : step w ev = some w') :
    (∀ v, w'.mgr.Free v → v ∈ putBackBy w ev ∨ w.mgr.Free v) ∧
      ∀ v ∈ putBackBy w ev, w'.mgr.Free v := by
  -- Taking a session only takes out, and returning one puts back.
  have htake : ∀ u outgoing ok v, (takeSession w u outgoing ok).mgr.Free v → w.mgr.Free v := by
    intro u outgoing ok v hv
    rw [(takeSession_rest w u outgoing ok).1, mem_markUaInCall hname] at hv
    exact hv.1
  have hreturn : ∀ (x : World name) u v, x.mgr = w.mgr →
      ((returnSession x u).mgr.Free v ↔ v = u ∨ w.mgr.Free v) := by
    intro x u v hx
    rw [(returnSession_rest x u).1, mem_markUaNotInCall hname, hx]
  cases ev with
  | register u scode => exact absurd rfl (hev u scode)
  | tick e c =>
      simp only [step, Option.some.injEq] at h
      rcases tick_made hname w e c with ⟨cs, hmade, _, _⟩
      rw [← h]
      exact ⟨fun v hv => Or.inr ((hmade.rest v).mp hv).1,
        fun v hv => absurd hv (by simp only [putBackBy, Option.mem_def, reduceCtorEq,
          not_false_eq_true])⟩
  | call u connected =>
      simp only [step, Option.some.injEq] at h
      rw [← h, call_eq]
      exact ⟨fun v hv => Or.inr (htake u true connected v hv),
        fun v hv => absurd hv (by simp only [putBackBy, Option.mem_def, reduceCtorEq,
          not_false_eq_true])⟩
  | invite user accepted answered =>
      rcases step_invite w w' user accepted answered h with ⟨u, _, _, hw'⟩
      rw [hw']
      exact ⟨fun v hv => Or.inr (htake u false accepted v hv),
        fun v hv => absurd hv (by simp only [putBackBy, Option.mem_def, reduceCtorEq,
          not_false_eq_true])⟩
  | establish i =>
      simp only [step] at h
      simp only [putBackBy]
      cases hf : findSession w i with
      | none => simp only [hf, reduceCtorEq] at h
      | some x =>
          simp only [hf] at h
          split at h
          · exact absurd h (by simp only [reduceCtorEq, not_false_eq_true])
          · rename_i hest
            rw [Option.some.injEq, establishHandler_eq] at h
            have hcaller : ((setEstablished w i).ua x.ua).caller = (w.ua x.ua).caller := rfl
            rw [hcaller] at h
            rw [← h]
            by_cases hc : (w.ua x.ua).caller = true
            · simp only [hc, Bool.not_eq_true _ ▸ hest, and_self, if_true, Option.mem_def,
                Option.some.injEq]
              exact ⟨fun v hv => ((hreturn (setEstablished w i) x.ua v rfl).mp hv).imp Eq.symm id,
                fun v hv => (hreturn (setEstablished w i) x.ua v rfl).mpr (Or.inl hv.symm)⟩
            · simp only [hc, and_false, if_false, Option.mem_def, reduceCtorEq, false_or]
              exact ⟨fun v hv => hv, fun v hv => absurd hv not_false⟩
  | close i err =>
      simp only [step] at h
      simp only [putBackBy]
      cases hf : findSession w i with
      | none => simp only [hf, reduceCtorEq] at h
      | some x =>
          simp only [hf, Option.some.injEq] at h
          rw [closeHandler_eq] at h
          rw [← h]
          simp only [Option.map_some, Option.mem_def, Option.some.injEq]
          exact ⟨fun v hv => ((hreturn (endSession w i) x.ua v rfl).mp hv).imp Eq.symm id,
            fun v hv => (hreturn (endSession w i) x.ua v rfl).mpr (Or.inl hv.symm)⟩

/-- A REGISTER outcome. -/
theorem register_free (hname : Function.Injective name) (w : World name) (u : UAId)
    (scode : Option Nat) (v : UAId) :
    (registerHandler w u scode).mgr.Free v ↔ (scode = some 200 ∧ v = u) ∨ w.mgr.Free v := by
  unfold registerHandler
  by_cases hs : scode = some 200
  · rw [if_pos hs]
    simp only [hs, true_and]
    exact (mem_markUaRegistered hname w.mgr u v).1
  · rw [if_neg hs]
    simp only [hs, false_and, false_or]

/-- A tick draws from the user agents that were free when it began. -/
theorem free_draws (hname : Function.Injective name) (c : Choice) (ok : UAId → Prop)
    (w : World name) (h : ∀ u, w.mgr.Free u → ok u) (n : Nat) :
    DrawsAlong (schedulerPool name c) (fun u _ => ok u) n 0 w := by
  refine drawsAlong_of_free c _ (fun p => ∀ u, p.mgr.Free u → ok u)
    (fun p a hp ha => ⟨fun v hv => hp v ((mem_markUaInCall hname p.mgr a v).mp hv).1, hp a ha⟩)
    (fun p a b connected hp v hv => ?_) w h n
  -- The caller is taken out once more, and nobody is put in.
  unfold schedCall at hv
  rw [call_eq] at hv
  change (takeSession p a true connected).mgr.Free v at hv
  rw [(takeSession_rest p a true _).1, mem_markUaInCall hname] at hv
  exact hp v hv.1

/-! ## Steps -/

theorem registrationStep_some (s s' : Registrations name) (ev : Event)
    (h : registrationStep s ev = some s') :
    step s.world ev = some s'.world ∧ s'.outcome = outcomeAfter s.outcome ev := by
  unfold registrationStep at h
  cases hw : step s.world ev with
  | none => simp only [hw, reduceCtorEq] at h
  | some w =>
      simp only [hw, Option.some.injEq] at h
      rw [← h]
      exact ⟨rfl, rfl⟩

/-- A step that leaves no unregistered user agent in the pool. -/
theorem registrationStep_offers (hname : Function.Injective name) (s s' : Registrations name)
    (ev : Event) (hs : ∀ u, s.world.mgr.Free u → Registered s u) (hok : FreesRegistered s ev)
    (h : registrationStep s ev = some s') : ∀ u, s'.world.mgr.Free u → Registered s' u := by
  rcases registrationStep_some s s' ev h with ⟨hw, hout⟩
  intro v hv
  unfold Registered
  rw [hout]
  cases ev with
  | register u scode =>
      simp only [step, Option.some.injEq] at hw
      rw [← hw, register_free hname] at hv
      simp only [outcomeAfter]
      by_cases hvu : v = u
      · rw [hvu, Function.update_self]
        rcases hv with hv | hv
        · rw [hv.1]
        · -- It was in the pool already, so this REGISTER has not failed.
          by_cases hsc : scode = some 200
          · rw [hsc]
          · rw [hvu] at hv
            exact absurd hv (hok.2 u (by simp only [failedBy, if_neg hsc, Option.mem_def]))
      · rw [Function.update_of_ne hvu]
        rcases hv with hv | hv
        · exact absurd hv.2 hvu
        · exact hs v hv
  -- No other event changes an outcome.
  | _ =>
      rcases (step_free hname s.world s'.world _ (fun u scode => by simp only [ne_eq, reduceCtorEq,
        not_false_eq_true]) hw).1 v hv with hback | hfree
      · exact hok.1 v hback
      · exact hs v hfree

/-- A step after which the pool offers only registered user agents has left no
    other there. -/
theorem frees_of_offers (hname : Function.Injective name) (s s' : Registrations name) (ev : Event)
    (h : registrationStep s ev = some s') (hs' : ∀ u, s'.world.mgr.Free u → Registered s' u) :
    FreesRegistered s ev := by
  rcases registrationStep_some s s' ev h with ⟨hw, hout⟩
  unfold Registered at hs'
  rw [hout] at hs'
  cases ev with
  | register u scode =>
      refine ⟨fun v hv => absurd hv (by simp only [putBackBy, Option.mem_def, reduceCtorEq,
        not_false_eq_true]), fun v hv hfree => ?_⟩
      simp only [failedBy, Option.mem_def] at hv
      split at hv
      · exact absurd hv (by simp only [reduceCtorEq, not_false_eq_true])
      · rename_i hsc
        simp only [step, Option.some.injEq] at hw
        have hlast := hs' v (by rw [← hw, register_free hname]; exact Or.inr hfree)
        rw [Option.some.injEq] at hv
        simp only [outcomeAfter, hv, Function.update_self, Option.some.injEq] at hlast
        exact hsc hlast
  | _ =>
      refine ⟨fun v hv => hs' v ?_, fun v hv => absurd hv (by simp only [failedBy, Option.mem_def,
        reduceCtorEq, not_false_eq_true])⟩
      exact (step_free hname s.world s'.world _ (fun u scode => by simp only [ne_eq, reduceCtorEq,
        not_false_eq_true]) hw).2 v hv

/-- An event that cannot happen puts nobody back. -/
theorem frees_of_stuck (s : Registrations name) (ev : Event)
    (h : registrationStep s ev = none) : FreesRegistered s ev := by
  have hstep : step s.world ev = none := by
    unfold registrationStep at h
    cases hw : step s.world ev with
    | none => rfl
    | some w => simp only [hw, reduceCtorEq] at h
  cases ev with
  | register u scode => exact absurd hstep (by simp only [step, reduceCtorEq, not_false_eq_true])
  | establish i =>
      refine ⟨fun v hv => ?_, fun v hv => absurd hv (by simp only [failedBy, Option.mem_def,
        reduceCtorEq, not_false_eq_true])⟩
      simp only [putBackBy] at hv
      simp only [step] at hstep
      cases hf : findSession s.world i with
      | none => simp only [hf, Option.mem_def, reduceCtorEq] at hv
      | some x =>
          -- A session is reported established once only.
          cases hest : x.established with
          | false => simp only [hf, hest, Bool.false_eq_true, if_false, reduceCtorEq] at hstep
          | true =>
              simp only [hf, hest, Bool.true_eq_false, false_and, if_false, Option.mem_def,
                reduceCtorEq] at hv
  | close i err =>
      refine ⟨fun v hv => ?_, fun v hv => absurd hv (by simp only [failedBy, Option.mem_def,
        reduceCtorEq, not_false_eq_true])⟩
      simp only [putBackBy] at hv
      simp only [step] at hstep
      cases hf : findSession s.world i with
      | none => simp only [hf, Option.map_none, Option.mem_def, reduceCtorEq] at hv
      | some x => simp only [hf, reduceCtorEq] at hstep
  | _ =>
      exact ⟨fun v hv => absurd hv (by simp only [putBackBy, Option.mem_def, reduceCtorEq,
        not_false_eq_true]), fun v hv => absurd hv (by simp only [failedBy, Option.mem_def,
        reduceCtorEq, not_false_eq_true])⟩

theorem offersThroughout_iff (hname : Function.Injective name) (s : Registrations name)
    (ev : Event) (hs : ∀ u, s.world.mgr.Free u → Registered s u) :
    OffersThroughout s ev ↔ FreesRegistered s ev := by
  constructor
  · intro h
    cases hstep : registrationStep s ev with
    | none => exact frees_of_stuck s ev hstep
    | some s' =>
        exact frees_of_offers hname s s' ev hstep ((offersRegistered_iff s').mp (h.1 s' hstep))
  · intro h
    refine ⟨fun s' hs' => ?_, fun e c _ => free_draws hname c (Registered s) s.world hs _⟩
    exact (offersRegistered_iff s').mpr (registrationStep_offers hname s s' ev hs h hs')

/-- In a run of the program, over any user agents and in any order of events,
    every user agent that is offered for a call has had its latest REGISTER
    answered with 200, exactly when no REGISTER fails for a user agent in the
    pool and no call ends of one whose latest REGISTER has failed. -/
theorem offers_registered_iff (pid : Nat) (caller : UAId → Bool) (maxCalls : Nat)
    (es : List Event) :
    Along registrationStep OffersThroughout (registrationStart (uaName pid) caller maxCalls) es ↔
      Along registrationStep FreesRegistered (registrationStart (uaName pid) caller maxCalls) es := by
  have hname := uaName_injective pid
  exact along_iff registrationStep OffersThroughout FreesRegistered
    (fun s => ∀ u, s.world.mgr.Free u → Registered s u) (offersThroughout_iff hname)
    (fun s ev s' hs hok h => registrationStep_offers hname s s' ev hs hok h) es _
    (fun u hu => absurd hu (NamedPool.not_holds_empty u))

/-- A user agent whose registration is refreshed without success is still
    offered. -/
theorem failed_refresh_is_offered :
    ¬ ∀ es : List Event, Along registrationStep OffersThroughout
      (registrationStart (uaName 7) (fun _ => false) 10) es := by
  intro hall
  have hrun : (exec registrationStep (registrationStart (uaName 7) (fun _ => false) 10)
        [.register 0 (some 200), .register 0 (some 403)]).any
        (fun s => decide ((s.world.mgr.getUaFreeForCall 0).1 = some 0 ∧ ¬ Registered s 0)) =
        true := by
    decide +kernel
  rcases (Option.any_eq_true _ _).mp hrun with ⟨s, hs, hboth⟩
  have hoffered := of_decide_eq_true hboth
  rcases exec_cons registrationStep _ s _ _ hs with ⟨s1, h1, hrest⟩
  rcases exec_cons registrationStep s1 s _ _ hrest with ⟨s2, h2, hlast⟩
  simp only [exec, Option.some.injEq] at hlast
  rw [hlast] at h2
  -- The pool after the second outcome offers the user agent.
  have hsound := ((hall [.register 0 (some 200), .register 0 (some 403)]).2 s1 h1).1.1 s h2
  exact hoffered.2 (hsound 0 0 hoffered.1)

end Agents

end SipPerf
