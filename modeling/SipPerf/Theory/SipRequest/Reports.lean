import SipPerf.Theory.SipRequest.Steps

/-!
# What is Reported

A request reports its outcome when it goes, so there is none while it is there,
and none twice. Once the owner has let go of it its handler is not set any
more.

## Main definitions

* `Reports`: What has been reported, at any time.

## Theorems

* `reports_goes`: What comes of an answer or an outcome.
* `reports_step`: One event.
* `silent_step`: Nothing is reported to an owner who has let go.
-/

namespace SipPerf

namespace SipRequest

open Dns

def isFinal : RequestOut → Bool
  | .final _ _ => true
  | _ => false

def isReport : RequestOut → Bool
  | .provisional _ => true
  | .final _ _ => true
  | _ => false

/-- What has been reported, to an owner that has not let go of the request. -/
structure Reports (stateful : Bool) (s : RequestRun) : Prop where
  state : ∀ req, s.req = some req → req.stateful = stateful
  resph : ∀ req, s.req = some req → req.resph = !s.released
  still : ∀ req, s.req = some req → s.outs.countP isFinal = 0
  most : s.outs.countP isFinal ≤ 1
  ended : s.req = none → stateful = true → s.released = false →
    ∃ err scode outs, s.outs = .final err scode :: outs

/-- A request that is there after an event has not reported anything final. -/
theorem reports_on (stateful : Bool) (s : RequestRun) (req req' : Request) (outs : List RequestOut)
    (released : Bool) (hr : Reports stateful s) (hs : s.req = some req)
    (hstate : req'.stateful = req.stateful) (hresph : req'.resph = !released)
    (houts : outs.countP isFinal = 0) :
    Reports stateful { s.after (some req', outs) with released := released } := by
  -- A request that is there has not reported, and this adds nothing final.
  have hcount : (s.after (some req', outs)).outs.countP isFinal = 0 := by
    rw [countP_after, houts, hr.still req hs]
  refine ⟨fun req1 h1 => ?_, fun req1 h1 => ?_, fun _ _ => hcount,
    (Nat.le_of_eq hcount).trans (Nat.zero_le 1), fun hn => absurd hn (Option.some_ne_none _)⟩
  · rw [← Option.some.inj h1, hstate, hr.state req hs]
  · rw [← Option.some.inj h1, hresph]

/-- A request that is gone has reported its outcome, if there was an owner to
    report it to. -/
theorem reports_end (stateful : Bool) (s : RequestRun) (req : Request) (outs : List RequestOut)
    (released : Bool) (hr : Reports stateful s) (hs : s.req = some req)
    (hmost : outs.countP isFinal ≤ 1)
    (hlast : stateful = true → released = false →
      ∃ err scode pre, outs = pre ++ [.final err scode]) :
    Reports stateful { s.after (none, outs) with released := released } := by
  have hnone : ∀ req1, (none : Option Request) = some req1 → False :=
    fun req1 h1 => absurd h1 (Option.some_ne_none req1).symm
  refine ⟨fun req1 h1 => (hnone req1 h1).elim, fun req1 h1 => (hnone req1 h1).elim,
    fun req1 h1 => (hnone req1 h1).elim, ?_, fun _ hstate hrel => ?_⟩
  · change (s.after (none, outs)).outs.countP isFinal ≤ 1
    rw [countP_after, hr.still req hs]
    exact hmost
  · rcases hlast hstate hrel with ⟨err, scode, pre, hpre⟩
    refine ⟨err, scode, pre.reverse ++ s.outs, ?_⟩
    change outs.reverse ++ s.outs = _
    rw [hpre, List.reverse_append]
    rfl

theorem reports_goes (stateful : Bool) (s : RequestRun) (early : Prop) (req ready : Request)
    (left : Nat) (r : Option Request × List RequestOut) (hr : Reports stateful s)
    (hs : s.req = some req) (hready : Readied early req ready) (hgoes : Goes early ready left r) :
    Reports stateful (s.after r) := by
  -- The handler is there for as long as the owner is.
  have hresph : ready.resph = !s.released := hready.resph.trans (hr.resph req hs)
  have htaken := countP_servers isFinal (fun _ => rfl)
  cases hgoes with
  | looks taken req' hm hl _ _ =>
      exact reports_on stateful s req req' _ s.released hr hs (hm.stateful.trans hready.stateful)
        (hm.resph.trans hresph) (htaken taken)
  | calls taken req' rr hm hc _ =>
      refine reports_on stateful s req req' _ s.released hr hs (hm.stateful.trans hready.stateful)
        (hm.resph.trans hresph) ?_
      rw [List.countP_append, htaken taken]
      rfl
  | fails taken rest err scode hrest =>
      refine reports_end stateful s req _ s.released hr hs ?_ (fun _ hrel => ?_)
      · rw [List.countP_append, htaken taken]
        split
        · exact Nat.le_refl 1
        · exact Nat.zero_le 1
      · refine ⟨err, scode, taken.map RequestOut.server, ?_⟩
        rw [if_pos (by rw [hresph, hrel]; rfl)]
  | done taken rest sent hst hsent hrest =>
      refine reports_end stateful s req _ s.released hr hs ?_ (fun hst' _ => ?_)
      · rw [List.countP_append, htaken taken]
        rcases hsent with hsent | ⟨tp, rr, hsent⟩ <;> rw [hsent] <;> exact Nat.zero_le 1
      -- Only a request without state is done when it is sent.
      · rw [hready.stateful, hr.state req hs, hst'] at hst
        exact absurd hst Bool.false_ne_true.symm

theorem reports_step (stateful : Bool) (s s' : RequestRun) (e : RequestEvent)
    (hr : Reports stateful s) (h : Moves s e s') : Reports stateful s' := by
  have hcancel := sipRequestCancel_counts isFinal rfl
  cases h with
  | goes req ready r left early hs hearly hready hgoes hleft hcalm =>
      exact reports_goes stateful s early req ready left r hr hs hready hgoes
  -- None of these takes a server, so each is looked at by itself.
  | hears _ hh _ =>
      cases hh with
      | provisional req scode hs hc =>
          refine reports_on stateful s req _ _ s.released hr hs rfl (hr.resph req hs) ?_
          simp only [provisionalHandler, List.countP_append]
          split <;> split <;> rfl
      | cancel req hs =>
          refine reports_on stateful s req _ _ s.released hr hs
            (sipRequestCancel_stays req).stateful ?_ (hcancel req)
          rw [sipRequestCancel]
          split <;> exact hr.resph req hs
      | release req hs hreqp =>
          cases hd : (destructor req).1 with
          | none =>
              rw [destructor_gone req hd]
              exact reports_end stateful s req [] true hr hs (Nat.zero_le 1)
                (fun _ hrel => absurd hrel Bool.false_ne_true.symm)
          | some req' =>
              have hst := destructor_stays req req' hreqp hd
              rw [hst.2.2.1]
              exact reports_on stateful s req req' _ true hr hs hst.1.stateful hst.2.1 (hcancel req)
      | close req hs =>
          refine reports_end stateful s req _ s.released hr hs ?_ (fun _ hrel => ?_)
          · simp only
            split
            · exact Nat.le_refl 1
            · exact Nat.zero_le 1
          · refine ⟨econnaborted, none, [], ?_⟩
            simp only [hr.resph req hs, hrel, Bool.not_false, if_true, List.nil_append]

/-- After its owner has let go of it, a request reports nothing. -/
theorem silent_step (stateful : Bool) (s s' : RequestRun) (e : RequestEvent)
    (hr : Reports stateful s) (hrel : s.released = true) (h : Moves s e s') :
    s'.released = true ∧ s'.outs.countP isReport = s.outs.countP isReport := by
  have hquiet : ∀ req, s.req = some req → req.resph = false := by
    intro req hs
    rw [hr.resph req hs, hrel]
    rfl
  -- It is enough that the event itself reports nothing.
  have hafter : ∀ r : Option Request × List RequestOut, r.2.countP isReport = 0 →
      (s.after r).outs.countP isReport = s.outs.countP isReport := by
    intro r hzero
    rw [countP_after, hzero, Nat.zero_add]
  have htaken := countP_servers isReport (fun _ => rfl)
  have hcancel := sipRequestCancel_counts isReport rfl
  cases h with
  | goes req ready r left early hs hearly hready hgoes hleft hcalm =>
      refine ⟨hrel, hafter r ?_⟩
      have hresph := hready.resph.trans (hquiet req hs)
      cases hgoes with
      | looks taken req' hm hl _ _ => exact htaken taken
      | calls taken req' rr hm hc _ =>
          rw [List.countP_append, htaken taken]
          rfl
      | fails taken rest err scode hrest =>
          rw [List.countP_append, htaken taken, hresph]
          rfl
      | done taken rest sent hst hsent hrest =>
          rw [List.countP_append, htaken taken]
          rcases hsent with hsent | ⟨tp, rr, hsent⟩ <;> rw [hsent] <;> rfl
  | hears _ hh _ =>
      cases hh with
      | provisional req scode hs hc =>
          refine ⟨hrel, hafter (some _, _) ?_⟩
          simp only [provisionalHandler, hquiet req hs, Bool.false_eq_true, if_false,
            List.append_nil]
          split <;> rfl
      | cancel req hs => exact ⟨hrel, hafter (some _, _) (hcancel req)⟩
      | release req hs hreqp =>
          refine ⟨rfl, hafter (destructor req) ?_⟩
          rw [destructor]
          split
          · exact hcancel _
          · rfl
      | close req hs =>
          refine ⟨hrel, hafter (closeHandler req) ?_⟩
          simp only [closeHandler, terminate, hquiet req hs, Bool.false_eq_true, if_false]
          rfl

end SipRequest

end SipPerf
