import SipPerf.Theory.SipRequest.Handlers

/-!
# One Event

An event is an answer or an outcome, which moves the request on, or something
it hears without moving: a provisional response, a CANCEL, the owner letting go
of it. `Moves` says what one event does to a request and to its history, and
nothing later looks at the handlers again.

## Main definitions

* `Waits`: A request waits for something.
* `Hears`, `Moves`: What one event does.
* `Stays`, `Quiet`: What an event that does not move a request leaves alone.

## Theorems

* `requestStep_moves`: One event.
* `hears_quiet`: What is heard moves nothing.
* `waits_step`: A request that is there waits for something.
-/

namespace SipPerf

namespace SipRequest

open Dns

/-- A request that is there waits for something. -/
def Waits (req : Request) : Prop := Looking req ∨ Calling req

def isAnswer : RequestEvent → Bool
  | .answer _ _ _ _ => true
  | .answer2 _ _ _ => true
  | _ => false

def isSend : RequestOut → Bool
  | .send _ _ _ => true
  | _ => false

/-- What a request does about a provisional response, and about its owner or
    the stack. -/
inductive Hears (s : RequestRun) : RequestRun → Prop where
  | provisional (req : Request) (scode : Nat) (hs : s.req = some req) (hc : Calling req) :
      Hears s (s.after (some (provisionalHandler req scode).1, (provisionalHandler req scode).2))
  | cancel (req : Request) (hs : s.req = some req) :
      Hears s (s.after (some (sipRequestCancel req).1, (sipRequestCancel req).2))
  | release (req : Request) (hs : s.req = some req) (hreqp : req.reqp = true) :
      Hears s { s.after (destructor req) with released := true }
  | close (req : Request) (hs : s.req = some req) : Hears s (s.after (closeHandler req))

/-- What one event does to a request. -/
inductive Moves (s : RequestRun) (e : RequestEvent) : RequestRun → Prop where
  | goes (req ready : Request) (r : Option Request × List RequestOut) (left : Nat) (early : Prop)
      (hs : s.req = some req) (hearly : early → Early req) (hready : Readied early req ready)
      (hgoes : Goes early ready left r) (hleft : (isAnswer e).toNat + left ≤ remaining req)
      (hcalm : req.canceled = true → req.ct = true → r.1 = none ∧ r.2.countP isSend = 0) :
      Moves s e (s.after r)
  | hears (s' : RequestRun) (h : Hears s s') (hans : isAnswer e = false) : Moves s e s'

/-- A lookup is answered. -/
theorem answered_moves (sup : Supported) (s : RequestRun) (req : Request) (q : Query) (err : Nat)
    (ansl addl : List DnsRr) (o : Oracle) (hs : s.req = some req) (hl : Looking req)
    (hq : req.dnsq = some q) : Moves s (.answer err ansl addl o)
      (s.after (answerHandler sup { req with dnsq := none } err ansl addl o q)) := by
  -- A request that looks something up has no transaction to cancel.
  have hcalm : ∀ r : Option Request × List RequestOut,
      req.canceled = true → req.ct = true → r.1 = none ∧ r.2.countP isSend = 0 := by
    intro r _ hct
    rw [hl.ct] at hct
    exact absurd hct Bool.false_ne_true
  cases q with
  | naptr =>
      -- A lookup for services or servers is alone, and before any server.
      have hnone := hl.early (Or.inl hq)
      rcases naptrHandler_goes sup { req with dnsq := none } ansl addl o
        ⟨hl.ct, rfl, hnone.1⟩ hnone.2 with ⟨ready, hr, hgoes⟩
      refine Moves.goes req ready _ 5 True hs (fun _ => Or.inl hq) hr.of_pending hgoes ?_ (hcalm _)
      simp only [isAnswer, Bool.toNat_true, remaining, hq]
      omega
  | srv =>
      have hnone := hl.early (Or.inr hq)
      rcases srvHandler_goes sup { req with dnsq := none } ansl addl o
        ⟨hl.ct, rfl, hnone.1⟩ hnone.2 with ⟨ready, hr, hgoes⟩
      refine Moves.goes req ready _ _ True hs (fun _ => Or.inr hq) hr.of_pending hgoes ?_ (hcalm _)
      simp only [isAnswer, Bool.toNat_true, remaining, hq]
      omega
  | addr =>
      -- With the query gone there is no early lookup either.
      have hnot : ¬ Early { req with dnsq := none } := by
        rintro (he | he) <;> exact absurd he (Option.some_ne_none _).symm
      rcases addrHandler_goes sup { req with dnsq := none } err ansl o hl.ct hnot
        with ⟨ready, hr, hgoes⟩
      refine Moves.goes req ready _ _ False hs False.elim hr.of_pending hgoes ?_ (hcalm _)
      simp only [isAnswer, Bool.toNat_true, remaining, hq]
      omega

theorem requestStep_moves (sup : Supported) (s s' : RequestRun) (e : RequestEvent)
    (hw : ∀ req, s.req = some req → Waits req) (h : requestStep sup s e = some s') :
    Moves s e s' := by
  rw [requestStep] at h
  cases hreq : s.req with
  | none =>
      rw [hreq] at h
      exact absurd h (by simp only [reduceCtorEq, not_false_eq_true])
  | some req =>
      rw [hreq] at h
      -- What the request waits for decides which events can come.
      have hwait := hw req hreq
      cases e with
      | answer err ansl addl o =>
          simp only at h
          cases hq : req.dnsq with
          | none =>
              rw [hq] at h
              exact absurd h (by simp only [reduceCtorEq, not_false_eq_true])
          | some q =>
              rw [hq] at h
              simp only [Option.some.injEq] at h
              rw [← h]
              rcases hwait with hl | hc
              · exact answered_moves sup s req q err ansl addl o hreq hl hq
              · exact absurd (hq.symm.trans hc.dnsq) (Option.some_ne_none q)
      | answer2 err ansl o =>
          simp only at h
          split at h
          · next hq2 =>
              simp only [Option.some.injEq] at h
              rw [← h]
              rcases hwait with hl | hc
              · have hnot : ¬ Early { req with dnsq2 := false } := by
                  intro he
                  exact absurd (hq2.symm.trans (hl.early he).1) Bool.false_ne_true.symm
                rcases addrHandler_goes sup { req with dnsq2 := false } err ansl o hl.ct hnot
                  with ⟨ready, hr, hgoes⟩
                refine Moves.goes req ready _ _ False hreq False.elim hr.of_pending hgoes ?_ ?_
                · simp only [isAnswer, Bool.toNat_true, remaining, hq2, Bool.toNat_false]
                  omega
                · intro _ hct
                  exact absurd (hct.symm.trans hl.ct) Bool.false_ne_true.symm
              · exact absurd (hq2.symm.trans hc.dnsq2) Bool.false_ne_true.symm
          · exact absurd h (by simp only [reduceCtorEq, not_false_eq_true])
      | provisional scode =>
          simp only at h
          split at h
          · next hct =>
              simp only [Option.some.injEq] at h
              rw [← h]
              rcases hwait with hl | hc
              · exact absurd (hct.symm.trans hl.ct) Bool.false_ne_true.symm
              · exact Moves.hears _ (Hears.provisional req scode hreq hc) rfl
          · exact absurd h (by simp only [reduceCtorEq, not_false_eq_true])
      | outcome err scode o =>
          simp only at h
          split at h
          · next hct =>
              simp only [Option.some.injEq] at h
              rw [← h]
              rcases hwait with hl | hc
              · exact absurd (hct.symm.trans hl.ct) Bool.false_ne_true.symm
              -- The one outcome of a transaction: another server, or the end.
              · refine Moves.goes req { req with ct := false } _ 0 False hreq False.elim
                  ⟨rfl, rfl, rfl, fun ht => ⟨ht.srvl, ht.addrl⟩, Or.inl ⟨rfl, rfl⟩⟩
                  (outcomeHandler_goes sup req err scode o hc) (Nat.zero_le _)
                  (fun hcanceled _ => ?_)
                rw [outcomeHandler_canceled sup req err scode o hcanceled]
                refine ⟨rfl, ?_⟩
                simp only
                split <;> rfl
          · exact absurd h (by simp only [reduceCtorEq, not_false_eq_true])
      | cancel =>
          simp only at h
          split at h
          · simp only [Option.some.injEq] at h
            rw [← h]
            exact Moves.hears _ (Hears.cancel req hreq) rfl
          · exact absurd h (by simp only [reduceCtorEq, not_false_eq_true])
      | release =>
          simp only at h
          split at h
          · next hreqp =>
              simp only [Option.some.injEq] at h
              rw [← h]
              exact Moves.hears _ (Hears.release req hreq hreqp) rfl
          · exact absurd h (by simp only [reduceCtorEq, not_false_eq_true])
      | close =>
          simp only [Option.some.injEq] at h
          rw [← h]
          exact Moves.hears _ (Hears.close req hreq) rfl

/-- A request that goes on waiting for what it waited for. -/
structure Stays (req req' : Request) : Prop where
  ct : req'.ct = req.ct
  dnsq : req'.dnsq = req.dnsq
  dnsq2 : req'.dnsq2 = req.dnsq2
  tp : req'.tp = req.tp
  tpSelected : req'.tpSelected = req.tpSelected
  stateful : req'.stateful = req.stateful
  srvl : req'.srvl = req.srvl
  addrl : req'.addrl = req.addrl
  port : req'.port = req.port

theorem provisionalHandler_stays (req : Request) (scode : Nat) :
    Stays req (provisionalHandler req scode).1 :=
  ⟨rfl, rfl, rfl, rfl, rfl, rfl, rfl, rfl, rfl⟩

theorem sipRequestCancel_stays (req : Request) : Stays req (sipRequestCancel req).1 := by
  rw [sipRequestCancel]
  split <;> exact ⟨rfl, rfl, rfl, rfl, rfl, rfl, rfl, rfl, rfl⟩

/-- A cancelled request does nothing but cancel its transaction. -/
theorem sipRequestCancel_counts (p : RequestOut → Bool) (hp : p .cancel = false) (req : Request) :
    (sipRequestCancel req).2.countP p = 0 := by
  rw [sipRequestCancel]
  split
  · rfl
  · simp only
    split
    · rw [List.countP_singleton, hp]
      rfl
    · rfl

theorem destructor_stays (req req' : Request) (hreqp : req.reqp = true)
    (h : (destructor req).1 = some req') : Stays req req' ∧ req'.resph = false ∧
      destructor req = (some req', (sipRequestCancel req).2) ∧ req'.canceled = true ∧
      req'.provrecv = req.provrecv := by
  simp only [destructor, hreqp, true_and] at h ⊢
  -- Without state the owner's hold was the last one.
  by_cases hstate : req.stateful = true
  · rw [if_pos hstate, Option.some.injEq] at h
    rw [if_pos hstate, ← h]
    simp only [sipRequestCancel]
    by_cases hc : req.canceled = true
    · simp only [hc, if_true]
      exact ⟨⟨rfl, rfl, rfl, rfl, rfl, rfl, rfl, rfl, rfl⟩, trivial, trivial, trivial, trivial⟩
    · simp only [hc, Bool.false_eq_true, if_false]
      exact ⟨⟨rfl, rfl, rfl, rfl, rfl, rfl, rfl, rfl, rfl⟩, trivial, trivial, trivial, trivial⟩
  · rw [if_neg hstate] at h
    exact absurd h (by simp only [reduceCtorEq, not_false_eq_true])

theorem destructor_gone (req : Request) (h : (destructor req).1 = none) :
    destructor req = (none, []) := by
  rw [destructor] at h ⊢
  split
  · next hc =>
      rw [if_pos hc] at h
      exact absurd h (Option.some_ne_none _)
  · rfl

theorem Stays.waits {req req' : Request} (h : Stays req req') (hw : Waits req) : Waits req' := by
  rcases hw with hl | hc
  · refine Or.inl ⟨h.ct.trans hl.ct, ?_, fun he => ?_⟩
    · rw [h.dnsq, h.dnsq2]
      exact hl.pending
    · rw [Early, h.dnsq] at he
      rw [h.dnsq2, h.srvl]
      exact hl.early he
  · exact Or.inr ⟨h.ct.trans hc.ct, h.stateful.trans hc.stateful, h.dnsq.trans hc.dnsq,
      h.dnsq2.trans hc.dnsq2⟩

def serverOf : RequestOut → Option DnsRr
  | .server rr => some rr
  | _ => none

/-- A request that waits for what it waited for, or is gone, and has neither
    taken a server nor been sent. -/
structure Quiet (s s' : RequestRun) : Prop where
  stays : ∀ req', s'.req = some req' → ∃ req, s.req = some req ∧ Stays req req'
  outs : ∃ outs : List RequestOut, s'.outs = outs.reverse ++ s.outs ∧ outs.countP isSend = 0 ∧
    outs.filterMap serverOf = []

theorem hears_quiet (s s' : RequestRun) (h : Hears s s') : Quiet s s' := by
  have hcancel : ∀ req : Request, (sipRequestCancel req).2.countP isSend = 0 ∧
      (sipRequestCancel req).2.filterMap serverOf = [] := by
    intro req
    rw [sipRequestCancel]
    split
    · exact ⟨rfl, rfl⟩
    · simp only
      split <;> exact ⟨rfl, rfl⟩
  cases h with
  | provisional req scode hs hc =>
      refine ⟨fun req' h' => ⟨req, hs, ?_⟩, _, rfl, ?_⟩
      · exact Option.some.inj h' ▸ provisionalHandler_stays req scode
      · simp only [provisionalHandler]
        split <;> split <;> exact ⟨rfl, rfl⟩
  | cancel req hs =>
      refine ⟨fun req' h' => ⟨req, hs, ?_⟩, _, rfl, hcancel req⟩
      exact Option.some.inj h' ▸ sipRequestCancel_stays req
  | release req hs hreqp =>
      refine ⟨fun req' h' => ⟨req, hs, (destructor_stays req req' hreqp h').1⟩, _, rfl, ?_⟩
      rw [destructor]
      split
      · exact hcancel _
      · exact ⟨rfl, rfl⟩
  | close req hs =>
      refine ⟨fun req' h' => absurd h' (Option.some_ne_none _).symm, _, rfl, ?_⟩
      simp only [closeHandler, terminate]
      split <;> exact ⟨rfl, rfl⟩

theorem waits_step (s s' : RequestRun) (e : RequestEvent)
    (hw : ∀ req, s.req = some req → Waits req) (h : Moves s e s') :
    ∀ req, s'.req = some req → Waits req := by
  intro req' hreq'
  cases h with
  | goes req ready r left early hs hearly hready hgoes hleft hcalm =>
      cases hgoes with
      | looks taken _ hm hl _ _ => exact Option.some.inj hreq' ▸ Or.inl hl
      | calls taken _ rr hm hc _ => exact Option.some.inj hreq' ▸ Or.inr hc
      | fails taken rest err scode _ => exact absurd hreq' (Option.some_ne_none _).symm
      | done taken rest sent _ _ _ => exact absurd hreq' (Option.some_ne_none _).symm
  | hears _ hh _ =>
      rcases (hears_quiet s s' hh).stays req' hreq' with ⟨req, hs, hst⟩
      exact hst.waits (hw req hs)

/-! ## What is counted -/

theorem countP_after (p : RequestOut → Bool) (s : RequestRun) (req : Option Request)
    (outs : List RequestOut) :
    (s.after (req, outs)).outs.countP p = outs.countP p + s.outs.countP p := by
  rw [RequestRun.after, List.countP_append, List.countP_reverse]

theorem countP_servers (p : RequestOut → Bool) (hp : ∀ rr, p (.server rr) = false)
    (taken : List DnsRr) : (taken.map RequestOut.server).countP p = 0 := by
  rw [List.countP_eq_zero]
  intro out hout
  rcases List.mem_map.mp hout with ⟨rr, _, hrr⟩
  rw [← hrr, hp rr]
  exact Bool.false_ne_true

end SipRequest

end SipPerf
