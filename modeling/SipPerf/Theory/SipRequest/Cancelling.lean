import SipPerf.Theory.SipRequest.Steps

/-!
# Cancelling

A transaction is cancelled when it has had a provisional response and the
request has been cancelled, whichever comes later. Each is noted in a flag, and
the second of them sends the CANCEL.

A request that was cancelled does not go on to another address, but lookups
that were under way still come to their end, so it may be sent once more.

## Main definitions

* `Cancels`: What has been cancelled, at any time.
* `room`: How often a request can still be sent.

## Theorems

* `cancels_goes`, `cancels_step`: One event.
* `room_step`: A cancelled request does not go on.
-/

namespace SipPerf

namespace SipRequest

open Dns

def isCancel : RequestOut → Bool
  | .cancel => true
  | _ => false

/-- The transaction of a cancelled request is cancelled once it has had a
    provisional response. -/
structure Cancels (s : RequestRun) : Prop where
  still : ∀ req, s.req = some req →
    s.outs.countP isCancel = (req.canceled && req.ct && req.provrecv).toNat
  most : s.outs.countP isCancel ≤ 1

theorem sipRequestCancel_cancels (req : Request) :
    (sipRequestCancel req).2.countP isCancel + (req.canceled && req.ct && req.provrecv).toNat =
      (true && req.ct && req.provrecv).toNat ∧ (sipRequestCancel req).1.canceled = true ∧
      (sipRequestCancel req).1.provrecv = req.provrecv := by
  rw [sipRequestCancel]
  cases hc : req.canceled <;> cases hct : req.ct <;> cases hp : req.provrecv <;>
    simp [isCancel, hc, hp]

theorem provisionalHandler_cancels (req : Request) (scode : Nat) (hct : req.ct = true) :
    (provisionalHandler req scode).2.countP isCancel +
      (req.canceled && req.ct && req.provrecv).toNat = (req.canceled && true && true).toNat := by
  rw [provisionalHandler]
  cases hc : req.canceled <;> cases hp : req.provrecv <;> cases hr : req.resph <;>
    simp [isCancel, hct, List.countP_cons]

/-- A request that goes on has not cancelled anything, since the outcome of a
    transaction that was cancelled ends it. -/
theorem cancels_goes (s : RequestRun) (req req' : Request) (outs : List RequestOut)
    (hc : Cancels s) (hs : s.req = some req) (hcalm : req.canceled = true → req.ct = true → False)
    (houts : outs.countP isCancel = 0) (hquiet : req'.ct = false ∨ req'.provrecv = false) :
    Cancels (s.after (some req', outs)) := by
  have hzero : s.outs.countP isCancel = 0 := by
    rw [hc.still req hs]
    cases hcanceled : req.canceled with
    | false => rfl
    | true =>
        cases hct : req.ct with
        | false => rfl
        | true => exact (hcalm hcanceled hct).elim
  have hcount : (s.after (some req', outs)).outs.countP isCancel = 0 := by
    rw [countP_after, houts, hzero]
  refine ⟨fun req1 h1 => ?_, (Nat.le_of_eq hcount).trans (Nat.zero_le 1)⟩
  rw [hcount, ← Option.some.inj h1]
  rcases hquiet with hquiet | hquiet <;> rw [hquiet]
  · rw [Bool.and_false, Bool.false_and]
    rfl
  · rw [Bool.and_false]
    rfl

theorem cancels_step (s s' : RequestRun) (e : RequestEvent) (hc : Cancels s) (h : Moves s e s') :
    Cancels s' := by
  have htaken := countP_servers isCancel (fun _ => rfl)
  have hend : ∀ (outs : List RequestOut) (released : Bool), outs.countP isCancel = 0 →
      Cancels { s.after (none, outs) with released := released } := by
    intro outs released houts
    refine ⟨fun req1 h1 => absurd h1 (Option.some_ne_none _).symm, ?_⟩
    change (s.after (none, outs)).outs.countP isCancel ≤ 1
    rw [countP_after, houts, Nat.zero_add]
    exact hc.most
  -- A count that is made up for by the state of the request.
  have hgo : ∀ (req req' : Request) (outs : List RequestOut) (released : Bool),
      s.req = some req →
      outs.countP isCancel + (req.canceled && req.ct && req.provrecv).toNat =
        (req'.canceled && req'.ct && req'.provrecv).toNat →
      Cancels { s.after (some req', outs) with released := released } := by
    intro req req' outs released hs hsum
    have hcount : (s.after (some req', outs)).outs.countP isCancel =
        (req'.canceled && req'.ct && req'.provrecv).toNat := by
      rw [countP_after, hc.still req hs, hsum]
    exact ⟨fun req1 h1 => Option.some.inj h1 ▸ hcount,
      (Nat.le_of_eq hcount).trans (Bool.toNat_le _)⟩
  cases h with
  | goes req ready r left early hs hearly hready hgoes hleft hcalm =>
      cases hgoes with
      | looks taken req' hm hl _ _ =>
          refine cancels_goes s req req' _ hc hs ?_ (htaken taken) (Or.inl hl.ct)
          exact fun h1 h2 => absurd (hcalm h1 h2).1 (Option.some_ne_none _)
      | calls taken req' rr hm hcall hprov =>
          refine cancels_goes s req req' _ hc hs ?_ ?_ (Or.inr hprov)
          · exact fun h1 h2 => absurd (hcalm h1 h2).1 (Option.some_ne_none _)
          · rw [List.countP_append, htaken taken]
            rfl
      | fails taken rest err scode hrest =>
          refine hend _ s.released ?_
          rw [List.countP_append, htaken taken]
          split <;> rfl
      | done taken rest sent hst hsent hrest =>
          refine hend _ s.released ?_
          rw [List.countP_append, htaken taken]
          rcases hsent with hsent | ⟨tp, rr, hsent⟩ <;> rw [hsent] <;> rfl
  | hears _ hh _ =>
      cases hh with
      | provisional req scode hs hcall =>
          refine hgo req _ _ s.released hs ?_
          rw [provisionalHandler_cancels req scode hcall.ct,
            (provisionalHandler_stays req scode).ct, hcall.ct]
          rfl
      | cancel req hs =>
          have hcancel := sipRequestCancel_cancels req
          refine hgo req _ _ s.released hs ?_
          rw [hcancel.1, hcancel.2.1, hcancel.2.2, (sipRequestCancel_stays req).ct]
      | release req hs hreqp =>
          cases hd : (destructor req).1 with
          | none =>
              rw [destructor_gone req hd]
              exact hend [] true rfl
          | some req' =>
              have hst := destructor_stays req req' hreqp hd
              rw [hst.2.2.1]
              refine hgo req req' _ true hs ?_
              rw [(sipRequestCancel_cancels req).1, hst.2.2.2.1, hst.1.ct, hst.2.2.2.2]
      | close req hs =>
          refine hend _ s.released ?_
          simp only
          split <;> rfl

/-- How often a cancelled request can still be sent. -/
def room (s : RequestRun) : Nat :=
  match s.req with
  | some req => (!req.ct).toNat
  | none => 0

/-- A request that has been cancelled is not sent again but for the lookups it
    still waits for. -/
theorem room_step (s s' : RequestRun) (e : RequestEvent)
    (hc : ∀ req, s.req = some req → req.canceled = true) (h : Moves s e s') :
    (∀ req, s'.req = some req → req.canceled = true) ∧
      s'.outs.countP isSend + room s' ≤ s.outs.countP isSend + room s := by
  have htaken := countP_servers isSend (fun _ => rfl)
  cases h with
  | goes req ready r left early hs hearly hready hgoes hleft hcalm =>
      have hcan := hc req hs
      have hroom : room s = (!req.ct).toNat := by
        rw [room, hs]
      rw [countP_after isSend s r.1 r.2, hroom]
      -- A transaction of a cancelled request that ends is the end of it.
      have hct : ∀ req', r.1 = some req' → req.ct = false := by
        intro req' hr
        rw [← Bool.not_eq_true]
        intro hct
        rw [(hcalm hcan hct).1] at hr
        exact absurd hr (Option.some_ne_none _).symm
      cases hgoes with
      | looks taken req' hm hl _ _ =>
          refine ⟨fun req1 h1 => ?_, ?_⟩
          · rw [← Option.some.inj h1, hm.canceled, hready.canceled, hcan]
          · simp only [htaken, room, RequestRun.after, hl.ct, hct req' rfl]
            omega
      | calls taken req' rr hm hcall hprov =>
          refine ⟨fun req1 h1 => ?_, ?_⟩
          · rw [← Option.some.inj h1, hm.canceled, hready.canceled, hcan]
          · simp only [List.countP_append, htaken, room, RequestRun.after, hcall.ct, hct req' rfl,
              List.countP_singleton, isSend, Bool.not_true, Bool.not_false, Bool.toNat_true,
              Bool.toNat_false, if_true]
            omega
      | fails taken rest err scode hrest =>
          refine ⟨fun req1 h1 => absurd h1 (Option.some_ne_none _).symm, ?_⟩
          have hzero : (if ready.resph = true then [RequestOut.final err scode] else []).countP
              isSend = 0 := by
            split <;> rfl
          simp only [List.countP_append, htaken, hzero, room, RequestRun.after]
          omega
      | done taken rest sent hst hsent hrest =>
          refine ⟨fun req1 h1 => absurd h1 (Option.some_ne_none _).symm, ?_⟩
          have hmost : sent.countP isSend ≤ 1 := by
            rcases hsent with hsent | ⟨tp, rr, hsent⟩
            · rw [hsent]
              exact Nat.zero_le 1
            · rw [hsent]
              exact Nat.le_refl 1
          -- Only a request that waited for a lookup is sent here.
          cases hreq : req.ct with
          | true =>
              have hzero := (hcalm hcan hreq).2
              simp only [hzero, room, RequestRun.after]
              omega
          | false =>
              simp only [List.countP_append, htaken, room, RequestRun.after, Bool.not_false,
                Bool.toNat_true]
              omega
  | hears _ hh _ =>
      have hquiet := hears_quiet s s' hh
      constructor
      · intro req' hreq'
        cases hh with
        | provisional req scode hs hcall => exact Option.some.inj hreq' ▸ hc req hs
        | cancel req hs => exact Option.some.inj hreq' ▸ (sipRequestCancel_cancels req).2.1
        | release req hs hreqp => exact (destructor_stays req req' hreqp hreq').2.2.2.1
        | close req hs => exact absurd hreq' (Option.some_ne_none _).symm
      · rcases hquiet.outs with ⟨outs, houts, hsend, _⟩
        have hroom : room s' ≤ room s := by
          rw [room, room]
          cases hreq' : s'.req with
          | none => exact Nat.zero_le _
          | some req' =>
              rcases hquiet.stays req' hreq' with ⟨req, hs, hst⟩
              rw [hs]
              simp only [hst.ct]
              exact Nat.le_refl _
        rw [houts, List.countP_append, List.countP_reverse, hsend, Nat.zero_add]
        exact Nat.add_le_add_left hroom _

end SipRequest

end SipPerf
