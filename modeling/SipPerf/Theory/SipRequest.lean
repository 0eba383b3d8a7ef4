import SipPerf.Lib.Transition
import SipPerf.Theory.SipRequest.Cancelling
import SipPerf.Theory.SipRequest.Reports
import SipPerf.Theory.SipRequest.Servers

/-!
# What a Request Does

A request looks for its server, tries one address after the other, and reports
one outcome. Every event keeps what has been reported, what has been cancelled
and which servers have been taken as they should be, and a new request begins
that way, whether its host is an address or has to be looked up.

## Main definitions

* `Sane`: What holds of a request at any time.

## Theorems

* `sane_step`, `sipRequest_sane`, `run_sane`: It does.
* `request_reports_once`: A request reports one outcome.
* `request_waits_for_one_thing`: A request waits for a transaction or for
  lookups.
* `cancel_sent_once`: A request is cancelled once.
* `servers_tried_in_order`: The servers are tried in order.
* `lookups_bounded`: The number of lookups.
* `failover_tries_all`: A request does not give up while there is a server.
-/

namespace SipPerf

namespace SipRequest

open Dns Transition

/-- What holds of a request at any time. -/
structure Sane (stateful : Bool) (s : RequestRun) : Prop where
  waits : ∀ req, s.req = some req → Waits req
  reports : Reports stateful s
  cancels : Cancels s
  serves : Serves s

theorem sane_step (sup : Supported) (stateful : Bool) (s : RequestRun) (e : RequestEvent)
    (s' : RequestRun) (hs : Sane stateful s) (h : requestStep sup s e = some s') :
    Sane stateful s' := by
  have hmoves := requestStep_moves sup s s' e hs.waits h
  exact ⟨waits_step s s' e hs.waits hmoves, reports_step stateful s s' e hs.reports hmoves,
    cancels_step s s' e hs.cancels hmoves, serves_step s s' e hs.serves hmoves⟩

/-- A request that has just been made, and has done nothing but perhaps be
    sent. -/
theorem new_sane (stateful : Bool) (req : Option Request) (outs : List RequestOut)
    (hreq : ∀ req', req = some req' → Waits req' ∧ req'.stateful = stateful ∧ req'.resph = true ∧
      req'.canceled = false ∧ req'.srvl = [] ∧ req'.addrl = [])
    (hnone : req = none → stateful = false)
    (houts : outs = [] ∨ ∃ tp port, outs = [.send tp none port]) :
    Sane stateful (RequestRun.new (req, outs)) := by
  have hempty : InOrder [] := ⟨List.nodup_nil, List.Pairwise.nil⟩
  have hcounts : (RequestRun.new (req, outs)).outs.countP isFinal = 0 ∧
      (RequestRun.new (req, outs)).outs.countP isCancel = 0 ∧
      servers (RequestRun.new (req, outs)).outs = [] ∧
      PortsRight (RequestRun.new (req, outs)).outs := by
    rcases houts with houts | ⟨tp, port, houts⟩ <;> rw [houts]
    · exact ⟨rfl, rfl, rfl, trivial⟩
    · refine ⟨rfl, rfl, rfl, ⟨fun tp' rr port' hout => ?_, trivial⟩⟩
      exact absurd hout (by simp only [RequestOut.send.injEq, reduceCtorEq, false_and, and_false,
        not_false_eq_true])
  rcases hcounts with ⟨hfinal, hcancel, hservers, hports⟩
  refine ⟨fun req' h' => (hreq req' h').1, ⟨fun req' h' => (hreq req' h').2.1, fun req' h' => ?_,
    fun _ _ => hfinal, ?_, fun h' hst => ?_⟩,
    ⟨fun req' h' => ?_, ?_⟩,
    ⟨fun req' h' => ?_, ?_, fun req' h' => ⟨fun rr hrr => ?_, fun rr hrr => ?_⟩,
      fun _ _ _ => hservers, fun _ _ p hp => ?_, hports⟩⟩
  · rw [(hreq req' h').2.2.1]
    rfl
  · rw [hfinal]
    exact Nat.zero_le 1
  · rw [hnone h'] at hst
    exact absurd hst Bool.false_ne_true
  · rw [hcancel, (hreq req' h').2.2.2.1]
    rfl
  · rw [hcancel]
    exact Nat.zero_le 1
  · rw [hservers, (hreq req' h').2.2.2.2.1]
    exact hempty
  · rw [hservers]
    exact hempty
  · rw [(hreq req' h').2.2.2.2.1] at hrr
    exact absurd hrr List.not_mem_nil
  · rw [(hreq req' h').2.2.2.2.2] at hrr
    exact absurd hrr List.not_mem_nil
  · rw [latestPort, hservers] at hp
    exact absurd hp (by simp only [List.getLast?_nil, Option.map_none, reduceCtorEq,
      not_false_eq_true])

/-- The first lookup of a request that has nothing yet. -/
theorem firstLookup_spec (sup : Supported) (req : Request) (route : Route) (o : Oracle)
    (h : Idle req) (hsrvl : req.srvl = []) (hok : (firstLookup sup req route o).2 = 0) :
    ∃ q q2 port, (firstLookup sup req route o).1 =
        { req with dnsq := q, dnsq2 := q2, port := port } ∧
      Looking (firstLookup sup req route o).1 ∧ remaining (firstLookup sup req route o).1 ≤ 6 := by
  rw [firstLookup] at hok ⊢
  split
  · next hport =>
      rw [if_pos hport] at hok
      rcases addrLookup_spec sup { req with port := sipTranspPort req.tp route.port } o
        ⟨h.ct, h.dnsq, h.dnsq2⟩ with ⟨q, q2, hr, hq, hpending, _⟩
      have htwo := Bool.toNat_le q2
      rw [hr]
      refine ⟨q, q2, _, rfl, ⟨h.ct, hpending hok, fun he => ?_⟩, ?_⟩
      · rcases he with he | he <;> rw [show q = _ from he] at hq <;> exact absurd hq (by decide)
      · rcases hq with hq | hq <;> simp only [remaining, hq] <;> omega
  · next hport =>
      rw [if_neg hport] at hok
      split
      · next hsel =>
          rw [if_pos hsel, srvLookup] at hok
          rw [srvLookup]
          split
          · refine ⟨some .srv, req.dnsq2, req.port, rfl,
              ⟨h.ct, Or.inl rfl, fun _ => ⟨h.dnsq2, hsrvl⟩⟩, ?_⟩
            simp only [remaining, hsel, h.dnsq2, if_true, Bool.toNat_false]
            omega
          · next hq =>
              rw [if_neg hq] at hok
              exact absurd hok hq
      · next hsel =>
          rw [if_neg hsel] at hok
          split
          · refine ⟨some .naptr, req.dnsq2, req.port, rfl,
              ⟨h.ct, Or.inl rfl, fun _ => ⟨h.dnsq2, hsrvl⟩⟩, ?_⟩
            simp only [remaining, h.dnsq2, Bool.toNat_false]
            omega
          · next hq =>
              rw [if_neg hq] at hok
              exact absurd hok hq

theorem sipRequest_sane (sup : Supported) (stateful reqp : Bool) (route : Route) (sendErr : Nat)
    (o : Oracle) (r : Option Request × List RequestOut)
    (h : sipRequest sup stateful reqp route sendErr o = .ok r) :
    Sane stateful (RequestRun.new r) ∧ remainingRun (RequestRun.new r) ≤ 6 := by
  rw [sipRequest] at h
  split at h
  · exact absurd h (by simp only [reduceCtorEq, not_false_eq_true])
  · next tp _ =>
      simp only at h
      split at h
      · -- The host is an address.
        split at h
        · exact absurd h (by simp only [reduceCtorEq, not_false_eq_true])
        · next herr =>
            simp only [request, not_not.mp herr, if_true] at h
            split at h
            · next hstate =>
                rw [Except.ok.injEq] at h
                rw [← h]
                refine ⟨new_sane stateful _ _ (fun req' h' => ?_) (fun h' => ?_) (Or.inr ⟨_, _, rfl⟩),
                  Nat.zero_le 6⟩
                · rw [← Option.some.inj h']
                  exact ⟨Or.inr ⟨hstate, hstate, rfl, rfl⟩, rfl, rfl, rfl, rfl, rfl⟩
                · exact absurd h' (Option.some_ne_none _)
            · next hstate =>
                rw [Except.ok.injEq] at h
                rw [← h]
                exact ⟨new_sane stateful none _ (fun req' h' => absurd h' (Option.some_ne_none _).symm)
                  (fun _ => (Bool.not_eq_true _).mp hstate) (Or.inr ⟨_, _, rfl⟩), Nat.zero_le 6⟩
      · split at h
        · next hok =>
            rw [Except.ok.injEq] at h
            rw [← h]
            rcases firstLookup_spec sup (newRequest stateful reqp route tp) route o ⟨rfl, rfl, rfl⟩ rfl hok
              with ⟨q, q2, port, hsame, hl, hleft⟩
            refine ⟨new_sane stateful _ [] (fun req' h' => ?_) (fun h' => ?_) (Or.inl rfl), hleft⟩
            · rw [Option.some.injEq] at h'
              rw [h'] at hsame hl
              rw [hsame] at hl ⊢
              exact ⟨Or.inl hl, rfl, rfl, rfl, rfl, rfl⟩
            · exact absurd h' (Option.some_ne_none _)
        · exact absurd h (by simp only [reduceCtorEq, not_false_eq_true])

/-! Two servers, whose addresses come with them, for a request over UDP. -/

def someSup : Supported := fun tp af => tp == 0 && af != .inet6

def someRoute : Route := ⟨['h'], false, 0, some 0⟩

def someOracle : Oracle := ⟨fun _ _ _ => 0, 0, 0⟩

def someAnswer : RequestEvent :=
  .answer 0 [⟨1, ['h'], 1, .srv 2 0 5062 ['y']⟩, ⟨2, ['h'], 1, .srv 1 0 5061 ['x']⟩]
    [⟨3, ['x'], 1, .a 10⟩, ⟨4, ['y'], 1, .a 11⟩] someOracle

theorem run_sane (sup : Supported) (stateful reqp : Bool) (route : Route) (sendErr : Nat)
    (o : Oracle) (r : Option Request × List RequestOut) (es : List RequestEvent) (t : RequestRun)
    (h0 : sipRequest sup stateful reqp route sendErr o = .ok r)
    (h : exec (requestStep sup) (RequestRun.new r) es = some t) : Sane stateful t :=
  exec_invariant (requestStep sup) (Sane stateful)
    (fun s e s' hs he => sane_step sup stateful s e s' hs he) es _ t
    (sipRequest_sane sup stateful reqp route sendErr o r h0).1 h

/-- A request that is there has not reported an outcome, and one that is gone
    has reported one at the end of everything if it has state and its owner has
    not let go of it. After the owner has let go of it, it reports nothing. -/
theorem request_reports_once (sup : Supported) (stateful reqp : Bool) (route : Route)
    (sendErr : Nat) (o : Oracle) (r : Option Request × List RequestOut) (es : List RequestEvent)
    (t : RequestRun) (h0 : sipRequest sup stateful reqp route sendErr o = .ok r)
    (h : exec (requestStep sup) (RequestRun.new r) es = some t) :
    (t.req.isSome = true → t.outs.countP isFinal = 0) ∧ t.outs.countP isFinal ≤ 1 ∧
      (t.req = none → stateful = true → t.released = false →
        ∃ err scode outs, t.outs = .final err scode :: outs) ∧
      ∀ es' u, t.released = true → exec (requestStep sup) t es' = some u →
        u.outs.countP isReport = t.outs.countP isReport := by
  have hsane := run_sane sup stateful reqp route sendErr o r es t h0 h
  refine ⟨fun hsome => ?_, hsane.reports.most, hsane.reports.ended, fun es' u hrel hu => ?_⟩
  · rcases Option.isSome_iff_exists.mp hsome with ⟨req, hreq⟩
    exact hsane.reports.still req hreq
  · have hkept := exec_invariant (requestStep sup)
      (fun s => Sane stateful s ∧ s.released = true ∧
        s.outs.countP isReport = t.outs.countP isReport)
      (fun s e s' hs he => by
        have hsilent := silent_step stateful s s' e hs.1.reports hs.2.1
          (requestStep_moves sup s s' e hs.1.waits he)
        exact ⟨sane_step sup stateful s e s' hs.1 he, hsilent.1, hsilent.2.trans hs.2.2⟩)
      es' t u ⟨hsane, hrel, rfl⟩ hu
    exact hkept.2.2

theorem request_reports_once_busy :
    ∃ r t, sipRequest someSup true true someRoute 0 someOracle = .ok r ∧
      exec (requestStep someSup) (RequestRun.new r)
        [someAnswer, .provisional 180, .outcome 0 (some 486) someOracle] = some t ∧
      (t.req.isSome = true → t.outs.countP isFinal = 0) ∧ t.outs.countP isFinal ≤ 1 ∧
      (t.req = none → true = true → t.released = false →
        ∃ err scode outs, t.outs = .final err scode :: outs) ∧
      ∀ es' u, t.released = true → exec (requestStep someSup) t es' = some u →
        u.outs.countP isReport = t.outs.countP isReport :=
  ⟨_, _, rfl, rfl, request_reports_once someSup true true someRoute 0 someOracle _
    [someAnswer, .provisional 180, .outcome 0 (some 486) someOracle] _ rfl rfl⟩

/-- A request that is there waits for the outcome of a transaction, or for
    answers to lookups, and never for both or for nothing. -/
theorem request_waits_for_one_thing (sup : Supported) (stateful reqp : Bool) (route : Route)
    (sendErr : Nat) (o : Oracle) (r : Option Request × List RequestOut) (es : List RequestEvent)
    (t : RequestRun) (req : Request) (h0 : sipRequest sup stateful reqp route sendErr o = .ok r)
    (h : exec (requestStep sup) (RequestRun.new r) es = some t) (hreq : t.req = some req) :
    req.ct = !(req.dnsq.isSome || req.dnsq2) ∧ (req.ct = true → stateful = true) ∧
      (req.dnsq2 = true → req.dnsq = none ∨ req.dnsq = some .addr) := by
  have hsane := run_sane sup stateful reqp route sendErr o r es t h0 h
  rcases hsane.waits req hreq with hl | hc
  · refine ⟨?_, fun hct => ?_, fun hq2 => ?_⟩
    · rw [hl.ct]
      rcases hl.pending with hp | hp <;> rw [hp]
      · rfl
      · rw [Bool.or_true]
        rfl
    · exact absurd (hct.symm.trans hl.ct) Bool.false_ne_true.symm
    · cases hq : req.dnsq with
      | none => exact Or.inl rfl
      | some q =>
          cases q with
          | addr => exact Or.inr rfl
          | naptr => exact absurd (hq2.symm.trans (hl.early (Or.inl hq)).1) Bool.false_ne_true.symm
          | srv => exact absurd (hq2.symm.trans (hl.early (Or.inr hq)).1) Bool.false_ne_true.symm
  · refine ⟨?_, fun _ => (hsane.reports.state req hreq).symm.trans hc.stateful, fun hq2 => ?_⟩
    · rw [hc.ct, hc.dnsq, hc.dnsq2]
      rfl
    · exact absurd (hq2.symm.trans hc.dnsq2) Bool.false_ne_true.symm

theorem request_waits_for_one_thing_sent :
    ∃ r t req, sipRequest someSup true true someRoute 0 someOracle = .ok r ∧
      exec (requestStep someSup) (RequestRun.new r) [someAnswer] = some t ∧ t.req = some req ∧
      req.ct = !(req.dnsq.isSome || req.dnsq2) ∧ (req.ct = true → true = true) ∧
      (req.dnsq2 = true → req.dnsq = none ∨ req.dnsq = some .addr) :=
  ⟨_, _, _, rfl, rfl, rfl, request_waits_for_one_thing someSup true true someRoute 0 someOracle _
    [someAnswer] _ _ rfl rfl rfl⟩

/-- A request cancels its transaction once at most, and has cancelled it if it
    was cancelled itself and the transaction has had a provisional response.
    After it was cancelled it is sent once more at most, and not at all if it
    had been sent. -/
theorem cancel_sent_once (sup : Supported) (stateful reqp : Bool) (route : Route) (sendErr : Nat)
    (o : Oracle) (r : Option Request × List RequestOut) (es : List RequestEvent) (t : RequestRun)
    (h0 : sipRequest sup stateful reqp route sendErr o = .ok r)
    (h : exec (requestStep sup) (RequestRun.new r) es = some t) :
    t.outs.countP isCancel ≤ 1 ∧ ∀ req, t.req = some req →
      t.outs.countP isCancel = (req.canceled && req.ct && req.provrecv).toNat ∧
        ∀ es' u, req.canceled = true → exec (requestStep sup) t es' = some u →
          u.outs.countP isSend ≤ t.outs.countP isSend + (!req.ct).toNat := by
  have hsane := run_sane sup stateful reqp route sendErr o r es t h0 h
  refine ⟨hsane.cancels.most, fun req hreq => ⟨hsane.cancels.still req hreq, fun es' u hcan hu => ?_⟩⟩
  have hroom : room t = (!req.ct).toNat := by
    rw [room, hreq]
  have hbound := exec_invariant (requestStep sup)
    (fun s => Sane stateful s ∧ (∀ req', s.req = some req' → req'.canceled = true) ∧
      s.outs.countP isSend + room s ≤ t.outs.countP isSend + room t)
    (fun s e s' hs he => by
      have hstep := room_step s s' e hs.2.1 (requestStep_moves sup s s' e hs.1.waits he)
      exact ⟨sane_step sup stateful s e s' hs.1 he, hstep.1, hstep.2.trans hs.2.2⟩)
    es' t u ⟨hsane, fun req' h' => Option.some.inj (hreq.symm.trans h') ▸ hcan, Nat.le_refl _⟩ hu
  have hsends := hbound.2.2
  omega

theorem cancel_sent_once_early :
    ∃ r t, sipRequest someSup true true someRoute 0 someOracle = .ok r ∧
      exec (requestStep someSup) (RequestRun.new r) [someAnswer, .cancel, .provisional 180] = some t ∧
      t.outs.countP isCancel ≤ 1 ∧ ∀ req, t.req = some req →
        t.outs.countP isCancel = (req.canceled && req.ct && req.provrecv).toNat ∧
          ∀ es' u, req.canceled = true → exec (requestStep someSup) t es' = some u →
            u.outs.countP isSend ≤ t.outs.countP isSend + (!req.ct).toNat :=
  ⟨_, _, rfl, rfl, cancel_sent_once someSup true true someRoute 0 someOracle _
    [someAnswer, .cancel, .provisional 180] _ rfl rfl⟩

/-- A request takes every server once at most, and those of one name in the
    order of their priorities. It is sent to the port of the server taken
    latest. -/
theorem servers_tried_in_order (sup : Supported) (stateful reqp : Bool) (route : Route)
    (sendErr : Nat) (o : Oracle) (r : Option Request × List RequestOut) (es : List RequestEvent)
    (t : RequestRun) (h0 : sipRequest sup stateful reqp route sendErr o = .ok r)
    (h : exec (requestStep sup) (RequestRun.new r) es = some t) :
    InOrder (servers t.outs) ∧ PortsRight t.outs ∧
      ∀ req, t.req = some req → InOrder (servers t.outs ++ req.srvl) := by
  have hsane := run_sane sup stateful reqp route sendErr o r es t h0 h
  exact ⟨hsane.serves.taken, hsane.serves.ports, hsane.serves.order⟩

theorem servers_tried_in_order_two :
    ∃ r t, sipRequest someSup true true someRoute 0 someOracle = .ok r ∧
      exec (requestStep someSup) (RequestRun.new r)
        [someAnswer, .outcome 110 none someOracle] = some t ∧
      InOrder (servers t.outs) ∧ PortsRight t.outs ∧
        ∀ req, t.req = some req → InOrder (servers t.outs ++ req.srvl) :=
  ⟨_, _, rfl, rfl, servers_tried_in_order someSup true true someRoute 0 someOracle _
    [someAnswer, .outcome 110 none someOracle] _ rfl rfl⟩

example : ((exec (requestStep someSup) (RequestRun.new (some (firstLookup someSup
    (newRequest true true someRoute 0) someRoute someOracle).1, [])) [someAnswer,
      .outcome 110 none someOracle]).map (fun t => (servers t.outs).map srvPort)) =
    some [5061, 5062] := by decide

theorem lookups_run (sup : Supported) (stateful : Bool) (es : List RequestEvent) :
    ∀ (s t : RequestRun), Sane stateful s → exec (requestStep sup) s es = some t →
    es.countP isAnswer + remainingRun t + 2 * (servers s.outs).length ≤
      remainingRun s + 2 * (servers t.outs).length := by
  induction es with
  | nil =>
      intro s t _ h
      rw [exec, Option.some.injEq] at h
      rw [h, List.countP_nil, Nat.zero_add]
  | cons e es ih =>
      intro s t hs h
      rcases exec_cons (requestStep sup) s t e es h with ⟨s', he, hrest⟩
      have hstep := lookups_step s s' e (requestStep_moves sup s s' e hs.waits he)
      have hrun := ih s' t (sane_step sup stateful s e s' hs he) hrest
      have hcount : (e :: es).countP isAnswer = es.countP isAnswer + (isAnswer e).toNat := by
        rw [List.countP_cons]
        cases isAnswer e <;> rfl
      omega

/-- A request waits for at most six answers to lookups for its host, and for
    two more for each server it takes. -/
theorem lookups_bounded (sup : Supported) (stateful reqp : Bool) (route : Route) (sendErr : Nat)
    (o : Oracle) (r : Option Request × List RequestOut) (es : List RequestEvent) (t : RequestRun)
    (h0 : sipRequest sup stateful reqp route sendErr o = .ok r)
    (h : exec (requestStep sup) (RequestRun.new r) es = some t) :
    es.countP isAnswer ≤ 6 + 2 * (servers t.outs).length := by
  have hnew := sipRequest_sane sup stateful reqp route sendErr o r h0
  have hrun := lookups_run sup stateful es _ t hnew.1 h
  have hfirst := hnew.2
  omega

theorem lookups_bounded_one :
    ∃ r t, sipRequest someSup true true someRoute 0 someOracle = .ok r ∧
      exec (requestStep someSup) (RequestRun.new r) [someAnswer] = some t ∧
      [someAnswer].countP isAnswer ≤ 6 + 2 * (servers t.outs).length :=
  ⟨_, _, rfl, rfl, lookups_bounded someSup true true someRoute 0 someOracle _ [someAnswer] _ rfl rfl⟩

/-- A request that has not been cancelled, and whose transaction fails or is
    answered with 503, ends with that only if it has taken all its servers and
    the addresses it still had have been refused, one after the other, as long
    as the stack takes its lookups. -/
theorem failover_tries_all (sup : Supported) (stateful reqp : Bool) (route : Route)
    (sendErr : Nat) (o : Oracle) (r : Option Request × List RequestOut) (es : List RequestEvent)
    (t u : RequestRun) (req : Request) (err : Nat) (scode : Option Nat) (o' : Oracle)
    (h0 : sipRequest sup stateful reqp route sendErr o = .ok r)
    (h : exec (requestStep sup) (RequestRun.new r) es = some t) (hreq : t.req = some req)
    (hcan : req.canceled = false) (hfail : err ≠ 0 ∨ scode = some 503) (hquery : o'.query = 0)
    (hquery2 : o'.query2 = 0) (hsup : sup req.tp .inet = true ∨ sup req.tp .inet6 = true)
    (hu : requestStep sup t (.outcome err scode o') = some u) (hgone : u.req = none) :
    servers u.outs = servers t.outs ++ req.srvl ∧
      ∀ i rr, req.addrl[i]? = some rr → o'.send i rr req.port ≠ 0 := by
  have hsane := run_sane sup stateful reqp route sendErr o r es t h0 h
  rw [requestStep, hreq] at hu
  simp only at hu
  split at hu
  · next hct =>
      rw [Option.some.injEq] at hu
      rw [← hu] at hgone ⊢
      have hidle : Idle { req with ct := false } := by
        rcases hsane.waits req hreq with hl | hc
        · exact absurd (hct.symm.trans hl.ct) Bool.false_ne_true.symm
        · exact ⟨rfl, hc.dnsq, hc.dnsq2⟩
      have hnexts := nextFrom_nexts sup o' req.srvl 0 _ hidle rfl
      have hty : Typed { req with ct := false } :=
        ⟨(hsane.serves.typed req hreq).srvl, (hsane.serves.typed req hreq).addrl⟩
      rw [RequestRun.after, servers_append]
      rw [RequestRun.after, outcomeHandler] at hgone
      rw [outcomeHandler]
      simp only at hgone ⊢
      have hreport : ∀ (resph : Bool) (err : Nat), (if resph = true then
          [RequestOut.final err scode] else []).filterMap serverOf = [] := by
        intro resph err
        split <;> rfl
      split at hgone
      · next hmore =>
          rw [if_pos hmore]
          rw [requestNext] at hgone ⊢
          generalize nextFrom sup o' 0 req.srvl { req with ct := false } = r' at hnexts hgone ⊢
          cases hnexts with
          | sent taken req' rr _ _ _ _ _ => exact absurd hgone (Option.some_ne_none _)
          | looks taken req' _ _ _ _ _ => exact absurd hgone (Option.some_ne_none _)
          | fails taken req' err' hm herr hall =>
              rcases hall hty hquery hquery2 hsup with ⟨hrefused, hrest⟩
              have htaken : req.srvl = taken := by
                rw [← List.append_nil taken, ← hrest]
                exact hm.srvl
              rw [if_neg herr]
              simp only [terminate]
              rw [List.filterMap_append, filterMap_servers, hreport, List.append_nil, htaken]
              refine ⟨rfl, fun i rr hi => ?_⟩
              rw [← Nat.zero_add i]
              exact hrefused i rr hi
      · next hnone =>
          -- There was nothing left to try.
          have hempty : req.addrl = [] ∧ req.srvl = [] := by
            by_contra hc
            exact hnone ⟨hcan, hfail, not_and_or.mp hc⟩
          rw [if_neg hnone, hempty.1, hempty.2]
          simp only [terminate]
          rw [hreport]
          refine ⟨rfl, fun i rr hi => ?_⟩
          rw [List.getElem?_nil] at hi
          exact absurd hi (by simp only [reduceCtorEq, not_false_eq_true])
  · exact absurd hu (by simp only [reduceCtorEq, not_false_eq_true])

/-- Two servers, of which the first has two addresses. -/
def twoAddresses : RequestEvent :=
  .answer 0 [⟨1, ['h'], 1, .srv 2 0 5062 ['y']⟩, ⟨2, ['h'], 1, .srv 1 0 5061 ['x']⟩]
    [⟨3, ['x'], 1, .a 10⟩, ⟨4, ['y'], 1, .a 11⟩, ⟨5, ['x'], 1, .a 12⟩] someOracle

/-- What the stack says to a request that no address takes, each time
    something else. -/
def refusals : Oracle := ⟨fun k _ _ => k + 110, 0, 0⟩

/-- After 503 from the first address of the first server its second address is
    tried, and then the second server. -/
theorem failover_tries_all_refused :
    ∃ r t u req, sipRequest someSup true true someRoute 0 someOracle = .ok r ∧
      exec (requestStep someSup) (RequestRun.new r) [twoAddresses] = some t ∧ t.req = some req ∧
      requestStep someSup t (.outcome 0 (some 503) refusals) = some u ∧ u.req = none ∧
      req.addrl = [⟨5, ['x'], 1, .a 12⟩] ∧ servers u.outs = servers t.outs ++ req.srvl ∧
      ∀ i rr, req.addrl[i]? = some rr → refusals.send i rr req.port ≠ 0 :=
  ⟨_, _, _, _, rfl, rfl, rfl, rfl, by decide +kernel, rfl, failover_tries_all someSup true true
    someRoute 0 someOracle _ [twoAddresses] _ _ _ 0 (some 503) refusals rfl rfl rfl rfl
    (Or.inr rfl) rfl rfl (Or.inl rfl) rfl (by decide +kernel)⟩

end SipRequest

end SipPerf
