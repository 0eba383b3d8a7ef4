import SipPerf.Theory.SipRequest.Steps

/-!
# Servers and Lookups

What has been taken and what is left are always one list in order, since
servers are collected before any is taken and only taken from the front. Each
server that is taken allows for two more lookups, and the lookups before the
first server go down the transports.

## Main definitions

* `servers`, `PortsRight`: The servers that were taken, and where the request
  went.
* `Serves`: What holds of the servers at any time.
* `remainingRun`: The answers that can still come.

## Theorems

* `serves_goes`, `serves_step`: One event.
* `lookups_step`: An answer uses up one that could come.
-/

namespace SipPerf

namespace SipRequest

open Dns

/-! ## Servers -/

/-- The servers that a request has taken, first one first. -/
def servers (outs : List RequestOut) : List DnsRr := outs.reverse.filterMap serverOf

def latestPort (outs : List RequestOut) : Option Nat := (servers outs).getLast?.map srvPort

/-- The request is sent to the port of the server taken latest. -/
def PortsRight : List RequestOut → Prop
  | [] => True
  | out :: outs => (∀ tp rr port, out = .send tp (some rr) port → ∀ p, latestPort outs = some p →
      port = p) ∧ PortsRight outs

/-- The servers that have been taken and those that are left. -/
structure Serves (s : RequestRun) : Prop where
  order : ∀ req, s.req = some req → InOrder (servers s.outs ++ req.srvl)
  taken : InOrder (servers s.outs)
  typed : ∀ req, s.req = some req → Typed req
  early : ∀ req, s.req = some req → Early req → servers s.outs = []
  port : ∀ req, s.req = some req → ∀ p, latestPort s.outs = some p → req.port = p
  ports : PortsRight s.outs

theorem servers_append (outs outs' : List RequestOut) :
    servers (outs'.reverse ++ outs) = servers outs ++ outs'.filterMap serverOf := by
  rw [servers, servers, List.reverse_append, List.reverse_reverse, List.filterMap_append]

theorem Quiet.servers {s s' : RequestRun} (h : Quiet s s') : servers s'.outs = servers s.outs := by
  rcases h.outs with ⟨outs, houts, _, hserver⟩
  rw [houts, servers_append, hserver, List.append_nil]

theorem filterMap_servers (taken : List DnsRr) :
    (taken.map RequestOut.server).filterMap serverOf = taken := by
  induction taken with
  | nil => rfl
  | cons rr taken ih => exact congrArg (List.cons rr) ih

theorem inOrder_prefix {xs ys : List DnsRr} (h : InOrder (xs ++ ys)) : InOrder xs :=
  ⟨h.1.of_append_left, (List.pairwise_append.mp h.2).1⟩

theorem portsRight_append (outs outs' : List RequestOut) (hp : PortsRight outs)
    (hsend : outs'.countP isSend = 0) : PortsRight (outs' ++ outs) := by
  induction outs' with
  | nil => exact hp
  | cons out outs' ih =>
      rw [List.countP_eq_zero] at hsend
      refine ⟨fun tp rr port hout => ?_, ih (List.countP_eq_zero.mpr
        (fun out' hout' => hsend out' (List.mem_cons_of_mem out hout')))⟩
      exact absurd rfl (hout ▸ hsend out List.mem_cons_self)

/-- The port after some servers have been taken. -/
theorem latestPort_taken (outs : List RequestOut) (taken : List DnsRr) (q : Nat)
    (hq : ∀ p, latestPort outs = some p → q = p) (p : Nat)
    (h : (servers outs ++ taken).getLast?.map srvPort = some p) :
    (taken.getLast?.map srvPort).getD q = p := by
  rw [List.getLast?_append] at h
  cases hlast : taken.getLast? with
  | none =>
      rw [hlast, Option.none_or] at h
      exact hq p h
  | some rr =>
      rw [hlast] at h
      exact Option.some.inj h

theorem serves_goes (s : RequestRun) (early : Prop) (req ready : Request) (left : Nat)
    (r : Option Request × List RequestOut) (hv : Serves s) (hs : s.req = some req)
    (hearly : early → Early req) (hready : Readied early req ready)
    (hgoes : Goes early ready left r) : Serves (s.after r) := by
  -- The servers that the handler goes on with, behind those taken before.
  have horder : InOrder (servers s.outs ++ ready.srvl) := by
    rcases hready.servers with ⟨hsrvl, _⟩ | ⟨he, hin⟩
    · rw [hsrvl]
      exact hv.order req hs
    · rw [hv.early req hs (hearly he), List.nil_append]
      exact hin
  have hport : ∀ p, latestPort s.outs = some p → ready.port = p := by
    intro p hp
    rcases hready.servers with ⟨_, hsame⟩ | ⟨he, _⟩
    · rw [hsame]
      exact hv.port req hs p hp
    · rw [latestPort, hv.early req hs (hearly he)] at hp
      exact absurd hp (by simp only [List.getLast?_nil, Option.map_none, reduceCtorEq,
        not_false_eq_true])
  have htaken : ∀ (taken : List DnsRr) (outs : List RequestOut), outs.filterMap serverOf = [] →
      servers ((taken.map RequestOut.server ++ outs).reverse ++ s.outs) =
        servers s.outs ++ taken := by
    intro taken outs houts
    rw [servers_append, List.filterMap_append, filterMap_servers, houts, List.append_nil]
  have hsome : ∀ taken : List DnsRr,
      PortsRight ((taken.map RequestOut.server ++ []).reverse ++ s.outs) := by
    intro taken
    refine portsRight_append s.outs _ hv.ports ?_
    rw [List.append_nil, List.countP_reverse, countP_servers isSend (fun _ => rfl) taken]
  have hsent : ∀ (taken : List DnsRr) (tp : Int) (rr : DnsRr) (port : Nat),
      port = (taken.getLast?.map srvPort).getD ready.port →
      PortsRight ((taken.map RequestOut.server ++ [RequestOut.send tp (some rr) port]).reverse ++
        s.outs) := by
    intro taken tp rr port hp
    have hbefore := hsome taken
    have hservers := htaken taken [] rfl
    rw [List.append_nil] at hbefore hservers
    rw [List.reverse_append, List.append_assoc]
    refine ⟨fun tp' rr' port' hout p hlatest => ?_, hbefore⟩
    rw [RequestOut.send.injEq] at hout
    rw [← hout.2.2, hp]
    refine latestPort_taken s.outs taken ready.port hport p ?_
    rw [← hservers]
    exact hlatest
  -- The request is gone, or goes on with the rest of the servers.
  have hgo : ∀ (req' : Option Request) (taken rest : List DnsRr) (outs : List RequestOut),
      outs.filterMap serverOf = [] → ready.srvl = taken ++ rest →
      PortsRight ((taken.map RequestOut.server ++ outs).reverse ++ s.outs) →
      (∀ req1, req' = some req1 → Moved ready taken req1 ∧ (Early req1 → early ∧ taken = [])) →
      Serves (s.after (req', taken.map RequestOut.server ++ outs)) := by
    intro req' taken rest outs houts hrest hports hmoved
    have hservers := htaken taken outs houts
    refine ⟨fun req1 h1 => ?_, ?_, fun req1 h1 => ?_, fun req1 h1 he => ?_, fun req1 h1 p hp => ?_,
      hports⟩
    · rw [RequestRun.after, hservers, List.append_assoc, ← (hmoved req1 h1).1.srvl]
      exact horder
    · rw [RequestRun.after, hservers]
      rw [hrest, ← List.append_assoc] at horder
      exact inOrder_prefix horder
    · exact (hmoved req1 h1).1.typed (hready.typed (hv.typed req hs))
    · have hboth := (hmoved req1 h1).2 he
      rw [RequestRun.after, hservers, hboth.2, List.append_nil]
      exact hv.early req hs (hearly hboth.1)
    · rw [RequestRun.after, latestPort, hservers] at hp
      rw [(hmoved req1 h1).1.port]
      exact latestPort_taken s.outs taken ready.port hport p hp
  have hnone : ∀ req1 : Request, none = some req1 → False :=
    fun req1 h1 => absurd h1 (Option.some_ne_none req1).symm
  cases hgoes with
  | looks taken req' hm hl hearly' _ =>
      rw [← List.append_nil (taken.map RequestOut.server)]
      exact hgo (some req') taken req'.srvl [] rfl hm.srvl (hsome taken)
        (fun req1 h1 => Option.some.inj h1 ▸ ⟨hm, hearly'⟩)
  | calls taken req' rr hm hc _ =>
      refine hgo (some req') taken req'.srvl _ rfl hm.srvl (hsent taken _ rr _ hm.port)
        (fun req1 h1 => Option.some.inj h1 ▸ ⟨hm, fun he => ?_⟩)
      rcases he with he | he <;> exact absurd (he.symm.trans hc.dnsq) (Option.some_ne_none _)
  | fails taken rest err scode hrest =>
      refine hgo none taken rest _ ?_ hrest ?_ (fun req1 h1 => (hnone req1 h1).elim)
      · split <;> rfl
      · refine portsRight_append s.outs _ hv.ports ?_
        rw [List.countP_reverse, List.countP_append, countP_servers isSend (fun _ => rfl) taken]
        split <;> rfl
  | done taken rest sent hst hsent' hrest =>
      rcases hsent' with hsent' | ⟨tp, rr, hsent'⟩
      · rw [hsent']
        exact hgo none taken rest [] rfl hrest (hsome taken) (fun req1 h1 => (hnone req1 h1).elim)
      · rw [hsent']
        exact hgo none taken rest _ rfl hrest (hsent taken tp rr _ rfl)
          (fun req1 h1 => (hnone req1 h1).elim)

theorem serves_step (s s' : RequestRun) (e : RequestEvent) (hv : Serves s) (h : Moves s e s') :
    Serves s' := by
  cases h with
  | goes req ready r left early hs hearly hready hgoes hleft hcalm =>
      exact serves_goes s early req ready left r hv hs hearly hready hgoes
  | hears _ hh _ =>
      have hquiet := hears_quiet s s' hh
      have hservers := hquiet.servers
      rcases hquiet.outs with ⟨outs, houts, hsend, _⟩
      refine ⟨fun req' h' => ?_, ?_, fun req' h' => ?_, fun req' h' he => ?_,
        fun req' h' p hp => ?_, ?_⟩
      · rcases hquiet.stays req' h' with ⟨req, hs, hst⟩
        rw [hservers, hst.srvl]
        exact hv.order req hs
      · rw [hservers]
        exact hv.taken
      · rcases hquiet.stays req' h' with ⟨req, hs, hst⟩
        have ht := hv.typed req hs
        exact ⟨fun rr hrr => ht.srvl rr (hst.srvl ▸ hrr),
          fun rr hrr => ht.addrl rr (hst.addrl ▸ hrr)⟩
      · rcases hquiet.stays req' h' with ⟨req, hs, hst⟩
        rw [Early, hst.dnsq] at he
        rw [hservers]
        exact hv.early req hs he
      · rcases hquiet.stays req' h' with ⟨req, hs, hst⟩
        rw [latestPort, hservers] at hp
        rw [hst.port]
        exact hv.port req hs p hp
      · rw [houts]
        exact portsRight_append s.outs _ hv.ports (by rw [List.countP_reverse, hsend])

/-! ## Lookups -/

/-- The answers that can still come. -/
def remainingRun (s : RequestRun) : Nat :=
  match s.req with
  | some req => remaining req
  | none => 0

theorem lookups_step (s s' : RequestRun) (e : RequestEvent) (h : Moves s e s') :
    (isAnswer e).toNat + remainingRun s' + 2 * (servers s.outs).length ≤
      remainingRun s + 2 * (servers s'.outs).length := by
  cases h with
  | goes req ready r left early hs hearly hready hgoes hleft hcalm =>
      have hrun : remainingRun s = remaining req := by
        rw [remainingRun, hs]
      have hlen : (servers (s.after r).outs).length =
          (servers s.outs).length + (r.2.filterMap serverOf).length := by
        rw [RequestRun.after, servers_append, List.length_append]
      have hleft' : remainingRun (s.after r) ≤ left + 2 * (r.2.filterMap serverOf).length := by
        cases hgoes with
        | looks taken req' hm hl _ hbound =>
            rw [filterMap_servers]
            exact hbound
        | calls taken req' rr hm hc _ =>
            simp only [remainingRun, RequestRun.after, remaining, hc.dnsq, hc.dnsq2,
              Bool.toNat_false]
            omega
        | fails taken rest err scode hrest => exact Nat.zero_le _
        | done taken rest sent hst hsent hrest => exact Nat.zero_le _
      omega
  | hears _ hh hans =>
      have hquiet := hears_quiet s s' hh
      have hservers := hquiet.servers
      have hrun : remainingRun s' ≤ remainingRun s := by
        rw [remainingRun, remainingRun]
        cases hreq' : s'.req with
        | none => exact Nat.zero_le _
        | some req' =>
            rcases hquiet.stays req' hreq' with ⟨req, hs, hst⟩
            rw [hs]
            simp only [remaining, hst.dnsq, hst.dnsq2, hst.tp, hst.tpSelected]
            exact Nat.le_refl _
      rw [hans, hservers, Bool.toNat_false]
      omega

end SipRequest

end SipPerf
