import SipPerf.Core.SipRequest
import SipPerf.Theory.Dns

/-!
# The Next Address

The loop of `request_next` goes through addresses and servers, and leaves the
request sent, or looking for the addresses of the server it has come to, or
without anything left. Servers are only taken from the front, so the ones
taken and the ones left are together the list there was.

Each address is tried once. The stack may answer every try differently, so
tries are told apart by how many went before in the same event.

## Main definitions

* `Idle`, `Looking`, `Calling`: What a request waits for.
* `remaining`: The answers that can still come.
* `Moved`: A request after it has taken servers.
* `Refused`: No address takes the request.
* `Tries`, `Nexts`: What comes of the next address.

## Theorems

* `tryAddrs_tries`: The loop over the addresses of one server.
* `addrLookup_spec`: The lookup of more addresses.
* `nextFrom_nexts`: The loop over servers.
-/

namespace SipPerf

namespace SipRequest

open Dns

/-! ## What is under way -/

/-- Nothing that a request waits for is under way. -/
structure Idle (req : Request) : Prop where
  ct : req.ct = false
  dnsq : req.dnsq = none
  dnsq2 : req.dnsq2 = false

/-- The servers are still looked for. -/
def Early (req : Request) : Prop := req.dnsq = some .naptr ∨ req.dnsq = some .srv

/-- Lookups are under way, and no transaction is. -/
structure Looking (req : Request) : Prop where
  ct : req.ct = false
  pending : req.dnsq.isSome = true ∨ req.dnsq2 = true
  early : Early req → req.dnsq2 = false ∧ req.srvl = []

/-- A transaction is under way, and no lookups are. -/
structure Calling (req : Request) : Prop where
  ct : req.ct = true
  stateful : req.stateful = true
  dnsq : req.dnsq = none
  dnsq2 : req.dnsq2 = false

/-- How many answers to lookups can still come before a server is taken or the
    request is sent. -/
def remaining (req : Request) : Nat :=
  (match req.dnsq with
    | none => 0
    -- It leaves at most the three transports, and two lookups of addresses.
    | some .naptr => 6
    | some .srv => (if req.tpSelected then 0 else req.tp.toNat) + 3
    | some .addr => 1) + req.dnsq2.toNat

/-- The records that are left are servers and addresses. -/
structure Typed (req : Request) : Prop where
  srvl : ∀ rr ∈ req.srvl, rr.type = .srv
  addrl : ∀ rr ∈ req.addrl, IsAddr rr

def srvPort (rr : DnsRr) : Nat :=
  match rr.rdata with
  | .srv _ _ port _ => port
  | _ => 0

/-- A request that goes on after it has taken servers. -/
structure Moved (req : Request) (taken : List DnsRr) (req' : Request) : Prop where
  reqp : req'.reqp = req.reqp
  resph : req'.resph = req.resph
  stateful : req'.stateful = req.stateful
  canceled : req'.canceled = req.canceled
  tp : req'.tp = req.tp
  typed : Typed req → Typed req'
  srvl : req.srvl = taken ++ req'.srvl
  port : req'.port = (taken.getLast?.map srvPort).getD req.port

theorem moved_pending (req : Request) (q : Option Query) (q2 : Bool) :
    Moved req [] { req with dnsq := q, dnsq2 := q2 } :=
  ⟨rfl, rfl, rfl, rfl, rfl, fun h => ⟨h.srvl, h.addrl⟩, rfl, rfl⟩

theorem takeServer_typed (req : Request) (rr : DnsRr) (port : Nat) (target : Name)
    (rest : List DnsRr) (h : Typed req) (hrest : req.srvl = rr :: rest) :
    Typed (takeServer req port target rest) :=
  ⟨fun rr' hrr' => h.srvl rr' (hrest ▸ List.mem_cons_of_mem rr hrr'),
    addrs_of_append _ _ _ _ h.addrl⟩

/-- A server is taken, and then others. -/
theorem Moved.take {req req1 req' : Request} {rr : DnsRr} {target : Name} {rest taken : List DnsRr}
    (h : Moved req [] req1) (hrest : req1.srvl = rr :: rest)
    (h' : Moved (takeServer req1 (srvPort rr) target rest) taken req') :
    Moved req (rr :: taken) req' := by
  refine ⟨h'.reqp.trans h.reqp, h'.resph.trans h.resph, h'.stateful.trans h.stateful,
    h'.canceled.trans h.canceled, h'.tp.trans h.tp,
    fun ht => h'.typed (takeServer_typed req1 rr _ target rest (h.typed ht) hrest), ?_, ?_⟩
  · have hsrvl : rest = taken ++ req'.srvl := h'.srvl
    rw [h.srvl, List.nil_append, hrest, List.cons_append, ← hsrvl]
  · rw [h'.port, List.getLast?_cons, Option.map_some, Option.getD_some]
    cases taken.getLast? with
    | none => rfl
    | some last => rfl

/-! ## The next address -/

/-- All the addresses of a request are refused, one after the other, the first
    after `k` others. -/
def Refused (o : Oracle) (k : Nat) (req : Request) : Prop :=
  ∀ i rr, req.addrl[i]? = some rr → o.send (k + i) rr req.port ≠ 0

theorem refused_nil (o : Oracle) (k : Nat) (req : Request) (h : req.addrl = []) :
    Refused o k req := by
  intro i rr hi
  rw [h, List.getElem?_nil] at hi
  exact absurd hi (by simp only [reduceCtorEq, not_false_eq_true])

theorem refused_cons (o : Oracle) (k : Nat) (req req' : Request) (rr : DnsRr)
    (hrest : req.addrl = rr :: req'.addrl) (hport : req'.port = req.port)
    (hfirst : o.send k rr req.port ≠ 0) (h : Refused o (k + 1) req') : Refused o k req := by
  intro i rr' hi
  rw [hrest] at hi
  cases i with
  | zero =>
      rw [List.getElem?_cons_zero, Option.some.injEq] at hi
      exact hi ▸ hfirst
  | succ i =>
      rw [List.getElem?_cons_succ] at hi
      have hlater := h i rr' hi
      rw [hport, Nat.add_right_comm] at hlater
      exact hlater

/-- What comes of the addresses of a request. -/
inductive Tries (o : Oracle) (k : Nat) (req : Request) :
    Option Nat × Request × List RequestOut → Prop where
  | used (req' : Request) (hm : Moved req [] req') (hidle : Idle req') (haddrl : req'.addrl = [])
      (hall : Refused o k req) : Tries o k req (none, req', [])
  | sent (req' : Request) (rr : DnsRr) (hm : Moved req [] req') (hct : req'.ct = req.stateful)
      (hdnsq : req'.dnsq = none) (hdnsq2 : req'.dnsq2 = false) (hprov : req'.provrecv = false) :
      Tries o k req (some 0, req', [.send req'.tp (some rr) req'.port])
  | refused (req' : Request) (err : Nat) (hm : Moved req [] req') (herr : err ≠ 0)
      (hall : Typed req → Refused o k req ∧ req.srvl = []) : Tries o k req (some err, req', [])

theorem tryAddrs_tries (o : Oracle) (addrs : List DnsRr) : ∀ (k : Nat) (req : Request), Idle req →
    req.addrl = addrs → Tries o k req (tryAddrs o k addrs req) := by
  induction addrs with
  | nil =>
      intro k req h haddrl
      refine Tries.used _ ⟨rfl, rfl, rfl, rfl, rfl, fun ht => ?_, rfl, rfl⟩ ⟨h.ct, h.dnsq, h.dnsq2⟩
        rfl (refused_nil o k req haddrl)
      exact ⟨ht.srvl, fun rr hrr => absurd hrr List.not_mem_nil⟩
  | cons rr rest ih =>
      intro k req h haddrl
      -- The first address is taken off the list whatever comes of it.
      have htyped : Typed req → Typed { req with addrl := rest, provrecv := false } := fun ht =>
        ⟨ht.srvl, fun rr' hrr' => ht.addrl rr' (haddrl ▸ List.mem_cons_of_mem rr hrr')⟩
      rw [tryAddrs]
      split
      · by_cases herr : o.send k rr req.port = 0
        · simp only [herr, if_true, request]
          exact Tries.sent _ rr ⟨rfl, rfl, rfl, rfl, rfl,
            fun ht => ⟨(htyped ht).srvl, (htyped ht).addrl⟩, rfl, rfl⟩ rfl h.dnsq h.dnsq2 rfl
        · have hall := refused_cons o k req { req with addrl := rest, provrecv := false } rr haddrl
            rfl herr
          simp only [herr, if_false, request]
          -- A refusal is the last word only where nothing is left to try.
          split
          · next hlast =>
              refine Tries.refused _ _ ⟨rfl, rfl, rfl, rfl, rfl, htyped, rfl, rfl⟩ herr
                (fun _ => ⟨hall (refused_nil o (k + 1) _ hlast.1), hlast.2⟩)
          · have hnext := ih (k + 1) { req with addrl := rest, provrecv := false }
              ⟨h.ct, h.dnsq, h.dnsq2⟩ rfl
            have hmoved : ∀ req', Moved { req with addrl := rest, provrecv := false } [] req' →
                Moved req [] req' := fun req' hm => ⟨hm.reqp, hm.resph, hm.stateful, hm.canceled,
              hm.tp, fun ht => hm.typed (htyped ht), hm.srvl, hm.port⟩
            generalize tryAddrs o (k + 1) rest { req with addrl := rest, provrecv := false } = r
              at hnext ⊢
            cases hnext with
            | used req' hm hidle haddrl' hrest =>
                exact Tries.used req' (hmoved req' hm) hidle haddrl' (hall hrest)
            | sent req' rr' hm hct hdnsq hdnsq2 hprov =>
                exact Tries.sent req' rr' (hmoved req' hm) hct hdnsq hdnsq2 hprov
            | refused req' err hm herr' hrest =>
                exact Tries.refused req' err (hmoved req' hm) herr' (fun ht =>
                  ⟨hall (hrest (htyped ht)).1, (hrest (htyped ht)).2⟩)
      · next hno =>
          refine Tries.refused _ _ ⟨rfl, rfl, rfl, rfl, rfl, fun ht => ?_, rfl, rfl⟩ (by decide)
            (fun ht => ?_)
          · exact ⟨ht.srvl, fun rr' hrr' => ht.addrl rr' (haddrl ▸ hrr')⟩
          · exact absurd (ht.addrl rr (haddrl ▸ List.mem_cons_self)) hno

/-- What comes of a lookup of addresses. -/
theorem addrLookup_spec (sup : Supported) (req : Request) (o : Oracle) (h : Idle req) :
    ∃ q q2, (addrLookup sup req o).1 = { req with dnsq := q, dnsq2 := q2 } ∧
      (q = none ∨ q = some .addr) ∧
      ((addrLookup sup req o).2 = 0 → q.isSome = true ∨ q2 = true) ∧
      (o.query = 0 → o.query2 = 0 → sup req.tp .inet = true ∨ sup req.tp .inet6 = true →
        (addrLookup sup req o).2 = 0) := by
  have hsame : req = { req with dnsq := none, dnsq2 := false } := by
    rw [← h.dnsq, ← h.dnsq2]
  have hsame' : ∀ q, { req with dnsq := q } = { req with dnsq := q, dnsq2 := false } := by
    intro q
    rw [← h.dnsq2]
  rw [addrLookup]
  by_cases h4 : sup req.tp .inet = true
  · by_cases hq : o.query = 0
    · simp only [h4, hq, ne_eq, not_true_eq_false, and_false, if_false, if_true]
      by_cases h6 : sup req.tp .inet6 = true
      · by_cases hq2 : o.query2 = 0
        · simp only [h6, hq2, not_true_eq_false, and_false, if_false, if_true, reduceCtorEq]
          exact ⟨_, _, rfl, Or.inr rfl, fun _ => Or.inl rfl, fun _ _ _ => trivial⟩
        · simp only [h6, hq2, not_false_eq_true, and_self, if_true]
          exact ⟨_, _, hsame' _, Or.inr rfl, fun he => he.elim, fun _ he => he.elim⟩
      · simp only [h6, Bool.false_eq_true, false_and, if_false, reduceCtorEq]
        exact ⟨_, _, hsame' _, Or.inr rfl, fun _ => Or.inl rfl, fun _ _ _ => trivial⟩
    · simp only [h4, hq, ne_eq, not_false_eq_true, and_self, if_true]
      exact ⟨_, _, hsame, Or.inl rfl, fun he => he.elim, fun he => he.elim⟩
  · simp only [h4, Bool.false_eq_true, false_and, if_false]
    by_cases h6 : sup req.tp .inet6 = true
    · by_cases hq2 : o.query2 = 0
      · simp only [h6, hq2, ne_eq, not_true_eq_false, and_false, if_false, if_true,
          Bool.true_eq_false]
        exact ⟨_, true, rfl, Or.inl h.dnsq, fun _ => Or.inr rfl, fun _ _ _ => trivial⟩
      · simp only [h6, hq2, ne_eq, not_false_eq_true, and_self, if_true]
        exact ⟨_, _, hsame, Or.inl rfl, fun he => he.elim, fun _ he => he.elim⟩
    · simp only [h6, Bool.false_eq_true, false_and, if_false, h.dnsq, h.dnsq2, and_self, if_true]
      exact ⟨_, _, rfl, Or.inl h.dnsq, fun he => absurd he (by decide),
        fun _ _ he => he.elim False.elim False.elim⟩

/-- What `request_next` comes to. If the stack takes every lookup, it fails
    only when all addresses are refused and no server is left. -/
inductive Nexts (sup : Supported) (o : Oracle) (k : Nat) (req : Request) :
    Nat × Request × List RequestOut → Prop where
  | sent (taken : List DnsRr) (req' : Request) (rr : DnsRr) (hm : Moved req taken req')
      (hct : req'.ct = req.stateful) (hdnsq : req'.dnsq = none) (hdnsq2 : req'.dnsq2 = false)
      (hprov : req'.provrecv = false) :
      Nexts sup o k req (0, req', taken.map .server ++ [.send req'.tp (some rr) req'.port])
  | looks (taken : List DnsRr) (req' : Request) (hm : Moved req taken req') (hct : req'.ct = false)
      (hq : req'.dnsq = none ∨ req'.dnsq = some .addr)
      (hpending : req'.dnsq.isSome = true ∨ req'.dnsq2 = true) (htaken : taken ≠ []) :
      Nexts sup o k req (0, req', taken.map .server)
  | fails (taken : List DnsRr) (req' : Request) (err : Nat) (hm : Moved req taken req')
      (herr : err ≠ 0) (hall : Typed req → o.query = 0 → o.query2 = 0 →
        sup req.tp .inet = true ∨ sup req.tp .inet6 = true → Refused o k req ∧ req'.srvl = []) :
      Nexts sup o k req (err, req', taken.map .server)

/-- What comes first is the addresses. -/
theorem nexts_of_tries (sup : Supported) (o : Oracle) (k : Nat) (req req' : Request) (err : Nat)
    (outs : List RequestOut) (h : Tries o k req (some err, req', outs)) :
    Nexts sup o k req (err, req', outs) := by
  cases h with
  | sent _ rr hm hct hdnsq hdnsq2 hprov => exact Nexts.sent [] req' rr hm hct hdnsq hdnsq2 hprov
  | refused _ _ hm herr hall =>
      refine Nexts.fails [] req' err hm herr (fun ht _ _ _ => ⟨(hall ht).1, ?_⟩)
      rw [← (hall ht).2, hm.srvl, List.nil_append]

theorem nextFrom_nexts (sup : Supported) (o : Oracle) (servers : List DnsRr) :
    ∀ (k : Nat) (req : Request), Idle req → req.srvl = servers →
      Nexts sup o k req (nextFrom sup o k servers req) := by
  induction servers with
  | nil =>
      intro k req h hs
      have ht := tryAddrs_tries o req.addrl k req h rfl
      rw [nextFrom]
      generalize tryAddrs o k req.addrl req = r at ht ⊢
      rcases r with ⟨res, req1, outs⟩
      cases res with
      | some err => exact nexts_of_tries sup o k req req1 err outs ht
      | none =>
          cases ht with
          | used _ hm _ _ hall =>
              refine Nexts.fails [] req1 enoent hm (by decide) (fun _ _ _ _ => ⟨hall, ?_⟩)
              rw [← hs, hm.srvl, List.nil_append]
  | cons rr rest ih =>
      intro k req h hs
      have ht := tryAddrs_tries o req.addrl k req h rfl
      rw [nextFrom]
      generalize tryAddrs o k req.addrl req = r at ht ⊢
      rcases r with ⟨res, req1, outs⟩
      cases res with
      | some err => exact nexts_of_tries sup o k req req1 err outs ht
      | none =>
          cases ht with
          | used _ hm hidle haddrl hall =>
              have hs1 : req1.srvl = rr :: rest := by
                rw [← hs, hm.srvl, List.nil_append]
              simp only
              split
              · rename_i pri weight port target hd
                have hport : srvPort rr = port := by
                  rw [srvPort, hd]
                have hidle' : Idle (takeServer req1 port target rest) :=
                  ⟨hidle.ct, hidle.dnsq, hidle.dnsq2⟩
                have htake : ∀ taken req', Moved (takeServer req1 port target rest) taken req' →
                    Moved req (rr :: taken) req' :=
                  fun taken req' hm' => hm.take hs1 (hport ▸ hm')
                have htyped : Typed req → Typed (takeServer req1 port target rest) := fun hty =>
                  takeServer_typed req1 rr port target rest (hm.typed hty) hs1
                have htp : (takeServer req1 port target rest).tp = req.tp := hm.tp
                split
                -- No address came with the server, and they are looked up.
                · rcases addrLookup_spec sup _ o hidle' with ⟨q, q2, hr, hq, hpending, htaken⟩
                  have hm' := htake []
                    { takeServer req1 port target rest with dnsq := q, dnsq2 := q2 }
                    (moved_pending _ q q2)
                  rw [hr]
                  by_cases herr : (addrLookup sup (takeServer req1 port target rest) o).2 = 0
                  · rw [herr]
                    exact Nexts.looks [rr] _ hm' hidle.ct hq (hpending herr)
                      (List.cons_ne_nil rr [])
                  · refine Nexts.fails [rr] _ _ hm' herr (fun _ hq0 hq2 hsup => ?_)
                    exact absurd (htaken hq0 hq2 (htp ▸ hsup)) herr
                -- `goto again`, with the addresses that came with the server.
                · have hnext := ih (k + req.addrl.length) _ hidle' rfl
                  generalize nextFrom sup o (k + req.addrl.length) rest
                    (takeServer req1 port target rest) = r at hnext ⊢
                  cases hnext with
                  | sent taken req' rr' hm' hct hdnsq hdnsq2 hprov =>
                      exact Nexts.sent (rr :: taken) req' rr' (htake taken req' hm')
                        (hct.trans hm.stateful) hdnsq hdnsq2 hprov
                  | looks taken req' hm' hct hq hpending _ =>
                      exact Nexts.looks (rr :: taken) req' (htake taken req' hm') hct hq
                        hpending (List.cons_ne_nil rr taken)
                  | fails taken req' err hm' herr hall' =>
                      refine Nexts.fails (rr :: taken) req' err (htake taken req' hm') herr
                        (fun hty hq0 hq2 hsup => ⟨hall, ?_⟩)
                      exact (hall' (htyped hty) hq0 hq2 (htp ▸ hsup)).2
              · next hno =>
                  refine Nexts.fails [] req1 einval hm (by decide) (fun hty _ _ _ => ?_)
                  -- A server that is left is one.
                  have hsrv := (hm.typed hty).srvl rr (hs1 ▸ List.mem_cons_self)
                  rw [DnsRr.type] at hsrv
                  cases hd : rr.rdata <;> rw [hd] at hsrv <;> simp only [reduceCtorEq] at hsrv
                  exact absurd hd (hno _ _ _ _)

end SipRequest

end SipPerf
