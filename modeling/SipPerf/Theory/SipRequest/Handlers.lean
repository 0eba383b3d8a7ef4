import SipPerf.Theory.SipRequest.Next

/-!
# Answers and Outcomes

What comes of an answer to a lookup and of the outcome of a transaction. The
handlers differ in what they collect and in what they look up next, but all of
them come to the same four ends, which are those of `Goes`. The servers are
collected once, in order, before the first of them is taken, and until then
the lookups go down the transports.

## Main definitions

* `InOrder`: The order in which servers are tried.
* `Goes`: What the handlers come to.
* `Readied`: A request when its servers have been collected.

## Theorems

* `nexts_goes`, `settle_goes`: The end of a handler that has tried the next
  address.
* `naptrHandler_goes`, `srvHandler_goes`, `addrHandler_goes`: The answers.
* `outcomeHandler_goes`: The outcome of a transaction.
-/

namespace SipPerf

namespace SipRequest

open Dns

/-- Servers that are tried in order, each once. -/
def InOrder (rrl : List DnsRr) : Prop :=
  rrl.Nodup ∧ rrl.Pairwise (fun rr1 rr2 => SameName rr1 rr2 → Before rr1 rr2)

/-- What the handlers of answers and outcomes come to. `left` is how many more
    answers there can be, and `early` whether the servers were looked for. -/
inductive Goes (early : Prop) (req : Request) (left : Nat) :
    Option Request × List RequestOut → Prop where
  | looks (taken : List DnsRr) (req' : Request) (hm : Moved req taken req') (hl : Looking req')
      (hearly : Early req' → early ∧ taken = [])
      (hleft : remaining req' ≤ left + 2 * taken.length) :
      Goes early req left (some req', taken.map .server)
  | calls (taken : List DnsRr) (req' : Request) (rr : DnsRr) (hm : Moved req taken req')
      (hc : Calling req') (hprov : req'.provrecv = false) :
      Goes early req left
        (some req', taken.map .server ++ [.send req'.tp (some rr) req'.port])
  | fails (taken rest : List DnsRr) (err : Nat) (scode : Option Nat)
      (hrest : req.srvl = taken ++ rest) :
      Goes early req left
        (none, taken.map .server ++ if req.resph then [.final err scode] else [])
  | done (taken rest : List DnsRr) (sent : List RequestOut) (hstate : req.stateful = false)
      (hsent : sent = [] ∨
        ∃ tp rr, sent = [.send tp (some rr) ((taken.getLast?.map srvPort).getD req.port)])
      (hrest : req.srvl = taken ++ rest) :
      Goes early req left (none, taken.map .server ++ sent)

/-- A request with state after it has looked for the next address. -/
theorem nexts_goes {sup : Supported} {o : Oracle} {k : Nat} (early : Prop) (req : Request)
    (left : Nat) (r : Nat × Request × List RequestOut) (h : Nexts sup o k req r) :
    (r.1 = 0 → req.stateful = true → Goes early req left (some r.2.1, r.2.2)) ∧
      ∀ scode, r.1 ≠ 0 → Goes early req left
        (none, r.2.2 ++ if r.2.1.resph then [.final r.1 scode] else []) := by
  cases h with
  | sent taken req' rr hm hct hdnsq hdnsq2 hprov =>
      refine ⟨fun _ hstate => ?_, fun _ hne => absurd rfl hne⟩
      exact Goes.calls taken req' rr hm
        ⟨hct.trans hstate, hm.stateful.trans hstate, hdnsq, hdnsq2⟩ hprov
  | looks taken req' hm hct hq hpending htaken =>
      refine ⟨fun _ _ => ?_, fun _ hne => absurd rfl hne⟩
      have hnot : ¬ Early req' := by
        rintro (he | he) <;> rw [he] at hq <;> exact absurd hq (by decide)
      refine Goes.looks taken req' hm ⟨hct, hpending, fun he => absurd he hnot⟩
        (fun he => absurd he hnot) ?_
      have hpos := List.length_pos_iff.mpr htaken
      have htwo := Bool.toNat_le req'.dnsq2
      rcases hq with hq | hq <;> simp only [remaining, hq] <;> omega
  | fails taken req' err hm herr =>
      refine ⟨fun he => absurd he herr, fun scode _ => ?_⟩
      simp only [hm.resph]
      exact Goes.fails taken req'.srvl err scode hm.srvl

theorem settle_goes {sup : Supported} {o : Oracle} {k : Nat} (early : Prop) (req : Request)
    (left : Nat) (r : Nat × Request × List RequestOut) (h : Nexts sup o k req r) :
    Goes early req left (settle r) := by
  have hgoes := nexts_goes early req left r h
  rw [settle]
  by_cases herr : r.1 = 0
  · rw [if_neg (not_not_intro herr)]
    -- A request without state has nothing more to wait for.
    have hstate : r.2.1.stateful = req.stateful := by
      cases h with
      | sent taken req' rr hm _ _ _ _ => exact hm.stateful
      | looks taken req' hm _ _ _ _ => exact hm.stateful
      | fails taken req' err hm _ => exact hm.stateful
    rw [hstate]
    by_cases hs : req.stateful = true
    · rw [if_pos hs]
      exact hgoes.1 herr hs
    · rw [if_neg hs]
      simp only [terminate, Bool.false_eq_true, if_false, List.append_nil]
      have hs' := (Bool.not_eq_true _).mp hs
      cases h with
      | sent taken req' rr hm _ _ _ _ =>
          refine Goes.done taken req'.srvl _ hs' (Or.inr ⟨req'.tp, rr, ?_⟩) hm.srvl
          rw [← hm.port]
      | looks taken req' hm _ _ _ _ =>
          rw [← List.append_nil (taken.map RequestOut.server)]
          exact Goes.done taken req'.srvl [] hs' (Or.inl rfl) hm.srvl
      | fails taken req' err hm herr' => exact absurd herr herr'
  · rw [if_pos herr]
    exact hgoes.2 none herr

/-- A lookup of addresses. -/
theorem lookedUp_addr (early : Prop) (sup : Supported) (req : Request) (o : Oracle) (left : Nat)
    (h : Idle req) (hleft : 2 ≤ left) :
    Goes early req left (lookedUp (addrLookup sup req o)) := by
  rcases addrLookup_spec sup req o h with ⟨q, q2, hr, hq, hpending, _⟩
  rw [lookedUp, hr]
  split
  · next herr =>
      have hnot : ¬ Early { req with dnsq := q, dnsq2 := q2 } := by
        rintro (he | he) <;> rw [show q = _ from he] at hq <;> exact absurd hq (by decide)
      refine Goes.looks [] _ (moved_pending req _ _)
        ⟨h.ct, hpending herr, fun he => absurd he hnot⟩ (fun he => absurd he hnot) ?_
      have htwo := Bool.toNat_le q2
      rcases hq with hq | hq <;> simp only [remaining, hq] <;> omega
  · exact Goes.fails [] req.srvl _ none rfl

/-- A lookup of servers. -/
theorem lookedUp_srv (early : Prop) (req : Request) (o : Oracle) (left : Nat) (hearly : early)
    (h : Idle req) (hsrvl : req.srvl = [])
    (hleft : (if req.tpSelected then 0 else req.tp.toNat) + 3 ≤ left) :
    Goes early req left (lookedUp (srvLookup req o)) := by
  rw [lookedUp, srvLookup]
  by_cases hq : o.query = 0
  · rw [if_pos hq, if_pos rfl]
    refine Goes.looks [] _ (moved_pending req _ _)
      ⟨h.ct, Or.inl rfl, fun _ => ⟨h.dnsq2, hsrvl⟩⟩ (fun _ => ⟨hearly, rfl⟩) ?_
    simp only [remaining, h.dnsq2, Bool.toNat_false]
    omega
  · rw [if_neg hq, if_neg hq]
    exact Goes.fails [] req.srvl _ none rfl

theorem requestNext_goes (early : Prop) (sup : Supported) (o : Oracle) (req : Request) (left : Nat)
    (h : Idle req) : Goes early req left (settle (requestNext sup o req)) :=
  settle_goes early req left _ (nextFrom_nexts sup o req.srvl 0 req h rfl)

/-- The request that a handler goes on with. -/
structure Readied (early : Prop) (req ready : Request) : Prop where
  resph : ready.resph = req.resph
  stateful : ready.stateful = req.stateful
  canceled : ready.canceled = req.canceled
  typed : Typed req → Typed ready
  servers : (ready.srvl = req.srvl ∧ ready.port = req.port) ∨ early ∧ InOrder ready.srvl

/-- Which lookups the request waited for does not matter to the handler. -/
theorem Readied.of_pending {early : Prop} {req ready : Request} {q : Option Query} {q2 : Bool}
    (h : Readied early { req with dnsq := q, dnsq2 := q2 } ready) : Readied early req ready :=
  ⟨h.resph, h.stateful, h.canceled, fun ht => h.typed ⟨ht.srvl, ht.addrl⟩, h.servers⟩

theorem inOrder_of_orderly {rrl lst : List DnsRr} (h : Orderly rrl lst) : InOrder lst := by
  refine ⟨h.nodup, List.Pairwise.imp ?_ h.ordered⟩
  intro rr1 rr2 hle hsame
  exact before_of_sorted rr1 rr2 (hle hsame)

theorem transpNextSrv_spec (sup : Supported) (tp tp' : Int) (h : transpNextSrv sup tp = some tp') :
    0 ≤ tp' ∧ tp' ≤ 2 ∧ tp' < tp := by
  have hmem := List.mem_filter.mp (List.mem_of_find?_eq_some h)
  have hlt := of_decide_eq_true hmem.2
  simp only [List.mem_cons, List.not_mem_nil, or_false] at hmem
  omega

theorem naptrHandler_goes (sup : Supported) (req : Request) (ansl addl : List DnsRr) (o : Oracle)
    (h : Idle req) (hsrvl : req.srvl = []) :
    ∃ ready, Readied True req ready ∧ Goes True ready 5 (naptrHandler sup req ansl addl o) := by
  rw [naptrHandler]
  simp only
  split
  · -- No transport is named, and the best one is tried.
    split
    · exact ⟨_, ⟨rfl, rfl, rfl, fun ht => ⟨ht.srvl, ht.addrl⟩, Or.inl ⟨rfl, rfl⟩⟩,
        Goes.fails [] req.srvl _ none rfl⟩
    · next tp htp =>
        have hbound := transpNextSrv_spec sup transpc tp htp
        refine ⟨{ req with tp := tp },
          ⟨rfl, rfl, rfl, fun ht => ⟨ht.srvl, ht.addrl⟩, Or.inl ⟨rfl, rfl⟩⟩,
          lookedUp_srv True _ o 5 trivial ⟨h.ct, h.dnsq, h.dnsq2⟩ hsrvl ?_⟩
        simp only
        split <;> omega
  · next tp replace _ =>
      rw [hsrvl]
      split
      · next hnone =>
          rw [hnone]
          exact ⟨{ req with tp := tp, tpSelected := true, srvl := [] },
            ⟨rfl, rfl, rfl, fun ht => ⟨fun _ hrr => absurd hrr List.not_mem_nil, ht.addrl⟩,
              Or.inr ⟨trivial, List.nodup_nil, List.Pairwise.nil⟩⟩,
            lookedUp_srv True _ o 5 trivial ⟨h.ct, h.dnsq, h.dnsq2⟩ rfl (Nat.le_add_right 3 2)⟩
      · refine ⟨_, ?_, requestNext_goes True sup o _ 5 ⟨h.ct, h.dnsq, h.dnsq2⟩⟩
        have horderly := servers_of_name addl replace
        exact ⟨rfl, rfl, rfl, fun ht => ⟨fun rr hrr => (horderly.sub rr hrr).2, ht.addrl⟩,
          Or.inr ⟨trivial, inOrder_of_orderly horderly⟩⟩

theorem srvHandler_goes (sup : Supported) (req : Request) (ansl addl : List DnsRr) (o : Oracle)
    (h : Idle req) (hsrvl : req.srvl = []) :
    ∃ ready, Readied True req ready ∧
      Goes True ready ((if req.tpSelected then 0 else req.tp.toNat) + 2)
        (srvHandler sup req ansl addl o) := by
  rw [srvHandler, hsrvl]
  by_cases hnone : appendAll (dnsRrlistSort ansl .srv) none .srv .srv false [] = []
  · have hfirst : InOrder [] := ⟨List.nodup_nil, List.Pairwise.nil⟩
    have hempty : ∀ rr ∈ ([] : List DnsRr), rr.type = .srv :=
      fun rr hrr => absurd hrr List.not_mem_nil
    simp only [hnone, if_true]
    cases hsel : req.tpSelected with
    | true =>
        simp only [if_true]
        refine ⟨_, ?_, lookedUp_addr True sup _ o _ ?_ (Nat.le_refl 2)⟩
        · exact ⟨rfl, rfl, rfl, fun ht => ⟨hempty, ht.addrl⟩, Or.inr ⟨trivial, hfirst⟩⟩
        · exact ⟨h.ct, h.dnsq, h.dnsq2⟩
    | false =>
        simp only [Bool.false_eq_true, if_false]
        split
        · next tp hnext =>
            -- The next transport is tried, which is a lower one.
            have hbound := transpNextSrv_spec sup req.tp tp hnext
            refine ⟨_, ?_, lookedUp_srv True _ o _ trivial ?_ rfl ?_⟩
            · exact ⟨rfl, rfl, rfl, fun ht => ⟨hempty, ht.addrl⟩, Or.inr ⟨trivial, hfirst⟩⟩
            · exact ⟨h.ct, h.dnsq, h.dnsq2⟩
            · simp only [Bool.false_eq_true, if_false]
              omega
        · split
          · refine ⟨_, ?_, Goes.fails [] [] _ none ?_⟩
            · exact ⟨rfl, rfl, rfl, fun ht => ⟨hempty, ht.addrl⟩, Or.inr ⟨trivial, hfirst⟩⟩
            · rfl
          · refine ⟨_, ?_, lookedUp_addr True sup _ o _ ?_ (Nat.le_add_left 2 _)⟩
            · exact ⟨rfl, rfl, rfl, fun ht => ⟨hempty, ht.addrl⟩, Or.inr ⟨trivial, hfirst⟩⟩
            · exact ⟨h.ct, h.dnsq, h.dnsq2⟩
  · simp only [hnone, if_false]
    refine ⟨_, ?_, requestNext_goes True sup o _ _ ⟨h.ct, h.dnsq, h.dnsq2⟩⟩
    have horderly := servers_of_answer ansl
    exact ⟨rfl, rfl, rfl, fun ht => ⟨fun rr hrr => (horderly.sub rr hrr).2, ht.addrl⟩,
      Or.inr ⟨trivial, inOrder_of_orderly horderly⟩⟩

/-- One of the two answers to a lookup of addresses. `req` is the request
    without the lookup that has been answered. -/
theorem addrHandler_goes (sup : Supported) (req : Request) (err : Nat) (ansl : List DnsRr)
    (o : Oracle) (hct : req.ct = false) (hearly : ¬ Early req) :
    ∃ ready, Readied False req ready ∧ Goes False ready (remaining req)
      (addrHandler sup req err ansl o) := by
  refine ⟨{ req with addrl := appendAll ansl none .a .aaaa false req.addrl },
    ⟨rfl, rfl, rfl, fun ht => ⟨ht.srvl, addrs_of_append _ _ _ _ ht.addrl⟩, Or.inl ⟨rfl, rfl⟩⟩, ?_⟩
  rw [addrHandler]
  simp only
  split
  · next hpending =>
      exact Goes.looks [] _ (moved_pending _ _ _)
        ⟨hct, hpending, fun he => absurd he hearly⟩ (fun he => absurd he hearly) (Nat.le_refl _)
  · next hpending =>
      have hidle := not_or.mp hpending
      split
      · exact Goes.fails [] _ _ none rfl
      · refine settle_goes False _ _ _ (nextFrom_nexts sup o _ 0 _ ⟨hct, ?_, ?_⟩ rfl)
        · exact Option.not_isSome_iff_eq_none.mp hidle.1
        · exact (Bool.not_eq_true _).mp hidle.2

/-- The outcome of a transaction. -/
theorem outcomeHandler_goes (sup : Supported) (req : Request) (err : Nat) (scode : Option Nat)
    (o : Oracle) (h : Calling req) :
    Goes False { req with ct := false } 0 (outcomeHandler sup req err scode o) := by
  have hgoes := nexts_goes False { req with ct := false } 0 _
    (nextFrom_nexts sup o req.srvl 0 _ ⟨rfl, h.dnsq, h.dnsq2⟩ rfl)
  rw [outcomeHandler]
  simp only
  split
  · split
    · next herr => exact hgoes.1 herr h.stateful
    · next herr => exact hgoes.2 scode herr
  · exact Goes.fails [] req.srvl err scode rfl

/-- The outcome of a transaction that was cancelled is the outcome of the
    request. -/
theorem outcomeHandler_canceled (sup : Supported) (req : Request) (err : Nat) (scode : Option Nat)
    (o : Oracle) (h : req.canceled = true) : outcomeHandler sup req err scode o =
      (none, if req.resph then [.final err scode] else []) := by
  simp only [outcomeHandler, h, Bool.true_eq_false, false_and, if_false, terminate]

end SipRequest

end SipPerf
