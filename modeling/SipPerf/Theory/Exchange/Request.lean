import SipPerf.Theory.Exchange.Server

/-!
# The Request of an Exchange

What the server does with a copy of the request, with the ACK of its rejection
and with everything else that can happen at its side.

## Main definitions

* `Proper`: A request that a client transaction sends over UDP.

## Theorems

* `recv_serves`, `ack_serves`: The request and its ACK.
* `reply_serves`, `timer_serves`: The user and the timers.
* `other_serves`: Everything else at the server.
-/

namespace SipPerf

namespace Exchange

open Transition Ctrans Strans

/-- A request that is neither an ACK nor a CANCEL, over UDP. -/
structure Proper (req : SipMsg) : Prop where
  met : req.cseqMet = req.met
  ack : req.met ≠ "ACK"
  cancel : req.met ≠ "CANCEL"
  unreliable : req.reliable = false

theorem cmpHandler_matches (msg : SipMsg) (st : SipStrans) (h : cmpHandler msg st = true) :
    st.msg.branch = msg.branch ∧ st.msg.cseqMet = msg.cseqMet := by
  unfold cmpHandler stransCmp at h
  grind

theorem cmpHandler_self (msg : SipMsg) (st : SipStrans) (h : st.msg = msg) :
    cmpHandler msg st = true := by
  unfold cmpHandler stransCmp
  simp only [h, ne_eq, not_true_eq_false, if_false, Bool.true_eq_false]

theorem cmpAckHandler_matches (msg : SipMsg) (st : SipStrans) (h : cmpAckHandler msg st = true) :
    st.msg.branch = msg.branch ∧ st.msg.cseqMet = "INVITE" := by
  unfold cmpAckHandler stransCmp at h
  grind

/-- The new transaction is found by its identity. -/
theorem find_alloc (s : Sip) (msg : SipMsg) (hfresh : ∀ st ∈ s.strans, st.id < s.next) :
    ∃ st, (sipStransAlloc s msg).strans.find? (fun x => x.id = s.next) = some st ∧ st.id = s.next ∧
      st.msg = msg ∧ st.tmr = none ∧ st ∈ (sipStransAlloc s msg).strans ∧
      ∀ x ∈ (sipStransAlloc s msg).strans, x ∈ s.strans ∨ x = st := by
  refine ⟨_, ?_, rfl, rfl, rfl, List.mem_append_right _ (List.mem_singleton.mpr rfl), fun x hx => ?_⟩
  · unfold sipStransAlloc
    rw [List.find?_append, List.find?_eq_none.mpr (fun x hx => ?_), Option.none_or]
    · simp only [List.find?_cons, decide_true]
    · have := hfresh x hx
      simp only [decide_eq_true_eq]
      omega
  · exact (List.mem_append.mp hx).imp_right List.mem_singleton.mp

/-- A final reply starts the timer for the end. -/
theorem afterReply_tmr (st : SipStrans) (scode c1 c2 : Nat) (h : st.msg.reliable = false) :
    ∃ st', afterReply st scode c1 c2 = some st' ∧
      (st'.tmr = some (c1 + 64 * sipT1) ∨ (scode < 200 ∧ st'.tmr = st.tmr)) := by
  unfold afterReply
  split
  · split
    next hlt => exact ⟨_, rfl, Or.inr ⟨hlt, rfl⟩⟩
    · split
      · exact ⟨_, rfl, Or.inl rfl⟩
      · exact ⟨_, rfl, Or.inl rfl⟩
  · split
    next hlt => exact ⟨_, rfl, Or.inr ⟨hlt, rfl⟩⟩
    · rw [if_neg (by rw [h]; exact Bool.false_ne_true)]
      exact ⟨_, rfl, Or.inl rfl⟩

section

variable (req : SipMsg) (past : Nat → Prop) (hmono : ∀ x y, x ≤ y → past x → past y)

include hmono

omit hmono in
/-- The user gets the request for the first time. -/
theorem tuStep_serves (s : StRun) (now : Nat) (sent : Bool) (tu : TuAction) (hp : Proper req)
    (h : Serves req past s) (hseen : .pass req ∉ s.outs) (htu : Stateful tu) (hclock : tu.clock now)
    (hlong : ∀ c, now ≤ c → past (c + 64 * sipT1))
    (hr : Repeated (tuStep { s with now := now, outs := .pass req :: s.outs } req sent tu)) :
    Serves req past (tuStep { s with now := now, outs := .pass req :: s.outs } req sent tu) := by
  rcases find_alloc s.sip req h.repeated.kept.fresh with ⟨st, hf, hid, hmsg, htmr, hst, htable⟩
  cases tu with
  | ignore => exact absurd htu (fun hc => hc)
  | reply scode => exact absurd htu (fun hc => hc)
  | alloc =>
      refine fresh_serves req past s _ st [] h hr hseen hst hmsg htable rfl
        (fun o ho => absurd ho List.not_mem_nil) (fun d hd => ?_)
      rw [htmr] at hd
      exact absurd hd (by simp only [Option.mem_def, reduceCtorEq, not_false_eq_true])
  | treply r c1 c2 err =>
      -- The reply is a final one, and no reply is made to an ACK.
      have hskip : ¬ (req.met = "ACK" ∨ r.scode < 200) := by
        rintro (hc | hc)
        · exact hp.ack hc
        · exact absurd htu.1 (by omega)
      rcases afterReply_tmr { st with mb := some r } r.scode c1 c2
        (by simp only [hmsg]; exact hp.unreliable) with ⟨st', hafter, htmr'⟩
      have hspec := afterReply_spec _ st' r.scode c1 c2 hafter
      have hres : sipStransReply (sipStransAlloc s.sip req) s.sip.next r c1 c2 err =
          ((sipStransAlloc s.sip req).put st', [.send s.sip.next st.msg (some r)]) := by
        unfold sipStransReply
        rw [hf]
        simp only [htu.2, if_true, hafter]
      simp only [tuStep, if_neg hskip, hres] at hr ⊢
      refine fresh_serves req past s _ st' [.send s.sip.next st.msg (some r)] h hr hseen
        (mem_put_self _ st st' hst hspec.1) (hspec.2.1.trans hmsg) (fun x hx => ?_) rfl
        (fun o ho => ?_) (fun d hd => ?_)
      · rcases mem_put _ st' x hx with ⟨hx, hne⟩ | hx
        · rcases htable x hx with hx | hx
          · exact Or.inl hx
          · rw [hx] at hne
            exact absurd hspec.1.symm hne
        · exact Or.inr hx
      · rw [List.mem_singleton.mp ho, hspec.1, hmsg]
        exact ⟨some r, by rw [← hid]⟩
      · rcases htmr' with htmr' | ⟨hlt, _⟩
        · rw [htmr', Option.mem_def, Option.some.injEq] at hd
          rw [← hd]
          exact hlong c1 hclock.1
        · exact absurd htu.1 (by omega)

/-- A copy of the request comes in. -/
theorem recv_serves (s s' : StRun) (now : Nat) (sent : Bool) (tu : TuAction) (hp : Proper req)
    (h : Serves req past s) (hr : Repeated s') (htu : Stateful tu)
    (hlong : ∀ c, now ≤ c → past (c + 64 * sipT1)) (hdue : ¬ past now)
    (hstep : stStep s (.recv req now sent tu) = some s') : Serves req past s' := by
  simp only [stStep, Option.ite_none_right_eq_some, Option.some.injEq] at hstep
  have hnow := hstep.1.1
  have hclock := hstep.1.2
  have hs' := hstep.2
  unfold recvStep requestHandler at hs'
  simp only [if_neg hp.ack] at hs'
  cases hf : s.sip.strans.find? (cmpHandler req) with
  | some st =>
      -- Its transaction is there and answers, if it has an answer.
      have hst := List.mem_of_find?_eq_some hf
      have hmsg := h.own st hst (cmpHandler_matches req st (List.find?_some hf))
      simp only [hf] at hs'
      have hsay : ∀ o ∈ (sends sent (.send st.id st.msg st.mb)).reverse,
          (∃ x ∈ s.sip.strans, x.msg = req ∧ ∃ mb, o = .send x.id req mb) ∨
            o = .stateless req 482 := by
        intro o ho
        rw [reverse_sends] at ho
        cases sent with
        | true =>
            rw [List.mem_singleton.mp ho]
            exact Or.inl ⟨st, hst, hmsg, st.mb, by rw [hmsg]⟩
        | false => exact absurd ho List.not_mem_nil
      split at hs'
      · simp only [if_true] at hs'
        rw [← hs'] at hr ⊢
        exact say_serves req past hmono s _ _ h hr rfl rfl hsay hnow
      · simp only [if_true] at hs'
        rw [← hs'] at hr ⊢
        exact say_serves req past hmono s _ _ h hr rfl rfl hsay hnow
      · simp only [if_true] at hs'
        rw [← hs'] at hr ⊢
        exact say_serves req past hmono s _ [] h hr rfl rfl
          (fun o ho => absurd ho List.not_mem_nil) hnow
  | none =>
      -- Its transaction outlasts the copies, so without one this is the first.
      have hseen : .pass req ∉ s.outs := by
        intro hc
        rcases h.lasting hc with ⟨st, hst, hmsg, _⟩ | hover
        · exact List.find?_eq_none.mp hf st hst (cmpHandler_self req st hmsg)
        · exact hdue (hmono _ _ hnow hover)
      have hpass : tuStep { s with now := now, outs := .pass req :: s.outs } req sent tu = s' →
          Serves req past s' := by
        intro heq
        rw [← heq] at hr ⊢
        exact tuStep_serves req past s now sent tu hp h hseen htu hclock hlong hr
      simp only [hf] at hs'
      split at hs'
      · split at hs'
        · simp only [if_true] at hs'
          rw [← hs'] at hr ⊢
          refine say_serves req past hmono s _ _ h hr rfl rfl (fun o ho => ?_) hnow
          rw [reverse_sends] at ho
          cases sent with
          | true => exact Or.inr (List.mem_singleton.mp ho)
          | false => exact absurd ho List.not_mem_nil
        · simp only [cancelRequest, if_neg hp.cancel, Bool.false_eq_true, if_false,
            List.reverse_nil, List.nil_append] at hs'
          exact hpass hs'
      · simp only [cancelRequest, if_neg hp.cancel, Bool.false_eq_true, if_false,
          List.reverse_nil, List.nil_append] at hs'
        exact hpass hs'

omit hmono in
/-- Another request comes in, which nobody takes for this one. -/
theorem foreign_apart (s s' : StRun) (msg : SipMsg) (now : Nat) (sent : Bool) (tu : TuAction)
    (hk : Kept s) (hmsg : ¬ Matches req msg) (hack : msg.met = "ACK" → msg.branch ≠ req.branch)
    (hstep : stStep s (.recv msg now sent tu) = some s') : Apart req s s' := by
  refine stStep_apart req s s' _ hk hstep (fun m n b t heq => ?_)
    ⟨fun st hst hmet hc hm => ?_, fun st hst hmet hc hm => ?_, fun st hst hid hm => ?_⟩
  · rw [StEvent.recv.injEq] at heq
    rw [← heq.1]
    exact hmsg
  · exact hack hmet ((cmpAckHandler_matches msg st hc).1.symm.trans hm.1)
  · have := cmpHandler_matches msg st hc
    exact hmsg ⟨this.1.symm.trans hm.1, this.2.symm.trans hm.2⟩
  · rcases List.mem_append.mp hst with hst | hst
    · have := hk.fresh st hst
      omega
    · rw [List.mem_singleton.mp hst] at hm
      exact hmsg hm

/-- The ACK comes in. It ends the repetitions of a rejection, or it is passed
    on, or there is nothing to do. -/
theorem ack_serves (s s' : StRun) (now : Nat) (sent : Bool) (tu : TuAction) (hp : Proper req)
    (hinv : req.met = "INVITE") (h : Serves req past s) (hr : Repeated s')
    (hquick : past (now + sipT4))
    (hstep : stStep s (.recv (ackOf req) now sent tu) = some s') : Serves req past s' := by
  -- The ACK has a method of its own, and so is another request.
  have hother : ¬ Matches req (ackOf req) := by
    intro hc
    have hmet := hc.2
    rw [hp.met] at hmet
    exact hp.ack hmet.symm
  have hstep' := hstep
  simp only [stStep, Option.ite_none_right_eq_some, Option.some.injEq] at hstep'
  have hnow := hstep'.1.1
  have hs' := hstep'.2
  by_cases hwait : ∃ st, s.sip.strans.find? (cmpAckHandler (ackOf req)) = some st ∧
      st.state = .completed
  · rcases hwait with ⟨st, hf, hstate⟩
    have hst := List.mem_of_find?_eq_some hf
    have hcmp := cmpAckHandler_matches (ackOf req) st (List.find?_some hf)
    -- What the ACK finds is the transaction of the INVITE it is for.
    have hmsg : st.msg = req := h.own st hst
      ⟨hcmp.1, hcmp.2.trans (hinv.symm.trans hp.met.symm)⟩
    have hrel : ¬ st.msg.reliable = true := by
      rw [hmsg, hp.unreliable]
      exact Bool.false_ne_true
    unfold recvStep requestHandler ackHandler at hs'
    simp only [show (ackOf req).met = "ACK" from rfl, if_true, hf, hstate, if_neg hrel] at hs'
    rw [← hs'] at hr ⊢
    refine put_serves req past hmono s _ st
      { st with tmr := some (now + sipT4), tmrg := none, state := .confirmed } [] h hr hst hmsg rfl
      rfl rfl rfl
      (fun o ho => absurd ho List.not_mem_nil) hnow (fun _ d hd => ?_)
    rw [← Option.some.inj hd]
    exact hquick
  · -- Nothing changes, and the ACK is a request of its own.
    refine apart_serves req past hmono s s' h ?_ hr
    refine changes_apart req s s' h.repeated.kept ?_
    have hsame : (ackHandler s.sip (ackOf req) now).1 = s.sip := by
      unfold ackHandler
      split
      · rfl
      next st hf =>
        split
        · rfl
        next hc => exact absurd ⟨st, hf, hc⟩ hwait
        · rfl
    have hclock := Change.clock (P := fun msg => ¬ Matches req msg)
      (Q := fun st => ¬ Matches req st.msg) s now hnow
    unfold recvStep requestHandler at hs'
    simp only [show (ackOf req).met = "ACK" from rfl, if_true, hsame, List.reverse_nil,
      List.nil_append] at hs'
    rw [← hs']
    split
    · exact .single hclock
    · refine (Relation.ReflTransGen.tail (.single hclock) (.speak _ (.pass (ackOf req)) hother)).trans
        (tuStep_changes _ _ _ (ackOf req) sent tu hother hstep'.1.2 (fun st hst hid hm => ?_))
      rcases List.mem_append.mp hst with hst | hst
      · have := h.repeated.kept.fresh st hst
        simp only at hid
        omega
      · rw [List.mem_singleton.mp hst] at hm
        exact hother hm

/-- The user replies. -/
theorem reply_serves (s s' : StRun) (id : Nat) (r : Reply) (c1 c2 err : Nat) (hp : Proper req)
    (h : Serves req past s) (hr : Repeated s')
    (hcare : ∀ st ∈ s.sip.strans, st.id = id → st.msg = req → err = 0)
    (hlong : ∀ c, s.now ≤ c → past (c + 64 * sipT1))
    (hstep : stStep s (.reply id r c1 c2 err) = some s') : Serves req past s' := by
  by_cases hours : ∃ st ∈ s.sip.strans, st.id = id ∧ Matches req st.msg
  · rcases hours with ⟨st, hst, hid, hm⟩
    have hmsg := h.own st hst hm
    simp only [stStep, Option.ite_none_right_eq_some, Option.some.injEq] at hstep
    rcases hstep with ⟨⟨hc1, hc2, hheld⟩, hs'⟩
    have hf := h.repeated.kept.find_own st hst id hid
    rcases afterReply_tmr { st with mb := some r } r.scode c1 c2
      (by simp only [hmsg]; exact hp.unreliable) with ⟨st', hafter, htmr'⟩
    have hspec := afterReply_spec _ st' r.scode c1 c2 hafter
    unfold sipStransReply at hs'
    simp only [hf, hcare st hst hid hmsg, if_true, hafter] at hs'
    rw [← hs'] at hr ⊢
    refine put_serves req past hmono s _ st st' [.send id st.msg (some r)] h hr hst hmsg hspec.1
      hspec.2.1 rfl rfl (fun o ho => ?_) (Nat.le_trans hc1 hc2) (fun hd d hd' => ?_)
    · rw [List.mem_singleton.mp ho, hmsg, hid]
      exact ⟨some r, rfl⟩
    · -- A final reply starts the timer now, a provisional one leaves it.
      rcases htmr' with htmr' | ⟨_, htmr'⟩
      · rw [htmr', Option.mem_def, Option.some.injEq] at hd'
        rw [← hd']
        exact hlong c1 hc1
      · rw [htmr'] at hd'
        exact hd d hd'
  · refine apart_serves req past hmono s s' h (stStep_apart req s s' _ h.repeated.kept hstep
      (fun _ _ _ _ hc => ?_) (fun st hst hid hm => hours ⟨st, hst, hid, hm⟩)) hr
    exact absurd hc (by simp only [reduceCtorEq, not_false_eq_true])

/-- A timer of a transaction is served. -/
theorem timer_serves (s s' : StRun) (e : StEvent) (id : Nat)
    (he : (∃ j, e = .expire id j) ∨ ∃ j now sent, e = .resend id j now sent)
    (h : Serves req past s) (hr : Repeated s') (hstep : stStep s e = some s') :
    Serves req past s' := by
  by_cases hours : ∃ st ∈ s.sip.strans, st.id = id ∧ Matches req st.msg
  · rcases hours with ⟨st, hst, hid, hm⟩
    have hmsg := h.own st hst hm
    have hf := h.repeated.kept.find_own st hst id hid
    rcases he with ⟨j, he⟩ | ⟨j, now, sent, he⟩
    · rw [he] at hstep
      simp only [stStep, hf] at hstep
      cases ht : st.tmr with
      | none => simp only [ht, reduceCtorEq] at hstep
      | some d =>
          simp only [ht, Option.ite_none_right_eq_some, Option.some.injEq] at hstep
          rw [← hstep.2] at hr ⊢
          exact drop_serves req past hmono s _ st d h hr hst hmsg (by rw [hid]) rfl ht
            hstep.1.2.1 hstep.1.1
    · rw [he] at hstep
      simp only [stStep, hf] at hstep
      cases ht : st.tmrg with
      | none => simp only [ht, reduceCtorEq] at hstep
      | some d =>
          simp only [ht, Option.ite_none_right_eq_some, Option.some.injEq] at hstep
          rw [← hstep.2] at hr ⊢
          -- The repetition says what was said before, and the end stays where it is.
          refine put_serves req past hmono s _ st (retransmitHandler st now) _ h hr hst hmsg rfl
            rfl rfl rfl (fun o ho => ?_) (Nat.le_trans hstep.1.1 hstep.1.2.2.1) (fun hd => hd)
          cases sent with
          | true =>
              rw [List.mem_singleton.mp ho, hmsg, hid]
              exact ⟨st.mb, rfl⟩
          | false => exact absurd ho List.not_mem_nil
  · refine apart_serves req past hmono s s' h (stStep_apart req s s' _ h.repeated.kept hstep
      (fun _ _ _ _ hc => ?_) ?_) hr
    · rcases he with ⟨j, he⟩ | ⟨j, now, sent, he⟩
      · rw [he] at hc
        exact absurd hc (by simp only [reduceCtorEq, not_false_eq_true])
      · rw [he] at hc
        exact absurd hc (by simp only [reduceCtorEq, not_false_eq_true])
    · rcases he with ⟨j, he⟩ | ⟨j, now, sent, he⟩
      · rw [he]
        exact fun st hst hid hm => hours ⟨st, hst, hid, hm⟩
      · rw [he]
        exact fun st hst hid hm => hours ⟨st, hst, hid, hm⟩

/-- Anything else at the server. -/
theorem other_serves (s s' : StRun) (e : StEvent) (hp : Proper req) (h : Serves req past s)
    (hr : Repeated s') (hcare : Careful req s.sip e)
    (hlong : ∀ c, s.now ≤ c → past (c + 64 * sipT1)) (hstep : stStep s e = some s') :
    Serves req past s' := by
  cases e with
  | recv msg now sent tu =>
      exact apart_serves req past hmono s s' h (foreign_apart req s s' msg now sent tu
        h.repeated.kept hcare.1 hcare.2 hstep) hr
  | reply id r c1 c2 err =>
      exact reply_serves req past hmono s s' id r c1 c2 err hp h hr hcare hlong hstep
  | release id now =>
      refine apart_serves req past hmono s s' h (stStep_apart req s s' _ h.repeated.kept hstep
        (fun _ _ _ _ hc => ?_) (fun st hst hid hm => hcare st hst hid (h.own st hst hm))) hr
      exact absurd hc (by simp only [reduceCtorEq, not_false_eq_true])
  | expire id j =>
      exact timer_serves req past hmono s s' _ id (Or.inl ⟨j, rfl⟩) h hr hstep
  | resend id j now sent =>
      exact timer_serves req past hmono s s' _ id (Or.inr ⟨j, now, sent, rfl⟩) h hr hstep

end

end Exchange

end SipPerf
