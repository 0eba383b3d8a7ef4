import Mathlib.Logic.Relation
import SipPerf.Core.Strans

/-!
# Changes to Server Transactions

An event can do several things one after the other. A request is passed on,
becomes a transaction and is replied to. So events are taken apart into
`Change`, which does one thing at a time, and what every change keeps is kept
by every event.

## Main definitions

* `Change`: One thing that happens to the transactions.
* `Only`: The requests and the transactions that an event is about.

## Theorems

* `requestHandler_changes`, `stStep_changes`: Events are made of changes.
* `requestHandler_unhandled`: What is not handled changes nothing.
-/

namespace SipPerf

namespace Strans

open Ctrans

/-- No final reply yet. -/
def Open (st : SipStrans) : Prop := st.state = .trying ∨ st.state = .proceeding

theorem shut_of (st : SipStrans) (state : StState) (h : st.state = state)
    (hs : state ≠ .trying ∧ state ≠ .proceeding) : ¬ Open st := by
  rintro (ho | ho)
  · exact hs.1 (h.symm.trans ho)
  · exact hs.2 (h.symm.trans ho)

/-- What can be done with the transactions as they are. `P` says which
    requests are passed on or answered, and `Q` which transactions. -/
def Speaks (s : Sip) (P : SipMsg → Prop) (Q : SipStrans → Prop) : StOut → Prop
  | .send id msg mb => ∃ st ∈ s.strans, Q st ∧ st.id = id ∧ st.msg = msg ∧ st.mb = mb ∧
      (st.state = .proceeding ∨ st.state = .completed)
  | .stateless msg _ => P msg
  | .cancelh id => ∃ st ∈ s.strans, st.id = id ∧ Open st
  | .pass msg => P msg

/-- The transaction with an ACK for its rejection. -/
def acknowledged (s : Sip) (st : SipStrans) (now : Nat) : Sip :=
  if st.msg.reliable then s.drop st.id
  else s.put { st with tmr := some (now + sipT4), tmrg := none, state := .confirmed }

/-- One thing that happens to the transactions, the requests in `P` and the
    transactions in `Q`. -/
inductive Change (P : SipMsg → Prop) (Q : SipStrans → Prop) : StRun → StRun → Prop where
  | clock (s : StRun) (now : Nat) (h : s.now ≤ now) : Change P Q s { s with now := now }
  | speak (s : StRun) (o : StOut) (h : Speaks s.sip P Q o) : Change P Q s { s with outs := o :: s.outs }
  | alloc (s : StRun) (msg : SipMsg) (h : P msg) :
      Change P Q s { s with sip := sipStransAlloc s.sip msg, held := s.sip.next :: s.held }
  | reply (s : StRun) (id : Nat) (r : Reply) (c1 c2 err : Nat) (h1 : s.now ≤ c1) (h2 : c1 ≤ c2)
      (hid : id ∈ s.held) (hQ : ∀ st ∈ s.sip.strans, st.id = id → Q st) :
      Change P Q s { s with
        sip := (sipStransReply s.sip id r c1 c2 err).1, now := c2,
        held := heldAfter s.held id r err,
        outs := (sipStransReply s.sip id r c1 c2 err).2 ++ s.outs }
  | release (s : StRun) (id : Nat) (hid : id ∈ s.held)
      (hQ : ∀ st ∈ s.sip.strans, st.id = id → Q st) :
      Change P Q s { s with sip := s.sip.drop id, held := s.held.erase id }
  | acked (s : StRun) (st : SipStrans) (hst : st ∈ s.sip.strans) (hs : st.state = .completed)
      (hQ : Q st) :
      Change P Q s { s with sip := acknowledged s.sip st s.now }
  | expire (s : StRun) (st : SipStrans) (d : Nat) (hst : st ∈ s.sip.strans) (hd : st.tmr = some d)
      (hnow : d ≤ s.now) (hQ : Q st) : Change P Q s { s with sip := s.sip.drop st.id }
  | resend (s : StRun) (st : SipStrans) (d : Nat) (sent : Bool) (hst : st ∈ s.sip.strans)
      (hd : st.tmrg = some d) (hnow : d ≤ s.now) (hfirst : NotAfter d st.tmr) (hQ : Q st) :
      Change P Q s { s with
        sip := s.sip.put (retransmitHandler st s.now),
        outs := sends sent (.send st.id st.msg st.mb) ++ s.outs, resent := st.id :: s.resent }

theorem find_id (s : Sip) (id : Nat) (st : SipStrans)
    (h : s.strans.find? (fun x => x.id = id) = some st) : st ∈ s.strans ∧ st.id = id :=
  ⟨List.mem_of_find?_eq_some h, by simpa using List.find?_some h⟩

variable (P : SipMsg → Prop) (Q : SipStrans → Prop)

/-- What is sent, if the stack takes it. -/
theorem speak_sends (s : StRun) (sent : Bool) (o : StOut) (h : Speaks s.sip P Q o) :
    Relation.ReflTransGen (Change P Q) s { s with outs := sends sent o ++ s.outs } := by
  cases sent with
  | true => exact .single (.speak s o h)
  | false => exact .refl

theorem reverse_sends (sent : Bool) (o : StOut) : (sends sent o).reverse = sends sent o := by
  cases sent with
  | true => rfl
  | false => rfl

theorem cancelHandler_changes (s : StRun) (msg : SipMsg) (sent : Bool) (hP : P msg) :
    Relation.ReflTransGen (Change P Q) s
      { s with outs := (cancelHandler s.sip msg sent).1.reverse ++ s.outs } := by
  unfold cancelHandler
  cases hf : s.sip.strans.find? (cmpCancelHandler msg) with
  | none => exact .refl
  | some st =>
      have hst := List.mem_of_find?_eq_some hf
      have hok : Speaks s.sip P Q (.stateless msg 200) := hP
      -- The reply to the CANCEL comes first, then the handler is called.
      have hcall : Open st → Relation.ReflTransGen (Change P Q) s { s with
          outs := (sends sent (.stateless msg 200) ++ [StOut.cancelh st.id]).reverse ++ s.outs } := by
        intro hopen
        rw [List.reverse_append, reverse_sends]
        exact (speak_sends P Q s sent _ hok).tail (.speak _ (.cancelh st.id) ⟨st, hst, rfl, hopen⟩)
      simp only
      split
      next hs => exact hcall (Or.inl hs)
      next hs => exact hcall (Or.inr hs)
      next =>
        rw [reverse_sends]
        exact speak_sends P Q s sent _ hok

theorem cancelRequest_changes (s : StRun) (msg : SipMsg) (sent : Bool) (hP : P msg) :
    Relation.ReflTransGen (Change P Q) s
      { s with outs := (cancelRequest s.sip msg sent).1.reverse ++ s.outs } := by
  unfold cancelRequest
  split
  · exact cancelHandler_changes P Q s msg sent hP
  · exact .refl

theorem ackHandler_changes (s : StRun) (msg : SipMsg)
    (hQ : ∀ st ∈ s.sip.strans, cmpAckHandler msg st = true → Q st) :
    Relation.ReflTransGen (Change P Q) s { s with sip := (ackHandler s.sip msg s.now).1 } := by
  unfold ackHandler
  cases hf : s.sip.strans.find? (cmpAckHandler msg) with
  | none => exact .refl
  | some st =>
      have hst := List.mem_of_find?_eq_some hf
      simp only
      split
      · exact .refl
      next hs =>
        -- Of all states only this one is changed by an ACK.
        have hchange := Change.acked (P := P) (Q := Q) s st hst hs (hQ st hst (List.find?_some hf))
        unfold acknowledged at hchange
        split
        next hrel =>
          rw [if_pos hrel] at hchange
          exact .single hchange
        next hrel =>
          rw [if_neg hrel] at hchange
          exact .single hchange
      · exact .refl

/-- The transactions an event is about. -/
def Only (s : Sip) : StEvent → Prop
  | .recv msg _ _ _ =>
      (∀ st ∈ s.strans, msg.met = "ACK" → cmpAckHandler msg st = true → Q st) ∧
      (∀ st ∈ s.strans, msg.met ≠ "ACK" → cmpHandler msg st = true → Q st) ∧
      ∀ st ∈ (sipStransAlloc s msg).strans, st.id = s.next → Q st
  | .reply id _ _ _ _ => ∀ st ∈ s.strans, st.id = id → Q st
  | .release id _ => ∀ st ∈ s.strans, st.id = id → Q st
  | .expire id _ => ∀ st ∈ s.strans, st.id = id → Q st
  | .resend id _ _ _ => ∀ st ∈ s.strans, st.id = id → Q st

/-- The handler of requests does these things one after the other. -/
theorem requestHandler_changes (s : StRun) (msg : SipMsg) (sent : Bool) (hP : P msg)
    (hack : ∀ st ∈ s.sip.strans, msg.met = "ACK" → cmpAckHandler msg st = true → Q st)
    (hcmp : ∀ st ∈ s.sip.strans, msg.met ≠ "ACK" → cmpHandler msg st = true → Q st) :
    Relation.ReflTransGen (Change P Q) s
      { s with
        sip := (requestHandler s.sip msg s.now sent).1,
        outs := (requestHandler s.sip msg s.now sent).2.1.reverse ++ s.outs } := by
  unfold requestHandler
  split
  next hmet => exact ackHandler_changes P Q s msg (fun st hst => hack st hst hmet)
  next hmet =>
    cases hf : s.sip.strans.find? (cmpHandler msg) with
    | some st =>
        have hst := List.mem_of_find?_eq_some hf
        simp only
        split
        next hs =>
          rw [reverse_sends]
          exact speak_sends P Q s sent _
            ⟨st, hst, hcmp st hst hmet (List.find?_some hf), rfl, rfl, rfl, Or.inl hs⟩
        next hs =>
          rw [reverse_sends]
          exact speak_sends P Q s sent _
            ⟨st, hst, hcmp st hst hmet (List.find?_some hf), rfl, rfl, rfl, Or.inr hs⟩
        · exact .refl
    | none =>
        simp only
        split
        · cases hm : s.sip.strans.find? (cmpMergeHandler msg) with
          | some st =>
              simp only
              rw [reverse_sends]
              exact speak_sends P Q s sent _ hP
          | none => exact cancelRequest_changes P Q s msg sent hP
        · exact cancelRequest_changes P Q s msg sent hP

theorem ackHandler_unhandled (s : Sip) (msg : SipMsg) (now : Nat)
    (h : (ackHandler s msg now).2 = false) : (ackHandler s msg now).1 = s := by
  unfold ackHandler at h ⊢
  split
  · rfl
  next st hf =>
    simp only [hf] at h
    split
    · rfl
    next hs =>
      simp only [hs] at h
      split at h
      · exact absurd h (by simp only [Bool.true_eq_false, not_false_eq_true])
      · exact absurd h (by simp only [Bool.true_eq_false, not_false_eq_true])
    · rfl

theorem cancelRequest_unhandled (s : Sip) (msg : SipMsg) (sent : Bool)
    (h : (cancelRequest s msg sent).2 = false) : (cancelRequest s msg sent).1 = [] := by
  unfold cancelRequest at h ⊢
  split
  next hmet =>
    rw [if_pos hmet] at h
    unfold cancelHandler at h ⊢
    split
    · rfl
    next st hf =>
      simp only [hf] at h
      split at h
      all_goals exact absurd h (by simp only [Bool.true_eq_false, not_false_eq_true])
  · rfl

/-- A request that is passed on has not changed the transactions, and none of
    them is for it. -/
theorem requestHandler_unhandled (s : Sip) (msg : SipMsg) (now : Nat) (sent : Bool)
    (h : (requestHandler s msg now sent).2.2 = false) :
    (requestHandler s msg now sent).1 = s ∧ (requestHandler s msg now sent).2.1 = [] ∧
      (msg.met ≠ "ACK" → s.strans.find? (cmpHandler msg) = none) := by
  unfold requestHandler at h ⊢
  by_cases hmet : msg.met = "ACK"
  · simp only [if_pos hmet] at h ⊢
    exact ⟨ackHandler_unhandled s msg now h, trivial, fun hc => absurd hmet hc⟩
  · simp only [if_neg hmet] at h ⊢
    cases hf : s.strans.find? (cmpHandler msg) with
    | some st =>
        exfalso
        simp only [hf] at h
        split at h
        all_goals exact absurd h (by simp only [Bool.true_eq_false, not_false_eq_true])
    | none =>
        simp only [hf] at h ⊢
        by_cases htag : msg.toTag = ""
        · simp only [if_pos htag] at h ⊢
          cases hm : s.strans.find? (cmpMergeHandler msg) with
          | some st => simp only [hm, Bool.true_eq_false] at h
          | none =>
              simp only [hm] at h ⊢
              exact ⟨trivial, cancelRequest_unhandled s msg sent h, fun _ => trivial⟩
        · simp only [if_neg htag] at h ⊢
          exact ⟨trivial, cancelRequest_unhandled s msg sent h, fun _ => trivial⟩

/-- The user gets a request. -/
theorem tuStep_changes (s : StRun) (msg : SipMsg) (sent : Bool) (tu : TuAction) (hP : P msg)
    (hclock : tu.clock s.now)
    (hQ : ∀ st ∈ (sipStransAlloc s.sip msg).strans, st.id = s.sip.next → Q st) :
    Relation.ReflTransGen (Change P Q) s (tuStep s msg sent tu) := by
  cases tu with
  | ignore => exact .refl
  | reply scode =>
      simp only [tuStep]
      split
      · exact .refl
      · exact speak_sends P Q s sent _ hP
  | alloc => exact .single (.alloc s msg hP)
  | treply r c1 c2 err =>
      simp only [tuStep]
      split
      · exact .refl
      next hno =>
        -- The transaction is held until the reply, which is a final one.
        have hheld : heldAfter (s.sip.next :: s.held) s.sip.next r err = s.held := by
          unfold heldAfter
          rw [if_neg (fun hc => hno (Or.inr hc.2)), List.erase_cons_head]
        have hreply := Change.reply (P := P) (Q := Q)
          { s with sip := sipStransAlloc s.sip msg, held := s.sip.next :: s.held } s.sip.next r c1
          c2 err hclock.1 hclock.2 List.mem_cons_self hQ
        rw [hheld] at hreply
        exact .tail (.single (.alloc s msg hP)) hreply

/-- Events are made of changes. Of the requests only the one that comes in is
    passed on or becomes a transaction. -/
theorem stStep_changes (s s' : StRun) (e : StEvent) (h : stStep s e = some s')
    (hP : ∀ msg now sent tu, e = .recv msg now sent tu → P msg) (hQ : Only Q s.sip e) :
    Relation.ReflTransGen (Change P Q) s s' := by
  cases e with
  | recv msg now sent tu =>
      simp only [stStep, Option.ite_none_right_eq_some, Option.some.injEq] at h
      rw [← h.2]
      unfold recvStep
      have hmsg := hP msg now sent tu rfl
      have hclock := Change.clock (P := P) (Q := Q) s now h.1.1
      -- The clock moves first, and the handler reads it as it is then.
      have hfirst := Relation.ReflTransGen.trans (.single hclock)
        (requestHandler_changes P Q { s with now := now } msg sent hmsg hQ.1 hQ.2.1)
      simp only
      split
      · exact hfirst
      next hun =>
        -- What is passed on has changed nothing before the user gets it.
        have hsame := requestHandler_unhandled s.sip msg now sent (by simpa using hun)
        refine (hfirst.tail (.speak _ (.pass msg) hmsg)).trans
          (tuStep_changes P Q _ msg sent tu hmsg h.1.2 ?_)
        simp only [hsame.1]
        exact hQ.2.2
  | reply id r c1 c2 err =>
      simp only [stStep, Option.ite_none_right_eq_some, Option.some.injEq] at h
      rw [← h.2]
      exact .single (.reply s id r c1 c2 err h.1.1 h.1.2.1 h.1.2.2 hQ)
  | release id now =>
      simp only [stStep, Option.ite_none_right_eq_some, Option.some.injEq] at h
      rw [← h.2]
      exact .tail (.single (.clock s now h.1.1)) (.release { s with now := now } id h.1.2 hQ)
  | expire id j =>
      simp only [stStep] at h
      cases hf : s.sip.strans.find? (fun x => x.id = id) with
      | none => simp only [hf, reduceCtorEq] at h
      | some st =>
          rcases find_id s.sip id st hf with ⟨hst, hid⟩
          cases ht : st.tmr with
          | none => simp only [hf, ht, reduceCtorEq] at h
          | some d =>
              simp only [hf, ht, Option.ite_none_right_eq_some, Option.some.injEq] at h
              rw [← h.2, ← hid]
              exact .tail (.single (.clock s j h.1.1))
                (.expire { s with now := j } st d hst ht h.1.2.1 (hQ st hst hid))
  | resend id j now sent =>
      simp only [stStep] at h
      cases hf : s.sip.strans.find? (fun x => x.id = id) with
      | none => simp only [hf, reduceCtorEq] at h
      | some st =>
          rcases find_id s.sip id st hf with ⟨hst, hid⟩
          cases ht : st.tmrg with
          | none => simp only [hf, ht, reduceCtorEq] at h
          | some d =>
              simp only [hf, ht, Option.ite_none_right_eq_some, Option.some.injEq] at h
              rw [← h.2, ← hid]
              exact .tail (.single (.clock s now (Nat.le_trans h.1.1 h.1.2.2.1)))
                (.resend { s with now := now } st d sent hst ht
                  (Nat.le_trans h.1.2.1 h.1.2.2.1) h.1.2.2.2 (hQ st hst hid))

end Strans

end SipPerf
