import SipPerf.Theory.HangUp.Established

/-!
# How a Call Is Hung Up

The program hangs up each call it makes as soon as the call is established,
and two places do it. `establish_handler` makes a BYE request of its own, and
then releases the session, whose destructor makes another since the session
is established and the peer has not hung up. Neither knows of the other. So an
established call is hung up as often as the stack accepts one of the two
requests, which is twice unless it refuses one.

The count is settled in the step in which the call is established. Nothing
that comes after adds to it. `HungUpOnce` is the condition on the call when it
is answered and on what the stack accepts under which it is hung up once.

## Main definitions

* `HungUpOnce`: The condition.

## Theorems

* `inviteOut_settled`, `establishHandler_own`, `establishHandler_other`: The
  two places.
* `answered_settled`: How many requests the answer leads to.
* `hung_up_once_iff`: Exactly when a call is hung up once.
-/

namespace SipPerf

namespace Sipsess

open Transition

/-- The destructor of an established session makes its BYE request. -/
theorem destructorCase1_bye (s : Sess) (sent : Bool) (hest : s.established = true)
    (hpeer : s.peerterm = false) (hreq : s.req = none) :
    (destructorCase1 s sent).terminated = 2 ∧
      (destructorCase1 s sent).byes = s.byes + sent.toNat := by
  rcases terminate_bye s sent hest hpeer hreq with ⟨hterm, hbyes⟩
  unfold destructorCase1
  simp only
  split
  · exact ⟨hterm, hbyes⟩
  · exact ⟨hterm, hbyes⟩

/-- An established session is released for the last time. -/
theorem memDeref_bye (s : Sess) (sent : Bool) (hnrefs : s.nrefs = 1) (hest : s.established = true)
    (hpeer : s.peerterm = false) (hreq : s.req = none) (hreply : s.replyl = 0)
    (hrequest : s.requestl = 0) (hterm : s.terminated ≤ 1) :
    (memDeref s sent).terminated = 2 ∧ (memDeref s sent).byes = s.byes + sent.toNat := by
  rw [memDeref_last s sent hnrefs]
  unfold destructor
  -- With nothing to wait for, case 0 of the destructor falls into case 1.
  by_cases hzero : s.terminated = 0
  · rw [if_pos hzero, termwait_idle { s with nrefs := 0 } hreq hreply hrequest]
    exact destructorCase1_bye { s with nrefs := 0, terminated := 1 } sent hest hpeer hreq
  · rw [if_neg hzero, if_pos (by simp only; omega)]
    exact destructorCase1_bye { s with nrefs := 0 } sent hest hpeer hreq

/-- The call is answered, but it has been let go of or the ACK fails: only the
    session makes a BYE request. -/
theorem inviteOut_settled (c : Call) (ls : LoopState) (o : Outcome) (hu : Unanswered c.sess)
    (hnrefs : c.sess.nrefs = 1) (hterm : c.sess.terminated ≤ 1) :
    Settled (c.sess.byes + o.sent.toNat) (inviteOut { c with sess := answered c.sess ls } o) := by
  unfold inviteOut
  by_cases hzero : c.sess.terminated = 0
  · rw [if_pos (show (answered c.sess ls).terminated = 0 from hzero), sipsessTerminate,
      if_neg (not_not.mpr (show (answered c.sess ls).terminated = 0 from hzero)),
      termwait_idle (answered c.sess ls) rfl hu.replyl hu.requestl]
    simp only [Bool.false_eq_true, if_false]
    rcases terminate_bye { answered c.sess ls with terminated := 1 } o.sent rfl hu.peerterm rfl with
      ⟨hterm', hbyes⟩
    rcases derefSess_byes { c with sess := (terminate { answered c.sess ls with terminated := 1 }
      o.sent).1 } o.sent hterm' with ⟨hterm'', hbyes'⟩
    exact ⟨hbyes'.trans hbyes, Or.inl hterm''⟩
  · rw [if_neg (show ¬ (answered c.sess ls).terminated = 0 from hzero)]
    rcases memDeref_bye (answered c.sess ls) o.sent hnrefs rfl hu.peerterm rfl hu.replyl hu.requestl
      hterm with ⟨hterm', hbyes⟩
    exact ⟨hbyes, Or.inl hterm'⟩

/-- The call is established and it is the user agent's own: it is hung up by
    both. -/
theorem establishHandler_own (c : Call) (bye sent : Bool) (hcaller : c.caller = true)
    (hptr : c.ptr = some .this) (hnrefs : c.sess.nrefs = 1) (hest : c.sess.established = true)
    (hpeer : c.sess.peerterm = false) (hreq : c.sess.req = none) (hreply : c.sess.replyl = 0)
    (hrequest : c.sess.requestl = 0) (hterm : c.sess.terminated = 0) :
    Settled (c.sess.byes + bye.toNat + sent.toNat) (establishHandler c bye sent) := by
  unfold establishHandler
  rw [if_pos hcaller]
  simp only [hptr, derefSess]
  rcases memDeref_bye { c.sess with byes := if bye then c.sess.byes + 1 else c.sess.byes } sent
    hnrefs hest hpeer hreq hreply hrequest (le_of_eq_of_le hterm (Nat.zero_le 1)) with
    ⟨hterm', hbyes⟩
  refine ⟨?_, Or.inl hterm'⟩
  rw [hbyes]
  cases bye with
  | true => rfl
  | false => rfl

/-- The flag or the pointer has been taken over by another call: nobody hangs
    this one up. -/
theorem establishHandler_other (c : Call) (bye sent : Bool)
    (h : ¬ (c.caller = true ∧ c.ptr = some .this)) :
    (establishHandler c bye sent).sess = c.sess := by
  unfold establishHandler
  split
  · rename_i hcaller
    split
    · rename_i hptr
      exact absurd ⟨hcaller, hptr⟩ h
    · rename_i hne
      unfold derefSess
      split
      · rename_i hptr
        exact absurd hptr hne
      · rfl
  · rfl

/-- The condition on the call when it is answered, and on what the stack
    accepts, under which it is hung up once. Where the session is still in
    use and the ACK goes out, the call is the user agent's own and the stack
    accepts one of the two requests and refuses the other. Where only the
    session makes a request, it is accepted, and the user agent has not made
    one before. -/
def HungUpOnce (c : Call) (o : Outcome) : Prop :=
  if c.sess.terminated = 0 ∧ o.acked = true then
    c.caller = true ∧ c.ptr = some .this ∧ o.bye ≠ o.sent
  else o.sent = true ↔ c.sess.byes = 0

theorem answered_settled (c : Call) (ls : LoopState) (o : Outcome) (hd : Dialing c)
    (hreq : c.sess.req = some .invite) : ∃ n, (n = 1 ↔ HungUpOnce c o) ∧
      Settled n (if o.acked = false ∨ c.sess.terminated ≠ 0 then
        inviteOut { c with sess := answered c.sess ls } o
      else establishHandler { c with sess := answered c.sess ls } o.bye o.sent) := by
  have hu := hd.unanswered
  unfold HungUpOnce
  rcases hd.state with hr | ⟨hw, _⟩ | hf
  · -- The session is in use. With the ACK sent, both may hang up; without,
    -- only the session does.
    by_cases hacked : o.acked = true
    · rw [if_pos ⟨hr.terminated, hacked⟩, if_neg (by simp only [hacked, hr.terminated,
        Bool.true_eq_false, ne_eq, not_true, or_self, not_false_eq_true])]
      by_cases hown : c.caller = true ∧ c.ptr = some .this
      · refine ⟨_, ?_, establishHandler_own { c with sess := answered c.sess ls } o.bye o.sent
          hown.1 hown.2 hr.nrefs rfl hu.peerterm rfl hu.replyl hu.requestl hr.terminated⟩
        simp only [answered, hr.byes, hown, true_and, Nat.zero_add]
        cases o.bye <;> cases o.sent <;> decide
      · refine ⟨0, ?_, ?_⟩
        · constructor
          · intro h
            omega
          · intro h
            exact absurd ⟨h.1, h.2.1⟩ hown
        · have hsame := establishHandler_other { c with sess := answered c.sess ls } o.bye o.sent
            hown
          refine ⟨?_, Or.inr ?_⟩
          · rw [hsame]
            exact hr.byes
          · rw [hsame]
            exact ⟨hr.terminated, rfl, hu.replyl, hu.requestl⟩
    · have hacked' : o.acked = false := by simpa using hacked
      rw [if_neg (fun hc => hacked hc.2), if_pos (Or.inl hacked')]
      refine ⟨_, ?_, inviteOut_settled c ls o hu hr.nrefs
        (le_of_eq_of_le hr.terminated (Nat.zero_le 1))⟩
      rw [hr.byes]
      cases o.sent <;> decide
  · -- The session was released by the handler of another call, perhaps with
    -- a BYE then. Only the session makes a request now.
    have hne : c.sess.terminated ≠ 0 := by
      rw [hw.terminated]
      exact Nat.one_ne_zero
    rw [if_neg (fun hc => hne hc.1), if_pos (Or.inr hne)]
    refine ⟨_, ?_, inviteOut_settled c ls o hu hw.nrefs (Nat.le_of_eq hw.terminated)⟩
    have hbyes := hw.byes
    cases o.sent with
    | true =>
        simp only [Bool.toNat_true, true_iff]
        omega
    | false =>
        simp only [Bool.toNat_false, Bool.false_eq_true, false_iff]
        omega
  · rw [hf.req] at hreq
    exact absurd hreq (by simp only [reduceCtorEq, not_false_eq_true])

/-- A call that is answered after any run of the program, whatever else its
    user agent has been doing, and any order of responses to its BYE requests
    and BYEs from the peer after that. Exactly one BYE request is made on its
    dialog if and only if the condition holds of the call when it is
    answered. -/
theorem hung_up_once_iff (pre later : List CallEvent) (r : Response) (o : Outcome)
    (c c1 c2 : Call) (hpre : exec callStep callInit pre = some c)
    (hnew : c.sess.established = false) (hstep : callStep c (.inviteResp r o) = some c1)
    (hest : c1.sess.established = true) (hlater : ∀ e ∈ later, Closing e)
    (hrun : exec callStep c1 later = some c2) : c2.sess.byes = 1 ↔ HungUpOnce c o := by
  have hd := exec_dialing pre c hpre hnew
  -- The number of requests is settled by the answer.
  have hsettled : ∃ n, (n = 1 ↔ HungUpOnce c o) ∧ Settled n c1 := by
    simp only [callStep] at hstep
    split at hstep
    · rename_i hpending
      rw [← Option.some.inj hstep] at hest ⊢
      rcases inviteResp_cases c r o with ⟨ls, heq | ⟨_, heq⟩ | heq | heq⟩
      · rw [heq] at hest
        exact absurd (hest.symm.trans hnew) (by simp only [reduceCtorEq, not_false_eq_true])
      · rw [heq] at hest
        exact absurd (hest.symm.trans hnew) (by simp only [reduceCtorEq, not_false_eq_true])
      · rw [heq, inviteOut_established] at hest
        exact absurd (hest.symm.trans hnew) (by simp only [reduceCtorEq, not_false_eq_true])
      · rw [heq]
        exact answered_settled c ls o hd hpending.2
    · exact absurd hstep (by simp only [reduceCtorEq, not_false_eq_true])
  rcases hsettled with ⟨n, hn, hs⟩
  have hend := exec_invariant_along callStep (fun _ e => Closing e) (Settled n)
    (fun d e d' hd he hde => callStep_settled n d d' e hd he hde) later c1 c2 hs
    (along_of_forall callStep Closing later c1 hlater) hrun
  rw [hend.byes]
  exact hn

/-- Everything a handler asks of the stack succeeds. -/
def allAccepted : Outcome := ⟨true, true, true, true, true, true, true⟩

/-- The stack refuses the BYE of the session. That of `establish_handler` is
    challenged, which nobody answers, and then the peer hangs up. -/
theorem hung_up_once_iff_run :
    ∃ c1 c2, callStep callInit (.inviteResp ⟨false, 200⟩ { allAccepted with sent := false }) =
        some c1 ∧
      exec callStep c1 [.inDialogResp ⟨false, 401⟩, .peerBye true true] = some c2 ∧
      c2.sess.byes = 1 := by
  refine ⟨_, _, rfl, rfl, ?_⟩
  refine (hung_up_once_iff [] [.inDialogResp ⟨false, 401⟩, .peerBye true true] ⟨false, 200⟩
    { allAccepted with sent := false } callInit _ _ rfl rfl rfl rfl (fun e he => ?_) rfl).mpr ?_
  · simp only [List.mem_cons, List.not_mem_nil, or_false] at he
    rcases he with he | he
    · rw [he]
      trivial
    · rw [he]
      trivial
  · exact ⟨rfl, rfl, by decide⟩

/-- A call that is answered with 200 while nothing fails is hung up twice. -/
theorem answered_call_is_hung_up_twice :
    ∃ c1 c2, callInit.sess.established = false ∧
      callStep callInit (.inviteResp ⟨false, 200⟩ allAccepted) = some c1 ∧
      c1.sess.established = true ∧
      exec callStep c1 [.inDialogResp ⟨false, 200⟩, .byeResp ⟨false, 200⟩ allAccepted] = some c2 ∧
      c2.sess.nrefs = 0 ∧ c2.sess.byes = 2 ∧ c2.sess.resends = 0 :=
  ⟨_, _, rfl, rfl, rfl, rfl, rfl, rfl, rfl⟩

end Sipsess

end SipPerf
