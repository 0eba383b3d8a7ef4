import SipPerf.Lib.Transition
import SipPerf.Theory.HangUp.Dialing

/-!
# Established Calls

A session that is established stays so, and one that is hung up does not send
another BYE: it is past the point at which it does, and responses and BYEs from
the peer only lead it to its end.

## Main definitions

* `Settled`: What holds of a call that was answered, with the number of its BYE
  requests.
* `Closing`: The events that can follow.

## Theorems

* `established_stays`: A session stays established.
* `callStep_dialing`: A call that is not established stays one of the three.
* `callStep_settled`: Nothing that follows the answer changes the number of BYE
  requests.
-/

namespace SipPerf

namespace Sipsess

open Transition

/-! ## Established for good -/

theorem sipsessBye_established (s : Sess) (resetLs sent : Bool) :
    (sipsessBye s resetLs sent).1.established = s.established := by
  unfold sipsessBye
  by_cases hreq : s.req.isSome = true
  · rw [if_pos hreq]
  · rw [if_neg hreq]
    cases resetLs <;> cases sent <;> rfl

theorem terminate_established (s : Sess) (sent : Bool) :
    (terminate s sent).1.established = s.established := by
  have hbye := sipsessBye_established { s with terminated := 2 } true sent
  unfold terminate
  simp only
  split
  · rfl
  · split
    · exact hbye
    · exact hbye

theorem termwait_established (s : Sess) : (termwait s).1.established = s.established := by
  unfold termwait waitIf memRef
  split <;> split <;> split <;> rfl

theorem destructorCase1_established (s : Sess) (sent : Bool) :
    (destructorCase1 s sent).established = s.established := by
  unfold destructorCase1
  simp only
  split
  · exact terminate_established s sent
  · exact terminate_established s sent

theorem memDeref_established (s : Sess) (sent : Bool) :
    (memDeref s sent).established = s.established := by
  unfold memDeref destructor
  simp only
  split
  · rfl
  · split
    · split
      · exact termwait_established _
      · exact (destructorCase1_established _ sent).trans (termwait_established _)
    · split
      · exact destructorCase1_established _ sent
      · rfl

theorem derefSess_established (c : Call) (sent : Bool) :
    (derefSess c sent).sess.established = c.sess.established := by
  unfold derefSess
  split
  · exact memDeref_established c.sess sent
  · rfl

theorem establishHandler_established (c : Call) (bye sent : Bool) :
    (establishHandler c bye sent).sess.established = c.sess.established := by
  unfold establishHandler
  split
  · split
    · exact derefSess_established _ sent
    · exact derefSess_established c sent
  · rfl

theorem sipsessTerminate_established (c : Call) (sent : Bool) :
    (sipsessTerminate c sent).sess.established = c.sess.established := by
  unfold sipsessTerminate closeHandler
  simp only
  split
  · rfl
  · rw [derefSess_established]
    simp only
    split
    · exact termwait_established c.sess
    · exact (terminate_established _ sent).trans (termwait_established c.sess)

theorem inviteOut_established (c : Call) (o : Outcome) :
    (inviteOut c o).sess.established = c.sess.established := by
  unfold inviteOut
  split
  · exact sipsessTerminate_established c o.sent
  · exact memDeref_established c.sess o.sent

theorem answered_established (c : Call) (ls : LoopState) (o : Outcome) :
    (if o.acked = false ∨ c.sess.terminated ≠ 0 then
        inviteOut { c with sess := answered c.sess ls } o
      else establishHandler { c with sess := answered c.sess ls } o.bye o.sent).sess.established =
      true := by
  split
  · exact inviteOut_established _ o
  · exact establishHandler_established _ o.bye o.sent

theorem byeRespHandler_established (s : Sess) (r : Response) (o : Outcome) :
    (byeRespHandler s r o).established = s.established := by
  unfold byeRespHandler
  simp only
  split
  · exact memDeref_established s o.sent
  · split
    · exact memDeref_established _ o.sent
    · split
      · rfl
      · split
        · split
          · exact sipsessBye_established _ false o.again
          · exact (memDeref_established _ o.sent).trans (sipsessBye_established _ false o.again)
        · exact memDeref_established _ o.sent

theorem byeHandler_established (c : Call) (valid sent : Bool) :
    (byeHandler c valid sent).sess.established = c.sess.established := by
  unfold byeHandler
  simp only
  split
  · rfl
  · split
    · rfl
    · exact sipsessTerminate_established _ sent

theorem finished_established (s : Sess) (r : Response) :
    (finished s r).established = s.established := by
  unfold finished
  split
  · rfl
  · rfl

/-- An established session stays established. -/
theorem established_stays (c c' : Call) (e : CallEvent) (h : callStep c e = some c')
    (hest : c.sess.established = true) : c'.sess.established = true := by
  cases e with
  | inviteResp r o =>
      simp only [callStep] at h
      split at h
      · rw [← Option.some.inj h]
        rcases inviteResp_cases c r o with ⟨ls, heq | ⟨_, heq⟩ | heq | heq⟩
        · rw [heq]
          exact hest
        · rw [heq]
          exact hest
        · rw [heq, inviteOut_established]
          exact hest
        · rw [heq]
          exact answered_established c ls o
      · exact absurd h (by simp only [reduceCtorEq, not_false_eq_true])
  | byeResp r o =>
      simp only [callStep] at h
      split at h
      · rw [← Option.some.inj h, byeRespHandler_established, finished_established]
        exact hest
      · exact absurd h (by simp only [reduceCtorEq, not_false_eq_true])
  | inDialogResp r =>
      rw [← Option.some.inj h]
      exact hest
  | peerBye valid sent =>
      rw [← Option.some.inj h, byeHandler_established]
      exact hest
  | connect accepted =>
      rw [← Option.some.inj h]
      exact hest
  | call connected =>
      rw [← Option.some.inj h]
      exact hest
  | otherEstablished bye sent =>
      rw [← Option.some.inj h, establishHandler_established]
      exact hest
  | otherClosed sent =>
      rw [← Option.some.inj h, closeHandler, derefSess_established]
      exact hest

/-- A call that is not established stays one of the three. -/
theorem callStep_dialing (c c' : Call) (e : CallEvent) (hd : Dialing c)
    (h : callStep c e = some c') (hest : c'.sess.established = false) : Dialing c' := by
  have hu := hd.unanswered
  cases e with
  | inviteResp r o =>
      simp only [callStep] at h
      split at h
      · rename_i hpending
        rw [← Option.some.inj h]
        -- A session that has failed has no INVITE to be answered.
        have hstate : Ringing c.sess ∨ (Waiting c.sess ∧ c.ptr ≠ some .this) := by
          rcases hd.state with hr | hw | hf
          · exact Or.inl hr
          · exact Or.inr hw
          · rw [hf.req] at hpending
            exact absurd hpending.2 (by simp only [reduceCtorEq, not_false_eq_true])
        rcases inviteResp_cases c r o with ⟨ls, heq | ⟨hzero, heq⟩ | heq | heq⟩
        · rw [heq]
          refine ⟨⟨hu.established, hu.rtag, hu.peerterm, hu.replyl, hu.requestl⟩, ?_⟩
          rcases hstate with hr | ⟨hw, hne⟩
          · exact Or.inl ⟨hr.terminated, hr.nrefs, hr.byes, hr.req⟩
          · exact Or.inr (Or.inl ⟨⟨hw.terminated, hw.nrefs, hw.byes, hw.req⟩, hne⟩)
        · rw [heq]
          refine ⟨⟨hu.established, hu.rtag, hu.peerterm, hu.replyl, hu.requestl⟩, Or.inl ?_⟩
          rcases hstate with hr | ⟨hw, _⟩
          · exact ⟨hr.terminated, hr.nrefs, hr.byes, rfl⟩
          · rw [hw.terminated] at hzero
            exact absurd hzero Nat.one_ne_zero
        · rw [heq]
          refine inviteOut_dialing _ o
            ⟨hu.established, hu.rtag, hu.peerterm, hu.replyl, hu.requestl⟩ rfl ?_
          rcases hstate with hr | ⟨hw, _⟩
          · exact Or.inl hr.terminated
          · exact Or.inr ⟨hw.terminated, hw.nrefs⟩
        · -- Establishing it is what the hypothesis excludes.
          rw [← Option.some.inj h, heq, answered_established] at hest
          exact absurd hest (by simp only [reduceCtorEq, not_false_eq_true])
      · exact absurd h (by simp only [reduceCtorEq, not_false_eq_true])
  | byeResp r o =>
      simp only [callStep] at h
      split at h
      · rename_i hpending
        -- No BYE of the session is pending before it is established.
        rcases hd.state with hr | ⟨hw, _⟩ | hf
        · rw [hr.req] at hpending
          exact absurd hpending.2 (by decide)
        · rw [hw.req] at hpending
          exact absurd hpending.2 (by decide)
        · rw [hf.req] at hpending
          exact absurd hpending.2 (by decide)
      · exact absurd h (by simp only [reduceCtorEq, not_false_eq_true])
  | inDialogResp r =>
      rw [← Option.some.inj h]
      exact hd
  | peerBye valid sent =>
      -- Without the peer's tag the dialog matches no request.
      rw [← Option.some.inj h, byeHandler, if_pos (Or.inl hu.rtag)]
      exact hd
  | connect accepted =>
      rw [← Option.some.inj h]
      refine dialing_ptr c false _ hd ?_
      cases accepted with
      | true => exact Or.inl (by simp only [if_true, ne_eq, Option.some.injEq, reduceCtorEq,
          not_false_eq_true])
      | false => exact Or.inr rfl
  | call connected =>
      rw [← Option.some.inj h]
      refine dialing_ptr c true _ hd ?_
      cases connected with
      | true => exact Or.inl (by simp only [if_true, ne_eq, Option.some.injEq, reduceCtorEq,
          not_false_eq_true])
      | false => exact Or.inr rfl
  | otherEstablished bye sent =>
      rw [← Option.some.inj h]
      exact establishHandler_dialing c bye sent hd
  | otherClosed sent =>
      rw [← Option.some.inj h]
      exact derefSess_dialing c sent hd

/-- A call that has not been established by the end of a run was not during
    it. -/
theorem exec_dialing (es : List CallEvent) (c : Call) (h : exec callStep callInit es = some c)
    (hest : c.sess.established = false) : Dialing c := by
  -- The run may establish the session, but then it would still be so.
  have hinv := exec_invariant callStep (fun d => d.sess.established = true ∨ Dialing d)
    (fun d e d' hd hstep => ?_) es callInit c (Or.inr callInit_dialing) h
  · rcases hinv with htrue | hd
    · rw [hest] at htrue
      exact absurd htrue (by simp only [reduceCtorEq, not_false_eq_true])
    · exact hd
  · rcases hd with htrue | hd
    · exact Or.inl (established_stays d d' e hstep htrue)
    · cases hest' : d'.sess.established with
      | true => exact Or.inl rfl
      | false => exact Or.inr (callStep_dialing d d' e hd hstep hest')

/-! ## After the answer -/

/-- An established call for which `n` BYE requests have been sent. It is past
    the point at which the session sends its own, or nobody hangs it up. -/
structure Settled (n : Nat) (c : Call) : Prop where
  byes : c.sess.byes = n
  state : c.sess.terminated = 2 ∨ (c.sess.terminated = 0 ∧ c.sess.req = none ∧
    c.sess.replyl = 0 ∧ c.sess.requestl = 0)

/-- What can follow: responses to the BYE requests, among them the errors of
    timers that expire, and BYEs from the peer. -/
def Closing : CallEvent → Prop
  | .byeResp _ _ => True
  | .inDialogResp _ => True
  | .peerBye _ _ => True
  | _ => False

theorem memDeref_byes (s : Sess) (sent : Bool) (h : s.terminated = 2) :
    (memDeref s sent).terminated = 2 ∧ (memDeref s sent).byes = s.byes := by
  rcases memDeref_over s sent h with heq | heq
  · rw [heq]
    exact ⟨h, rfl⟩
  · rw [heq]
    exact ⟨h, rfl⟩

theorem derefSess_byes (c : Call) (sent : Bool) (h : c.sess.terminated = 2) :
    (derefSess c sent).sess.terminated = 2 ∧ (derefSess c sent).sess.byes = c.sess.byes := by
  unfold derefSess
  split
  · exact memDeref_byes c.sess sent h
  · exact ⟨h, rfl⟩

/-- The BYE sent again is not another. -/
theorem sipsessBye_again (s : Sess) (sent : Bool) :
    (sipsessBye s false sent).1.terminated = s.terminated ∧
      (sipsessBye s false sent).1.byes = s.byes := by
  unfold sipsessBye
  by_cases hreq : s.req.isSome = true
  · rw [if_pos hreq]
    exact ⟨rfl, rfl⟩
  · rw [if_neg hreq]
    cases sent with
    | true => exact ⟨rfl, rfl⟩
    | false => exact ⟨rfl, rfl⟩

/-- A response to the BYE of the session leads to its end, or to the BYE being
    sent again. -/
theorem byeRespHandler_byes (s : Sess) (r : Response) (o : Outcome) (h : s.terminated = 2) :
    (byeRespHandler s r o).terminated = 2 ∧ (byeRespHandler s r o).byes = s.byes := by
  unfold byeRespHandler
  simp only
  split
  · exact memDeref_byes s o.sent h
  · split
    · exact memDeref_byes _ o.sent h
    · split
      · exact ⟨h, rfl⟩
      · split
        · rcases sipsessBye_again { s with ls := (sipRequestLoops s.ls r.scode).1 } o.again with
            ⟨hterm, hbyes⟩
          split
          · exact ⟨hterm.trans h, hbyes⟩
          · rcases memDeref_byes _ o.sent (hterm.trans h) with ⟨hterm', hbyes'⟩
            exact ⟨hterm', hbyes'.trans hbyes⟩
        · exact memDeref_byes _ o.sent h

theorem callStep_settled (n : Nat) (c c' : Call) (e : CallEvent) (hs : Settled n c)
    (he : Closing e) (h : callStep c e = some c') : Settled n c' := by
  cases e with
  | inviteResp r o => exact absurd he id
  | byeResp r o =>
      simp only [callStep] at h
      split at h
      · rename_i hpending
        rw [← Option.some.inj h]
        rcases hs.state with hterm | ⟨_, hreq, _⟩
        · have hfin : (finished c.sess r).terminated = 2 ∧ (finished c.sess r).byes = n := by
            unfold finished
            split
            · exact ⟨hterm, hs.byes⟩
            · exact ⟨hterm, hs.byes⟩
          rcases byeRespHandler_byes (finished c.sess r) r o hfin.1 with ⟨hterm', hbyes⟩
          exact ⟨hbyes.trans hfin.2, Or.inl hterm'⟩
        · -- Nobody has hung up, so there is no BYE to be answered.
          rw [hreq] at hpending
          exact absurd hpending.2 (by simp only [reduceCtorEq, not_false_eq_true])
      · exact absurd h (by simp only [reduceCtorEq, not_false_eq_true])
  | inDialogResp r =>
      rw [← Option.some.inj h]
      exact hs
  | peerBye valid sent =>
      rw [← Option.some.inj h]
      unfold byeHandler
      simp only
      split
      · exact hs
      · rcases hs.state with hterm | ⟨hzero, hreq, hreply, hrequest⟩
        · -- Too late: the session has had its turn.
          rw [if_pos (by rw [hterm]; exact Nat.succ_ne_zero 1)]
          exact ⟨hs.byes, Or.inl hterm⟩
        · -- The peer hangs up first, so the session sends no BYE.
          rw [if_neg (not_not.mpr hzero), sipsessTerminate, if_neg (not_not.mpr hzero),
            termwait_idle { c.sess with peerterm := true } hreq hreply hrequest]
          simp only [Bool.false_eq_true, if_false]
          rw [terminate_silent { c.sess with peerterm := true, terminated := 1 } sent (Or.inr rfl)]
          rcases derefSess_byes { c with
            sess := { c.sess with peerterm := true, terminated := 2 } } sent rfl with ⟨hterm, hbyes⟩
          exact ⟨hbyes.trans hs.byes, Or.inl hterm⟩
  | connect accepted => exact absurd he id
  | call connected => exact absurd he id
  | otherEstablished bye sent => exact absurd he id
  | otherClosed sent => exact absurd he id

end Sipsess

end SipPerf
