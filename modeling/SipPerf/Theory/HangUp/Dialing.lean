import SipPerf.Core.Sipsess

/-!
# Before a Call is Answered

A call that is not established is in one of three states. It is ringing; or
another call of the same user agent has released it and it waits for its INVITE
to be answered; or it has failed. The other calls of a user agent get between a
call and its end, for they share the flag that says who is the caller and the
pointer that says which session it is.

## Main definitions

* `Unanswered`, `Ringing`, `Waiting`, `Failed`: The states.
* `Dialing`: What holds of a call that is not established.
* `answered`: The session when the INVITE has been answered.

## Theorems

* `terminate_silent`, `terminate_bye`: The end of a session, by whether it
  sends a BYE.
* `derefSess_dialing`, `establishHandler_dialing`: What other calls do.
* `inviteResp_cases`: What a response to the INVITE comes to.
-/

namespace SipPerf

namespace Sipsess

/-! ## The end of a session -/

theorem waitIf_none (r : Sess × Bool) (n : Nat) (h : n = 0) : waitIf (decide (0 < n)) r = r := by
  simp only [waitIf, h, Nat.lt_irrefl, decide_false, Bool.false_eq_true, if_false]

theorem termwait_idle (s : Sess) (hreq : s.req = none) (hreply : s.replyl = 0)
    (hrequest : s.requestl = 0) : termwait s = ({ s with terminated := 1 }, false) := by
  unfold termwait
  rw [waitIf_none _ _ hrequest, waitIf_none _ _ hreply, waitIf, hreq]
  rfl

/-- A session that is let go of while its INVITE is pending waits for the
    answer. -/
theorem termwait_pending (s : Sess) (hreq : s.req = some .invite) (hreply : s.replyl = 0)
    (hrequest : s.requestl = 0) :
    termwait s = (memRef { s with terminated := 1 }, true) := by
  unfold termwait
  rw [waitIf_none _ _ hrequest, waitIf_none _ _ hreply, waitIf, hreq]
  rfl

theorem terminate_silent (s : Sess) (sent : Bool) (h : s.established = false ∨ s.peerterm = true) :
    terminate s sent = ({ s with terminated := 2 }, false) := by
  unfold terminate
  have hc : (!s.established || s.peerterm) = true := by
    rcases h with h | h
    · rw [h]
      rfl
    · rw [h, Bool.or_true]
  simp only [hc, if_true]

/-- The BYE of the session, if the stack accepts it. -/
theorem terminate_bye (s : Sess) (sent : Bool) (hest : s.established = true)
    (hpeer : s.peerterm = false) (hreq : s.req = none) :
    (terminate s sent).1.terminated = 2 ∧
      (terminate s sent).1.byes = s.byes + sent.toNat := by
  cases sent with
  | true => simp [terminate, sipsessBye, hest, hpeer, hreq, memRef]
  | false => simp [terminate, sipsessBye, hest, hpeer, hreq]

/-- Releasing the last reference runs the destructor. -/
theorem memDeref_last (s : Sess) (sent : Bool) (h : s.nrefs = 1) :
    memDeref s sent = destructor { s with nrefs := 0 } sent := by
  simp only [memDeref, h, Nat.sub_self, Nat.lt_irrefl, if_false]

/-- Past its BYE a session only goes. -/
theorem memDeref_over (s : Sess) (sent : Bool) (h : s.terminated = 2) :
    memDeref s sent = { s with nrefs := s.nrefs - 1 } ∨
      memDeref s sent = release { s with nrefs := s.nrefs - 1 } := by
  unfold memDeref
  by_cases hn : 0 < s.nrefs - 1
  · exact Or.inl (if_pos hn)
  · refine Or.inr ?_
    simp only [if_neg hn, destructor, h]
    rfl

/-! ## Before the answer -/

/-- The session is not established, and the peer's tag is not known. -/
structure Unanswered (s : Sess) : Prop where
  established : s.established = false
  rtag : s.rtag = false
  peerterm : s.peerterm = false
  replyl : s.replyl = 0
  requestl : s.requestl = 0

/-- The INVITE is pending, and the user agent has its reference. -/
structure Ringing (s : Sess) : Prop where
  terminated : s.terminated = 0
  nrefs : s.nrefs = 1
  byes : s.byes = 0
  req : s.req = some .invite

/-- The INVITE is pending, and the session is only waiting for it. -/
structure Waiting (s : Sess) : Prop where
  terminated : s.terminated = 1
  nrefs : s.nrefs = 1
  byes : s.byes ≤ 1
  req : s.req = some .invite

/-- The INVITE has failed. -/
structure Failed (s : Sess) : Prop where
  terminated : s.terminated = 2
  req : s.req = none

/-- What holds of a call that is not established. -/
structure Dialing (c : Call) : Prop where
  unanswered : Unanswered c.sess
  state : Ringing c.sess ∨ (Waiting c.sess ∧ c.ptr ≠ some .this) ∨ Failed c.sess

theorem callInit_dialing : Dialing callInit :=
  ⟨⟨rfl, rfl, rfl, rfl, rfl⟩, Or.inl ⟨rfl, rfl, rfl, rfl⟩⟩

theorem memDeref_failed (s : Sess) (sent : Bool) (hu : Unanswered s) (h : Failed s) :
    Unanswered (memDeref s sent) ∧ Failed (memDeref s sent) := by
  rcases memDeref_over s sent h.terminated with heq | heq
  · rw [heq]
    exact ⟨⟨hu.established, hu.rtag, hu.peerterm, hu.replyl, hu.requestl⟩, ⟨h.terminated, h.req⟩⟩
  · rw [heq]
    exact ⟨⟨hu.established, hu.rtag, hu.peerterm, rfl, rfl⟩, ⟨h.terminated, rfl⟩⟩

/-- A session that is released while it rings starts to wait. -/
theorem memDeref_ringing (s : Sess) (sent : Bool) (hu : Unanswered s) (hnrefs : s.nrefs = 1)
    (hterm : s.terminated = 0) (hreq : s.req = some .invite) :
    memDeref s sent = { s with nrefs := 1, terminated := 1 } := by
  rw [memDeref_last s sent hnrefs, destructor, if_pos hterm,
    termwait_pending { s with nrefs := 0 } hreq hu.replyl hu.requestl]
  rfl

/-- The user agent releases this session, perhaps after a BYE on its dialog. -/
theorem release_dialing (c : Call) (sent : Bool) (hu : Unanswered c.sess)
    (h : (c.sess.terminated = 0 ∧ c.sess.nrefs = 1 ∧ c.sess.byes ≤ 1 ∧
      c.sess.req = some .invite) ∨ Failed c.sess) :
    Dialing { c with sess := memDeref c.sess sent, ptr := none } := by
  rcases h with ⟨hterm, hnrefs, hbyes, hreq⟩ | hfail
  · -- The request is pending, so the destructor brings the session back to
    -- wait for it.
    rw [memDeref_ringing c.sess sent hu hnrefs hterm hreq]
    refine ⟨⟨hu.established, hu.rtag, hu.peerterm, hu.replyl, hu.requestl⟩,
      Or.inr (Or.inl ⟨⟨rfl, rfl, hbyes, hreq⟩, ?_⟩)⟩
    simp only [ne_eq, reduceCtorEq, not_false_eq_true]
  · rcases memDeref_failed c.sess sent hu hfail with ⟨hu', hfail'⟩
    exact ⟨hu', Or.inr (Or.inr hfail')⟩

/-- Only a session the pointer does not name is waiting. -/
theorem dialing_this (c : Call) (h : Dialing c) (hptr : c.ptr = some .this) :
    Ringing c.sess ∨ Failed c.sess := by
  rcases h.state with hr | ⟨_, hne⟩ | hf
  · exact Or.inl hr
  · exact absurd hptr hne
  · exact Or.inr hf

/-- The pointer comes to name another session, or none. -/
theorem dialing_ptr (c : Call) (caller : Bool) (ptr : Option SessPtr) (h : Dialing c)
    (hptr : ptr ≠ some .this ∨ ptr = c.ptr) : Dialing { c with caller := caller, ptr := ptr } := by
  refine ⟨h.unanswered, ?_⟩
  rcases h.state with hr | ⟨hw, hne⟩ | hf
  · exact Or.inl hr
  · refine Or.inr (Or.inl ⟨hw, ?_⟩)
    rcases hptr with hp | hp
    · exact hp
    · rw [hp]
      exact hne
  · exact Or.inr (Or.inr hf)

theorem derefSess_dialing (c : Call) (sent : Bool) (h : Dialing c) : Dialing (derefSess c sent) := by
  have hcleared : Dialing { c with ptr := none } :=
    dialing_ptr c c.caller none h (Or.inl (by simp only [ne_eq, reduceCtorEq, not_false_eq_true]))
  unfold derefSess
  cases hptr : c.ptr with
  | none => exact hcleared
  | some p =>
      cases p with
      | other => exact hcleared
      | this =>
          refine release_dialing c sent h.unanswered ?_
          rcases dialing_this c h hptr with hr | hf
          · exact Or.inl ⟨hr.terminated, hr.nrefs, le_of_eq_of_le hr.byes (Nat.zero_le 1), hr.req⟩
          · exact Or.inr hf

/-- Another session of the user agent is established. If the pointer names
    this one, it is this one that gets a BYE and is released. -/
theorem establishHandler_dialing (c : Call) (bye sent : Bool) (h : Dialing c) :
    Dialing (establishHandler c bye sent) := by
  unfold establishHandler
  by_cases hcaller : c.caller = true
  · rw [if_pos hcaller]
    cases hptr : c.ptr with
    | none => exact derefSess_dialing c sent h
    | some p =>
        cases p with
        | other => exact derefSess_dialing c sent h
        | this =>
            -- The BYE goes out on a dialog that nobody has answered yet.
            have hu := h.unanswered
            simp only [derefSess]
            refine release_dialing { c with
                sess := { c.sess with byes := if bye then c.sess.byes + 1 else c.sess.byes } } sent
              ⟨hu.established, hu.rtag, hu.peerterm, hu.replyl, hu.requestl⟩ ?_
            rcases dialing_this c h hptr with hr | hf
            · refine Or.inl ⟨hr.terminated, hr.nrefs, ?_, hr.req⟩
              simp only [hr.byes]
              split
              · exact Nat.le_refl _
              · exact Nat.zero_le _
            · exact Or.inr ⟨hf.terminated, hf.req⟩
  · rw [if_neg hcaller]
    exact h

/-- The session of an INVITE that fails. -/
theorem inviteOut_dialing (c : Call) (o : Outcome) (hu : Unanswered c.sess)
    (hreq : c.sess.req = none) (hterm : c.sess.terminated = 0 ∨
      (c.sess.terminated = 1 ∧ c.sess.nrefs = 1)) : Dialing (inviteOut c o) := by
  unfold inviteOut
  rcases hterm with hzero | ⟨hone, hnrefs⟩
  · -- In use: the user agent is told, and releases it if its pointer still
    -- names it.
    rw [if_pos hzero, sipsessTerminate, if_neg (not_not.mpr hzero),
      termwait_idle c.sess hreq hu.replyl hu.requestl]
    simp only [Bool.false_eq_true, if_false]
    rw [terminate_silent { c.sess with terminated := 1 } o.sent (Or.inl hu.established)]
    refine derefSess_dialing _ o.sent ⟨?_, Or.inr (Or.inr ⟨rfl, hreq⟩)⟩
    exact ⟨hu.established, hu.rtag, hu.peerterm, hu.replyl, hu.requestl⟩
  · -- Let go of before: what it was waiting for has come, and it is freed.
    rw [if_neg (by rw [hone]; exact Nat.one_ne_zero), memDeref_last c.sess o.sent hnrefs,
      destructor, if_neg (by simp only [hone, Nat.one_ne_zero, not_false_eq_true]), if_pos hone,
      destructorCase1, terminate_silent { c.sess with nrefs := 0 } o.sent (Or.inl hu.established)]
    exact ⟨⟨hu.established, hu.rtag, hu.peerterm, rfl, rfl⟩, Or.inr (Or.inr ⟨rfl, rfl⟩)⟩

/-- A redirection or a challenge is followed up, if that works out. -/
theorem inviteAgain_cases (c : Call) (o : Outcome) :
    inviteAgain c o = { c with sess := { c.sess with req := some .invite } } ∨
      inviteAgain c o = inviteOut c o := by
  unfold inviteAgain
  by_cases hok : o.again = true
  · exact Or.inl (if_pos hok)
  · exact Or.inr (if_neg hok)

/-- The session with the INVITE answered. -/
def answered (s : Sess) (ls : LoopState) : Sess :=
  { s with ls := ls, req := none, rtag := true, established := true }

/-- What a response to the INVITE can do: nothing, send another INVITE, end
    the session, or establish it. -/
theorem inviteResp_cases (c : Call) (r : Response) (o : Outcome) :
    ∃ ls, inviteRespHandler { c with sess := finished c.sess r } r o =
        { c with sess := { c.sess with ls := ls } } ∨
      (c.sess.terminated = 0 ∧ inviteRespHandler { c with sess := finished c.sess r } r o =
        { c with sess := { c.sess with ls := ls, req := some .invite } }) ∨
      inviteRespHandler { c with sess := finished c.sess r } r o =
        inviteOut { c with sess := { c.sess with ls := ls, req := none } } o ∨
      inviteRespHandler { c with sess := finished c.sess r } r o =
        if o.acked = false ∨ c.sess.terminated ≠ 0 then
          inviteOut { c with sess := answered c.sess ls } o
        else establishHandler { c with sess := answered c.sess ls } o.bye o.sent := by
  -- In the order of the tests of `invite_resp_handler`.
  by_cases herr : r.err = true
  · refine ⟨c.sess.ls, Or.inr (Or.inr (Or.inl ?_))⟩
    simp only [inviteRespHandler, herr, finished, if_true, Bool.true_eq_false, false_and, if_false]
  · have herr' : r.err = false := by simpa using herr
    by_cases hprov : r.scode < 200
    · refine ⟨c.sess.ls, Or.inl ?_⟩
      simp only [inviteRespHandler, herr', finished, hprov, sipRequestLoops, and_self, if_true,
        Bool.false_eq_true, if_false]
    · have hfin : finished c.sess r = { c.sess with req := none } := by
        simp only [finished, hprov, and_false, if_false]
      refine ⟨(sipRequestLoops c.sess.ls r.scode).1, Or.inr ?_⟩
      rw [hfin]
      simp only [inviteRespHandler, herr', Bool.false_eq_true, if_false]
      by_cases hloop : (sipRequestLoops c.sess.ls r.scode).2 = true
      · refine Or.inr (Or.inl ?_)
        rw [if_pos hloop]
      · rw [if_neg hloop, if_neg hprov]
        -- A final response: the request is no longer pending whatever it is.
        by_cases hsucc : r.scode < 300
        · rw [if_pos hsucc]
          by_cases hcreated : o.created = true
          · refine Or.inr (Or.inr ?_)
            rw [if_pos hcreated]
            simp only [Bool.not_eq_eq_eq_not, Bool.not_true]
            rfl
          · refine Or.inr (Or.inl ?_)
            rw [if_neg hcreated]
        · rw [if_neg hsucc]
          by_cases hterm : c.sess.terminated ≠ 0
          · refine Or.inr (Or.inl ?_)
            rw [if_pos hterm]
          · have hzero : c.sess.terminated = 0 := not_not.mp hterm
            rw [if_neg hterm]
            by_cases hredirect : r.scode < 400
            · rw [if_pos hredirect]
              by_cases hupdated : o.updated = true
              · rw [if_pos hupdated]
                rcases inviteAgain_cases _ o with h | h
                · exact Or.inl ⟨hzero, h⟩
                · exact Or.inr (Or.inl h)
              · refine Or.inr (Or.inl ?_)
                rw [if_neg hupdated]
            · rw [if_neg hredirect]
              by_cases hauth : (r.scode = 401 ∨ r.scode = 407) ∧ o.authenticated = true
              · rw [if_pos hauth]
                rcases inviteAgain_cases _ o with h | h
                · exact Or.inl ⟨hzero, h⟩
                · exact Or.inr (Or.inl h)
              · refine Or.inr (Or.inl ?_)
                rw [if_neg hauth]

end Sipsess

end SipPerf
