import SipPerf.Theory.RegistrationClient.Waiting

/-!
# What a Registration Client Leaves Behind

A client that its owner has let go of reports nothing. It is gone after a
bounded number of results, and if it was registered it has taken that back
before, as long as the stack takes its requests.

## Main definitions

* `remaining`: How many results a client that was let go of can still take.
* `TakenBack`: A registration that was or will be taken back.

## Theorems

* `regStep_ends`, `regStep_takenBack`: One event.
* `released_client_ends`: What remains to be done after the owner let go.
* `registration_is_taken_back`: No registration is left behind.
-/

namespace SipPerf

namespace Sipreg

open MachineInt Sipsess Transition

/-! ## The end of a client -/

/-- A request has come to its end. -/
def RegEvent.isFinal : RegEvent → Bool
  | .response result _ _ _ _ => !result.isProvisional
  | .timer _ _ _ _ => false
  | .keepalive _ _ _ => false
  | .release _ _ => false

/-- How many results the client can still take, if it has no owner. -/
def remaining : Option Reg → Nat
  | none => 0
  | some reg => 16 - reg.ls.failc + if reg.expires = 0 then 0 else 16

/-- What a client without an owner does about a result. -/
theorem answers_ends (reg : Reg) (grant : Option Nat) (now : Nat) (ok : Prop)
    (r : Option Reg × List RegOut) (ha : Answers reg grant now ok r) (h : LetGo reg) :
    r.2.length ≤ 1 ∧ (∀ o ∈ r.2, o = .register 0) ∧ remaining r.1 + 1 ≤ remaining (some reg) := by
  have hlimit := h.limit
  cases ha with
  | repeats reg1 hr1 _ _ hls _ _ _ hzero _ _ =>
      rw [hr1]
      refine ⟨Nat.le_refl 1, fun o ho => ?_, ?_⟩
      · rw [List.mem_singleton.mp ho, hzero h.terminated]
      · simp only [remaining, hls, hzero h.terminated, if_true]
        omega
  | ends hr1 _ _ =>
      rw [hr1]
      refine ⟨Nat.zero_le 1, fun o ho => absurd ho List.not_mem_nil, ?_⟩
      simp only [remaining]
      omega
  | unregisters reg1 hr1 _ _ hwas hexp _ hls _ =>
      rw [hr1]
      refine ⟨Nat.le_refl 1, fun o ho => List.mem_singleton.mp ho, ?_⟩
      simp only [remaining, hls, hexp, hwas, if_true, if_false]
      omega
  | waits reg1 err scode _ hterm _ _ _ _ _ _ =>
      rw [h.terminated] at hterm
      exact absurd hterm (by decide)

/-- One event of a client without an owner. -/
theorem regStep_ends (s : RegRun) (e : RegEvent) (s' : RegRun) (hs : Sane s)
    (hrel : s.released = true) (h : regStep s e = some s') :
    s'.released = true ∧ ∃ new, s'.outs = new ++ s.outs ∧ (∀ o ∈ new, o = .register 0) ∧
      new.length ≤ e.isFinal.toNat ∧ remaining s'.reg + e.isFinal.toNat ≤ remaining s.reg := by
  rcases regStep_stepped s s' e h with ⟨reg, hreg, hstep⟩
  have hlet := hs.letGo hrel reg hreg
  rw [hreg]
  cases hstep with
  | provisional result now rnd reqerr reqerr2 hreq hprov w =>
      refine ⟨hrel, [], rfl, fun o ho => absurd ho List.not_mem_nil, Nat.zero_le _, ?_⟩
      simp only [RegEvent.isFinal, hprov]
      exact Nat.le_refl _
  | final result now rnd reqerr reqerr2 hreq hfinal =>
      have ha := responseHandler_answers reg result now rnd reqerr reqerr2
        (fun hc => absurd (hlet.terminated.symm.trans hc) (by decide)) hfinal
      rcases answers_ends reg _ now _ _ ha hlet with ⟨hlen, hzero, hrem⟩
      refine ⟨hrel, _, rfl, fun o ho => hzero o (List.mem_reverse.mp ho), ?_, ?_⟩
      · simp only [RegEvent.isFinal, hfinal, List.length_reverse]
        exact hlen
      · simp only [RegEvent.isFinal, hfinal]
        exact hrem
  | timer j now rnd reqerr d htmr =>
      rw [hlet.stopped] at htmr
      exact absurd htmr (by simp only [reduceCtorEq, not_false_eq_true])
  | keepalive err now rnd =>
      simp only [RegRun.after, keepaliveHandler, hlet.pending, true_or, if_true]
      exact ⟨hrel, [], rfl, fun o ho => absurd ho List.not_mem_nil, Nat.zero_le _, Nat.le_refl _⟩
  | release now reqerr hown =>
      rw [hrel] at hown
      exact absurd hown (by decide)

theorem regRun_ends (fs : List RegEvent) : ∀ (s t : RegRun), Sane s → s.released = true →
    exec regStep s fs = some t → Sane t ∧ t.released = true ∧
      ∃ new, t.outs = new ++ s.outs ∧ (∀ o ∈ new, o = .register 0) ∧
      new.length ≤ fs.countP RegEvent.isFinal ∧
      remaining t.reg + fs.countP RegEvent.isFinal ≤ remaining s.reg := by
  induction fs with
  | nil =>
      intro s t hs hrel ht
      simp only [exec, Option.some.injEq] at ht
      rw [← ht]
      exact ⟨hs, hrel, [], rfl, fun o ho => absurd ho List.not_mem_nil, Nat.le_refl 0, Nat.le_refl _⟩
  | cons e fs ih =>
      intro s t hs hrel ht
      rcases exec_cons regStep s t e fs ht with ⟨s', hs', ht'⟩
      rcases regStep_ends s e s' hs hrel hs' with ⟨hrel', new, houts, hzero, hlen, hrem⟩
      rcases ih s' t (regStep_sane s e s' hs hs') hrel' ht' with
        ⟨hsane, hrelt, new', houts', hzero', hlen', hrem'⟩
      have hcount : (e :: fs).countP RegEvent.isFinal =
          fs.countP RegEvent.isFinal + e.isFinal.toNat := by
        rw [List.countP_cons]
        cases e.isFinal <;> rfl
      refine ⟨hsane, hrelt, new' ++ new, ?_, fun o ho => ?_, ?_, ?_⟩
      · rw [houts', houts, List.append_assoc]
      · rcases List.mem_append.mp ho with ho | ho
        · exact hzero' o ho
        · exact hzero o ho
      · rw [List.length_append, hcount]
        omega
      · rw [hcount]
        omega

/-- A client that its owner has let go of reports nothing more, and sends
    nothing but requests to take the registration back, one for a final result
    at most. It takes no more than 32 final results and then is gone. -/
theorem released_client_ends (now expires : Nat) (regid : Int) (hexp : expires ≠ 0)
    (es fs : List RegEvent) (s t : RegRun)
    (hs : exec regStep (regInit now expires regid) es = some s) (hrel : s.released = true)
    (ht : exec regStep s fs = some t) :
    (∃ new, t.outs = new ++ s.outs ∧ (∀ o ∈ new, o = .register 0) ∧
      new.length ≤ fs.countP RegEvent.isFinal) ∧
      fs.countP RegEvent.isFinal ≤ 32 ∧
      (t.reg.isSome = true → fs.countP RegEvent.isFinal < 32) := by
  have hsane := regRun_sane now expires regid hexp es s hs
  rcases regRun_ends fs s t hsane hrel ht with ⟨hsanet, hrelt, new, houts, hzero, hlen, hrem⟩
  -- 16 results for each of the two things that can be asked for.
  have hbound : remaining s.reg ≤ 32 := by
    cases s.reg with
    | none => exact Nat.zero_le 32
    | some reg =>
        simp only [remaining]
        split <;> omega
  refine ⟨⟨new, houts, hzero, hlen⟩, by omega, fun hsome => ?_⟩
  -- A client that is still there can take one more result.
  rcases Option.isSome_iff_exists.mp hsome with ⟨reg, htreg⟩
  have hlimit := (hsanet.letGo hrelt reg htreg).limit
  have hpos : 0 < remaining t.reg := by
    rw [htreg]
    simp only [remaining]
    omega
  omega

/-- A client is let go of while it refreshes its registration. -/
theorem released_client_ends_refresh :
    ∃ s t, exec regStep (regInit 0 60 0)
        [.response (.message ⟨200, [⟨true, some 60⟩], none, none, 0, false⟩) 9 0 0 0,
          .timer 54010 54012 0 0, .release 54015 0] = some s ∧
      exec regStep s [.response (.message ⟨401, [], none, none, 0, false⟩) 54020 0 0 0,
        .response (.message ⟨200, [], none, none, 0, false⟩) 54030 0 0 0] = some t ∧
      t.reg = none ∧ (∃ new, t.outs = new ++ s.outs ∧ (∀ o ∈ new, o = .register 0) ∧
        new.length ≤ [RegEvent.response (.message ⟨401, [], none, none, 0, false⟩) 54020 0 0 0,
          .response (.message ⟨200, [], none, none, 0, false⟩) 54030 0 0 0].countP RegEvent.isFinal) ∧
      2 ≤ 32 ∧ (t.reg.isSome = true → 2 < 32) :=
  ⟨_, _, rfl, rfl, by decide, released_client_ends 0 60 0 (by decide)
    [.response (.message ⟨200, [⟨true, some 60⟩], none, none, 0, false⟩) 9 0 0 0,
      .timer 54010 54012 0 0, .release 54015 0]
    [.response (.message ⟨401, [], none, none, 0, false⟩) 54020 0 0 0,
      .response (.message ⟨200, [], none, none, 0, false⟩) 54030 0 0 0] _ _ rfl rfl rfl⟩

/-! ## Registrations that are left behind -/

/-- The registrar has registered the client. -/
def RegEvent.grants : RegEvent → Bool
  | .response (.message msg) _ _ _ _ => decide (200 ≤ msg.scode ∧ msg.scode < 300)
  | .response (.failure _ _) _ _ _ _ => false
  | .timer _ _ _ _ => false
  | .keepalive _ _ _ => false
  | .release _ _ => false

/-- The stack takes the requests that the client makes about a response, or
    when its owner lets go of it. -/
def RegEvent.accepted : RegEvent → Bool
  | .response _ _ _ reqerr reqerr2 => decide (reqerr = 0 ∧ reqerr2 = 0)
  | .timer _ _ _ _ => true
  | .keepalive _ _ _ => true
  | .release _ reqerr => decide (reqerr = 0)

/-- A client that does not ask for a registration any more has said so. -/
def Told (s : RegRun) : Prop :=
  ∀ reg, s.reg = some reg → reg.expires = 0 → .register 0 ∈ s.outs

/-- A registration was taken back, or can still be. -/
def TakenBack (s : RegRun) : Prop :=
  .register 0 ∈ s.outs ∨ ∃ reg, s.reg = some reg ∧ reg.registered = true ∧ reg.expires ≠ 0

theorem answers_told (s : RegRun) (reg : Reg) (grant : Option Nat) (now : Nat) (ok : Prop)
    (r : Option Reg × List RegOut) (ha : Answers reg grant now ok r) :
    Told (s.after now grant r) := by
  intro reg' hreg' hzero
  cases ha with
  | repeats reg1 hr1 _ _ _ _ _ _ _ _ _ =>
      rw [hr1] at hreg' ⊢
      rw [RegRun.after, Option.some.injEq] at hreg'
      rw [hreg', hzero]
      exact List.mem_cons_self
  | ends hr1 _ _ =>
      rw [hr1] at hreg'
      exact absurd hreg' (by simp only [RegRun.after, reduceCtorEq, not_false_eq_true])
  | unregisters reg1 hr1 _ _ _ _ _ _ _ =>
      rw [hr1]
      exact List.mem_cons_self
  | waits reg1 err scode hr1 _ _ hexp _ _ _ _ =>
      rw [hr1, RegRun.after, Option.some.injEq] at hreg'
      rw [hreg'] at hexp
      exact absurd hzero hexp

theorem answers_takenBack (s : RegRun) (reg : Reg) (grant : Option Nat) (now : Nat) (ok : Prop)
    (r : Option Reg × List RegOut) (ha : Answers reg grant now ok r) (htold : Told s)
    (hreg : s.reg = some reg) (hok : ok) (h : TakenBack s ∨ grant.isSome = true) :
    TakenBack (s.after now grant r) := by
  have hkept (o : List RegOut) (hz : RegOut.register 0 ∈ s.outs) : RegOut.register 0 ∈ o ++ s.outs :=
    List.mem_append_right _ hz
  -- Either it was taken back before, or this client has to do it.
  have hcases : .register 0 ∈ s.outs ∨
      (reg.registered = true ∨ grant.isSome = true) ∧ reg.expires ≠ 0 := by
    by_cases hz : reg.expires = 0
    · exact Or.inl (htold reg hreg hz)
    · rcases h with (h | ⟨reg1, hreg1, hregd, _⟩) | h
      · exact Or.inl h
      · rw [hreg, Option.some.injEq] at hreg1
        exact Or.inr ⟨Or.inl (hreg1 ▸ hregd), hz⟩
      · exact Or.inr ⟨Or.inr h, hz⟩
  rcases hcases with hz | ⟨hregd, hexp0⟩
  · exact Or.inl (hkept _ hz)
  · cases ha with
    | repeats reg1 hr1 hgrant _ _ _ _ _ hzero hexp hreg1 =>
        rw [hr1]
        rw [hgrant, Option.isSome_none, or_iff_left Bool.false_ne_true] at hregd
        cases hterm : reg.terminated with
        | true =>
            rw [hzero hterm]
            exact Or.inl List.mem_cons_self
        | false => exact Or.inr ⟨reg1, rfl, hreg1.trans hregd, hexp hterm⟩
    | ends hr1 _ hlost => exact absurd (hlost hok hregd) hexp0
    | unregisters reg1 hr1 _ _ _ _ _ _ _ =>
        rw [hr1]
        exact Or.inl List.mem_cons_self
    | waits reg1 err scode hr1 _ _ hexp _ _ _ hreg1 =>
        rw [hr1]
        exact Or.inr ⟨reg1, rfl, hreg1 hregd, hexp⟩

/-- The handlers of the timers keep the registration. -/
theorem keeps_takenBack (s : RegRun) (reg reg' : Reg) (now : Nat) (outs : List RegOut)
    (hexp : reg'.expires = reg.expires) (hregd : reg'.registered = reg.registered)
    (hreg : s.reg = some reg) (htold : Told s) :
    Told (s.after now none (some reg', outs)) ∧
      (TakenBack s → TakenBack (s.after now none (some reg', outs))) := by
  constructor
  · intro reg1 hreg1 hzero
    rw [RegRun.after, Option.some.injEq] at hreg1
    rw [← hreg1, hexp] at hzero
    exact List.mem_append_right _ (htold reg hreg hzero)
  · rintro (hz | ⟨reg1, hreg1, hr, he⟩)
    · exact Or.inl (List.mem_append_right _ hz)
    · rw [hreg, Option.some.injEq] at hreg1
      rw [← hreg1] at hr he
      exact Or.inr ⟨reg', rfl, hregd.trans hr, by rw [hexp]; exact he⟩

theorem tmrHandler_frame (reg : Reg) (now rnd reqerr : Nat) (hterm : reg.terminated = false) :
    (tmrHandler reg now rnd reqerr).1.expires = reg.expires ∧
      (tmrHandler reg now rnd reqerr).1.registered = reg.registered := by
  unfold tmrHandler
  by_cases hok : reqerr = 0
  · simp only [request, hterm, Bool.false_eq_true, if_false, if_true, hok, and_self]
  · simp only [request, hterm, Bool.false_eq_true, if_false, if_true, hok, failed, and_self]

theorem keepaliveHandler_frame (reg : Reg) (err now rnd : Nat) :
    (keepaliveHandler reg err now rnd).1.expires = reg.expires ∧
      (keepaliveHandler reg err now rnd).1.registered = reg.registered := by
  by_cases hbusy : reg.req = true ∨ reg.terminated = true
  · simp only [keepaliveHandler, hbusy, if_true, and_self]
  · simp only [keepaliveHandler, hbusy, if_false, failed, and_self]

theorem destructor_takenBack (s : RegRun) (reg : Reg) (now reqerr : Nat) (h : Held s reg)
    (hreg : s.reg = some reg) :
    Told { s.after now none (destructor reg reqerr) with released := true } ∧
      (reqerr = 0 → TakenBack s →
        TakenBack { s.after now none (destructor reg reqerr) with released := true }) := by
  unfold destructor
  simp only [h.terminated, Bool.false_eq_true, if_false]
  split
  next hreq =>
    refine ⟨fun reg1 hreg1 hzero => ?_, ?_⟩
    · simp only [RegRun.after, Option.some.injEq] at hreg1
      rw [← hreg1] at hzero
      exact absurd hzero h.expires
    · rintro _ (hz | ⟨reg1, hreg1, hr, _⟩)
      · exact Or.inl hz
      · rw [hreg, Option.some.injEq] at hreg1
        rw [← hreg1] at hr
        exact Or.inr ⟨_, rfl, hr, h.expires⟩
  · split
    next hok =>
      simp only [request, if_true, hok.2]
      exact ⟨fun _ _ _ => List.mem_cons_self, fun _ _ => Or.inl List.mem_cons_self⟩
    next hok =>
      refine ⟨fun reg1 hreg1 _ => ?_, ?_⟩
      · exact absurd hreg1 (by simp only [RegRun.after, reduceCtorEq, not_false_eq_true])
      · rintro herr (hz | ⟨reg1, hreg1, hr, _⟩)
        · exact Or.inl hz
        · rw [hreg, Option.some.injEq] at hreg1
          rw [← hreg1] at hr
          exact absurd ⟨hr, herr⟩ hok

theorem grantOf_isSome (reg : Reg) (result : RegResult) (now rnd reqerr reqerr2 : Nat)
    (h : (RegEvent.response result now rnd reqerr reqerr2).grants = true) :
    (grantOf reg result).isSome = true ∧ result.isProvisional = false := by
  cases result with
  | failure err scode => exact absurd h Bool.false_ne_true
  | message msg =>
      have hscode := of_decide_eq_true h
      refine ⟨?_, decide_eq_false (by omega)⟩
      rw [grantOf, if_pos hscode]
      rfl

theorem regStep_takenBack (s : RegRun) (e : RegEvent) (s' : RegRun) (hs : Sane s) (htold : Told s)
    (h : regStep s e = some s') :
    Told s' ∧ (e.accepted = true → TakenBack s ∨ e.grants = true → TakenBack s') := by
  rcases regStep_stepped s s' e h with ⟨reg, hreg, hstep⟩
  have hor {P : Prop} (hc : P ∨ false = true) : P := by
    rwa [or_iff_left Bool.false_ne_true] at hc
  cases hstep with
  | provisional result now rnd reqerr reqerr2 hreq hprov w =>
      rcases keeps_takenBack s reg { reg with wait := w } now [] rfl rfl hreg htold with ⟨ht, hk⟩
      refine ⟨ht, fun _ hc => hk ?_⟩
      rcases hc with hc | hc
      · exact hc
      · rw [(grantOf_isSome reg result now rnd reqerr reqerr2 hc).2] at hprov
        exact absurd hprov (by decide)
  | final result now rnd reqerr reqerr2 hreq hfinal =>
      -- With an owner the client still asks for a registration.
      have hexp : reg.terminated = false → reg.expires ≠ 0 := by
        intro hterm
        rcases hs with ⟨_, reg1, hreg1, hheld⟩ | ⟨_, hgo⟩
        · rw [hreg, Option.some.injEq] at hreg1
          rw [hreg1]
          exact hheld.expires
        · exact absurd ((hgo reg hreg).terminated.symm.trans hterm) (by decide)
      have ha := responseHandler_answers reg result now rnd reqerr reqerr2 hexp hfinal
      refine ⟨answers_told s reg _ now _ _ ha, fun hacc hc => ?_⟩
      refine answers_takenBack s reg _ now _ _ ha htold hreg (of_decide_eq_true hacc) ?_
      rcases hc with hc | hc
      · exact Or.inl hc
      · exact Or.inr (grantOf_isSome reg result now rnd reqerr reqerr2 hc).1
  | timer j now rnd reqerr d htmr =>
      rcases hs with ⟨_, reg1, hreg1, hheld⟩ | ⟨_, hgo⟩
      · rw [hreg, Option.some.injEq] at hreg1
        rw [← hreg1] at hheld
        rcases tmrHandler_frame reg now rnd reqerr hheld.terminated with ⟨hexp, hregd⟩
        rcases keeps_takenBack s reg _ now _ hexp hregd hreg htold with ⟨ht, hk⟩
        exact ⟨ht, fun _ hc => hk (hor hc)⟩
      · rw [(hgo reg hreg).stopped] at htmr
        exact absurd htmr (by simp only [reduceCtorEq, not_false_eq_true])
  | keepalive err now rnd =>
      rcases keepaliveHandler_frame reg err now rnd with ⟨hexp, hregd⟩
      rcases keeps_takenBack s reg _ now _ hexp hregd hreg htold with ⟨ht, hk⟩
      exact ⟨ht, fun _ hc => hk (hor hc)⟩
  | release now reqerr hown =>
      rcases hs with ⟨_, reg1, hreg1, hheld⟩ | ⟨hrel, _⟩
      · rw [hreg, Option.some.injEq] at hreg1
        rw [← hreg1] at hheld
        rcases destructor_takenBack s reg now reqerr hheld hreg with ⟨ht, hk⟩
        exact ⟨ht, fun hacc hc => hk (of_decide_eq_true hacc) (hor hc)⟩
      · rw [hrel] at hown
        exact absurd hown (by decide)

theorem regRun_takenBack (es : List RegEvent) : ∀ (s t : RegRun), Sane s → Told s →
    exec regStep s es = some t → (∀ e ∈ es, e.accepted = true) →
    (TakenBack s ∨ ∃ e ∈ es, e.grants = true) → TakenBack t := by
  induction es with
  | nil =>
      intro s t _ _ ht _ h
      simp only [exec, Option.some.injEq] at ht
      rw [← ht]
      rcases h with h | ⟨e, he, _⟩
      · exact h
      · exact absurd he List.not_mem_nil
  | cons e es ih =>
      intro s t hs htold ht hacc h
      rcases exec_cons regStep s t e es ht with ⟨s', hs', ht'⟩
      rcases regStep_takenBack s e s' hs htold hs' with ⟨htold', hstep⟩
      -- Whichever event granted it, from then on it can be taken back.
      have hstep' := hstep (hacc e List.mem_cons_self)
      refine ih s' t (regStep_sane s e s' hs hs') htold' ht'
        (fun f hf => hacc f (List.mem_cons_of_mem e hf)) ?_
      rcases h with h | ⟨f, hf, hg⟩
      · exact Or.inl (hstep' (Or.inl h))
      · rcases List.mem_cons.mp hf with hf | hf
        · rw [hf] at hg
          exact Or.inl (hstep' (Or.inr hg))
        · exact Or.inr ⟨f, hf, hg⟩

/-- A client that was registered at some time is not gone before it has taken
    the registration back, if the stack takes the requests it makes about
    responses and at its end. -/
theorem registration_is_taken_back (now expires : Nat) (regid : Int) (hexp : expires ≠ 0)
    (es : List RegEvent) (s : RegRun) (h : exec regStep (regInit now expires regid) es = some s)
    (hacc : ∀ e ∈ es, e.accepted = true) (hgrants : ∃ e ∈ es, e.grants = true)
    (hgone : s.reg = none) : .register 0 ∈ s.outs := by
  have htold : Told (regInit now expires regid) := by
    intro reg hreg hzero
    rw [regInit, Option.some.injEq] at hreg
    rw [← hreg] at hzero
    exact absurd hzero hexp
  rcases regRun_takenBack es _ s (regInit_sane now expires regid hexp) htold h hacc (Or.inr hgrants)
    with hz | ⟨reg, hreg, _⟩
  · exact hz
  · rw [hgone] at hreg
    exact absurd hreg (by simp only [reduceCtorEq, not_false_eq_true])

/-- The owner lets go of a client whose first request is still on its way and
    succeeds. -/
theorem registration_is_taken_back_late :
    ∃ s, exec regStep (regInit 0 60 0) [.release 3 0,
        .response (.message ⟨200, [⟨true, some 60⟩], none, none, 0, false⟩) 9 0 0 0,
        .response (.message ⟨200, [], none, none, 0, false⟩) 20 0 0 0] = some s ∧
      s.outs = [.register 0, .register 60] ∧ .register 0 ∈ s.outs :=
  ⟨_, rfl, by decide, registration_is_taken_back 0 60 0 (by decide) [.release 3 0,
    .response (.message ⟨200, [⟨true, some 60⟩], none, none, 0, false⟩) 9 0 0 0,
    .response (.message ⟨200, [], none, none, 0, false⟩) 20 0 0 0] _ rfl (by decide)
    ⟨_, List.mem_cons_of_mem _ List.mem_cons_self, rfl⟩ rfl⟩

end Sipreg

end SipPerf
