import SipPerf.Core.Exchange
import SipPerf.Theory.Punctual
import SipPerf.Theory.ServerTransaction.Repetitions

/-!
# The Server of an Exchange

What is assumed of the users and of the timers, and what the server has done
about a request as long as that is met: it has passed it on at most once, and
has sent nothing about it but one reply and 482. What happens to other
transactions does not change that.

The transaction of the request stays until no copy of it can come any more.
Which time that is depends on the client, so here it is any set of times that
goes on forever.

## Main definitions

* `Careful`, `Fair`: What is assumed of the users and the timers.
* `About`, `Ours`: What is done about the request, and what may be.
* `Apart`: Nothing about the request has happened.
* `Serves`: The server and the request.

## Theorems

* `change_apart`: What happens to other transactions.
* `put_serves`, `drop_serves`, `say_serves`: The transaction of the request
  changes, ends, or is spoken for.
* `fresh_serves`: It begins.
-/

namespace SipPerf

namespace Exchange

open Transition Ctrans Strans

/-- The user makes a transaction of the request, and the stack takes its reply
    if it gives one at once. -/
def Stateful : TuAction → Prop
  | .alloc => True
  | .treply r _ _ err => 200 ≤ r.scode ∧ err = 0
  | _ => False

/-- Nobody else uses the branch of the request. The stack takes the replies of
    the user, and the user does not let go of the transaction. -/
def Careful (req : SipMsg) (s : Sip) : StEvent → Prop
  | .recv msg _ _ _ => ¬ Matches req msg ∧ (msg.met = "ACK" → msg.branch ≠ req.branch)
  | .reply id _ _ _ err => ∀ st ∈ s.strans, st.id = id → st.msg = req → err = 0
  | .release id _ => ∀ st ∈ s.strans, st.id = id → st.msg ≠ req
  | _ => True

/-- What is assumed of an event. -/
def Fair (req : SipMsg) (late : Nat) (n : Net) : NetEvent → Prop
  | .client e => Prompt late n.client e
  | .request _ _ _ tu => Stateful tu
  | .server e => Careful req n.server.sip e
  | _ => True

instance decidableStateful : (tu : TuAction) → Decidable (Stateful tu)
  | .ignore => isFalse (fun h => h)
  | .reply _ => isFalse (fun h => h)
  | .alloc => isTrue trivial
  | .treply r _ _ err => inferInstanceAs (Decidable (200 ≤ r.scode ∧ err = 0))

instance decidableCareful (req : SipMsg) (s : Sip) : (e : StEvent) → Decidable (Careful req s e)
  | .recv msg _ _ _ =>
      inferInstanceAs (Decidable (¬ Matches req msg ∧ (msg.met = "ACK" → msg.branch ≠ req.branch)))
  | .reply id _ _ _ err =>
      inferInstanceAs (Decidable (∀ st ∈ s.strans, st.id = id → st.msg = req → err = 0))
  | .release id _ => inferInstanceAs (Decidable (∀ st ∈ s.strans, st.id = id → st.msg ≠ req))
  | .expire _ _ => isTrue trivial
  | .resend _ _ _ _ => isTrue trivial

instance decidablePrompt (late : Nat) (s : CtRun) : (e : CtEvent) → Decidable (Prompt late s e)
  | .retransmit _ now _ =>
      inferInstanceAs (Decidable (∀ ct ∈ s.ct, ∀ d ∈ ct.tmre, now ≤ d + late))
  | .response _ _ _ => isTrue trivial
  | .expire _ => isTrue trivial
  | .transport _ _ => isTrue trivial
  | .cancel _ _ => isTrue trivial
  | .release _ => isTrue trivial

instance decidableFair (req : SipMsg) (late : Nat) (n : Net) :
    (e : NetEvent) → Decidable (Fair req late n e)
  | .client e => inferInstanceAs (Decidable (Prompt late n.client e))
  | .response _ _ _ => isTrue trivial
  | .request _ _ _ tu => inferInstanceAs (Decidable (Stateful tu))
  | .ack _ _ _ => isTrue trivial
  | .server e => inferInstanceAs (Decidable (Careful req n.server.sip e))

/-- What is done about the request. -/
def About (req : SipMsg) : StOut → Prop
  | .send _ msg _ => Matches req msg
  | .stateless msg _ => Matches req msg
  | .pass msg => Matches req msg
  | .cancelh _ => False

/-- What may be done about it. -/
def Ours (req : SipMsg) (o : StOut) : Prop :=
  o = .pass req ∨ (∃ id mb, o = .send id req mb) ∨ o = .stateless req 482

/-! ## Other transactions -/

theorem mem_put_of_ne (s : Sip) (st x : SipStrans) (h : x ∈ s.strans) (hne : x.id ≠ st.id) :
    x ∈ (s.put st).strans :=
  List.mem_map.mpr ⟨x, h, if_neg hne⟩

theorem mem_put_self (s : Sip) (st st' : SipStrans) (h : st ∈ s.strans) (hid : st'.id = st.id) :
    st' ∈ (s.put st').strans :=
  List.mem_map.mpr ⟨st, h, if_pos hid.symm⟩

theorem mem_drop_of_ne (s : Sip) (id : Nat) (x : SipStrans) (h : x ∈ s.strans) (hne : x.id ≠ id) :
    x ∈ (s.drop id).strans :=
  List.mem_filter.mpr ⟨h, by simpa using hne⟩

/-- Nothing about the request has happened. -/
structure Apart (req : SipMsg) (s s' : StRun) : Prop where
  table : ∀ x, Matches req x.msg → (x ∈ s'.sip.strans ↔ x ∈ s.sip.strans)
  outs : ∃ new, s'.outs = new ++ s.outs ∧ ∀ o ∈ new, ¬ About req o
  now : s.now ≤ s'.now

theorem apart_refl (req : SipMsg) (s : StRun) : Apart req s s :=
  ⟨fun _ _ => Iff.rfl, ⟨[], rfl, fun _ ho => absurd ho List.not_mem_nil⟩, Nat.le_refl _⟩

theorem apart_trans (req : SipMsg) (s s' s'' : StRun) (h : Apart req s s') (h' : Apart req s' s'') :
    Apart req s s'' := by
  rcases h.outs with ⟨new, heq, hnew⟩
  rcases h'.outs with ⟨new', heq', hnew'⟩
  refine ⟨fun x hx => (h'.table x hx).trans (h.table x hx), ⟨new' ++ new, ?_, fun o ho => ?_⟩,
    Nat.le_trans h.now h'.now⟩
  · rw [heq', heq, List.append_assoc]
  · rcases List.mem_append.mp ho with ho | ho
    · exact hnew' o ho
    · exact hnew o ho

/-- Another transaction is stored anew. -/
theorem put_table (req : SipMsg) (s : Sip) (st st' : SipStrans)
    (hd : ∀ x ∈ s.strans, ∀ y ∈ s.strans, x.id = y.id → x = y) (hst : st ∈ s.strans)
    (hid : st'.id = st.id) (hmsg : st'.msg = st.msg) (hQ : ¬ Matches req st.msg) :
    ∀ x, Matches req x.msg → (x ∈ (s.put st').strans ↔ x ∈ s.strans) := by
  intro x hx
  constructor
  · intro hin
    rcases mem_put s st' x hin with ⟨hin, _⟩ | heq
    · exact hin
    · rw [heq, hmsg] at hx
      exact absurd hx hQ
  · intro hin
    -- With the identity of `st` it would be `st`, which does not match.
    refine mem_put_of_ne s st' x hin (fun hc => hQ ?_)
    rw [← hd x hin st hst (hc.trans hid)]
    exact hx

/-- Another transaction goes. -/
theorem drop_table (req : SipMsg) (s : Sip) (id : Nat)
    (hQ : ∀ st ∈ s.strans, st.id = id → ¬ Matches req st.msg) :
    ∀ x, Matches req x.msg → (x ∈ (s.drop id).strans ↔ x ∈ s.strans) := by
  intro x hx
  constructor
  · intro hin
    exact (mem_drop s id x hin).1
  · intro hin
    exact mem_drop_of_ne s id x hin (fun hc => hQ x hin hc hx)

theorem change_apart (req : SipMsg) (s s' : StRun) (hk : Kept s)
    (h : Change (fun msg => ¬ Matches req msg) (fun st => ¬ Matches req st.msg) s s') :
    Apart req s s' := by
  have hnone : ∃ new, s.outs = new ++ s.outs ∧ ∀ o ∈ new, ¬ About req o :=
    ⟨[], rfl, fun _ ho => absurd ho List.not_mem_nil⟩
  cases h with
  | clock now hnow => exact ⟨fun _ _ => Iff.rfl, hnone, hnow⟩
  | speak o ho =>
      refine ⟨fun _ _ => Iff.rfl, ⟨[o], rfl, fun o' ho' => ?_⟩, Nat.le_refl _⟩
      rw [List.mem_singleton.mp ho']
      cases o with
      | send id msg mb =>
          rcases ho with ⟨st, _, hQ, _, hmsg, _⟩
          rw [← hmsg]
          exact hQ
      | stateless msg scode => exact ho
      | pass msg => exact ho
      | cancelh id => exact fun hc => hc
  | alloc msg hmsg =>
      refine ⟨fun x hx => ⟨fun hin => ?_, fun hin => List.mem_append_left _ hin⟩, hnone,
        Nat.le_refl _⟩
      rcases List.mem_append.mp hin with hin | hin
      · exact hin
      · rw [List.mem_singleton.mp hin] at hx
        exact absurd hx hmsg
  | reply id r c1 c2 err h1 h2 hid hQ =>
      have hone : ∀ st ∈ s.sip.strans, st.id = id →
          ∀ o ∈ [StOut.send id st.msg (some r)], ¬ About req o := by
        intro st hst hsid o ho
        rw [List.mem_singleton.mp ho]
        exact hQ st hst hsid
      unfold sipStransReply
      cases hf : s.sip.strans.find? (fun x => x.id = id) with
      | none => exact ⟨fun _ _ => Iff.rfl, hnone, Nat.le_trans h1 h2⟩
      | some st =>
          rcases find_id s.sip id st hf with ⟨hst, hsid⟩
          simp only
          split
          · split
            · exact ⟨drop_table req s.sip id hQ, ⟨_, rfl, hone st hst hsid⟩, Nat.le_trans h1 h2⟩
            next st' hafter =>
              have hspec := afterReply_spec _ st' r.scode c1 c2 hafter
              exact ⟨put_table req s.sip st st' hk.distinct hst hspec.1 hspec.2.1
                (hQ st hst hsid), ⟨_, rfl, hone st hst hsid⟩, Nat.le_trans h1 h2⟩
          · exact ⟨drop_table req s.sip id hQ, hnone, Nat.le_trans h1 h2⟩
  | release id hid hQ => exact ⟨drop_table req s.sip id hQ, hnone, Nat.le_refl _⟩
  | acked st hst hs hQ =>
      refine ⟨?_, hnone, Nat.le_refl _⟩
      unfold acknowledged
      split
      · exact drop_table req s.sip st.id (fun x hx hid => by
          rw [hk.distinct x hx st hst hid]
          exact hQ)
      · exact put_table req s.sip st _ hk.distinct hst rfl rfl hQ
  | expire st d hst hd hnow hQ =>
      exact ⟨drop_table req s.sip st.id (fun x hx hid => by
        rw [hk.distinct x hx st hst hid]
        exact hQ), hnone, Nat.le_refl _⟩
  | resend st d sent hst hd hnow hfirst hQ =>
      refine ⟨put_table req s.sip st (retransmitHandler st s.now) hk.distinct hst rfl rfl hQ,
        ⟨_, rfl, fun o ho => ?_⟩, Nat.le_refl _⟩
      cases sent with
      | true =>
          rw [List.mem_singleton.mp ho]
          exact hQ
      | false => exact absurd ho List.not_mem_nil

theorem changes_apart (req : SipMsg) (s s' : StRun) (hk : Kept s)
    (h : Relation.ReflTransGen
      (Change (fun msg => ¬ Matches req msg) (fun st => ¬ Matches req st.msg)) s s') :
    Apart req s s' := by
  -- `Kept` goes along, as every change relies on it.
  have hboth : Kept s' ∧ Apart req s s' := by
    refine changes_invariant _ _ (fun x => Kept x ∧ Apart req s x) (fun x y hx hc => ?_) s s'
      ⟨hk, apart_refl req s⟩ h
    exact ⟨change_kept _ _ x y hx.1 hc, apart_trans req s x y hx.2 (change_apart req x y hx.1 hc)⟩
  exact hboth.2

/-- An event that is not about the request. -/
theorem stStep_apart (req : SipMsg) (s s' : StRun) (e : StEvent) (hk : Kept s)
    (h : stStep s e = some s')
    (hP : ∀ msg now sent tu, e = .recv msg now sent tu → ¬ Matches req msg)
    (hQ : Only (fun st => ¬ Matches req st.msg) s.sip e) : Apart req s s' :=
  changes_apart req s s' hk (stStep_changes _ _ s s' e h hP hQ)

/-! ## The server -/

/-- The server and the request. `past` is what is known of the times from
    which on no copy of the request comes in. -/
structure Serves (req : SipMsg) (past : Nat → Prop) (s : StRun) : Prop where
  repeated : Repeated s
  own : ∀ st ∈ s.sip.strans, Matches req st.msg → st.msg = req
  about : ∀ o ∈ s.outs, About req o → Ours req o
  once : s.outs.count (.pass req) ≤ 1
  unseen : .pass req ∉ s.outs → (∀ st ∈ s.sip.strans, st.msg ≠ req) ∧
    ∀ id mb, .send id req mb ∉ s.outs
  single : ∃ id, (∀ st ∈ s.sip.strans, st.msg = req → st.id = id) ∧
    ∀ i mb, .send i req mb ∈ s.outs → i = id
  lasting : .pass req ∈ s.outs →
    (∃ st ∈ s.sip.strans, st.msg = req ∧ ∀ d ∈ st.tmr, past d) ∨ past s.now

theorem matches_self (req : SipMsg) : Matches req req := ⟨rfl, rfl⟩

/-- More is known of the times. -/
theorem serves_mono (req : SipMsg) (past past' : Nat → Prop) (s : StRun) (h : Serves req past s)
    (himp : ∀ x, past x → past' x) : Serves req past' s := by
  refine ⟨h.repeated, h.own, h.about, h.once, h.unseen, h.single, fun hp => ?_⟩
  rcases h.lasting hp with ⟨st, hst, hmsg, hd⟩ | hnow
  · exact Or.inl ⟨st, hst, hmsg, fun d hd' => himp d (hd d hd')⟩
  · exact Or.inr (himp _ hnow)

section

variable (req : SipMsg) (past : Nat → Prop) (hmono : ∀ x y, x ≤ y → past x → past y)

include hmono

/-- Nothing about the request has happened. -/
theorem apart_serves (s s' : StRun) (h : Serves req past s) (ha : Apart req s s')
    (hr : Repeated s') : Serves req past s' := by
  rcases ha.outs with ⟨new, houts, hnew⟩
  -- What is new is not about the request, so each clause reads as before.
  have hold : ∀ o, About req o → (o ∈ s'.outs ↔ o ∈ s.outs) := by
    intro o ho
    rw [houts, List.mem_append]
    exact ⟨fun hin => hin.elim (fun hc => absurd ho (hnew o hc)) (fun hin => hin), Or.inr⟩
  have hself := matches_self req
  have hpass : About req (.pass req) := hself
  have hsend : ∀ i mb, About req (.send i req mb) := fun _ _ => hself
  have htable : ∀ st, st.msg = req → (st ∈ s'.sip.strans ↔ st ∈ s.sip.strans) :=
    fun st hmsg => ha.table st (by rw [hmsg]; exact hself)
  refine ⟨hr, fun st hst hm => h.own st ((ha.table st hm).mp hst) hm,
    fun o ho hab => h.about o ((hold o hab).mp ho) hab, ?_, fun hp => ?_, ?_, fun hp => ?_⟩
  · rw [houts, List.count_append, List.count_eq_zero.mpr (fun hc => hnew _ hc hpass)]
    have := h.once
    omega
  · rcases h.unseen (fun hc => hp ((hold _ hpass).mpr hc)) with ⟨h1, h2⟩
    exact ⟨fun st hst hmsg => h1 st ((htable st hmsg).mp hst) hmsg,
      fun id mb hc => h2 id mb ((hold _ (hsend id mb)).mp hc)⟩
  · rcases h.single with ⟨id, h1, h2⟩
    exact ⟨id, fun st hst hmsg => h1 st ((htable st hmsg).mp hst) hmsg,
      fun i mb hin => h2 i mb ((hold _ (hsend i mb)).mp hin)⟩
  · rcases h.lasting ((hold _ hpass).mp hp) with ⟨st, hst, hmsg, hd⟩ | hnow
    · exact Or.inl ⟨st, (htable st hmsg).mpr hst, hmsg, hd⟩
    · exact Or.inr (hmono _ _ ha.now hnow)

/-- The transaction of the request is stored anew. -/
theorem put_serves (s s' : StRun) (st st' : SipStrans) (new : List StOut) (h : Serves req past s)
    (hr : Repeated s') (hst : st ∈ s.sip.strans) (hmsg : st.msg = req) (hid : st'.id = st.id)
    (hmsg' : st'.msg = st.msg) (hsip : s'.sip = s.sip.put st') (houts : s'.outs = new ++ s.outs)
    (hnew : ∀ o ∈ new, ∃ mb, o = .send st.id req mb) (hnow : s.now ≤ s'.now)
    (htmr : (∀ d ∈ st.tmr, past d) → (∀ d ∈ st'.tmr, past d)) : Serves req past s' := by
  rcases h.single with ⟨id0, hall, hsent⟩
  have hpass : ∀ o, o ∈ s'.outs → o ∈ s.outs ∨ ∃ mb, o = .send st.id req mb := by
    intro o ho
    rw [houts] at ho
    exact (List.mem_append.mp ho).elim (fun hc => Or.inr (hnew o hc)) Or.inl
  have hseen : .pass req ∈ s'.outs → .pass req ∈ s.outs := by
    intro hp
    rcases hpass _ hp with hp | ⟨mb, hp⟩
    · exact hp
    · exact absurd hp (by simp only [reduceCtorEq, not_false_eq_true])
  -- It has a transaction, so it has been passed on already.
  have hin : .pass req ∈ s.outs := by
    by_contra hc
    exact (h.unseen hc).1 st hst hmsg
  refine ⟨hr, fun x hx hm => ?_, fun o ho hab => ?_, ?_, fun hp => ?_, ⟨id0, fun x hx hx' => ?_,
    fun i mb hi => ?_⟩, fun _ => ?_⟩
  · rw [hsip] at hx
    rcases mem_put s.sip st' x hx with ⟨hx, _⟩ | hx
    · exact h.own x hx hm
    · rw [hx, hmsg', hmsg]
  · rcases hpass o ho with ho | ⟨mb, ho⟩
    · exact h.about o ho hab
    · exact Or.inr (Or.inl ⟨st.id, mb, ho⟩)
  · rw [houts, List.count_append, List.count_eq_zero.mpr (fun hc => ?_)]
    · have := h.once
      omega
    · rcases hnew _ hc with ⟨mb, heq⟩
      exact absurd heq (by simp only [reduceCtorEq, not_false_eq_true])
  · rw [houts] at hp
    exact absurd (List.mem_append_right new hin) hp
  · rw [hsip] at hx
    rcases mem_put s.sip st' x hx with ⟨hx, _⟩ | hx
    · exact hall x hx hx'
    · rw [hx, hid]
      exact hall st hst hmsg
  · rcases hpass _ hi with hi | ⟨mb', hi⟩
    · exact hsent i mb hi
    · simp only [StOut.send.injEq] at hi
      rw [hi.1]
      exact hall st hst hmsg
  -- The one transaction that lasts is the one that is stored anew.
  · rcases h.lasting hin with ⟨x, hx, hxmsg, hd⟩ | hover
    · have heq : x = st := h.repeated.kept.distinct x hx st hst
        ((hall x hx hxmsg).trans (hall st hst hmsg).symm)
      rw [heq] at hd
      refine Or.inl ⟨st', ?_, hmsg'.trans hmsg, htmr hd⟩
      rw [hsip]
      exact mem_put_self s.sip st st' hst hid
    · exact Or.inr (hmono _ _ hnow hover)

/-- The transaction of the request ends by its timer. -/
theorem drop_serves (s s' : StRun) (st : SipStrans) (d : Nat) (h : Serves req past s)
    (hr : Repeated s') (hst : st ∈ s.sip.strans) (hmsg : st.msg = req)
    (hsip : s'.sip = s.sip.drop st.id) (houts : s'.outs = s.outs) (hd : st.tmr = some d)
    (hdue : d ≤ s'.now) (hnow : s.now ≤ s'.now) : Serves req past s' := by
  rcases h.single with ⟨id0, hall, hsent⟩
  -- There is less in the table, and only `lasting` asks for more of it.
  have hsub : ∀ x ∈ s'.sip.strans, x ∈ s.sip.strans := by
    intro x hx
    rw [hsip] at hx
    exact (mem_drop s.sip st.id x hx).1
  refine ⟨hr, fun x hx => h.own x (hsub x hx), ?_, ?_, ?_, ⟨id0, fun x hx => hall x (hsub x hx), ?_⟩,
    fun hp => ?_⟩
  · rw [houts]
    exact h.about
  · rw [houts]
    exact h.once
  · rw [houts]
    exact fun hp => ⟨fun x hx => (h.unseen hp).1 x (hsub x hx), (h.unseen hp).2⟩
  · rw [houts]
    exact hsent
  · rw [houts] at hp
    rcases h.lasting hp with ⟨x, hx, hxmsg, hd'⟩ | hover
    · have heq : x = st := h.repeated.kept.distinct x hx st hst
        ((hall x hx hxmsg).trans (hall st hst hmsg).symm)
      rw [heq] at hd'
      -- The timer was set to end after the last copy.
      exact Or.inr (hmono _ _ hdue (hd' d hd))
    · exact Or.inr (hmono _ _ hnow hover)

/-- Something is said about the request, by its transaction or without one. -/
theorem say_serves (s s' : StRun) (new : List StOut) (h : Serves req past s) (hr : Repeated s')
    (hsip : s'.sip = s.sip) (houts : s'.outs = new ++ s.outs)
    (hnew : ∀ o ∈ new, (∃ st ∈ s.sip.strans, st.msg = req ∧ ∃ mb, o = .send st.id req mb) ∨
      o = .stateless req 482)
    (hnow : s.now ≤ s'.now) : Serves req past s' := by
  rcases h.single with ⟨id0, hall, hsent⟩
  have hseen : .pass req ∈ s'.outs → .pass req ∈ s.outs := by
    intro hp
    rw [houts] at hp
    rcases List.mem_append.mp hp with hp | hp
    · rcases hnew _ hp with ⟨_, _, _, _, hc⟩ | hc
      · exact absurd hc (by simp only [reduceCtorEq, not_false_eq_true])
      · exact absurd hc (by simp only [reduceCtorEq, not_false_eq_true])
    · exact hp
  have hback : ∀ i mb, .send i req mb ∈ s'.outs →
      .send i req mb ∈ s.outs ∨ ∃ st ∈ s.sip.strans, st.msg = req ∧ st.id = i := by
    intro i mb hi
    rw [houts] at hi
    rcases List.mem_append.mp hi with hi | hi
    · rcases hnew _ hi with ⟨st, hst, hmsg, mb', heq⟩ | hc
      · simp only [StOut.send.injEq] at heq
        exact Or.inr ⟨st, hst, hmsg, heq.1.symm⟩
      · exact absurd hc (by simp only [reduceCtorEq, not_false_eq_true])
    · exact Or.inl hi
  refine ⟨hr, by rw [hsip]; exact h.own, fun o ho hab => ?_, ?_, fun hp => ?_, ⟨id0, ?_, ?_⟩,
    fun hp => ?_⟩
  · rw [houts] at ho
    rcases List.mem_append.mp ho with ho | ho
    · rcases hnew o ho with ⟨st, _, _, mb, heq⟩ | heq
      · exact Or.inr (Or.inl ⟨st.id, mb, heq⟩)
      · exact Or.inr (Or.inr heq)
    · exact h.about o ho hab
  · rw [houts, List.count_append, List.count_eq_zero.mpr (fun hc => ?_)]
    · have := h.once
      omega
    · rcases hnew _ hc with ⟨_, _, _, _, heq⟩ | heq
      · exact absurd heq (by simp only [reduceCtorEq, not_false_eq_true])
      · exact absurd heq (by simp only [reduceCtorEq, not_false_eq_true])
  · have hun := h.unseen (fun hc => hp (by rw [houts]; exact List.mem_append_right new hc))
    refine ⟨by rw [hsip]; exact hun.1, fun i mb hi => ?_⟩
    rcases hback i mb hi with hi | ⟨st, hst, hmsg, _⟩
    · exact hun.2 i mb hi
    · exact hun.1 st hst hmsg
  · rw [hsip]
    exact hall
  · intro i mb hi
    rcases hback i mb hi with hi | ⟨st, hst, hmsg, hid⟩
    · exact hsent i mb hi
    · rw [← hid]
      exact hall st hst hmsg
  · rw [hsip]
    rcases h.lasting (hseen hp) with hlast | hover
    · exact Or.inl hlast
    · exact Or.inr (hmono _ _ hnow hover)

omit hmono in
/-- The request is passed on for the first time, and a transaction is made of
    it. -/
theorem fresh_serves (s s' : StRun) (st : SipStrans) (new : List StOut) (h : Serves req past s)
    (hr : Repeated s') (hseen : .pass req ∉ s.outs) (hst : st ∈ s'.sip.strans) (hmsg : st.msg = req)
    (htable : ∀ x ∈ s'.sip.strans, x ∈ s.sip.strans ∨ x = st)
    (houts : s'.outs = new ++ .pass req :: s.outs)
    (hnew : ∀ o ∈ new, ∃ mb, o = .send st.id req mb) (hd : ∀ d ∈ st.tmr, past d) :
    Serves req past s' := by
  -- Nothing was there of the request, so all there is now is `st`.
  rcases h.unseen hseen with ⟨hnone, hunsent⟩
  have hback : ∀ o ∈ s'.outs, (∃ mb, o = .send st.id req mb) ∨ o = .pass req ∨ o ∈ s.outs := by
    intro o ho
    rw [houts] at ho
    rcases List.mem_append.mp ho with ho | ho
    · exact Or.inl (hnew o ho)
    · exact Or.inr (List.mem_cons.mp ho)
  refine ⟨hr, fun x hx hm => ?_, fun o ho hab => ?_, ?_, fun hp => ?_, ⟨st.id, fun x hx hxmsg => ?_,
    fun i mb hi => ?_⟩, fun _ => Or.inl ⟨st, hst, hmsg, hd⟩⟩
  · rcases htable x hx with hx | hx
    · exact h.own x hx hm
    · rw [hx, hmsg]
  · rcases hback o ho with ⟨mb, heq⟩ | heq | ho
    · exact Or.inr (Or.inl ⟨st.id, mb, heq⟩)
    · exact Or.inl heq
    · exact h.about o ho hab
  · rw [houts, List.count_append, List.count_cons_self, List.count_eq_zero.mpr hseen,
      List.count_eq_zero.mpr (fun hc => ?_)]
    rcases hnew _ hc with ⟨mb, heq⟩
    exact absurd heq (by simp only [reduceCtorEq, not_false_eq_true])
  · rw [houts] at hp
    exact absurd (List.mem_append_right new List.mem_cons_self) hp
  · rcases htable x hx with hx | hx
    · exact absurd hxmsg (hnone x hx)
    · rw [hx]
  · rcases hback _ hi with ⟨mb', heq⟩ | heq | hi
    · simp only [StOut.send.injEq] at heq
      exact heq.1
    · exact absurd heq (by simp only [reduceCtorEq, not_false_eq_true])
    · exact absurd hi (hunsent i mb)

end

end Exchange

end SipPerf
