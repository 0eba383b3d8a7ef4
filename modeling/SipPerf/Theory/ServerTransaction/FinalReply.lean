import SipPerf.Lib.Transition
import SipPerf.Theory.ServerTransaction.Changes

/-!
# One Final Reply

A transaction gets at most one final reply. From then on everything it sends
is that reply, whether it answers a copy of the request or repeats the reply by
itself, and a CANCEL no longer reaches the user.

## Main definitions

* `Follows`: What may be done after a final reply.
* `Good`: The reply of a transaction and what has been sent of it.
* `Kept`: All transactions, and the history.

## Theorems

* `speak_kept`, `alloc_kept`, `reply_kept`: The changes that send something.
* `change_kept`: Every change keeps the replies as they should be.
* `final_reply_settles`: Nothing but the final reply is sent once it is there.
-/

namespace SipPerf

namespace Strans

open Transition Ctrans

variable (P : SipMsg → Prop) (Q : SipStrans → Prop)

theorem mem_put (s : Sip) (st x : SipStrans) (h : x ∈ (s.put st).strans) :
    (x ∈ s.strans ∧ x.id ≠ st.id) ∨ x = st := by
  rcases List.mem_map.mp h with ⟨y, hy, hx⟩
  split at hx
  · exact Or.inr hx.symm
  next hne =>
    rw [← hx]
    exact Or.inl ⟨hy, hne⟩

theorem mem_drop (s : Sip) (id : Nat) (x : SipStrans) (h : x ∈ (s.drop id).strans) :
    x ∈ s.strans ∧ x.id ≠ id := by
  have := List.mem_filter.mp h
  exact ⟨this.1, by simpa using this.2⟩

/-- What may be done after something else: after a final reply only that reply
    is sent, and the handler for a CANCEL is not called. -/
def Follows (late early : StOut) : Prop :=
  ∀ id msg r, early = .send id msg (some r) → 200 ≤ r.scode →
    (∀ msg' mb, late = .send id msg' mb → mb = some r) ∧ late ≠ .cancelh id

/-- A transaction, the reply it has, and what has been sent. -/
structure Good (held : List Nat) (outs : List StOut) (st : SipStrans) : Prop where
  closed : st.id ∈ held → Open st
  early : Open st → (∀ r, st.mb = some r → r.scode < 200) ∧
    ∀ msg r, StOut.send st.id msg (some r) ∈ outs → r.scode < 200
  late : ¬ Open st → ∃ r, st.mb = some r ∧ 200 ≤ r.scode ∧
    ∀ msg r', StOut.send st.id msg (some r') ∈ outs → 200 ≤ r'.scode → r' = r

/-- All transactions, and the history. -/
structure Kept (s : StRun) : Prop where
  fresh : ∀ st ∈ s.sip.strans, st.id < s.sip.next
  distinct : ∀ x ∈ s.sip.strans, ∀ y ∈ s.sip.strans, x.id = y.id → x = y
  held_lt : ∀ id ∈ s.held, id < s.sip.next
  held_nodup : s.held.Nodup
  known : ∀ id msg mb, StOut.send id msg mb ∈ s.outs → id < s.sip.next
  good : ∀ st ∈ s.sip.strans, Good s.held s.outs st
  follows : s.outs.Pairwise Follows

/-- No two transactions share an identity. -/
theorem Kept.find_own {s : StRun} (h : Kept s) (st : SipStrans) (hst : st ∈ s.sip.strans) (id : Nat)
    (hid : st.id = id) : s.sip.strans.find? (fun x => x.id = id) = some st := by
  cases hf : s.sip.strans.find? (fun x => x.id = id) with
  | none => exact absurd hid (by simpa using List.find?_eq_none.mp hf st hst)
  | some x =>
      rcases find_id s.sip id x hf with ⟨hx, hxid⟩
      rw [h.distinct x hx st hst (hxid.trans hid.symm)]

/-- The clock and the repetitions do not matter. -/
theorem kept_congr (s s' : StRun) (h : Kept s) (hsip : s'.sip = s.sip) (hheld : s'.held = s.held)
    (houts : s'.outs = s.outs) : Kept s' := by
  constructor
  · rw [hsip]
    exact h.fresh
  · rw [hsip]
    exact h.distinct
  · rw [hsip, hheld]
    exact h.held_lt
  · rw [hheld]
    exact h.held_nodup
  · rw [hsip, houts]
    exact h.known
  · rw [hsip, hheld, houts]
    exact h.good
  · rw [houts]
    exact h.follows

/-- Nothing is sent of the transaction, and the user does not get to hold it. -/
theorem good_frame (held held' : List Nat) (outs new : List StOut) (st : SipStrans)
    (h : Good held outs st) (hheld : st.id ∈ held' → st.id ∈ held)
    (hnew : ∀ msg mb, StOut.send st.id msg mb ∉ new) : Good held' (new ++ outs) st := by
  have hold : ∀ msg mb, StOut.send st.id msg mb ∈ new ++ outs → StOut.send st.id msg mb ∈ outs := by
    intro msg mb hm
    rcases List.mem_append.mp hm with hm | hm
    · exact absurd hm (hnew msg mb)
    · exact hm
  refine ⟨fun hin => h.closed (hheld hin), fun hopen => ?_, fun hclosed => ?_⟩
  · exact ⟨(h.early hopen).1, fun msg r hm => (h.early hopen).2 msg r (hold msg _ hm)⟩
  · rcases h.late hclosed with ⟨r, hmb, hfinal, hall⟩
    exact ⟨r, hmb, hfinal, fun msg r' hm => hall msg r' (hold msg _ hm)⟩

/-- A transaction that sends its reply. -/
theorem good_send (held : List Nat) (outs : List StOut) (st : SipStrans) (msg : SipMsg)
    (h : Good held outs st) : Good held (.send st.id msg st.mb :: outs) st := by
  refine ⟨h.closed, fun hopen => ⟨(h.early hopen).1, fun msg' r hm => ?_⟩, fun hclosed => ?_⟩
  · rcases List.mem_cons.mp hm with heq | hm
    · simp only [StOut.send.injEq, true_and] at heq
      exact (h.early hopen).1 r heq.2.symm
    · exact (h.early hopen).2 msg' r hm
  · rcases h.late hclosed with ⟨r, hmb, hfinal, hall⟩
    refine ⟨r, hmb, hfinal, fun msg' r' hm hr' => ?_⟩
    rcases List.mem_cons.mp hm with heq | hm
    · simp only [StOut.send.injEq, true_and, hmb, Option.some.injEq] at heq
      exact heq.2
    · exact hall msg' r' hm hr'

/-- A transaction says nothing that its history forbids. -/
theorem follows_send (held : List Nat) (outs : List StOut) (st : SipStrans) (msg : SipMsg)
    (mb : Option Reply) (h : Good held outs st) (hmb : ¬ Open st → mb = st.mb) :
    ∀ early ∈ outs, Follows (.send st.id msg mb) early := by
  intro early hearly id msg0 r heq hfinal
  refine ⟨fun msg' mb' hlate => ?_, by simp only [ne_eq, reduceCtorEq, not_false_eq_true]⟩
  simp only [StOut.send.injEq] at hlate
  rw [← hlate.2.2]
  rw [heq, ← hlate.1] at hearly
  by_cases hopen : Open st
  · have := (h.early hopen).2 msg0 r hearly
    omega
  · rcases h.late hopen with ⟨r0, hr0, _, hall⟩
    rw [hmb hopen, hr0, hall msg0 r hearly hfinal]

theorem follows_cancelh (held : List Nat) (outs : List StOut) (st : SipStrans)
    (h : Good held outs st) (hopen : Open st) :
    ∀ early ∈ outs, Follows (.cancelh st.id) early := by
  intro early hearly id msg0 r heq hfinal
  refine ⟨fun msg' mb' hlate => absurd hlate (by simp only [reduceCtorEq, not_false_eq_true]),
    fun hlate => ?_⟩
  simp only [StOut.cancelh.injEq] at hlate
  rw [heq, ← hlate] at hearly
  have := (h.early hopen).2 msg0 r hearly
  omega

/-- Something is done that no transaction sends. -/
theorem kept_silent (s : StRun) (o : StOut) (h : Kept s) (ho : ∀ id msg mb, o ≠ .send id msg mb)
    (hfollows : ∀ early ∈ s.outs, Follows o early) : Kept { s with outs := o :: s.outs } := by
  refine ⟨h.fresh, h.distinct, h.held_lt, h.held_nodup, fun id msg mb hm => ?_, fun st hst => ?_,
    List.pairwise_cons.mpr ⟨hfollows, h.follows⟩⟩
  · rcases List.mem_cons.mp hm with heq | hm
    · exact absurd heq.symm (ho id msg mb)
    · exact h.known id msg mb hm
  · refine good_frame s.held s.held s.outs [o] st (h.good st hst) (fun hin => hin)
      (fun msg mb hm => ?_)
    exact ho st.id msg mb (List.mem_singleton.mp hm).symm

theorem speak_kept (s : StRun) (o : StOut) (h : Kept s) (ho : Speaks s.sip P Q o) :
    Kept { s with outs := o :: s.outs } := by
  cases o with
  | stateless msg scode =>
      refine kept_silent s _ h (fun id msg mb => by simp only [ne_eq, reduceCtorEq,
        not_false_eq_true]) (fun early _ id msg' r _ _ => ⟨fun msg' mb hc => ?_, fun hc => ?_⟩)
      · exact absurd hc (by simp only [reduceCtorEq, not_false_eq_true])
      · exact absurd hc (by simp only [reduceCtorEq, not_false_eq_true])
  | pass msg =>
      refine kept_silent s _ h (fun id msg mb => by simp only [ne_eq, reduceCtorEq,
        not_false_eq_true]) (fun early _ id msg' r _ _ => ⟨fun msg' mb hc => ?_, fun hc => ?_⟩)
      · exact absurd hc (by simp only [reduceCtorEq, not_false_eq_true])
      · exact absurd hc (by simp only [reduceCtorEq, not_false_eq_true])
  | cancelh id =>
      rcases ho with ⟨st, hst, hid, hopen⟩
      rw [← hid]
      exact kept_silent s _ h (fun id msg mb => by simp only [ne_eq, reduceCtorEq,
        not_false_eq_true]) (follows_cancelh s.held s.outs st (h.good st hst) hopen)
  | send id msg mb =>
      rcases ho with ⟨st, hst, _, hid, hmsg, hmb, hstate⟩
      rw [← hid, ← hmb]
      refine ⟨h.fresh, h.distinct, h.held_lt, h.held_nodup, fun id' msg' mb' hm => ?_,
        fun x hx => ?_, List.pairwise_cons.mpr
          ⟨follows_send s.held s.outs st msg st.mb (h.good st hst) (fun _ => rfl), h.follows⟩⟩
      · rcases List.mem_cons.mp hm with heq | hm
        · simp only [StOut.send.injEq] at heq
          rw [heq.1]
          exact h.fresh st hst
        · exact h.known id' msg' mb' hm
      · by_cases hne : x.id = st.id
        · rw [h.distinct x hx st hst hne]
          exact good_send s.held s.outs st msg (h.good st hst)
        · refine good_frame s.held s.held s.outs [_] x (h.good x hx) (fun hin => hin)
            (fun msg' mb' hm => ?_)
          simp only [List.mem_singleton, StOut.send.injEq] at hm
          exact hne hm.1

/-- A new transaction has no history. -/
theorem alloc_kept (s : StRun) (msg : SipMsg) (h : Kept s) :
    Kept { s with sip := sipStransAlloc s.sip msg, held := s.sip.next :: s.held } := by
  have hmem : ∀ x ∈ (sipStransAlloc s.sip msg).strans, x ∈ s.sip.strans ∨
      (x.id = s.sip.next ∧ x.state = .trying ∧ x.mb = none) := by
    intro x hx
    rcases List.mem_append.mp hx with hx | hx
    · exact Or.inl hx
    · rw [List.mem_singleton.mp hx]
      exact Or.inr ⟨rfl, rfl, rfl⟩
  refine ⟨fun x hx => ?_, fun x hx y hy heq => ?_, fun id hid => ?_, ?_, fun id msg' mb hm => ?_,
    fun x hx => ?_, h.follows⟩
  · change x.id < s.sip.next + 1
    rcases hmem x hx with hx | ⟨hid, _⟩
    · have := h.fresh x hx
      omega
    · omega
  · rcases List.mem_append.mp hx with hx | hx
    · rcases List.mem_append.mp hy with hy | hy
      · exact h.distinct x hx y hy heq
      · rw [List.mem_singleton.mp hy] at heq
        have := h.fresh x hx
        simp only at heq
        omega
    · rcases List.mem_append.mp hy with hy | hy
      · rw [List.mem_singleton.mp hx] at heq
        have := h.fresh y hy
        simp only at heq
        omega
      · rw [List.mem_singleton.mp hx, List.mem_singleton.mp hy]
  · change id < s.sip.next + 1
    rcases List.mem_cons.mp hid with heq | hid
    · omega
    · have := h.held_lt id hid
      omega
  · refine List.nodup_cons.mpr ⟨fun hc => ?_, h.held_nodup⟩
    have := h.held_lt _ hc
    omega
  · change id < s.sip.next + 1
    have := h.known id msg' mb hm
    omega
  · rcases hmem x hx with hx | ⟨hid, hstate, hmb⟩
    · refine good_frame s.held _ s.outs [] x (h.good x hx) (fun hin => ?_)
        (fun _ _ hc => absurd hc List.not_mem_nil)
      rcases List.mem_cons.mp hin with heq | hin
      · have := h.fresh x hx
        omega
      · exact hin
    · refine ⟨fun _ => Or.inl hstate, fun _ => ⟨fun r hr => ?_, fun msg' r hm => ?_⟩,
        fun hc => absurd (Or.inl hstate) hc⟩
      · rw [hmb] at hr
        exact absurd hr (by simp only [reduceCtorEq, not_false_eq_true])
      · have := h.known _ msg' _ hm
        omega

/-- A transaction goes. -/
theorem drop_kept (s : StRun) (id : Nat) (held : List Nat) (new : List StOut) (h : Kept s)
    (hheld : ∀ i ∈ held, i ∈ s.held) (hnodup : held.Nodup)
    (hnew : ∀ i msg mb, StOut.send i msg mb ∈ new → i = id ∧ i < s.sip.next)
    (hfollows : (new ++ s.outs).Pairwise Follows) :
    Kept { s with sip := s.sip.drop id, held := held, outs := new ++ s.outs } := by
  refine ⟨fun x hx => h.fresh x (mem_drop s.sip id x hx).1, fun x hx y hy => h.distinct x
    (mem_drop s.sip id x hx).1 y (mem_drop s.sip id y hy).1, fun i hi => h.held_lt i (hheld i hi),
    hnodup, fun i msg mb hm => ?_, fun x hx => ?_, hfollows⟩
  · rcases List.mem_append.mp hm with hm | hm
    · exact (hnew i msg mb hm).2
    · exact h.known i msg mb hm
  · rcases mem_drop s.sip id x hx with ⟨hx, hne⟩
    exact good_frame s.held held s.outs new x (h.good x hx) (hheld x.id)
      (fun msg mb hm => hne (hnew _ msg mb hm).1)

/-- A transaction is stored anew. -/
theorem put_kept (s : StRun) (st st' : SipStrans) (held : List Nat) (new : List StOut) (h : Kept s)
    (hst : st ∈ s.sip.strans) (hid : st'.id = st.id) (hheld : ∀ i ∈ held, i ∈ s.held)
    (hnodup : held.Nodup) (hnew : ∀ i msg mb, StOut.send i msg mb ∈ new → i = st.id)
    (hgood : Good held (new ++ s.outs) st') (hfollows : (new ++ s.outs).Pairwise Follows) :
    Kept { s with sip := s.sip.put st', held := held, outs := new ++ s.outs } := by
  refine ⟨fun x hx => ?_, fun x hx y hy heq => ?_, fun i hi => h.held_lt i (hheld i hi), hnodup,
    fun i msg mb hm => ?_, fun x hx => ?_, hfollows⟩
  · rcases mem_put s.sip st' x hx with ⟨hx, _⟩ | hx
    · exact h.fresh x hx
    · rw [hx, hid]
      exact h.fresh st hst
  · rcases mem_put s.sip st' x hx with ⟨hx, hxne⟩ | hx
    · rcases mem_put s.sip st' y hy with ⟨hy, _⟩ | hy
      · exact h.distinct x hx y hy heq
      · rw [hy] at heq
        exact absurd heq hxne
    · rcases mem_put s.sip st' y hy with ⟨hy, hyne⟩ | hy
      · rw [hx] at heq
        exact absurd heq.symm hyne
      · rw [hx, hy]
  · rcases List.mem_append.mp hm with hm | hm
    · rw [hnew i msg mb hm]
      exact h.fresh st hst
    · exact h.known i msg mb hm
  · rcases mem_put s.sip st' x hx with ⟨hx, hne⟩ | hx
    · refine good_frame s.held held s.outs new x (h.good x hx) (hheld x.id) (fun msg mb hm => ?_)
      rw [hid] at hne
      exact hne (hnew _ msg mb hm)
    · rw [hx]
      exact hgood

/-- A reply changes the state and the timers. -/
theorem afterReply_spec (st st' : SipStrans) (scode c1 c2 : Nat)
    (h : afterReply st scode c1 c2 = some st') :
    st'.id = st.id ∧ st'.msg = st.msg ∧ st'.mb = st.mb ∧ (Open st' ↔ scode < 200) := by
  unfold afterReply at h
  split at h
  · split at h
    next hlt =>
      rw [← Option.some.inj h]
      exact ⟨rfl, rfl, rfl, fun _ => hlt, fun _ => Or.inr rfl⟩
    next hge =>
      split at h
      · rw [← Option.some.inj h]
        exact ⟨rfl, rfl, rfl, fun ho => absurd ho (shut_of _ .accepted rfl (by decide)),
          fun hlt => absurd hlt hge⟩
      · rw [← Option.some.inj h]
        exact ⟨rfl, rfl, rfl, fun ho => absurd ho (shut_of _ .completed rfl (by decide)),
          fun hlt => absurd hlt hge⟩
  · split at h
    next hlt =>
      rw [← Option.some.inj h]
      exact ⟨rfl, rfl, rfl, fun _ => hlt, fun _ => Or.inr rfl⟩
    next hge =>
      split at h
      · exact absurd h (by simp only [reduceCtorEq, not_false_eq_true])
      · rw [← Option.some.inj h]
        exact ⟨rfl, rfl, rfl, fun ho => absurd ho (shut_of _ .completed rfl (by decide)),
          fun hlt => absurd hlt hge⟩

theorem heldAfter_subset (held : List Nat) (id : Nat) (r : Reply) (err : Nat) :
    ∀ i ∈ heldAfter held id r err, i ∈ held := by
  intro i hi
  unfold heldAfter at hi
  split at hi
  · exact hi
  · exact List.mem_of_mem_erase hi

theorem heldAfter_nodup (held : List Nat) (id : Nat) (r : Reply) (err : Nat) (h : held.Nodup) :
    (heldAfter held id r err).Nodup := by
  unfold heldAfter
  split
  · exact h
  · exact h.erase id

/-- The user replies to a transaction it holds, which has no final reply. -/
theorem reply_kept (s : StRun) (id : Nat) (r : Reply) (c1 c2 err : Nat) (h : Kept s)
    (hid : id ∈ s.held) :
    Kept { s with
      sip := (sipStransReply s.sip id r c1 c2 err).1, now := c2,
      held := heldAfter s.held id r err,
      outs := (sipStransReply s.sip id r c1 c2 err).2 ++ s.outs } := by
  have hheld := heldAfter_subset s.held id r err
  have hnodup := heldAfter_nodup s.held id r err h.held_nodup
  have hnone : ∀ i msg mb, StOut.send i msg mb ∈ ([] : List StOut) → i = id ∧ i < s.sip.next :=
    fun _ _ _ hc => absurd hc List.not_mem_nil
  unfold sipStransReply
  cases hf : s.sip.strans.find? (fun x => x.id = id) with
  | none =>
      -- The transaction is gone, and with it its pointer.
      have hgone : s.sip.drop id = s.sip := by
        unfold Sip.drop
        rw [List.filter_eq_self.mpr (fun x hx => ?_)]
        simpa using List.find?_eq_none.mp hf x hx
      have := drop_kept s id _ [] h hheld hnodup hnone h.follows
      rw [hgone] at this
      exact kept_congr _ _ this rfl rfl rfl
  | some st =>
      rcases find_id s.sip id st hf with ⟨hst, hsid⟩
      have hgood := h.good st hst
      -- The user still holds it, so it has had no final reply.
      have hopen : Open st := hgood.closed (by rw [hsid]; exact hid)
      have hall : ∀ early ∈ s.outs, Follows (.send id st.msg (some r)) early := by
        rw [← hsid]
        exact follows_send s.held s.outs st st.msg (some r) hgood (fun hc => absurd hopen hc)
      have hone : ∀ i msg mb, StOut.send i msg mb ∈ [StOut.send id st.msg (some r)] → i = id := by
        intro i msg mb hm
        simp only [List.mem_singleton, StOut.send.injEq] at hm
        exact hm.1
      simp only
      split
      next herr =>
        split
        next hafter =>
          have := drop_kept s id _ [.send id st.msg (some r)] h hheld hnodup
            (fun i msg mb hm => by
              rw [hone i msg mb hm]
              exact ⟨rfl, h.held_lt id hid⟩)
            (List.pairwise_cons.mpr ⟨hall, h.follows⟩)
          exact kept_congr _ _ this rfl rfl rfl
        next st' hafter =>
          rcases afterReply_spec _ st' r.scode c1 c2 hafter with ⟨hid', hmsg', hmb', hopen'⟩
          have hgood' : Good (heldAfter s.held id r err)
              ([.send id st.msg (some r)] ++ s.outs) st' := by
            -- Before this reply only provisional ones were sent.
            have hnew : ∀ msg r', StOut.send st'.id msg (some r') ∈
                [.send id st.msg (some r)] ++ s.outs → 200 ≤ r'.scode → r' = r := by
              intro msg r' hm hfinal
              rcases List.mem_cons.mp hm with heq | hm
              · simp only [StOut.send.injEq, Option.some.injEq] at heq
                exact heq.2.2
              · rw [hid'] at hm
                have := (hgood.early hopen).2 msg r' hm
                omega
            refine ⟨fun hin => ?_, fun ho => ⟨fun r' hr' => ?_, fun msg r' hm => ?_⟩, fun hc => ?_⟩
            · rw [hopen']
              by_contra hge
              rw [heldAfter, if_neg (fun hc => hge hc.2), hid', hsid] at hin
              exact h.held_nodup.not_mem_erase hin
            · rw [hmb', Option.some.injEq] at hr'
              rw [← hr']
              exact hopen'.mp ho
            · by_contra hge
              rw [hnew msg r' hm (by omega)] at hge
              exact hge (hopen'.mp ho)
            · exact ⟨r, hmb', by rw [hopen'] at hc; omega, hnew⟩
          have := put_kept s st st' _ [.send id st.msg (some r)] h hst hid' hheld hnodup
            (fun i msg mb hm => by rw [hone i msg mb hm, hsid]) hgood'
            (List.pairwise_cons.mpr ⟨hall, h.follows⟩)
          exact kept_congr _ _ this rfl rfl rfl
      next herr =>
        have := drop_kept s id _ [] h hheld hnodup hnone h.follows
        exact kept_congr _ _ this rfl rfl rfl

theorem change_kept (s s' : StRun) (h : Kept s) (hc : Change P Q s s') : Kept s' := by
  have hself : ∀ i ∈ s.held, i ∈ s.held := fun _ hi => hi
  have hnil : ∀ (id : Nat) i msg mb, StOut.send i msg mb ∈ ([] : List StOut) → i = id :=
    fun _ _ _ _ hc => absurd hc List.not_mem_nil
  have hnone : ∀ (id : Nat) i msg mb, StOut.send i msg mb ∈ ([] : List StOut) →
      i = id ∧ i < s.sip.next := fun _ _ _ _ hc => absurd hc List.not_mem_nil
  cases hc with
  | clock now hnow =>
      exact kept_congr s _ h rfl rfl rfl
  | speak o ho => exact speak_kept P Q s o h ho
  | alloc msg _ => exact alloc_kept s msg h
  | reply id r c1 c2 err _ _ hid _ => exact reply_kept s id r c1 c2 err h hid
  | release id hid _ =>
      exact drop_kept s id _ [] h (fun i hi => List.mem_of_mem_erase hi) (h.held_nodup.erase id)
        (hnone id) h.follows
  | acked st hst hs _ =>
      unfold acknowledged
      split
      · exact drop_kept s st.id s.held [] h hself h.held_nodup (hnone st.id) h.follows
      · have hgood := h.good st hst
        -- Rejected already, so the user holds no pointer to it.
        have hshut : ¬ Open st := shut_of st .completed hs (by decide)
        refine put_kept s st _ s.held [] h hst (by rfl) hself h.held_nodup (hnil st.id) ?_ h.follows
        exact ⟨fun hin => absurd (hgood.closed hin) hshut,
          fun hc => absurd hc (shut_of _ .confirmed rfl (by decide)), fun _ => hgood.late hshut⟩
  | expire st d hst _ _ _ =>
      exact drop_kept s st.id s.held [] h hself h.held_nodup (hnone st.id) h.follows
  | resend st d sent hst hd _ _ _ =>
      have hgood := h.good st hst
      -- The handler keeps the reply and the state.
      have hsame : ∀ outs, Good s.held outs st → Good s.held outs (retransmitHandler st s.now) :=
        fun outs hg => ⟨hg.closed, hg.early, hg.late⟩
      cases sent with
      | true =>
          refine kept_congr _ _ (put_kept s st (retransmitHandler st s.now) s.held
            [.send st.id st.msg st.mb] h hst rfl hself h.held_nodup (fun i msg mb hm => ?_)
            (hsame _ (good_send s.held s.outs st st.msg hgood))
            (List.pairwise_cons.mpr ⟨follows_send s.held s.outs st st.msg st.mb hgood
              (fun _ => rfl), h.follows⟩)) rfl rfl rfl
          simp only [List.mem_singleton, StOut.send.injEq] at hm
          exact hm.1
      | false =>
          exact kept_congr _ _ (put_kept s st (retransmitHandler st s.now) s.held [] h hst rfl hself
            h.held_nodup (hnil st.id) (hsame _ hgood) h.follows) rfl rfl rfl

/-- What every change keeps is kept by events. -/
theorem changes_invariant (I : StRun → Prop) (hI : ∀ s s', I s → Change P Q s s' → I s')
    (s s' : StRun) (h : I s) (hc : Relation.ReflTransGen (Change P Q) s s') : I s' := by
  induction hc with
  | refl => exact h
  | tail _ hlast ih => exact hI _ _ ih hlast

theorem only_true (s : Sip) (e : StEvent) : Only (fun _ => True) s e := by
  cases e with
  | recv => exact ⟨fun _ _ _ _ => trivial, fun _ _ _ _ => trivial, fun _ _ _ => trivial⟩
  | _ => exact fun _ _ _ => trivial

theorem stStep_invariant (I : StRun → Prop)
    (hI : ∀ s s', I s → Change (fun _ => True) (fun _ => True) s s' → I s') (s : StRun) (e : StEvent) (s' : StRun)
    (h : I s) (hstep : stStep s e = some s') : I s' :=
  changes_invariant _ _ I hI s s' h
    (stStep_changes _ _ s s' e hstep (fun _ _ _ _ _ => trivial) (only_true s.sip e))

theorem stInit_kept (now : Nat) : Kept (stInit now) :=
  ⟨fun _ hx => absurd hx List.not_mem_nil, fun _ hx => absurd hx List.not_mem_nil,
    fun _ hx => absurd hx List.not_mem_nil, List.nodup_nil,
    fun _ _ _ hx => absurd hx List.not_mem_nil, fun _ hx => absurd hx List.not_mem_nil,
    List.Pairwise.nil⟩

/-- Whatever requests come and whatever the user does, a transaction sends
    nothing after a final reply but that reply, and does not call the handler
    for a CANCEL. The history is latest first. -/
theorem final_reply_settles (t : Nat) (es : List StEvent) (s : StRun)
    (h : exec stStep (stInit t) es = some s) (later earlier : List StOut) (id : Nat) (msg : SipMsg)
    (r : Reply) (hs : s.outs = later ++ .send id msg (some r) :: earlier) (hfinal : 200 ≤ r.scode) :
    (∀ msg' mb, .send id msg' mb ∈ later → mb = some r) ∧ .cancelh id ∉ later := by
  have hkept : Kept s := exec_invariant stStep Kept
    (stStep_invariant Kept (change_kept _ _)) es _ s (stInit_kept t) h
  have hall := hkept.follows
  rw [hs, List.pairwise_append] at hall
  -- Each thing done later follows this reply in the history.
  have hone : ∀ o ∈ later, Follows o (.send id msg (some r)) :=
    fun o ho => hall.2.2 o ho _ List.mem_cons_self
  refine ⟨fun msg' mb hm => ?_, fun hm => ?_⟩
  · exact (hone _ hm id msg r rfl hfinal).1 msg' mb rfl
  · exact (hone _ hm id msg r rfl hfinal).2 rfl

/-- A call to a user who is busy. -/
def busyInvite : SipMsg :=
  { met := "INVITE", branch := "z9hG4bK1", sentby := "a", cseqMet := "INVITE", cseqNum := 1,
    callid := "c", fromTag := "f", toTag := "", ruri := "sip:b", reliable := false }

/-- The call comes twice, and is cancelled after it was turned down. The
    rejection is repeated once and then acknowledged. -/
def busyEvents : List StEvent :=
  [.recv busyInvite 0 true .alloc, .reply 0 ⟨180, "Ringing"⟩ 1 1 0,
    .recv busyInvite 500 true .ignore, .reply 0 ⟨486, "Busy Here"⟩ 600 600 0,
    .recv { busyInvite with met := "CANCEL", cseqMet := "CANCEL" } 700 true .ignore,
    .resend 0 1100 1100 true,
    .recv { busyInvite with met := "ACK", cseqMet := "ACK" } 1200 true .ignore,
    .recv busyInvite 1300 true .ignore, .expire 0 6200]

theorem final_reply_settles_busy :
    ∃ s later earlier, exec stStep (stInit 0) busyEvents = some s ∧
      s.outs = later ++ .send 0 busyInvite (some ⟨486, "Busy Here"⟩) :: earlier ∧
      later.length = 2 ∧ earlier.length = 3 ∧
      (∀ msg' mb, .send 0 msg' mb ∈ later → mb = some ⟨486, "Busy Here"⟩) ∧ .cancelh 0 ∉ later :=
  ⟨_, [.send 0 busyInvite (some ⟨486, "Busy Here"⟩),
      .stateless { busyInvite with met := "CANCEL", cseqMet := "CANCEL" } 200],
    [.send 0 busyInvite (some ⟨180, "Ringing"⟩), .send 0 busyInvite (some ⟨180, "Ringing"⟩),
      .pass busyInvite], rfl, rfl, rfl, rfl,
    final_reply_settles 0 busyEvents _ rfl _ _ 0 busyInvite ⟨486, "Busy Here"⟩ rfl (by decide)⟩

end Strans

end SipPerf
