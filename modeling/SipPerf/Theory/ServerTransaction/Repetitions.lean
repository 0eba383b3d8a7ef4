import SipPerf.Theory.ClientTransaction.Repetitions
import SipPerf.Theory.ServerTransaction.FinalReply

/-!
# How Often a Reply is Repeated

By itself a transaction repeats its reply only if it rejects an INVITE over
UDP, and only until the ACK comes or its timer ends it. The delays are those
of a request that is not an INVITE.

## Main definitions

* `Paced`: The repetitions of a reply.
* `Repeated`: All transactions keep to the schedule.
* `Silenced`: A transaction that repeats nothing any more.

## Theorems

* `change_repeated`, `change_silenced`: Every change keeps to the schedule.
* `final_reply_repeated_boundedly`: How often a reply is repeated.
-/

namespace SipPerf

namespace Strans

open Transition Backoff MachineInt Ctrans

variable (P : SipMsg → Prop) (Q : SipStrans → Prop)

/-- The timers of a transaction, and how often its reply has been repeated. -/
structure Paced (resent : List Nat) (st : SipStrans) : Prop where
  idle : Open st → st.tmr = none ∧ st.tmrg = none ∧ st.txc = 0 ∧ st.id ∉ resent
  count : resent.count st.id ≤ 10
  running : ∀ d ∈ st.tmrg, st.state = .completed ∧ resent.count st.id = st.txc ∧
    ∃ start b, st.tmr = some b ∧ b ≤ start + 64 * sipT1 ∧ Behind (schedule false) start st.txc d

/-- All transactions, and those that are gone. -/
structure Repeated (s : StRun) : Prop where
  kept : Kept s
  paced : ∀ st ∈ s.sip.strans, Paced s.resent st
  count : ∀ id, s.resent.count id ≤ 10
  known : ∀ id ∈ s.resent, id < s.sip.next

/-- The timers after a reply. -/
theorem afterReply_paced (resent : List Nat) (st st' : SipStrans) (scode c1 c2 : Nat)
    (h : Paced resent st) (hopen : Open st) (hclock : c1 ≤ c2)
    (hafter : afterReply st scode c1 c2 = some st') : Paced resent st' := by
  rcases h.idle hopen with ⟨htmr, htmrg, htxc, hout⟩
  -- Before its final reply nothing is repeated by the timer.
  have hzero : resent.count st.id = 0 := List.count_eq_zero.mpr hout
  have hquiet : ∀ x : SipStrans, x.id = st.id → ¬ Open x → x.tmrg = none → Paced resent x := by
    intro x hid hx ht
    refine ⟨fun hc => absurd hc hx, by rw [hid, hzero]; omega, fun d hd => ?_⟩
    rw [ht] at hd
    exact absurd hd (by simp only [Option.mem_def, reduceCtorEq, not_false_eq_true])
  have hpend : Paced resent { st with state := .proceeding } := by
    refine ⟨fun _ => ⟨htmr, htmrg, htxc, hout⟩, h.count, fun d hd => ?_⟩
    rw [htmrg] at hd
    exact absurd hd (by simp only [Option.mem_def, reduceCtorEq, not_false_eq_true])
  unfold afterReply at hafter
  split at hafter
  · split at hafter
    · rw [← Option.some.inj hafter]
      exact hpend
    · split at hafter
      · rw [← Option.some.inj hafter]
        exact hquiet _ rfl (shut_of _ .accepted rfl (by decide)) htmrg
      · rw [← Option.some.inj hafter]
        by_cases hrel : st.msg.reliable = true
        · refine hquiet _ rfl (shut_of _ .completed rfl (by decide)) ?_
          simp only [hrel, if_true, htmrg]
        · refine ⟨fun hc => absurd hc (shut_of _ .completed rfl (by decide)), h.count,
            fun d hd => ?_⟩
          simp only [hrel, Bool.false_eq_true, if_false, Option.mem_def, Option.some.injEq] at hd
          rw [← hd]
          refine ⟨rfl, by rw [hzero, htxc], c2, _, rfl, by omega, ?_⟩
          simp only [htxc]
          exact behind_start (schedule false) c2 sipT1 (by decide)
  · split at hafter
    · rw [← Option.some.inj hafter]
      exact hpend
    · split at hafter
      · exact absurd hafter (by simp only [reduceCtorEq, not_false_eq_true])
      · rw [← Option.some.inj hafter]
        exact hquiet _ rfl (shut_of _ .completed rfl (by decide)) htmrg

/-- The timer serves a transaction that has not done so ten times yet. -/
theorem retransmitHandler_paced (resent : List Nat) (st : SipStrans) (d now : Nat)
    (h : Paced resent st) (hd : st.tmrg = some d) (hnow : d ≤ now) (hfirst : NotAfter d st.tmr) :
    Paced (st.id :: resent) (retransmitHandler st now) := by
  rcases h.running d hd with ⟨hstate, hcount, start, b, hb, hlimit, hbehind⟩
  -- The end of the transaction comes before an eleventh repetition.
  have hlt := behind_bound (schedule false) start st.txc d 32000 11 hbehind
    (Nat.le_trans (hfirst b hb) hlimit) (by decide)
  have htxc : u32 (st.txc + 1) = st.txc + 1 := u32_of_lt _ (by omega)
  have hcount' : (st.id :: resent).count st.id = st.txc + 1 := by rw [List.count_cons_self, hcount]
  refine ⟨fun hc => ?_, ?_, fun d' hd' => ⟨hstate, ?_, start, b, hb, hlimit, ?_⟩⟩
  · exact absurd hc (shut_of _ .completed hstate (by decide))
  · change (st.id :: resent).count st.id ≤ 10
    omega
  · change (st.id :: resent).count st.id = u32 (st.txc + 1)
    rw [hcount', htxc]
  · rw [← Option.some.inj hd']
    simp only [retransmitHandler, htxc]
    exact behind_next (schedule false) start st.txc d now _ hbehind hnow (Nat.le_refl _)

/-- A transaction that the timer did not serve. -/
theorem paced_other (resent : List Nat) (st : SipStrans) (id : Nat) (h : Paced resent st)
    (hne : st.id ≠ id) : Paced (id :: resent) st := by
  have hcount : (id :: resent).count st.id = resent.count st.id :=
    List.count_cons_of_ne (fun hc => hne hc.symm)
  refine ⟨fun hopen => ?_, by rw [hcount]; exact h.count, fun d hd => ?_⟩
  · rcases h.idle hopen with ⟨h1, h2, h3, h4⟩
    exact ⟨h1, h2, h3, fun hc => (List.mem_cons.mp hc).elim hne h4⟩
  · rw [hcount]
    exact h.running d hd

/-- The transactions are changed without the timer. -/
theorem repeated_quiet (s s' : StRun) (h : Repeated s) (hkept : Kept s')
    (hresent : s'.resent = s.resent) (hnext : s.sip.next ≤ s'.sip.next)
    (htable : ∀ x ∈ s'.sip.strans, x ∈ s.sip.strans ∨ Paced s.resent x) : Repeated s' := by
  refine ⟨hkept, fun x hx => ?_, fun id => ?_, fun id hid => ?_⟩
  · rw [hresent]
    rcases htable x hx with hx | hx
    · exact h.paced x hx
    · exact hx
  · rw [hresent]
    exact h.count id
  · rw [hresent] at hid
    exact Nat.lt_of_lt_of_le (h.known id hid) hnext

theorem change_repeated (s s' : StRun) (h : Repeated s) (hc : Change P Q s s') : Repeated s' := by
  have hkept := change_kept P Q s s' h.kept hc
  cases hc with
  | clock now hnow => exact repeated_quiet s _ h hkept rfl (Nat.le_refl _) (fun x hx => Or.inl hx)
  | speak o ho => exact repeated_quiet s _ h hkept rfl (Nat.le_refl _) (fun x hx => Or.inl hx)
  | alloc msg _ =>
      refine repeated_quiet s _ h hkept rfl (Nat.le_succ _) (fun x hx => ?_)
      rcases List.mem_append.mp hx with hx | hx
      · exact Or.inl hx
      -- An identity that has not been used has no repetitions either.
      · have hout : s.sip.next ∉ s.resent := fun hc => Nat.lt_irrefl _ (h.known _ hc)
        rw [List.mem_singleton.mp hx]
        refine Or.inr ⟨fun _ => ⟨rfl, rfl, rfl, hout⟩, ?_, fun d hd => ?_⟩
        · rw [List.count_eq_zero.mpr hout]
          omega
        · exact absurd hd (by simp only [Option.mem_def, reduceCtorEq, not_false_eq_true])
  | reply id r c1 c2 err _ hclock hid _ =>
      refine repeated_quiet s _ h hkept rfl ?_ ?_
      · unfold sipStransReply
        repeat' split
        all_goals exact Nat.le_refl _
      · intro x hx
        unfold sipStransReply at hx
        split at hx
        · exact Or.inl hx
        next st hf =>
          rcases find_id s.sip id st hf with ⟨hst, hsid⟩
          have hopen : Open st := (h.kept.good st hst).closed (by rw [hsid]; exact hid)
          split at hx
          · split at hx
            · exact Or.inl (mem_drop s.sip id x hx).1
            next st' hafter =>
              rcases mem_put s.sip st' x hx with ⟨hx, _⟩ | hx
              · exact Or.inl hx
              · rw [hx]
                have hp := h.paced st hst
                exact Or.inr (afterReply_paced s.resent { st with mb := some r } st' r.scode c1 c2
                  ⟨hp.idle, hp.count, hp.running⟩ hopen hclock hafter)
          · exact Or.inl (mem_drop s.sip id x hx).1
  | release id hid _ =>
      exact repeated_quiet s _ h hkept rfl (Nat.le_refl _)
        (fun x hx => Or.inl (mem_drop s.sip id x hx).1)
  | acked st hst hs _ =>
      refine repeated_quiet s _ h hkept rfl ?_ (fun x hx => ?_)
      · unfold acknowledged
        split
        · exact Nat.le_refl _
        · exact Nat.le_refl _
      · unfold acknowledged at hx
        split at hx
        · exact Or.inl (mem_drop s.sip st.id x hx).1
        · rcases mem_put s.sip _ x hx with ⟨hx, _⟩ | hx
          · exact Or.inl hx
          · rw [hx]
            refine Or.inr ⟨fun hc => absurd hc (shut_of _ .confirmed rfl (by decide)),
              (h.paced st hst).count, fun d hd => ?_⟩
            exact absurd hd (by simp only [Option.mem_def, reduceCtorEq, not_false_eq_true])
  | expire st d hst _ _ _ =>
      exact repeated_quiet s _ h hkept rfl (Nat.le_refl _)
        (fun x hx => Or.inl (mem_drop s.sip st.id x hx).1)
  | resend st d sent hst hd hnow hfirst _ =>
      have hp := retransmitHandler_paced s.resent st d s.now (h.paced st hst) hd hnow hfirst
      refine ⟨hkept, fun x hx => ?_, fun id => ?_, fun id hid => ?_⟩
      · rcases mem_put s.sip _ x hx with ⟨hx, hne⟩ | hx
        · exact paced_other s.resent x st.id (h.paced x hx) hne
        · rw [hx]
          exact hp
      · by_cases hid : id = st.id
        · rw [hid]
          exact hp.count
        · rw [List.count_cons_of_ne (fun hc => hid hc.symm)]
          exact h.count id
      · rcases List.mem_cons.mp hid with heq | hid
        · rw [heq]
          exact h.kept.fresh st hst
        · exact h.known id hid

theorem stInit_repeated (now : Nat) : Repeated (stInit now) :=
  ⟨stInit_kept now, fun _ hx => absurd hx List.not_mem_nil, fun _ => Nat.zero_le 10,
    fun _ hx => absurd hx List.not_mem_nil⟩

/-- A transaction that the timer does not serve any more. -/
structure Silenced (id n : Nat) (s : StRun) : Prop where
  repeated : Repeated s
  old : id < s.sip.next
  stopped : ∀ st ∈ s.sip.strans, st.id = id → ¬ Open st ∧ st.tmrg = none
  count : s.resent.count id = n

/-- A transaction that gets its reply had none, so it is another one. -/
theorem reply_silenced (id n : Nat) (s : StRun) (i : Nat) (r : Reply) (c1 c2 err : Nat)
    (h : Silenced id n s) (hi : i ∈ s.held) :
    ∀ x ∈ (sipStransReply s.sip i r c1 c2 err).1.strans, x.id = id → ¬ Open x ∧ x.tmrg = none := by
  intro x hx hxid
  unfold sipStransReply at hx
  split at hx
  · exact h.stopped x hx hxid
  next st hf =>
    rcases find_id s.sip i st hf with ⟨hst, hsid⟩
    have hopen : Open st := (h.repeated.kept.good st hst).closed (by rw [hsid]; exact hi)
    split at hx
    · split at hx
      · exact h.stopped x (mem_drop s.sip i x hx).1 hxid
      next st' hafter =>
        rcases mem_put s.sip st' x hx with ⟨hx, _⟩ | hx
        · exact h.stopped x hx hxid
        · have hid' := (afterReply_spec _ st' r.scode c1 c2 hafter).1
          rw [hx, hid'] at hxid
          exact absurd hopen (h.stopped st hst hxid).1
    · exact h.stopped x (mem_drop s.sip i x hx).1 hxid

theorem change_silenced (id n : Nat) (s s' : StRun) (h : Silenced id n s) (hc : Change P Q s s') :
    Silenced id n s' := by
  have hrep := change_repeated P Q s s' h.repeated hc
  cases hc with
  | clock now hnow => exact ⟨hrep, h.old, h.stopped, h.count⟩
  | speak o ho => exact ⟨hrep, h.old, h.stopped, h.count⟩
  | alloc msg _ =>
      refine ⟨hrep, Nat.lt_succ_of_lt h.old, fun x hx hid => ?_, h.count⟩
      rcases List.mem_append.mp hx with hx | hx
      · exact h.stopped x hx hid
      · rw [List.mem_singleton.mp hx] at hid
        have := h.old
        simp only at hid
        omega
  | reply i r c1 c2 err _ _ hi _ =>
      refine ⟨hrep, ?_, reply_silenced id n s i r c1 c2 err h hi, h.count⟩
      have hold := h.old
      unfold sipStransReply
      repeat' split
      all_goals exact hold
  | release i hi _ =>
      exact ⟨hrep, h.old, fun x hx => h.stopped x (mem_drop s.sip i x hx).1, h.count⟩
  | acked st hst hs _ =>
      refine ⟨hrep, ?_, fun x hx hid => ?_, h.count⟩
      · have hold := h.old
        unfold acknowledged
        split
        · exact hold
        · exact hold
      · unfold acknowledged at hx
        split at hx
        · exact h.stopped x (mem_drop s.sip st.id x hx).1 hid
        · rcases mem_put s.sip _ x hx with ⟨hx, _⟩ | hx
          · exact h.stopped x hx hid
          · rw [hx]
            exact ⟨shut_of _ .confirmed rfl (by decide), rfl⟩
  | expire st d hst _ _ _ =>
      exact ⟨hrep, h.old, fun x hx => h.stopped x (mem_drop s.sip st.id x hx).1, h.count⟩
  | resend st d sent hst hd _ _ _ =>
      -- The timer of this transaction does not run, so another one is served.
      have hne : st.id ≠ id := fun hid => by
        rw [(h.stopped st hst hid).2] at hd
        exact absurd hd (by simp only [reduceCtorEq, not_false_eq_true])
      refine ⟨hrep, h.old, fun x hx hid => ?_, ?_⟩
      · rcases mem_put s.sip _ x hx with ⟨hx, _⟩ | hx
        · exact h.stopped x hx hid
        · rw [hx] at hid
          exact absurd hid hne
      · change (st.id :: s.resent).count id = n
        rw [List.count_cons_of_ne hne]
        exact h.count

/-- However late the timers are served, and whatever else happens, a reply is
    repeated by the timer at most 10 times, and not any more once it has been
    acknowledged. -/
theorem final_reply_repeated_boundedly (t : Nat) (es fs : List StEvent) (s s' : StRun)
    (h : exec stStep (stInit t) es = some s) (h' : exec stStep s fs = some s') :
    (∀ id, s'.resent.count id ≤ 10) ∧
      ∀ st ∈ s.sip.strans, st.state = .confirmed →
        s'.resent.count st.id = s.resent.count st.id := by
  have hs : Repeated s := exec_invariant stStep Repeated
    (stStep_invariant Repeated (change_repeated _ _)) es _ s (stInit_repeated t) h
  have hs' : Repeated s' := exec_invariant stStep Repeated
    (stStep_invariant Repeated (change_repeated _ _)) fs s s' hs h'
  refine ⟨hs'.count, fun st hst hconf => ?_⟩
  have hstopped : ∀ x ∈ s.sip.strans, x.id = st.id → ¬ Open x ∧ x.tmrg = none := by
    intro x hx hid
    rw [hs.kept.distinct x hx st hst hid]
    refine ⟨shut_of st .confirmed hconf (by decide), ?_⟩
    -- The timer runs only while the transaction waits for the ACK.
    by_contra hne
    rcases Option.ne_none_iff_exists'.mp hne with ⟨d, hd⟩
    have hstate := ((hs.paced st hst).running d hd).1
    rw [hconf] at hstate
    exact absurd hstate (by decide)
  have hsil : Silenced st.id (s.resent.count st.id) s' := exec_invariant stStep _
    (stStep_invariant _ (change_silenced _ _ st.id _)) fs s s'
    ⟨hs, hs.kept.fresh st hst, hstopped, rfl⟩ h'
  exact hsil.count

theorem final_reply_repeated_boundedly_busy :
    ∃ s s' st, exec stStep (stInit 0) (busyEvents.take 7) = some s ∧
      exec stStep s (busyEvents.drop 7) = some s' ∧ st ∈ s.sip.strans ∧ st.state = .confirmed ∧
      (∀ id, s'.resent.count id ≤ 10) ∧ s'.resent.count st.id = s.resent.count st.id := by
  refine ⟨_, _, _, rfl, rfl, List.mem_cons_self, rfl, ?_, ?_⟩
  · exact (final_reply_repeated_boundedly 0 (busyEvents.take 7) (busyEvents.drop 7) _ _ rfl rfl).1
  · exact (final_reply_repeated_boundedly 0 (busyEvents.take 7) (busyEvents.drop 7) _ _ rfl rfl).2
      _ List.mem_cons_self rfl

end Strans

end SipPerf
