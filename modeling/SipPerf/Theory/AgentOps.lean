import SipPerf.Core.UserAgent
import SipPerf.Lib.Transition

/-!
# What the Handlers Do

The methods of `UserAgent` and the ticks of the scheduler, as changes to the
state that proofs can use without unfolding them. There are two kinds.
`takeSession` takes a user agent out of the pool, sets its role and gives it
the new session if there is one; making a call and being called are this,
with opposite roles. `returnSession` puts a user agent back in the pool and
releases whatever session it has; being established as the caller and being
closed are this. All that is left of a method is a counter.

A tick is a loop, and an invariant of it may fail in the middle of a round,
between the two user agents being taken out of the pool and the call being
made. `makeCalls_invariant` is the rule for a loop over any pool, with a
condition on the calls it makes, and `tick_invariant` is the rule for a tick.
What remains to be shown is that the invariant survives a call between two
free user agents, and that it does not depend on anything a round that makes
no call could have changed.

## Main definitions

* `takeSession`, `returnSession`: The two changes.
* `CallsAlong`, `DrawsAlong`: A condition on every call of a loop, and on
  every user agent it is handed.
* `LiveId`: A session is live.

## Theorems

* `uaName_injective`: User agents are told apart by their names.
* `mem_markUaInCall`, `mem_markUaNotInCall`: The pool after an update.
* `call_eq`, `establishHandler_eq`, `closeHandler_eq`: The methods as the two
  changes.
* `makeCalls_invariant`, `tick_invariant`: Invariants of the loop.
* `drawsAlong_of_free`: What a tick is handed.
* `step_tick`, `step_invite`, `step_establish`, `step_close`: The events.
-/

namespace SipPerf

/-- A number can be read back from its decimal digits. -/
theorem toString_injective (m n : Nat) (h : toString m = toString n) : m = n := by
  rw [Nat.toString_eq_repr, Nat.toString_eq_repr] at h
  have hdigits : Nat.toDigits 10 m = Nat.toDigits 10 n := by
    rw [← Nat.toList_repr, ← Nat.toList_repr, h]
  rw [← Nat.ofDigitChars_ten_toDigits (n := m), hdigits, Nat.ofDigitChars_ten_toDigits]

theorem uaName_injective (pid : Nat) : Function.Injective (uaName pid) := by
  intro u v h
  exact toString_injective u v ((String.append_right_inj _).mp h)

/-! ## The loop of the scheduler -/

/-- The condition holds of every call that a loop makes, when it makes it. -/
def CallsAlong {π : Type} (P : Pool π) (G : Nat → UAId → UAId → π → Prop) : Nat → Nat → π → Prop
  | 0, _, _ => True
  | n + 1, ii, p =>
      let r1 := P.getUaFreeForCall (2 * ii) p
      let r2 := P.getUaFreeForCall (2 * ii + 1) r1.2
      match r1.1, r2.1 with
      | some caller, some callee =>
          G ii caller callee r2.2 ∧ CallsAlong P G n (ii + 1) (P.call ii caller callee r2.2)
      | _, _ => True

/-- The condition holds of every user agent that a loop is handed, when it is
    handed it. -/
def DrawsAlong {π : Type} (P : Pool π) (D : UAId → π → Prop) : Nat → Nat → π → Prop
  | 0, _, _ => True
  | n + 1, ii, p =>
      let r1 := P.getUaFreeForCall (2 * ii) p
      let r2 := P.getUaFreeForCall (2 * ii + 1) r1.2
      (∀ a, r1.1 = some a → D a r1.2) ∧ (∀ b, r2.1 = some b → D b r2.2) ∧
        match r1.1, r2.1 with
        | some caller, some callee => DrawsAlong P D n (ii + 1) (P.call ii caller callee r2.2)
        | _, _ => True

instance decidableCallsAlong {π : Type} (P : Pool π) (G : Nat → UAId → UAId → π → Prop)
    [∀ ii a b p, Decidable (G ii a b p)] :
    ∀ (n ii : Nat) (p : π), Decidable (CallsAlong P G n ii p)
  | 0, _, _ => isTrue trivial
  | n + 1, ii, p =>
      let r1 := P.getUaFreeForCall (2 * ii) p
      let r2 := P.getUaFreeForCall (2 * ii + 1) r1.2
      have (a b : UAId) : Decidable (G ii a b r2.2 ∧ CallsAlong P G n (ii + 1)
          (P.call ii a b r2.2)) :=
        have := decidableCallsAlong P G n (ii + 1) (P.call ii a b r2.2)
        instDecidableAnd
      show Decidable (match r1.1, r2.1 with
        | some a, some b => G ii a b r2.2 ∧ CallsAlong P G n (ii + 1) (P.call ii a b r2.2)
        | _, _ => True) from
      match r1.1, r2.1 with
      | some a, some b => this a b
      | none, _ => isTrue trivial
      | some _, none => isTrue trivial

/-- The invariant rule for the loop. A round either makes a call, or puts back
    what it took. -/
theorem makeCalls_invariant {π : Type} (P : Pool π) (G : Nat → UAId → UAId → π → Prop)
    (I : π → Prop)
    (hcall : ∀ ii p a b p1 p2, I p → P.getUaFreeForCall (2 * ii) p = (some a, p1) →
      P.getUaFreeForCall (2 * ii + 1) p1 = (some b, p2) → G ii a b p2 → I (P.call ii a b p2))
    (hback : ∀ ii p r1 r2 p1 p2, I p → P.getUaFreeForCall (2 * ii) p = (r1, p1) →
      P.getUaFreeForCall (2 * ii + 1) p1 = (r2, p2) → r1 = none ∨ r2 = none →
      I (P.markUaNotInCall r2 (P.markUaNotInCall r1 p2))) :
    ∀ (n ii : Nat) (p : π), I p → CallsAlong P G n ii p → I (makeCalls P n ii p).1 := by
  intro n
  induction n with
  | zero =>
      intro ii p hp _
      exact hp
  | succ n ih =>
      intro ii p hp hG
      simp only [makeCalls]
      simp only [CallsAlong] at hG
      -- The two draws of the round, and then the four cases of the source.
      cases hr1 : P.getUaFreeForCall (2 * ii) p with
      | mk a p1 =>
          simp only [hr1] at hG
          cases hr2 : P.getUaFreeForCall (2 * ii + 1) p1 with
          | mk b p2 =>
              simp only [hr2] at hG ⊢
              cases a with
              | none => exact hback ii p none b p1 p2 hp hr1 hr2 (Or.inl rfl)
              | some a =>
                  cases b with
                  | none => exact hback ii p (some a) none p1 p2 hp hr1 hr2 (Or.inr rfl)
                  | some b =>
                      exact ih (ii + 1) _ (hcall ii p a b p1 p2 hp hr1 hr2 hG.1) hG.2

theorem callsAlong_trivial {π : Type} (P : Pool π) : ∀ (n ii : Nat) (p : π),
    CallsAlong P (fun _ _ _ _ => True) n ii p := by
  intro n
  induction n with
  | zero =>
      intro ii p
      exact trivial
  | succ n ih =>
      intro ii p
      simp only [CallsAlong]
      split
      · exact ⟨trivial, ih _ _⟩
      · exact trivial

/-- Whatever the invariant says of a user agent that is drawn holds of every
    user agent the loop is handed. -/
theorem drawsAlong_of_invariant {π : Type} (P : Pool π) (D : UAId → π → Prop) (I : π → Prop)
    (hdraw : ∀ i p a p', I p → P.getUaFreeForCall i p = (some a, p') → D a p')
    (hkeep : ∀ i p r p', I p → P.getUaFreeForCall i p = (r, p') → I p')
    (hcall : ∀ ii p a b p1 p2, I p → P.getUaFreeForCall (2 * ii) p = (some a, p1) →
      P.getUaFreeForCall (2 * ii + 1) p1 = (some b, p2) → I (P.call ii a b p2)) :
    ∀ (n ii : Nat) (p : π), I p → DrawsAlong P D n ii p := by
  intro n
  induction n with
  | zero =>
      intro ii p _
      exact trivial
  | succ n ih =>
      intro ii p hp
      simp only [DrawsAlong]
      cases hr1 : P.getUaFreeForCall (2 * ii) p with
      | mk a p1 =>
          -- The second draw is made from what the first has left.
          have hp1 := hkeep (2 * ii) p a p1 hp hr1
          cases hr2 : P.getUaFreeForCall (2 * ii + 1) p1 with
          | mk b p2 =>
              simp only
              refine ⟨fun a' ha' => ?_, fun b' hb' => ?_, ?_⟩
              · rw [ha'] at hr1
                exact hdraw (2 * ii) p a' p1 hp hr1
              · rw [hb'] at hr2
                exact hdraw (2 * ii + 1) p1 b' p2 hp1 hr2
              · cases a with
                | none => exact trivial
                | some a =>
                    cases b with
                    | none => exact trivial
                    | some b => exact ih (ii + 1) _ (hcall ii p a b p1 p2 hp hr1 hr2)

namespace UAManager

variable {name : UAId → String}

/-! ## The manager -/

theorem mem_markUaRegistered (hname : Function.Injective name) (m : UAManager name) (u v : UAId) :
    ((m.markUaRegistered u).Free v ↔ v = u ∨ m.Free v) ∧
      ((m.markUaRegistered u).Known v ↔ v = u ∨ m.Known v) := by
  refine ⟨NamedPool.mem_put hname m.freeUes u v, ?_⟩
  simp only [Known, markUaRegistered]
  by_cases hvu : v = u
  · rw [hvu, AList.lookup_insert]
    exact ⟨fun _ => Or.inl rfl, fun _ => rfl⟩
  · have hne : name v ≠ name u := fun hc => hvu (hname hc)
    simp only [AList.lookup_insert_ne hne, hvu, false_or]

theorem mem_markUaNotInCall (hname : Function.Injective name) (m : UAManager name) (u v : UAId) :
    (m.markUaNotInCall (some u)).Free v ↔ v = u ∨ m.Free v :=
  NamedPool.mem_put hname m.freeUes u v

theorem mem_markUaInCall (hname : Function.Injective name) (m : UAManager name) (u v : UAId) :
    (m.markUaInCall u).Free v ↔ m.Free v ∧ v ≠ u :=
  NamedPool.mem_drop hname m.freeUes u v

/-- A user agent that is found is registered, under the name that was looked
    up, and finding it changes nothing. -/
theorem getUaByName_eq_some (m m' : UAManager name) (k : String) (u : UAId)
    (h : m.getUaByName k = (some u, m')) : m' = m ∧ k = name u ∧ m.Known u := by
  unfold getUaByName at h
  split at h
  · rename_i v hv
    rw [Prod.mk.injEq] at h
    rw [h.1] at hv
    -- What stands under a name bears it.
    have hk := m.allKeyed k u hv
    exact ⟨h.2.symm, hk, by rw [Known, ← hk]; exact hv⟩
  · exact absurd h (by simp only [Prod.mk.injEq, reduceCtorEq, false_and, not_false_eq_true])

theorem getUaByName_of_known (m : UAManager name) (k : String) (u : UAId) (hk : k = name u)
    (h : m.Known u) : (m.getUaByName k).1 = some u := by
  unfold Known at h
  rw [← hk] at h
  unfold getUaByName
  split
  · rename_i v hv
    rw [h, Option.some.injEq] at hv
    exact hv.symm
  · rename_i hnone
    rw [h] at hnone
    exact absurd hnone (by simp only [reduceCtorEq, not_false_eq_true])

end UAManager

namespace Agents

open MachineInt UAManager Transition

variable {name : UAId → String}

/-- The session is live. -/
def LiveId (w : World name) (i : SessId) : Prop := ∃ x ∈ w.live, x.id = i

/-! ## The two changes -/

/-- A user agent leaves the pool and takes a role, with a new session if the
    library made one. -/
def takeSession (w : World name) (u : UAId) (outgoing ok : Bool) : World name :=
  let w := setCaller { w with mgr := w.mgr.markUaInCall u } u outgoing
  if ok then newSession w u outgoing else w

/-- A user agent returns to the pool, and its session is released. -/
def returnSession (w : World name) (u : UAId) : World name :=
  derefSess { w with mgr := w.mgr.markUaNotInCall (some u) } u

theorem call_eq (w : World name) (u : UAId) (connected : Bool) :
    call w u connected =
      { takeSession w u true connected with
        stats := { w.stats with initCall := u32 (w.stats.initCall + 1) } } := by
  cases connected with
  | true => rfl
  | false => rfl

theorem takeSession_live (w : World name) (u : UAId) (outgoing ok : Bool) :
    (takeSession w u outgoing ok).live =
      if ok then ⟨w.nextSess, u, outgoing, false⟩ :: w.live else w.live := by
  cases ok with
  | true => rfl
  | false => rfl

theorem takeSession_self (w : World name) (u : UAId) (outgoing ok : Bool) :
    (takeSession w u outgoing ok).ua u =
      ⟨if ok then some w.nextSess else (w.ua u).sess, outgoing⟩ := by
  cases ok with
  | true => simp only [takeSession, newSession, setSess, setCaller, Function.update_self, if_true]
  | false =>
      simp only [takeSession, setCaller, Function.update_self, Bool.false_eq_true, if_false]

theorem takeSession_other (w : World name) (u v : UAId) (outgoing ok : Bool) (h : v ≠ u) :
    (takeSession w u outgoing ok).ua v = w.ua v := by
  cases ok with
  | true =>
      simp only [takeSession, newSession, setSess, setCaller, if_true, Function.update_of_ne h]
  | false => simp only [takeSession, setCaller, Bool.false_eq_true, if_false,
      Function.update_of_ne h]

/-- What taking a session leaves alone, and what it does to the manager. -/
theorem takeSession_rest (w : World name) (u : UAId) (outgoing ok : Bool) :
    (takeSession w u outgoing ok).mgr = w.mgr.markUaInCall u ∧
      (takeSession w u outgoing ok).stats = w.stats ∧
      (takeSession w u outgoing ok).reservedFor = w.reservedFor ∧
      (takeSession w u outgoing ok).calls = w.calls ∧
      (takeSession w u outgoing ok).nextSess = if ok then w.nextSess + 1 else w.nextSess := by
  cases ok with
  | true => exact ⟨rfl, rfl, rfl, rfl, rfl⟩
  | false => exact ⟨rfl, rfl, rfl, rfl, rfl⟩

theorem returnSession_live (w : World name) (u : UAId) :
    (returnSession w u).live = w.live.filter (fun x => decide (some x.id ≠ (w.ua u).sess)) := by
  unfold returnSession derefSess
  cases hs : (w.ua u).sess with
  | none =>
      simp only [ne_eq, reduceCtorEq, not_false_eq_true, decide_true, List.filter_true]
  | some i => simp only [setSess, endSession, ne_eq, Option.some.injEq]

theorem returnSession_liveId (w : World name) (u : UAId) (i : SessId) :
    LiveId (returnSession w u) i ↔ LiveId w i ∧ (w.ua u).sess ≠ some i := by
  constructor
  · intro h
    rcases h with ⟨x, hx, hid⟩
    rw [returnSession_live, List.mem_filter, decide_eq_true_eq, hid] at hx
    exact ⟨⟨x, hx.1, hid⟩, hx.2.symm⟩
  · intro h
    rcases h with ⟨⟨x, hx, hid⟩, hne⟩
    refine ⟨x, ?_, hid⟩
    rw [returnSession_live, List.mem_filter, decide_eq_true_eq, hid]
    exact ⟨hx, hne.symm⟩

theorem returnSession_self (w : World name) (u : UAId) :
    (returnSession w u).ua u = ⟨none, (w.ua u).caller⟩ := by
  unfold returnSession derefSess
  cases hs : (w.ua u).sess with
  | none =>
      simp only
      rw [← hs]
  | some i => simp only [setSess, endSession, Function.update_self]

theorem returnSession_other (w : World name) (u v : UAId) (h : v ≠ u) :
    (returnSession w u).ua v = w.ua v := by
  unfold returnSession derefSess
  cases hs : (w.ua u).sess with
  | none => rfl
  | some i => simp only [setSess, endSession, Function.update_of_ne h]

theorem returnSession_rest (w : World name) (u : UAId) :
    (returnSession w u).mgr = w.mgr.markUaNotInCall (some u) ∧
      (returnSession w u).stats = w.stats ∧ (returnSession w u).reservedFor = w.reservedFor ∧
      (returnSession w u).calls = w.calls ∧ (returnSession w u).nextSess = w.nextSess := by
  unfold returnSession derefSess
  cases hs : (w.ua u).sess with
  | none => exact ⟨rfl, rfl, rfl, rfl, rfl⟩
  | some i => exact ⟨rfl, rfl, rfl, rfl, rfl⟩

theorem establishHandler_eq (w : World name) (u : UAId) :
    establishHandler w u =
      if (w.ua u).caller then
        { returnSession w u with
          stats := { w.stats with successCall := u32 (w.stats.successCall + 1) } }
      else w := by
  unfold establishHandler returnSession derefSess
  cases hs : (w.ua u).sess with
  | none => simp only [hs]
  | some i =>
      simp only [hs]
      rfl

theorem closeHandler_eq (w : World name) (u : UAId) (err : Nat) :
    closeHandler w u err =
      { returnSession w u with
        stats := if err ≠ econnreset then
            { w.stats with failedCall := u32 (w.stats.failedCall + 1) } else w.stats } := by
  unfold closeHandler returnSession derefSess
  by_cases he : err ≠ econnreset
  · simp only [if_pos he]
    cases hs : (w.ua u).sess with
    | none => rfl
    | some i => rfl
  · simp only [if_neg he]
    cases hs : (w.ua u).sess with
    | none => rfl
    | some i => rfl

/-! ## Ticks -/

/-- Every draw from the pool returns its first entry, and every attempt to
    connect succeeds. -/
def plainChoice : Choice := { draw := fun _ => 0, connected := fun _ => true }

/-- A draw from the pool. -/
theorem getUaFreeForCall_cases (c : Choice) (i : Nat) (w : World name) :
    (∃ a, w.mgr.Free a ∧ (schedulerPool name c).getUaFreeForCall i w =
      (some a, { w with mgr := w.mgr.markUaInCall a })) ∨
    ((∀ a, ¬ w.mgr.Free a) ∧ (schedulerPool name c).getUaFreeForCall i w = (none, w)) := by
  simp only [schedulerPool, UAManager.getUaFreeForCall]
  cases hd : w.mgr.freeUes.draw (c.draw i) with
  | none => exact Or.inr ⟨(NamedPool.draw_eq_none _ _).mp hd, rfl⟩
  | some a => exact Or.inl ⟨a, NamedPool.draw_eq_some _ _ a hd, rfl⟩

/-- Taking a user agent out of the pool and putting it back. -/
theorem free_giveBack (hname : Function.Injective name) (m : UAManager name) (a : UAId)
    (ha : m.Free a) (v : UAId) : ((m.markUaInCall a).markUaNotInCall (some a)).Free v ↔ m.Free v := by
  rw [mem_markUaNotInCall hname, mem_markUaInCall hname]
  constructor
  · rintro (hva | hv)
    · rw [hva]
      exact ha
    · exact hv.1
  · intro hv
    by_cases hva : v = a
    · exact Or.inl hva
    · exact Or.inr ⟨hv, hva⟩

/-- The manager once the scheduler has taken two user agents. -/
def taken (w : World name) (a b : UAId) : World name :=
  { w with mgr := (w.mgr.markUaInCall a).markUaInCall b }

/-! A call of the scheduler, between two user agents it has taken. -/

theorem schedCall_free (hname : Function.Injective name) (w : World name) (a b : UAId) (ok : Bool)
    (v : UAId) : (schedCall (taken w a b) a b ok).mgr.Free v ↔ w.mgr.Free v ∧ v ≠ a ∧ v ≠ b := by
  unfold schedCall
  rw [call_eq]
  change (takeSession (taken w a b) a true ok).mgr.Free v ↔ _
  rw [(takeSession_rest (taken w a b) a true ok).1, mem_markUaInCall hname]
  unfold taken
  rw [mem_markUaInCall hname, mem_markUaInCall hname]
  exact ⟨fun h => ⟨h.1.1.1, h.2, h.1.2⟩, fun h => ⟨⟨⟨h.1, h.2.1⟩, h.2.2⟩, h.2.1⟩⟩

theorem schedCall_known (w : World name) (a b : UAId) (ok : Bool) (v : UAId) :
    (schedCall (taken w a b) a b ok).mgr.Known v ↔ w.mgr.Known v := by
  cases ok with
  | true => exact Iff.rfl
  | false => exact Iff.rfl

theorem schedCall_live (w : World name) (a b : UAId) (ok : Bool) :
    (schedCall (taken w a b) a b ok).live =
      if ok then ⟨w.nextSess, a, true, false⟩ :: w.live else w.live := by
  cases ok with
  | true => rfl
  | false => rfl

theorem schedCall_self (w : World name) (a b : UAId) (ok : Bool) :
    (schedCall (taken w a b) a b ok).ua a =
      ⟨if ok then some w.nextSess else (w.ua a).sess, true⟩ := by
  unfold schedCall
  rw [call_eq]
  exact takeSession_self (taken w a b) a true ok

theorem schedCall_other (w : World name) (a b : UAId) (ok : Bool) (v : UAId) (h : v ≠ a) :
    (schedCall (taken w a b) a b ok).ua v = w.ua v := by
  unfold schedCall
  rw [call_eq]
  exact takeSession_other (taken w a b) a v true ok h

theorem schedCall_stats (w : World name) (a b : UAId) (ok : Bool) :
    (schedCall (taken w a b) a b ok).stats =
      { w.stats with initCall := u32 (w.stats.initCall + 1) } := by
  cases ok with
  | true => rfl
  | false => rfl

/-- The invariant rule for a tick. -/
theorem tick_invariant (hname : Function.Injective name) (c : Choice)
    (G : Nat → UAId → UAId → World name → Prop) (I : World name → Prop)
    (hsched : ∀ w s, I w → I { w with sched := s })
    (hmgr : ∀ w m, I w → (∀ v, m.Free v ↔ w.mgr.Free v) → (∀ v, m.Known v ↔ w.mgr.Known v) →
      I { w with mgr := m })
    (hcall : ∀ w ii a b, I w → w.mgr.Free a → w.mgr.Free b → a ≠ b → G ii a b (taken w a b) →
      I (schedCall (taken w a b) a b (c.connected ii)))
    (w : World name) (rounds : Nat) (hw : I w)
    (hG : CallsAlong (schedulerPool name c) G rounds 0 w) (s : CallScheduler) :
    I { (w.sched.actFor (schedulerPool name c) rounds w).1 with sched := s } := by
  -- A round that makes a call has drawn two different free user agents. One
  -- that does not puts back what it drew.
  refine hsched _ _ (makeCalls_invariant (schedulerPool name c) G I ?_ ?_ rounds 0 w hw hG)
  · intro ii p a b p1 p2 hp h1 h2 hg
    rcases getUaFreeForCall_cases c (2 * ii) p with ⟨a', ha, h1'⟩ | ⟨_, h1'⟩
    · rw [h1', Prod.mk.injEq, Option.some.injEq] at h1
      rw [← h1.2] at h2
      rcases getUaFreeForCall_cases c (2 * ii + 1) { p with mgr := p.mgr.markUaInCall a' } with
        ⟨b', hb, h2'⟩ | ⟨_, h2'⟩
      · rw [h2', Prod.mk.injEq, Option.some.injEq] at h2
        -- The second draw is from the pool without the first user agent.
        have hb' := (mem_markUaInCall hname p.mgr a' b').mp hb
        rw [← h2.2, ← h1.1, ← h2.1] at hg ⊢
        exact hcall p ii a' b' hp ha hb'.1 (Ne.symm hb'.2) hg
      · rw [h2', Prod.mk.injEq] at h2
        exact absurd h2.1 (by simp only [reduceCtorEq, not_false_eq_true])
    · rw [h1', Prod.mk.injEq] at h1
      exact absurd h1.1 (by simp only [reduceCtorEq, not_false_eq_true])
  · intro ii p r1 r2 p1 p2 hp h1 h2 hnone
    rcases getUaFreeForCall_cases c (2 * ii) p with ⟨a, ha, h1'⟩ | ⟨hempty, h1'⟩
    · rw [h1', Prod.mk.injEq] at h1
      rw [← h1.2] at h2
      rcases getUaFreeForCall_cases c (2 * ii + 1) { p with mgr := p.mgr.markUaInCall a } with
        ⟨b, _, h2'⟩ | ⟨_, h2'⟩
      · rw [h2', Prod.mk.injEq] at h2
        rw [← h1.1, ← h2.1] at hnone
        exact absurd hnone (by simp only [reduceCtorEq, or_self, not_false_eq_true])
      · rw [h2', Prod.mk.injEq] at h2
        rw [← h1.1, ← h2.1, ← h2.2]
        exact hmgr p _ hp (free_giveBack hname p.mgr a ha) (fun v => Iff.rfl)
    · -- An empty pool: both draws fail, and nothing is put back.
      rw [h1', Prod.mk.injEq] at h1
      rw [← h1.2] at h2
      rcases getUaFreeForCall_cases c (2 * ii + 1) p with ⟨b, hb, _⟩ | ⟨_, h2'⟩
      · exact absurd hb (hempty b)
      · rw [h2', Prod.mk.injEq] at h2
        rw [← h1.1, ← h2.1, ← h2.2]
        exact hp

/-- The rule for what a tick is handed: user agents that are free, and each is
    taken out of the pool as it is drawn. -/
theorem drawsAlong_of_free (c : Choice) (D : UAId → World name → Prop) (I : World name → Prop)
    (htake : ∀ w a, I w → w.mgr.Free a → I { w with mgr := w.mgr.markUaInCall a } ∧
      D a { w with mgr := w.mgr.markUaInCall a })
    (hcall : ∀ w a b connected, I w → I (schedCall w a b connected)) (w : World name) (h : I w)
    (n : Nat) : DrawsAlong (schedulerPool name c) D n 0 w := by
  have hdraw : ∀ i (p : World name) r p', I p →
      (schedulerPool name c).getUaFreeForCall i p = (r, p') →
      I p' ∧ ∀ a, r = some a → D a p' := by
    intro i p r p' hp hr
    rcases getUaFreeForCall_cases c i p with ⟨a, ha, hget⟩ | ⟨_, hget⟩
    · rw [hget, Prod.mk.injEq] at hr
      rw [← hr.1, ← hr.2]
      refine ⟨(htake p a hp ha).1, fun a' ha' => ?_⟩
      rw [← Option.some.inj ha']
      exact (htake p a hp ha).2
    · rw [hget, Prod.mk.injEq] at hr
      rw [← hr.1, ← hr.2]
      exact ⟨hp, fun a ha => absurd ha (by simp only [reduceCtorEq, not_false_eq_true])⟩
  refine drawsAlong_of_invariant (schedulerPool name c) D I
    (fun i p a p' hp hr => (hdraw i p (some a) p' hp hr).2 a rfl)
    (fun i p r p' hp hr => (hdraw i p r p' hp hr).1) (fun ii p a b p1 p2 hp h1 h2 => ?_) n 0 w h
  exact hcall p2 a b _ ((hdraw _ p1 _ p2 (hdraw _ p _ p1 hp h1).1 h2).1)

/-! ## The events of the library -/

theorem step_tick (w w' : World name) (n : Nat) (c : Choice) (h : step w (.tick n c) = some w') :
    ∃ s, w' = { (w.sched.actFor (schedulerPool name c) (callsToMake w.sched n).toNat w).1 with
      sched := s } := by
  simp only [step, Option.some.injEq] at h
  rw [← h]
  exact ⟨_, rfl⟩

theorem step_invite (w w' : World name) (user : String) (accepted answered : Bool)
    (h : step w (.invite user accepted answered) = some w') :
    ∃ u, user = name u ∧ w.mgr.Known u ∧ w' = takeSession w u false accepted := by
  simp only [step] at h
  split at h
  · exact absurd h (by simp only [reduceCtorEq, not_false_eq_true])
  · rename_i u m hu
    rcases getUaByName_eq_some w.mgr m user u hu with ⟨hm, hk, hknown⟩
    rw [Option.some.injEq, hm] at h
    exact ⟨u, hk, hknown, h.symm⟩

/-- Being established changes nothing of a session but that. -/
theorem setEstablished_mem (w : World name) (i : SessId) (x : Session)
    (h : x ∈ (setEstablished w i).live) :
    ∃ y ∈ w.live, y.id = x.id ∧ y.ua = x.ua ∧ y.outgoing = x.outgoing := by
  rcases List.mem_map.mp h with ⟨y, hy, hyx⟩
  refine ⟨y, hy, ?_⟩
  split at hyx
  · rw [← hyx]
    exact ⟨rfl, rfl, rfl⟩
  · rw [← hyx]
    exact ⟨rfl, rfl, rfl⟩

theorem setEstablished_liveId (w : World name) (i j : SessId) :
    LiveId (setEstablished w i) j ↔ LiveId w j := by
  constructor
  · intro h
    rcases h with ⟨x, hx, hid⟩
    rcases setEstablished_mem w i x hx with ⟨y, hy, hyid, _⟩
    exact ⟨y, hy, hyid.trans hid⟩
  · intro h
    rcases h with ⟨x, hx, hid⟩
    refine ⟨_, List.mem_map_of_mem hx, ?_⟩
    split
    · exact hid
    · exact hid

theorem endSession_liveId (w : World name) (i j : SessId) :
    LiveId (endSession w i) j ↔ LiveId w j ∧ j ≠ i := by
  constructor
  · intro h
    rcases h with ⟨x, hx, hid⟩
    rw [endSession, List.mem_filter, decide_eq_true_eq, hid] at hx
    exact ⟨⟨x, hx.1, hid⟩, hx.2⟩
  · intro h
    rcases h with ⟨⟨x, hx, hid⟩, hne⟩
    refine ⟨x, ?_, hid⟩
    rw [endSession, List.mem_filter, decide_eq_true_eq, hid]
    exact ⟨hx, hne⟩

theorem findSession_eq_some (w : World name) (i : SessId) (x : Session)
    (h : findSession w i = some x) : x ∈ w.live ∧ x.id = i := by
  refine ⟨List.mem_of_find?_eq_some h, ?_⟩
  have hx := List.find?_some h
  exact of_decide_eq_true hx

theorem step_establish (w w' : World name) (i : SessId) (h : step w (.establish i) = some w') :
    ∃ x ∈ w.live, x.id = i ∧
      w' = if (w.ua x.ua).caller then
          { returnSession (setEstablished w i) x.ua with
            stats := { w.stats with successCall := u32 (w.stats.successCall + 1) } }
        else setEstablished w i := by
  simp only [step] at h
  cases hf : findSession w i with
  | none => simp only [hf, reduceCtorEq] at h
  | some x =>
      rcases findSession_eq_some w i x hf with ⟨hmem, hid⟩
      simp only [hf] at h
      split at h
      · exact absurd h (by simp only [reduceCtorEq, not_false_eq_true])
      · rw [Option.some.injEq, establishHandler_eq] at h
        exact ⟨x, hmem, hid, h.symm⟩

theorem step_close (w w' : World name) (i : SessId) (err : Nat)
    (h : step w (.close i err) = some w') :
    ∃ x ∈ w.live, x.id = i ∧
      w' = { returnSession (endSession w i) x.ua with
        stats := if err ≠ econnreset then
            { w.stats with failedCall := u32 (w.stats.failedCall + 1) } else w.stats } := by
  simp only [step] at h
  cases hf : findSession w i with
  | none => simp only [hf, reduceCtorEq] at h
  | some x =>
      rcases findSession_eq_some w i x hf with ⟨hmem, hid⟩
      simp only [hf, Option.some.injEq] at h
      rw [closeHandler_eq] at h
      exact ⟨x, hmem, hid, h.symm⟩

end Agents

end SipPerf
