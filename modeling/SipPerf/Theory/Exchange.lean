import SipPerf.Theory.Exchange.Request

/-!
# A Request is Served Once

The network may lose, repeat and reorder what it carries, and the client
transaction sends its request many times. The user at the other end gets the
request at most once, as long as the server transaction is still there when
the last copy comes in.

A request under way at most `delay`, timers served at most `late` after they
are due: the last copy comes in before the server transaction has been answered
for 64 times the first delay, if eleven times the one and once the other are
less than that first delay. After an ACK the server transaction does not stay
for that long. But then nothing more is sent, and what is on its way comes
before the transaction ends.

The user has to make a transaction of the request, keep it until it has
replied, and nobody else may use the branch of the client transaction. What
the client transaction then reports as the final response is the one that the
user has given, but for a 482 where the same request had already come by
another way.

## Main definitions

* `Past`: No copy comes in from a time on.
* `Served`: Both sides.

## Theorems

* `netStep_served`: Every event keeps the two sides in agreement.
* `foreign_serves`: A server that has not heard of the request.
* `request_served_once`: The request is served once, and the response is the
  one given.
-/

namespace SipPerf

namespace Exchange

open Transition Ctrans Strans

/-! ## Both sides -/

/-- No copy of the request comes in from `x` on: nothing more is sent and what
    was sent is lost or there, or the time for the last copy is over. -/
def Past (t late delay : Nat) (c : CtRun) (x : Nat) : Prop :=
  (Stopped c ∧ ∀ a ∈ c.sentAt, a + delay < x) ∨ t + 31500 + 11 * late + delay < x

theorem past_mono (t late delay : Nat) (c : CtRun) (x y : Nat) (hle : x ≤ y)
    (h : Past t late delay c x) : Past t late delay c y := by
  rcases h with ⟨hs, ha⟩ | hx
  · exact Or.inl ⟨hs, fun a hin => Nat.lt_of_lt_of_le (ha a hin) hle⟩
  · exact Or.inr (Nat.lt_of_lt_of_le hx hle)

/-- The history of the server only grows. -/
theorem stStep_outs (s s' : StRun) (e : StEvent) (h : stStep s e = some s') :
    (∃ new, s'.outs = new ++ s.outs) ∧ s.now ≤ s'.now := by
  refine changes_invariant (fun _ => True) (fun _ => True)
    (fun x => (∃ new, x.outs = new ++ s.outs) ∧ s.now ≤ x.now) (fun x y hx hc => ?_) s s'
    ⟨⟨[], rfl⟩, Nat.le_refl _⟩
    (stStep_changes _ _ s s' e h (fun _ _ _ _ _ => trivial) (only_true s.sip e))
  rcases hx with ⟨⟨new, hnew⟩, hnow⟩
  have hmore : ∀ l, ∃ new, l ++ x.outs = new ++ s.outs := by
    intro l
    rw [hnew]
    exact ⟨l ++ new, (List.append_assoc _ _ _).symm⟩
  cases hc with
  | clock now hle => exact ⟨⟨new, hnew⟩, Nat.le_trans hnow hle⟩
  | speak o ho => exact ⟨hmore [o], hnow⟩
  | alloc msg _ => exact ⟨⟨new, hnew⟩, hnow⟩
  | reply id r c1 c2 err h1 h2 _ _ => exact ⟨hmore _, Nat.le_trans hnow (Nat.le_trans h1 h2)⟩
  | release id _ _ => exact ⟨⟨new, hnew⟩, hnow⟩
  | acked st _ _ _ => exact ⟨⟨new, hnew⟩, hnow⟩
  | expire st d _ _ _ _ => exact ⟨⟨new, hnew⟩, hnow⟩
  | resend st d sent _ _ _ _ _ => exact ⟨hmore _, hnow⟩

/-- Both sides and the request, which was first sent at `t`. -/
structure Served (req : SipMsg) (t start late delay : Nat) (n : Net) : Prop where
  repeats : Repeats (decide (req.met = "INVITE")) false start n.client
  onTime : OnTime start late n.client
  start : t ≤ n.now
  sent : ∀ a ∈ n.client.sentAt, a ≤ n.now
  acked : .ack ∈ n.client.outs → req.met = "INVITE" ∧ Stopped n.client
  heard : ∀ c, .response c ∈ n.client.outs → c ∈ n.server.outs.filterMap (answer req)
  serves : Serves req (Past t late delay n.client) n.server

/-- The client transaction does something, or it gets a response. -/
theorem clientStep_served (req : SipMsg) (t start late delay : Nat) (n n' : Net) (e : CtEvent)
    (h : Served req t start late delay n) (hprompt : Prompt late n.client e)
    (hresp : ∀ c now acked, e = .response c now acked →
      c ∈ n.server.outs.filterMap (answer req))
    (hstep : clientStep n e = some n') : Served req t start late delay n' := by
  unfold clientStep at hstep
  cases hc : ctStep { n.client with now := max n.client.now n.now } e with
  | none => simp only [hc, reduceCtorEq] at hstep
  | some c =>
      simp only [hc, Option.some.injEq] at hstep
      -- Moving the clock on does not change what is known of the client.
      have hr0 : Repeats (decide (req.met = "INVITE")) false start
          { n.client with now := max n.client.now n.now } :=
        ⟨h.repeats.kind, h.repeats.count, h.repeats.spaced, h.repeats.armed⟩
      have hrep := repeating_of_repeats _ _ _ _ hr0
      have hnow := ctStep_now _ c e hrep hc
      rcases ctStep_outs _ c e hrep hc with ⟨new, houts, hnew⟩
      have hstop : Stopped n.client → Stopped c ∧ c.sentAt = n.client.sentAt :=
        fun hs => ctStep_stopped { n.client with now := max n.client.now n.now } c e hs hc
      have hle : n.now ≤ c.now := Nat.le_trans (Nat.le_max_right _ _) hnow.1
      rw [← hstep]
      refine ⟨ctStep_repeats _ _ _ _ e c hr0 hc, ctStep_onTime _ _ _ late _ e c hr0
        ⟨h.onTime.timed, h.onTime.sent⟩ hprompt hc, Nat.le_trans h.start hle, fun a ha => ?_,
        fun hack => ?_, fun code hcode => ?_, ?_⟩
      · rcases hnow.2 a ha with ha | ha
        · exact Nat.le_trans (h.sent a ha) hle
        · exact Nat.le_of_eq ha
      · rw [houts] at hack
        rcases List.mem_append.mp hack with hack | hack
        -- Only an INVITE is acknowledged, and it is not repeated after that.
        · rcases (hnew _ hack).2 rfl with ⟨⟨ct, hct, hinv⟩, hs⟩
          rw [(h.repeats.kind ct hct).1] at hinv
          exact ⟨of_decide_eq_true hinv, hs⟩
        · exact ⟨(h.acked hack).1, (hstop (h.acked hack).2).1⟩
      · rw [houts] at hcode
        rcases List.mem_append.mp hcode with hcode | hcode
        · rcases (hnew _ hcode).1 code rfl with ⟨now, acked, he⟩
          exact hresp code now acked he
        · exact h.heard code hcode
      · refine serves_mono req _ _ n.server h.serves (fun x hx => ?_)
        rcases hx with ⟨hs, ha⟩ | hx
        -- A client that has stopped stays so, and the copies are the old ones.
        · exact Or.inl ⟨(hstop hs).1, by rw [(hstop hs).2]; exact ha⟩
        · exact Or.inr hx

/-- Something happens at the server. -/
theorem serverStep_served (req : SipMsg) (t start late delay : Nat) (n n' : Net) (e : StEvent)
    (h : Served req t start late delay n) (hstep : serverStep n e = some n')
    (hserves : ∀ s', stStep { n.server with now := max n.server.now n.now } e = some s' →
      Repeated s' →
      Serves req (Past t late delay n.client) { n.server with now := max n.server.now n.now } →
      Serves req (Past t late delay n.client) s') : Served req t start late delay n' := by
  unfold serverStep at hstep
  cases hs : stStep { n.server with now := max n.server.now n.now } e with
  | none => simp only [hs, reduceCtorEq] at hstep
  | some s =>
      simp only [hs, Option.some.injEq] at hstep
      have hsv := h.serves
      have hnow : Serves req (Past t late delay n.client)
          { n.server with now := max n.server.now n.now } := by
        refine ⟨⟨kept_congr n.server _ hsv.repeated.kept rfl rfl rfl, hsv.repeated.paced,
          hsv.repeated.count, hsv.repeated.known⟩, hsv.own, hsv.about, hsv.once, hsv.unseen,
          hsv.single, fun hp => ?_⟩
        rcases hsv.lasting hp with hlast | hover
        · exact Or.inl hlast
        · exact Or.inr (past_mono t late delay n.client _ _ (Nat.le_max_left _ _) hover)
      have hr : Repeated s := stStep_invariant Repeated (change_repeated _ _) _ e s hnow.repeated hs
      rcases stStep_outs _ s e hs with ⟨⟨new, houts⟩, hle⟩
      have hle' : n.now ≤ s.now := Nat.le_trans (Nat.le_max_right _ _) hle
      rw [← hstep]
      refine ⟨h.repeats, h.onTime, Nat.le_trans h.start hle', fun a ha =>
        Nat.le_trans (h.sent a ha) hle', h.acked, fun c hc => ?_, hserves s hs hr hnow⟩
      simp only [houts, List.filterMap_append, List.mem_append]
      exact Or.inr (h.heard c hc)

theorem netStep_served (req : SipMsg) (t start late delay : Nat) (hp : Proper req)
    (hshort : 11 * late + delay < 500) (hstart : start ≤ t + late) (n : Net) (e : NetEvent)
    (n' : Net) (h : Served req t start late delay n) (hfair : Fair req late n e)
    (hstep : netStep req delay n e = some n') : Served req t start late delay n' := by
  have hmono := past_mono t late delay n.client
  -- 64 T1 from now are longer than the last copy can be under way.
  have hlong : ∀ c, n.now ≤ c → Past t late delay n.client (c + 64 * sipT1) := by
    intro c hc
    have := h.start
    exact Or.inr (by unfold sipT1; omega)
  cases e with
  | client e =>
      simp only [netStep, Option.ite_none_left_eq_some] at hstep
      refine clientStep_served req t start late delay n n' e h hfair (fun c now acked he => ?_)
        hstep.2
      rw [he] at hstep
      exact absurd rfl hstep.1
  | response scode now acked =>
      simp only [netStep, Option.ite_none_right_eq_some] at hstep
      refine clientStep_served req t start late delay n n' (.response scode now acked) h trivial
        (fun c now' acked' he => ?_) hstep.2
      rw [CtEvent.response.injEq] at he
      rw [← he.1]
      exact hstep.1
  | request sentAt now sent tu =>
      simp only [netStep, Option.ite_none_right_eq_some] at hstep
      have hin := hstep.1.1
      -- The copy that comes in was sent, so the time for copies is not over.
      have hlast := h.onTime.sent sentAt hin
      refine serverStep_served req t start late delay n n' _ h hstep.2 (fun s' hs hr hsv => ?_)
      have hnow : n.now ≤ now := by
        simp only [stStep, Option.ite_none_right_eq_some] at hs
        exact Nat.le_trans (Nat.le_max_right _ _) hs.1.1
      refine recv_serves req _ hmono _ s' now sent tu hp hsv hr hfair
        (fun c hc => hlong c (Nat.le_trans hnow hc)) (fun hover => ?_) hs
      rcases hover with ⟨_, ha⟩ | hover
      · have := ha sentAt hin
        omega
      · omega
  | ack now sent tu =>
      simp only [netStep, Option.ite_none_right_eq_some] at hstep
      -- The client has stopped, so T4 is enough to wait for its copies.
      have hack := h.acked hstep.1
      refine serverStep_served req t start late delay n n' _ h hstep.2 (fun s' hs hr hsv => ?_)
      have hnow : n.now ≤ now := by
        simp only [stStep, Option.ite_none_right_eq_some] at hs
        exact Nat.le_trans (Nat.le_max_right _ _) hs.1.1
      refine ack_serves req _ hmono _ s' now sent tu hp hack.1 hsv hr ?_ hs
      refine Or.inl ⟨hack.2, fun a ha => ?_⟩
      have := h.sent a ha
      unfold sipT4
      omega
  | server e =>
      refine serverStep_served req t start late delay n n' _ h hstep (fun s' hs hr hsv => ?_)
      exact other_serves req _ hmono _ s' e hp hsv hr hfair
        (fun c hc => hlong c (Nat.le_trans (Nat.le_max_right _ _) hc)) hs

/-! ## The start -/

/-- The event is not a use of the branch of the request. -/
def Foreign (req : SipMsg) : StEvent → Prop
  | .recv msg _ _ _ => ¬ Matches req msg
  | _ => True

/-- A server that has not heard of the request. -/
theorem foreign_serves (req : SipMsg) (past : Nat → Prop) (t0 : Nat) (before : List StEvent)
    (server : StRun) (h : exec stStep (stInit t0) before = some server)
    (hforeign : ∀ e ∈ before, Foreign req e) : Serves req past server := by
  have hnone : ∀ s, Apart req (stInit t0) s → ∀ st ∈ s.sip.strans, ¬ Matches req st.msg :=
    fun s ha st hst hm => absurd ((ha.table st hm).mp hst) List.not_mem_nil
  -- Nothing before is about the request, event after event.
  have hboth : Repeated server ∧ Apart req (stInit t0) server := by
    refine exec_invariant_along stStep (fun _ e => Foreign req e)
      (fun s => Repeated s ∧ Apart req (stInit t0) s) (fun s e s' hs he hstep => ?_) before _ server
      ⟨stInit_repeated t0, apart_refl req _⟩ (along_of_forall stStep (Foreign req) before _ hforeign) h
    refine ⟨stStep_invariant Repeated (change_repeated _ _) s e s' hs.1 hstep,
      apart_trans req _ s s' hs.2 (stStep_apart req s s' e hs.1.kept hstep
        (fun msg now sent tu heq => ?_) ?_)⟩
    · rw [heq] at he
      exact he
    · cases e with
      | recv msg now sent tu =>
          refine ⟨fun st hst _ _ => hnone s hs.2 st hst, fun st hst _ _ => hnone s hs.2 st hst,
            fun st hst _ hm => ?_⟩
          rcases List.mem_append.mp hst with hst | hst
          · exact hnone s hs.2 st hst hm
          · rw [List.mem_singleton.mp hst] at hm
            exact he hm
      | _ => exact fun st hst _ => hnone s hs.2 st hst
  rcases hboth.2.outs with ⟨new, houts, hnew⟩
  have hself := matches_self req
  have hpass : About req (.pass req) := hself
  -- A stack that begins without history has said nothing about it.
  have hquiet : ∀ o ∈ server.outs, ¬ About req o := by
    intro o ho
    rw [houts] at ho
    exact (List.mem_append.mp ho).elim (hnew o) (fun hc => absurd hc List.not_mem_nil)
  refine ⟨hboth.1, fun st hst hm => absurd hm (hnone server hboth.2 st hst),
    fun o ho hab => absurd hab (hquiet o ho), ?_, fun _ => ⟨fun st hst hmsg => ?_,
    fun id mb hc => hquiet _ hc hself⟩, ⟨0, fun st hst hmsg => ?_,
    fun i mb hc => absurd hself (hquiet _ hc)⟩, fun hc => absurd hpass (hquiet _ hc)⟩
  · rw [List.count_eq_zero.mpr (fun hc => hquiet _ hc hpass)]
    omega
  · exact hnone server hboth.2 st hst (by rw [hmsg]; exact hself)
  · exact absurd (by rw [hmsg]; exact hself) (hnone server hboth.2 st hst)

theorem netInit_served (req : SipMsg) (t c1 c2 late delay : Nat) (server : StRun) (hc : c1 ≤ c2)
    (ht : t ≤ c1) (h : Serves req (Past t late delay
      (ctInit (decide (req.met = "INVITE")) false t c1 c2)) server) :
    Served req t c2 late delay (netInit req t c1 c2 server) := by
  refine ⟨ctInit_repeats _ false t c1 c2 hc, ctInit_onTime _ false t c1 c2 late (by omega),
    Nat.le_refl t, fun a ha => ?_, fun hack => ?_, fun c hc' => ?_, h⟩
  · rw [List.mem_singleton.mp ha]
    exact Nat.le_refl t
  · exact absurd (List.mem_singleton.mp hack) (by simp only [reduceCtorEq, not_false_eq_true])
  · exact absurd (List.mem_singleton.mp hc') (by simp only [reduceCtorEq, not_false_eq_true])

/-- The final replies of one transaction are the same. -/
theorem final_unique (outs : List StOut) (h : outs.Pairwise Follows) (id : Nat) (msg msg' : SipMsg)
    (r r' : Reply) (hin : .send id msg (some r) ∈ outs) (hin' : .send id msg' (some r') ∈ outs)
    (hr : 200 ≤ r.scode) (hr' : 200 ≤ r'.scode) : r' = r := by
  induction h with
  | nil => exact absurd hin List.not_mem_nil
  | cons hall _ ih =>
      rcases List.mem_cons.mp hin with heq | hin
      -- The one at the front is the later of the two, and follows the other.
      · rcases List.mem_cons.mp hin' with heq' | hin'
        · rw [← heq] at heq'
          simp only [StOut.send.injEq, Option.some.injEq] at heq'
          exact heq'.2.2
        · have := (hall _ hin' id msg' r' rfl hr').1 msg (some r) heq.symm
          exact (Option.some.inj this).symm
      · rcases List.mem_cons.mp hin' with heq' | hin'
        · have := (hall _ hin id msg r rfl hr).1 msg' (some r') heq'.symm
          exact Option.some.inj this
        · exact ih hin hin'

/-- A request is passed on at most once, whatever the network does with its
    copies. A final response that the client transaction reports is the one
    final reply that was given to it, or a 482 because the request had come by
    another way. -/
theorem request_served_once (req : SipMsg) (hp : Proper req) (late delay : Nat)
    (hshort : 11 * late + delay < 500) (t0 : Nat) (before : List StEvent) (server : StRun)
    (hbefore : exec stStep (stInit t0) before = some server)
    (hforeign : ∀ e ∈ before, Foreign req e) (t c1 c2 : Nat) (h1 : t ≤ c1) (h2 : c1 ≤ c2)
    (hstart : c2 ≤ t + late) (es : List NetEvent) (n : Net)
    (hfair : Along (netStep req delay) (Fair req late) (netInit req t c1 c2 server) es)
    (h : exec (netStep req delay) (netInit req t c1 c2 server) es = some n) :
    n.server.outs.count (.pass req) ≤ 1 ∧
      ∀ scode, 200 ≤ scode → .response scode ∈ n.client.reports →
        (∃ id r, .send id req (some r) ∈ n.server.outs ∧ r.scode = scode ∧
          ∀ id' r', .send id' req (some r') ∈ n.server.outs → 200 ≤ r'.scode →
            id' = id ∧ r' = r) ∨
        (.stateless req 482 ∈ n.server.outs ∧ scode = 482) := by
  have hs : Served req t c2 late delay n := exec_invariant_along (netStep req delay) (Fair req late)
    (Served req t c2 late delay)
    (fun m e m' hm he hstep => netStep_served req t c2 late delay hp hshort hstart m e m' hm he hstep)
    es _ n (netInit_served req t c1 c2 late delay server h2 h1
      (foreign_serves req _ t0 before server hbefore hforeign)) hfair h
  refine ⟨hs.serves.once, fun scode hfinal hrep => ?_⟩
  have hin := List.mem_reverse.mp (List.mem_of_mem_filter hrep)
  rcases List.mem_filterMap.mp (hs.heard scode hin) with ⟨o, ho, hans⟩
  have hself := matches_self req
  -- What answers the request is about it, and so is one of ours.
  have hab : About req o := by
    unfold answer at hans
    split at hans
    · exact (Option.ite_none_right_eq_some.mp hans).1
    · exact (Option.ite_none_right_eq_some.mp hans).1
    · exact absurd hans (by simp only [reduceCtorEq, not_false_eq_true])
  rcases hs.serves.about o ho hab with heq | ⟨id, mb, heq⟩ | heq
  · rw [heq] at hans
    exact absurd hans (by simp only [answer, reduceCtorEq, not_false_eq_true])
  · rw [heq] at hans ho
    cases mb with
    | none => exact absurd hans (by simp only [answer, reduceCtorEq, not_false_eq_true])
    | some r =>
        simp only [answer, if_pos hself, Option.some.injEq] at hans
        refine Or.inl ⟨id, r, ho, hans, fun id' r' hin' hfinal' => ?_⟩
        rcases hs.serves.single with ⟨id0, _, hsent⟩
        -- There is one transaction for it, which has one final reply.
        have hid : id' = id := (hsent id' _ hin').trans (hsent id _ ho).symm
        rw [hid] at hin'
        exact ⟨hid, final_unique n.server.outs hs.serves.repeated.kept.follows id req req r r' ho
          hin' (by omega) hfinal'⟩
  · rw [heq] at hans ho
    simp only [answer, if_pos hself, Option.some.injEq] at hans
    exact Or.inr ⟨ho, hans.symm⟩

/-- A call to a user who is busy. Its first copy comes twice and the ringing is
    lost. The second copy comes before and after the rejection, and so does the
    rejection. -/
def busyExchange : List NetEvent :=
  [.request 0 50 true .alloc, .request 0 60 true .alloc,
    .server (.reply 0 ⟨180, "Ringing"⟩ 70 70 0), .client (.retransmit 505 506 0),
    .request 506 550 true .alloc, .server (.reply 0 ⟨486, "Busy Here"⟩ 600 601 0),
    .request 506 606 true .alloc, .response 486 700 true, .response 486 702 true,
    .ack 750 true .ignore, .ack 751 true .ignore, .server (.expire 0 5750)]

theorem request_served_once_busy :
    ∃ n, exec (netStep busyInvite 100) (netInit busyInvite 0 0 1 (stInit 0)) busyExchange = some n ∧
      n.server.outs.count (.pass busyInvite) = 1 ∧ .response 486 ∈ n.client.reports ∧
      (n.server.outs.count (.pass busyInvite) ≤ 1 ∧
        ∀ scode, 200 ≤ scode → .response scode ∈ n.client.reports →
          (∃ id r, .send id busyInvite (some r) ∈ n.server.outs ∧ r.scode = scode ∧
            ∀ id' r', .send id' busyInvite (some r') ∈ n.server.outs → 200 ≤ r'.scode →
              id' = id ∧ r' = r) ∨
          (.stateless busyInvite 482 ∈ n.server.outs ∧ scode = 482)) :=
  ⟨_, rfl, by decide, by decide, request_served_once busyInvite
    ⟨rfl, by decide, by decide, rfl⟩ 10 100 (by decide) 0 [] (stInit 0) rfl
    (fun _ he => absurd he List.not_mem_nil) 0 0 1 (by decide) (by decide) (by decide) busyExchange
    _ (by decide) rfl⟩

end Exchange

end SipPerf
