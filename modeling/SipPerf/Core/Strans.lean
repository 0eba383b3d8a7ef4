import SipPerf.Core.Ctrans

/-!
# Server Transactions

The server transactions of `libre/src/sip/strans.c`. A transaction stands for
a request that has come in. It answers the copies of the request that still
come, repeats the rejection of an INVITE until that is acknowledged, and finds
the request that a CANCEL is about. What no transaction answers for is passed
on, and whoever it is passed to may make a transaction of it and reply through
that.

The two hash tables of the stack hold the same transactions. A search goes
through one list of one table, and passes over what does not have the searched
branch or call. What it finds is the first of all transactions, in the order
they were made, that passes the test.

A string that is not set is empty, and two strings are compared as they are.

## Main definitions

* `SipMsg`, `Reply`: A request and a reply.
* `SipStrans`: A transaction.
* `Sip`: The transactions of a stack.
* `requestHandler`, `ackHandler`, `cancelHandler`: Requests.
* `sipStransAlloc`, `sipStransReply`: The operations of the user.
* `StRun`, `stStep`: A stack with its history, and the events in any order.
-/

namespace SipPerf

namespace Strans

open MachineInt Ctrans

/-- The parts of a request that decide what becomes of it. -/
structure SipMsg where
  met : String
  branch : String
  sentby : String
  cseqMet : String
  cseqNum : Nat
  callid : String
  fromTag : String
  toTag : String
  ruri : String
  reliable : Bool
deriving DecidableEq

structure Reply where
  scode : Nat
  text : String
deriving DecidableEq

inductive StState where
  | trying
  | proceeding
  | accepted
  | completed
  | confirmed
deriving DecidableEq

/-- `id` tells transactions apart as their addresses do. `mb` is the latest
    reply. -/
structure SipStrans where
  id : Nat
  msg : SipMsg
  invite : Bool
  state : StState
  txc : Nat
  mb : Option Reply
  tmr : Option Nat
  tmrg : Option Nat
deriving DecidableEq

/-- What the transactions do: one sends its reply to where the request came
    from, or calls the handler for a CANCEL, a request is answered without a
    transaction, or it is passed on. -/
inductive StOut where
  | send (id : Nat) (msg : SipMsg) (mb : Option Reply)
  | stateless (msg : SipMsg) (scode : Nat)
  | cancelh (id : Nat)
  | pass (msg : SipMsg)
deriving DecidableEq

/-- The transactions in the order they were made, and an identity that has not
    been used. -/
structure Sip where
  strans : List SipStrans
  next : Nat

/-- Store what has become of a transaction. -/
def Sip.put (s : Sip) (st : SipStrans) : Sip :=
  { s with strans := s.strans.map (fun x => if x.id = st.id then st else x) }

/-- The destructor unlinks the transaction. -/
def Sip.drop (s : Sip) (id : Nat) : Sip := { s with strans := s.strans.filter (fun x => x.id ≠ id) }

/-! ## Comparisons -/

def stransCmp (msg1 msg2 : SipMsg) : Bool :=
  if msg1.branch ≠ msg2.branch then false
  else if msg1.sentby ≠ msg2.sentby then false
  else true

def cmpHandler (msg : SipMsg) (st : SipStrans) : Bool :=
  if stransCmp st.msg msg = false then false
  else if st.msg.cseqMet ≠ msg.cseqMet then false
  else true

def cmpAckHandler (msg : SipMsg) (st : SipStrans) : Bool :=
  if stransCmp st.msg msg = false then false
  else if st.msg.cseqMet ≠ "INVITE" then false
  else true

/-- Anything but a CANCEL can be cancelled. -/
def cmpCancelHandler (msg : SipMsg) (st : SipStrans) : Bool :=
  if stransCmp st.msg msg = false then false
  else if st.msg.cseqMet = "CANCEL" then false
  else true

/-- The same request by another way. -/
def cmpMergeHandler (msg : SipMsg) (st : SipStrans) : Bool :=
  if st.msg.cseqMet ≠ msg.cseqMet then false
  else if st.msg.cseqNum ≠ msg.cseqNum then false
  else if st.msg.callid ≠ msg.callid then false
  else if st.msg.fromTag ≠ msg.fromTag then false
  else if st.msg.ruri ≠ msg.ruri then false
  else true

/-! ## Requests -/

/-- What is sent, if the stack takes it. -/
def sends (sent : Bool) (o : StOut) : List StOut := if sent then [o] else []

/-- `ack_handler`, and whether it has handled the request. The ACK for a
    success is passed on. -/
def ackHandler (s : Sip) (msg : SipMsg) (now : Nat) : Sip × Bool :=
  match s.strans.find? (cmpAckHandler msg) with
  | none => (s, false)
  | some st => match st.state with
    | .accepted => (s, false)
    | .completed =>
        if st.msg.reliable then (s.drop st.id, true)
        else
          (s.put { st with tmr := some (now + sipT4), tmrg := none, state := .confirmed }, true)
    -- Not rejected yet, or acknowledged already: the ACK changes nothing.
    | _ => (s, true)

/-- `cancel_handler`, which leaves the transactions as they are. -/
def cancelHandler (s : Sip) (msg : SipMsg) (sent : Bool) : List StOut × Bool :=
  match s.strans.find? (cmpCancelHandler msg) with
  | none => ([], false)
  | some st =>
      let ok := sends sent (.stateless msg 200)
      match st.state with
      | .trying => (ok ++ [.cancelh st.id], true)
      | .proceeding => (ok ++ [.cancelh st.id], true)
      -- The CANCEL comes too late, and is still answered.
      | _ => (ok, true)

/-- The end of `request_handler`. -/
def cancelRequest (s : Sip) (msg : SipMsg) (sent : Bool) : List StOut × Bool :=
  if msg.met = "CANCEL" then cancelHandler s msg sent else ([], false)

/-- `request_handler`. `sent` is whether the stack takes what is sent. -/
def requestHandler (s : Sip) (msg : SipMsg) (now : Nat) (sent : Bool) : Sip × List StOut × Bool :=
  if msg.met = "ACK" then
    let r := ackHandler s msg now
    (r.1, [], r.2)
  else match s.strans.find? (cmpHandler msg) with
    | some st => match st.state with
      -- A copy of the request is answered with the latest reply.
      | .proceeding => (s, sends sent (.send st.id st.msg st.mb), true)
      | .completed => (s, sends sent (.send st.id st.msg st.mb), true)
      | _ => (s, [], true)
    | none =>
        -- Outside a dialog it may have come in by another way already.
        if msg.toTag = "" then
          match s.strans.find? (cmpMergeHandler msg) with
          | some _ => (s, sends sent (.stateless msg 482), true)
          | none => (s, cancelRequest s msg sent)
        else (s, cancelRequest s msg sent)

/-! ## Operations -/

def sipStransAlloc (s : Sip) (msg : SipMsg) : Sip :=
  { strans := s.strans ++ [{ id := s.next, msg := msg, invite := decide (msg.met = "INVITE"),
                             state := .trying, txc := 0, mb := none, tmr := none, tmrg := none }],
    next := s.next + 1 }

/-- `sip_strans_reply` once the reply has been sent. The two timers are
    started one after the other. -/
def afterReply (st : SipStrans) (scode c1 c2 : Nat) : Option SipStrans :=
  if st.invite then
    if scode < 200 then some { st with state := .proceeding }
    -- The user repeats a success, so `tmrg` is not started.
    else if scode < 300 then some { st with tmr := some (c1 + 64 * sipT1), state := .accepted }
    else
      some { st with
        tmr := some (c1 + 64 * sipT1), state := .completed,
        tmrg := if st.msg.reliable then st.tmrg else some (c2 + sipT1) }
  else if scode < 200 then some { st with state := .proceeding }
  -- No copies are to come, and nothing is left to answer.
  else if st.msg.reliable then none
  else some { st with tmr := some (c1 + 64 * sipT1), state := .completed }

/-- `sip_strans_reply` for a transaction, with the error of `sip_send`. -/
def sipStransReply (s : Sip) (id : Nat) (r : Reply) (c1 c2 err : Nat) : Sip × List StOut :=
  match s.strans.find? (fun x => x.id = id) with
  | none => (s, [])
  | some st =>
      if err = 0 then
        match afterReply { st with mb := some r } r.scode c1 c2 with
        | none => (s.drop id, [.send id st.msg (some r)])
        | some st' => (s.put st', [.send id st.msg (some r)])
      -- A reply that does not go out takes its transaction with it.
      else (s.drop id, [])

/-- `retransmit_handler`. The error of `sip_send` does not matter to it. -/
def retransmitHandler (st : SipStrans) (now : Nat) : SipStrans :=
  { st with
    txc := u32 (st.txc + 1),
    tmrg := some (now + min (sipT1 <<< u32 (st.txc + 1)) sipT2) }

/-! ## Runs -/

/-- What the user does at once with a request that is passed on: nothing, or it
    replies without a transaction, makes one, or makes one and replies. -/
inductive TuAction where
  | ignore
  | reply (scode : Nat)
  | alloc
  | treply (r : Reply) (c1 c2 err : Nat)

/-- What can happen: a request comes in, the user replies or lets go of a
    transaction it holds, one of the timers of a transaction is served. -/
inductive StEvent where
  | recv (msg : SipMsg) (now : Nat) (sent : Bool) (tu : TuAction)
  | reply (id : Nat) (r : Reply) (c1 c2 err : Nat)
  | release (id now : Nat)
  | expire (id j : Nat)
  | resend (id j now : Nat) (sent : Bool)

/-- The transactions with the latest clock reading, those the user holds a
    pointer to, what has been done so far, latest first, and for which
    transactions the timer has repeated the reply. -/
structure StRun where
  sip : Sip
  now : Nat
  held : List Nat
  outs : List StOut
  resent : List Nat

/-- The user has the pointer of the transaction it replied to no more after an
    error or a final reply. -/
def heldAfter (held : List Nat) (id : Nat) (r : Reply) (err : Nat) : List Nat :=
  if err = 0 ∧ r.scode < 200 then held else held.erase id

/-- The user gets a request. It does not reply to an ACK, and a reply without
    a pointer to keep the transaction at is a final one. -/
def tuStep (s : StRun) (msg : SipMsg) (sent : Bool) : TuAction → StRun
  | .ignore => s
  | .reply scode =>
      if msg.met = "ACK" then s
      else { s with outs := sends sent (.stateless msg scode) ++ s.outs }
  | .alloc => { s with sip := sipStransAlloc s.sip msg, held := s.sip.next :: s.held }
  | .treply r c1 c2 err =>
      if msg.met = "ACK" ∨ r.scode < 200 then s
      else
        let res := sipStransReply (sipStransAlloc s.sip msg) s.sip.next r c1 c2 err
        { s with sip := res.1, now := c2, outs := res.2 ++ s.outs }

/-- The readings of the clock by the user, in order. -/
def TuAction.clock (now : Nat) : TuAction → Prop
  | .treply _ c1 c2 _ => now ≤ c1 ∧ c1 ≤ c2
  | _ => True

instance decidableClock (now : Nat) : (tu : TuAction) → Decidable (tu.clock now)
  | .ignore => isTrue trivial
  | .reply _ => isTrue trivial
  | .alloc => isTrue trivial
  | .treply _ c1 c2 _ => inferInstanceAs (Decidable (now ≤ c1 ∧ c1 ≤ c2))

/-- A request comes in. What is not handled is passed on. -/
def recvStep (s : StRun) (msg : SipMsg) (now : Nat) (sent : Bool) (tu : TuAction) : StRun :=
  let r := requestHandler s.sip msg now sent
  let s' := { s with sip := r.1, now := now, outs := r.2.1.reverse ++ s.outs }
  if r.2.2 then s' else tuStep { s' with outs := .pass msg :: s'.outs } msg sent tu

/-- One event. The clock does not go back. The user replies through a pointer
    it holds. A poll serves a timer that is due, and of two the earlier one. -/
def stStep (s : StRun) (e : StEvent) : Option StRun :=
  match e with
  | .recv msg now sent tu =>
      if s.now ≤ now ∧ tu.clock now then some (recvStep s msg now sent tu) else none
  | .reply id r c1 c2 err =>
      if s.now ≤ c1 ∧ c1 ≤ c2 ∧ id ∈ s.held then
        let res := sipStransReply s.sip id r c1 c2 err
        some { s with
          sip := res.1, now := c2, held := heldAfter s.held id r err, outs := res.2 ++ s.outs }
      else none
  | .release id now =>
      if s.now ≤ now ∧ id ∈ s.held then
        some { s with sip := s.sip.drop id, now := now, held := s.held.erase id }
      else none
  | .expire id j => match s.sip.strans.find? (fun x => x.id = id) with
    | none => none
    | some st => match st.tmr with
      | none => none
      | some d =>
          if s.now ≤ j ∧ d ≤ j ∧ NotAfter d st.tmrg then
            some { s with sip := s.sip.drop id, now := j }
          else none
  | .resend id j now sent => match s.sip.strans.find? (fun x => x.id = id) with
    | none => none
    | some st => match st.tmrg with
      | none => none
      | some d =>
          if s.now ≤ j ∧ d ≤ j ∧ j ≤ now ∧ NotAfter d st.tmr then
            some { s with
              sip := s.sip.put (retransmitHandler st now), now := now,
              outs := sends sent (.send id st.msg st.mb) ++ s.outs, resent := id :: s.resent }
          else none

/-- A stack without transactions. -/
def stInit (now : Nat) : StRun :=
  { sip := { strans := [], next := 0 }, now := now, held := [], outs := [], resent := [] }

end Strans

end SipPerf
