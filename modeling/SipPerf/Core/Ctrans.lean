import Mathlib.Data.List.Basic
import SipPerf.Lib.MachineInt

/-!
# Client Transactions

The client transactions of `libre/src/sip/ctrans.c`. A transaction sends a
request, repeats it for as long as that is called for, and reports what
becomes of it: responses as they come, or one error.

A transaction has two timers, `tmr` for its end and `tmre` for the next
repetition, given here by their deadlines. A poll that read the clock as `j`
serves a timer that is due by then, and of the two the one with the earlier
deadline. The reading that `tmr_start` adds its delay to is a later one. Over a
reliable transport nothing is repeated.

A transaction owns itself. It is gone once `mem_deref` is called on it, and
the functions here return nothing for it then. Besides that they return what
the transaction has sent and reported, in order. Whether the stack accepts
what is sent is given with the event.

## Main definitions

* `SipCtrans`: A transaction.
* `CtOut`: What it sends and reports.
* `sipCtransRequest`: The start of a transaction.
* `retransmitHandler`, `tmrHandler`, `transportHandler`: Timers and transport.
* `responseHandler`: Responses.
* `sipCtransCancel`: The CANCEL of an INVITE.
* `CtRun`, `ctStep`: A transaction with its history, and the events in any
  order.
-/

namespace SipPerf

namespace Ctrans

open MachineInt

def sipT1 : Nat := 500

def sipT2 : Nat := 4000

def sipT4 : Nat := 5000

def completeWait : Nat := 32000

def etimedout : Nat := 110

def eproto : Nat := 71

inductive CtState where
  | trying
  | calling
  | proceeding
  | completed
deriving DecidableEq

/-- `reliable` is what `sip_transp_reliable` says of the transport. -/
structure SipCtrans where
  invite : Bool
  reliable : Bool
  state : CtState
  txc : Nat
  tmr : Option Nat
  tmre : Option Nat
deriving DecidableEq

/-- What a transaction does: it sends its request, the ACK for a response or a
    CANCEL, and it calls the response handler with a response or with an
    error. -/
inductive CtOut where
  | request
  | ack
  | cancel
  | response (scode : Nat)
  | failure (err : Nat)
deriving DecidableEq

/-- `sip_ctrans_request`, with the error of `sip_transp_send`. The two timers
    are started one after the other. -/
def sipCtransRequest (invite reliable : Bool) (c1 c2 err : Nat) : Option SipCtrans × List CtOut :=
  if err = 0 then
    (some { invite := invite, reliable := reliable,
            state := if invite then .calling else .trying, txc := 0,
            tmr := some (c1 + 64 * sipT1),
            tmre := if reliable then none else some (c2 + sipT1) }, [.request])
  -- A request that does not go out takes its transaction with it.
  else (none, [])

/-- `terminate`. A transaction that has completed has made its report. -/
def terminate (ct : SipCtrans) (err : Nat) : List CtOut :=
  match ct.state with
  | .trying => [.failure err]
  | .calling => [.failure err]
  | .proceeding => [.failure err]
  | .completed => []

def transportHandler (ct : SipCtrans) (err : Nat) : Option SipCtrans × List CtOut :=
  (none, terminate ct err)

def tmrHandler (ct : SipCtrans) : Option SipCtrans × List CtOut := (none, terminate ct etimedout)

/-- The time to the next repetition. The shift is that of an `int`, and the
    result a `uint32_t`. -/
def retransmitTimeout (ct : SipCtrans) : Option Nat :=
  match ct.state with
  | .trying => some (u32 (min (sipT1 <<< ct.txc) sipT2))
  | .calling => some (u32 (sipT1 <<< ct.txc))
  | .proceeding => some sipT2
  | .completed => none

/-- `retransmit_handler`. The timer is not running when it is called. -/
def retransmitHandler (ct : SipCtrans) (now err : Nat) : Option SipCtrans × List CtOut :=
  -- The count steps first: the timeout is that of the next repetition.
  let ct := { ct with txc := u32 (ct.txc + 1), tmre := none }
  match retransmitTimeout ct with
  -- Nothing is repeated any more, and `tmre` is not started again.
  | none => (some ct, [])
  | some timeout =>
      let ct := { ct with tmre := some (now + timeout) }
      if err = 0 then (some ct, [.request]) else (none, terminate ct err)

/-- The ACK, if it goes out. -/
def sendAck (acked : Bool) : List CtOut := if acked then [.ack] else []

/-- `invite_response`, from `case PROCEEDING` on. -/
def inviteProceeding (ct : SipCtrans) (scode now : Nat) (acked : Bool) :
    Option SipCtrans × List CtOut :=
  if scode < 200 then (some { ct with state := .proceeding }, [.response scode])
  else if scode < 300 then (none, [.response scode])
  -- Nothing to acknowledge again: the transport does not repeat it.
  else if ct.reliable then (none, sendAck acked ++ [.response scode])
  else
    (some { ct with state := .completed, tmr := some (now + completeWait) },
      sendAck acked ++ [.response scode])

/-- `invite_response`. `acked` is whether the ACK goes out if there is one. -/
def inviteResponse (ct : SipCtrans) (scode now : Nat) (acked : Bool) :
    Option SipCtrans × List CtOut :=
  match ct.state with
  | .calling => inviteProceeding { ct with tmr := none, tmre := none } scode now acked
  | .proceeding => inviteProceeding ct scode now acked
  -- The same rejection again: acknowledged, but not reported.
  | .completed => if scode < 300 then (some ct, []) else (some ct, sendAck acked)
  | .trying => (some ct, [])

/-- `response_handler`, for the transaction the response belongs to. -/
def responseHandler (ct : SipCtrans) (scode now : Nat) (acked : Bool) :
    Option SipCtrans × List CtOut :=
  if ct.invite then inviteResponse ct scode now acked
  else if ct.state = .trying ∨ ct.state = .proceeding then
    if scode < 200 then (some { ct with state := .proceeding }, [.response scode])
    else if ct.reliable then (none, [.response scode])
    else
      (some { ct with state := .completed, tmr := some (now + sipT4), tmre := none },
        [.response scode])
  else (some ct, [])

/-- `sip_ctrans_cancel`, with the error it returns. The timer that was stopped
    when the call began to ring is started again. `err` is what the
    transaction of the CANCEL comes to. -/
def sipCtransCancel (ct : SipCtrans) (now err : Nat) : SipCtrans × List CtOut × Nat :=
  if ct.invite = false then (ct, [], 0)
  else if ct.state = .proceeding then
    ({ ct with tmr := some (now + 64 * sipT1) }, if err = 0 then [.cancel] else [], err)
  -- Too early before a provisional response, too late after a rejection.
  else (ct, [], eproto)

/-! ## Runs -/

/-- A transaction with the latest clock reading, what it has done so far,
    latest first, when it has sent its request, latest first, and whether its
    owner has let go of it. -/
structure CtRun where
  ct : Option SipCtrans
  now : Nat
  outs : List CtOut
  sentAt : List Nat
  released : Bool

/-- What can happen: a response, the end of `tmr` or `tmre` in a poll, an error
    of the transport, the owner asking for a CANCEL or letting go. -/
inductive CtEvent where
  | response (scode now : Nat) (acked : Bool)
  | expire (j : Nat)
  | retransmit (j now err : Nat)
  | transport (now err : Nat)
  | cancel (now err : Nat)
  | release (now : Nat)

/-- The deadline is not after that of the other timer. -/
def NotAfter (d : Nat) (other : Option Nat) : Prop := ∀ d' ∈ other, d ≤ d'

instance decidableNotAfter (d : Nat) (other : Option Nat) : Decidable (NotAfter d other) :=
  inferInstanceAs (Decidable (∀ d' ∈ other, d ≤ d'))

/-- What a function returned, at a clock reading. -/
def CtRun.after (s : CtRun) (now : Nat) (r : Option SipCtrans × List CtOut) : CtRun :=
  { s with
    ct := r.1, now := now, outs := r.2.reverse ++ s.outs,
    sentAt := if CtOut.request ∈ r.2 then now :: s.sentAt else s.sentAt }

/-- One event. The clock does not go back. A poll serves a timer that is due,
    and of two the earlier one. The transport reports errors only where it
    queues what is sent, which UDP does not. -/
def ctStep (s : CtRun) (e : CtEvent) : Option CtRun :=
  match s.ct with
  | none => none
  | some ct => match e with
    | .response scode now acked =>
        if s.now ≤ now then some (s.after now (responseHandler ct scode now acked)) else none
    | .expire j => match ct.tmr with
      | none => none
      | some d =>
          if s.now ≤ j ∧ d ≤ j ∧ NotAfter d ct.tmre then
            some (s.after j (tmrHandler { ct with tmr := none }))
          else none
    | .retransmit j now err => match ct.tmre with
      | none => none
      | some d =>
          if s.now ≤ j ∧ d ≤ j ∧ j ≤ now ∧ NotAfter d ct.tmr then
            some (s.after now (retransmitHandler ct now err))
          else none
    | .transport now err =>
        if s.now ≤ now ∧ ct.reliable ∧ err ≠ 0 then some (s.after now (transportHandler ct err))
        else none
    | .cancel now err =>
        if s.now ≤ now then
          let r := sipCtransCancel ct now err
          some (s.after now (some r.1, r.2.1))
        else none
    | .release now =>
        if s.now ≤ now then some { s with ct := none, now := now, released := true } else none

/-- A transaction that has just been started. -/
def ctInit (invite reliable : Bool) (t c1 c2 : Nat) : CtRun :=
  { ct := (sipCtransRequest invite reliable c1 c2 0).1, now := c2, outs := [.request],
    sentAt := [t], released := false }

end Ctrans

end SipPerf
