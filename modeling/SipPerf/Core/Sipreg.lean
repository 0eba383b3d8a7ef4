import SipPerf.Core.Sipsess
import SipPerf.Lib.MachineInt

/-!
# Registration Clients

The registration client of `libre/src/sipreg/reg.c`. It sends a REGISTER,
answers the responses that ask it to send another one, tells its owner what it
came to and starts a timer for the next attempt. When its owner lets go of it,
it lives on until it has taken the registration back.

A request is pending or not. What comes of it reaches the client as one final
result after any number of provisional responses. Whether the stack accepts a
request is given with the event that leads to it. The timer is given by its
deadline.

## Main definitions

* `Reg`: A registration client.
* `RegOut`: What it sends and reports.
* `failwait`: The time to the next attempt after a failure.
* `responseHandler`, `tmrHandler`, `keepaliveHandler`: The handlers.
* `destructor`: The owner lets go.
* `RegRun`, `regStep`: A client with its history, and the events in any order.
-/

namespace SipPerf

namespace Sipreg

open MachineInt Sipsess

def defaultExpires : Nat := 3600

def eauth : Nat := 217

/-- `sipreg`. `req` is whether a request is pending, and `ka` whether a
    keepalive is running. -/
structure Reg where
  ls : LoopState
  tmr : Option Nat
  ka : Bool
  req : Bool
  expires : Nat
  failc : Nat
  wait : Nat
  registered : Bool
  terminated : Bool
  regid : Int
deriving DecidableEq

/-- A REGISTER for so many seconds, or the response handler of the owner. -/
inductive RegOut where
  | register (expires : Nat)
  | report (err : Nat) (scode : Option Nat)
deriving DecidableEq

/-- A `Contact` header: whether it is the client's own, and its parameter. -/
structure Contact where
  own : Bool
  expires : Option Nat
deriving DecidableEq

/-- The parts of a response that the client reads. `autherr` is the result of
    `sip_auth_authenticate` for it, and `outbound` whether it makes
    `start_outbound` start a keepalive. -/
structure RegMsg where
  scode : Nat
  contacts : List Contact
  expires : Option Nat
  minExpires : Option Nat
  autherr : Nat
  outbound : Bool
deriving DecidableEq

/-- What a request comes to: a response, or an error, which may still have a
    response with it. -/
inductive RegResult where
  | message (msg : RegMsg)
  | failure (err : Nat) (scode : Option Nat)
deriving DecidableEq

/-- `rnd` is the random number. -/
def failwait (failc rnd : Nat) : Nat := min 1800 (30 * 1 <<< min failc 6) * (500 + rnd % 501)

/-- `request`, with the error of `sip_drequestf`. -/
def request (reg : Reg) (resetLs : Bool) (reqerr : Nat) : Reg × List RegOut :=
  -- Whoever has let go deregisters.
  let reg := if reg.terminated then { reg with expires := 0 } else reg
  let reg := if resetLs then { reg with ls := sipLoopstateReset } else reg
  if reqerr = 0 then ({ reg with req := true }, [.register reg.expires]) else (reg, [])

/-- `contact_handler` for one header after the other, until one is the
    client's own. -/
def contactWait (contacts : List Contact) (msgExpires : Option Nat) (wait : Nat) : Nat :=
  match contacts with
  | [] => wait
  | c :: rest =>
      if c.own then match c.expires with
        | some e => u32 e
        | none => match msgExpires with
          | some e => u32 e
          | none => defaultExpires
      else contactWait rest msgExpires wait

/-- `destructor`: the owner lets go, or the client itself. -/
def destructor (reg : Reg) (reqerr : Nat) : Option Reg × List RegOut :=
  let reg := { reg with tmr := none }
  if reg.terminated then (none, [])
  else
    let reg := { reg with terminated := true }
    -- The client outlives its owner until the request has its result.
    if reg.req then (some reg, [])
    -- What is registered is taken back first.
    else if reg.registered ∧ reqerr = 0 then
      let r := request reg true reqerr
      (some r.1, r.2)
    else (none, [])

/-- The end of `response_handler`, from `out` on. -/
def finish (reg : Reg) (err : Nat) (scode : Option Nat) (now reqerr : Nat) :
    Option Reg × List RegOut :=
  -- The request was to deregister, and its result is the end.
  if reg.expires = 0 then destructor reg reqerr
  else if reg.terminated then
    if reg.registered = false then (none, [])
    else if reqerr = 0 then
      let r := request reg true reqerr
      (some r.1, r.2)
    else (none, [])
  else (some { reg with tmr := some (now + reg.wait) }, [.report err scode])

/-- One more failure. -/
def failed (reg : Reg) : Reg := { reg with failc := u32 (reg.failc + 1) }

/-- The request is sent once more with what the response has asked for. -/
def again (reg : Reg) (scode now reqerr reqerr2 : Nat) : Option Reg × List RegOut :=
  let r := request reg false reqerr
  if reqerr = 0 then (some r.1, r.2) else finish (failed r.1) reqerr (some scode) now reqerr2

/-- `response_handler` for a response of 300 and above. -/
def rejected (reg : Reg) (msg : RegMsg) (now reqerr reqerr2 : Nat) :
    Option Reg × List RegOut :=
  -- Nothing was registered that would have to be taken back.
  if reg.terminated ∧ reg.registered = false then finish reg 0 (some msg.scode) now reqerr2
  else if msg.scode = 401 ∨ msg.scode = 407 then
    if msg.autherr ≠ 0 then
      finish (failed reg) (if msg.autherr = eauth then 0 else msg.autherr) (some msg.scode) now
        reqerr2
    else again reg msg.scode now reqerr reqerr2
  else if msg.scode = 423 then
    let minexp := u32 (msg.minExpires.getD 0)
    -- A longer time is asked for, but never by who deregisters.
    if minexp = 0 ∨ reg.expires = 0 then finish (failed reg) 0 (some msg.scode) now reqerr2
    else again { reg with expires := minexp } msg.scode now reqerr reqerr2
  else finish (failed reg) 0 (some msg.scode) now reqerr2

/-- `response_handler`, with the errors of the two requests it may come to
    make. The request is not pending any more when it has a final result. -/
def responseHandler (reg : Reg) (result : RegResult) (now rnd reqerr reqerr2 : Nat) :
    Option Reg × List RegOut :=
  let reg := { reg with wait := failwait (u32 (reg.failc + 1)) rnd }
  match result with
  | .failure err scode => finish (failed { reg with req := false }) err scode now reqerr2
  | .message msg =>
      let l := sipRequestLoops reg.ls msg.scode
      if msg.scode < 200 then (some reg, [])
      else
        let reg := { reg with ls := l.1, req := false }
        -- The loop detection has seen this response before.
        if l.2 then finish (failed reg) 0 (some msg.scode) now reqerr2
        else if msg.scode < 300 then
          let wait := u32 (contactWait msg.contacts msg.expires reg.expires * 900)
          let ka := reg.ka || (decide (0 < reg.regid) && !reg.terminated && msg.outbound)
          finish { reg with registered := true, wait := wait, failc := 0, ka := ka } 0
            (some msg.scode) now reqerr2
        else rejected reg msg now reqerr reqerr2

/-- `tmr_handler`. The timer is not running when it is called. -/
def tmrHandler (reg : Reg) (now rnd reqerr : Nat) : Reg × List RegOut :=
  let r := request { reg with tmr := none } true reqerr
  if reqerr = 0 then r
  else
    let reg := failed r.1
    ({ reg with tmr := some (now + failwait reg.failc rnd) }, [.report reqerr none])

/-- `keepalive_handler`. The keepalive is gone when it is called. -/
def keepaliveHandler (reg : Reg) (err now rnd : Nat) : Reg × List RegOut :=
  let reg := { reg with ka := false }
  -- The pending request will find out by itself.
  if reg.req ∨ reg.terminated then (reg, [])
  else
    let reg := failed reg
    ({ reg with tmr := some (now + failwait reg.failc rnd) }, [.report err none])

/-! ## Runs -/

/-- A client with the latest clock reading, what it has done, latest first,
    and whether its owner has let go of it. `since` is when the latest attempt
    came to an end, and `granted` for how many seconds that registered the
    client, if it did. -/
structure RegRun where
  reg : Option Reg
  now : Nat
  outs : List RegOut
  released : Bool
  since : Nat
  granted : Option Nat

/-- What can happen: the result of a request or a provisional response, the
    timer, the end of the keepalive, or the owner lets go. -/
inductive RegEvent where
  | response (result : RegResult) (now rnd reqerr reqerr2 : Nat)
  | timer (j now rnd reqerr : Nat)
  | keepalive (err now rnd : Nat)
  | release (now reqerr : Nat)

def RegOut.isRegister : RegOut → Bool
  | .register _ => true
  | .report _ _ => false

/-- The seconds that a result grants. -/
def grantOf (reg : Reg) : RegResult → Option Nat
  | .message msg =>
      if 200 ≤ msg.scode ∧ msg.scode < 300 then
        some (contactWait msg.contacts msg.expires reg.expires)
      else none
  | .failure _ _ => none

/-- The result is a provisional response. -/
def RegResult.isProvisional : RegResult → Bool
  | .message msg => decide (msg.scode < 200)
  | .failure _ _ => false

/-- What a handler has done at a time. An attempt ends with a report. -/
def RegRun.after (s : RegRun) (now : Nat) (grant : Option Nat) (r : Option Reg × List RegOut) :
    RegRun :=
  let ended := r.2.any (fun o => !o.isRegister)
  { s with
    reg := r.1, now := now, outs := r.2.reverse ++ s.outs,
    since := if ended then now else s.since, granted := if ended then grant else s.granted }

/-- One event. The clock does not go back, and results come for a pending
    request. -/
def regStep (s : RegRun) (e : RegEvent) : Option RegRun :=
  match s.reg with
  | none => none
  | some reg => match e with
    | .response result now rnd reqerr reqerr2 =>
        if s.now ≤ now ∧ reg.req then
          some (s.after now (grantOf reg result) (responseHandler reg result now rnd reqerr reqerr2))
        else none
    | .timer j now rnd reqerr => match reg.tmr with
      | none => none
      | some d =>
          if s.now ≤ j ∧ d ≤ j ∧ j ≤ now then
            let r := tmrHandler reg now rnd reqerr
            some (s.after now none (some r.1, r.2))
          else none
    | .keepalive err now rnd =>
        if s.now ≤ now ∧ reg.ka then
          let r := keepaliveHandler reg err now rnd
          some (s.after now none (some r.1, r.2))
        else none
    | .release now reqerr =>
        if s.now ≤ now ∧ s.released = false then
          some { s.after now none (destructor reg reqerr) with released := true }
        else none

/-- `sipreg_register` has sent the first request. -/
def regInit (now expires : Nat) (regid : Int) : RegRun :=
  { reg := some { ls := sipLoopstateReset, tmr := none, ka := false, req := true,
                  expires := expires, failc := 0, wait := 0, registered := false,
                  terminated := false, regid := regid },
    now := now, outs := [.register expires], released := false, since := now, granted := none }

end Sipreg

end SipPerf
