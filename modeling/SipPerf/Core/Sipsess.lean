import Mathlib.Logic.Basic

/-!
# One Outgoing Call

The session of an outgoing call as `libre/src/sipsess` keeps it, together with
the user agent of `src/useragent.cpp` that made the call, down to the
requests on the wire. `SipPerf.Core.UserAgent` takes sessions as things that
are created, established and closed; this is what happens in between.

A session is a reference-counted object whose destructor can put off its own
end. While a request or a reply is pending it takes a reference to wait for
it, and when an established session is destroyed it sends a BYE and takes a
reference until that is answered. `terminated` is how far it has come: not at
all, waiting, or past the point at which it sends its BYE.

The user agent has one flag and one pointer for all its calls. `ptr` is what
the pointer names: this session, some other one, or nothing. Other calls of
the same user agent change the flag and the pointer, and their handlers act on
whatever the pointer names, so they are among the events.

What the stack underneath may or may not do is given with the event:
`Outcome` says which of the calls a handler makes succeed. A request counts
as sent when `sip_drequestf` accepts it. A timer of the transaction layer that
expires is a response with an error.

A re-INVITE from the peer is not among the events. The offer handler of the
program leaves the description it should fill in uninitialised, and
`reinvite_handler` goes on to use it.

`byes` and `resends` are not in the program. They count the BYE requests sent
on the dialog, and those sent again to answer a challenge.

## Main definitions

* `Sess`, `Call`: The session, and the call with its user agent.
* `sipRequestLoops`: The loop detection on responses.
* `memDeref`, `destructor`, `termwait`, `terminate`, `sipsessBye`: The end of
  a session.
* `establishHandler`, `closeHandler`: The user agent's handlers.
* `inviteRespHandler`, `byeRespHandler`, `byeHandler`: What the session does
  with messages.
* `CallEvent`, `callStep`: The events of a call, in any order.
-/

namespace SipPerf

namespace Sipsess

/-- What a pending request is. -/
inductive Req where
  | invite
  | bye
deriving DecidableEq

/-- `sip_loopstate`. -/
structure LoopState where
  failc : Nat
  lastScode : Nat
deriving DecidableEq

/-- `rtag` is whether the dialog has the peer's tag, which is when messages
    in the dialog are recognised. The two lists are given by their lengths. -/
structure Sess where
  nrefs : Nat
  req : Option Req
  replyl : Nat
  requestl : Nat
  ls : LoopState
  rtag : Bool
  established : Bool
  peerterm : Bool
  terminated : Nat
  byes : Nat
  resends : Nat
deriving DecidableEq

/-! ## Responses that loop -/

def sipLoopstateReset : LoopState := { failc := 0, lastScode := 0 }

/-- `sip_request_loops`. -/
def sipRequestLoops (ls : LoopState) (scode : Nat) : LoopState × Bool :=
  if scode < 200 then (ls, false)
  else if scode < 300 then ({ failc := 0, lastScode := scode }, false)
  else
    let failc := ls.failc + 1
    let again := 400 ≤ scode ∧ scode ≠ 401 ∧ scode ≠ 407 ∧ scode ≠ 491 ∧ ls.lastScode = scode
    ({ failc := failc, lastScode := scode }, decide (16 ≤ failc ∨ again))

/-! ## The end of a session -/

def memRef (s : Sess) : Sess := { s with nrefs := s.nrefs + 1 }

/-- Take a reference to wait for something, if there is something. -/
def waitIf (pending : Bool) (r : Sess × Bool) : Sess × Bool :=
  if pending then (memRef r.1, true) else r

/-- `termwait`, which says whether there is something to wait for. The handlers
    are replaced by internal ones, and a pending request is cancelled. The
    session of an outgoing call has no server transaction to reply to. -/
def termwait (s : Sess) : Sess × Bool :=
  waitIf (decide (0 < s.requestl))
    (waitIf (decide (0 < s.replyl)) (waitIf s.req.isSome ({ s with terminated := 1 }, false)))

/-- `sipsess_bye`, which says whether it succeeded. `sent` is whether
    `sip_drequestf` accepts the request. It is called with `resetLs` for the
    BYE of the session, and without for its repetition. -/
def sipsessBye (s : Sess) (resetLs sent : Bool) : Sess × Bool :=
  if s.req.isSome then (s, false)
  else
    let s := if resetLs then { s with ls := sipLoopstateReset } else s
    if sent then
      ({ s with
        req := some .bye, byes := if resetLs then s.byes + 1 else s.byes,
        resends := if resetLs then s.resends else s.resends + 1 }, true)
    else (s, false)

/-- `terminate`, which says whether a BYE is pending. -/
def terminate (s : Sess) (sent : Bool) : Sess × Bool :=
  let s := { s with terminated := 2 }
  -- There is nothing to hang up, or the peer has.
  if !s.established || s.peerterm then (s, false)
  else
    let r := sipsessBye s true sent
    if r.2 then (memRef r.1, true) else (r.1, false)

/-- What is left when the destructor has come to its end. -/
def release (s : Sess) : Sess := { s with req := none, replyl := 0, requestl := 0 }

/-- The destructor from `case 1` on. -/
def destructorCase1 (s : Sess) (sent : Bool) : Sess :=
  let r := terminate s sent
  if r.2 then r.1 else release r.1

def destructor (s : Sess) (sent : Bool) : Sess :=
  if s.terminated = 0 then
    let r := termwait s
    -- The destructor returns early with the reference that `termwait` took.
    if r.2 then r.1 else destructorCase1 r.1 sent
  else if s.terminated = 1 then destructorCase1 s sent
  else release s

/-- `mem_deref`. The object is freed if no reference is left after the
    destructor has run, so a session without references is one that is no
    more. -/
def memDeref (s : Sess) (sent : Bool) : Sess :=
  let s := { s with nrefs := s.nrefs - 1 }
  if 0 < s.nrefs then s else destructor s sent

/-! ## The user agent -/

/-- What the session pointer of the user agent names. -/
inductive SessPtr where
  | this
  | other
deriving DecidableEq

structure Call where
  sess : Sess
  caller : Bool
  ptr : Option SessPtr
deriving DecidableEq

/-- The user agent releases the session its pointer names, and clears the
    pointer. -/
def derefSess (c : Call) (sent : Bool) : Call :=
  match c.ptr with
  | some .this => { c with sess := memDeref c.sess sent, ptr := none }
  | _ => { c with ptr := none }

/-- `establish_handler`. `bye` is whether the request it makes itself is
    accepted, and `sent` whether that of the destructor is. Without a session
    there is no dialog to make a request on. -/
def establishHandler (c : Call) (bye sent : Bool) : Call :=
  if c.caller then
    match c.ptr with
    | some .this =>
        derefSess { c with
          sess := { c.sess with byes := if bye then c.sess.byes + 1 else c.sess.byes } } sent
    | _ => derefSess c sent
  else c

def closeHandler (c : Call) (sent : Bool) : Call := derefSess c sent

/-! ## Messages -/

/-- `sipsess_terminate`. -/
def sipsessTerminate (c : Call) (sent : Bool) : Call :=
  if c.sess.terminated ≠ 0 then c
  else
    let r := termwait c.sess
    closeHandler { c with sess := if r.2 then r.1 else (terminate r.1 sent).1 } sent

/-- What a request comes to: a response with its status code, or an error. -/
structure Response where
  err : Bool
  scode : Nat
deriving DecidableEq

/-- Which of the calls a handler makes succeed: `sip_dialog_create`, the
    answer handler with `sipsess_ack`, `sip_dialog_update`,
    `sip_auth_authenticate`, the INVITE or BYE sent again, the BYE of
    `establish_handler` and the BYE of the session. -/
structure Outcome where
  created : Bool
  acked : Bool
  updated : Bool
  authenticated : Bool
  again : Bool
  bye : Bool
  sent : Bool
deriving DecidableEq

/-- The request has its final response, unless that is provisional. -/
def finished (s : Sess) (r : Response) : Sess :=
  if r.err = false ∧ r.scode < 200 then s else { s with req := none }

/-- The label `out` of `invite_resp_handler`. -/
def inviteOut (c : Call) (o : Outcome) : Call :=
  if c.sess.terminated = 0 then sipsessTerminate c o.sent
  else { c with sess := memDeref c.sess o.sent }

/-- `invite`, called again. -/
def inviteAgain (c : Call) (o : Outcome) : Call :=
  if o.again then { c with sess := { c.sess with req := some .invite } } else inviteOut c o

def inviteRespHandler (c : Call) (r : Response) (o : Outcome) : Call :=
  if r.err then inviteOut c o
  else
    let l := sipRequestLoops c.sess.ls r.scode
    let c := { c with sess := { c.sess with ls := l.1 } }
    if l.2 then inviteOut c o
    else if r.scode < 200 then c
    else if r.scode < 300 then
      if o.created then
        let c := { c with sess := { c.sess with rtag := true, established := true } }
        -- `terminated` is not zero if the application has let go of the session
        -- in the meantime.
        if !o.acked ∨ c.sess.terminated ≠ 0 then inviteOut c o
        else establishHandler c o.bye o.sent
      else inviteOut c o
    else if c.sess.terminated ≠ 0 then inviteOut c o
    else if r.scode < 400 then
      if o.updated then inviteAgain c o else inviteOut c o
    else if (r.scode = 401 ∨ r.scode = 407) ∧ o.authenticated then inviteAgain c o
    else inviteOut c o

def byeRespHandler (s : Sess) (r : Response) (o : Outcome) : Sess :=
  if r.err then memDeref s o.sent
  else
    let l := sipRequestLoops s.ls r.scode
    let s := { s with ls := l.1 }
    if l.2 then memDeref s o.sent
    else if r.scode < 200 then s
    else if 300 ≤ r.scode ∧ s.peerterm = false ∧ (r.scode = 401 ∨ r.scode = 407) ∧
        o.authenticated then
      let b := sipsessBye s false o.again
      if b.2 then b.1 else memDeref b.1 o.sent
    else memDeref s o.sent

/-- `bye_handler`. `valid` is whether the sequence number of the request is
    in order. -/
def byeHandler (c : Call) (valid sent : Bool) : Call :=
  if c.sess.rtag = false ∨ c.sess.nrefs = 0 ∨ valid = false then c
  else
    let c := { c with sess := { c.sess with peerterm := true } }
    if c.sess.terminated ≠ 0 then c else sipsessTerminate c sent

/-- What can happen: the INVITE or the BYE of the session gets a response, the
    BYE of `establish_handler` does, a BYE comes from the peer, the user agent
    takes an incoming call or makes another one, and one of its other sessions
    is established or closed. -/
inductive CallEvent where
  | inviteResp (r : Response) (o : Outcome)
  | byeResp (r : Response) (o : Outcome)
  | inDialogResp (r : Response)
  | peerBye (valid sent : Bool)
  | connect (accepted : Bool)
  | call (connected : Bool)
  | otherEstablished (bye sent : Bool)
  | otherClosed (sent : Bool)

def callStep (c : Call) : CallEvent → Option Call
  | .inviteResp r o =>
      if 0 < c.sess.nrefs ∧ c.sess.req = some .invite then
        some (inviteRespHandler { c with sess := finished c.sess r } r o)
      else none
  | .byeResp r o =>
      if 0 < c.sess.nrefs ∧ c.sess.req = some .bye then
        some { c with sess := byeRespHandler (finished c.sess r) r o }
      else none
  -- `in_dialog_response_handler` does nothing.
  | .inDialogResp _ => some c
  | .peerBye valid sent => some (byeHandler c valid sent)
  | .connect accepted =>
      some { c with caller := false, ptr := if accepted then some .other else c.ptr }
  | .call connected =>
      some { c with caller := true, ptr := if connected then some .other else c.ptr }
  | .otherEstablished bye sent => some (establishHandler c bye sent)
  | .otherClosed sent => some (closeHandler c sent)

/-- The session as `sipsess_connect` returns it: the INVITE is pending. -/
def connected : Sess :=
  { nrefs := 1, req := some .invite, replyl := 0, requestl := 0, ls := sipLoopstateReset,
    rtag := false, established := false, peerterm := false, terminated := 0, byes := 0,
    resends := 0 }

/-- The user agent has made the call. -/
def callInit : Call := { sess := connected, caller := true, ptr := some .this }

end Sipsess

end SipPerf
