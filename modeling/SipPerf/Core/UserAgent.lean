import SipPerf.Core.CallScheduler

/-!
# User Agents

The user agents of `src/useragent.cpp` with everything their handlers touch:
the manager, the counters of `StatsDisplayer`, the sessions of the SIP
library and the call scheduler. A `World` is all of it.

A user agent has one session pointer and one flag that says whether it is the
caller. The handlers of a session are given the user agent and nothing else,
so what they act on is whatever session that pointer names at the time.

The SIP library creates a session when it is asked to connect or to accept,
unless it returns an error, in which case it leaves the pointer alone. It
reports that a session is established, or that it is closed, to the user
agent the session was created for. A session is live from its creation until
it is closed or its last reference is released. It is reported established at
most once and closed at most once, and neither when it is not live; and
nothing is reported from inside the call that creates it. `step` has a
result only for events of that kind. It has none either for an INVITE to a
name that is not registered, since `static_connect_handler` then goes through
a null pointer.

The errors of `sipsess_answer` and `sip_drequestf` are logged and change
nothing.

Two fields of `World` are not in the program. `calls` records the calls the
scheduler has made. `reservedFor` is the session of the latest of them that
took a user agent out of the pool, for the user agents taken as callees.

## Main definitions

* `UserAgent`, `Session`, `Stats`, `World`: The state.
* `call`, `connectHandler`, `establishHandler`, `closeHandler`,
  `registerHandler`: The methods of `UserAgent`.
* `schedulerPool`, `tick`: The pool the scheduler works on, and a tick of it.
* `SchedulerRun`, `actStep`: The scheduler as its timer drives it.
* `Event`, `step`: The events of the program, in any order.
-/

namespace SipPerf

namespace Agents

open MachineInt UAManager

abbrev SessId := Nat

structure UserAgent where
  sess : Option SessId
  caller : Bool

/-- A live session: the user agent it reports to, whether that made the call,
    and whether it has been reported established. -/
structure Session where
  id : SessId
  ua : UAId
  outgoing : Bool
  established : Bool
deriving DecidableEq

/-- The counters of `StatsDisplayer`, 32-bit values. -/
structure Stats where
  successReg : Nat
  initCall : Nat
  successCall : Nat
  failReg : Nat
  failedCall : Nat

/-- A call the scheduler made, with its session if it got one. -/
structure SchedCall where
  caller : UAId
  callee : UAId
  sess : Option SessId

structure World (name : UAId → String) where
  mgr : UAManager name
  ua : UAId → UserAgent
  live : List Session
  nextSess : SessId
  stats : Stats
  sched : CallScheduler
  reservedFor : UAId → Option SessId
  calls : List SchedCall

/-- The error a session is closed with when the peer hangs up. -/
def econnreset : Nat := 104

variable {name : UAId → String}

/-! ## User agents -/

def setSess (w : World name) (u : UAId) (sess : Option SessId) : World name :=
  { w with ua := Function.update w.ua u { w.ua u with sess := sess } }

def setCaller (w : World name) (u : UAId) (caller : Bool) : World name :=
  { w with ua := Function.update w.ua u { w.ua u with caller := caller } }

/-- The library creates a session for a user agent. -/
def newSession (w : World name) (u : UAId) (outgoing : Bool) : World name :=
  setSess { w with
    live := ⟨w.nextSess, u, outgoing, false⟩ :: w.live,
    nextSess := w.nextSess + 1 } u (some w.nextSess)

/-- The session is no longer live. -/
def endSession (w : World name) (i : SessId) : World name :=
  { w with live := w.live.filter (fun x => decide (x.id ≠ i)) }

/-- Release the session of a user agent and clear the pointer. -/
def derefSess (w : World name) (u : UAId) : World name :=
  match (w.ua u).sess with
  | none => w
  | some i => setSess (endSession w i) u none

/-- `register_handler`, with the status code of the response if there is
    one. -/
def registerHandler (w : World name) (u : UAId) (scode : Option Nat) : World name :=
  if scode = some 200 then
    { w with
      stats := { w.stats with successReg := u32 (w.stats.successReg + 1) },
      mgr := markUaRegistered w.mgr u }
  else { w with stats := { w.stats with failReg := u32 (w.stats.failReg + 1) } }

/-- `call`. `connected` is whether `sipsess_connect` succeeds. -/
def call (w : World name) (u : UAId) (connected : Bool) : World name :=
  let w := { w with stats := { w.stats with initCall := u32 (w.stats.initCall + 1) } }
  let w := setCaller w u true
  let w := { w with mgr := markUaInCall w.mgr u }
  -- A failed `sipsess_connect` is only logged.
  if connected then newSession w u true else w

/-- `connect_handler`. `accepted` is whether `sipsess_accept` succeeds. -/
def connectHandler (w : World name) (u : UAId) (accepted : Bool) : World name :=
  let w := setCaller w u false
  let w := { w with mgr := markUaInCall w.mgr u }
  -- The session of a call that is going on is overwritten.
  if accepted then newSession w u false else w

def establishHandler (w : World name) (u : UAId) : World name :=
  if (w.ua u).caller then
    let w := { w with stats := { w.stats with successCall := u32 (w.stats.successCall + 1) } }
    let w := { w with mgr := markUaNotInCall w.mgr (some u) }
    derefSess w u
  else w

def closeHandler (w : World name) (u : UAId) (err : Nat) : World name :=
  let w := { w with mgr := markUaNotInCall w.mgr (some u) }
  let w := if err ≠ econnreset then
      { w with stats := { w.stats with failedCall := u32 (w.stats.failedCall + 1) } }
    else w
  derefSess w u

/-! ## The scheduler -/

/-- What happens in a tick that the program does not decide: which user agent
    each draw from the pool returns, and which attempts to connect succeed. -/
structure Choice where
  draw : Nat → Nat
  connected : Nat → Bool

/-- A call of the scheduler, from one user agent to another. -/
def schedCall (w : World name) (caller callee : UAId) (connected : Bool) : World name :=
  let sess := if connected then some w.nextSess else none
  let w := call w caller connected
  { w with
    reservedFor := Function.update (Function.update w.reservedFor caller none) callee sess,
    calls := ⟨caller, callee, sess⟩ :: w.calls }

def schedulerPool (name : UAId → String) (c : Choice) : Pool (World name) where
  getUaFreeForCall := fun i w =>
    let r := getUaFreeForCall w.mgr (c.draw i)
    (r.1, { w with mgr := r.2 })
  call := fun ii caller callee w => schedCall w caller callee (c.connected ii)
  markUaNotInCall := fun u w => { w with mgr := markUaNotInCall w.mgr u }

/-- A tick of the scheduler. -/
def tick (w : World name) (expectedCalls : Nat) (c : Choice) : World name :=
  let r := w.sched.act (schedulerPool name c) expectedCalls w
  { r.1 with sched := r.2.1 }

/-- The scheduler as its timer drives it: when it was started, the latest
    clock reading, whether `act` has returned `true` so far, and how many
    calls it has made. -/
structure SchedulerRun where
  sched : CallScheduler
  callsPerSec : Int
  startTime : Nat
  now : Nat
  going : Bool
  made : Nat

/-- A run of `act`: what the clock reads, and the user agents it finds. -/
structure Act (name : UAId → String) where
  now : Nat
  users : World name
  choice : Choice

/-- The expected number of calls at a clock reading. `expected` is the
    truncated floating-point product of the calls per second and the
    milliseconds since the start. -/
def expectedCalls (expected : Int → Nat → Nat) (s : SchedulerRun) (now : Nat) : Nat :=
  expected s.callsPerSec (sub64 now s.startTime)

/-- `act` is called, unless it has returned `false` before. The clock does not
    go back. -/
def actStep (expected : Int → Nat → Nat) (s : SchedulerRun) (t : Act name) :
    Option SchedulerRun :=
  if s.going = true ∧ s.now ≤ t.now then
    let P := schedulerPool name t.choice
    let rounds := (callsToMake s.sched (expectedCalls expected s t.now)).toNat
    let r := s.sched.act P (expectedCalls expected s t.now) t.users
    some { s with
      sched := r.2.1, now := t.now, going := r.2.2,
      made := s.made + (makeCalls P rounds 0 t.users).2 }
  else none

/-- The scheduler when its timer is started. -/
def schedulerStart (callsPerSec : Int) (maxCalls startTime : Nat) : SchedulerRun :=
  { sched := { actualCalls := 0, maxCalls := maxCalls }, callsPerSec := callsPerSec,
    startTime := startTime, now := startTime, going := true, made := 0 }

/-! ## The program -/

/-- What can happen: a REGISTER outcome, a tick of the scheduler, a call made
    directly, an INVITE, a session reported established or closed. -/
inductive Event where
  | register (u : UAId) (scode : Option Nat)
  | tick (expectedCalls : Nat) (c : Choice)
  | call (u : UAId) (connected : Bool)
  | invite (user : String) (accepted answered : Bool)
  | establish (i : SessId)
  | close (i : SessId) (err : Nat)

/-- The live session of that number. -/
def findSession (w : World name) (i : SessId) : Option Session :=
  w.live.find? (fun x => decide (x.id = i))

/-- A session is reported established. -/
def setEstablished (w : World name) (i : SessId) : World name :=
  { w with
    live := w.live.map (fun x => if x.id = i then { x with established := true } else x) }

def step (w : World name) : Event → Option (World name)
  | .register u scode => some (registerHandler w u scode)
  | .tick expectedCalls c => some (tick w expectedCalls c)
  | .call u connected => some (call w u connected)
  | .invite user accepted _ => match getUaByName w.mgr user with
    -- A null pointer is dereferenced.
    | (none, _) => none
    | (some u, m) => some (connectHandler { w with mgr := m } u accepted)
  | .establish i => match findSession w i with
    | none => none
    | some x =>
        if x.established then none else some (establishHandler (setEstablished w i) x.ua)
  | .close i err => match findSession w i with
    | none => none
    | some x => some (closeHandler (endSession w i) x.ua err)

/-- Before anything happens. The caller flags are not initialised. -/
def start (name : UAId → String) (caller : UAId → Bool) (maxCalls : Nat) : World name where
  mgr := UAManager.init name
  ua := fun u => { sess := none, caller := caller u }
  live := []
  nextSess := 0
  stats := { successReg := 0, initCall := 0, successCall := 0, failReg := 0, failedCall := 0 }
  sched := { actualCalls := 0, maxCalls := maxCalls }
  reservedFor := fun _ => none
  calls := []

end Agents

end SipPerf
