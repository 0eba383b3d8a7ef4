import SipPerf.Core.CallScheduler

/-!
# The Control Flow of a Run

The three timers of `src/sipperf.cpp` that drive a run, and how they start one
another. `InitialRegistrar` registers the users of `ues`, and when it has
registered them all it starts `CallScheduler` and stops. `CallScheduler` makes
calls, and when it has made enough it starts `Cleanup` and stops. `Cleanup`
unregisters the users in one of its ticks and shuts the SIP stacks down in a
later one.

A timer that `act` asks to be stopped is not armed again, and one that is not
armed does not tick, so what matters of the timers is whether they are armed.
The expected counts are computed from the clock in floating point, and are
arbitrary here. So is the pool the scheduler finds when it ticks.

What the timers do to the rest of the program is a list of actions, in the
order they are taken. Registering a user asks for a SIP stack, which divides
by the number of stacks there are. The action records that number.

The tick counter of `Cleanup` is an `int`, and a tick that would take it out
of its range is outside what the program may do. When the main loop is told
to stop it finishes the poll it is in, which may still serve a timer that is
late, so ticks may follow. A run may be cut at any point.

## Main definitions

* `Action`: What the timers do.
* `Control`: The timers.
* `registrarAct`, `schedulerAct`, `cleanupAct`: The methods `act`.
* `Tick`, `controlStep`: A tick of one of the timers.
-/

namespace SipPerf

namespace ControlFlow

open MachineInt

/-- What the timers do. Registering a user records the number of SIP stacks,
    and starting the cleanup the number of calls made and the limit. -/
inductive Action where
  | registerUe (i sipStacks : Nat)
  | startCalls
  | call
  | startCleanup (actualCalls maxCalls : Nat)
  | unregister (i : Nat)
  | closeSipStacks
  | freeSipStacks
deriving DecidableEq

/-- The timers: the number of users, the state of each timer and whether it is
    armed, the number of SIP stacks, whether the main loop has been told to
    stop, and the actions taken. -/
structure Control where
  ues : Nat
  actualUesRegistered : Nat
  registering : Bool
  sched : CallScheduler
  calling : Bool
  times : Nat
  cleaning : Bool
  sipStacks : Nat
  reCancel : Bool
  log : List Action

/-- The number of SIP stacks `main` creates. -/
def howManyStacks : Nat := 75

/-- As `main` enters the event loop. -/
def begin (ues maxCalls : Nat) : Control where
  ues := ues
  actualUesRegistered := 0
  registering := true
  sched := { actualCalls := 0, maxCalls := maxCalls }
  calling := false
  times := 0
  cleaning := false
  sipStacks := howManyStacks
  reCancel := false
  log := []

/-- The bound of the loop of the registrar, an `int`. -/
@[irreducible]
def uesToRegister (s : Control) (expectedUesRegistered : Nat) : Int :=
  toInt32 (sub64 (min expectedUesRegistered s.ues) s.actualUesRegistered)

/-- The loop of the registrar. The index is not checked against the number of
    users. -/
def registerLoop : Nat → Control → Control
  | 0, s => s
  | k + 1, s => registerLoop k { s with
      log := s.log ++ [.registerUe s.actualUesRegistered s.sipStacks],
      actualUesRegistered := u64 (s.actualUesRegistered + 1) }

/-- `InitialRegistrar::act`. -/
def registrarAct (s : Control) (expectedUesRegistered : Nat) : Control :=
  -- Every user has been asked to register, whatever came of it.
  if s.actualUesRegistered = s.ues then
    { s with registering := false, calling := true, log := s.log ++ [.startCalls] }
  else registerLoop (uesToRegister s expectedUesRegistered).toNat s

/-- `CallScheduler::act`, on a pool, once the bound of its loop is known. -/
def schedulerAct {π : Type} (s : Control) (P : Pool π) (rounds : Nat) (p : π) : Control :=
  let made := (makeCalls P rounds 0 p).2
  let r := s.sched.actFor P rounds p
  let log := s.log ++ List.replicate made .call
  if r.2.2 then { s with sched := r.2.1, log := log }
  else
    { s with
      sched := r.2.1, calling := false, cleaning := true,
      log := log ++ [.startCleanup r.2.1.actualCalls r.2.1.maxCalls] }

/-- `Cleanup::act`. -/
def cleanupAct (s : Control) : Control :=
  let s :=
    if s.times = 1 then
      { s with log := s.log ++ (List.range s.ues).map .unregister }
    else if s.times = 12 then
      -- Both let go of the stacks, one after the other in one tick.
      { s with log := s.log ++ [.closeSipStacks, .freeSipStacks], sipStacks := 0 }
    else if s.times = 30 then { s with reCancel := true }
    else s
  { s with times := s.times + 1 }

/-- A tick of one of the timers. -/
inductive Tick (π : Type) where
  | registrar (expectedUesRegistered : Nat)
  | scheduler (expectedCalls : Nat) (P : Pool π) (p : π)
  | cleanup

def controlStep {π : Type} (s : Control) : Tick π → Option Control
  | .registrar expected => if s.registering then some (registrarAct s expected) else none
  | .scheduler expected P p =>
      if s.calling then some (schedulerAct s P (callsToMake s.sched expected).toNat p) else none
  | .cleanup => if s.cleaning ∧ s.times + 1 < 2 ^ 31 then some (cleanupAct s) else none

end ControlFlow

end SipPerf
