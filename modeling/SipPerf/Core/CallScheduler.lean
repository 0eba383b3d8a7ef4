import SipPerf.Core.UAManager
import SipPerf.Lib.MachineInt

/-!
# The Call Scheduler

`CallScheduler::act` of `src/sipperf.cpp`, which makes the calls that are due.
How many are due is a 64-bit difference narrowed to `int`, and the loop runs
that often unless the pool runs out of user agents. The expected number of
calls is computed in floating point and is an argument here.

The loop is written over any pool of user agents, given by what it asks of
one. `Pool` is that. An operation is told which use of it this is, counted
from the start of the loop, so that a pool may answer each in its own way.

## Main definitions

* `Pool`: What the loop asks of a pool.
* `makeCalls`: The loop.
* `CallScheduler`, `act`: The scheduler.
-/

namespace SipPerf

open MachineInt

/-- What the scheduler asks of a pool of user agents: take a free one out,
    make a call from one to another, and put one back. -/
structure Pool (π : Type) where
  getUaFreeForCall : Nat → π → Option UAId × π
  call : Nat → UAId → UAId → π → π
  markUaNotInCall : Option UAId → π → π

/-- The loop, for at most the given number of rounds from round `ii` on, and
    how many calls it made. -/
def makeCalls {π : Type} (P : Pool π) : Nat → Nat → π → π × Nat
  | 0, _, p => (p, 0)
  | n + 1, ii, p =>
      let r1 := P.getUaFreeForCall (2 * ii) p
      let r2 := P.getUaFreeForCall (2 * ii + 1) r1.2
      match r1.1, r2.1 with
      | some caller, some callee =>
          let rest := makeCalls P n (ii + 1) (P.call ii caller callee r2.2)
          (rest.1, rest.2 + 1)
      -- Not enough user agents: what was taken is put back.
      | caller, callee => (P.markUaNotInCall callee (P.markUaNotInCall caller r2.2), 0)

/-- The scheduler. The number of calls per second enters the expected number
    of calls only. -/
structure CallScheduler where
  actualCalls : Nat
  maxCalls : Nat

/-- The bound of the loop, an `int`. -/
@[irreducible]
def callsToMake (c : CallScheduler) (expectedCalls : Nat) : Int :=
  toInt32 (sub64 expectedCalls c.actualCalls)

/-- The rest of `act`, once the bound of the loop is known. -/
def CallScheduler.actFor {π : Type} (P : Pool π) (c : CallScheduler) (rounds : Nat) (p : π) :
    π × CallScheduler × Bool :=
  let r := makeCalls P rounds 0 p
  let c := { c with actualCalls := u64 (c.actualCalls + r.2) }
  (r.1, c, decide (c.actualCalls < c.maxCalls))

/-- `CallScheduler::act`: the pool, the scheduler, and whether the timer goes
    on. If it does not, the cleanup has been started. -/
def CallScheduler.act {π : Type} (P : Pool π) (c : CallScheduler) (expectedCalls : Nat) (p : π) :
    π × CallScheduler × Bool :=
  c.actFor P (callsToMake c expectedCalls).toNat p

end SipPerf
