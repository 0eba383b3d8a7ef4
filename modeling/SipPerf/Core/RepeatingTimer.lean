import SipPerf.Core.Tmr

/-!
# Repeating Timers

`RepeatingTimer` of `src/timer.cpp`, the base class of everything in the
program that happens regularly. It wraps one timer of the service and calls
`act` once for every interval that has passed since it was started.

What a method does to the timer service is the list of calls it makes, so
that a repeating timer can stand wherever a timeout handler can. The method
`act` is virtual. What it comes to is the calls it makes and the value it
returns, and both are arguments here.

The arithmetic is that of the source. The next tick is a 64-bit value, the
time left until it is a 64-bit difference narrowed to `int`, and the interval
is added to that as an `unsigned int` before the sum is narrowed again.

`Paced` is a repeating timer as the event loop drives it. It is started once.
It is served by a poll that reads the clock at or after the deadline the
timer is armed with, and no clock reading precedes another.

`App` is an application with any number of repeating timers, and `handlers`
its timeout handlers: `static_timer_fn`, which finds the object its argument
points to, and whatever other handlers there are. What the virtual methods
and the other handlers do is `Code`, and so are the clock readings, which may
depend on anything but do not change the objects, whose members are private.

## Main definitions

* `RepeatingTimer`: The object.
* `start`, `timerFn`: Its methods.
* `armedBy`: The deadline a timer is armed with after a call.
* `Paced`, `paceStep`: A repeating timer in the event loop.
* `App`, `Code`, `handlers`: Many of them, as the handlers of an application.
-/

namespace SipPerf

namespace RepeatingTimers

open TmrHeap Timers MachineInt

/-- `this` is the address the object passes to its own callback. -/
structure RepeatingTimer where
  this : Nat
  msPerTick : Nat
  timer : TmrPtr
  startTime : Nat
  tick : Nat

/-- The address of `static_timer_fn`. -/
def staticTimerFn : TmrH := 1

/-- The constructor. The start time is not initialised. -/
def create (this : Nat) (timer : TmrPtr) (intervalMs garbage : Nat) : RepeatingTimer :=
  { this := this, msPerTick := intervalMs, timer := timer, startTime := garbage, tick := 0 }

/-- The call of `tmr_start` that every method of the object makes. -/
def arm (r : RepeatingTimer) (delay now : Nat) (grow : Bool) : TmrCall :=
  .start r.timer delay staticTimerFn r.this now grow

/-- `start`, which reads the clock as `c1`. Inside `tmr_start` it is read as
    `c2`. -/
def start (r : RepeatingTimer) (c1 c2 : Nat) (grow : Bool) : RepeatingTimer × List TmrCall :=
  ({ r with startTime := c1 }, [.init r.timer, arm r 0 c2 grow])

def nextTick (r : RepeatingTimer) : Nat := u64 (r.startTime + u64 (r.msPerTick * r.tick))

/-- The `int` that `timer_fn` computes first, at a clock reading. -/
@[irreducible]
def diff (r : RepeatingTimer) (c1 : Nat) : Int := toInt32 (sub64 (nextTick r) c1)

/-- The delay after a tick: the narrowed sum, or zero if it is negative. -/
def msToSleep (r : RepeatingTimer) (d : Int) : Int :=
  let ms := toInt32 (d + r.msPerTick)
  if ms < 0 then 0 else ms

/-- `timer_fn`, given what `act` does if it is called. The last component is
    whether it was. -/
def timerFn (r : RepeatingTimer) (c1 : Nat) (act : List TmrCall × Bool) (c2 : Nat) (grow : Bool) :
    RepeatingTimer × List TmrCall × Bool :=
  let d := diff r c1
  -- Called too early: the timer waits for the rest, and no tick is taken.
  if d > 0 then (r, [arm r d.toNat c2 grow], false)
  else
    let r := { r with tick := u64 (r.tick + 1) }
    -- `diff` is the one from before the call of `act`.
    if act.2 then (r, act.1 ++ [arm r (msToSleep r d).toNat c2 grow], true)
    else (r, act.1, true)

/-- The deadline a timer is armed with, after one more call. -/
def armedBy (t : TmrPtr) (armed : Option Nat) (c : TmrCall) : Option Nat :=
  if target c = t then
    match c with
    | .start _ delay _ _ now _ => some (deadline delay now)
    | _ => none
  else armed

/-- A repeating timer in the event loop: the object, the deadline its timer
    is armed with, the latest clock reading, whether it has been started, the
    number of times `act` has been called, and whether it has returned
    `false`. -/
structure Paced where
  timer : RepeatingTimer
  armed : Option Nat
  now : Nat
  started : Bool
  acts : Nat
  stopped : Bool

/-- The timer is started, or it is served by a poll that read the clock as
    `j`. -/
inductive PaceEvent where
  | start (c1 c2 : Nat) (grow : Bool)
  | serve (j c1 : Nat) (act : List TmrCall × Bool) (c2 : Nat) (grow : Bool)

/-- A step of the event loop, in which the clock is not read backwards. -/
def paceStep (p : Paced) : PaceEvent → Option Paced
  | .start c1 c2 grow =>
      if p.started = false ∧ p.now ≤ c1 ∧ c1 ≤ c2 then
        let r := start p.timer c1 c2 grow
        some { p with
          timer := r.1, armed := r.2.foldl (armedBy p.timer.timer) p.armed, now := c2,
          started := true }
      else none
  | .serve j c1 act c2 grow => match p.armed with
    | none => none
    | some D =>
        if D ≤ j ∧ p.now ≤ j ∧ j ≤ c1 ∧ c1 ≤ c2 then
          let r := timerFn p.timer c1 act c2 grow
          some { p with
            timer := r.1, armed := r.2.1.foldl (armedBy p.timer.timer) none, now := c2,
            acts := if r.2.2 then p.acts + 1 else p.acts,
            stopped := p.stopped || (r.2.2 && !act.2) }
        else none

/-- A repeating timer that has not been started. -/
def pacedInit (this : Nat) (timer : TmrPtr) (intervalMs garbage : Nat) : Paced :=
  { timer := create this timer intervalMs garbage, armed := none, now := 0, started := false,
    acts := 0, stopped := false }

/-- The state of an application: the repeating timers by their addresses, and
    the rest. -/
structure App (ε : Type) where
  objects : Nat → RepeatingTimer
  rest : ε

/-- What happens around one invocation of `timer_fn`: the two clock readings,
    what `act` does if it is called, and whether `realloc` succeeds. -/
structure Serving where
  c1 : Nat
  act : List TmrCall × Bool
  c2 : Nat
  grow : Bool

/-- The code of the application: the invocations of `timer_fn`, and the
    handlers other than `static_timer_fn`. -/
structure Code (ε : Type) where
  serve : Nat → ε → Store → Serving × ε
  other : TmrH → Nat → ε → Store → List TmrCall × ε

/-- The timeout handlers. `static_timer_fn` takes its argument for the address
    of a repeating timer. -/
def handlers {ε : Type} (code : Code ε) : Handlers (App ε) := fun th arg a s =>
  if th = staticTimerFn then
    let v := code.serve arg a.rest s
    let r := timerFn (a.objects arg) v.1.c1 v.1.act v.1.c2 v.1.grow
    (r.2.1, { objects := Function.update a.objects arg r.1, rest := v.2 })
  else
    let v := code.other th arg a.rest s
    (v.1, { a with rest := v.2 })

end RepeatingTimers

end SipPerf
