import SipPerf.Core.TmrHeap

/-!
# Timers

The timer service of `libre/src/tmr/tmr.c` over the heap of
`SipPerf.Core.TmrHeap`. A timer is running when its handler pointer is set,
and `tmr_start`, `tmr_cancel` and `tmr_poll` keep that pointer and the heap
in step.

The clock is whatever `gettimeofday` returns, so each function that calls
`tmr_jiffies` takes the reading as an argument. Nothing is assumed of
successive readings here.

Timeout handlers are code of the application that may call back into
`tmr_start` and `tmr_cancel` for any timers. `Handlers` is that code: given
the handler and its argument, the application's own state and the timers as
the handler finds them, the calls it goes on to make, and the application's
state afterwards. A handler that decides what to do by looking at the timers
between its calls is still such a function, since what it will find there is
determined by where it started.

`tmr_poll` returns when the earliest timer is not due, which a handler that
restarts its own timer without delay can put off forever. So `tmrPoll` takes
a number of rounds it may use and returns nothing when they run out. It also
returns the events of the poll in order, the handlers invoked and the calls
they made.

## Main definitions

* `tmrInit`, `tmrStart`, `tmrCancel`: Operations on one timer.
* `tmrIsrunning`, `tmrNextTimeout`: Queries.
* `pollIter`: One round of the loop in `tmr_poll`.
* `TmrCall`, `target`, `runCall`: A call into the timer service.
* `TmrEvent`, `timerStep`: A call, or a round of a poll, as a step of the
  timers.
* `Handlers`, `tmrPoll`: The application's handlers, and a whole poll.
-/

namespace SipPerf

namespace Timers

open TmrHeap MachineInt

/-- Write a whole timer. -/
def setTmr (s : Store) (t : TmrPtr) (x : Tmr) : Store :=
  { s with tmr := Function.update s.tmr t x }

/-- A timer whose memory has been cleared. -/
def zeroTmr : Tmr := { th := none, arg := 0, jfs := 0, heapIdx := 0 }

/-- A timer as `tmr_init` leaves it. -/
def initTmr : Tmr := { zeroTmr with heapIdx := -1 }

def tmrInit (s : Store) : Option TmrPtr → Store
  | none => s
  | some t => setTmr s t initTmr

/-- The deadline of a timer started with a delay at a clock reading. -/
def deadline (delay now : Nat) : Nat := u64 (delay + now)

/-- `tmr_start`. `now` is what `tmr_jiffies` reads, and `grow` whether
    `realloc` succeeds, in the calls that get so far. The result of
    `heap_offer` is ignored. -/
def tmrStart (s : Store) (tmr : Option TmrPtr) (delay : Nat) (th : Option TmrH) (arg : Nat)
    (now : Nat) (grow : Bool) : Store :=
  match tmr with
  | none => s
  | some t =>
      -- `tmr->th` stands for being in the heap.
      let s := if (s.tmr t).th.isSome then heapRemoveItem s t else s
      let s := setTmr s t { s.tmr t with th := th, arg := arg }
      if th.isNone then s
      else
        let s := setTmr s t { s.tmr t with jfs := deadline delay now }
        (heapOffer s t grow).1

/-- `tmr_cancel`: a start without a handler, which reads no clock and offers
    nothing. -/
def tmrCancel (s : Store) (tmr : Option TmrPtr) : Store := tmrStart s tmr 0 none 0 0 true

def tmrIsrunning (s : Store) : Option TmrPtr → Bool
  | none => false
  | some t => (s.tmr t).th.isSome

def tmrNextTimeout (s : Store) (jif : Nat) : Nat :=
  match heapPeek s with
  | none => 0
  | some t => if (s.tmr t).jfs ≤ jif then 1 else (s.tmr t).jfs - jif

/-- What one round of the loop in `tmr_poll` comes to: leaving the loop,
    dropping a timer that has no handler, or calling a handler. -/
inductive PollIter where
  | done
  | drop (s : Store)
  | fire (t : TmrPtr) (th : TmrH) (arg : Nat) (s : Store)

/-- One round of the loop in `tmr_poll`, up to the call of the handler. -/
def pollIter (s : Store) (jfs : Nat) : PollIter :=
  match heapPeek s with
  | none => .done
  | some t =>
      if (s.tmr t).jfs > jfs then .done
      else
        let th := (s.tmr t).th
        let arg := (s.tmr t).arg
        -- The handler may start the timer again, so it is cleared before.
        let s := setTmr s t { s.tmr t with th := none }
        let s := heapRemoveItem s t
        match th with
        | none => .drop s
        | some f => .fire t f arg s

/-- A call into the timer service, with the clock reading and the outcome of
    the `realloc` it may need. -/
inductive TmrCall where
  | init (t : TmrPtr)
  | start (t : TmrPtr) (delay : Nat) (th : TmrH) (arg : Nat) (now : Nat) (grow : Bool)
  | cancel (t : TmrPtr)
deriving DecidableEq

/-- The timer a call is for. -/
def target : TmrCall → TmrPtr
  | .init t => t
  | .start t _ _ _ _ _ => t
  | .cancel t => t

def runCall (s : Store) : TmrCall → Store
  | .init t => tmrInit s (some t)
  | .start t delay th arg now grow => tmrStart s (some t) delay (some th) arg now grow
  | .cancel t => tmrCancel s (some t)

/-- Something that happens to the timers: a call, or a round of a poll that
    read the clock as `jfs`. -/
inductive TmrEvent where
  | call (c : TmrCall)
  | drop (jfs : Nat)
  | fire (jfs : Nat) (t : TmrPtr) (th : TmrH) (arg : Nat)
deriving DecidableEq

/-- The timers after an event. A round of a poll is a step only where it does
    what the event says it does. -/
def timerStep (s : Store) : TmrEvent → Option Store
  | .call c => some (runCall s c)
  | .drop jfs => match pollIter s jfs with
    | .drop s' => some s'
    | _ => none
  | .fire jfs t th arg => match pollIter s jfs with
    | .fire t' th' arg' s' => if t' = t ∧ th' = th ∧ arg' = arg then some s' else none
    | _ => none

/-- The timeout handlers of an application with state `σ`. -/
abbrev Handlers (σ : Type) := TmrH → Nat → σ → Store → List TmrCall × σ

/-- The loop of `tmr_poll`, for at most the given number of rounds. -/
def pollLoop {σ : Type} (H : Handlers σ) (jfs : Nat) :
    Nat → σ → Store → Option (σ × Store × List TmrEvent)
  | 0, _, _ => none
  | n + 1, a, s => match pollIter s jfs with
    | .done => some (a, s, [])
    | .drop s' => match pollLoop H jfs n a s' with
      | none => none
      | some (a', s'', es) => some (a', s'', .drop jfs :: es)
    | .fire t th arg s' =>
        let r := H th arg a s'
        match pollLoop H jfs n r.2 (r.1.foldl runCall s') with
        | none => none
        | some (a', s'', es) => some (a', s'', .fire jfs t th arg :: (r.1.map .call ++ es))

/-- `tmr_poll`, which reads the clock once, as `now`. -/
def tmrPoll {σ : Type} (H : Handlers σ) (rounds : Nat) (a : σ) (s : Store) (now : Nat) :
    Option (σ × Store × List TmrEvent) :=
  pollLoop H now rounds a s

end Timers

end SipPerf
