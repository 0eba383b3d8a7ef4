import Mathlib.Logic.Function.Iterate
import SipPerf.Lib.MachineInt
import SipPerf.Lib.Transition

/-!
# SIP Stacks

The SIP stacks of `src/stack.cpp`, from their creation to their release. A
stack is an object of `libre/src/mem/mem.c`, which counts the references to
it. The program holds one of them, and so does every session and every
registration made on the stack. Who holds a reference is not written down
anywhere in the program; `held` is the number of sessions and registrations
that do.

Releasing the last reference runs the destructor. That of a stack
(`libre/src/sip/sip.c`) is unusual: if the stack is closing it takes a
reference on the object it was called to destroy, calls the exit handler and
returns, and the object lives on until that reference is released. Closing a
stack without force sets the flag and releases a reference.

The exit handler of this program counts stacks. `Exit` is what there is to
say about one call of it: which stack it was called for, how many sessions
and registrations held a reference on that stack and on all stacks at the
time, and how many stacks it left active.

Releasing a reference on an object that has been freed is outside what the
program may do, so a step that would is no step. The sockets and the DNS
client that are released with the stacks hold no reference on a stack.

## Main definitions

* `Sip`, `memRef`, `memDeref`: A stack as a counted object.
* `destructor`: What happens when the count reaches zero.
* `Stacks`: The stacks of the program.
* `sipClose`, `closeSipStacks`, `freeSipStacks`, `shutdown`: Shutting down.
* `release`: A session or a registration goes away.
-/

namespace SipPerf

namespace Stack

open MachineInt Transition

/-- A stack as a counted object. `freed` is set when the memory is returned. -/
structure Sip where
  nrefs : Nat
  closing : Bool
  freed : Bool

/-- A stack as `sip_alloc` returns it. -/
def sipAlloc : Sip := { nrefs := 1, closing := false, freed := false }

def memRef (s : Sip) : Sip := { s with nrefs := u32 (s.nrefs + 1) }

/-- The destructor of a stack, and whether it calls the exit handler. -/
def destructor (s : Sip) : Sip × Bool :=
  if s.closing then (memRef { s with closing := false }, true) else (s, false)

/-- `mem_deref` of a stack, and whether the exit handler is called in it. -/
def memDeref (s : Sip) : Option (Sip × Bool) :=
  if s.freed then none
  else
    let s := { s with nrefs := dec32 s.nrefs }
    if 0 < s.nrefs then some (s, false)
    else
      let r := destructor s
      -- The destructor may have called `mem_ref`.
      if 0 < r.1.nrefs then some r else some ({ r.1 with freed := true }, r.2)

/-- `sip_close` without force. -/
def sipClose (s : Sip) : Option (Sip × Bool) :=
  if s.closing then some (s, false) else memDeref { s with closing := true }

/-- A stack, and how many sessions and registrations hold a reference on it. -/
structure SipStack where
  sip : Sip
  held : Nat

/-- A call of the exit handler. -/
structure Exit where
  stack : Nat
  held : Nat
  heldAll : Nat
  active : Int
deriving DecidableEq

/-- The stacks that have been created, whether `sip_stacks` still lists them,
    the number of active ones, whether the main loop has been told to stop,
    and the calls of the exit handler so far. -/
structure Stacks where
  count : Nat
  stack : Nat → SipStack
  listed : Bool
  activeSipStacks : Int
  reCancel : Bool
  exits : List Exit

/-- `create_sip_stacks`. -/
def createSipStacks (howMany : Nat) : Stacks :=
  { count := howMany, stack := fun _ => ⟨sipAlloc, 0⟩, listed := true,
    activeSipStacks := howMany, reCancel := false, exits := [] }

/-- A session or a registration is made on a stack. -/
def hold (s : SipStack) : SipStack := { sip := memRef s.sip, held := s.held + 1 }

/-- The stacks with sessions and registrations on them, as many as the list
    says for each. -/
def busy (counts : List Nat) : Stacks :=
  { createSipStacks counts.length with
    stack := fun i => (hold^[counts.getD i 0]) ⟨sipAlloc, 0⟩ }

/-- How many sessions and registrations hold a reference on some stack. -/
def heldAll (w : Stacks) : Nat := ((List.range w.count).map (fun i => (w.stack i).held)).sum

/-- `exit_handler`, called for a stack. -/
def exitHandler (w : Stacks) (i : Nat) : Stacks :=
  let active := w.activeSipStacks - 1
  { w with
    activeSipStacks := active,
    reCancel := w.reCancel || decide (active = 0),
    exits := w.exits ++ [⟨i, (w.stack i).held, heldAll w, active⟩] }

/-- Write the object of a stack. -/
def setSip (w : Stacks) (i : Nat) (m : Sip) : Stacks :=
  { w with stack := Function.update w.stack i { w.stack i with sip := m } }

/-- Do something to the object of a stack that may call its exit handler. -/
def onStack (f : Sip → Option (Sip × Bool)) (w : Stacks) (i : Nat) : Option Stacks :=
  match f (w.stack i).sip with
  | none => none
  | some (m, exited) => some (if exited then exitHandler (setSip w i m) i else setSip w i m)

/-- `close_sip_stacks(false)`. -/
def closeSipStacks (w : Stacks) : Option Stacks :=
  if w.listed then exec (onStack sipClose) w (List.range w.count) else some w

/-- `free_sip_stacks`. -/
def freeSipStacks (w : Stacks) : Option Stacks :=
  if w.listed then
    match exec (onStack memDeref) w (List.range w.count) with
    | none => none
    | some w => some { w with listed := false }
  else some w

/-- What `Cleanup` does in its thirteenth second. -/
def shutdown (w : Stacks) : Option Stacks :=
  match closeSipStacks w with
  | none => none
  | some w => freeSipStacks w

/-- Write the number of references held on a stack. -/
def setHeld (w : Stacks) (i held : Nat) : Stacks :=
  { w with stack := Function.update w.stack i { w.stack i with held := held } }

/-- A session or a registration on a stack goes away, and its reference with
    it. -/
def release (w : Stacks) (i : Nat) : Option Stacks :=
  if 0 < (w.stack i).held then onStack memDeref (setHeld w i ((w.stack i).held - 1)) i else none

end Stack

end SipPerf
