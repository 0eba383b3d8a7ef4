import Mathlib.Logic.Function.Basic
import SipPerf.Lib.MachineInt

/-!
# Linked Lists

The linked lists of `libre/src/list/list.c`. The elements lie in the objects
they link, and a list has only the addresses of the first and of the last one.
The memory is given by what every element and every list holds, for any types
of addresses of elements and of lists, and of the data of an element.

The code follows its pointers wherever they lead, so the loops are given fuel.
Addresses are never null here. The code returns at once for those that are.

## Main definitions

* `Le`, `Mem`: An element, and the memory.
* `listAppend`, `listPrepend`, `listInsertBefore`, `listInsertAfter`,
  `listUnlink`: An element is linked in or unlinked.
* `listClear`, `listFlush`, `listApply`, `listCount`, `listSort`: The loops.
* `ListOp`, `memStep`: Operations on any lists in any order.
-/

namespace SipPerf

namespace LinkedList

open MachineInt

variable {α κ δ : Type*}

/-- `le`: the neighbours, the list and the data. -/
structure Le (α κ δ : Type*) where
  prev : Option α
  next : Option α
  list : Option κ
  data : Option δ

/-- All elements, and `list` for every list. -/
structure Mem (α κ δ : Type*) where
  le : α → Le α κ δ
  head : κ → Option α
  tail : κ → Option α

/-- `LE_INIT` and `LIST_INIT`. -/
def zeroed : Mem α κ δ :=
  { le := fun _ => ⟨none, none, none, none⟩, head := fun _ => none, tail := fun _ => none }

section Writes

variable [DecidableEq α] [DecidableEq κ]

def Mem.setLe (m : Mem α κ δ) (e : α) (le : Le α κ δ) : Mem α κ δ :=
  { m with le := Function.update m.le e le }

def Mem.setPrev (m : Mem α κ δ) (e : α) (p : Option α) : Mem α κ δ :=
  m.setLe e { m.le e with prev := p }

def Mem.setNext (m : Mem α κ δ) (e : α) (n : Option α) : Mem α κ δ :=
  m.setLe e { m.le e with next := n }

def Mem.setHead (m : Mem α κ δ) (k : κ) (e : Option α) : Mem α κ δ :=
  { m with head := Function.update m.head k e }

def Mem.setTail (m : Mem α κ δ) (k : κ) (e : Option α) : Mem α κ δ :=
  { m with tail := Function.update m.tail k e }

/-! ## Single elements -/

/-- `list_append`. -/
def listAppend (m : Mem α κ δ) (k : κ) (e : α) (data : Option δ) : Mem α κ δ :=
  if (m.le e).list.isSome then m
  else
    let m := m.setLe e { prev := m.tail k, next := none, list := some k, data := data }
    -- In an empty list the element is at both ends.
    let m := if m.head k = none then m.setHead k (some e) else m
    let m := match m.tail k with
      | some t => m.setNext t (some e)
      | none => m
    m.setTail k (some e)

/-- `list_prepend`. -/
def listPrepend (m : Mem α κ δ) (k : κ) (e : α) (data : Option δ) : Mem α κ δ :=
  if (m.le e).list.isSome then m
  else
    let m := m.setLe e { prev := none, next := m.head k, list := some k, data := data }
    let m := match m.head k with
      | some h => m.setPrev h (some e)
      | none => m
    let m := if m.tail k = none then m.setTail k (some e) else m
    m.setHead k (some e)

/-- `list_insert_before`: `ile` in front of `e`. -/
def listInsertBefore (m : Mem α κ δ) (k : κ) (e ile : α) (data : Option δ) : Mem α κ δ :=
  if (m.le ile).list.isSome then m
  else
    let m := match (m.le e).prev with
      | some p => m.setNext p (some ile)
      -- Nothing in front of `e`, which is then the head.
      | none => if m.head k = some e then m.setHead k (some ile) else m
    let m := m.setLe ile { prev := (m.le e).prev, next := some e, list := some k, data := data }
    m.setPrev e (some ile)

/-- `list_insert_after`: `ile` behind `e`. -/
def listInsertAfter (m : Mem α κ δ) (k : κ) (e ile : α) (data : Option δ) : Mem α κ δ :=
  if (m.le ile).list.isSome then m
  else
    let m := match (m.le e).next with
      | some n => m.setPrev n (some ile)
      -- Nothing behind `e`, which is then the tail.
      | none => if m.tail k = some e then m.setTail k (some ile) else m
    let m := m.setLe ile { prev := some e, next := (m.le e).next, list := some k, data := data }
    m.setNext e (some ile)

/-- `list_unlink`. -/
def listUnlink (m : Mem α κ δ) (e : α) : Mem α κ δ :=
  match (m.le e).list with
  | none => m
  | some k =>
      -- Both sides of the gap are closed, each with what is on the other.
      let m := match (m.le e).prev with
        | some p => m.setNext p (m.le e).next
        | none => m.setHead k (m.le e).next
      let m := match (m.le e).next with
        | some n => m.setPrev n (m.le e).prev
        | none => m.setTail k (m.le e).prev
      m.setLe e { m.le e with next := none, prev := none, list := none }

/-! ## Loops -/

/-- The loop of `list_flush` and of `list_clear`, with the data of the elements
    it passes. -/
def clearFrom : Nat → Mem α κ δ → Option α → Option (Mem α κ δ × List (Option δ))
  | _, m, none => some (m, [])
  | 0, _, some _ => none
  | fuel + 1, m, some e =>
      -- The next element is read before this one is cleared.
      match clearFrom fuel (m.setLe e ⟨none, none, none, none⟩) (m.le e).next with
      | none => none
      | some r => some (r.1, (m.le e).data :: r.2)

/-- `list_flush`, with the data it lets go of. -/
def listFlush (fuel : Nat) (m : Mem α κ δ) (k : κ) : Option (Mem α κ δ × List (Option δ)) :=
  match clearFrom fuel m (m.head k) with
  | none => none
  | some r => some ((r.1.setHead k none).setTail k none, r.2)

/-- `list_clear`. -/
def listClear (fuel : Nat) (m : Mem α κ δ) (k : κ) : Option (Mem α κ δ) :=
  match listFlush fuel m k with
  | none => none
  | some r => some r.1

/-- The loop of `list_count`. -/
def countFrom : Nat → Mem α κ δ → Option α → Nat → Option Nat
  | _, _, none, n => some n
  | 0, _, some _, _ => none
  | fuel + 1, m, some e, n => countFrom fuel m (m.le e).next (u32 (n + 1))

/-- `list_count`. -/
def listCount (fuel : Nat) (m : Mem α κ δ) (k : κ) : Option Nat := countFrom fuel m (m.head k) 0

/-- The loop of `list_apply`. The handler may change the memory and something
    of its own, and ends the loop by returning true. -/
def applyFrom {σ : Type*} (ah : α → Mem α κ δ → σ → (Mem α κ δ × σ) × Bool) (fwd : Bool) :
    Nat → Mem α κ δ → σ → Option α → Option ((Mem α κ δ × σ) × Option α)
  | _, m, s, none => some ((m, s), none)
  | 0, _, _, some _ => none
  | fuel + 1, m, s, some cur =>
      -- The handler may unlink its element, so the next one is read first.
      let le := if fwd then (m.le cur).next else (m.le cur).prev
      let r := ah cur m s
      if r.2 then some (r.1, some cur) else applyFrom ah fwd fuel r.1.1 r.1.2 le

/-- `list_apply`. -/
def listApply {σ : Type*} (ah : α → Mem α κ δ → σ → (Mem α κ δ × σ) × Bool) (fwd : Bool) (fuel : Nat)
    (m : Mem α κ δ) (k : κ) (s : σ) : Option ((Mem α κ δ × σ) × Option α) :=
  applyFrom ah fwd fuel m s (if fwd then m.head k else m.tail k)

/-- One pass of `list_sort` from an element on. -/
def sortFrom (sh : α → α → Bool) (k : κ) :
    Nat → Mem α κ δ → Option α → Bool → Option (Mem α κ δ × Bool)
  | 0, _, _, _ => none
  | fuel + 1, m, le, sort => match le with
    | none => some (m, sort)
    | some e => match (m.le e).next with
      | none => some (m, sort)
      | some tle =>
          if sh e tle then sortFrom sh k fuel m (some tle) sort
          else
            -- Out of order: `e` goes behind `tle`, and is the next to compare.
            let m := listUnlink m e
            let m := listInsertAfter m k tle e (m.le e).data
            sortFrom sh k fuel m (some e) true

/-- `list_sort`, with fuel for the passes and for each pass. -/
def listSort (sh : α → α → Bool) (k : κ) (fuel : Nat) : Nat → Mem α κ δ → Option (Mem α κ δ)
  | 0, _ => none
  | passes + 1, m => match sortFrom sh k fuel m (m.head k) false with
    | none => none
    | some r => if r.2 then listSort sh k fuel passes r.1 else some r.1

/-! ## Runs -/

/-- An operation on a list or on an element. -/
inductive ListOp (α κ δ : Type*) where
  | append (k : κ) (e : α) (data : Option δ)
  | prepend (k : κ) (e : α) (data : Option δ)
  | insertBefore (k : κ) (e ile : α) (data : Option δ)
  | insertAfter (k : κ) (e ile : α) (data : Option δ)
  | unlink (e : α)

/-- One operation. An element can only be inserted next to one that is in the
    list, which the code relies on. -/
def memStep (m : Mem α κ δ) : ListOp α κ δ → Option (Mem α κ δ)
  | .append k e data => some (listAppend m k e data)
  | .prepend k e data => some (listPrepend m k e data)
  | .insertBefore k e ile data =>
      if (m.le e).list = some k then some (listInsertBefore m k e ile data) else none
  | .insertAfter k e ile data =>
      if (m.le e).list = some k then some (listInsertAfter m k e ile data) else none
  | .unlink e => some (listUnlink m e)

end Writes

end LinkedList

end SipPerf
