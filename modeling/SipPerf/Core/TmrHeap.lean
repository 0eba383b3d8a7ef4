import Mathlib.Logic.Function.Basic
import SipPerf.Lib.BinaryHeap
import SipPerf.Lib.MachineInt

/-!
# The Timer Heap

The binary heap of `libre/src/tmr/tmr_heap.c`, function by function. A heap
is an array of pointers to timers, and each timer carries its own position in
the array, `heap_idx`, so that a timer can be removed without searching for
it. Every operation therefore writes in two places, the array and the timers
it points at, and `Store` is the two together: the `heap_s` record and the
memory the timers live in.

The array is a function on positions together with `alloc`, the number of
slots that `malloc` and `realloc` have really provided. The two differ from
`size` when a `realloc` fails, because `__ensurecapacity` doubles `size`
first.

`size` and `count` are `unsigned int` and wrap. Array positions are `int` in
the source and naturals here: a heap of fewer than `2 ^ 30` members has no
position whose children lie outside the range of `int`
(`childRight_lt_of_count`).

The loops of `__pushup` and `__pushdown` terminate on their own account, the
first because a parent precedes its child and the second because a child
precedes `count`.

## Main definitions

* `Tmr`, `HeapS`, `Store`: The `tmr` and `heap_s` records, and the memory
  they live in.
* `keycompare`, `childLeft`, `childRight`: Comparison and index arithmetic.
* `heapNew`, `ensurecapacity`: Creating and growing the array.
* `swap`, `pushup`, `pushdown`: Exchanging slots, and the two sifts.
* `offerx`, `heapOffer`: Adding a timer.
* `heapPoll`, `heapPeek`, `heapRemoveItem`: Taking timers out.
* `heapContainsItem`: The membership test.

## Theorems

* `pickChild_bounds`: The child chosen by `__pushdown` is a later member.
* `childRight_lt_of_count`: Positions of a small heap fit an `int`.
-/

namespace SipPerf

namespace TmrHeap

open MachineInt BinaryHeap

/-- The address of a `struct tmr`. A pointer that may be `NULL` is an
    `Option TmrPtr`. -/
abbrev TmrPtr := Nat

/-- A timeout handler, `tmr_h *`. -/
abbrev TmrH := Nat

/-- `struct tmr`. -/
structure Tmr where
  th : Option TmrH
  arg : Nat
  jfs : Nat
  heapIdx : Int
deriving DecidableEq, Repr

/-- `struct heap_s`, with the number of slots its array really has. -/
structure HeapS where
  size : Nat
  count : Nat
  alloc : Nat
  array : Nat → TmrPtr

/-- A heap and the memory of the timers it points at. -/
structure Store extends HeapS where
  tmr : TmrPtr → Tmr

/-- Write a slot of the array. -/
def Store.setSlot (s : Store) (i : Nat) (t : TmrPtr) : Store :=
  { s with array := Function.update s.array i t }

/-- Write the `heap_idx` of a timer. -/
def Store.setIdx (s : Store) (t : TmrPtr) (k : Int) : Store :=
  { s with tmr := Function.update s.tmr t { s.tmr t with heapIdx := k } }

/-- The deadline of the timer in a slot, `h->array[i]->jfs`. -/
def Store.key (s : Store) (i : Nat) : Nat := (s.tmr (s.array i)).jfs

/-- `DEFAULT_CAPACITY`. -/
def defaultCapacity : Nat := 13

/-- What `heap_remove_item` leaves in the slot it gives up. -/
def deadBeef : TmrPtr := 0xDEADBEEF

def keycompare (a b : Nat) : Int :=
  if a < b then 1
  else if a > b then -1
  else 0

/-- `__child_left`. -/
def childLeft (idx : Nat) : Nat := idx * 2 + 1

/-- `__child_right`. -/
def childRight (idx : Nat) : Nat := idx * 2 + 2

/-- `heap_new` followed by `heap_init`: an empty heap over whatever the
    timers and the fresh array hold. -/
def heapNew (array : Nat → TmrPtr) (tmr : TmrPtr → Tmr) : Store :=
  { size := defaultCapacity, count := 0, alloc := defaultCapacity, array := array, tmr := tmr }

/-- `__ensurecapacity`. `reallocOk` is whether `realloc` returns memory. The
    capacity is doubled before that is known. -/
def ensurecapacity (s : Store) (reallocOk : Bool) : Store × Int :=
  if s.count < s.size then (s, 0)
  else
    let size := u32 (s.size * 2)
    if reallocOk then ({ s with size := size, alloc := size }, 0)
    else ({ s with size := size }, 1)

/-- `__swap`: exchange two slots and write both back-pointers. -/
def swap (s : Store) (i1 i2 : Nat) : Store :=
  let tmp := s.array i1
  let s := s.setSlot i1 (s.array i2)
  let s := s.setIdx (s.array i1) i1
  let s := s.setSlot i2 tmp
  s.setIdx (s.array i2) i2

/-- `__pushup`. The test is on the heap's reversed comparison, so it stops
    only when the timer is strictly later than its parent and swaps on
    ties. -/
def pushup (s : Store) (idx : Nat) : Store × Int :=
  if hidx : idx = 0 then (s, 0)
  else if keycompare (s.key idx) (s.key (parent idx)) < 0 then (s, -1)
  else pushup (swap s idx (parent idx)) (parent idx)
termination_by idx
decreasing_by exact parent_lt idx (Nat.pos_of_ne_zero hidx)

/-- The child that one round of `__pushdown` compares with, or `none` when
    the position is a leaf. -/
def pickChild (s : Store) (idx : Nat) : Option Nat :=
  if childRight idx ≥ s.count then
    if childLeft idx ≥ s.count then none
    else some (childLeft idx)
  else if keycompare (s.key (childLeft idx)) (s.key (childRight idx)) < 0 then
    some (childRight idx)
  else some (childLeft idx)

theorem pickChild_bounds (s : Store) (idx c : Nat) (h : pickChild s idx = some c) :
    0 < c ∧ c < s.count ∧ parent c = idx ∧ idx < c := by
  unfold pickChild childLeft childRight at h
  unfold parent
  split at h
  · split at h
    · exact absurd h (by simp only [reduceCtorEq, not_false_eq_true])
    · simp only [Option.some.injEq] at h
      omega
  · split at h
    · simp only [Option.some.injEq] at h
      omega
    · simp only [Option.some.injEq] at h
      omega

/-- `__pushdown`. -/
def pushdown (s : Store) (idx : Nat) : Store :=
  match hc : pickChild s idx with
  | none => s
  | some child =>
      if keycompare (s.key idx) (s.key child) < 0 then pushdown (swap s idx child) child
      else s
termination_by s.count - idx
decreasing_by
  have h := pickChild_bounds s idx child hc
  simp only [swap, Store.setSlot, Store.setIdx]
  omega

/-- `__heap_offerx`. -/
def offerx (s : Store) (item : TmrPtr) : Store :=
  let s := s.setIdx item s.count
  let s := s.setSlot s.count item
  -- `h->count++`: the sift starts at the old count, in the longer heap.
  let idx := s.count
  (pushup { s with count := u32 (s.count + 1) } idx).1

/-- `heap_offer`. -/
def heapOffer (s : Store) (item : TmrPtr) (reallocOk : Bool) : Store × Int :=
  let r := ensurecapacity s reallocOk
  if r.2 ≠ 0 then (r.1, -1)
  else (offerx r.1 item, 0)

/-- `heap_poll`. -/
def heapPoll (s : Store) : Store × Option TmrPtr :=
  if s.count = 0 then (s, none)
  else
    let item := s.array 0
    let s := s.setIdx item (-1)
    let s := s.setSlot 0 (s.array (dec32 s.count))
    let s := s.setIdx (s.array 0) 0
    let s := { s with count := dec32 s.count }
    if s.count > 1 then (pushdown s 0, some item) else (s, some item)

/-- `heap_peek`. -/
def heapPeek (s : Store) : Option TmrPtr :=
  if s.count = 0 then none else some (s.array 0)

/-- `heap_remove_item`. The slot of a timer in the last position is also the
    slot the last timer is moved to, so its `heap_idx` is written back. -/
def heapRemoveItem (s : Store) (item : TmrPtr) : Store :=
  let idx := (s.tmr item).heapIdx
  let s := s.setIdx item (-1)
  if idx = -1 then s
  else
    let i := idx.toNat
    let last := dec32 s.count
    let s := s.setSlot i (s.array last)
    let s := s.setIdx (s.array i) i
    let s := s.setSlot last deadBeef
    let s := { s with count := last }
    if i ≠ s.count then
      if s.key i ≥ s.key (parent i) then pushdown s i
      else (pushup s i).1
    else s

/-- `heap_contains_item`. -/
def heapContainsItem (s : Store) (item : TmrPtr) : Bool := (s.tmr item).heapIdx ≠ -1

theorem childRight_lt_of_count (s : Store) (i : Nat) (hi : i < s.count)
    (hcount : s.count < 2 ^ 30) : childRight i < 2 ^ 31 := by
  unfold childRight
  omega

end TmrHeap

end SipPerf
