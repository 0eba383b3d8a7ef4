import SipPerf.Core.LinkedList

/-!
# Hash Tables

The hash tables of `libre/src/hash/hash.c`: linked lists, one for each value of
the low bits of a key. Any number of tables share the memory and the elements,
and `ι` names them. That memory could not be allocated is left out.

## Main definitions

* `hashValidSize`: The size that a table gets.
* `Hash`, `hashAlloc`: A table.
* `hashAppend`, `hashUnlink`: An element is put into a table or taken out.
* `hashLookup`, `hashApply`, `hashFlush`, `hashClear`: The loops.
* `HashOp`, `hashStep`: Operations on any tables in any order.
-/

namespace SipPerf

namespace HashTable

open LinkedList

variable {ι α δ : Type*}

def einval : Nat := 22

/-- The loop of `hash_valid_size`, with how often it can still go round. -/
def validShift (size : Nat) : Nat → Nat → Nat
  | 0, x => x
  | n + 1, x => if 1 <<< x < size then validShift size n (x + 1) else x

/-- `hash_valid_size`. -/
def hashValidSize (size : Nat) : Nat := 1 <<< validShift size 31 0

/-- `hash`, with what `hash_alloc` has made sure of. -/
structure Hash where
  bsize : Nat
  size_pos : bsize ≠ 0
  size_pow : bsize &&& (bsize - 1) = 0

/-- `hash_alloc`. -/
def hashAlloc (bsize : Nat) : Except Nat Hash :=
  if hpos : bsize = 0 then .error einval
  else if hpow : bsize &&& (bsize - 1) = 0 then .ok ⟨bsize, hpos, hpow⟩
  else .error einval

/-- The bucket for a key. -/
def Hash.slot (h : Hash) (key : Nat) : Nat := key &&& (h.bsize - 1)

section Memory

variable [DecidableEq ι] [DecidableEq α]

/-- `hash_append`. -/
def hashAppend (h : Hash) (i : ι) (m : Mem α (ι × Nat) δ) (key : Nat) (e : α) (data : Option δ) :
    Mem α (ι × Nat) δ :=
  listAppend m (i, h.slot key) e data

/-- `hash_unlink`. -/
def hashUnlink (m : Mem α (ι × Nat) δ) (e : α) : Mem α (ι × Nat) δ := listUnlink m e

/-- `hash_lookup`. -/
def hashLookup {σ : Type*} (h : Hash) (i : ι)
    (ah : α → Mem α (ι × Nat) δ → σ → (Mem α (ι × Nat) δ × σ) × Bool) (fuel : Nat)
    (m : Mem α (ι × Nat) δ) (key : Nat) (s : σ) : Option ((Mem α (ι × Nat) δ × σ) × Option α) :=
  listApply ah true fuel m (i, h.slot key) s

/-- The loop of `hash_apply` over so many buckets from one on. -/
def applyBuckets {σ : Type*} (i : ι)
    (ah : α → Mem α (ι × Nat) δ → σ → (Mem α (ι × Nat) δ × σ) × Bool) (fuel : Nat) :
    Nat → Nat → Mem α (ι × Nat) δ → σ → Option ((Mem α (ι × Nat) δ × σ) × Option α)
  | 0, _, m, s => some ((m, s), none)
  | n + 1, b, m, s => match listApply ah true fuel m (i, b) s with
    | none => none
    -- The handler has ended the loop, and no other bucket is looked at.
    | some (r, some le) => some (r, some le)
    | some (r, none) => applyBuckets i ah fuel n (b + 1) r.1 r.2

/-- `hash_apply`. -/
def hashApply {σ : Type*} (h : Hash) (i : ι)
    (ah : α → Mem α (ι × Nat) δ → σ → (Mem α (ι × Nat) δ × σ) × Bool) (fuel : Nat)
    (m : Mem α (ι × Nat) δ) (s : σ) : Option ((Mem α (ι × Nat) δ × σ) × Option α) :=
  applyBuckets i ah fuel h.bsize 0 m s

/-- The loop of `hash_flush` over so many buckets from one on, with the data it
    lets go of. -/
def flushBuckets (i : ι) (fuel : Nat) :
    Nat → Nat → Mem α (ι × Nat) δ → Option (Mem α (ι × Nat) δ × List (Option δ))
  | 0, _, m => some (m, [])
  | n + 1, b, m => match listFlush fuel m (i, b) with
    | none => none
    | some r => match flushBuckets i fuel n (b + 1) r.1 with
      | none => none
      | some r' => some (r'.1, r.2 ++ r'.2)

/-- `hash_flush`, with the data it lets go of. -/
def hashFlush (h : Hash) (i : ι) (fuel : Nat) (m : Mem α (ι × Nat) δ) :
    Option (Mem α (ι × Nat) δ × List (Option δ)) :=
  flushBuckets i fuel h.bsize 0 m

/-- The loop of `hash_clear` over so many buckets from one on. -/
def clearBuckets (i : ι) (fuel : Nat) :
    Nat → Nat → Mem α (ι × Nat) δ → Option (Mem α (ι × Nat) δ)
  | 0, _, m => some m
  | n + 1, b, m => match listClear fuel m (i, b) with
    | none => none
    | some m' => clearBuckets i fuel n (b + 1) m'

/-- `hash_clear`. -/
def hashClear (h : Hash) (i : ι) (fuel : Nat) (m : Mem α (ι × Nat) δ) :
    Option (Mem α (ι × Nat) δ) :=
  clearBuckets i fuel h.bsize 0 m

/-- An operation on a table or on an element. -/
inductive HashOp (ι α δ : Type*) where
  | append (i : ι) (key : Nat) (e : α) (data : Option δ)
  | unlink (e : α)

/-- One operation on tables of given sizes. -/
def hashStep (table : ι → Hash) (m : Mem α (ι × Nat) δ) : HashOp ι α δ → Mem α (ι × Nat) δ
  | .append i key e data => hashAppend (table i) i m key e data
  | .unlink e => hashUnlink m e

end Memory

end HashTable

end SipPerf
