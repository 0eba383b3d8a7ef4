import Mathlib.Algebra.BigOperators.Group.Finset.Basic
import Mathlib.Algebra.Order.BigOperators.Group.Finset
import Mathlib.Tactic.NormNum

/-!
# Repetition with Growing Delays

Something is done at once and then repeated by a timer. Each time the timer
fires, it is started again with a delay that depends on how often it has fired
before. A timer never fires early, so a repetition comes no earlier than the
sum of the delays before it, and a limit on the time is a limit on the number
of repetitions. That is `behind_bound`.

A timer may fire late, and the next delay then counts from when it did. With a
bound on how late it can be, the repetitions do not come much later than the
sum either. That is `Within`, for an accumulated time that the caller keeps
track of.

## Main definitions

* `elapsed`: The sum of the first delays.
* `Behind`: The next repetition comes no earlier than it should.
* `Within`: It comes no later than it should, but for the lateness so far.

## Theorems

* `behind_start`, `behind_next`: The first deadline, and the next.
* `behind_bound`: A limit on the time bounds the number of repetitions.
* `within_start`, `within_next`: The same for lateness.
-/

namespace SipPerf

namespace Backoff

/-- The sum of the first `k` delays. -/
def elapsed (delay : Nat → Nat) (k : Nat) : Nat := ∑ i ∈ Finset.range k, delay i

theorem elapsed_mono (delay : Nat → Nat) (k n : Nat) (h : k ≤ n) :
    elapsed delay k ≤ elapsed delay n :=
  Finset.sum_le_sum_of_subset (Finset.range_subset_range.mpr h)

/-- After `k` repetitions the timer is not due before all delays so far have
    passed. -/
def Behind (delay : Nat → Nat) (start k deadline : Nat) : Prop :=
  start + elapsed delay (k + 1) ≤ deadline

theorem behind_start (delay : Nat → Nat) (start d : Nat) (h : delay 0 ≤ d) :
    Behind delay start 0 (start + d) := by
  unfold Behind elapsed
  rw [Finset.sum_range_one]
  omega

/-- The timer has fired at or after its deadline and is started again with the
    next delay, or with a longer one. -/
theorem behind_next (delay : Nat → Nat) (start k deadline now d : Nat)
    (h : Behind delay start k deadline) (hnow : deadline ≤ now) (hd : delay (k + 1) ≤ d) :
    Behind delay start (k + 1) (now + d) := by
  unfold Behind elapsed at h ⊢
  rw [Finset.sum_range_succ]
  omega

/-- A timer that is due within the limit has not fired often yet. -/
theorem behind_bound (delay : Nat → Nat) (start k deadline limit n : Nat)
    (h : Behind delay start k deadline) (hlimit : deadline ≤ start + limit)
    (hn : limit < elapsed delay n) : k + 1 < n := by
  by_contra hc
  -- After `n` repetitions more time has passed than the limit allows.
  have hmono := elapsed_mono delay n (k + 1) (by omega)
  unfold Behind at h
  omega

/-- The deadline is what it should be, plus at most the lateness of the firings
    so far. -/
def Within (start due k late deadline : Nat) : Prop := deadline ≤ start + due + k * late

theorem within_start (start d late : Nat) : Within start d 0 late (start + d) := by
  unfold Within
  omega

/-- The timer has fired no more than `late` after its deadline. -/
theorem within_next (start due k late deadline now d : Nat)
    (h : Within start due k late deadline) (hnow : now ≤ deadline + late) :
    Within start (due + d) (k + 1) late (now + d) := by
  unfold Within at h ⊢
  rw [Nat.add_mul]
  omega

end Backoff

end SipPerf
