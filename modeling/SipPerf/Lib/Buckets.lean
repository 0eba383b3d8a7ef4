import Mathlib.Data.List.Nodup
import Mathlib.Logic.Function.Basic

/-!
# Tables of Buckets

A table that sorts its records into lists by a slot computed from each of
them, and looks for a record in one list only. The slot is a function of the
record, but not of the record alone: it may depend on something the record
refers to, so it is given beside the table and not by it.

`Filed` says that the table is in order. It holds the records of a given set,
each once, and each in its own slot. A search by a test then finds a record of
the set that passes, as long as whatever passes the test belongs into the slot
that is searched.

## Main definitions

* `Buckets`: The table.
* `append`, `unlink`, `lookup`: The operations.
* `Filed`: The table holds a set of records, each in its slot.

## Theorems

* `filed_append`: A new record is filed.
* `filed_unlink`: A record is taken out.
* `lookup_eq_some`: What a search finds.
* `lookup_of_live`: A search finds something if there is something to find.
-/

namespace SipPerf

/-- A list of records for each slot. -/
structure Buckets (κ α : Type*) where
  bucket : κ → List α

namespace Buckets

variable {κ α : Type*}

def empty : Buckets κ α := ⟨fun _ => []⟩

/-- File a record at the end of a slot. -/
def append [DecidableEq κ] (t : Buckets κ α) (i : κ) (a : α) : Buckets κ α :=
  ⟨Function.update t.bucket i (t.bucket i ++ [a])⟩

/-- Take a record out of the slot it is in. -/
def unlink [DecidableEq α] (t : Buckets κ α) (a : α) : Buckets κ α := ⟨fun i => (t.bucket i).erase a⟩

/-- The first record of a slot that passes the test. -/
def lookup (t : Buckets κ α) (i : κ) (test : α → Bool) : Option α := (t.bucket i).find? test

/-- The table holds the records of a set, each once and in its slot. -/
structure Filed (t : Buckets κ α) (slot : α → κ) (live : α → Prop) : Prop where
  nodup : ∀ i, (t.bucket i).Nodup
  mem : ∀ i a, a ∈ t.bucket i ↔ live a ∧ i = slot a

theorem filed_empty (slot : α → κ) : Filed (empty : Buckets κ α) slot (fun _ => False) := by
  refine ⟨fun _ => List.nodup_nil, fun i a => ?_⟩
  simp only [empty, List.not_mem_nil, false_and]

/-- The same set, and the same slots for what is in it. -/
theorem filed_congr (t : Buckets κ α) (slot slot' : α → κ) (live live' : α → Prop)
    (h : Filed t slot live) (hlive : ∀ a, live' a ↔ live a) (hslot : ∀ a, live a → slot' a = slot a) :
    Filed t slot' live' := by
  refine ⟨h.nodup, fun i a => ?_⟩
  rw [h.mem, hlive]
  constructor
  · intro ha
    exact ⟨ha.1, ha.2.trans (hslot a ha.1).symm⟩
  · intro ha
    exact ⟨ha.1, ha.2.trans (hslot a ha.1)⟩

theorem filed_append [DecidableEq κ] (t : Buckets κ α) (slot : α → κ) (live : α → Prop) (a : α)
    (h : Filed t slot live) (hnew : ¬ live a) :
    Filed (append t (slot a) a) slot (fun b => live b ∨ b = a) := by
  -- A record that is new is in no list at all.
  have hout : ∀ i, a ∉ t.bucket i := fun i hc => hnew ((h.mem i a).mp hc).1
  refine ⟨fun i => ?_, fun i b => ?_⟩
  · by_cases hi : i = slot a
    · simp only [append, hi, Function.update_self]
      exact List.Nodup.append (h.nodup _) (List.nodup_singleton a)
        (List.disjoint_singleton.mpr (hout _))
    · simp only [append, Function.update_of_ne hi]
      exact h.nodup i
  · by_cases hi : i = slot a
    · simp only [append, hi, Function.update_self, List.mem_append, List.mem_singleton, h.mem]
      constructor
      · rintro (⟨hb, hs⟩ | hb)
        · exact ⟨Or.inl hb, hs⟩
        · exact ⟨Or.inr hb, by rw [hb]⟩
      · rintro ⟨hb | hb, hs⟩
        · exact Or.inl ⟨hb, hs⟩
        · exact Or.inr hb
    · simp only [append, Function.update_of_ne hi, h.mem]
      constructor
      · rintro ⟨hb, hs⟩
        exact ⟨Or.inl hb, hs⟩
      · rintro ⟨hb | hb, hs⟩
        · exact ⟨hb, hs⟩
        · rw [hb] at hs
          exact absurd hs hi

theorem filed_unlink [DecidableEq α] (t : Buckets κ α) (slot : α → κ) (live : α → Prop) (a : α)
    (h : Filed t slot live) : Filed (unlink t a) slot (fun b => live b ∧ b ≠ a) := by
  refine ⟨fun i => (h.nodup i).erase a, fun i b => ?_⟩
  simp only [unlink, (h.nodup i).mem_erase_iff, h.mem]
  constructor
  · rintro ⟨hne, hb, hs⟩
    exact ⟨⟨hb, hne⟩, hs⟩
  · rintro ⟨⟨hb, hne⟩, hs⟩
    exact ⟨hne, hb, hs⟩

/-- What a search finds is in the set and passes the test. -/
theorem lookup_eq_some (t : Buckets κ α) (slot : α → κ) (live : α → Prop) (h : Filed t slot live)
    (i : κ) (test : α → Bool) (a : α) (ha : lookup t i test = some a) :
    live a ∧ test a = true :=
  ⟨((h.mem i a).mp (List.mem_of_find?_eq_some ha)).1, List.find?_some ha⟩

/-- A search finds something if the set has something that passes the test and
    the test leads to the right slot. -/
theorem lookup_of_live (t : Buckets κ α) (slot : α → κ) (live : α → Prop) (h : Filed t slot live)
    (i : κ) (test : α → Bool) (a : α) (ha : live a) (htest : test a = true) (hslot : slot a = i) :
    ∃ b, lookup t i test = some b := by
  -- The record itself is in the list that is searched.
  refine Option.isSome_iff_exists.mp (List.find?_isSome.mpr ⟨a, ?_, htest⟩)
  exact (h.mem i a).mpr ⟨ha, hslot.symm⟩

end Buckets

end SipPerf
