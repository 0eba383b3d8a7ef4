import Mathlib.Data.Nat.Bitwise
import SipPerf.Core.HashTable
import SipPerf.Theory.LinkedList

/-!
# What Hash Tables Hold

A table stands for the list of what was put into it and is still linked, in the
order in which that happened. A bucket is the part of this list whose keys have
the same low bits, so a search by a test that only elements with the searched
key pass finds the first element of the whole table that passes. That a table
is searched in a list of everything in it is how the modules about transactions
and dialogs see it.

The sizes are powers of two, so the low bits of a key are its remainder.

## Main definitions

* `Entry`, `tableStep`: What was put into the tables, and one operation on it.
* `Holds`: The memory stands for entries.
* `Emptied`: Some buckets of a table have let go of their elements.

## Theorems

* `hash_valid_size_fits`: A size that a table can have.
* `slot_lt`: Every key has a bucket.
* `hashStep_holds`: One operation.
* `hash_lookup_finds_first`: What a search finds.
* `hash_apply_visits_all`: What a loop over a table passes.
* `hash_flush_empties`: What is left of a table that is flushed or cleared.
-/

namespace SipPerf

namespace HashTable

open LinkedList Chain

/-! ## Sizes -/

theorem validShift_spec (size : Nat) (n : Nat) : ∀ (x : Nat), (∀ y < x, 1 <<< y < size) →
    validShift size n x ≤ x + n ∧ (∀ y < validShift size n x, 1 <<< y < size) ∧
      (validShift size n x = x + n ∨ size ≤ 1 <<< validShift size n x) := by
  induction n with
  | zero =>
      intro x h
      exact ⟨Nat.le_refl _, h, Or.inl rfl⟩
  | succ n ih =>
      intro x h
      rw [validShift]
      split
      next hlt =>
        -- One round more: all shifts up to this one are too small.
        have hnext : ∀ y < x + 1, 1 <<< y < size := by
          intro y hy
          rcases Nat.lt_succ_iff_lt_or_eq.mp hy with hy | hy
          · exact h y hy
          · rw [hy]
            exact hlt
        rcases ih (x + 1) hnext with ⟨h1, h2, h3⟩
        refine ⟨by omega, h2, ?_⟩
        rcases h3 with h3 | h3
        · exact Or.inl (by omega)
        · exact Or.inr h3
      next hge => exact ⟨by omega, h, Or.inr (Nat.le_of_not_lt hge)⟩

theorem hashAlloc_pow (x : Nat) : ∃ h, hashAlloc (2 ^ x) = .ok h ∧ h.bsize = 2 ^ x := by
  have hpos : 2 ^ x ≠ 0 := Nat.ne_of_gt (Nat.two_pow_pos x)
  have hpow : 2 ^ x &&& (2 ^ x - 1) = 0 := by
    rw [Nat.and_two_pow_sub_one_eq_mod, Nat.mod_self]
  refine ⟨⟨2 ^ x, hpos, hpow⟩, ?_, rfl⟩
  rw [hashAlloc, dif_neg hpos, dif_pos hpow]

/-- A table can have the size that is made valid, which is the least power of
    two that is not smaller than what was asked for, or the greatest one there
    is, `2 ^ 31`. -/
theorem hash_valid_size_fits (size : Nat) :
    (∃ h, hashAlloc (hashValidSize size) = .ok h ∧ h.bsize = hashValidSize size) ∧
      hashValidSize size ≤ 2 ^ 31 ∧ (size ≤ 2 ^ 31 → size ≤ hashValidSize size) ∧
      (2 ^ 31 < size → hashValidSize size = 2 ^ 31) ∧
      ∀ x, size ≤ 2 ^ x → hashValidSize size ≤ 2 ^ x := by
  rcases validShift_spec size 31 0 (fun y hy => absurd hy (Nat.not_lt_zero y)) with ⟨h1, h2, h3⟩
  have hsize : hashValidSize size = 2 ^ validShift size 31 0 := Nat.one_shiftLeft _
  rw [hsize]
  have hmax : 2 ^ validShift size 31 0 ≤ 2 ^ 31 := Nat.pow_le_pow_right (by decide) (by omega)
  refine ⟨hashAlloc_pow _, hmax, fun hle => ?_, fun hlt => ?_, fun x hx => ?_⟩
  · rcases h3 with h3 | h3
    · rw [h3]
      exact hle
    · rwa [Nat.one_shiftLeft] at h3
  · -- The loop has ended because it must, not because the size was reached.
    rcases h3 with h3 | h3
    · rw [h3]
    · rw [Nat.one_shiftLeft] at h3
      omega
  · refine Nat.pow_le_pow_right (by decide) (Nat.le_of_not_lt (fun hc => ?_))
    have hlt := h2 x hc
    rw [Nat.one_shiftLeft] at hlt
    omega

theorem Hash.bsize_pow (h : Hash) : ∃ x, h.bsize = 2 ^ x :=
  (Nat.and_sub_one_eq_zero_iff_isPowerOfTwo h.size_pos).mp h.size_pow

/-- The low bits of a key are its remainder. -/
theorem slot_eq_mod (h : Hash) (key : Nat) : h.slot key = key % h.bsize := by
  rcases h.bsize_pow with ⟨x, hx⟩
  rw [Hash.slot, hx, Nat.and_two_pow_sub_one_eq_mod]

theorem slot_lt (h : Hash) (key : Nat) : h.slot key < h.bsize := by
  rw [slot_eq_mod]
  exact Nat.mod_lt key (Nat.pos_of_ne_zero h.size_pos)

variable {ι α δ : Type*}

theorem applyBuckets_collect (m : Mem α (ι × Nat) δ) (a : Lists α (ι × Nat) δ) (h : Repr m a)
    (i : ι) (fuel : Nat) (hfuel : ∀ b, (a.chain (i, b)).length ≤ fuel) (n : Nat) :
    ∀ (b : Nat) (seen : List α), applyBuckets i collect fuel n b m seen =
      some ((m, seen ++ (List.range' b n).flatMap (fun b => a.chain (i, b))), none) := by
  induction n with
  | zero =>
      intro b seen
      rw [List.range'_zero, List.flatMap_nil, List.append_nil]
      rfl
  | succ n ih =>
      intro b seen
      have hone := listApply_visit collect true (i, b) (collect_leavesRest true (i, b)) m a seen fuel
        h (hfuel b)
      rw [visit_collect, along, if_pos rfl] at hone
      simp only [applyBuckets, hone]
      rw [ih, List.range'_succ, List.flatMap_cons, List.append_assoc]

/-! ## Entries -/

/-- An element that was put into a table under a key. -/
structure Entry (ι α : Type*) where
  table : ι
  key : Nat
  le : α
deriving DecidableEq

section Tables

variable [DecidableEq ι]

/-- The elements of a bucket. -/
def bucket (table : ι → Hash) (es : List (Entry ι α)) (i : ι) (b : Nat) : List α :=
  (es.filter (fun t => t.table = i ∧ (table i).slot t.key = b)).map Entry.le

/-- The elements of a table. -/
def elements (es : List (Entry ι α)) (i : ι) : List α :=
  (es.filter (fun t => t.table = i)).map Entry.le

theorem mem_bucket (table : ι → Hash) (es : List (Entry ι α)) (i : ι) (b : Nat) (e : α) :
    e ∈ bucket table es i b ↔
      ∃ t ∈ es, t.table = i ∧ (table i).slot t.key = b ∧ t.le = e := by
  simp only [bucket, List.mem_map, List.mem_filter, decide_eq_true_eq, and_assoc]

theorem bucket_append (table : ι → Hash) (es : List (Entry ι α)) (t : Entry ι α) (i : ι) (b : Nat) :
    bucket table (es ++ [t]) i b = bucket table es i b ++
      if t.table = i ∧ (table i).slot t.key = b then [t.le] else [] := by
  simp only [bucket, List.filter_append, List.map_append, List.filter_singleton]
  congr 1
  by_cases h : t.table = i ∧ (table i).slot t.key = b
  · simp only [h, and_self, decide_true, cond_true, List.map_cons, List.map_nil, if_true]
  · simp only [h, decide_false, cond_false, List.map_nil, if_false]

/-- The memory stands for the entries. -/
structure Holds (table : ι → Hash) (m : Mem α (ι × Nat) δ) (a : Lists α (ι × Nat) δ)
    (es : List (Entry ι α)) : Prop where
  repr : Repr m a
  chain : ∀ i b, a.chain (i, b) = bucket table es i b
  nodup : (es.map Entry.le).Nodup

/-- All buckets of a list together. -/
theorem buckets_perm {β : Type*} (f : β → Nat) (l : List β) (n : Nat) :
    List.Perm ((List.range n).flatMap (fun b => l.filter (fun t => f t = b)))
      (l.filter (fun t => f t < n)) := by
  induction n with
  | zero =>
      simp only [List.range_zero, List.flatMap_nil, Nat.not_lt_zero, decide_false,
        List.filter_false]
      exact List.Perm.refl _
  | succ n ih =>
      -- What is below `n + 1` is below `n` or equal to it.
      have hsplit := List.filter_append_perm (fun t => decide (f t < n))
        (l.filter (fun t => f t < n + 1))
      rw [List.filter_filter, List.filter_filter] at hsplit
      have hlow : l.filter (fun t => decide (f t < n) && decide (f t < n + 1)) =
          l.filter (fun t => f t < n) :=
        List.filter_congr (fun t _ => by
          rw [← Bool.decide_and]
          exact decide_eq_decide.mpr (by omega))
      have hhigh : l.filter (fun t => !decide (f t < n) && decide (f t < n + 1)) =
          l.filter (fun t => f t = n) :=
        List.filter_congr (fun t _ => by
          rw [← decide_not, ← Bool.decide_and]
          exact decide_eq_decide.mpr (by omega))
      rw [hlow, hhigh] at hsplit
      rw [List.range_succ, List.flatMap_append, List.flatMap_singleton]
      exact (ih.append_right _).trans hsplit

/-- The buckets of a table together. -/
theorem table_perm (table : ι → Hash) (es : List (Entry ι α)) (i : ι) :
    List.Perm ((List.range (table i).bsize).flatMap (bucket table es i)) (elements es i) := by
  have hperm := (buckets_perm (fun t => (table i).slot t.key) (es.filter (fun t => t.table = i))
    (table i).bsize).map Entry.le
  -- Every key has a slot in the table, so the bound filters nothing.
  have hall : (es.filter (fun t => t.table = i)).filter
      (fun t => (table i).slot t.key < (table i).bsize) = es.filter (fun t => t.table = i) :=
    List.filter_eq_self.mpr (fun t _ => decide_eq_true (slot_lt (table i) t.key))
  rw [hall, List.map_flatMap] at hperm
  refine List.Perm.trans (List.Perm.of_eq ?_) hperm
  refine congrArg (fun g => (List.range (table i).bsize).flatMap g) (funext fun b => ?_)
  rw [bucket, List.filter_filter]
  refine congrArg (List.map Entry.le) (List.filter_congr (fun t _ => ?_))
  rw [Bool.decide_and, Bool.and_comm]

theorem zeroed_holds (table : ι → Hash) :
    Holds table (zeroed : Mem α (ι × Nat) δ) emptyLists [] :=
  ⟨zeroed_repr, fun _ _ => rfl, List.nodup_nil⟩

theorem bucket_length (table : ι → Hash) (es : List (Entry ι α)) (i : ι) (b : Nat) :
    (bucket table es i b).length ≤ es.length := by
  rw [bucket, List.length_map]
  exact List.length_filter_le _ es

/-- Only elements of one bucket pass the test. -/
theorem find_bucket (table : ι → Hash) (i : ι) (b : Nat) (test : α → Bool) (es : List (Entry ι α))
    (h : ∀ t ∈ es, t.table = i → test t.le = true → (table i).slot t.key = b) :
    (bucket table es i b).find? test = (elements es i).find? test := by
  induction es with
  | nil => rfl
  | cons t es ih =>
      have hrest := ih (fun t' ht' => h t' (List.mem_cons_of_mem t ht'))
      have hself := h t List.mem_cons_self
      simp only [bucket, elements, List.filter_cons] at hrest ⊢
      by_cases hi : t.table = i
      · by_cases hb : (table i).slot t.key = b
        · simp only [hi, hb, and_self, decide_true, if_true, List.map_cons, List.find?_cons, hrest]
        -- An element of another bucket would fail the test.
        · have hfail : test t.le = false := by
            cases htest : test t.le with
            | false => rfl
            | true => exact absurd (hself hi htest) hb
          simp only [hi, hb, and_false, decide_false, Bool.false_eq_true, if_false, decide_true,
            if_true, List.map_cons, List.find?_cons, hfail]
          exact hrest
      · simp only [hi, false_and, decide_false, Bool.false_eq_true, if_false]
        exact hrest

/-- An element is in a list if it is in a table. -/
theorem Holds.owner {table : ι → Hash} {m : Mem α (ι × Nat) δ} {a : Lists α (ι × Nat) δ}
    {es : List (Entry ι α)} (h : Holds table m a es) (e : α) :
    (a.owner e).isSome = true ↔ e ∈ es.map Entry.le := by
  rw [Option.isSome_iff_exists, List.mem_map]
  constructor
  · rintro ⟨⟨i, b⟩, hk⟩
    have hin := (h.repr.owner (i, b) e).mpr ((h.repr.list e).trans hk)
    rw [h.chain, mem_bucket] at hin
    rcases hin with ⟨t, ht, _, _, hle⟩
    exact ⟨t, ht, hle⟩
  · rintro ⟨t, ht, hle⟩
    have hin : e ∈ a.chain (t.table, (table t.table).slot t.key) := by
      rw [h.chain, mem_bucket]
      exact ⟨t, ht, rfl, rfl, hle⟩
    exact ⟨_, (h.repr.list e).symm.trans ((h.repr.owner _ e).mp hin)⟩

variable [DecidableEq α]

/-- One operation on what is in the tables. An element that is in one is not
    put into another. -/
def tableStep (es : List (Entry ι α)) : HashOp ι α δ → List (Entry ι α)
  | .append i key e _ => if es.any (fun t => t.le = e) then es else es ++ [⟨i, key, e⟩]
  | .unlink e => es.filter (fun t => t.le ≠ e)

theorem bucket_filter (table : ι → Hash) (es : List (Entry ι α)) (e : α) (i : ι) (b : Nat) :
    bucket table (es.filter (fun t => t.le ≠ e)) i b =
      (bucket table es i b).filter (fun x => x ≠ e) := by
  simp only [bucket, List.filter_map, List.filter_filter]
  congr 1
  refine List.filter_congr (fun t _ => ?_)
  simp only [Function.comp, Bool.and_comm]

theorem hashAppend_holds (table : ι → Hash) (m : Mem α (ι × Nat) δ) (a : Lists α (ι × Nat) δ)
    (es : List (Entry ι α)) (i : ι) (key : Nat) (e : α) (data : Option δ) (h : Holds table m a es) :
    ∃ a', Holds table (hashAppend (table i) i m key e data) a'
      (tableStep es (.append i key e data)) := by
  have hrepr := listAppend_repr m a (i, (table i).slot key) e data h.repr
  have hany : es.any (fun t => t.le = e) = true ↔ e ∈ es.map Entry.le := by
    simp only [List.any_eq_true, List.mem_map, decide_eq_true_eq]
  refine ⟨_, hrepr, fun i' b => ?_, ?_⟩
  -- An element in some table is left where it is, by both sides.
  · by_cases hown : (a.owner e).isSome = true
    · rw [Lists.place, if_pos hown, tableStep, if_pos (hany.mpr ((h.owner e).mp hown))]
      exact h.chain i' b
    · rw [Lists.place, if_neg hown, tableStep, if_neg (fun hc => hown ((h.owner e).mpr (hany.mp hc))),
        bucket_append, ← h.chain]
      by_cases hk : (i', b) = (i, (table i).slot key)
      · rw [Prod.mk.injEq] at hk
        rw [hk.1, hk.2]
        simp only [Function.update_self, and_self, if_true]
      · have hk' : ¬ (i = i' ∧ (table i').slot key = b) := by
          rintro ⟨h1, h2⟩
          exact hk (by rw [← h2, ← h1])
        simp only [Function.update_of_ne hk, hk', if_false, List.append_nil]
  · rw [tableStep]
    split
    · exact h.nodup
    next hnew =>
      rw [List.map_append, List.map_singleton]
      exact List.Nodup.append h.nodup (List.nodup_singleton e)
        (List.disjoint_singleton.mpr (fun hc => hnew (hany.mpr hc)))

/-- What is left of a list. -/
theorem remove_chain (m : Mem α (ι × Nat) δ) (a : Lists α (ι × Nat) δ) (h : Repr m a) (e : α)
    (k : ι × Nat) : (a.remove e).chain k = (a.chain k).filter (fun x => x ≠ e) := by
  -- A list without the element loses nothing.
  have hsame (hout : e ∉ a.chain k) : a.chain k = (a.chain k).filter (fun x => x ≠ e) := by
    rw [List.filter_eq_self.mpr]
    intro x hx
    exact decide_eq_true (fun hc => hout (hc ▸ hx))
  cases hown : a.owner e with
  | none =>
      rw [Lists.remove, hown]
      refine hsame (fun hc => ?_)
      rw [h.owner, h.list, hown] at hc
      exact absurd hc.symm (Option.some_ne_none k)
  | some k' =>
      rw [Lists.remove, hown]
      by_cases hk : k = k'
      · rw [hk]
        simp only [Function.update_self]
        rw [(h.nodup k').erase_eq_filter]
        exact List.filter_congr (fun x _ => by simp only [ne_eq, decide_not]; rfl)
      · simp only [Function.update_of_ne hk]
        refine hsame (fun hc => ?_)
        rw [h.owner, h.list, hown, Option.some.injEq] at hc
        exact hk hc.symm

theorem hashUnlink_holds (table : ι → Hash) (m : Mem α (ι × Nat) δ) (a : Lists α (ι × Nat) δ)
    (es : List (Entry ι α)) (e : α) (h : Holds table m a es) :
    Holds table (hashUnlink m e) (a.remove e) (tableStep es (.unlink e : HashOp ι α δ)) := by
  refine ⟨listUnlink_repr m a e h.repr, fun i b => ?_, ?_⟩
  · rw [remove_chain m a h.repr, h.chain, tableStep, bucket_filter]
  · exact h.nodup.sublist (List.filter_sublist.map Entry.le)

theorem hashStep_holds (table : ι → Hash) (m : Mem α (ι × Nat) δ) (a : Lists α (ι × Nat) δ)
    (es : List (Entry ι α)) (op : HashOp ι α δ) (h : Holds table m a es) :
    ∃ a', Holds table (hashStep table m op) a' (tableStep es op) := by
  cases op with
  | append i key e data => exact hashAppend_holds table m a es i key e data h
  | unlink e => exact ⟨_, hashUnlink_holds table m a es e h⟩

/-- Any operations in any order. -/
theorem run_holds (table : ι → Hash) (ops : List (HashOp ι α δ)) : ∀ (m : Mem α (ι × Nat) δ)
    (a : Lists α (ι × Nat) δ) (es : List (Entry ι α)), Holds table m a es →
    ∃ a', Holds table (ops.foldl (hashStep table) m) a' (ops.foldl tableStep es) := by
  induction ops with
  | nil =>
      intro m a es h
      exact ⟨a, h⟩
  | cons op ops ih =>
      intro m a es h
      rcases hashStep_holds table m a es op h with ⟨a1, h1⟩
      exact ih _ a1 _ h1

/-! ## Searches -/

/-- After any operations on any tables, a search finds the first element of all
    that were put into the table and are still linked, of those that pass the
    test, if only elements with the searched key, or one that shares its
    bucket, can pass. -/
theorem hash_lookup_finds_first (table : ι → Hash) (ops : List (HashOp ι α δ)) (i : ι) (key : Nat)
    (test : α → Bool) (fuel : Nat) (hfuel : (ops.foldl tableStep []).length ≤ fuel)
    (htest : ∀ t ∈ ops.foldl tableStep [], t.table = i → test t.le = true →
      (table i).slot t.key = (table i).slot key) :
    hashLookup (table i) i (fun x m s => ((m, s), test x)) fuel
        (ops.foldl (hashStep table) zeroed) key () =
      some ((ops.foldl (hashStep table) zeroed, ()),
        (elements (ops.foldl tableStep []) i).find? test) := by
  rcases run_holds table ops zeroed emptyLists [] (zeroed_holds table) with ⟨a, h⟩
  have hlen : (a.chain (i, (table i).slot key)).length ≤ fuel := by
    rw [h.chain]
    exact Nat.le_trans (bucket_length table _ i _) hfuel
  rw [hashLookup, listApply_visit _ true _ (test_leavesRest test true _) _ a () fuel h.repr hlen,
    visit_find, along, if_pos rfl, h.chain, find_bucket table i _ test _ htest]

/-- Calls of two parties and a table of one bucket for something else. -/
def someTables : Bool → Hash
  | true => ⟨4, by decide, by decide⟩
  | false => ⟨1, by decide, by decide⟩

def someOps : List (HashOp Bool Nat Nat) :=
  [.append true 6 60 none, .append true 2 20 none, .append false 2 21 none, .append true 10 20 none,
    .append true 2 22 none, .unlink 60]

/-- The keys 6 and 2 share a bucket. -/
theorem hash_lookup_finds_first_some :
    hashLookup (someTables true) true (fun x m s => ((m, s), x / 10 == 2)) 5
        (someOps.foldl (hashStep someTables) zeroed) 2 () =
      some ((someOps.foldl (hashStep someTables) zeroed, ()),
        (elements (someOps.foldl tableStep []) true).find? (fun x => x / 10 == 2)) :=
  hash_lookup_finds_first someTables someOps true 2 (fun x => x / 10 == 2) 5 (by decide) (by decide)

example : elements (someOps.foldl tableStep []) true = [20, 22] := by decide

/-! ## Loops over a table -/

/-- After any operations on any tables, a loop over one table passes every
    element that was put into it and is still linked, and each of them once. -/
theorem hash_apply_visits_all (table : ι → Hash) (ops : List (HashOp ι α δ)) (i : ι) (fuel : Nat)
    (hfuel : (ops.foldl tableStep []).length ≤ fuel) :
    ∃ xs, hashApply (table i) i collect fuel (ops.foldl (hashStep table) zeroed) [] =
        some ((ops.foldl (hashStep table) zeroed, xs), none) ∧
      xs.Perm (elements (ops.foldl tableStep []) i) := by
  rcases run_holds table ops zeroed emptyLists [] (zeroed_holds table) with ⟨a, h⟩
  have hlen (b : Nat) : (a.chain (i, b)).length ≤ fuel := by
    rw [h.chain]
    exact Nat.le_trans (bucket_length table _ i b) hfuel
  refine ⟨_, applyBuckets_collect _ a h.repr i fuel hlen (table i).bsize 0 [], ?_⟩
  rw [List.nil_append, ← List.range_eq_range', funext (h.chain i)]
  exact table_perm table _ i

theorem hash_apply_visits_all_some :
    ∃ xs, hashApply (someTables true) true collect 5 (someOps.foldl (hashStep someTables) zeroed) [] =
        some ((someOps.foldl (hashStep someTables) zeroed, xs), none) ∧
      xs.Perm (elements (someOps.foldl tableStep []) true) :=
  hash_apply_visits_all someTables someOps true 5 (by decide)

/-- The memory once some buckets of a table have let go of these elements. -/
structure Emptied (i : ι) (m m' : Mem α (ι × Nat) δ) (ys : List α) : Prop where
  le : ∀ e, m'.le e = if e ∈ ys then ⟨none, none, none, none⟩ else m.le e
  others : ∀ k, k.1 ≠ i → m'.head k = m.head k ∧ m'.tail k = m.tail k

/-- Elements that are let go one bucket after the other. -/
theorem emptied_flushed (i : ι) (b : Nat) (m m' : Mem α (ι × Nat) δ) (xs ys : List α)
    (h : Emptied i (m.flushed (i, b) xs) m' ys) : Emptied i m m' (xs ++ ys) := by
  refine ⟨fun e => ?_, fun k hk => ?_⟩
  · rw [h.le e, Mem.flushed]
    by_cases hy : e ∈ ys
    · rw [if_pos hy, if_pos (List.mem_append_right xs hy)]
    · by_cases hx : e ∈ xs
      · simp only [if_neg hy, if_pos hx, if_pos (List.mem_append_left ys hx)]
      · simp only [List.mem_append, hx, hy, or_self, if_false]
  · have hne : k ≠ (i, b) := fun hc => hk (hc ▸ rfl)
    rcases h.others k hk with ⟨hhead, htail⟩
    rw [hhead, htail]
    exact ⟨Function.update_of_ne hne _ _, Function.update_of_ne hne _ _⟩

/-- The buckets of a table are flushed one after the other. -/
theorem flushBuckets_repr (i : ι) (fuel : Nat) (n : Nat) : ∀ (b : Nat) (m : Mem α (ι × Nat) δ)
    (a : Lists α (ι × Nat) δ), Repr m a → (∀ b, (a.chain (i, b)).length ≤ fuel) →
    ∃ m' a', flushBuckets i fuel n b m =
        some (m', ((List.range' b n).flatMap (fun b => a.chain (i, b))).map a.data) ∧
      Emptied i m m' ((List.range' b n).flatMap (fun b => a.chain (i, b))) ∧
      Repr m' a' ∧ ∀ i' b', a'.chain (i', b') =
        if i' = i ∧ b ≤ b' ∧ b' < b + n then [] else a.chain (i', b') := by
  induction n with
  | zero =>
      intro b m a h _
      refine ⟨m, a, rfl, ⟨fun e => ?_, fun k _ => ⟨rfl, rfl⟩⟩, h, fun i' b' => ?_⟩
      · simp only [List.range'_zero, List.flatMap_nil, List.not_mem_nil, if_false]
      · rw [if_neg (by omega)]
  | succ n ih =>
      intro b m a h hfuel
      have hflush := listFlush_eq m a (i, b) fuel h (hfuel b)
      have h1 := flushed_repr m a (i, b) h
      set m1 := m.flushed (i, b) (a.chain (i, b)) with hm1
      -- This bucket is empty after its turn, the others are as they were.
      have hchain (k : ι × Nat) : (a.flush (i, b)).chain k = if k = (i, b) then [] else a.chain k := by
        by_cases hk : k = (i, b)
        · rw [if_pos hk, hk]
          exact Function.update_self _ _ _
        · rw [if_neg hk]
          exact Function.update_of_ne hk _ _
      have hfuel1 (b' : Nat) : ((a.flush (i, b)).chain (i, b')).length ≤ fuel := by
        rw [hchain]
        split
        · exact Nat.zero_le fuel
        · exact hfuel b'
      rcases ih (b + 1) m1 _ h1 hfuel1 with ⟨m', a', hrest, hempty, h', hchain'⟩
      -- What comes after this bucket is not touched by it.
      have hsame : (List.range' (b + 1) n).flatMap (fun b' => (a.flush (i, b)).chain (i, b')) =
          (List.range' (b + 1) n).flatMap (fun b' => a.chain (i, b')) := by
        refine List.flatMap_congr (fun b' hb' => ?_)
        rw [List.mem_range'_1] at hb'
        rw [hchain, if_neg (fun hc => by rw [Prod.mk.injEq] at hc; omega)]
      -- Nor is the data of what comes after it.
      have hlater : ((List.range' (b + 1) n).flatMap (fun b' => a.chain (i, b'))).map
          (a.flush (i, b)).data =
          ((List.range' (b + 1) n).flatMap (fun b' => a.chain (i, b'))).map a.data := by
        refine List.map_congr_left (fun e he => ?_)
        rcases List.mem_flatMap.mp he with ⟨b', hb', hin⟩
        rw [List.mem_range'_1] at hb'
        have hout : e ∉ a.chain (i, b) := h.disjoint (i, b') (i, b)
          (fun hc => by rw [Prod.mk.injEq] at hc; omega) e hin
        rw [Lists.flush]
        exact if_neg hout
      rw [hsame] at hrest hempty
      refine ⟨m', a', ?_, ?_, h', fun i' b' => ?_⟩
      · simp only [flushBuckets, hflush, hrest]
        rw [hlater, List.range'_succ, List.flatMap_cons, List.map_append]
      · rw [List.range'_succ, List.flatMap_cons]
        exact emptied_flushed i b m m' _ _ hempty
      · rw [hchain', hchain]
        by_cases hi : i' = i
        · by_cases hb : b' = b
          · rw [if_neg (fun hc => by omega), if_pos (by rw [hi, hb]),
              if_pos ⟨hi, Nat.le_of_eq hb.symm, by omega⟩]
          · by_cases hin : b + 1 ≤ b' ∧ b' < b + 1 + n
            · rw [if_pos ⟨hi, hin⟩, if_pos ⟨hi, by omega, by omega⟩]
            · rw [if_neg (fun hc => hin hc.2), if_neg (fun hc => hb (Prod.mk.inj hc).2),
                if_neg (fun hc => hin ⟨by omega, by omega⟩)]
        · rw [if_neg (fun hc => hi hc.1), if_neg (fun hc => hi (Prod.mk.inj hc).1),
            if_neg (fun hc => hi hc.1)]

/-- Clearing the buckets is flushing them, without the data. -/
theorem clearBuckets_eq (i : ι) (fuel : Nat) (n : Nat) : ∀ (b : Nat) (m : Mem α (ι × Nat) δ),
    clearBuckets i fuel n b m = (flushBuckets i fuel n b m).map Prod.fst := by
  induction n with
  | zero =>
      intro b m
      rfl
  | succ n ih =>
      intro b m
      simp only [clearBuckets, flushBuckets, listClear]
      cases hone : listFlush fuel m (i, b) with
      | none => rfl
      | some r =>
          simp only [ih]
          cases flushBuckets i fuel n (b + 1) r.1 with
          | none => rfl
          | some r' => rfl

/-- After any operations on any tables, flushing one of them lets go of the data
    of every element in it, of each once, and leaves the table empty and the
    other tables and their elements as they were. Clearing it leaves the same
    memory. -/
theorem hash_flush_empties (table : ι → Hash) (ops : List (HashOp ι α δ)) (i : ι) (fuel : Nat)
    (hfuel : (ops.foldl tableStep []).length ≤ fuel) :
    ∃ m' a' released, hashFlush (table i) i fuel (ops.foldl (hashStep table) zeroed) =
        some (m', released) ∧
      hashClear (table i) i fuel (ops.foldl (hashStep table) zeroed) = some m' ∧
      released.Perm ((elements (ops.foldl tableStep []) i).map
        (fun e => ((ops.foldl (hashStep table) zeroed).le e).data)) ∧
      (∀ e, m'.le e = if e ∈ elements (ops.foldl tableStep []) i then ⟨none, none, none, none⟩
        else (ops.foldl (hashStep table) zeroed).le e) ∧
      (∀ k, k.1 ≠ i → m'.head k = (ops.foldl (hashStep table) zeroed).head k ∧
        m'.tail k = (ops.foldl (hashStep table) zeroed).tail k) ∧
      Holds table m' a' ((ops.foldl tableStep []).filter (fun t => t.table ≠ i)) := by
  rcases run_holds table ops zeroed emptyLists [] (zeroed_holds table) with ⟨a, h⟩
  have hlen (b : Nat) : (a.chain (i, b)).length ≤ fuel := by
    rw [h.chain]
    exact Nat.le_trans (bucket_length table _ i b) hfuel
  rcases flushBuckets_repr i fuel (table i).bsize 0 _ a h.repr hlen with
    ⟨m', a', hrun, hempty, h', hchain⟩
  -- Bucket after bucket is one order of the elements of the table.
  have hperm : ((List.range' 0 (table i).bsize).flatMap (fun b => a.chain (i, b))).Perm
      (elements (ops.foldl tableStep []) i) := by
    rw [← List.range_eq_range', funext (h.chain i)]
    exact table_perm table _ i
  refine ⟨m', a', _, hrun, ?_, ?_, fun e => ?_, hempty.others, h', fun i' b' => ?_,
    h.nodup.sublist (List.filter_sublist.map _)⟩
  · rw [hashClear, clearBuckets_eq, hrun]
    rfl
  · rw [funext h.repr.data]
    exact hperm.map a.data
  · rw [hempty.le e]
    simp only [hperm.mem_iff]
  -- No entry of the table is left for any of its buckets.
  · have hnone (b : Nat) : bucket table ((ops.foldl tableStep []).filter (fun t => t.table ≠ i)) i b =
        [] := by
      rw [bucket, List.filter_filter, List.map_eq_nil_iff, List.filter_eq_nil_iff]
      intro t _ hc
      rw [Bool.and_eq_true, decide_eq_true_eq, decide_eq_true_eq] at hc
      exact hc.2 hc.1.1
    rw [hchain]
    by_cases hi : i' = i
    · rw [hi, hnone]
      split
      · rfl
      next hb =>
        -- There is no such bucket.
        rw [h.chain, bucket, List.map_eq_nil_iff, List.filter_eq_nil_iff]
        intro t _ hc
        rw [decide_eq_true_eq] at hc
        have hlt := slot_lt (table i) t.key
        exact hb ⟨rfl, Nat.zero_le b', by omega⟩
    · rw [if_neg (fun hc => hi hc.1), h.chain, bucket, bucket, List.filter_filter]
      refine congrArg (List.map Entry.le) (List.filter_congr (fun t _ => ?_))
      rw [← Bool.decide_and]
      refine decide_eq_decide.mpr ⟨fun hc => ⟨hc, fun ht => hi (hc.1.symm.trans ht)⟩, fun hc => hc.1⟩

theorem hash_flush_empties_some :
    ∃ m' a' released, hashFlush (someTables true) true 5
        (someOps.foldl (hashStep someTables) zeroed) = some (m', released) ∧
      hashClear (someTables true) true 5 (someOps.foldl (hashStep someTables) zeroed) = some m' ∧
      released.Perm ((elements (someOps.foldl tableStep []) true).map
        (fun e => ((someOps.foldl (hashStep someTables) zeroed).le e).data)) ∧
      (∀ e, m'.le e =
        if e ∈ elements (someOps.foldl tableStep []) true then ⟨none, none, none, none⟩
        else (someOps.foldl (hashStep someTables) zeroed).le e) ∧
      (∀ k, k.1 ≠ true → m'.head k = (someOps.foldl (hashStep someTables) zeroed).head k ∧
        m'.tail k = (someOps.foldl (hashStep someTables) zeroed).tail k) ∧
      Holds someTables m' a' ((someOps.foldl tableStep []).filter (fun t => t.table ≠ true)) :=
  hash_flush_empties someTables someOps true 5 (by decide)

end Tables

end HashTable

end SipPerf
