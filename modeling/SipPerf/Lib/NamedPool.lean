import Mathlib.Data.List.AList
import Mathlib.Logic.Function.Basic

/-!
# Pools of Named Things

A finite map from names to the things that bear them, used as a set. Things
are put in and taken out under their own names, and one is drawn from the
pool when any will do.

A map of names to things says more than a set, and most of what it could say
is wrong: a thing can stand under a name that is not its own, or under two.
`NamedPool` carries the proof that it does not. Where names tell the things
apart, the pool is then the set it is used as, and `mem_put` and `mem_drop`
say so without mentioning names.

Which thing is drawn is up to the representation. `draw` takes a number that
decides it, so what holds for every number holds for every representation.

## Main definitions

* `NamedPool`: A map in which everything stands under its own name.
* `Holds`: Membership.
* `put`, `drop`, `draw`: The operations.
* `size`: How many things a pool holds.

## Theorems

* `mem_put`: What a pool holds after something is put in.
* `mem_drop`: What it holds after something is taken out.
* `draw_eq_some`: What is drawn was in the pool.
* `draw_of_holds`: Everything in the pool can be drawn.
* `draw_eq_none`: Nothing is drawn exactly from an empty pool.
* `size_remove`: The size of a pool without some of the things it held.
-/

namespace SipPerf

/-- A map from names to things in which everything stands under its own
    name. -/
structure NamedPool {α κ : Type*} [DecidableEq κ] (name : α → κ) where
  map : AList (fun _ : κ => α)
  keyed : ∀ k a, map.lookup k = some a → k = name a

namespace NamedPool

variable {α κ : Type*} [DecidableEq κ] {name : α → κ}

/-- The thing is in the pool. -/
def Holds (p : NamedPool name) (a : α) : Prop := p.map.lookup (name a) = some a

instance decidableHolds [DecidableEq α] (p : NamedPool name) (a : α) : Decidable (p.Holds a) :=
  inferInstanceAs (Decidable (p.map.lookup (name a) = some a))

def empty (name : α → κ) : NamedPool name where
  map := ∅
  keyed := fun k a h => absurd h (by simp only [AList.lookup_empty, reduceCtorEq,
    not_false_eq_true])

/-- Put a thing in the pool, in place of any other of its name. -/
def put (p : NamedPool name) (a : α) : NamedPool name where
  map := p.map.insert (name a) a
  keyed := fun k b h => by
    by_cases hk : k = name a
    · rw [hk, AList.lookup_insert, Option.some.injEq] at h
      rw [hk, h]
    · rw [AList.lookup_insert_ne hk] at h
      exact p.keyed k b h

/-- Take out whatever bears the name of a thing. -/
def drop (p : NamedPool name) (a : α) : NamedPool name where
  map := p.map.erase (name a)
  keyed := fun k b h => by
    by_cases hk : k = name a
    · rw [hk, AList.lookup_erase] at h
      exact absurd h (by simp only [reduceCtorEq, not_false_eq_true])
    · rw [AList.lookup_erase_ne hk] at h
      exact p.keyed k b h

/-- Some thing in the pool, if there is any. -/
def draw (p : NamedPool name) (i : Nat) : Option α :=
  (p.map.entries[i % p.map.entries.length]?).map Sigma.snd

theorem not_holds_empty (a : α) : ¬ (empty name).Holds a := by
  simp only [Holds, empty, AList.lookup_empty, reduceCtorEq, not_false_eq_true]

theorem holds_put (p : NamedPool name) (a : α) : (p.put a).Holds a := AList.lookup_insert p.map

theorem not_holds_drop (p : NamedPool name) (a : α) : ¬ (p.drop a).Holds a := by
  simp only [Holds, drop, AList.lookup_erase, reduceCtorEq, not_false_eq_true]

theorem mem_put (hname : Function.Injective name) (p : NamedPool name) (a b : α) :
    (p.put a).Holds b ↔ b = a ∨ p.Holds b := by
  by_cases hba : b = a
  · rw [hba]
    exact ⟨fun _ => Or.inl rfl, fun _ => holds_put p a⟩
  · -- Two things under one name would be one thing.
    have hne : name b ≠ name a := fun hc => hba (hname hc)
    simp only [Holds, put, AList.lookup_insert_ne hne, hba, false_or]

theorem mem_drop (hname : Function.Injective name) (p : NamedPool name) (a b : α) :
    (p.drop a).Holds b ↔ p.Holds b ∧ b ≠ a := by
  by_cases hba : b = a
  · rw [hba]
    exact ⟨fun h => absurd h (not_holds_drop p a), fun h => absurd rfl h.2⟩
  · have hne : name b ≠ name a := fun hc => hba (hname hc)
    simp only [Holds, drop, AList.lookup_erase_ne hne, ne_eq, hba, not_false_eq_true, and_true]

/-- An entry of the map is something the pool holds. -/
theorem holds_of_entry (p : NamedPool name) (e : Sigma fun _ : κ => α) (he : e ∈ p.map.entries) :
    p.Holds e.2 := by
  have hlook : p.map.lookup e.1 = some e.2 := AList.mem_lookup_iff.mpr he
  rw [Holds, ← p.keyed e.1 e.2 hlook]
  exact hlook

theorem draw_eq_some (p : NamedPool name) (i : Nat) (a : α) (h : p.draw i = some a) :
    p.Holds a := by
  rcases Option.map_eq_some_iff.mp h with ⟨e, he, hea⟩
  rw [← hea]
  exact holds_of_entry p e (List.mem_of_getElem? he)

theorem draw_of_holds (p : NamedPool name) (a : α) (h : p.Holds a) : ∃ i, p.draw i = some a := by
  have hmem : (⟨name a, a⟩ : Sigma fun _ : κ => α) ∈ p.map.entries := AList.mem_lookup_iff.mp h
  rcases List.mem_iff_getElem?.mp hmem with ⟨i, hi⟩
  have hlt : i < p.map.entries.length := (List.getElem?_eq_some_iff.mp hi).1
  refine ⟨i, ?_⟩
  rw [draw, Nat.mod_eq_of_lt hlt, hi, Option.map_some]

theorem draw_eq_none (p : NamedPool name) (i : Nat) : p.draw i = none ↔ ∀ a, ¬ p.Holds a := by
  unfold draw
  rw [Option.map_eq_none_iff, List.getElem?_eq_none_iff]
  constructor
  · intro hlen a ha
    -- The index is reduced to the number of entries, so it names one if there
    -- is one.
    have hmem : (⟨name a, a⟩ : Sigma fun _ : κ => α) ∈ p.map.entries := AList.mem_lookup_iff.mp ha
    have hpos := List.length_pos_of_mem hmem
    exact absurd (Nat.mod_lt i hpos) (not_lt.mpr hlen)
  · intro hnone
    cases hentries : p.map.entries with
    | nil => simp only [List.length_nil, Nat.zero_le]
    | cons e es =>
        exact absurd (holds_of_entry p e (by rw [hentries]; exact List.mem_cons_self)) (hnone _)

/-! ## Size -/

/-- How many things the pool holds. -/
def size (p : NamedPool name) : Nat := p.map.keys.length

theorem mem_keys_iff (p : NamedPool name) (k : κ) :
    k ∈ p.map.keys ↔ ∃ a, p.Holds a ∧ k = name a := by
  rw [← AList.mem_keys, ← AList.lookup_isSome, Option.isSome_iff_exists]
  constructor
  · intro h
    rcases h with ⟨a, ha⟩
    have hk := p.keyed k a ha
    exact ⟨a, by rw [Holds, ← hk]; exact ha, hk⟩
  · intro h
    rcases h with ⟨a, ha, hk⟩
    rw [hk]
    exact ⟨a, ha⟩

theorem size_eq_zero (p : NamedPool name) (h : ∀ a, ¬ p.Holds a) : p.size = 0 := by
  rw [size, List.length_eq_zero_iff, List.eq_nil_iff_forall_not_mem]
  intro k hk
  rcases (mem_keys_iff p k).mp hk with ⟨a, ha, _⟩
  exact h a ha

/-- Some of the things in a pool are gone, and all others are still there. -/
theorem size_remove (p q : NamedPool name) (gone : List α) (hgone : gone.Nodup)
    (hin : ∀ a ∈ gone, p.Holds a) (hrest : ∀ a, q.Holds a ↔ p.Holds a ∧ a ∉ gone) :
    q.size + gone.length = p.size := by
  -- Things in one pool are told apart by their names.
  have hinj : ∀ a b, p.Holds a → p.Holds b → name a = name b → a = b := by
    intro a b ha hb hab
    rw [Holds, hab, hb, Option.some.injEq] at ha
    exact ha.symm
  have hnodup : (q.map.keys ++ gone.map name).Nodup := by
    refine List.nodup_append.mpr ⟨q.map.keys_nodup, ?_, ?_⟩
    · exact List.Nodup.map_on (fun a ha b hb hab => hinj a b (hin a ha) (hin b hb) hab) hgone
    · intro k hk k' hk' hkk
      rcases (mem_keys_iff q k).mp hk with ⟨a, ha, hka⟩
      rcases List.mem_map.mp hk' with ⟨b, hb, hkb⟩
      have hab : a = b := hinj a b ((hrest a).mp ha).1 (hin b hb) (by rw [← hka, hkk, hkb])
      exact ((hrest a).mp ha).2 (by rw [hab]; exact hb)
  have hperm : (q.map.keys ++ gone.map name).Perm p.map.keys := by
    refine (List.perm_ext_iff_of_nodup hnodup p.map.keys_nodup).mpr (fun k => ?_)
    rw [List.mem_append, mem_keys_iff, mem_keys_iff, List.mem_map]
    constructor
    · rintro (⟨a, ha, hk⟩ | ⟨a, ha, hk⟩)
      · exact ⟨a, ((hrest a).mp ha).1, hk⟩
      · exact ⟨a, hin a ha, hk.symm⟩
    · rintro ⟨a, ha, hk⟩
      by_cases hg : a ∈ gone
      · exact Or.inr ⟨a, hg, hk.symm⟩
      · exact Or.inl ⟨a, (hrest a).mpr ⟨ha, hg⟩, hk⟩
  have hlen := hperm.length_eq
  rw [List.length_append, List.length_map] at hlen
  exact hlen

end NamedPool

end SipPerf
