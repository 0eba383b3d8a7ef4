import SipPerf.Core.LinkedList
import SipPerf.Lib.Chain

/-!
# Lists in Memory

The memory of linked lists stands for lists. A change to the links of one list
is a change of a path in the sense of `Chain`, and leaves the paths of all
other lists alone, since an element is in one list only. The field that says
in which one is what the code tests before it links an element in.

## Main definitions

* `Lists`: The lists and the data of their elements.
* `absStep`: One operation on lists.
* `Repr`: The memory stands for lists.
* `Around`: A change to the links of one list.

## Theorems

* `repr_insert`, `repr_remove`: What a change to the links amounts to.
-/

namespace SipPerf

namespace LinkedList

open Chain

variable {α κ δ : Type*}

/-! ## Lists -/

/-- What the memory stands for: the lists, the list of every element and its
    data. -/
structure Lists (α κ δ : Type*) where
  chain : κ → List α
  owner : α → Option κ
  data : α → Option δ

def emptyLists : Lists α κ δ :=
  { chain := fun _ => [], owner := fun _ => none, data := fun _ => none }

section Abstract

variable [DecidableEq α]

/-- `ile` goes in front of `e`. -/
def before (e ile : α) : List α → List α
  | [] => []
  | x :: xs => if x = e then ile :: x :: xs else x :: before e ile xs

/-- `ile` goes behind `e`. -/
def behind (e ile : α) : List α → List α
  | [] => []
  | x :: xs => if x = e then x :: ile :: xs else x :: behind e ile xs

theorem before_split (xs ys : List α) (e ile : α) (h : e ∉ xs) :
    before e ile (xs ++ e :: ys) = xs ++ ile :: e :: ys := by
  induction xs with
  | nil => exact if_pos rfl
  | cons x xs ih =>
      rw [List.mem_cons, not_or] at h
      rw [List.cons_append, before, if_neg (fun hc => h.1 hc.symm), ih h.2]
      rfl

theorem behind_split (xs ys : List α) (e ile : α) (h : e ∉ xs) :
    behind e ile (xs ++ e :: ys) = xs ++ e :: ile :: ys := by
  induction xs with
  | nil => exact if_pos rfl
  | cons x xs ih =>
      rw [List.mem_cons, not_or] at h
      rw [List.cons_append, behind, if_neg (fun hc => h.1 hc.symm), ih h.2]
      rfl

variable [DecidableEq κ]

/-- An element with its data is put into a list, unless it is in one. -/
def Lists.place (a : Lists α κ δ) (k : κ) (e : α) (data : Option δ) (put : List α → List α) :
    Lists α κ δ :=
  if (a.owner e).isSome then a
  else
    { chain := Function.update a.chain k (put (a.chain k)),
      owner := Function.update a.owner e (some k), data := Function.update a.data e data }

/-- An element is taken out of its list. -/
def Lists.remove (a : Lists α κ δ) (e : α) : Lists α κ δ :=
  match a.owner e with
  | none => a
  | some k =>
      { a with
        chain := Function.update a.chain k ((a.chain k).erase e)
        owner := Function.update a.owner e none }

/-- One operation on lists. -/
def absStep (a : Lists α κ δ) : ListOp α κ δ → Lists α κ δ
  | .append k e data => a.place k e data (fun xs => xs ++ [e])
  | .prepend k e data => a.place k e data (fun xs => e :: xs)
  | .insertBefore k e ile data => a.place k ile data (before e ile)
  | .insertAfter k e ile data => a.place k ile data (behind e ile)
  | .unlink e => a.remove e

end Abstract

/-! ## The memory -/

/-- What comes after an element of a list, or after nothing. -/
def Mem.fwd (m : Mem α κ δ) (k : κ) : Option α → Option α
  | none => m.head k
  | some e => (m.le e).next

/-- What comes before an element of a list, or before nothing. -/
def Mem.bwd (m : Mem α κ δ) (k : κ) : Option α → Option α
  | none => m.tail k
  | some e => (m.le e).prev

/-- The memory stands for the lists. -/
structure Repr (m : Mem α κ δ) (a : Lists α κ δ) : Prop where
  path : ∀ k, Path (m.fwd k) (m.bwd k) none (a.chain k) none
  nodup : ∀ k, (a.chain k).Nodup
  owner : ∀ k e, e ∈ a.chain k ↔ (m.le e).list = some k
  list : ∀ e, (m.le e).list = a.owner e
  data : ∀ e, (m.le e).data = a.data e

theorem zeroed_repr : Repr (zeroed : Mem α κ δ) emptyLists :=
  ⟨fun _ => ⟨rfl, rfl⟩, fun _ => List.nodup_nil,
    fun k _ => ⟨fun h => absurd h List.not_mem_nil, fun h => absurd h.symm (Option.some_ne_none k)⟩,
    fun _ => rfl, fun _ => rfl⟩

theorem Repr.head_eq {m : Mem α κ δ} {a : Lists α κ δ} (h : Repr m a) (k : κ) :
    m.head k = headOr none (a.chain k) :=
  (path_head none none _ (h.path k)).1

theorem Repr.tail_eq {m : Mem α κ δ} {a : Lists α κ δ} (h : Repr m a) (k : κ) :
    m.tail k = lastOr none (a.chain k) :=
  (path_last none _ none (h.path k)).2

/-- The neighbours of an element. -/
theorem Repr.links {m : Mem α κ δ} {a : Lists α κ δ} (h : Repr m a) (k : κ) (xs ys : List α) (e : α)
    (hk : a.chain k = xs ++ e :: ys) :
    (m.le e).prev = lastOr none xs ∧ (m.le e).next = headOr none ys := by
  have hpath := h.path k
  rw [hk] at hpath
  exact path_neighbours none none xs ys e hpath

theorem Repr.free {m : Mem α κ δ} {a : Lists α κ δ} (h : Repr m a) (e : α) :
    (m.le e).list = none ↔ ¬ ∃ k, e ∈ a.chain k := by
  rw [Option.eq_none_iff_forall_ne_some, not_exists]
  exact forall_congr' fun k => not_congr (h.owner k e).symm

theorem Repr.disjoint {m : Mem α κ δ} {a : Lists α κ δ} (h : Repr m a) (k k' : κ) (hk : k' ≠ k) (e : α)
    (he : e ∈ a.chain k) : e ∉ a.chain k' := by
  intro hc
  rw [h.owner] at he hc
  rw [he, Option.some.injEq] at hc
  exact hk hc.symm

theorem Repr.lastOr_ne {m : Mem α κ δ} {a : Lists α κ δ} (h : Repr m a) (k k' : κ) (hk : k' ≠ k)
    (xs : List α) (hxs : ∀ x ∈ xs, x ∈ a.chain k) (x : α) (hx : x ∈ a.chain k') :
    lastOr none xs ≠ some x :=
  Chain.lastOr_ne xs x (fun hc => h.disjoint k k' hk x (hxs x hc) hx)

theorem Repr.headOr_ne {m : Mem α κ δ} {a : Lists α κ δ} (h : Repr m a) (k k' : κ) (hk : k' ≠ k)
    (xs : List α) (hxs : ∀ x ∈ xs, x ∈ a.chain k) (x : α) (hx : x ∈ a.chain k') :
    headOr none xs ≠ some x :=
  Chain.headOr_ne xs x (fun hc => h.disjoint k k' hk x (hxs x hc) hx)

section Changes

variable [DecidableEq α]

/-- The links of one list have changed around an element, and nothing else. -/
structure Around (m m' : Mem α κ δ) (k : κ) (e : α) (p n fwd bwd : Option α) : Prop where
  fwd : ∀ q, q ≠ some e → m'.fwd k q = Function.update (m.fwd k) p fwd q
  bwd : ∀ q, q ≠ some e → m'.bwd k q = Function.update (m.bwd k) n bwd q
  ends : ∀ k', k' ≠ k → m'.head k' = m.head k' ∧ m'.tail k' = m.tail k'
  rest : ∀ x, x ≠ e → (m'.le x).list = (m.le x).list ∧ (m'.le x).data = (m.le x).data

/-- The other lists keep their paths. -/
theorem around_path (m m' : Mem α κ δ) (a : Lists α κ δ) (k k' : κ) (e : α)
    (p n fwd bwd : Option α) (h : Repr m a) (hm : Around m m' k e p n fwd bwd) (hk : k' ≠ k)
    (he : e ∉ a.chain k') (hp : ∀ x ∈ a.chain k', p ≠ some x) (hn : ∀ x ∈ a.chain k', n ≠ some x) :
    Path (m'.fwd k') (m'.bwd k') none (a.chain k') none := by
  refine path_congr none (a.chain k') none (h.path k') (hm.ends k' hk).1 (hm.ends k' hk).2
    (fun x hx => ?_)
  -- The change is at elements that are not in this list.
  have hxe : some x ≠ some e := fun hc => he (Option.some.inj hc ▸ hx)
  constructor
  · calc m'.fwd k' (some x) = m'.fwd k (some x) := rfl
      _ = m.fwd k (some x) := by rw [hm.fwd _ hxe, Function.update_of_ne (hp x hx).symm]
  · calc m'.bwd k' (some x) = m'.bwd k (some x) := rfl
      _ = m.bwd k (some x) := by rw [hm.bwd _ hxe, Function.update_of_ne (hn x hx).symm]

variable [DecidableEq κ]

/-- A free element is linked in somewhere. -/
theorem repr_insert (m m' : Mem α κ δ) (a : Lists α κ δ) (k : κ) (e : α) (data : Option δ)
    (put : List α → List α) (xs ys : List α) (h : Repr m a) (hfree : (m.le e).list = none)
    (hk : a.chain k = xs ++ ys) (hput : put (a.chain k) = xs ++ e :: ys)
    (hnext : m'.fwd k (some e) = headOr none ys) (hprev : m'.bwd k (some e) = lastOr none xs)
    (hlist : (m'.le e).list = some k) (hdata : (m'.le e).data = data)
    (hm : Around m m' k e (lastOr none xs) (headOr none ys) (some e) (some e)) :
    Repr m' (a.place k e data put) := by
  have hout := (h.free e).mp hfree
  have hin (x : α) : x ∈ xs ++ ys → x ∈ a.chain k := fun hx => hk ▸ hx
  rw [Lists.place, if_neg (by rw [← h.list, hfree]; exact Bool.false_ne_true), hput]
  have hne (k' : κ) : e ∉ a.chain k' := fun hc => hout ⟨k', hc⟩
  -- Each field is the old one away from `k` and `e`.
  refine ⟨fun k' => ?_, fun k' => ?_, fun k' x => ?_, fun x => ?_, fun x => ?_⟩
  · by_cases hkk : k' = k
    · rw [hkk]
      simp only [Function.update_self]
      have hpath := h.path k
      have hnd := h.nodup k
      rw [hk] at hpath hnd
      exact path_insert xs ys e hpath hnd (fun hc => hne k (hin e hc)) hm.fwd hnext hm.bwd hprev
    · simp only [Function.update_of_ne hkk]
      exact around_path m m' a k k' e _ _ _ _ h hm hkk (hne k')
        (h.lastOr_ne k k' hkk xs (fun x hx => hin x (List.mem_append_left ys hx)))
        (h.headOr_ne k k' hkk ys (fun x hx => hin x (List.mem_append_right xs hx)))
  · by_cases hkk : k' = k
    · rw [hkk]
      simp only [Function.update_self]
      have hnd := h.nodup k
      rw [hk] at hnd
      exact List.nodup_middle.mpr (List.nodup_cons.mpr ⟨fun hc => hne k (hin e hc), hnd⟩)
    · simp only [Function.update_of_ne hkk]
      exact h.nodup k'
  · by_cases hxe : x = e
    · rw [hxe, hlist]
      by_cases hkk : k' = k
      · rw [hkk]
        simp only [Function.update_self, List.mem_append, List.mem_cons, true_or, or_true]
      · simp only [Function.update_of_ne hkk, Option.some.injEq]
        exact ⟨fun hc => absurd hc (hne k'), fun hc => absurd hc.symm hkk⟩
    · rw [(hm.rest x hxe).1, ← h.owner]
      by_cases hkk : k' = k
      · rw [hkk, hk]
        simp only [Function.update_self, List.mem_append, List.mem_cons, hxe, false_or]
      · simp only [Function.update_of_ne hkk]
  · by_cases hxe : x = e
    · rw [hxe, hlist]
      simp only [Function.update_self]
    · rw [(hm.rest x hxe).1, h.list]
      simp only [Function.update_of_ne hxe]
  · by_cases hxe : x = e
    · rw [hxe, hdata]
      simp only [Function.update_self]
    · rw [(hm.rest x hxe).2, h.data]
      simp only [Function.update_of_ne hxe]

/-- An element is unlinked from its list. -/
theorem repr_remove (m m' : Mem α κ δ) (a : Lists α κ δ) (k : κ) (e : α) (xs ys : List α)
    (h : Repr m a) (hk : a.chain k = xs ++ e :: ys) (hlist : (m'.le e).list = none)
    (hdata : (m'.le e).data = (m.le e).data)
    (hm : Around m m' k e (lastOr none xs) (headOr none ys) (headOr none ys) (lastOr none xs)) :
    Repr m' (a.remove e) := by
  have hnd := h.nodup k
  have hpath := h.path k
  rw [hk] at hnd hpath
  have hout := List.nodup_cons.mp (List.nodup_middle.mp hnd)
  have hin (x : α) (hx : x ∈ xs ++ ys) : x ∈ a.chain k := by
    rw [hk]
    simp only [List.mem_append, List.mem_cons] at hx ⊢
    exact hx.imp_right Or.inr
  have hek : e ∈ a.chain k := by
    rw [hk]
    exact List.mem_append_right xs List.mem_cons_self
  have herase : (a.chain k).erase e = xs ++ ys := by
    rw [hk, List.erase_append_right _ (fun hc => hout.1 (List.mem_append_left ys hc)),
      List.erase_cons_head]
  have howner : a.owner e = some k := (h.list e).symm.trans ((h.owner k e).mp hek)
  rw [Lists.remove, howner]
  -- Again only this list changes, and `e` keeps its data.
  refine ⟨fun k' => ?_, fun k' => ?_, fun k' x => ?_, fun x => ?_, fun x => ?_⟩
  · by_cases hkk : k' = k
    · rw [hkk]
      simp only [Function.update_self, herase]
      exact path_remove xs ys e hpath hnd hm.fwd hm.bwd
    · simp only [Function.update_of_ne hkk]
      exact around_path m m' a k k' e _ _ _ _ h hm hkk (h.disjoint k k' hkk e hek)
        (h.lastOr_ne k k' hkk xs (fun x hx => hin x (List.mem_append_left ys hx)))
        (h.headOr_ne k k' hkk ys (fun x hx => hin x (List.mem_append_right xs hx)))
  · by_cases hkk : k' = k
    · rw [hkk]
      simp only [Function.update_self]
      exact (h.nodup k).erase e
    · simp only [Function.update_of_ne hkk]
      exact h.nodup k'
  · by_cases hkk : k' = k
    · rw [hkk]
      simp only [Function.update_self, (h.nodup k).mem_erase_iff]
      by_cases hxe : x = e
      · rw [hxe, hlist]
        exact ⟨fun hc => absurd rfl hc.1, fun hc => absurd hc.symm (Option.some_ne_none k)⟩
      · rw [(hm.rest x hxe).1, ← h.owner]
        exact and_iff_right hxe
    · simp only [Function.update_of_ne hkk]
      by_cases hxe : x = e
      · rw [hxe, hlist]
        exact ⟨fun hc => absurd hc (h.disjoint k k' hkk e hek),
          fun hc => absurd hc.symm (Option.some_ne_none k')⟩
      · rw [(hm.rest x hxe).1, h.owner]
  · by_cases hxe : x = e
    · rw [hxe, hlist]
      simp only [Function.update_self]
    · rw [(hm.rest x hxe).1, h.list]
      simp only [Function.update_of_ne hxe]
  · by_cases hxe : x = e
    · rw [hxe, hdata, h.data]
    · rw [(hm.rest x hxe).2, h.data]

end Changes

end LinkedList

end SipPerf
