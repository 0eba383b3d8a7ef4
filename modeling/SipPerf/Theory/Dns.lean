import Mathlib.Data.List.TakeWhile
import Mathlib.Data.Prod.Lex
import SipPerf.Core.Dns
import SipPerf.Theory.ListSort

/-!
# Resource Records in Order

The order that records are sorted in compares a key, so the sort of a list of
records ends, and what it comes to in memory is the sorted list that the rest
of the stack goes on with.

A search for servers through a sorted list follows aliases and can come to one
name more than once, over any detour. It still collects every server once,
and the servers of one name all in one piece and in order: the records of the
servers stand in front of all aliases, so that a pass has collected those of
its name before it follows the first alias.

## Main definitions

* `sortKey`: What the order compares.
* `SameName`, `Orderly`: What a search has collected.
* `Before`: The order of servers.

## Theorems

* `stdSortHandler_iff`: The order compares keys.
* `dnsRrlistSort_spec`: A sorted list.
* `dns_rrlist_sort_sorts`: A sort in memory.
* `foldl_addNew`: Records are added once.
* `rrLoop_kept`: A search keeps what its handler keeps.
* `rrLoop_orderly`: A search keeps what it has collected in order.
* `servers_of_answer`, `servers_of_name`: The servers that are collected.
* `before_of_sorted`: The order in terms of priorities.
-/

namespace SipPerf

namespace Dns

open BubbleSort LinkedList Transition

/-! ## The order -/

/-- What `std_sort_handler` compares. Records of other types come last, and of
    servers with the same priority those without a weight come first. -/
def sortKey (type : DnsType) (rr : DnsRr) : Nat ×ₗ Nat ×ₗ Nat :=
  if type ≠ rr.type then toLex (1, toLex (0, 0))
  else match rr.rdata with
    | .mx pref => toLex (0, toLex (pref, 0))
    | .srv pri weight _ _ => toLex (0, toLex (pri, if weight = 0 then 0 else 1))
    | .naptr order pref _ _ => toLex (0, toLex (order, pref))
    | _ => toLex (0, toLex (0, 0))

theorem key_le_key (m n m' n' : Nat) :
    (toLex (0, toLex (m, n)) : Nat ×ₗ Nat ×ₗ Nat) ≤ toLex (0, toLex (m', n')) ↔
      m < m' ∨ m = m' ∧ n ≤ n' := by
  simp only [Prod.Lex.toLex_le_toLex, lt_irrefl, false_or, true_and]

theorem stdSortHandler_iff (type : DnsType) (rr1 rr2 : DnsRr) :
    stdSortHandler type rr1 rr2 = true ↔ sortKey type rr1 ≤ sortKey type rr2 := by
  by_cases h1 : type = rr1.type
  · by_cases h2 : type = rr2.type
    · rw [stdSortHandler, sortKey, sortKey, if_neg (not_not_intro h1), if_neg (not_not_intro h2),
        if_neg (not_not_intro h1), if_neg (not_not_intro h2)]
      have h12 := h1.symm.trans h2
      rw [DnsRr.type, DnsRr.type] at h12
      cases hd1 : rr1.rdata <;> cases hd2 : rr2.rdata <;> rw [hd1, hd2] at h12 <;>
        simp only [reduceCtorEq] at h12
      case mx.mx pref1 pref2 =>
        simp only [key_le_key, decide_eq_true_eq]
        omega
      case srv.srv pri1 weight1 _ _ pri2 weight2 _ _ =>
        simp only [key_le_key]
        by_cases hpri : pri1 = pri2
        · -- Equal priorities: only a weight in front of none is out of order.
          rw [if_pos hpri]
          by_cases hweight1 : weight1 = 0
          · rw [if_neg (not_not_intro hweight1), if_pos hweight1]
            exact iff_of_true rfl (Or.inr ⟨hpri, Nat.zero_le _⟩)
          · rw [if_pos hweight1, if_neg hweight1, decide_eq_true_eq]
            by_cases hweight2 : weight2 = 0
            · rw [if_pos hweight2]
              exact iff_of_false (not_not_intro hweight2) (by omega)
            · rw [if_neg hweight2]
              exact iff_of_true hweight2 (Or.inr ⟨hpri, le_refl 1⟩)
        · rw [if_neg hpri, decide_eq_true_eq]
          omega
      case naptr.naptr order1 pref1 _ _ order2 pref2 _ _ =>
        simp only [key_le_key]
        by_cases horder : order1 = order2
        · rw [if_pos horder, decide_eq_true_eq]
          omega
        · rw [if_neg horder, decide_eq_true_eq]
          omega
      all_goals exact iff_of_true rfl (le_refl _)
    · have hle : sortKey type rr1 ≤ sortKey type rr2 := by
        rw [sortKey, sortKey, if_neg (not_not_intro h1), if_pos h2]
        split <;> exact Prod.Lex.toLex_le_toLex.mpr (Or.inl Nat.zero_lt_one)
      rw [stdSortHandler, if_neg (not_not_intro h1), if_pos h2]
      exact iff_of_true rfl hle
  · rw [stdSortHandler, if_pos h1, decide_eq_true_eq]
    by_cases h2 : type = rr2.type
    · refine iff_of_false (not_not_intro h2) (not_le_of_gt ?_)
      rw [sortKey, sortKey, if_neg (not_not_intro h2), if_pos h1]
      split <;> exact Prod.Lex.toLex_lt_toLex.mpr (Or.inl Nat.zero_lt_one)
    · rw [sortKey, sortKey, if_pos h1, if_pos h2]
      exact iff_of_true h2 (le_refl _)

theorem stdSortHandler_total (type : DnsType) (rr1 rr2 : DnsRr) :
    stdSortHandler type rr1 rr2 = true ∨ stdSortHandler type rr2 rr1 = true := by
  rw [stdSortHandler_iff, stdSortHandler_iff]
  exact le_total _ _

theorem stdSortHandler_trans (type : DnsType) (rr1 rr2 rr3 : DnsRr)
    (h12 : stdSortHandler type rr1 rr2 = true) (h23 : stdSortHandler type rr2 rr3 = true) :
    stdSortHandler type rr1 rr3 = true := by
  rw [stdSortHandler_iff] at h12 h23 ⊢
  exact le_trans h12 h23

/-! ## The sort -/

/-- The sort ends on every list. -/
theorem dnsRrlistSort_ends (rrl : List DnsRr) (type : DnsType) (passes : Nat)
    (hpasses : rrl.length * rrl.length < passes) :
    ∃ xs, bubbleSort (stdSortHandler type) passes rrl = some xs ∧ List.Perm xs rrl ∧
      xs.Pairwise (fun rr1 rr2 => stdSortHandler type rr1 rr2 = true) := by
  rcases bubbleSort_ends (stdSortHandler type) (stdSortHandler_total type) passes rrl
    (Nat.lt_of_le_of_lt (inversions_le _ rrl) hpasses) with ⟨xs, hxs, hperm, hchain, _⟩
  have : IsTrans DnsRr (fun rr1 rr2 => stdSortHandler type rr1 rr2 = true) :=
    ⟨stdSortHandler_trans type⟩
  exact ⟨xs, hxs, hperm, hchain.pairwise⟩

theorem dnsRrlistSort_spec (rrl : List DnsRr) (type : DnsType) :
    List.Perm (dnsRrlistSort rrl type) rrl ∧
      (dnsRrlistSort rrl type).Pairwise (fun rr1 rr2 => stdSortHandler type rr1 rr2 = true) := by
  rcases dnsRrlistSort_ends rrl type _ (Nat.lt_succ_self _) with ⟨xs, hxs, hperm, hsorted⟩
  rw [dnsRrlistSort, hxs]
  exact ⟨hperm, hsorted⟩

section Memory

variable {α κ δ : Type*} [DecidableEq α] [DecidableEq κ]

/-- After any operations on any lists, sorting one of them as a list of records
    ends for every type, and the records of the list are then the sorted list
    of what they were. The other lists are as they were. -/
theorem dns_rrlist_sort_sorts (ops : List (ListOp α κ δ)) (m : Mem α κ δ)
    (h : exec memStep zeroed ops = some m) (k : κ) (rr : α → DnsRr) (type : DnsType)
    (fuel passes : Nat) (hfuel : ((ops.foldl absStep emptyLists).chain k).length < fuel)
    (hpasses : ((ops.foldl absStep emptyLists).chain k).length *
      ((ops.foldl absStep emptyLists).chain k).length < passes) :
    ∃ m', listSort (fun e1 e2 => stdSortHandler type (rr e1) (rr e2)) k fuel passes m = some m' ∧
      Repr m' ((ops.foldl absStep emptyLists).reorder k
        (((ops.foldl absStep emptyLists).chain k).mergeSort
          (fun e1 e2 => stdSortHandler type (rr e1) (rr e2)))) ∧
      (((ops.foldl absStep emptyLists).chain k).mergeSort
        (fun e1 e2 => stdSortHandler type (rr e1) (rr e2))).map rr =
          dnsRrlistSort (((ops.foldl absStep emptyLists).chain k).map rr) type := by
  have hrepr := exec_repr ops zeroed m emptyLists zeroed_repr h
  have hsort := bubbleSort_eq (fun e1 e2 => stdSortHandler type (rr e1) (rr e2))
    (fun e1 e2 => stdSortHandler_total type (rr e1) (rr e2))
    (fun e1 e2 e3 => stdSortHandler_trans type (rr e1) (rr e2) (rr e3)) _ (hrepr.nodup k)
  rcases listSort_repr _ k fuel passes m _ _ hrepr hfuel (hsort passes hpasses) with
    ⟨m', hrun, hrepr'⟩
  refine ⟨m', hrun, hrepr', ?_⟩
  -- The records are sorted as the elements that have them are.
  have hmap := map_bubbleSort rr (stdSortHandler type)
    (((ops.foldl absStep emptyLists).chain k).length *
      ((ops.foldl absStep emptyLists).chain k).length + 1) ((ops.foldl absStep emptyLists).chain k)
  rw [hsort _ (Nat.lt_succ_self _), Option.map_some] at hmap
  rw [dnsRrlistSort, List.length_map, ← hmap, Option.getD_some]

/-- Two records with priorities the wrong way round, in the list that the
    elements are 8, 5 and 3 of. -/
theorem dns_rrlist_sort_sorts_three :
    ∃ m, exec memStep zeroed someOps = some m ∧
      ∃ m', listSort (fun e1 e2 => stdSortHandler .mx ⟨e1, [], 1, .mx e1⟩ ⟨e2, [], 1, .mx e2⟩) true 4
          10 m = some m' ∧
        Repr m' ((someOps.foldl absStep emptyLists).reorder true
          (((someOps.foldl absStep emptyLists).chain true).mergeSort
            (fun e1 e2 => stdSortHandler .mx ⟨e1, [], 1, .mx e1⟩ ⟨e2, [], 1, .mx e2⟩))) ∧
        (((someOps.foldl absStep emptyLists).chain true).mergeSort
          (fun e1 e2 => stdSortHandler .mx ⟨e1, [], 1, .mx e1⟩ ⟨e2, [], 1, .mx e2⟩)).map
            (fun e => (⟨e, [], 1, .mx e⟩ : DnsRr)) =
          dnsRrlistSort (((someOps.foldl absStep emptyLists).chain true).map
            (fun e => (⟨e, [], 1, .mx e⟩ : DnsRr))) .mx :=
  ⟨_, rfl, dns_rrlist_sort_sorts someOps _ rfl true (fun e => ⟨e, [], 1, .mx e⟩) .mx 4 10 (by decide)
    (by decide)⟩

end Memory

/-! ## Records of a search -/

section Added

variable {α : Type*} [DecidableEq α]

/-- An element goes to the end of a list if it is not in it. -/
def addNew (lst : List α) (x : α) : List α :=
  if x ∈ lst then lst else lst ++ [x]

/-- What is added of a list of elements. -/
theorem foldl_addNew (xs : List α) : ∀ (lst : List α), ∃ ys, xs.foldl addNew lst = lst ++ ys ∧
    ys.Sublist xs ∧ (lst.Nodup → (lst ++ ys).Nodup) ∧ ∀ x ∈ xs, x ∈ lst ++ ys := by
  induction xs with
  | nil =>
      intro lst
      exact ⟨[], (List.append_nil lst).symm, List.Sublist.refl [],
        fun h => (List.append_nil lst).symm ▸ h, fun x hx => absurd hx List.not_mem_nil⟩
  | cons x xs ih =>
      intro lst
      by_cases hx : x ∈ lst
      · rcases ih lst with ⟨ys, hfold, hsub, hnd, hall⟩
        refine ⟨ys, ?_, hsub.cons x, hnd, ?_⟩
        · rw [List.foldl_cons, addNew, if_pos hx, hfold]
        · intro y hy
          rcases List.mem_cons.mp hy with hy | hy
          · exact hy ▸ List.mem_append_left ys hx
          · exact hall y hy
      · rcases ih (lst ++ [x]) with ⟨ys, hfold, hsub, hnd, hall⟩
        rw [List.append_assoc, List.singleton_append] at hfold hnd hall
        refine ⟨x :: ys, ?_, hsub.cons_cons x, ?_, ?_⟩
        · rw [List.foldl_cons, addNew, if_neg hx, hfold]
        · intro h
          exact hnd (List.Nodup.append h (List.nodup_singleton x) (by
            rw [List.disjoint_singleton]
            exact hx))
        · intro y hy
          rcases List.mem_cons.mp hy with hy | hy
          · exact hy ▸ List.mem_append_right lst List.mem_cons_self
          · exact hall y hy

end Added

def SameName (rr1 rr2 : DnsRr) : Prop := strCasecmp rr1.name rr2.name = true

/-- A search for servers. -/
def srvQuery (recurse : Bool) : RrQuery := ⟨some .srv, some .srv, some classIn, recurse⟩

/-- The servers that a pass of a search comes to. -/
def wanted (name : Option Name) (rr : DnsRr) : Bool :=
  !name.any (fun n => !strCasecmp n rr.name) && rr.dnsclass == classIn

theorem skips_srv (recurse : Bool) (name : Option Name) (rr : DnsRr) (h : rr.type = .srv) :
    skips (srvQuery recurse) name rr = !wanted name rr := by
  simp only [skips, srvQuery, wanted, h, Option.isSome_some, Bool.true_and, beq_self_eq_true,
    Bool.not_true, Bool.false_and, Bool.or_false, Option.any_some, Bool.not_and, Bool.not_not, bne]

theorem rrAppend_srv (rr : DnsRr) (lst : List DnsRr) (h : rr.type = .srv) :
    rrAppendHandler rr lst = (false, addNew lst rr) := by
  simp only [rrAppendHandler, h, addNew]

theorem follows_srv (q : RrQuery) (rr : DnsRr) (h : rr.type = .srv) : follows q rr = none := by
  rw [DnsRr.type] at h
  cases hd : rr.rdata <;> rw [hd] at h <;> simp only [reduceCtorEq] at h
  rw [follows, hd]

/-- A pass collects the servers in front. -/
theorem rrPass_front (recurse : Bool) (deeper : Name → List DnsRr → Option DnsRr × List DnsRr)
    (next : List DnsRr → List DnsRr → Option DnsRr × List DnsRr) (name : Option Name)
    (back front : List DnsRr) : ∀ (lst : List DnsRr), (∀ rr ∈ front, rr.type = .srv) →
    rrPass rrAppendHandler (srvQuery recurse) deeper next name (front ++ back) lst =
      rrPass rrAppendHandler (srvQuery recurse) deeper next name back
        ((front.filter (wanted name)).foldl addNew lst) := by
  induction front with
  | nil =>
      intro lst _
      rfl
  | cons rr front ih =>
      intro lst h
      have hsrv := h rr List.mem_cons_self
      have hrest := fun lst => ih lst (fun rr' hrr' => h rr' (List.mem_cons_of_mem rr hrr'))
      rw [List.cons_append, rrPass, skips_srv recurse name rr hsrv]
      cases hw : wanted name rr with
      | true =>
          rw [List.filter_cons_of_pos hw, List.foldl_cons, ← hrest, rrAppend_srv rr lst hsrv,
            follows_srv _ rr hsrv]
          rfl
      | false =>
          rw [List.filter_cons_of_neg (by rw [hw]; exact Bool.false_ne_true), ← hrest]
          rfl

/-- The last pass, in the same way. -/
theorem rrLast_front (recurse : Bool) (name : Option Name) (back front : List DnsRr) :
    ∀ (lst : List DnsRr), (∀ rr ∈ front, rr.type = .srv) →
    rrLast rrAppendHandler (srvQuery recurse) name (front ++ back) lst =
      rrLast rrAppendHandler (srvQuery recurse) name back
        ((front.filter (wanted name)).foldl addNew lst) := by
  induction front with
  | nil =>
      intro lst _
      rfl
  | cons rr front ih =>
      intro lst h
      have hsrv := h rr List.mem_cons_self
      have hrest := fun lst => ih lst (fun rr' hrr' => h rr' (List.mem_cons_of_mem rr hrr'))
      rw [List.cons_append, rrLast, skips_srv recurse name rr hsrv]
      cases hw : wanted name rr with
      | true =>
          rw [List.filter_cons_of_pos hw, List.foldl_cons, ← hrest, rrAppend_srv rr lst hsrv]
          rfl
      | false =>
          rw [List.filter_cons_of_neg (by rw [hw]; exact Bool.false_ne_true), ← hrest]
          rfl

section Kept

variable {σ : Type} (rrlh : DnsRr → σ → Bool × σ) (q : RrQuery) (I : σ → Prop)
  (hI : ∀ name rr s, skips q name rr = false → I s → I (rrlh rr s).2)

include hI

theorem rrPass_kept (deeper : Name → σ → Option DnsRr × σ) (next : List DnsRr → σ → Option DnsRr × σ)
    (hdeeper : ∀ cname s, I s → I (deeper cname s).2) (hnext : ∀ rest s, I s → I (next rest s).2)
    (name : Option Name) (rest : List DnsRr) : ∀ (s : σ), I s →
    I (rrPass rrlh q deeper next name rest s).2 := by
  induction rest with
  | nil =>
      intro s h
      exact h
  | cons rr rest ih =>
      intro s h
      rw [rrPass]
      cases hskip : skips q name rr with
      | true => exact ih s h
      | false =>
          have hrr := hI name rr s hskip h
          simp only [Bool.false_eq_true, if_false]
          split
          · exact hrr
          · split
            · exact ih _ hrr
            · next cname _ =>
                have hdeep := hdeeper cname _ hrr
                split
                · next heq =>
                    rw [heq] at hdeep
                    exact hdeep
                · next heq =>
                    rw [heq] at hdeep
                    exact hnext rest _ hdeep

theorem rrLast_kept (name : Option Name) (rest : List DnsRr) : ∀ (s : σ), I s →
    I (rrLast rrlh q name rest s).2 := by
  induction rest with
  | nil =>
      intro s h
      exact h
  | cons rr rest ih =>
      intro s h
      rw [rrLast]
      cases hskip : skips q name rr with
      | true => exact ih s h
      | false =>
          have hrr := hI name rr s hskip h
          simp only [Bool.false_eq_true, if_false]
          split
          · exact hrr
          · exact ih _ hrr

/-- What the handler keeps for every record that a search passes to it, the
    search keeps. -/
theorem rrLoop_kept (rrl : List DnsRr) (left : Nat) : ∀ (name : Option Name) (rest : List DnsRr)
    (s : σ), I s → I (rrLoop rrlh q rrl left name rest s).2 := by
  induction left with
  | zero =>
      intro name rest s h
      exact rrLast_kept rrlh q I hI name rest s h
  | succ left ih =>
      intro name rest s h
      rw [rrLoop]
      refine rrPass_kept rrlh q I hI _ _ (fun cname s h => ?_) (ih name) name rest s h
      split
      · exact h
      · exact ih (some cname) rrl s h

end Kept

/-- A search passes no records to its handler but those of its types, and
    aliases. -/
theorem type_of_passed (type1 type2 : DnsType) (recurse : Bool) (name : Option Name) (rr : DnsRr)
    (h : skips ⟨some type1, some type2, some classIn, recurse⟩ name rr = false) :
    (rr.type = type1 ∨ rr.type = type2) ∨ rr.type = .cname := by
  by_contra hc
  have hno := not_or.mp hc
  have hpass : skips ⟨some type1, some type2, some classIn, recurse⟩ name rr = true := by
    simp only [skips, Option.isSome_some, Bool.true_and, Bool.or_eq_true, Bool.and_eq_true,
      bne_iff_ne, ne_eq, Option.some.injEq]
    exact Or.inl (Or.inr ⟨⟨fun he => hno.1 (Or.inl he.symm), fun he => hno.1 (Or.inr he.symm)⟩,
      Or.inl hno.2⟩)
  exact Bool.false_ne_true (h.symm.trans hpass)

/-- A record with an address. -/
def IsAddr (rr : DnsRr) : Prop := rr.type = .a ∨ rr.type = .aaaa

theorem addrs_of_append (rrl : List DnsRr) (name : Option Name) (recurse : Bool) (lst : List DnsRr)
    (h : ∀ rr ∈ lst, IsAddr rr) : ∀ rr ∈ appendAll rrl name .a .aaaa recurse lst, IsAddr rr := by
  refine rrLoop_kept rrAppendHandler _ (fun lst => ∀ rr ∈ lst, IsAddr rr) ?_ rrl _ name rrl lst h
  intro name rr lst hskip hlst rr' hrr'
  -- An alias is passed to the handler as well, which does not add it.
  rcases type_of_passed .a .aaaa recurse name rr hskip with haddr | hcname
  · have hlist : (rrAppendHandler rr lst).2 = addNew lst rr := by
      rcases haddr with haddr | haddr <;> simp only [rrAppendHandler, haddr, addNew]
    rw [hlist, addNew] at hrr'
    split at hrr'
    · exact hlst rr' hrr'
    · rcases List.mem_append.mp hrr' with hrr' | hrr'
      · exact hlst rr' hrr'
      · exact List.mem_singleton.mp hrr' ▸ haddr
  · rw [rrAppendHandler, hcname] at hrr'
    exact hlst rr' hrr'

/-! ## Servers of one name -/

/-- What a search for servers through records has collected: servers, each
    once, those of one name in order, and of every name all or none. -/
structure Orderly (rrl lst : List DnsRr) : Prop where
  sub : ∀ rr ∈ lst, rr ∈ rrl ∧ rr.type = .srv
  nodup : lst.Nodup
  ordered : lst.Pairwise (fun rr1 rr2 => SameName rr1 rr2 → stdSortHandler .srv rr1 rr2 = true)
  whole : ∀ rr ∈ lst, ∀ rr' ∈ rrl, rr'.type = .srv → SameName rr rr' → rr'.dnsclass = classIn →
    rr' ∈ lst

theorem wanted_iff (n : Name) (rr : DnsRr) :
    wanted (some n) rr = true ↔ strCasecmp n rr.name = true ∧ rr.dnsclass = classIn := by
  simp only [wanted, Option.any_some, Bool.not_not, Bool.and_eq_true, beq_iff_eq]

theorem strCasecmp_iff (a b : Name) :
    strCasecmp a b = true ↔ a.map Char.toLower = b.map Char.toLower := by
  rw [strCasecmp, beq_iff_eq]

theorem SameName.symm {rr1 rr2 : DnsRr} (h : SameName rr1 rr2) : SameName rr2 rr1 :=
  (strCasecmp_iff _ _).mpr ((strCasecmp_iff _ _).mp h).symm

theorem sameName_of (n : Name) (rr1 rr2 : DnsRr) (h1 : strCasecmp n rr1.name = true)
    (h2 : strCasecmp n rr2.name = true) : SameName rr1 rr2 := by
  rw [SameName, strCasecmp_iff]
  rw [strCasecmp_iff] at h1 h2
  exact h1.symm.trans h2

theorem strCasecmp_of (n : Name) (rr1 rr2 : DnsRr) (h1 : strCasecmp n rr1.name = true)
    (h : SameName rr1 rr2) : strCasecmp n rr2.name = true := by
  rw [strCasecmp_iff]
  rw [strCasecmp_iff] at h1
  rw [SameName, strCasecmp_iff] at h
  exact h1.trans h

/-- One pass over the servers keeps what is collected in order. -/
theorem orderly_pass (n : Name) (front back lst : List DnsRr) (hfront : ∀ rr ∈ front, rr.type = .srv)
    (hback : ∀ rr ∈ back, rr.type ≠ .srv)
    (hsorted : front.Pairwise (fun rr1 rr2 => stdSortHandler .srv rr1 rr2 = true))
    (h : Orderly (front ++ back) lst) :
    Orderly (front ++ back) ((front.filter (wanted (some n))).foldl addNew lst) := by
  have hmem : ∀ rr ∈ front ++ back, rr.type = .srv → rr ∈ front := by
    intro rr hrr hsrv
    rcases List.mem_append.mp hrr with hrr | hrr
    · exact hrr
    · exact absurd hsrv (hback rr hrr)
  rcases foldl_addNew (front.filter (wanted (some n))) lst with ⟨ys, hfold, hsub, hnd, hall⟩
  have hys : ∀ rr ∈ ys, rr ∈ front ∧ strCasecmp n rr.name = true ∧ rr.dnsclass = classIn := by
    intro rr hrr
    have := List.mem_filter.mp (hsub.subset hrr)
    exact ⟨this.1, (wanted_iff n rr).mp this.2⟩
  by_cases hcome : ∃ rr ∈ lst, strCasecmp n rr.name = true
  · -- All of this name have been collected before.
    rcases hcome with ⟨rr0, hrr0, hname⟩
    have hold : ys = [] := by
      rw [List.eq_nil_iff_forall_not_mem]
      intro rr hrr
      have hin := hys rr hrr
      have hlst := h.whole rr0 hrr0 rr (List.mem_append_left back hin.1) (hfront rr hin.1)
        (sameName_of n rr0 rr hname hin.2.1) hin.2.2
      exact List.disjoint_of_nodup_append (hnd h.nodup) hlst hrr
    rw [hfold, hold, List.append_nil]
    exact h
  · -- None of this name have been, and the sorted servers come in one piece.
    rw [hfold]
    refine ⟨?_, hnd h.nodup, ?_, ?_⟩
    · intro rr hrr
      rcases List.mem_append.mp hrr with hrr | hrr
      · exact h.sub rr hrr
      · exact ⟨List.mem_append_left back (hys rr hrr).1, hfront rr (hys rr hrr).1⟩
    · refine List.pairwise_append.mpr ⟨h.ordered, ?_, ?_⟩
      · refine List.Pairwise.imp ?_ ((hsorted.filter _).sublist hsub)
        intro rr rr' hle _
        exact hle
      · intro rr hrr rr' hrr' hsame
        exact absurd ⟨rr, hrr, strCasecmp_of n rr' rr (hys rr' hrr').2.1 hsame.symm⟩ hcome
    · intro rr hrr rr' hrr' hsrv hsame hclass
      rcases List.mem_append.mp hrr with hrr | hrr
      · exact List.mem_append_left ys (h.whole rr hrr rr' hrr' hsrv hsame hclass)
      · refine hall rr' (List.mem_filter.mpr ⟨hmem rr' hrr' hsrv, (wanted_iff n rr').mpr
          ⟨strCasecmp_of n rr rr' (hys rr hrr).2.1 hsame, hclass⟩⟩)

/-- A record that is no server is passed without being added. -/
theorem rrAppend_other (recurse : Bool) (name : Option Name) (rr : DnsRr) (lst : List DnsRr)
    (h : rr.type ≠ .srv) (hskip : skips (srvQuery recurse) name rr = false) :
    rrAppendHandler rr lst = (false, lst) := by
  have hcname : rr.type = .cname :=
    (type_of_passed .srv .srv recurse name rr hskip).resolve_left (fun hsrv => h (or_self_iff.mp hsrv))
  simp only [rrAppendHandler, hcname]

/-- The loop behind the servers changes nothing itself. -/
theorem rrPass_back (recurse : Bool) (deeper : Name → List DnsRr → Option DnsRr × List DnsRr)
    (next : List DnsRr → List DnsRr → Option DnsRr × List DnsRr) (I : List DnsRr → Prop)
    (hdeeper : ∀ cname lst, I lst → I (deeper cname lst).2)
    (hnext : ∀ rest lst, (∀ rr ∈ rest, rr.type ≠ .srv) → I lst → I (next rest lst).2)
    (name : Option Name) (back : List DnsRr) : ∀ (lst : List DnsRr),
    (∀ rr ∈ back, rr.type ≠ .srv) → I lst →
    I (rrPass rrAppendHandler (srvQuery recurse) deeper next name back lst).2 := by
  induction back with
  | nil =>
      intro lst _ h
      exact h
  | cons rr back ih =>
      intro lst hback h
      have hrest := fun rr' hrr' => hback rr' (List.mem_cons_of_mem rr hrr')
      rw [rrPass]
      cases hskip : skips (srvQuery recurse) name rr with
      | true => exact ih lst hrest h
      | false =>
          rw [rrAppend_other recurse name rr lst (hback rr List.mem_cons_self) hskip]
          simp only [Bool.false_eq_true, if_false]
          cases follows (srvQuery recurse) rr with
          | none => exact ih lst hrest h
          | some cname =>
              have hdeep := hdeeper cname lst h
              cases hd : deeper cname lst with
              | mk found lst' =>
                  rw [hd] at hdeep
                  cases found with
                  | some rr' =>
                      simp only [hd]
                      exact hdeep
                  | none =>
                      simp only [hd]
                      exact hnext back lst' hrest hdeep

/-- The last loop behind the servers changes nothing. -/
theorem rrLast_back (recurse : Bool) (name : Option Name) (back : List DnsRr) :
    ∀ (lst : List DnsRr), (∀ rr ∈ back, rr.type ≠ .srv) →
    (rrLast rrAppendHandler (srvQuery recurse) name back lst).2 = lst := by
  induction back with
  | nil =>
      intro lst _
      rfl
  | cons rr back ih =>
      intro lst hback
      have hrest := fun rr' hrr' => hback rr' (List.mem_cons_of_mem rr hrr')
      rw [rrLast]
      cases hskip : skips (srvQuery recurse) name rr with
      | true => exact ih lst hrest
      | false =>
          rw [rrAppend_other recurse name rr lst (hback rr List.mem_cons_self) hskip]
          exact ih lst hrest

/-- A search keeps what it has collected in order, on the way through the
    records behind the servers and in a pass for another name. -/
theorem rrLoop_orderly (recurse : Bool) (front back : List DnsRr)
    (hfront : ∀ rr ∈ front, rr.type = .srv) (hback : ∀ rr ∈ back, rr.type ≠ .srv)
    (hsorted : front.Pairwise (fun rr1 rr2 => stdSortHandler .srv rr1 rr2 = true)) (left : Nat) :
    (∀ name rest lst, (∀ rr ∈ rest, rr.type ≠ .srv) → Orderly (front ++ back) lst →
      Orderly (front ++ back)
        (rrLoop rrAppendHandler (srvQuery recurse) (front ++ back) left name rest lst).2) ∧
    (∀ n lst, Orderly (front ++ back) lst → Orderly (front ++ back)
      (rrLoop rrAppendHandler (srvQuery recurse) (front ++ back) left (some n) (front ++ back)
        lst).2) := by
  -- By induction on the passes that are left: an alias starts one for another
  -- name, and the loop behind it goes on with one less too.
  induction left with
  | zero =>
      refine ⟨fun name rest lst hrest h => ?_, fun n lst h => ?_⟩
      · rw [rrLoop, rrLast_back recurse name rest lst hrest]
        exact h
      · rw [rrLoop, rrLast_front recurse (some n) back front lst hfront,
          rrLast_back recurse (some n) back _ hback]
        exact orderly_pass n front back lst hfront hback hsorted h
  | succ left ih =>
      have hloop : ∀ name rest lst, (∀ rr ∈ rest, rr.type ≠ .srv) → Orderly (front ++ back) lst →
          Orderly (front ++ back) (rrPass rrAppendHandler (srvQuery recurse)
            (fun cname s => if left = 0 then (none, s) else
              rrLoop rrAppendHandler (srvQuery recurse) (front ++ back) left (some cname)
                (front ++ back) s)
            (rrLoop rrAppendHandler (srvQuery recurse) (front ++ back) left name) name rest lst).2 := by
        intro name rest lst hrest h
        refine rrPass_back recurse _ _ _ ?_ (ih.1 name) name rest lst hrest h
        intro cname lst' h'
        split
        · exact h'
        · exact ih.2 cname lst' h'
      refine ⟨fun name rest lst hrest h => ?_, fun n lst h => ?_⟩
      · rw [rrLoop]
        exact hloop name rest lst hrest h
      · rw [rrLoop, rrPass_front recurse _ _ (some n) back front lst hfront]
        exact hloop (some n) back _ hback (orderly_pass n front back lst hfront hback hsorted h)

/-- The servers of a sorted list stand in front. -/
theorem servers_in_front (rrl : List DnsRr) :
    ∃ front back, dnsRrlistSort rrl .srv = front ++ back ∧ (∀ rr ∈ front, rr.type = .srv) ∧
      (∀ rr ∈ back, rr.type ≠ .srv) ∧
      front.Pairwise (fun rr1 rr2 => stdSortHandler .srv rr1 rr2 = true) := by
  have hsorted := (dnsRrlistSort_spec rrl .srv).2
  refine ⟨(dnsRrlistSort rrl .srv).takeWhile (fun rr => rr.type = .srv),
    (dnsRrlistSort rrl .srv).dropWhile (fun rr => rr.type = .srv),
    List.takeWhile_append_dropWhile.symm, ?_, ?_, hsorted.sublist (List.takeWhile_sublist _)⟩
  · intro rr hrr
    have hsrv := List.mem_takeWhile_imp hrr
    exact of_decide_eq_true hsrv
  · intro rr hrr
    have htail := hsorted.sublist (List.dropWhile_sublist (fun rr => decide (rr.type = .srv)))
    cases hd : (dnsRrlistSort rrl .srv).dropWhile (fun rr => decide (rr.type = .srv)) with
    | nil =>
        rw [hd] at hrr
        exact absurd hrr List.not_mem_nil
    | cons rr0 rest =>
        -- The first record behind the servers is none, so no later one is.
        have hfirst := List.head?_dropWhile_not (fun rr => decide (rr.type = .srv))
          (dnsRrlistSort rrl .srv)
        rw [hd] at hfirst
        have hhead : rr0.type ≠ .srv := of_decide_eq_false hfirst
        rw [hd] at hrr htail
        rcases List.mem_cons.mp hrr with hrr | hrr
        · exact hrr ▸ hhead
        · have hle := (List.pairwise_cons.mp htail).1 rr hrr
          rw [stdSortHandler, if_pos hhead.symm, decide_eq_true_eq] at hle
          exact hle.symm

/-- The servers that the additional records have for a name. -/
theorem servers_of_name (addl : List DnsRr) (n : Name) : Orderly (dnsRrlistSort addl .srv)
    (appendAll (dnsRrlistSort addl .srv) (some n) .srv .srv true []) := by
  rcases servers_in_front addl with ⟨front, back, hrrl, hfront, hback, hsorted⟩
  rw [hrrl]
  refine (rrLoop_orderly true front back hfront hback hsorted (cnameRecurseMax + 1)).2 n [] ?_
  exact ⟨fun rr hrr => absurd hrr List.not_mem_nil, List.nodup_nil, List.Pairwise.nil,
    fun rr hrr => absurd hrr List.not_mem_nil⟩

/-- The servers of an answer. -/
theorem servers_of_answer (ansl : List DnsRr) : Orderly (dnsRrlistSort ansl .srv)
    (appendAll (dnsRrlistSort ansl .srv) none .srv .srv false []) := by
  rcases servers_in_front ansl with ⟨front, back, hrrl, hfront, hback, hsorted⟩
  rw [hrrl]
  rcases foldl_addNew (front.filter (wanted none)) [] with ⟨ys, hfold, hsub, hnd, hall⟩
  rw [List.nil_append] at hfold hnd hall
  have hfirst : Orderly (front ++ back) ((front.filter (wanted none)).foldl addNew []) := by
    rw [hfold]
    refine ⟨fun rr hrr => ?_, hnd List.nodup_nil, ?_, ?_⟩
    · have hin := (List.mem_filter.mp (hsub.subset hrr)).1
      exact ⟨List.mem_append_left back hin, hfront rr hin⟩
    · refine List.Pairwise.imp ?_ ((hsorted.filter _).sublist hsub)
      intro rr rr' hle _
      exact hle
    · intro rr _ rr' hrr' hsrv _ hclass
      refine hall rr' (List.mem_filter.mpr ⟨?_, ?_⟩)
      · rcases List.mem_append.mp hrr' with hrr' | hrr'
        · exact hrr'
        · exact absurd hsrv (hback rr' hrr')
      · rw [wanted, hclass]
        rfl
  change Orderly _ (rrLoop rrAppendHandler (srvQuery false) (front ++ back) (cnameRecurseMax + 1) none
    (front ++ back) []).2
  rw [rrLoop, rrPass_front false _ _ none back front [] hfront]
  refine rrPass_back false _ _ _ ?_ ?_ none back _ hback hfirst
  · intro cname lst h
    split
    · exact h
    · exact (rrLoop_orderly false front back hfront hback hsorted _).2 cname lst h
  · exact (rrLoop_orderly false front back hfront hback hsorted _).1 none

/-- A server is tried before another: it has the lower priority value, or the
    same and is not behind for its weight. -/
def Before (rr1 rr2 : DnsRr) : Prop :=
  ∀ pri1 weight1 port1 target1 pri2 weight2 port2 target2,
    rr1.rdata = .srv pri1 weight1 port1 target1 → rr2.rdata = .srv pri2 weight2 port2 target2 →
    pri1 < pri2 ∨ pri1 = pri2 ∧ (weight2 = 0 → weight1 = 0)

theorem before_of_sorted (rr1 rr2 : DnsRr) (h : stdSortHandler .srv rr1 rr2 = true) :
    Before rr1 rr2 := by
  intro pri1 weight1 port1 target1 pri2 weight2 port2 target2 h1 h2
  have ht1 : rr1.type = .srv := by rw [DnsRr.type, h1]
  have ht2 : rr2.type = .srv := by rw [DnsRr.type, h2]
  rw [stdSortHandler_iff, sortKey, sortKey, if_neg (not_not_intro ht1.symm),
    if_neg (not_not_intro ht2.symm), h1, h2] at h
  rcases (key_le_key _ _ _ _).mp h with hpri | ⟨hpri, hweight⟩
  · exact Or.inl hpri
  · refine Or.inr ⟨hpri, fun hz => ?_⟩
    by_contra hnz
    rw [if_neg hnz, if_pos hz] at hweight
    exact absurd hweight (by decide)

end Dns

end SipPerf
