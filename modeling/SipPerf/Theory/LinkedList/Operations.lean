import SipPerf.Lib.Transition
import SipPerf.Theory.LinkedList.Memory

/-!
# Operations on Linked Lists

Every operation writes the fields around one element, in some order. The
writes are the same for all of them, so each operation is first written as
writes of what comes after an element and of what comes before one, and these
are changes of a path.

## Main definitions

* `Mem.setFwd`, `Mem.setBwd`: The writes.

## Theorems

* `listAppend_repr`, `listPrepend_repr`, `listInsertBefore_repr`,
  `listInsertAfter_repr`, `listUnlink_repr`: The operations.
* `memStep_repr`, `exec_repr`: Any operations in any order.
-/

namespace SipPerf

namespace LinkedList

open Chain Transition

variable {α κ δ : Type*}

/-! ## Writes -/

section Writes

variable [DecidableEq α]

theorem fwd_setLe (m : Mem α κ δ) (e : α) (L : Le α κ δ) (k : κ) :
    (m.setLe e L).fwd k = Function.update (m.fwd k) (some e) L.next := by
  refine Function.eq_update_iff.mpr ⟨?_, fun q hq => ?_⟩
  · simp only [Mem.fwd, Mem.setLe, Function.update_self]
  · cases q with
    | none => rfl
    | some x =>
        simp only [Mem.fwd, Mem.setLe, Function.update_of_ne (fun hc => hq (congrArg some hc))]

theorem bwd_setLe (m : Mem α κ δ) (e : α) (L : Le α κ δ) (k : κ) :
    (m.setLe e L).bwd k = Function.update (m.bwd k) (some e) L.prev := by
  refine Function.eq_update_iff.mpr ⟨?_, fun q hq => ?_⟩
  · simp only [Mem.bwd, Mem.setLe, Function.update_self]
  · cases q with
    | none => rfl
    | some x =>
        simp only [Mem.bwd, Mem.setLe, Function.update_of_ne (fun hc => hq (congrArg some hc))]

theorem setLe_frame (m : Mem α κ δ) (e : α) (L : Le α κ δ) (x : α) (hx : x ≠ e) :
    ((m.setLe e L).le x).list = (m.le x).list ∧ ((m.setLe e L).le x).data = (m.le x).data := by
  simp only [Mem.setLe, Function.update_of_ne hx, and_self]

variable [DecidableEq κ]

/-- What comes after an element, or after nothing, is changed. -/
def Mem.setFwd (m : Mem α κ δ) (k : κ) (p v : Option α) : Mem α κ δ :=
  match p with
  | none => m.setHead k v
  | some e => m.setNext e v

/-- What comes before an element, or before nothing, is changed. -/
def Mem.setBwd (m : Mem α κ δ) (k : κ) (n v : Option α) : Mem α κ δ :=
  match n with
  | none => m.setTail k v
  | some e => m.setPrev e v

theorem fwd_setFwd (m : Mem α κ δ) (k : κ) (p v : Option α) :
    (m.setFwd k p v).fwd k = Function.update (m.fwd k) p v := by
  cases p with
  | none =>
      refine Function.eq_update_iff.mpr ⟨?_, fun q hq => ?_⟩
      · simp only [Mem.fwd, Mem.setFwd, Mem.setHead, Function.update_self]
      · cases q with
        | none => exact absurd rfl hq
        | some x => rfl
  | some e => exact fwd_setLe m e _ k

theorem bwd_setFwd (m : Mem α κ δ) (k : κ) (p v : Option α) : (m.setFwd k p v).bwd k = m.bwd k := by
  cases p with
  | none => rfl
  | some e =>
      rw [Mem.setFwd, Mem.setNext, bwd_setLe]
      exact Function.update_eq_self (some e) (m.bwd k)

theorem bwd_setBwd (m : Mem α κ δ) (k : κ) (n v : Option α) :
    (m.setBwd k n v).bwd k = Function.update (m.bwd k) n v := by
  cases n with
  | none =>
      refine Function.eq_update_iff.mpr ⟨?_, fun q hq => ?_⟩
      · simp only [Mem.bwd, Mem.setBwd, Mem.setTail, Function.update_self]
      · cases q with
        | none => exact absurd rfl hq
        | some x => rfl
  | some e => exact bwd_setLe m e _ k

theorem fwd_setBwd (m : Mem α κ δ) (k : κ) (n v : Option α) : (m.setBwd k n v).fwd k = m.fwd k := by
  cases n with
  | none => rfl
  | some e =>
      rw [Mem.setBwd, Mem.setPrev, fwd_setLe]
      exact Function.update_eq_self (some e) (m.fwd k)

/-- A change to a link is no change to what an element belongs to. -/
theorem setFwd_frame (m : Mem α κ δ) (k : κ) (p v : Option α) (x : α) :
    ((m.setFwd k p v).le x).list = (m.le x).list ∧ ((m.setFwd k p v).le x).data = (m.le x).data := by
  cases p with
  | none => exact ⟨rfl, rfl⟩
  | some e =>
      by_cases hx : x = e
      · rw [hx]
        simp only [Mem.setFwd, Mem.setNext, Mem.setLe, Function.update_self, and_self]
      · exact setLe_frame m e _ x hx

theorem setBwd_frame (m : Mem α κ δ) (k : κ) (n v : Option α) (x : α) :
    ((m.setBwd k n v).le x).list = (m.le x).list ∧ ((m.setBwd k n v).le x).data = (m.le x).data := by
  cases n with
  | none => exact ⟨rfl, rfl⟩
  | some e =>
      by_cases hx : x = e
      · rw [hx]
        simp only [Mem.setBwd, Mem.setPrev, Mem.setLe, Function.update_self, and_self]
      · exact setLe_frame m e _ x hx

theorem setFwd_ends (m : Mem α κ δ) (k k' : κ) (p v : Option α) (hk : k' ≠ k) :
    (m.setFwd k p v).head k' = m.head k' ∧ (m.setFwd k p v).tail k' = m.tail k' := by
  cases p with
  | none => simp only [Mem.setFwd, Mem.setHead, Function.update_of_ne hk, and_self]
  | some e => exact ⟨rfl, rfl⟩

theorem setBwd_ends (m : Mem α κ δ) (k k' : κ) (n v : Option α) (hk : k' ≠ k) :
    (m.setBwd k n v).head k' = m.head k' ∧ (m.setBwd k n v).tail k' = m.tail k' := by
  cases n with
  | none => simp only [Mem.setBwd, Mem.setTail, Function.update_of_ne hk, and_self]
  | some e => exact ⟨rfl, rfl⟩

/-- Writes to other places can be made in any order. -/
theorem setFwd_setLe (m : Mem α κ δ) (k : κ) (p v : Option α) (e : α) (L : Le α κ δ)
    (hp : p ≠ some e) : (m.setFwd k p v).setLe e L = (m.setLe e L).setFwd k p v := by
  cases p with
  | none => rfl
  | some x =>
      have hne : x ≠ e := fun hc => hp (congrArg some hc)
      simp only [Mem.setFwd, Mem.setNext, Mem.setLe, Function.update_of_ne hne,
        Function.update_comm hne]

theorem setBwd_setLe (m : Mem α κ δ) (k : κ) (n v : Option α) (e : α) (L : Le α κ δ)
    (hn : n ≠ some e) : (m.setBwd k n v).setLe e L = (m.setLe e L).setBwd k n v := by
  cases n with
  | none => rfl
  | some x =>
      have hne : x ≠ e := fun hc => hn (congrArg some hc)
      simp only [Mem.setBwd, Mem.setPrev, Mem.setLe, Function.update_of_ne hne,
        Function.update_comm hne]

theorem setBwd_setFwd (m : Mem α κ δ) (k : κ) (p v n w : Option α) :
    (m.setBwd k n w).setFwd k p v = (m.setFwd k p v).setBwd k n w := by
  cases p with
  | none => cases n <;> rfl
  | some x => cases n with
    | none => rfl
    | some y =>
        -- The two writes may meet in one element, but in different fields.
        by_cases hxy : x = y
        · simp only [Mem.setFwd, Mem.setNext, Mem.setBwd, Mem.setPrev, Mem.setLe, hxy,
            Function.update_self, Function.update_idem]
        · simp only [Mem.setFwd, Mem.setNext, Mem.setBwd, Mem.setPrev, Mem.setLe,
            Function.update_of_ne hxy, Function.update_of_ne (Ne.symm hxy), Function.update_comm hxy]

end Writes

/-! ## Operations -/

section Operations

theorem Repr.ne_of_free {m : Mem α κ δ} {a : Lists α κ δ} (h : Repr m a) (k : κ) (e x : α)
    (hfree : (m.le e).list = none) (hx : x ∈ a.chain k) : x ≠ e := by
  intro hc
  rw [hc, h.owner, hfree] at hx
  exact absurd hx.symm (Option.some_ne_none k)

/-- A list has no first element if it has no last one. -/
theorem Repr.head_tail {m : Mem α κ δ} {a : Lists α κ δ} (h : Repr m a) (k : κ) :
    m.head k = none ↔ m.tail k = none := by
  rw [h.head_eq, h.tail_eq]
  rcases List.eq_nil_or_concat (a.chain k) with hnil | ⟨xs, x, hcat⟩
  · rw [hnil]
    exact ⟨fun _ => rfl, fun _ => rfl⟩
  · rw [hcat, List.concat_eq_append, lastOr_append_singleton, headOr_none]
    simp only [List.head?_eq_none_iff, List.append_eq_nil_iff, List.cons_ne_nil, and_false,
      reduceCtorEq]

theorem update_outside {ι β : Type*} [DecidableEq ι] (f : ι → β) (i j q : ι) (x y : β) (hq : q ≠ i) :
    Function.update (Function.update f i x) j y q = Function.update f j y q := by
  by_cases hj : q = j
  · rw [hj, Function.update_self, Function.update_self]
  · rw [Function.update_of_ne hj, Function.update_of_ne hj, Function.update_of_ne hq]

variable [DecidableEq α] [DecidableEq κ]

/-- An element that is in a list stays where it is. -/
theorem Repr.place_owned {m : Mem α κ δ} {a : Lists α κ δ} (h : Repr m a) (k : κ) (e : α)
    (data : Option δ) (put : List α → List α) (hown : ¬ (m.le e).list = none) :
    Repr m (a.place k e data put) := by
  rw [Lists.place, if_pos (by rw [← h.list]; exact Option.isSome_iff_ne_none.mpr hown)]
  exact h

/-- What every insertion comes to: an element is linked in between `p` and
    `n`. -/
def link (m : Mem α κ δ) (k : κ) (p n : Option α) (e : α) (data : Option δ) : Mem α κ δ :=
  ((m.setLe e ⟨p, n, some k, data⟩).setFwd k p (some e)).setBwd k n (some e)

theorem link_repr (m : Mem α κ δ) (a : Lists α κ δ) (k : κ) (e : α) (data : Option δ)
    (put : List α → List α) (xs ys : List α) (h : Repr m a) (hfree : (m.le e).list = none)
    (hk : a.chain k = xs ++ ys) (hput : put (a.chain k) = xs ++ e :: ys) :
    Repr (link m k (lastOr none xs) (headOr none ys) e data) (a.place k e data put) := by
  have hout (x : α) (hx : x ∈ xs ++ ys) : x ≠ e := h.ne_of_free k e x hfree (hk ▸ hx)
  have hp : some e ≠ lastOr none xs :=
    (Chain.lastOr_ne xs e (fun hc => hout e (List.mem_append_left ys hc) rfl)).symm
  have hn : some e ≠ headOr none ys :=
    (Chain.headOr_ne ys e (fun hc => hout e (List.mem_append_right xs hc) rfl)).symm
  have hfwd : (link m k (lastOr none xs) (headOr none ys) e data).fwd k = Function.update
      (Function.update (m.fwd k) (some e) (headOr none ys)) (lastOr none xs) (some e) := by
    rw [link, fwd_setBwd, fwd_setFwd, fwd_setLe]
  have hbwd : (link m k (lastOr none xs) (headOr none ys) e data).bwd k = Function.update
      (Function.update (m.bwd k) (some e) (lastOr none xs)) (headOr none ys) (some e) := by
    rw [link, bwd_setBwd, bwd_setFwd, bwd_setLe]
  -- `e` is none of its neighbours, so no write undoes another.
  refine repr_insert m _ a k e data put xs ys h hfree hk hput ?_ ?_ ?_ ?_ ⟨?_, ?_, ?_, ?_⟩
  · rw [hfwd, Function.update_of_ne hp, Function.update_self]
  · rw [hbwd, Function.update_of_ne hn, Function.update_self]
  · rw [link, (setBwd_frame _ k _ _ e).1, (setFwd_frame _ k _ _ e).1]
    simp only [Mem.setLe, Function.update_self]
  · rw [link, (setBwd_frame _ k _ _ e).2, (setFwd_frame _ k _ _ e).2]
    simp only [Mem.setLe, Function.update_self]
  · intro q hq
    rw [hfwd, update_outside _ _ _ _ _ _ hq]
  · intro q hq
    rw [hbwd, update_outside _ _ _ _ _ _ hq]
  · intro k' hk'
    rw [link, (setBwd_ends _ k k' _ _ hk').1, (setFwd_ends _ k k' _ _ hk').1,
      (setBwd_ends _ k k' _ _ hk').2, (setFwd_ends _ k k' _ _ hk').2]
    exact ⟨rfl, rfl⟩
  · intro x hx
    rw [link, (setBwd_frame _ k _ _ x).1, (setFwd_frame _ k _ _ x).1,
      (setBwd_frame _ k _ _ x).2, (setFwd_frame _ k _ _ x).2]
    exact setLe_frame m e _ x hx

theorem listAppend_eq (m : Mem α κ δ) (k : κ) (e : α) (data : Option δ)
    (hfree : (m.le e).list = none) (hnil : m.head k = none ↔ m.tail k = none) :
    listAppend m k e data = link m k (m.tail k) none e data := by
  unfold listAppend
  rw [if_neg (by rw [hfree]; exact Bool.false_ne_true)]
  -- The code tests the head to know whether to write it.
  cases htail : m.tail k with
  | none =>
      have hhead : m.head k = none := hnil.mpr htail
      simp only [link, Mem.setFwd, Mem.setBwd, Mem.setLe, Mem.setHead, Mem.setTail, hhead, htail,
        if_true]
  | some t =>
      have hhead : m.head k ≠ none := fun hc => by
        rw [hnil.mp hc] at htail
        exact absurd htail.symm (Option.some_ne_none t)
      simp only [link, Mem.setFwd, Mem.setBwd, Mem.setLe, Mem.setNext, Mem.setTail, hhead, htail,
        if_false]

theorem listPrepend_eq (m : Mem α κ δ) (k : κ) (e : α) (data : Option δ)
    (hfree : (m.le e).list = none) (hnil : m.head k = none ↔ m.tail k = none) :
    listPrepend m k e data = link m k none (m.head k) e data := by
  unfold listPrepend
  rw [if_neg (by rw [hfree]; exact Bool.false_ne_true), link, ← setBwd_setFwd]
  cases hhead : m.head k with
  | none =>
      have htail : m.tail k = none := hnil.mp hhead
      simp only [Mem.setFwd, Mem.setBwd, Mem.setLe, Mem.setHead, Mem.setTail, hhead, htail, if_true]
  | some t =>
      have htail : m.tail k ≠ none := fun hc => by
        rw [hnil.mpr hc] at hhead
        exact absurd hhead.symm (Option.some_ne_none t)
      simp only [Mem.setFwd, Mem.setBwd, Mem.setLe, Mem.setPrev, Mem.setHead, hhead, htail, if_false]

theorem listInsertBefore_eq (m : Mem α κ δ) (k : κ) (e ile : α) (data : Option δ)
    (hfree : (m.le ile).list = none) (hp : (m.le e).prev ≠ some ile)
    (hfirst : (m.le e).prev = none → m.head k = some e) :
    listInsertBefore m k e ile data = link m k (m.le e).prev (some e) ile data := by
  unfold listInsertBefore
  rw [if_neg (by rw [hfree]; exact Bool.false_ne_true)]
  cases hprev : (m.le e).prev with
  | none =>
      simp only [hfirst hprev, if_true, link, Mem.setFwd, Mem.setBwd, Mem.setHead, Mem.setLe,
        Mem.setPrev, hprev]
  | some p =>
      -- `prev` is read once more after the first write.
      have hread : ((m.setNext p (some ile)).le e).prev = some p :=
        (congrFun (bwd_setFwd m k (some p) (some ile)) (some e)).trans hprev
      simp only [hread]
      exact congrArg (fun m => m.setBwd k (some e) (some ile))
        (setFwd_setLe m k (some p) (some ile) ile _ (hprev ▸ hp))

theorem listInsertAfter_eq (m : Mem α κ δ) (k : κ) (e ile : α) (data : Option δ)
    (hfree : (m.le ile).list = none) (hn : (m.le e).next ≠ some ile)
    (hlast : (m.le e).next = none → m.tail k = some e) :
    listInsertAfter m k e ile data = link m k (some e) (m.le e).next ile data := by
  unfold listInsertAfter
  rw [if_neg (by rw [hfree]; exact Bool.false_ne_true), link, ← setBwd_setFwd]
  cases hnext : (m.le e).next with
  | none =>
      simp only [hlast hnext, if_true, Mem.setFwd, Mem.setBwd, Mem.setTail, Mem.setLe,
        Mem.setNext, hnext]
  | some n =>
      -- And `next` after the first write here.
      have hread : ((m.setPrev n (some ile)).le e).next = some n :=
        (congrFun (fwd_setBwd m k (some n) (some ile)) (some e)).trans hnext
      simp only [hread]
      exact congrArg (fun m => m.setFwd k (some e) (some ile))
        (setBwd_setLe m k (some n) (some ile) ile _ (hnext ▸ hn))

theorem listUnlink_eq (m : Mem α κ δ) (k : κ) (e : α) (hlist : (m.le e).list = some k)
    (hp : (m.le e).prev ≠ some e) (hn : (m.le e).next ≠ some e) :
    listUnlink m e = ((m.setLe e ⟨none, none, none, (m.le e).data⟩).setFwd k (m.le e).prev
      (m.le e).next).setBwd k (m.le e).next (m.le e).prev := by
  -- The code as three writes, each with what it reads at that point.
  have hwrites : listUnlink m e = ((m.setFwd k (m.le e).prev (m.le e).next).setBwd k
      ((m.setFwd k (m.le e).prev (m.le e).next).le e).next
      ((m.setFwd k (m.le e).prev (m.le e).next).le e).prev).setLe e
      ⟨none, none, none, (((m.setFwd k (m.le e).prev (m.le e).next).setBwd k
        ((m.setFwd k (m.le e).prev (m.le e).next).le e).next
        ((m.setFwd k (m.le e).prev (m.le e).next).le e).prev).le e).data⟩ := by
    unfold listUnlink
    rw [hlist]
    cases (m.le e).prev with
    | none =>
        simp only [Mem.setFwd]
        cases ((m.setHead k (m.le e).next).le e).next <;> rfl
    | some p =>
        simp only [Mem.setFwd]
        cases ((m.setNext p (m.le e).next).le e).next <;> rfl
  -- What it reads is what was there before the first of them.
  have hnext : ((m.setFwd k (m.le e).prev (m.le e).next).le e).next = (m.le e).next := by
    have := congrFun (fwd_setFwd m k (m.le e).prev (m.le e).next) (some e)
    rwa [Function.update_of_ne hp.symm] at this
  have hprev : ((m.setFwd k (m.le e).prev (m.le e).next).le e).prev = (m.le e).prev :=
    congrFun (bwd_setFwd m k (m.le e).prev (m.le e).next) (some e)
  have hdata : (((m.setFwd k (m.le e).prev (m.le e).next).setBwd k (m.le e).next
      (m.le e).prev).le e).data = (m.le e).data :=
    (setBwd_frame _ k _ _ e).2.trans (setFwd_frame m k _ _ e).2
  rw [hwrites, hnext, hprev, hdata, setBwd_setLe _ _ _ _ _ _ hn, setFwd_setLe _ _ _ _ _ _ hp]

/-! ### On lists -/

theorem listAppend_repr (m : Mem α κ δ) (a : Lists α κ δ) (k : κ) (e : α) (data : Option δ)
    (h : Repr m a) :
    Repr (listAppend m k e data) (a.place k e data (fun xs => xs ++ [e])) := by
  by_cases hfree : (m.le e).list = none
  · rw [listAppend_eq m k e data hfree (h.head_tail k), h.tail_eq]
    exact link_repr m a k e data _ (a.chain k) [] h hfree (List.append_nil _).symm rfl
  · rw [listAppend, if_pos (Option.isSome_iff_ne_none.mpr hfree)]
    exact h.place_owned k e data _ hfree

theorem listPrepend_repr (m : Mem α κ δ) (a : Lists α κ δ) (k : κ) (e : α) (data : Option δ)
    (h : Repr m a) : Repr (listPrepend m k e data) (a.place k e data (fun xs => e :: xs)) := by
  by_cases hfree : (m.le e).list = none
  · rw [listPrepend_eq m k e data hfree (h.head_tail k), h.head_eq]
    exact link_repr m a k e data _ [] (a.chain k) h hfree rfl rfl
  · rw [listPrepend, if_pos (Option.isSome_iff_ne_none.mpr hfree)]
    exact h.place_owned k e data _ hfree

theorem listInsertBefore_repr (m : Mem α κ δ) (a : Lists α κ δ) (k : κ) (e ile : α)
    (data : Option δ) (h : Repr m a) (he : e ∈ a.chain k) :
    Repr (listInsertBefore m k e ile data) (a.place k ile data (before e ile)) := by
  by_cases hfree : (m.le ile).list = none
  · rcases List.append_of_mem he with ⟨xs, ys, hk⟩
    have hnd := h.nodup k
    rw [hk] at hnd
    have hxs : e ∉ xs := fun hc =>
      (List.nodup_cons.mp (List.nodup_middle.mp hnd)).1 (List.mem_append_left ys hc)
    have hlinks := h.links k xs ys e hk
    have hout : ile ∉ xs := fun hc =>
      h.ne_of_free k ile ile hfree (hk ▸ List.mem_append_left _ hc) rfl
    rw [listInsertBefore_eq m k e ile data hfree]
    · rw [hlinks.1]
      exact link_repr m a k ile data _ xs (e :: ys) h hfree hk (by rw [hk, before_split xs ys e ile hxs])
    · rw [hlinks.1]
      exact Chain.lastOr_ne xs ile hout
    · intro hnil
      rw [hlinks.1] at hnil
      rcases List.eq_nil_or_concat xs with hx | ⟨zs, z, hx⟩
      · rw [h.head_eq, hk, hx]
        rfl
      · rw [hx, List.concat_eq_append, lastOr_append_singleton] at hnil
        exact absurd hnil (Option.some_ne_none z)
  · rw [listInsertBefore, if_pos (Option.isSome_iff_ne_none.mpr hfree)]
    exact h.place_owned k ile data _ hfree

theorem listInsertAfter_repr (m : Mem α κ δ) (a : Lists α κ δ) (k : κ) (e ile : α)
    (data : Option δ) (h : Repr m a) (he : e ∈ a.chain k) :
    Repr (listInsertAfter m k e ile data) (a.place k ile data (behind e ile)) := by
  by_cases hfree : (m.le ile).list = none
  · rcases List.append_of_mem he with ⟨xs, ys, hk⟩
    have hnd := h.nodup k
    rw [hk] at hnd
    have hxs : e ∉ xs := fun hc =>
      (List.nodup_cons.mp (List.nodup_middle.mp hnd)).1 (List.mem_append_left ys hc)
    have hlinks := h.links k xs ys e hk
    have hout : ile ∉ ys := fun hc =>
      h.ne_of_free k ile ile hfree (hk ▸ List.mem_append_right _ (List.mem_cons_of_mem e hc)) rfl
    have hlast : lastOr none (xs ++ [e]) = some e := lastOr_append_singleton none xs e
    rw [listInsertAfter_eq m k e ile data hfree]
    · rw [hlinks.2, ← hlast]
      refine link_repr m a k ile data _ (xs ++ [e]) ys h hfree ?_ ?_
      · rw [hk, List.append_assoc, List.singleton_append]
      · rw [hk, behind_split xs ys e ile hxs, List.append_assoc, List.singleton_append]
    · rw [hlinks.2]
      exact Chain.headOr_ne ys ile hout
    · intro hnil
      rw [hlinks.2] at hnil
      cases ys with
      | nil => rw [h.tail_eq, hk, hlast]
      | cons y ys => exact absurd hnil (Option.some_ne_none y)
  · rw [listInsertAfter, if_pos (Option.isSome_iff_ne_none.mpr hfree)]
    exact h.place_owned k ile data _ hfree

theorem listUnlink_repr (m : Mem α κ δ) (a : Lists α κ δ) (e : α) (h : Repr m a) :
    Repr (listUnlink m e) (a.remove e) := by
  cases hlist : (m.le e).list with
  | none =>
      rw [listUnlink, hlist, Lists.remove, ← h.list, hlist]
      exact h
  | some k =>
      rcases List.append_of_mem ((h.owner k e).mpr hlist) with ⟨xs, ys, hk⟩
      have hnd := h.nodup k
      rw [hk] at hnd
      have hout := List.nodup_cons.mp (List.nodup_middle.mp hnd)
      have hlinks := h.links k xs ys e hk
      have hp : lastOr none xs ≠ some e :=
        Chain.lastOr_ne xs e (fun hc => hout.1 (List.mem_append_left ys hc))
      have hn : headOr none ys ≠ some e :=
        Chain.headOr_ne ys e (fun hc => hout.1 (List.mem_append_right xs hc))
      rw [listUnlink_eq m k e hlist (hlinks.1 ▸ hp) (hlinks.2 ▸ hn), hlinks.1, hlinks.2]
      refine repr_remove m _ a k e xs ys h hk ?_ ?_ ⟨?_, ?_, ?_, ?_⟩
      · rw [(setBwd_frame _ k _ _ e).1, (setFwd_frame _ k _ _ e).1]
        simp only [Mem.setLe, Function.update_self]
      · rw [(setBwd_frame _ k _ _ e).2, (setFwd_frame _ k _ _ e).2]
        simp only [Mem.setLe, Function.update_self]
      · intro q hq
        rw [fwd_setBwd, fwd_setFwd, fwd_setLe, update_outside _ _ _ _ _ _ hq]
      · intro q hq
        rw [bwd_setBwd, bwd_setFwd, bwd_setLe, update_outside _ _ _ _ _ _ hq]
      · intro k' hk'
        rw [(setBwd_ends _ k k' _ _ hk').1, (setFwd_ends _ k k' _ _ hk').1,
          (setBwd_ends _ k k' _ _ hk').2, (setFwd_ends _ k k' _ _ hk').2]
        exact ⟨rfl, rfl⟩
      · intro x hx
        rw [(setBwd_frame _ k _ _ x).1, (setFwd_frame _ k _ _ x).1, (setBwd_frame _ k _ _ x).2,
          (setFwd_frame _ k _ _ x).2]
        exact setLe_frame m e _ x hx

theorem memStep_repr (m m' : Mem α κ δ) (a : Lists α κ δ) (op : ListOp α κ δ) (h : Repr m a)
    (hstep : memStep m op = some m') : Repr m' (absStep a op) := by
  cases op with
  | append k e data =>
      rw [memStep, Option.some.injEq] at hstep
      exact hstep ▸ listAppend_repr m a k e data h
  | prepend k e data =>
      rw [memStep, Option.some.injEq] at hstep
      exact hstep ▸ listPrepend_repr m a k e data h
  | insertBefore k e ile data =>
      rw [memStep, Option.ite_none_right_eq_some, Option.some.injEq] at hstep
      exact hstep.2 ▸ listInsertBefore_repr m a k e ile data h ((h.owner k e).mpr hstep.1)
  | insertAfter k e ile data =>
      rw [memStep, Option.ite_none_right_eq_some, Option.some.injEq] at hstep
      exact hstep.2 ▸ listInsertAfter_repr m a k e ile data h ((h.owner k e).mpr hstep.1)
  | unlink e =>
      rw [memStep, Option.some.injEq] at hstep
      exact hstep ▸ listUnlink_repr m a e h

theorem exec_repr (ops : List (ListOp α κ δ)) : ∀ (m m' : Mem α κ δ) (a : Lists α κ δ), Repr m a →
    exec memStep m ops = some m' → Repr m' (ops.foldl absStep a) := by
  induction ops with
  | nil =>
      intro m m' a h hrun
      rw [exec, Option.some.injEq] at hrun
      exact hrun ▸ h
  | cons op ops ih =>
      intro m m' a h hrun
      rcases exec_cons memStep m m' op ops hrun with ⟨m1, h1, hrest⟩
      exact ih m1 m' (absStep a op) (memStep_repr m m1 a op h h1) hrest

end Operations

end LinkedList

end SipPerf
