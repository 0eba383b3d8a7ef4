import SipPerf.Theory.AgentOps

/-!
# Looking Up Names

What the map of all user agents holds after any sequence of operations, and
where INVITEs go.

The map is read with an operation that writes to it. As long as every name
that is looked up is that of a registered user agent, the lookup finds
something and writes nothing, the map holds exactly the registered user
agents, and every INVITE reaches the one it is for. The first lookup of any
other name puts a null pointer into the map, and if it was made for an
INVITE, the handler is then invoked on that pointer. So all of this holds of
a sequence of operations exactly when the names looked up are registered.

## Main definitions

* `Exact`: The map holds the registered user agents and nothing else.
* `looks`: The name an operation looks up.
* `LooksUpRegistered`: The name is that of a registered user agent.
* `Sound`: An operation leaves the map exact, and dispatches rightly.

## Theorems

* `getUaByName_cases`: A lookup finds a pointer, or inserts a null one.
* `registryStep_exact`: A step that looks up a registered name, or none,
  keeps the map exact.
* `lookups_sound_iff`: Every operation of a sequence is sound exactly when
  every name looked up is registered.
-/

namespace SipPerf

namespace UAManager

open Transition

variable {name : UAId → String}

/-- The map of all user agents holds the registered ones, each under its name,
    and nothing else. -/
def Exact (s : Registry name) : Prop :=
  ∀ k v, s.mgr.allUes.lookup k = some v ↔ ∃ u ∈ s.registered, k = name u ∧ v = some u

/-- The name that an operation looks up. -/
def looks : RegistryOp → Option String
  | .getUaByName k => some k
  | .invite user => some user
  | _ => none

/-- Every name that the operation looks up is that of a user agent registered
    since the last clear. -/
def LooksUpRegistered (s : Registry name) (op : RegistryOp) : Prop :=
  ∀ k ∈ looks op, ∃ u ∈ s.registered, k = name u

instance decidableLooksUpRegistered (s : Registry name) (op : RegistryOp) :
    Decidable (LooksUpRegistered s op) :=
  inferInstanceAs (Decidable (∀ k ∈ looks op, ∃ u ∈ s.registered, k = name u))

/-- What is asked of an operation: the map is exact after it, a lookup returns
    the user agent of that name and changes nothing, and an INVITE is handed
    to the user agent it names. -/
def Sound (s : Registry name) (op : RegistryOp) : Prop :=
  (∀ s', registryStep s op = some s' → Exact s') ∧
  (∀ k, op = .getUaByName k → (s.mgr.getUaByName k).2 = s.mgr ∧
    ∀ u, (s.mgr.getUaByName k).1 = some u ↔ u ∈ s.registered ∧ k = name u) ∧
  ∀ user, op = .invite user → ∃ u, (s.mgr.staticConnectHandler user).1 = some u ∧ user = name u

theorem getUaByName_cases (m : UAManager name) (k : String) :
    (∃ v, m.allUes.lookup k = some v ∧ m.getUaByName k = (v, m)) ∨
    (m.allUes.lookup k = none ∧ (m.getUaByName k).1 = none ∧
      (m.getUaByName k).2.allUes.lookup k = some none) := by
  unfold getUaByName
  split
  · rename_i v hv
    exact Or.inl ⟨v, hv, rfl⟩
  · rename_i hnone
    exact Or.inr ⟨hnone, rfl, AList.lookup_insert _⟩

/-- Looking up a registered name. -/
theorem getUaByName_registered (s : Registry name) (hs : Exact s) (k : String) (u : UAId)
    (hu : u ∈ s.registered) (hk : k = name u) : s.mgr.getUaByName k = (some u, s.mgr) := by
  -- The name is in the map, under the user agent it belongs to.
  have hlook : s.mgr.allUes.lookup k = some (some u) := (hs k (some u)).mpr ⟨u, hu, hk, rfl⟩
  rcases getUaByName_cases s.mgr k with ⟨v, hv, heq⟩ | ⟨hnone, _⟩
  · rw [hlook, Option.some.injEq] at hv
    rw [heq, ← hv]
  · rw [hlook] at hnone
    exact absurd hnone (by simp only [reduceCtorEq, not_false_eq_true])

/-- A lookup that changes nothing, or that returns a user agent, was of a
    registered name. -/
theorem registered_of_lookup (s : Registry name) (hs : Exact s) (k : String)
    (h : (s.mgr.getUaByName k).2 = s.mgr ∨ (s.mgr.getUaByName k).1 ≠ none) :
    ∃ u ∈ s.registered, k = name u := by
  rcases getUaByName_cases s.mgr k with ⟨v, hv, _⟩ | ⟨hnone, hnull, hinserted⟩
  · -- The map is exact, so what is in it is registered.
    rcases (hs k v).mp hv with ⟨u, hu, hk, _⟩
    exact ⟨u, hu, hk⟩
  · rcases h with h | h
    · -- A lookup that fails puts a null pointer into the map.
      rw [h, hnone] at hinserted
      exact absurd hinserted (by simp only [reduceCtorEq, not_false_eq_true])
    · exact absurd hnull h

/-- The dispatch of an INVITE, for the map of all user agents. -/
theorem staticConnectHandler_eq (m : UAManager name) (user : String) :
    (m.staticConnectHandler user).1 = (m.getUaByName user).1 ∧
      (m.staticConnectHandler user).2.allUes = (m.getUaByName user).2.allUes := by
  unfold staticConnectHandler
  cases h : (m.getUaByName user).1 with
  | none => simp only [h, and_self]
  | some u => simp only [h, markUaInCall, and_self]

/-- The map is exact if it is the same map. -/
theorem exact_of_allUes (s : Registry name) (m : UAManager name) (hm : m.allUes = s.mgr.allUes)
    (hs : Exact s) : Exact { s with mgr := m } := by
  intro k v
  rw [hm]
  exact hs k v

theorem markUaRegistered_exact (hname : Function.Injective name) (s : Registry name) (hs : Exact s)
    (u : UAId) :
    Exact { mgr := s.mgr.markUaRegistered u, registered := u :: s.registered } := by
  intro k v
  simp only [markUaRegistered, List.mem_cons]
  -- Under this name there is now `u`, and two agents share no name.
  by_cases hk : k = name u
  · rw [hk, AList.lookup_insert, Option.some.injEq]
    constructor
    · intro hv
      exact ⟨u, Or.inl rfl, rfl, hv.symm⟩
    · rintro ⟨u', _, hn, hv⟩
      rw [hv, hname hn]
  · rw [AList.lookup_insert_ne hk, hs k v]
    constructor
    · rintro ⟨u', hu', hn, hv⟩
      exact ⟨u', Or.inr hu', hn, hv⟩
    · rintro ⟨u', hu' | hu', hn, hv⟩
      · exact absurd (by rw [hn, hu']) hk
      · exact ⟨u', hu', hn, hv⟩

/-- Drawing from the pool of free user agents leaves the map of all of them
    alone. -/
theorem getUaFreeForCall_allUes (m : UAManager name) (i : Nat) :
    (m.getUaFreeForCall i).2.allUes = m.allUes := by
  unfold getUaFreeForCall
  split
  · rfl
  · rfl

theorem markUaNotInCall_allUes (m : UAManager name) (u : Option UAId) :
    (m.markUaNotInCall u).allUes = m.allUes := by
  cases u with
  | none => rfl
  | some u => rfl

theorem registryStep_exact (hname : Function.Injective name) (s s' : Registry name)
    (op : RegistryOp) (hs : Exact s) (hop : LooksUpRegistered s op)
    (h : registryStep s op = some s') : Exact s' := by
  cases op with
  | markUaRegistered u =>
      simp only [registryStep, Option.some.injEq] at h
      rw [← h]
      exact markUaRegistered_exact hname s hs u
  | markUaInCall u =>
      simp only [registryStep, Option.some.injEq] at h
      rw [← h]
      exact exact_of_allUes s _ rfl hs
  | markUaNotInCall u =>
      simp only [registryStep, Option.some.injEq] at h
      rw [← h]
      exact exact_of_allUes s _ (markUaNotInCall_allUes s.mgr u) hs
  | getUaFreeForCall i =>
      simp only [registryStep, Option.some.injEq] at h
      rw [← h]
      exact exact_of_allUes s _ (getUaFreeForCall_allUes s.mgr i) hs
  | getUaByName k =>
      simp only [registryStep, Option.some.injEq] at h
      -- The name is there, so the lookup inserts nothing.
      rcases hop k rfl with ⟨u, hu, hk⟩
      rw [← h, getUaByName_registered s hs k u hu hk]
      exact hs
  | clear =>
      simp only [registryStep, Option.some.injEq] at h
      rw [← h]
      intro k v
      simp only [clear, init, AList.lookup_empty, reduceCtorEq, List.not_mem_nil, false_and,
        exists_false]
  | invite user =>
      simp only [registryStep, Option.some.injEq] at h
      rcases hop user rfl with ⟨u, hu, hk⟩
      rw [← h]
      refine exact_of_allUes s _ ?_ hs
      rw [(staticConnectHandler_eq s.mgr user).2, getUaByName_registered s hs user u hu hk]

/-- Where the map is exact, an operation is sound exactly when it looks up
    registered names. -/
theorem sound_iff (hname : Function.Injective name) (s : Registry name) (op : RegistryOp)
    (hs : Exact s) : Sound s op ↔ LooksUpRegistered s op := by
  constructor
  · intro h k hk
    cases op with
    | getUaByName k' =>
        rw [looks, Option.mem_def, Option.some.injEq] at hk
        rw [← hk]
        exact registered_of_lookup s hs k' (Or.inl (h.2.1 k' rfl).1)
    | invite user =>
        rw [looks, Option.mem_def, Option.some.injEq] at hk
        rw [← hk]
        rcases h.2.2 user rfl with ⟨u, hu, _⟩
        rw [(staticConnectHandler_eq s.mgr user).1] at hu
        refine registered_of_lookup s hs user (Or.inr ?_)
        rw [hu]
        simp only [ne_eq, reduceCtorEq, not_false_eq_true]
    | _ => exact absurd hk (by simp only [looks, Option.mem_def, reduceCtorEq, not_false_eq_true])
  · intro h
    refine ⟨fun s' hs' => registryStep_exact hname s s' op hs h hs', fun k hop => ?_,
      fun user hop => ?_⟩
    · rw [hop] at h
      rcases h k rfl with ⟨u, hu, hk⟩
      rw [getUaByName_registered s hs k u hu hk]
      refine ⟨rfl, fun v => ?_⟩
      simp only [Option.some.injEq]
      constructor
      · intro huv
        rw [← huv]
        exact ⟨hu, hk⟩
      · intro hv
        exact hname (hk.symm.trans hv.2)
    · rw [hop] at h
      rcases h user rfl with ⟨u, hu, hk⟩
      rw [(staticConnectHandler_eq s.mgr user).1, getUaByName_registered s hs user u hu hk]
      exact ⟨u, rfl, hk⟩

/-- In any sequence of operations and INVITEs, the map of all user agents is
    exact throughout, every lookup changes nothing, and every INVITE reaches
    the user agent it names, exactly when every name looked up is that of a
    user agent registered since the last clear. -/
theorem lookups_sound_iff (pid : Nat) (ops : List RegistryOp) :
    Along registryStep Sound (registryInit (uaName pid)) ops ↔
      Along registryStep LooksUpRegistered (registryInit (uaName pid)) ops := by
  have hname := uaName_injective pid
  refine along_iff registryStep Sound LooksUpRegistered Exact (sound_iff hname)
    (fun s op s' hs hop h => registryStep_exact hname s s' op hs hop h) ops _ (fun k v => ?_)
  simp only [registryInit, init, AList.lookup_empty, reduceCtorEq, List.not_mem_nil, false_and,
    exists_false]

/-- An INVITE to a user agent that has not registered yet is dispatched to a
    null pointer, and leaves one in the map. -/
theorem early_invite_goes_nowhere :
    ¬ ∀ ops : List RegistryOp, Along registryStep Sound (registryInit (uaName 7)) ops := by
  intro hall
  rcases (hall [.invite "7-ue0"]).1.2.2 "7-ue0" rfl with ⟨u, hu, _⟩
  -- The map is empty, and `operator[]` returns a null pointer.
  have hnull : ((registryInit (uaName 7)).mgr.staticConnectHandler "7-ue0").1 = none := by
    decide +kernel
  rw [hnull] at hu
  exact absurd hu (by simp only [reduceCtorEq, not_false_eq_true])

end UAManager

end SipPerf
