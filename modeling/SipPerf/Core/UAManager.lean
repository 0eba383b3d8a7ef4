import SipPerf.Lib.NamedPool

/-!
# The User Agent Manager

`UAManager` of `src/uamanager.cpp`, which knows what user agents are
registered and which of them are free for a call. Both maps go by name. A
user agent is named after the process and a running number, and the number is
what a pointer to it is here.

The map of free user agents is only ever given a user agent under its own
name, and is a `NamedPool`. The map of all of them is read with `operator[]`,
which inserts a null pointer under a name it does not find, so its values may
be null, and looking a name up is not a query but an operation.

`get_ua_free_for_call` takes the first element of an unordered map. Which
that is depends on the hash table and its history, so it takes a number that
decides.

## Main definitions

* `UAId`, `uaName`: User agents and their names.
* `UAManager`: The two maps.
* `markUaRegistered`, `markUaNotInCall`, `markUaInCall`: Updates.
* `getUaByName`, `getUaFreeForCall`: Lookups.
* `staticConnectHandler`: The dispatch of an INVITE, which is a lookup.
* `Registry`, `registryStep`: The manager under any sequence of operations.
-/

namespace SipPerf

/-- A pointer to a user agent: the number it was created with. -/
abbrev UAId := Nat

/-- The name of a user agent of the process. -/
def uaName (pid : Nat) (u : UAId) : String := toString pid ++ "-ue" ++ toString u

/-- The two maps of the manager. -/
structure UAManager (name : UAId → String) where
  freeUes : NamedPool name
  allUes : AList (fun _ : String => Option UAId)
  allKeyed : ∀ k u, allUes.lookup k = some (some u) → k = name u

namespace UAManager

variable {name : UAId → String}

def init (name : UAId → String) : UAManager name where
  freeUes := NamedPool.empty name
  allUes := ∅
  allKeyed := fun k u h => absurd h (by simp only [AList.lookup_empty, reduceCtorEq,
    not_false_eq_true])

/-- The user agent is free for a call. -/
def Free (m : UAManager name) (u : UAId) : Prop := m.freeUes.Holds u

/-- The user agent is registered. -/
def Known (m : UAManager name) (u : UAId) : Prop := m.allUes.lookup (name u) = some (some u)

instance decidableFree (m : UAManager name) (u : UAId) : Decidable (m.Free u) :=
  inferInstanceAs (Decidable (m.freeUes.Holds u))

instance decidableKnown (m : UAManager name) (u : UAId) : Decidable (m.Known u) :=
  inferInstanceAs (Decidable (m.allUes.lookup (name u) = some (some u)))

def markUaRegistered (m : UAManager name) (u : UAId) : UAManager name where
  freeUes := m.freeUes.put u
  allUes := m.allUes.insert (name u) (some u)
  allKeyed := fun k v h => by
    by_cases hk : k = name u
    · rw [hk, AList.lookup_insert, Option.some.injEq, Option.some.injEq] at h
      rw [hk, h]
    · rw [AList.lookup_insert_ne hk] at h
      exact m.allKeyed k v h

def markUaNotInCall (m : UAManager name) : Option UAId → UAManager name
  | none => m
  | some u => { m with freeUes := m.freeUes.put u }

def markUaInCall (m : UAManager name) (u : UAId) : UAManager name :=
  { m with freeUes := m.freeUes.drop u }

/-- `get_ua_by_name`, which returns a null pointer for a name it has just
    inserted one under. -/
def getUaByName (m : UAManager name) (k : String) : Option UAId × UAManager name :=
  match h : m.allUes.lookup k with
  | some u => (u, m)
  | none =>
      (none, { m with
        -- `operator[]` inserts the name it does not find.
        allUes := m.allUes.insert k none
        allKeyed := fun k' v hv => by
          by_cases hk : k' = k
          · rw [hk, AList.lookup_insert] at hv
            exact absurd hv (by simp only [Option.some.injEq, reduceCtorEq, not_false_eq_true])
          · rw [AList.lookup_insert_ne hk] at hv
            exact m.allKeyed k' v hv })

/-- `get_ua_free_for_call`, which takes what it returns out of the pool. -/
def getUaFreeForCall (m : UAManager name) (i : Nat) : Option UAId × UAManager name :=
  match m.freeUes.draw i with
  | none => (none, m)
  | some u => (some u, markUaInCall m u)

def clear (_ : UAManager name) : UAManager name := init name

/-- `static_connect_handler` of `src/stack.cpp`, for an INVITE to a user: the
    pointer on which `connect_handler` is invoked, which may be null, and the
    manager. The method first takes its user agent out of the pool. -/
def staticConnectHandler (m : UAManager name) (user : String) : Option UAId × UAManager name :=
  let r := getUaByName m user
  match r.1 with
  | none => (none, r.2)
  | some u => (some u, markUaInCall r.2 u)

end UAManager

/-- The manager, and the user agents that have been registered since it was
    last cleared. -/
structure Registry (name : UAId → String) where
  mgr : UAManager name
  registered : List UAId

/-- An operation of the manager, or an INVITE to a user. -/
inductive RegistryOp where
  | markUaRegistered (u : UAId)
  | markUaInCall (u : UAId)
  | markUaNotInCall (u : Option UAId)
  | getUaFreeForCall (i : Nat)
  | getUaByName (k : String)
  | clear
  | invite (user : String)

def registryStep {name : UAId → String} (s : Registry name) : RegistryOp → Option (Registry name)
  | .markUaRegistered u =>
      some { mgr := s.mgr.markUaRegistered u, registered := u :: s.registered }
  | .markUaInCall u => some { s with mgr := s.mgr.markUaInCall u }
  | .markUaNotInCall u => some { s with mgr := s.mgr.markUaNotInCall u }
  | .getUaFreeForCall i => some { s with mgr := (s.mgr.getUaFreeForCall i).2 }
  | .getUaByName k => some { s with mgr := (s.mgr.getUaByName k).2 }
  | .clear => some { mgr := s.mgr.clear, registered := [] }
  | .invite user => some { s with mgr := (s.mgr.staticConnectHandler user).2 }

def registryInit (name : UAId → String) : Registry name :=
  { mgr := UAManager.init name, registered := [] }

end SipPerf
