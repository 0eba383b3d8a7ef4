import Mathlib.Logic.Basic

/-!
# Guarded Executions

Executions of a machine given by a partial step function, over any types of
states and of events. An event that a state has no answer for is one the
system cannot take there, so a list of events is an execution exactly when
`exec` returns a state.

Two things are wanted of such a machine. The first is the invariant rule:
what holds at the start and is kept by every step holds wherever an execution
ends, and since a prefix of an execution is an execution, that is every state
it passes through. The second is the same rule for a machine whose
environment has to behave. `Along` says that a guard held before every step
of an execution, and `exec_invariant_along` is the invariant rule relative to
it. A step lemma may then use the guard of its own event, and nothing about
the events around it.

## Main definitions

* `exec`: The state an execution ends in.
* `Along`: A guard holds before every step of an execution.

## Theorems

* `exec_append`: An execution splits at any point.
* `exec_take`, `exec_at`: A position of an execution, and the step there.
* `along_append`: A guard along an execution splits with it.
* `along_of_forall`: A guard on events alone.
* `along_and`: Two guards along an execution are one.
* `exec_invariant_along`: The invariant rule, relative to a guard.
* `exec_invariant`: The invariant rule.
* `along_iff`: Two guards that agree wherever an invariant holds.
-/

namespace SipPerf

namespace Transition

variable {σ ε : Type*}

/-- Run the events of a list in order, stopping at the first that the machine
    has no step for. -/
def exec (step : σ → ε → Option σ) : σ → List ε → Option σ
  | s, [] => some s
  | s, e :: es => match step s e with
    | none => none
    | some s' => exec step s' es

/-- The guard holds before every step of the execution. -/
def Along (step : σ → ε → Option σ) (guard : σ → ε → Prop) : σ → List ε → Prop
  | _, [] => True
  | s, e :: es => guard s e ∧ ∀ s', step s e = some s' → Along step guard s' es

/-- A decidable guard is decidable along an execution. -/
instance decidableAlong (step : σ → ε → Option σ) (guard : σ → ε → Prop)
    [∀ s e, Decidable (guard s e)] : ∀ (s : σ) (es : List ε), Decidable (Along step guard s es)
  | _, [] => isTrue trivial
  | s, e :: es => match h : step s e with
    | none => decidable_of_iff (guard s e)
        ⟨fun hg => ⟨hg, fun s' hs' => by rw [h] at hs'; cases hs'⟩, fun hg => hg.1⟩
    | some s' =>
        have := decidableAlong step guard s' es
        decidable_of_iff (guard s e ∧ Along step guard s' es)
          ⟨fun hg => ⟨hg.1, fun s'' hs'' => by rw [h] at hs''; cases hs''; exact hg.2⟩,
            fun hg => ⟨hg.1, hg.2 s' h⟩⟩

theorem exec_cons (step : σ → ε → Option σ) (s t : σ) (e : ε) (es : List ε)
    (h : exec step s (e :: es) = some t) :
    ∃ s', step s e = some s' ∧ exec step s' es = some t := by
  simp only [exec] at h
  cases hs : step s e with
  | none =>
      rw [hs] at h
      exact absurd h (by simp only [reduceCtorEq, not_false_eq_true])
  | some s' =>
      rw [hs] at h
      exact ⟨s', rfl, h⟩

theorem exec_append (step : σ → ε → Option σ) (es fs : List ε) :
    ∀ (s t : σ), exec step s (es ++ fs) = some t ↔
      ∃ m, exec step s es = some m ∧ exec step m fs = some t := by
  induction es with
  | nil =>
      intro s t
      simp only [List.nil_append, exec, Option.some.injEq, exists_eq_left']
  | cons e es ih =>
      intro s t
      simp only [List.cons_append, exec]
      cases hs : step s e with
      | none => simp only [reduceCtorEq, false_and, exists_false]
      | some s' => exact ih s' t

theorem exec_take (step : σ → ε → Option σ) (es : List ε) (s t : σ)
    (h : exec step s es = some t) (n : Nat) :
    ∃ m, exec step s (es.take n) = some m ∧ exec step m (es.drop n) = some t := by
  rw [← List.take_append_drop n es] at h
  exact (exec_append step _ _ s t).mp h

/-- The event at a position of an execution is a step from the state the
    execution has reached there. -/
theorem exec_at (step : σ → ε → Option σ) (es : List ε) (s t m : σ)
    (h : exec step s es = some t) (n : Nat) (e : ε) (hn : es[n]? = some e)
    (hm : exec step s (es.take n) = some m) : ∃ m', step m e = some m' := by
  rcases exec_take step es s t h n with ⟨m1, hm1, hrest⟩
  rw [hm, Option.some.injEq] at hm1
  rcases List.getElem?_eq_some_iff.mp hn with ⟨hlt, he⟩
  rw [List.drop_eq_getElem_cons hlt, he, ← hm1] at hrest
  rcases exec_cons step m t e _ hrest with ⟨m', hm', _⟩
  exact ⟨m', hm'⟩

theorem along_append (step : σ → ε → Option σ) (guard : σ → ε → Prop) (es fs : List ε) :
    ∀ (s m : σ), exec step s es = some m → Along step guard s (es ++ fs) →
      Along step guard s es ∧ Along step guard m fs := by
  induction es with
  | nil =>
      intro s m hm h
      simp only [exec, Option.some.injEq] at hm
      rw [← hm]
      exact ⟨trivial, h⟩
  | cons e es ih =>
      intro s m hm h
      rcases exec_cons step s m e es hm with ⟨s', hs', hm'⟩
      -- The step is a function, so the state it leads to is the one the guard
      -- speaks of.
      have hrest := ih s' m hm' (h.2 s' hs')
      refine ⟨⟨h.1, fun s'' hs'' => ?_⟩, hrest.2⟩
      rw [hs', Option.some.injEq] at hs''
      rw [← hs'']
      exact hrest.1

/-- A guard on events alone, along any execution of events that meet it. -/
theorem along_of_forall (step : σ → ε → Option σ) (guard : ε → Prop) : ∀ (es : List ε) (s : σ),
    (∀ e ∈ es, guard e) → Along step (fun _ e => guard e) s es := by
  intro es
  induction es with
  | nil =>
      intro s _
      trivial
  | cons e es ih =>
      intro s h
      exact ⟨h e List.mem_cons_self, fun s' _ => ih s' (fun f hf => h f (List.mem_cons_of_mem e hf))⟩

theorem along_and (step : σ → ε → Option σ) (guard guard' : σ → ε → Prop) :
    ∀ (es : List ε) (s : σ), Along step (fun s e => guard s e ∧ guard' s e) s es ↔
      Along step guard s es ∧ Along step guard' s es := by
  intro es
  induction es with
  | nil =>
      intro s
      exact ⟨fun _ => ⟨trivial, trivial⟩, fun _ => trivial⟩
  | cons e es ih =>
      intro s
      constructor
      · intro h
        exact ⟨⟨h.1.1, fun s' hs' => ((ih s').mp (h.2 s' hs')).1⟩,
          ⟨h.1.2, fun s' hs' => ((ih s').mp (h.2 s' hs')).2⟩⟩
      · intro h
        exact ⟨⟨h.1.1, h.2.1⟩, fun s' hs' => (ih s').mpr ⟨h.1.2 s' hs', h.2.2 s' hs'⟩⟩

/-- The invariant rule relative to a guard: a step may use what the guard
    says of its own event. -/
theorem exec_invariant_along (step : σ → ε → Option σ) (guard : σ → ε → Prop) (I : σ → Prop)
    (hstep : ∀ s e s', I s → guard s e → step s e = some s' → I s') :
    ∀ (es : List ε) (s t : σ), I s → Along step guard s es → exec step s es = some t → I t := by
  intro es
  induction es with
  | nil =>
      intro s t hs _ ht
      simp only [exec, Option.some.injEq] at ht
      rw [← ht]
      exact hs
  | cons e es ih =>
      intro s t hs hg ht
      rcases exec_cons step s t e es ht with ⟨s', hs', ht'⟩
      exact ih s' t (hstep s e s' hs hg.1 hs') (hg.2 s' hs') ht'

/-- The invariant rule: what every step keeps holds wherever an execution
    ends. -/
theorem exec_invariant (step : σ → ε → Option σ) (I : σ → Prop)
    (hstep : ∀ s e s', I s → step s e = some s' → I s') :
    ∀ (es : List ε) (s t : σ), I s → exec step s es = some t → I t := by
  intro es
  induction es with
  | nil =>
      intro s t hs ht
      simp only [exec, Option.some.injEq] at ht
      rw [← ht]
      exact hs
  | cons e es ih =>
      intro s t hs ht
      rcases exec_cons step s t e es ht with ⟨s', hs', ht'⟩
      exact ih s' t (hstep s e s' hs hs') ht'

/-- Two guards that agree wherever an invariant holds, and of which one keeps
    it, hold along the same executions. -/
theorem along_iff (step : σ → ε → Option σ) (guard guard' : σ → ε → Prop) (I : σ → Prop)
    (hiff : ∀ s e, I s → (guard s e ↔ guard' s e))
    (hstep : ∀ s e s', I s → guard' s e → step s e = some s' → I s') :
    ∀ (es : List ε) (s : σ), I s → (Along step guard s es ↔ Along step guard' s es) := by
  intro es
  induction es with
  | nil =>
      intro s _
      exact Iff.rfl
  | cons e es ih =>
      intro s hs
      constructor
      · intro h
        have hg := (hiff s e hs).mp h.1
        exact ⟨hg, fun s' hs' => (ih s' (hstep s e s' hs hg hs')).mp (h.2 s' hs')⟩
      · intro h
        exact ⟨(hiff s e hs).mpr h.1,
          fun s' hs' => (ih s' (hstep s e s' hs h.1 hs')).mpr (h.2 s' hs')⟩

end Transition

end SipPerf
