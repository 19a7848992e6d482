/-
This file develops runs of a machine whose actions are chosen from outside. Which actions
may be taken can depend on the state, so that a condition on a run is a condition on each
of its steps.
-/

import Mathlib.Data.List.Induction
import Mathlib.Logic.Relation

namespace Machine

variable {State Action : Type} (act : State → Action → State)
  (allowed : State → Action → Prop)

/-- One action that is allowed in the state it is taken in. -/
def Step (state next : State) : Prop := ∃ action, allowed state action ∧ next = act state action

/-- The states that allowed actions lead to. -/
def Reaches : State → State → Prop := Relation.ReflTransGen (Step act allowed)

/-- Every action of a list is allowed in the state that those before it lead to. -/
def Along : State → List Action → Prop
  | _, [] => True
  | state, action :: rest => allowed state action ∧ Along (act state action) rest

instance [∀ state action, Decidable (allowed state action)] (state : State)
    (actions : List Action) : Decidable (Along act allowed state actions) :=
  go state actions
where
  go : ∀ state actions, Decidable (Along act allowed state actions)
    | _, [] => isTrue trivial
    | state, action :: rest =>
      have := go (act state action) rest
      inferInstanceAs (Decidable (_ ∧ _))

variable {act allowed}

theorem reaches_of_along {state : State} {actions : List Action}
    (along : Along act allowed state actions) :
    Reaches act allowed state (actions.foldl act state) := by
  induction actions generalizing state with
  | nil => exact Relation.ReflTransGen.refl
  | cons action rest inductionHypothesis =>
    exact Relation.ReflTransGen.head ⟨action, along.1, rfl⟩ (inductionHypothesis along.2)

theorem along_of_forall (always : ∀ state action, allowed state action) (state : State)
    (actions : List Action) : Along act allowed state actions := by
  induction actions generalizing state with
  | nil => exact trivial
  | cons action rest inductionHypothesis => exact ⟨always state action, inductionHypothesis _⟩

@[simp] theorem along_nil (state : State) : Along act allowed state [] := trivial

/-- A run in two parts. -/
theorem along_append {state : State} {earlier later : List Action} :
    Along act allowed state (earlier ++ later) ↔
      Along act allowed state earlier ∧ Along act allowed (earlier.foldl act state) later := by
  induction earlier generalizing state with
  | nil => exact ⟨fun along => ⟨trivial, along⟩, fun both => both.2⟩
  | cons action rest inductionHypothesis =>
    rw [List.cons_append, Along, inductionHypothesis, Along, and_assoc]
    rfl

/-- A condition on every step of a run is one on what follows each of its parts. -/
theorem along_iff_forall_prefix {state : State} {actions : List Action} :
    Along act allowed state actions ↔ ∀ earlier action, earlier ++ [action] <+: actions →
      allowed (earlier.foldl act state) action := by
  induction actions using List.reverseRecOn with
  | nil =>
    refine iff_of_true trivial fun earlier action inside => ?_
    exact absurd (List.prefix_nil.mp inside) (List.append_ne_nil_of_right_ne_nil _ (by simp))
  | append_singleton actions last inductionHypothesis =>
    rw [along_append, inductionHypothesis]
    constructor
    · rintro ⟨always, may, -⟩ earlier action inside
      rcases List.prefix_concat_iff.mp inside with same | before
      · obtain ⟨rfl, one⟩ := List.append_inj' same rfl
        cases one
        exact may
      · exact always earlier action before
    · intro always
      refine ⟨fun earlier action inside => ?_, always actions last (List.prefix_refl _), trivial⟩
      exact always earlier action (inside.trans (List.prefix_append _ _))

/-- Two conditions on the steps of a run are one. -/
theorem Along.and {allowed' : State → Action → Prop} {state : State} {actions : List Action}
    (first : Along act allowed state actions) (second : Along act allowed' state actions) :
    Along act (fun state action => allowed state action ∧ allowed' state action) state actions := by
  induction actions generalizing state with
  | nil => exact trivial
  | cons action rest inductionHypothesis =>
    exact ⟨⟨first.1, second.1⟩, inductionHypothesis first.2 second.2⟩

/-- The invariant rule along a list of actions. -/
theorem Along.preserves {state : State} {actions : List Action}
    (along : Along act allowed state actions) (holds : State → Prop) (initial : holds state)
    (preserved : ∀ state action, holds state → allowed state action → holds (act state action)) :
    holds (actions.foldl act state) := by
  induction actions generalizing state with
  | nil => exact initial
  | cons action rest inductionHypothesis =>
    exact inductionHypothesis along.2 (preserved state action initial along.1)

/-- Where one action keeps a property exactly when it is allowed, a run keeps it throughout
exactly when each of its actions is. -/
theorem along_iff_forall {holds : State → Prop} {start : State} (initial : holds start)
    (preserved : ∀ state action, holds state → (holds (act state action) ↔ allowed state action))
    (actions : List Action) :
    Along act allowed start actions ↔
      ∀ earlier, earlier <+: actions → holds (earlier.foldl act start) := by
  induction actions generalizing start with
  | nil =>
    refine iff_of_true trivial fun earlier within => ?_
    rw [List.prefix_nil.mp within]
    exact initial
  | cons action rest inductionHypothesis =>
    constructor
    · rintro ⟨may, along⟩ earlier within
      cases earlier with
      | nil => exact initial
      | cons first others =>
        obtain ⟨rfl, inside⟩ := List.cons_prefix_cons.mp within
        have next := (preserved start first initial).mpr may
        exact (inductionHypothesis next).mp along others inside
    · intro always
      have next := always [action] (List.cons_prefix_cons.mpr ⟨rfl, List.nil_prefix⟩)
      refine ⟨(preserved start action initial).mp next, ?_⟩
      exact (inductionHypothesis next).mpr fun others inside =>
        always (action :: others) (List.cons_prefix_cons.mpr ⟨rfl, inside⟩)

/-- The invariant rule of a run: what holds at the start and survives every allowed action holds
in every state that is reached. -/
theorem Reaches.preserves {holds : State → Prop} {start state : State}
    (reaches : Reaches act allowed start state) (initial : holds start)
    (preserved : ∀ state action, holds state → allowed state action → holds (act state action)) :
    holds state := by
  induction reaches with
  | refl => exact initial
  | tail _ step inductionHypothesis =>
    obtain ⟨action, may, rfl⟩ := step
    exact preserved _ action inductionHypothesis may

end Machine
