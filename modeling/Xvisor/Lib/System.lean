import Mathlib.Logic.Relation

/-!
# Labelled transition systems

A component is an initial-state predicate together with a labelled step relation.
A claim that needs a condition on the steps is proved for the restricted system,
whose runs are exactly the runs made of allowed steps.
-/

namespace Xvisor.Lib

universe u v

structure System (State : Type u) (Label : Type v) where
  init : State → Prop
  step : State → Label → State → Prop

namespace System

variable {State : Type u} {Label : Type v}

inductive Reachable (system : System State Label) : State → Prop where
  | start {state} : system.init state → Reachable system state
  | next {state label state'} : Reachable system state →
      system.step state label state' → Reachable system state'

/-- Keep only the steps whose label is allowed in the state they start from. -/
def restrict (system : System State Label) (allowed : State → Label → Prop) :
    System State Label where
  init := system.init
  step state label state' := allowed state label ∧ system.step state label state'

variable {system : System State Label}

variable {state state' : State}

/-- What holds initially and is kept by every step holds in every reachable state. -/
theorem Reachable.invariant (Inv : State → Prop)
    (initially : ∀ state, system.init state → Inv state)
    (preserved : ∀ state label state', Inv state → system.step state label state' → Inv state')
    (reached : system.Reachable state) : Inv state := by
  induction reached with
  | start initial => exact initially _ initial
  | next _ taken ih => exact preserved _ _ _ ih taken

theorem Reachable.step (reached : system.Reachable state) (label : Label)
    (taken : system.step state label state') : system.Reachable state' :=
  .next reached taken

theorem Reachable.of_restrict {allowed : State → Label → Prop}
    (reached : (system.restrict allowed).Reachable state) : system.Reachable state := by
  induction reached with
  | start initial => exact .start initial
  | next _ taken ih => exact .next ih taken.2

def replay (guard : State → Label → Bool) (next : State → Label → Option State) :
    State → List Label → Option State
  | state, [] => some state
  | state, label :: labels =>
    if guard state label then
      match next state label with
      | some state' => replay guard next state' labels
      | none => none
    else none

theorem Reachable.replay_some (reached : system.Reachable state) (guard : State → Label → Bool)
    (next : State → Label → Option State) (labels : List Label)
    (real : ∀ {state label state'}, guard state label → next state label = some state' →
      system.step state label state')
    (replayed : System.replay guard next state labels = some state') : system.Reachable state' := by
  induction labels generalizing state with
  | nil =>
    cases replayed
    exact reached
  | cons label labels ih =>
    unfold System.replay at replayed
    split at replayed
    · next allowed =>
      split at replayed
      · next middle result =>
        exact ih (.next reached (real allowed result)) replayed
      · cases replayed
    · cases replayed

/-- The state at the end of a run that is given by its labels. -/
theorem Reachable.replay (reached : system.Reachable state) (Guard : State → Label → Prop)
    [∀ state label, Decidable (Guard state label)] (next : State → Label → Option State)
    (labels : List Label)
    (real : ∀ {state label state'}, Guard state label → next state label = some state' →
      system.step state label state')
    (runs : (System.replay (fun state label => decide (Guard state label)) next state
      labels).isSome) : system.Reachable (Option.get _ runs) :=
  reached.replay_some _ next labels (fun allowed => real (of_decide_eq_true allowed))
    (Option.some_get runs).symm

end System

end Xvisor.Lib
