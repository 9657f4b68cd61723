import Mathlib.Data.Fintype.Pigeonhole
import Mathlib.Data.Set.Finite.Basic

/-!
# Walks of partial functions

A loop that replaces a value by the next one, as long as there is one, is a
walk of a partial function. Over finitely many values every walk ends if and
only if no value comes back to itself.
-/

namespace Xvisor.Lib

universe u

variable {α : Type u}

def walk (step : α → Option α) : Nat → α → Option α
  | 0, a => some a
  | n + 1, a => (step a).bind (walk step n)

def NoCycle (step : α → Option α) : Prop := ∀ a n, walk step (n + 1) a ≠ some a

variable {step : α → Option α}

theorem walk_add (m n : Nat) (a : α) :
    walk step (m + n) a = (walk step m a).bind (walk step n) := by
  induction m generalizing a with
  | zero => rw [Nat.zero_add]; rfl
  | succ m ih =>
    rw [Nat.succ_add]
    cases next : step a with
    | none => simp [walk, next]
    | some b => simpa [walk, next] using ih b

theorem walk_isSome_of_le {m n : Nat} {a : α} (le : m ≤ n) (long : (walk step n a).isSome) :
    (walk step m a).isSome := by
  obtain ⟨rest, rfl⟩ := Nat.exists_eq_add_of_le le
  rw [walk_add] at long
  exact Option.isSome_of_isSome_bind long

variable {step' : α → Option α}

theorem walk_mono (sub : ∀ a b, step a = some b → step' a = some b)
    {n : Nat} {a b : α} (walked : walk step n a = some b) : walk step' n a = some b := by
  induction n generalizing a with
  | zero => exact walked
  | succ n ih =>
    obtain ⟨next, isNext, rest⟩ := Option.bind_eq_some_iff.mp walked
    exact Option.bind_eq_some_iff.mpr ⟨next, sub a next isNext, ih rest⟩

theorem NoCycle.mono (noCycle : NoCycle step')
    (sub : ∀ a b, step a = some b → step' a = some b) : NoCycle step :=
  fun a n back => noCycle a n (walk_mono sub back)

theorem walk_isSome_of_cycle {a : α} {n : Nat} (back : walk step (n + 1) a = some a) (m : Nat) :
    (walk step m a).isSome := by
  have around : ∀ rounds, walk step (rounds * (n + 1)) a = some a := by
    intro rounds
    induction rounds with
    | zero => rw [Nat.zero_mul]; rfl
    | succ rounds ih =>
      rw [Nat.succ_mul, walk_add, ih]
      exact back
  apply walk_isSome_of_le (Nat.le_mul_of_pos_right m n.succ_pos)
  rw [around]
  rfl

/-- A walk through finitely many values ends unless one of them comes back. -/
theorem NoCycle.walk_ends (noCycle : NoCycle step) (finite : {b | ∃ a, step a = some b}.Finite)
    (a : α) : ∃ n, walk step n a = none := by
  by_contra endless
  push Not at endless
  have visits : ∀ n, ∃ b, walk step n a = some b :=
    fun n => Option.ne_none_iff_exists'.mp (endless n)
  choose visit isVisit using visits
  have inside : ∀ n, ∃ before, step before = some (visit (n + 1)) := by
    intro n
    have next := isVisit (n + 1)
    rw [walk_add, isVisit n] at next
    change (step (visit n)).bind (walk step 0) = _ at next
    obtain ⟨b, isStep, same⟩ := Option.bind_eq_some_iff.mp next
    cases same
    exact ⟨visit n, isStep⟩
  have := finite.to_subtype
  -- Two of infinitely many visits are the same.
  obtain ⟨i, j, different, same⟩ := Finite.exists_ne_map_eq_of_infinite
    fun n : Nat => (⟨visit (n + 1), inside n⟩ : {b | ∃ a, step a = some b})
  have revisits : ∀ i j, i < j → visit (i + 1) = visit (j + 1) → False := by
    intro i j before sameVisit
    apply noCycle (visit (i + 1)) (j - i - 1)
    have later := isVisit (j + 1)
    rw [show j + 1 = (i + 1) + (j - i - 1 + 1) by omega, walk_add, isVisit (i + 1)] at later
    rw [show i + 1 + (j - i - 1 + 1) = j + 1 by omega, ← sameVisit] at later
    exact later
  have sameVisit : visit (i + 1) = visit (j + 1) := congrArg Subtype.val same
  rcases Nat.lt_or_gt_of_ne different with before | after
  · exact revisits i j before sameVisit
  · exact revisits j i after sameVisit.symm

theorem walks_end_iff (finite : {b | ∃ a, step a = some b}.Finite) :
    (∀ a, ∃ n, walk step n a = none) ↔ NoCycle step := by
  constructor
  · intro ends a n back
    obtain ⟨m, ended⟩ := ends a
    have goesOn := walk_isSome_of_cycle back m
    rw [ended] at goesOn
    cases goesOn
  · intro noCycle a
    exact noCycle.walk_ends finite a

end Xvisor.Lib
