import Mathlib.Data.List.Basic
import Mathlib.Order.Lattice

/-!
# Stable priority queues

A queue is the list of its elements in the order of their arrival. Its next
element is the first among those with the greatest key. An implementation with
one bucket for each group of equal keys finds it at the head of a bucket.
-/

namespace Xvisor.Lib

universe u v

variable {α : Type u} {κ : Type v} [LinearOrder κ]

def FirstMax (key : α → κ) (queue : List α) (next : α) : Prop :=
  ∃ before after, queue = before ++ next :: after ∧ (∀ other ∈ before, key other < key next) ∧
    ∀ other ∈ after, key other ≤ key next

theorem firstMax_of_bucket {key : α → κ} {queue rest : List α} {next : α} (bucket : α → Bool)
    (isHead : queue.filter bucket = next :: rest)
    (same : ∀ other ∈ queue, bucket other → key other = key next)
    (outside : ∀ other ∈ queue, ¬ bucket other → key other < key next) :
    FirstMax key queue next := by
  obtain ⟨before, after, rfl, notBefore, -, -⟩ := List.filter_eq_cons_iff.mp isHead
  refine ⟨before, after, rfl, ?_, ?_⟩
  · intro other inBefore
    exact outside other (List.mem_append_left _ inBefore) (notBefore other inBefore)
  · intro other inAfter
    have mem : other ∈ before ++ next :: after :=
      List.mem_append_right _ (List.mem_cons_of_mem _ inAfter)
    by_cases inBucket : bucket other
    · exact (same other mem inBucket).le
    · exact (outside other mem inBucket).le

end Xvisor.Lib
