import Mathlib.Algebra.BigOperators.Group.Finset.Piecewise
import Mathlib.Algebra.Order.BigOperators.Group.Finset
import Mathlib.Algebra.Ring.Nat

/-!
# Coverage of a range of naturals by spans

An allocator neither loses nor duplicates memory when the number of spans that
contain a given point is the same before and after every operation.
-/

namespace Xvisor.Lib

open Function List Nat Finset

structure Span where
  first : Nat
  stop : Nat
  deriving DecidableEq, Repr

namespace Span

def covers (span : Span) (point : Nat) : Bool :=
  decide (span.first ≤ point ∧ point < span.stop)

@[simp] theorem covers_iff (span : Span) (point : Nat) :
    span.covers point = true ↔ span.first ≤ point ∧ point < span.stop := by simp [covers]

def Before (a b : Span) : Prop := a.stop ≤ b.first

instance (a b : Span) : Decidable (a.Before b) := inferInstanceAs (Decidable (_ ≤ _))

def Apart (a b : Span) : Prop := ∀ point, ¬ (a.covers point = true ∧ b.covers point = true)

theorem Apart.symm {a b : Span} (apart : a.Apart b) : b.Apart a :=
  fun point both => apart point both.symm

theorem Apart.before_or {a b : Span} (apart : a.Apart b) (nonemptyA : a.first < a.stop)
    (nonemptyB : b.first < b.stop) : a.Before b ∨ b.Before a := by
  have atA := apart a.first
  have atB := apart b.first
  simp only [covers_iff] at atA atB
  unfold Before
  omega

end Span

/-! ## Tilings -/

/-- Non-empty spans from `first` to `stop`, each starting where the one before it stops. -/
def Tiles : Nat → List Span → Nat → Prop
  | first, [], stop => first = stop
  | first, span :: rest, stop =>
    span.first = first ∧ span.first < span.stop ∧ Tiles span.stop rest stop

variable {first stop point : Nat} {spans : List Span}

theorem Tiles.nonempty (tiles : Tiles first spans stop) :
    ∀ span ∈ spans, span.first < span.stop := by
  induction spans generalizing first with
  | nil => simp
  | cons head rest ih =>
    obtain ⟨-, nonempty, tiles⟩ := tiles
    exact forall_mem_cons.mpr ⟨nonempty, ih tiles⟩

theorem Tiles.le_add_mul {bound : Nat} (tiles : Tiles first spans stop)
    (short : ∀ span ∈ spans, span.stop ≤ span.first + bound) :
    stop ≤ first + spans.length * bound := by
  induction spans generalizing first with
  | nil => exact (show first = stop from tiles).symm.le.trans (le_add_right _ _)
  | cons head rest ih =>
    obtain ⟨rfl, -, tiles⟩ := tiles
    have onward := ih tiles fun span inRest =>
      short span (mem_cons_of_mem _ inRest)
    have step := short head mem_cons_self
    rw [length_cons, succ_mul]
    omega

def Span.weight (span : Span) (point : Nat) : Nat :=
  if span.first ≤ point ∧ point < span.stop then 1 else 0

theorem Span.weight_le_one (span : Span) (point : Nat) : span.weight point ≤ 1 := by
  unfold Span.weight
  split_ifs <;> omega

variable {span : Span}

theorem Span.weight_of_lt (below : point < span.first) : span.weight point = 0 := if_neg (by omega)

theorem Span.weight_of_le (above : span.stop ≤ point) : span.weight point = 0 := if_neg (by omega)

def coverage (spans : List Span) (point : Nat) : Nat := (spans.map (·.weight point)).sum

@[simp] theorem coverage_nil (point : Nat) : coverage [] point = 0 := rfl

@[simp] theorem coverage_cons (span : Span) (spans : List Span) (point : Nat) :
    coverage (span :: spans) point = span.weight point + coverage spans point := by
  simp [coverage]

@[simp] theorem coverage_append (left right : List Span) (point : Nat) :
    coverage (left ++ right) point = coverage left point + coverage right point := by
  simp [coverage]

theorem coverage_perm {left right : List Span} (perm : left.Perm right) (point : Nat) :
    coverage left point = coverage right point := (perm.map _).sum_eq

theorem Span.weight_pos : 0 < span.weight point ↔ span.covers point = true := by
  unfold Span.weight
  split_ifs with inside <;> simp [inside]

theorem coverage_pos : 0 < coverage spans point ↔ ∃ span ∈ spans, span.covers point = true := by
  induction spans with
  | nil => simp
  | cons span spans ih =>
    rw [exists_mem_cons_iff, ← ih, ← Span.weight_pos, coverage_cons]
    omega

theorem Span.weight_cut (first middle stop : Nat) (low : first ≤ middle) (high : middle ≤ stop)
    (point : Nat) :
    (Span.mk first stop).weight point =
      (Span.mk first middle).weight point + (Span.mk middle stop).weight point := by
  unfold Span.weight
  split_ifs <;> simp_all <;> omega

theorem mem_rounded_iff {block low high : Nat} (alignedFirst : block ∣ first)
    (alignedStop : block ∣ stop) (below : first ≤ low) (tightLow : low < first + block)
    (nonempty : low < high) (above : high ≤ stop) (tightHigh : stop < high + block) :
    first ≤ point ∧ point < stop ↔ ∃ q, low ≤ q ∧ q < high ∧ q / block = point / block := by
  obtain ⟨i, rfl⟩ := alignedFirst
  obtain ⟨j, rfl⟩ := alignedStop
  have pos : 0 < block := by omega
  have inside : ∀ q, block * i ≤ q ∧ q < block * j ↔ i ≤ q / block ∧ q / block < j := by
    intro q
    rw [le_div_iff_mul_le pos, div_lt_iff_lt_mul pos, mul_comm i, mul_comm j]
  rw [inside]
  constructor
  · rintro ⟨lower, upper⟩
    -- the point itself, unless it lies in the first or in the last block
    by_cases isFirst : point < low
    · refine ⟨low, le_rfl, nonempty, ?_⟩
      have same : low / block < i + 1 := by
        rw [div_lt_iff_lt_mul pos, add_mul, one_mul, mul_comm i]
        exact tightLow
      have := Nat.div_le_div_right (c := block) isFirst.le
      omega
    · by_cases isLast : point < high
      · exact ⟨point, by omega, isLast, rfl⟩
      · refine ⟨high - 1, by omega, by omega, ?_⟩
        have same : j ≤ (high - 1) / block + 1 := by
          have reach : block * j < block * ((high - 1) / block + 1) + block := by
            have := div_add_mod (high - 1) block
            have := mod_lt (high - 1) pos
            rw [mul_add, mul_one]
            omega
          rw [← mul_succ] at reach
          exact Nat.le_of_lt_succ (Nat.lt_of_mul_lt_mul_left reach)
        have := Nat.div_le_div_right (c := block) (show high - 1 ≤ point by omega)
        omega
  · rintro ⟨q, lower, upper, same⟩
    rw [← same]
    exact (inside q).mp ⟨by omega, by omega⟩

theorem pairwise_apart_of_coverage_le_one
    (single : ∀ point, coverage spans point ≤ 1) : spans.Pairwise Span.Apart := by
  induction spans with
  | nil => exact List.Pairwise.nil
  | cons span spans ih =>
    simp only [coverage_cons] at single
    refine pairwise_cons.mpr ⟨?_, ih fun point => ?_⟩
    · intro other mem point both
      have covered : 0 < coverage spans point := coverage_pos.mpr ⟨other, mem, both.2⟩
      have own : 0 < span.weight point := Span.weight_pos.mpr both.1
      have := single point
      omega
    · have := single point
      omega

theorem sum_update_range {count index : Nat} (inside : index < count) (f : Nat → Nat)
    (value : Nat) :
    (∑ k ∈ Finset.range count, update f index value k) + f index =
      (∑ k ∈ Finset.range count, f k) + value := by
  have mem : index ∈ Finset.range count := Finset.mem_range.mpr inside
  rw [sum_update_of_mem mem, ← add_sum_erase _ f mem, sdiff_singleton_eq_erase]
  omega

end Xvisor.Lib
