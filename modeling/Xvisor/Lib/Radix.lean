import Mathlib.Tactic.Ring

/-!
# Blocks of a radix address space

Addresses are taken modulo the size of the space. A space made of `n` equal
parts is addressed by an index and an offset, and a block that divides a part
lies in one part.
-/

namespace Xvisor.Lib

open Nat

/-- Two addresses lie in the same block of size `size`, modulo the size of the space. -/
def SameBlock (space size a b : Nat) : Prop :=
  a % space / size = b % space / size

instance (space size a b : Nat) : Decidable (SameBlock space size a b) :=
  inferInstanceAs (Decidable (_ = _))

namespace SameBlock

variable {n part size a b c : Nat}

variable {space : Nat}

theorem iff_part (divides : size ∣ part) (pos : 0 < part) :
    SameBlock (part * n) size a b ↔ a / part % n = b / part % n ∧ SameBlock part size a b := by
  obtain ⟨m, rfl⟩ := divides
  have sizePos : 0 < size := Nat.pos_of_mul_pos_right pos
  have mPos : 0 < m := Nat.pos_of_mul_pos_left pos
  have digits : ∀ x, x % (size * m * n) / size =
      x % (size * m) / size + m * (x / (size * m) % n) := by
    intro x
    rw [mod_mul, mul_assoc, add_mul_div_left _ _ sizePos]
  have low : ∀ x, x % (size * m) / size < m := by
    intro x
    apply Nat.div_lt_of_lt_mul
    exact mod_lt _ pos
  unfold SameBlock
  rw [digits a, digits b]
  constructor
  · intro same
    have lowSame : a % (size * m) / size = b % (size * m) / size := by
      have := congrArg (· % m) same
      simpa [add_mul_mod_self_left, mod_eq_of_lt (low a), mod_eq_of_lt (low b)] using this
    rw [lowSame] at same
    exact ⟨Nat.eq_of_mul_eq_mul_left mPos (add_left_cancel same), lowSame⟩
  · rintro ⟨highSame, lowSame⟩
    rw [highSame, lowSame]

theorem iff_index (pos : 0 < part) :
    SameBlock (part * n) part a b ↔ a / part % n = b / part % n := by
  rw [iff_part (dvd_refl part) pos]
  have whole : SameBlock part part a b := by
    unfold SameBlock
    rw [div_eq_of_lt (mod_lt a pos), div_eq_of_lt (mod_lt b pos)]
  simp [whole]

theorem of_div_eq (divides : size ∣ space) (same : a / size = b / size) :
    SameBlock space size a b := by
  obtain ⟨m, rfl⟩ := divides
  unfold SameBlock
  rw [mod_mul_right_div_self, mod_mul_right_div_self, same]

theorem of_offset {ia i : Nat} (divides : size ∣ space) (aligned : size ∣ a) (inside : i < size)
    (same : ia % space = (a + i) % space) : SameBlock space size ia a ∧ ia % size = i := by
  obtain ⟨q, rfl⟩ := aligned
  constructor
  · obtain ⟨m, rfl⟩ := divides
    unfold SameBlock
    rw [same, mod_mul_right_div_self, mod_mul_right_div_self,
      Nat.mul_add_div (by omega), Nat.div_eq_of_lt inside, Nat.mul_div_cancel_left _ (by omega),
      add_zero]
  · rw [← mod_mod_of_dvd ia divides, same, mod_mod_of_dvd _ divides, mul_add_mod,
      mod_eq_of_lt inside]

end SameBlock

end Xvisor.Lib
