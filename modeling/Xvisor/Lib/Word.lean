import Mathlib.Data.Nat.ModEq
import Mathlib.Tactic.Ring

/-!
# Unsigned machine words over the naturals

Addresses and sizes are naturals; the arithmetic of the C type `unsigned long`
is written out where the source may wrap.
-/

namespace Xvisor.Lib

open Nat

-- a literal of `Fin n` needs that `n` is not zero
instance neZero_two : NeZero 2 := ⟨by decide⟩

instance neZero_eight : NeZero 8 := ⟨by decide⟩

namespace Word

def add (a b : Nat) : Nat := (a + b) % 2 ^ 64

def sub (a b : Nat) : Nat := (a + (2 ^ 64 - b % 2 ^ 64)) % 2 ^ 64

def mul (a b : Nat) : Nat := a * b % 2 ^ 64

/-- The shift of a 64-bit register: only the low six bits of the distance count. -/
def shl (a distance : Nat) : Nat := a * 2 ^ (distance % 64) % 2 ^ 64

/-- Clear the low bits of an address: `a & ~((1 << order) - 1)`. -/
def alignDown (a order : Nat) : Nat := a - a % 2 ^ order

def toU32 (a : Nat) : Nat := a % 2 ^ 32

variable {a b : Nat}

theorem add_of_lt (bound : a + b < 2 ^ 64) : add a b = a + b :=
  mod_eq_of_lt bound

theorem sub_of_le (order : b ≤ a) (bound : a < 2 ^ 64) : sub a b = a - b := by
  unfold sub
  omega

theorem add_add (a b c : Nat) : add (add a b) c = add a (b + c) := by
  simp only [add, mod_add_mod, add_assoc]

theorem sub_add_add {c : Nat} (order : c ≤ b) (bound : b < 2 ^ 64) :
    sub (add a b) (add a c) = b - c := by
  simp only [add, sub]
  omega

theorem mul_of_lt (bound : a * b < 2 ^ 64) : mul a b = a * b :=
  mod_eq_of_lt bound

theorem add_lt (a b : Nat) : add a b < 2 ^ 64 := mod_lt _ (Nat.two_pow_pos 64)

theorem sub_lt (a b : Nat) : sub a b < 2 ^ 64 := mod_lt _ (Nat.two_pow_pos 64)

theorem toU32_of_lt (bound : a < 2 ^ 32) : toU32 a = a := mod_eq_of_lt bound

theorem alignDown_le (a order : Nat) : alignDown a order ≤ a := sub_le _ _

theorem dvd_alignDown (a order : Nat) : 2 ^ order ∣ alignDown a order := dvd_sub_mod a

theorem alignDown_of_dvd {order : Nat} (aligned : 2 ^ order ∣ a) : alignDown a order = a := by
  simp [alignDown, mod_eq_zero_of_dvd aligned]

end Word

/-! ## Bit fields -/

namespace Bits

def field (x start width : Nat) : Nat := x / 2 ^ start % 2 ^ width

theorem field_lt (x start width : Nat) : field x start width < 2 ^ width :=
  mod_lt _ (Nat.two_pow_pos _)

theorem field_mod (x : Nat) {start width bits : Nat} (below : start + width ≤ bits) :
    field (x % 2 ^ bits) start width = field x start width := by
  obtain ⟨rest, rfl⟩ := Nat.exists_eq_add_of_le below
  rw [field, field, add_assoc, pow_add, mod_mul_right_div_self, pow_add]
  exact mod_mod_of_dvd _ (dvd_mul_right _ _)

theorem and_mul_two_pow (x a k : Nat) : x &&& 2 ^ k * a = 2 ^ k * (x / 2 ^ k &&& a) := by
  apply eq_of_testBit_eq
  intro i
  simp only [testBit_and, testBit_two_pow_mul, testBit_div_two_pow]
  by_cases above : k ≤ i
  · simp [above]
  · simp [above]

theorem and_field_low (x : Nat) {start width low : Nat} (below : low ≤ start) :
    x &&& (2 ^ start * (2 ^ width - 1) + (2 ^ low - 1)) =
      2 ^ start * field x start width + field x 0 low := by
  have lowBits : ∀ y, y < 2 ^ low → y < 2 ^ start := by
    intro y small
    exact lt_of_lt_of_le small (Nat.pow_le_pow_right (by omega) below)
  have ones : 2 ^ low - 1 < 2 ^ start := lowBits _ (by have := Nat.two_pow_pos low; omega)
  rw [two_pow_add_eq_or_of_lt ones, and_or_distrib_left, and_mul_two_pow,
    and_two_pow_sub_one_eq_mod, and_two_pow_sub_one_eq_mod,
    ← two_pow_add_eq_or_of_lt (lowBits _ (mod_lt _ (Nat.two_pow_pos _)))]
  simp [field]

theorem and_field_low_eq_iff (x start width low high : Nat) {bits : Nat} (below : low ≤ start)
    (isBits : bits < 2 ^ low) :
    x &&& (2 ^ start * (2 ^ width - 1) + (2 ^ low - 1)) = 2 ^ start * high + bits ↔
      field x start width = high ∧ field x 0 low = bits := by
  have small : 2 ^ low ≤ 2 ^ start := Nat.pow_le_pow_right (by omega) below
  have lowLt := field_lt x 0 low
  rw [and_field_low x below]
  constructor
  · intro same
    have lows : field x 0 low = bits := by
      have mods := congrArg (· % 2 ^ start) same
      simp only [mul_add_mod] at mods
      rwa [mod_eq_of_lt (lt_of_lt_of_le lowLt small),
        mod_eq_of_lt (lt_of_lt_of_le isBits small)]
        at mods
    refine ⟨?_, lows⟩
    rw [lows] at same
    exact Nat.eq_of_mul_eq_mul_left (Nat.two_pow_pos start) (add_right_cancel same)
  · rintro ⟨rfl, rfl⟩
    rfl

theorem and_add_and_not {w : Nat} (x mask : BitVec w) :
    (x &&& mask).toNat + (x &&& ~~~mask).toNat = x.toNat := by
  have disjoint : x &&& mask &&& (x &&& ~~~mask) = 0#w := by
    ext i
    cases isSet : mask[i] <;> simp [isSet]
  rw [← BitVec.toNat_add_of_and_eq_zero disjoint, BitVec.add_eq_or_of_and_eq_zero _ _ disjoint]
  congr 1
  ext i
  cases isSet : mask[i] <;> simp [isSet]

end Bits

/-! ## The bytes of a number, from the lowest to the highest -/

namespace Bytes

def reverse : Nat → Nat → Nat
  | 0, _ => 0
  | n + 1, v => v % 256 * 256 ^ n + reverse n (v / 256)

theorem reverse_lt (n v : Nat) : reverse n v < 256 ^ n := by
  induction n generalizing v with
  | zero => simp [reverse]
  | succ n ih =>
    have low : v % 256 < 256 := mod_lt v (by decide)
    calc v % 256 * 256 ^ n + reverse n (v / 256)
        < v % 256 * 256 ^ n + 256 ^ n := Nat.add_lt_add_left (ih _) _
      _ = (v % 256 + 1) * 256 ^ n := by ring
      _ ≤ 256 * 256 ^ n := mul_le_mul_right _ low
      _ = 256 ^ (n + 1) := by ring

theorem reverse_add (m n v : Nat) :
    reverse (m + n) v = reverse m v * 256 ^ n + reverse n (v / 256 ^ m) := by
  induction m generalizing v with
  | zero => simp [reverse]
  | succ m ih =>
    rw [succ_add, reverse, ih, reverse, Nat.div_div_eq_div_mul, ← pow_succ']
    ring

theorem reverse_mod (n v : Nat) : reverse n (v % 256 ^ n) = reverse n v := by
  induction n generalizing v with
  | zero => rfl
  | succ n ih =>
    have low : v % 256 ^ (n + 1) % 256 = v % 256 :=
      mod_mod_of_dvd v (Dvd.intro_left (256 ^ n) rfl)
    have high : v % 256 ^ (n + 1) / 256 = v / 256 % 256 ^ n := by
      rw [pow_succ', mod_mul_right_div_self]
    rw [reverse, reverse, low, high, ih]

theorem reverse_reverse {n v : Nat} (bound : v < 256 ^ n) : reverse n (reverse n v) = v := by
  induction n generalizing v with
  | zero =>
    simp only [pow_zero] at bound
    simp only [reverse]
    omega
  | succ n ih =>
    have small : v / 256 < 256 ^ n := by
      apply Nat.div_lt_of_lt_mul
      rwa [← pow_succ']
    have isRest := reverse_lt n (v / 256)
    have pos : 0 < 256 ^ n := Nat.pow_pos (by decide)
    have rest : reverse (n + 1) v % 256 ^ n = reverse n (v / 256) := by
      rw [reverse, mul_add_mod', mod_eq_of_lt isRest]
    have top : reverse (n + 1) v / 256 ^ n = v % 256 := by
      rw [reverse, mul_comm, mul_add_div pos, div_eq_of_lt isRest, add_zero]
    rw [reverse_add n 1, ← reverse_mod n, rest, top, ih small]
    simp only [reverse]
    omega

end Bytes

end Xvisor.Lib
