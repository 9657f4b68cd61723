import Mathlib.Algebra.Group.Int.Defs
import Mathlib.Tactic.SplitIfs

/-!
# Time values

`vmm_timeval_sub` looks for an overflow as `vmm_timeval_add` does: the seconds of the result must
not be below those of an operand.
-/

namespace Xvisor.Timer

/-- What is left of a number in a `time64_t`. -/
def time64 (x : Int) : Int := (x + 2 ^ 63) % 2 ^ 64 - 2 ^ 63

structure Timeval where
  tvSec : Int
  tvNsec : Int

namespace Timeval

def carry (sec nsec : Int) : Timeval :=
  if 10 ^ 9 ≤ nsec then carry (time64 (sec + 1)) (nsec - 10 ^ 9) else ⟨sec, nsec⟩
termination_by nsec.toNat

def borrow (sec nsec : Int) : Timeval :=
  if nsec < 0 then borrow (time64 (sec - 1)) (nsec + 10 ^ 9) else ⟨sec, nsec⟩
termination_by (-nsec).toNat

def setNormalized (sec nsec : Int) : Timeval :=
  let tv := carry sec nsec
  borrow tv.tvSec tv.tvNsec

def saturate (delta lhs rhs : Timeval) : Timeval :=
  if delta.tvSec < lhs.tvSec ∨ delta.tvSec < rhs.tvSec then { delta with tvSec := 2 ^ 63 - 1 }
  else delta

def add (lhs rhs : Timeval) : Timeval :=
  (setNormalized (time64 (lhs.tvSec + rhs.tvSec)) (time64 (lhs.tvNsec + rhs.tvNsec))).saturate
    lhs rhs

def sub (lhs rhs : Timeval) : Timeval :=
  (setNormalized (time64 (lhs.tvSec - rhs.tvSec)) (time64 (lhs.tvNsec - rhs.tvNsec))).saturate
    lhs rhs

def toNs (tv : Timeval) : Int := time64 (time64 (tv.tvSec * 10 ^ 9) + tv.tvNsec)

def ofNs (sdiv64 : Int → Int → Int) (nsec : Int) : Timeval :=
  if nsec = 0 then ⟨0, 0⟩
  else
    let sec := sdiv64 nsec (10 ^ 9)
    let rest := time64 (nsec - time64 (sec * 10 ^ 9))
    if rest < 0 then ⟨time64 (sec - 1), time64 (rest + 10 ^ 9)⟩ else ⟨sec, rest⟩

structure Normal (tv : Timeval) : Prop where
  sec : -2 ^ 63 ≤ tv.tvSec ∧ tv.tvSec < 2 ^ 63
  nsec : 0 ≤ tv.tvNsec ∧ tv.tvNsec < 10 ^ 9

/-- The nanoseconds that a time value stands for. -/
def exact (tv : Timeval) : Int := tv.tvSec * 10 ^ 9 + tv.tvNsec

variable {a b s d : Timeval}

theorem setNormalized_eq {sec nsec : Int} (low : -10 ^ 9 ≤ nsec) (high : nsec < 2 * 10 ^ 9) :
    setNormalized sec nsec = if 10 ^ 9 ≤ nsec then ⟨time64 (sec + 1), nsec - 10 ^ 9⟩
      else if nsec < 0 then ⟨time64 (sec - 1), nsec + 10 ^ 9⟩ else ⟨sec, nsec⟩ := by
  simp only [setNormalized]
  split_ifs with many negative
  · rw [carry, if_pos many, carry, if_neg (by omega), borrow, if_neg]
    dsimp only
    omega
  · rw [carry, if_neg many, borrow, if_pos negative, borrow, if_neg]
    dsimp only
    omega
  · rw [carry, if_neg many, borrow, if_neg negative]

theorem saturate_eq_iff {sec nsec : Int} (normalA : a.Normal) (normalB : b.Normal)
    (normalS : s.Normal) (low : -10 ^ 9 ≤ nsec) (high : nsec < 2 * 10 ^ 9)
    (isExact : s.exact = sec * 10 ^ 9 + nsec) :
    (setNormalized (time64 sec) (time64 nsec)).saturate a b = s ↔
      a.tvSec ≤ s.tvSec ∧ b.tvSec ≤ s.tvSec := by
  have := normalA.sec
  have := normalB.sec
  obtain ⟨secS, nsecS⟩ := normalS
  have inRange : time64 nsec = nsec := by
    simp only [time64]
    omega
  rw [inRange, setNormalized_eq low high, saturate]
  obtain ⟨tvSec, tvNsec⟩ := s
  simp only [exact, time64] at *
  split_ifs <;> simp only [mk.injEq] at * <;> omega

theorem toNs_ofNs (sdiv64 : Int → Int → Int) {nsec : Int} (low : -2 ^ 63 ≤ nsec)
    (high : nsec < 2 ^ 63) : (ofNs sdiv64 nsec).toNs = nsec := by
  simp only [ofNs]
  split_ifs <;> simp only [toNs, time64] <;> omega

theorem timeval_group_iff (normalA : a.Normal) (normalB : b.Normal) (normalS : s.Normal)
    (normalD : d.Normal) (sum : s.exact = a.exact + b.exact)
    (difference : d.exact = a.exact - b.exact) :
    (a.add b = s ∧ a.sub b = d ∧ (a.add b).sub b = a ∧ ∀ sdiv64 nsec, -2 ^ 63 ≤ nsec →
        nsec < 2 ^ 63 → (ofNs sdiv64 nsec).toNs = nsec) ↔
      b.tvSec = 0 ∧ 0 ≤ a.tvSec ∧ b.tvNsec ≤ a.tvNsec ∧ a.tvNsec + b.tvNsec < 10 ^ 9 ∨
      b.tvSec = -1 ∧ -1 ≤ a.tvSec ∧ 10 ^ 9 ≤ a.tvNsec + b.tvNsec := by
  have := normalA.nsec
  have := normalB.nsec
  have := normalS.nsec
  have := normalD.nsec
  simp only [exact] at sum difference
  have added : a.add b = s ↔ _ := saturate_eq_iff normalA normalB normalS (by omega) (by omega)
    (by simp only [exact]; omega)
  have subtracted : a.sub b = d ↔ _ := saturate_eq_iff normalA normalB normalD (by omega)
    (by omega) (by simp only [exact]; omega)
  have restored : s.sub b = a ↔ _ := saturate_eq_iff normalS normalB normalA (by omega)
    (by omega) (by simp only [exact]; omega)
  constructor
  · rintro ⟨isSum, isDifference, isBack, -⟩
    rw [isSum, restored] at isBack
    rw [added] at isSum
    rw [subtracted] at isDifference
    omega
  · intro small
    have isSum := added.mpr (by omega)
    refine ⟨isSum, subtracted.mpr (by omega), ?_, fun sdiv64 _ => toNs_ofNs sdiv64⟩
    rw [isSum, restored]
    omega

theorem timeval_group_small : add ⟨0, 5⟩ ⟨0, 1⟩ = ⟨0, 6⟩ :=
  ((timeval_group_iff (s := ⟨0, 6⟩) (d := ⟨0, 4⟩) ⟨by decide, by decide⟩ ⟨by decide, by decide⟩
    ⟨by decide, by decide⟩ ⟨by decide, by decide⟩ rfl rfl).mpr (.inl (by decide))).1

/-- Three seconds from five leave the greatest number of seconds. -/
theorem timeval_sub_saturates : sub ⟨5, 0⟩ ⟨3, 0⟩ = ⟨2 ^ 63 - 1, 0⟩ := by
  rw [sub, setNormalized_eq (by decide) (by decide)]
  rfl

end Timeval

end Xvisor.Timer
