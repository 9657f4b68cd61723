import Xvisor.Guest.Stage2
import Xvisor.Virtio.Queue

/-!
# Where a ring lies

`vmm_vring_size` is the size of a ring at address 0, and leaves out the word that
follows the used ring; `vmm_vring_init` aligns the address of the used ring.
-/

namespace Xvisor.Virtio

open Lib Word Guest Nat

/-- The bytes from an address to the next multiple of the alignment, for a power of two. -/
def padding (a align : Nat) : Nat := align - 1 - ((a + (align - 1)) &&& (align - 1))

def availEnd (num : Nat) : Nat := num * VringDesc.size + availRing num

namespace Vring

/-- Start and length of the three parts, with the words that follow the two rings. -/
def parts (vring : Vring) : List (Nat × Nat) :=
  [(vring.descPa, vring.num * VringDesc.size), (vring.availPa, availRing vring.num + 2),
    (vring.usedPa, usedRing vring.num + 2)]

def Inside (vring : Vring) (start size : Nat) : Prop :=
  (∀ part ∈ vring.parts, start ≤ part.1 ∧ part.1 + part.2 ≤ start + size) ∧
    vring.parts.Pairwise fun p q => p.1 + p.2 ≤ q.1 ∨ q.1 + q.2 ≤ p.1

end Vring

variable {num base align : Nat}

theorem alignMask_eq {a : Nat} (pos : 0 < align) (noWrap : a + (align - 1) < 2 ^ 64)
    (word : align < 2 ^ 64) : alignMask a align = a + padding a align := by
  have masked := Bits.and_add_and_not (BitVec.ofNat 64 (a + (align - 1)))
    (BitVec.ofNat 64 (align - 1))
  have isMask : align - 1 < 2 ^ 64 := by omega
  have mask : sub align 1 = align - 1 := sub_of_le pos word
  have sum : sub (add a align) 1 = a + (align - 1) := by
    simp only [sub, add]
    omega
  simp only [BitVec.toNat_and, BitVec.toNat_not, BitVec.toNat_ofNat, mod_eq_of_lt noWrap,
    mod_eq_of_lt isMask] at masked
  have below : (a + (align - 1)) &&& (align - 1) ≤ align - 1 := and_le_right
  rw [alignMask, mask, sum, padding]
  omega

/-- The padding at the address of the ring has room for the word after the available ring, and is
shorter than that at address 0 by the word after the used ring, which the size leaves out. -/
def Roomy (num base align : Nat) : Prop :=
  0 < align ∧ base + availEnd num + (align - 1) < 2 ^ 64 ∧ 2 ≤ padding (base + availEnd num) align ∧
    padding (base + availEnd num) align + 2 ≤ padding (availEnd num) align ∧
    availEnd num + padding (availEnd num) align + usedRing num < 2 ^ 32

instance : Decidable (Roomy num base align) := inferInstanceAs (Decidable (_ ∧ _))

theorem padding_lt (a : Nat) (pos : 0 < align) : padding a align < align := by
  unfold padding
  omega

theorem vringInit_inside (noWrap : base + availEnd num < 2 ^ 64) (size : Nat) :
    (vringInit num base align).Inside base size ↔
      base + availEnd num + 2 ≤ alignMask (base + availEnd num) align ∧
        alignMask (base + availEnd num) align + usedRing num + 2 ≤ base + size := by
  have avail : add base (num * VringDesc.size) = base + num * VringDesc.size :=
    add_of_lt (by simp only [availEnd] at noWrap; omega)
  have used : add (base + num * VringDesc.size) (availRing num) = base + availEnd num := by
    rw [add_of_lt (by simp only [availEnd] at noWrap; omega), availEnd, add_assoc]
  simp only [Vring.Inside, Vring.parts, vringInit, avail, used, List.forall_mem_cons,
    List.pairwise_cons, List.not_mem_nil, IsEmpty.forall_iff, implies_true, List.Pairwise.nil,
    and_true]
  generalize alignMask (base + availEnd num) align = usedPa
  simp only [availEnd, VringDesc.size, availRing, usedRing]
  omega

theorem Vring.Inside.used {vring : Vring} {start size : Nat} (inside : vring.Inside start size) :
    start ≤ vring.usedPa ∧ vring.usedPa + (usedRing vring.num + 2) ≤ start + size :=
  inside.1 (vring.usedPa, usedRing vring.num + 2) (by simp [Vring.parts])

theorem vringInit_inside_iff (word : base < 2 ^ 64) (isNum : num < 2 ^ 32)
    (isAlign : align < 2 ^ 32) :
    (vringInit num base align).Inside base (vringSize num align) ↔ Roomy num base align := by
  have isEnd : availEnd num = 18 * num + 4 := by
    simp only [availEnd, VringDesc.size, availRing]
    omega
  have isSize : vringSize num align =
      toU32 (alignMask (availEnd num) align + usedRing num) := by
    rw [vringSize, mul_comm, availEnd]
  have isUsed : (vringInit num base align).usedPa =
      alignMask (add base (availEnd num)) align := by
    rw [vringInit, add_add, availEnd]
  by_cases pos : 0 < align
  · have inner := padding_lt (availEnd num) pos
    by_cases noWrap : base + availEnd num + (align - 1) < 2 ^ 64
    · rw [vringInit_inside (by omega), isSize, alignMask_eq pos noWrap (by omega),
        alignMask_eq pos (by omega) (by omega), toU32, Roomy]
      simp only [usedRing]
      omega
    · refine iff_of_false (fun inside => ?_) fun roomy => noWrap roomy.2.1
      have above := inside.used.1
      have below : alignMask (add base (availEnd num)) align ≤
        sub (add (add base (availEnd num)) align) 1 := and_le_left
      rw [isUsed] at above
      simp only [add, sub] at above below
      omega
  · have zero : ∀ a, alignMask a align = 0 := by
      intro a
      rw [Nat.eq_zero_of_not_pos pos]
      exact and_zero _
    refine iff_of_false (fun inside => ?_) fun roomy => pos roomy.1
    have used := inside.used
    rw [isUsed, isSize, zero, zero] at used
    have : toU32 (0 + usedRing num) ≤ 0 + usedRing num := mod_le _ _
    change _ ∧ _ + (usedRing num + 2) ≤ _ at used
    omega

/-- A queue that was set up lies in guest RAM, contiguous unless its address is aliased. Its parts
lie within the validated area and apart from each other exactly if the padding is roomy. -/
theorem setup_inside_iff {vq : Queue} {aspace : Aspace} {fuel pfn pageSize : Nat}
    (isNum : num < 2 ^ 32) (isAlign : align < 2 ^ 32)
    (done : (vq.setup aspace fuel pfn pageSize num align).2 = .ok) :
    ((vq.setup aspace fuel pfn pageSize num align).1.vring.Inside (mul pfn pageSize)
        (vringSize num align) ↔ Roomy num (mul pfn pageSize) align) ∧
      ∃ mapping, aspace.physicalMap fuel (mul pfn pageSize) (vringSize num align) =
          .found mapping ∧
        mapping.regFlags.any .isram = true ∧ vringSize num align ≤ mapping.physSize ∧
        ∀ reg, aspace.WellFormed → aspace.descend .memory (mul pfn pageSize) = some reg →
          ¬reg.isAlias → mapping.hphysAddr + vringSize num align ≤ 2 ^ 64 →
          aspace.Linear (mul pfn pageSize) (vringSize num align) mapping := by
  simp only [Queue.setup] at done ⊢
  split at done
  · next mapping found =>
    split at done
    · cases done
    · next isRam =>
      split at done
      · cases done
      · next enough =>
        rw [if_neg isRam, if_neg enough]
        refine ⟨vringInit_inside_iff (mod_lt _ (Nat.two_pow_pos 64)) isNum isAlign,
          mapping, found, by simpa using isRam, Nat.not_lt.mp enough, ?_⟩
        intro reg wellFormed isReg notAlias noWrap
        exact wellFormed.linear found (Nat.not_lt.mp enough) noWrap isReg notAlias
  · cases done

def idleQueue : Queue := ⟨false, 0, ⟨0, 0, 0, 0⟩, 0⟩

theorem setup_inside_shifted :
    (idleQueue.setup (twoMegabyteGuest 0x90200000).aspace 0 0x80000004 1 1 32).1.vring.Inside
      0x80000004 44 :=
  (setup_inside_iff (by decide) (by decide) (by decide)).1.mpr (by decide)

/-- A ring of eight entries at the start of a page: `avail_event` lies behind the area. -/
theorem setup_not_inside :
    (idleQueue.setup (twoMegabyteGuest 0x90200000).aspace 0 0x80000 4096 8 4096).2 = .ok ∧
      ¬(idleQueue.setup (twoMegabyteGuest 0x90200000).aspace 0 0x80000 4096 8 4096).1.vring.Inside
        0x80000000 (vringSize 8 4096) := by
  refine ⟨by decide, fun inside => ?_⟩
  have used := inside.used.2
  revert used
  decide

end Xvisor.Virtio
