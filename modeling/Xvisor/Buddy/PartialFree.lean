import Xvisor.Buddy.Conservation

/-!
# Freeing a part of an allocated area

`buddy_mem_partial_free` takes the area of the address out of the alloc tree, puts
what lies in front of the range and behind it back, and frees the rest. Without
a house-keeping object a residue is freed too.
-/

namespace Xvisor.Buddy

open Lib Word BuddyArea Nat

variable {config : BuddyConfig} {total : Nat → Nat} {ba ba' : BuddyAllocator}
  {held : List BuddyArea} {bin : Nat} {a : BuddyArea} {rb : Rebalance BuddyArea}

def frontBlocks (a : BuddyArea) (addr : Nat) : Nat := sub addr a.map / 2 ^ a.binNum

def backBlocks (a : BuddyArea) (addr size : Nat) : Nat :=
  sub a.stop (add addr size) / 2 ^ a.binNum

def refusesPart (a : BuddyArea) (addr size : Nat) : Prop :=
  frontBlocks a addr ≠ 0 ∧ addr % 2 ^ a.binNum ≠ 0 ∨
    backBlocks a addr size ≠ 0 ∧ add addr size % 2 ^ a.binNum ≠ 0

instance (a : BuddyArea) (addr size : Nat) : Decidable (refusesPart a addr size) :=
  inferInstanceAs (Decidable (_ ∨ _))

-- residue from the start of the area; the flag tells whether the pool had an object for it
def keepFront (rb : Rebalance BuddyArea) (ba : BuddyAllocator) (a : BuddyArea) (addr : Nat) :
    Option (BuddyAllocator × BuddyArea × Bool) :=
  if frontBlocks a addr ≠ 0 ∧ addr % 2 ^ a.binNum = 0 then
    match buddyHkAlloc ba a.map a.binNum (frontBlocks a addr) with
    | none => some (ba, a, false)
    | some (ba, b) =>
      (buddyAllocAdd rb ba b).map fun ba =>
        (ba, { a with
          map := add a.map b.size, blkCount := sub a.blkCount b.blkCount }, true)
  else some (ba, a, true)

-- residue from the end of the area
def keepBack (rb : Rebalance BuddyArea) (ba : BuddyAllocator) (a : BuddyArea) (addr size : Nat) :
    Option (BuddyAllocator × BuddyArea) :=
  if backBlocks a addr size ≠ 0 ∧ add addr size % 2 ^ a.binNum = 0 then
    match buddyHkAlloc ba (add addr size) a.binNum (backBlocks a addr size) with
    | none => some (ba, a)
    | some (ba, b) =>
      (buddyAllocAdd rb ba b).map fun ba =>
        (ba, { a with blkCount := sub a.blkCount b.blkCount })
  else some (ba, a)

/-- `buddy_mem_partial_free`; `none` when `__buddy_alloc_add` hits its `BUG_ON`. -/
def buddyMemPartialFree (rb : Rebalance BuddyArea) (ba : BuddyAllocator) (addr size : Nat) :
    Option (BuddyAllocator × Status) :=
  if outside ba.config addr then some (ba, .invalid)
  else
    match buddyAllocFind ba addr with
    | none => some (ba, .notAvailable)
    | some found =>
      let a := found.lowerTo ba.config.minBin
      if refusesPart a addr size then some (ba, .invalid)
      else
        match keepFront rb (buddyAllocDel rb ba found) a addr with
        | none => none
        | some (ba, a, false) => some (buddyBinsPut ba a, .ok)
        | some (ba, a, true) =>
          (keepBack rb ba a addr size).map fun (ba, a) => (buddyBinsPut ba a, .ok)

/-! ## The two residues -/

structure KeptResidue (config : BuddyConfig) (total : Nat → Nat) (held : List BuddyArea)
    (ba : BuddyAllocator) (a : BuddyArea) (ba' : BuddyAllocator) (b : BuddyArea) : Prop where
  holding : Holding config total ba' (b :: held)
  sameBin : b.binNum = a.binNum
  tree : ∀ point, coverage (spans ba'.alloc.toList) point + b.span.weight point =
    coverage (spans ba.alloc.toList) point + a.span.weight point

theorem KeptResidue.refl (holding : Holding config total ba (a :: held)) :
    KeptResidue config total held ba a ba a :=
  ⟨holding, rfl, fun _ => rfl⟩

theorem buddyAllocAdd_hkFreeList (added : buddyAllocAdd rb ba a = some ba') :
    ba'.hkFreeList = ba.hkFreeList := by
  obtain ⟨tree, linked, rfl⟩ := Option.map_eq_some_iff.mp added
  rfl

theorem Holding.keepPiece {piece rest : BuddyArea} {ba₀ : BuddyAllocator}
    (rb : Rebalance BuddyArea) (a : BuddyArea)
    (holding : Holding config total ba (piece :: rest :: held)) (sameBin : rest.binNum = a.binNum)
    (sameTree : ba.alloc = ba₀.alloc)
    (weights : ∀ point, a.span.weight point = piece.span.weight point + rest.span.weight point) :
    ∃ ba', buddyAllocAdd rb ba piece = some ba' ∧ ba'.hkFreeList = ba.hkFreeList ∧
      KeptResidue config total held ba₀ a ba' rest := by
  obtain ⟨ba', added, kept⟩ := buddyAllocAdd_holding rb holding
  refine ⟨ba', added, buddyAllocAdd_hkFreeList added, kept, sameBin, ?_⟩
  intro point
  rw [buddyAllocAdd_coverage added, weights, sameTree]
  omega

theorem BuddyConfig.Fits.blkCount_lt (fits : config.Fits a) (valid : config.Valid) :
    a.blkCount < 2 ^ 64 := by
  have bound := valid.bound
  have top := fits.high
  have := Nat.le_mul_of_pos_right a.blkCount (Nat.two_pow_pos a.binNum)
  simp only [span] at top
  omega

variable {addr size : Nat} (rb : Rebalance BuddyArea)

theorem keepFront_spec (holding : Holding config total ba (a :: held))
    (low : a.map ≤ addr) (high : addr < a.span.stop)
    (checked : frontBlocks a addr ≠ 0 → addr % 2 ^ a.binNum = 0) :
    ∃ ba' b kept, keepFront rb ba a addr = some (ba', b, kept) ∧
      KeptResidue config total held ba a ba' b ∧ b.span.stop = a.span.stop ∧
      a.map ≤ b.map ∧ b.map ≤ addr ∧
      (kept = false → frontBlocks a addr ≠ 0 ∧ ba.hkFreeList = []) ∧
      (kept = true → addr < b.map + 2 ^ a.binNum ∧ ba'.hkFreeList.length +
        (if frontBlocks a addr = 0 then 0 else 1) = ba.hkFreeList.length) := by
  have fits := holding.heldFits a (by simp)
  have bound := holding.valid.bound
  have top := fits.high
  have blocks : frontBlocks a addr = (addr - a.map) / 2 ^ a.binNum := by
    rw [frontBlocks, sub_of_le low (by omega)]
  have rounded := div_mul_le_self (addr - a.map) (2 ^ a.binNum)
  have short := frontBlocks_lt low high
  unfold keepFront
  by_cases none : frontBlocks a addr = 0
  · rw [if_neg fun both => both.1 none]
    refine ⟨ba, a, true, rfl, .refl holding, rfl, le_rfl, low, by simp, ?_⟩
    intro _
    rw [blocks, Nat.div_eq_zero_iff] at none
    have := Nat.two_pow_pos a.binNum
    simp only [blocks]
    refine ⟨by omega, ?_⟩
    rw [if_pos (Nat.div_eq_zero_iff.mpr none)]
    rfl
  · rw [if_pos ⟨none, checked none⟩]
    cases allocated : buddyHkAlloc ba a.map a.binNum (frontBlocks a addr) with
    | none =>
      refine ⟨ba, a, false, rfl, .refl holding, rfl, le_rfl, low, ?_, by simp⟩
      exact fun _ => ⟨none, buddyHkAlloc_none.mp allocated⟩
    | some result =>
      obtain ⟨ba₁, b⟩ := result
      have taken := buddyHkAlloc_some allocated
      rw [blocks] at taken none
      have pos := pos_of_ne_zero none
      obtain ⟨ba', added, sameList, kept⟩ := (holding.splitHeld pos short taken).keepPiece
        rb a rfl taken.same.alloc (fits.cut _ pos short).2.2
      have start : add a.map b.size =
          a.map + (addr - a.map) / 2 ^ a.binNum * 2 ^ a.binNum := by
        rw [taken.area]
        exact fits.cut_address holding.valid _ short.le
      have count : sub a.blkCount b.blkCount =
          a.blkCount - (addr - a.map) / 2 ^ a.binNum := by
        rw [taken.area]
        exact sub_of_le short.le (fits.blkCount_lt holding.valid)
      have remainder := lt_div_mul_add (Nat.two_pow_pos a.binNum) (a := addr - a.map)
      rw [← taken.area] at added
      simp only [added, Option.map_some, start, count]
      refine ⟨_, _, _, rfl, kept, BuddyConfig.cut_stop a short.le, le_add_right _ _,
        by dsimp only; omega, by simp, ?_⟩
      intro _
      have length := taken.length
      refine ⟨by dsimp only; omega, ?_⟩
      rw [blocks, if_neg none, sameList]
      exact length

theorem keepBack_spec (holding : Holding config total ba (a :: held))
    (low : a.map ≤ addr) (pos : 0 < size) (high : addr + size ≤ a.span.stop)
    (checked : backBlocks a addr size ≠ 0 → add addr size % 2 ^ a.binNum = 0) :
    ∃ ba' b, keepBack rb ba a addr size = some (ba', b) ∧
      KeptResidue config total held ba a ba' b ∧ b.map = a.map ∧
      addr + size ≤ b.span.stop ∧ b.span.stop ≤ a.span.stop ∧
      ((backBlocks a addr size ≠ 0 → ba.hkFreeList ≠ []) →
        b.span.stop < addr + size + 2 ^ a.binNum) := by
  have fits := holding.heldFits a (by simp)
  have bound := holding.valid.bound
  have top := fits.high
  have block := Nat.two_pow_pos a.binNum
  have sum : add addr size = addr + size := add_of_lt (by omega)
  have blocks : backBlocks a addr size = (a.span.stop - (addr + size)) / 2 ^ a.binNum := by
    rw [backBlocks, sum, fits.stop_eq holding.valid, sub_of_le high (by omega)]
  rw [sum] at checked
  unfold keepBack
  rw [sum]
  by_cases none : backBlocks a addr size = 0
  · rw [if_neg fun both => both.1 none]
    refine ⟨ba, a, rfl, .refl holding, rfl, high, le_rfl, ?_⟩
    intro _
    rw [blocks, Nat.div_eq_zero_iff] at none
    omega
  · have aligned := dvd_of_mod_eq_zero (checked none)
    rw [if_pos ⟨none, checked none⟩]
    cases allocated : buddyHkAlloc ba (addr + size) a.binNum (backBlocks a addr size) with
    | none =>
      refine ⟨ba, a, rfl, .refl holding, rfl, high, le_rfl, ?_⟩
      exact fun enough => absurd (buddyHkAlloc_none.mp allocated) (enough none)
    | some result =>
      obtain ⟨ba₁, b⟩ := result
      have taken := buddyHkAlloc_some allocated
      obtain ⟨count, some, atMost, address, back⟩ := fits.behind aligned (by omega) high
      rw [back] at blocks
      have short : count < a.blkCount := by omega
      rw [address, blocks] at taken
      obtain ⟨ba', added, _, kept⟩ := (holding.splitHeld some short taken).swap.keepPiece rb a rfl
        taken.same.alloc (fun point => ((fits.cut count some short).2.2 point).trans (add_comm _ _))
      have left : sub a.blkCount b.blkCount = count := by
        rw [taken.area, sub_of_le (by dsimp only; omega) (fits.blkCount_lt holding.valid)]
        dsimp only
        omega
      rw [← taken.area] at added
      simp only [added, Option.map_some, left]
      refine ⟨_, _, rfl, kept, rfl, ?_, ?_, ?_⟩
      · simp only [span]
        omega
      · simp only [span]
        exact Nat.add_le_add_left (Nat.mul_le_mul_right _ short.le) _
      · intro _
        simp only [span]
        omega

/-! ## The whole operation -/

def residueCount (a : BuddyArea) (addr size : Nat) : Nat :=
  (if frontBlocks a addr = 0 then 0 else 1) + if backBlocks a addr size = 0 then 0 else 1

/-- A successful partial free of a range inside the area. With enough house-keeping objects, the
range rounded to blocks was freed. -/
structure FreedPart (config : BuddyConfig) (total : Nat → Nat) (ba : BuddyAllocator)
    (a : BuddyArea) (addr size : Nat) (ba' : BuddyAllocator) (freed : BuddyArea) : Prop where
  holding : Holding config total ba' []
  fits : config.Fits freed
  sameBin : freed.binNum = config.minBin
  tree : ∀ point, coverage (spans ba'.alloc.toList) point + freed.span.weight point =
    coverage (spans ba.alloc.toList) point
  inside : a.map ≤ freed.map ∧ freed.span.stop ≤ a.span.stop
  low : freed.map ≤ addr
  high : addr + size ≤ freed.span.stop
  tight : residueCount (a.lowerTo config.minBin) addr size ≤ ba.hkFreeCount →
    addr < freed.map + 2 ^ config.minBin ∧ freed.span.stop < addr + size + 2 ^ config.minBin

theorem buddyMemPartialFree_freed (holding : Holding config total ba [])
    (inside : ¬ outside config addr) (found : buddyAllocFind ba addr = some a)
    (accepted : ¬ refusesPart (a.lowerTo config.minBin) addr size) (pos : 0 < size)
    (high : addr + size ≤ a.span.stop) :
    ∃ ba' freed, buddyMemPartialFree rb ba addr size = some (ba', .ok) ∧
      FreedPart config total ba a addr size ba' freed := by
  obtain ⟨allocated, fits, low, below⟩ := holding.found found
  have taken : Holding config total (buddyAllocDel rb ba a) [a] :=
    buddyAllocDel_holding holding allocated
  obtain ⟨lowered, sameSpan⟩ := taken.lowerTo le_rfl fits.binLow
  have deleted : ∀ point, coverage (spans (buddyAllocDel rb ba a).alloc.toList) point +
      (a.lowerTo config.minBin).span.weight point = coverage (spans ba.alloc.toList) point := by
    intro point
    rw [sameSpan, add_comm]
    exact buddyAllocDel_coverage allocated point
  have sameBin : (a.lowerTo config.minBin).binNum = config.minBin := rfl
  rw [refusesPart, not_or] at accepted
  rw [← sameSpan] at high
  obtain ⟨ba₁, b, kept, front, keptFront, sameStop, insideFront, lowFront, missing, tightFront⟩ :=
    keepFront_spec rb lowered low (show addr < _ by omega)
      (fun some => Decidable.not_not.mp fun ragged => accepted.1 ⟨some, ragged⟩)
  have fitsFront := keptFront.holding.heldFits b (by simp)
  have stopFront : b.stop = (a.lowerTo config.minBin).stop := by
    rw [fitsFront.stop_eq holding.valid, sameStop,
      (lowered.heldFits _ (by simp)).stop_eq holding.valid]
  have sameBack : backBlocks b addr size = backBlocks (a.lowerTo config.minBin) addr size := by
    rw [backBlocks, backBlocks, stopFront, keptFront.sameBin]
  have pool := holding.pool
  have binFront := keptFront.sameBin.trans sameBin
  unfold buddyMemPartialFree
  rw [holding.sameConfig, if_neg inside, found]
  dsimp only
  rw [if_neg (by rw [refusesPart, not_or]; exact accepted), front]
  cases kept with
  | false =>
    have freed := buddyBinsPut_holding keptFront.holding
    refine ⟨_, b, rfl, freed, fitsFront, binFront, ?_, ⟨insideFront, ?_⟩, lowFront,
      sameStop ▸ high, ?_⟩
    · intro point
      rw [buddyBinsPut_alloc, keptFront.tree, deleted]
    · rw [sameStop, sameSpan]
    · intro enough
      obtain ⟨some, empty⟩ := missing rfl
      have none : ba.hkFreeCount = 0 := by
        rw [pool]
        exact congrArg List.length empty
      rw [residueCount, if_neg some] at enough
      omega
  | true =>
    obtain ⟨tightFront, left⟩ := tightFront rfl
    obtain ⟨ba₂, c, back, keptBack, sameMap, highBack, insideBack, tightBack⟩ :=
      keepBack_spec rb keptFront.holding lowFront pos (sameStop ▸ high)
        (fun some => by
          rw [keptFront.sameBin]
          exact Decidable.not_not.mp fun ragged => accepted.2 ⟨sameBack ▸ some, ragged⟩)
    have binBack := keptBack.sameBin.trans binFront
    dsimp only
    rw [back]
    refine ⟨_, c, rfl, buddyBinsPut_holding keptBack.holding,
      keptBack.holding.heldFits c (by simp), binBack, ?_, ⟨sameMap ▸ insideFront, ?_⟩,
      sameMap ▸ lowFront, highBack, ?_⟩
    · intro point
      rw [buddyBinsPut_alloc, keptBack.tree, keptFront.tree, deleted]
    · rw [← sameSpan, ← sameStop]
      exact insideBack
    · intro enough
      rw [binFront] at tightBack
      refine ⟨by rw [sameMap]; exact tightFront, tightBack ?_⟩
      intro some empty
      rw [sameBack] at some
      rw [residueCount, if_neg some, pool] at enough
      have sameList : (buddyAllocDel rb ba a).hkFreeList = ba.hkFreeList := rfl
      rw [empty, sameList] at left
      simp only [List.length_nil] at left
      omega

end Xvisor.Buddy
