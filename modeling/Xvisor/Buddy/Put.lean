import Xvisor.Buddy.Invariant

/-!
# Putting areas on the bins keeps the invariant

`buddy_bins_put` inserts an area into its bin, merges it with its neighbours and
promotes pairs of blocks bin by bin.
-/

namespace Xvisor.Buddy

open Function List Lib BuddyAllocator

variable {config : BuddyConfig} {total : Nat → Nat} {ba ba' : BuddyAllocator}
  {held : List BuddyArea} {bin : Nat} {a merge : BuddyArea} {before after : List BuddyArea}

namespace BuddyAllocator

variable (ba : BuddyAllocator) (bin : Nat) (areas : List BuddyArea)

@[simp] theorem setBin_config : (ba.setBin bin areas).config = ba.config := rfl

@[simp] theorem setBin_alloc : (ba.setBin bin areas).alloc = ba.alloc := rfl

@[simp] theorem setBin_hkFreeCount : (ba.setBin bin areas).hkFreeCount = ba.hkFreeCount := rfl

@[simp] theorem setBin_hkFreeList : (ba.setBin bin areas).hkFreeList = ba.hkFreeList := rfl

@[simp] theorem setBin_bins : (ba.setBin bin areas).bins = update ba.bins bin areas := rfl

theorem setBin_self : ba.setBin bin (ba.bins bin) = ba := by
  simp [setBin]

end BuddyAllocator

/-! ## House-keeping objects -/

structure SameAreas (ba ba' : BuddyAllocator) : Prop where
  config : ba'.config = ba.config
  alloc : ba'.alloc = ba.alloc
  bins : ba'.bins = ba.bins

@[simp] theorem buddyHkFree_hkFreeCount (ba : BuddyAllocator) (a : BuddyArea) :
    (buddyHkFree ba a).hkFreeCount = ba.hkFreeCount + 1 := rfl

@[simp] theorem buddyHkFree_hkFreeList (ba : BuddyAllocator) (a : BuddyArea) :
    (buddyHkFree ba a).hkFreeList = ba.hkFreeList ++ [a] := rfl

theorem foldl_buddyHkFree (freed : List BuddyArea) (ba : BuddyAllocator) :
    SameAreas ba (freed.foldl buddyHkFree ba) ∧
      (freed.foldl buddyHkFree ba).hkFreeCount = ba.hkFreeCount + freed.length ∧
      (freed.foldl buddyHkFree ba).hkFreeList = ba.hkFreeList ++ freed := by
  induction freed generalizing ba with
  | nil => exact ⟨⟨rfl, rfl, rfl⟩, by simp, by simp⟩
  | cons a freed ih =>
    obtain ⟨same, count, list⟩ := ih (buddyHkFree ba a)
    refine ⟨⟨same.config, same.alloc, same.bins⟩, ?_, ?_⟩
    · simp only [foldl_cons, count, buddyHkFree_hkFreeCount, length_cons]
      omega
    · simp [list]

structure HkAllocated (ba ba' : BuddyAllocator) (a : BuddyArea) (map bin blkCount : Nat) :
    Prop where
  same : SameAreas ba ba'
  area : a = ⟨map, blkCount, bin⟩
  count : ba'.hkFreeCount = ba.hkFreeCount - 1
  length : ba'.hkFreeList.length + 1 = ba.hkFreeList.length

variable {map blkCount count : Nat}

theorem buddyHkAlloc_some (allocated : buddyHkAlloc ba map bin blkCount = some (ba', a)) :
    HkAllocated ba ba' a map bin blkCount := by
  unfold buddyHkAlloc at allocated
  cases pool : ba.hkFreeList with
  | nil => simp [pool] at allocated
  | cons first rest =>
    simp only [pool, Option.some.injEq, Prod.mk.injEq] at allocated
    obtain ⟨rfl, rfl⟩ := allocated
    exact ⟨⟨rfl, rfl, rfl⟩, rfl, rfl, by simp [pool]⟩

theorem HkAllocated.pool (allocated : HkAllocated ba ba' a map bin blkCount)
    (pool : ba.hkFreeCount = ba.hkFreeList.length) :
    ba'.hkFreeCount + 1 = ba.hkFreeCount ∧ ba'.hkFreeCount = ba'.hkFreeList.length := by
  have count := allocated.count
  have length := allocated.length
  omega

/-! ## Areas in a different bin -/

theorem BuddyConfig.Fits.promote (fits : config.Fits ⟨map, count * 2, bin⟩)
    (aligned : 2 ^ (bin + 1) ∣ map) (room : bin < config.maxBin) :
    config.Fits ⟨map, count, bin + 1⟩ ∧
      (BuddyArea.mk map count (bin + 1)).span = (BuddyArea.mk map (count * 2) bin).span := by
  have same : (BuddyArea.mk map count (bin + 1)).span =
      (BuddyArea.mk map (count * 2) bin).span := by
    simp only [BuddyArea.span, pow_succ, mul_assoc, mul_comm 2]
  refine ⟨⟨?_, room, ?_, aligned, fits.low, ?_⟩, same⟩
  · have := fits.binLow
    simp only at this ⊢
    omega
  · have := fits.nonempty
    simp only at this ⊢
    omega
  · rw [same]
    exact fits.high

theorem BuddyConfig.Fits.lower (fits : config.Fits a) (low : config.minBin ≤ bin)
    (high : bin ≤ a.binNum) :
    config.Fits ⟨a.map, a.blkCount * 2 ^ (a.binNum - bin), bin⟩ ∧
      (BuddyArea.mk a.map (a.blkCount * 2 ^ (a.binNum - bin)) bin).span = a.span := by
  have same : (BuddyArea.mk a.map (a.blkCount * 2 ^ (a.binNum - bin)) bin).span = a.span := by
    simp only [BuddyArea.span, Nat.mul_assoc, ← pow_add, Nat.sub_add_cancel high]
  refine ⟨⟨low, high.trans fits.binHigh, ?_, ?_, fits.low, ?_⟩, same⟩
  · exact Nat.mul_pos fits.nonempty (Nat.two_pow_pos _)
  · exact (pow_dvd_pow 2 high).trans fits.aligned
  · rw [same]
    exact fits.high

/-! ## Putting areas -/

namespace Holding

theorem fits_binned
    (holding : Holding config total (ba.setBin bin (before ++ merge :: after)) held) :
    merge.binNum = bin ∧ config.Fits merge := by
  have ok := holding.bins bin
  simp only [setBin_bins, update_self] at ok
  exact ok.fits merge (by simp)

/-- Replace the area in the middle of a bin list by other areas of the same bin, and
hold `gained` more areas. -/
theorem recut (holding : Holding config total (ba.setBin bin (before ++ merge :: after)) held)
    (inside : bin ≤ config.maxBin) (pieces gained : List BuddyArea)
    (sameConfig : ba'.config = ba.config) (sameAlloc : ba'.alloc = ba.alloc)
    (newBins : ba'.bins = update ba.bins bin (before ++ (pieces ++ after)))
    (pool : ba'.hkFreeCount = ba'.hkFreeList.length) (ok : BinOk config bin pieces)
    (within : ∀ x ∈ pieces, merge.span.first ≤ x.span.first ∧ x.span.stop ≤ merge.span.stop)
    (gainedFits : ∀ x ∈ gained, config.Fits x)
    (cover : ∀ point, coverage (spans pieces) point + coverage (spans gained) point =
      merge.span.weight point)
    (count : ba'.hkFreeCount + pieces.length + gained.length = ba.hkFreeCount + 1) :
    Holding config total ba' (gained ++ held) := by
  have okOld := holding.bins bin
  simp only [setBin_bins, update_self] at okOld
  obtain ⟨okBefore, okHere, across⟩ := binOk_append.mp okOld
  obtain ⟨-, okAfter, above⟩ := binOk_cons.mp okHere
  refine holding.rebin inside (before ++ (pieces ++ after)) sameConfig sameAlloc
    (by simp [newBins]) pool ?_ ?_ ?_ ?_
  · refine binOk_append.mpr ⟨okBefore, binOk_append.mpr ⟨ok, okAfter, ?_⟩, ?_⟩
    · intro x inPieces y inAfter
      exact le_trans (within x inPieces).2 (above y inAfter)
    · intro x inBefore y mem
      rcases mem_append.mp mem with inPieces | inAfter
      · exact le_trans (across x inBefore merge (by simp)) (within y inPieces).1
      · exact across x inBefore y (by simp [inAfter])
  · exact forall_mem_append.mpr ⟨gainedFits, holding.heldFits⟩
  · intro point
    have := cover point
    simp only [setBin_bins, update_self, spans_append, spans_cons, coverage_append, coverage_cons]
    omega
  · simp only [setBin_bins, setBin_hkFreeCount, update_self, length_append, length_cons]
    omega

end Holding

section

variable (holding : Holding config total (ba.setBin bin (before ++ merge :: after)) held)
include holding

theorem splitOddBlock_holding {odd : List BuddyArea} {merge' : BuddyArea}
    (inside : bin ≤ config.maxBin) (split : splitOddBlock ba bin merge = some (ba', odd, merge')) :
    Holding config total (ba'.setBin bin ((before ++ odd) ++ merge' :: after)) held := by
  obtain ⟨rfl, fits⟩ := holding.fits_binned
  unfold splitOddBlock at split
  split_ifs at split with crooked
  · obtain ⟨⟨ba₁, first⟩, allocated, result⟩ := Option.map_eq_some_iff.mp split
    have taken := buddyHkAlloc_some allocated
    obtain ⟨fitsFirst, fitsRest, weights⟩ := fits.cut 1 (by omega) (by omega)
    have address := fits.cut_address holding.valid 1 (by omega)
    rw [Word.mul, one_mul, Nat.mod_eq_of_lt (Nat.pow_lt_pow_right (by omega) ?_)] at address
    · simp only [Prod.mk.injEq, address, taken.area] at result
      obtain ⟨rfl, rfl, rfl⟩ := result
      obtain ⟨fewer, pool⟩ := taken.pool holding.pool
      refine holding.recut inside [⟨merge.map, 1, merge.binNum⟩,
        ⟨merge.map + 1 * 2 ^ merge.binNum, merge.blkCount - 1, merge.binNum⟩] []
        taken.same.config taken.same.alloc
        (by simp [taken.same.bins]) pool ?_ ?_ (by simp) ?_ ?_
      · refine binOk_cons.mpr ⟨⟨rfl, fitsFirst⟩, binOk_singleton rfl fitsRest, ?_⟩
        simp [Span.Before, BuddyArea.span]
      · have stop := BuddyConfig.cut_stop merge (show 1 ≤ merge.blkCount by omega)
        have nonempty := fitsRest.span_lt
        simp only [mem_cons, not_mem_nil, or_false, forall_eq_or_imp, forall_eq]
        simp only [BuddyArea.span] at stop nonempty ⊢
        omega
      · intro point
        simp [weights point]
      · simp only [setBin_hkFreeCount, length_cons, length_nil]
        omega
    · have := holding.valid.bins
      omega
  · simp only [Option.some.injEq, Prod.mk.injEq] at split
    obtain ⟨rfl, rfl, rfl⟩ := split
    simpa using holding

theorem Holding.take {ret : BuddyArea} (inside : bin ≤ config.maxBin) (pos : 0 < count)
    (short : count < merge.blkCount) (sameConfig : ba'.config = ba.config)
    (sameAlloc : ba'.alloc = ba.alloc) (newBins : ba'.bins = update ba.bins bin (before ++
      ⟨merge.map + count * 2 ^ merge.binNum, merge.blkCount - count, merge.binNum⟩ :: after))
    (pool : ba'.hkFreeCount = ba'.hkFreeList.length) (retFits : config.Fits ret)
    (retSpan : ret.span = (BuddyArea.mk merge.map count merge.binNum).span)
    (fewer : ba'.hkFreeCount + 1 = ba.hkFreeCount) : Holding config total ba' (ret :: held) := by
  obtain ⟨isBin, fits⟩ := holding.fits_binned
  obtain ⟨fitsFirst, fitsRest, weights⟩ := fits.cut count pos short
  refine holding.recut inside
    [⟨merge.map + count * 2 ^ merge.binNum, merge.blkCount - count, merge.binNum⟩] [ret]
    sameConfig sameAlloc (by simpa using newBins) pool (binOk_singleton isBin fitsRest) ?_ ?_ ?_ ?_
  · rw [forall_mem_singleton, BuddyConfig.cut_stop merge short.le]
    exact ⟨Nat.le_add_right _ _, le_rfl⟩
  · exact forall_mem_singleton.mpr retFits
  · intro point
    simp only [spans_cons, spans_nil, coverage_cons, coverage_nil, retSpan, weights point]
    omega
  · simp only [length_cons, length_nil]
    omega

theorem Holding.takeWhole {ret : BuddyArea} (inside : bin ≤ config.maxBin)
    (sameConfig : ba'.config = ba.config) (sameAlloc : ba'.alloc = ba.alloc)
    (newBins : ba'.bins = update ba.bins bin (before ++ after))
    (pool : ba'.hkFreeCount = ba'.hkFreeList.length) (retFits : config.Fits ret)
    (retSpan : ret.span = merge.span) (level : ba'.hkFreeCount = ba.hkFreeCount) :
    Holding config total ba' (ret :: held) := by
  refine holding.recut inside [] [ret] sameConfig sameAlloc (by simpa using newBins) pool binOk_nil (by simp) ?_ ?_ ?_
  · exact forall_mem_singleton.mpr retFits
  · intro point
    simp [retSpan]
  · simp [level]

theorem promoteBlocks_holding (room : bin < config.maxBin) :
    Holding config total (promoteBlocks ba bin before merge after).1
      ((promoteBlocks ba bin before merge after).2.toList ++ held) ∧
    ∀ residue, (promoteBlocks ba bin before merge after).2 = some residue →
      residue.binNum = bin + 1 := by
  obtain ⟨rfl, fits⟩ := holding.fits_binned
  unfold promoteBlocks
  split_ifs with even
  · cases allocated : buddyHkAlloc ba merge.map (merge.binNum + 1) (merge.blkCount / 2) with
    | none => exact ⟨by simpa using holding, by simp⟩
    | some result =>
      obtain ⟨ba₁, residue⟩ := result
      have taken := buddyHkAlloc_some allocated
      obtain ⟨fewer, pool⟩ := taken.pool holding.pool
      have aligned := Nat.dvd_of_mod_eq_zero even.1
      simp only [taken.area]
      -- the residue is the front of the area in blocks of the bigger bin
      have fitsFront : config.Fits ⟨merge.map, merge.blkCount / 2 * 2, merge.binNum⟩ := by
        by_cases whole : merge.blkCount / 2 * 2 = merge.blkCount
        · simpa only [whole] using fits
        · exact (fits.cut _ (by omega) (by omega)).1
      obtain ⟨fitsUp, spanUp⟩ := fitsFront.promote aligned room
      have address : Word.add merge.map
          (BuddyArea.mk merge.map (merge.blkCount / 2) (merge.binNum + 1)).size =
          merge.map + merge.blkCount / 2 * 2 * 2 ^ merge.binNum := by
        have stop := fitsUp.stop_eq holding.valid
        rw [spanUp] at stop
        exact stop
      split_ifs with exhausted
      · refine ⟨holding.takeWhole room.le taken.same.config taken.same.alloc
          (by simp [buddyHkFree, taken.same.bins]) (by simp [pool]) fitsUp ?_
          (by simpa using fewer), by simp⟩
        have whole : merge.blkCount / 2 * 2 = merge.blkCount := by omega
        rw [spanUp, whole]
      · exact ⟨holding.take room.le (by omega) (by omega) taken.same.config taken.same.alloc
          (by simp [address, taken.same.bins]) pool fitsUp spanUp fewer, by simp⟩
  · exact ⟨by simpa using holding, by simp⟩

end

/-- One round of `buddy_bins_put`: the area goes to its bin, and what is promoted is
held for the next round. -/
theorem buddyBinsPutArea_holding (holding : Holding config total ba (a :: held)) :
    Holding config total (buddyBinsPutArea ba a).1
      ((buddyBinsPutArea ba a).2.toList ++ held) ∧
    ∀ residue, (buddyBinsPutArea ba a).2 = some residue → residue.binNum = a.binNum + 1 := by
  have fits := holding.heldFits a (by simp)
  have inserted := putScan_inserted [] holding.valid fits
    (by simpa using holding.bins a.binNum)
    (fun b free => holding.apart_bin (by simp) free) (by simp)
  have binLow := fits.binLow
  have binHigh := fits.binHigh
  unfold buddyBinsPutArea
  simp only [holding.sameConfig]
  rw [if_neg (by omega)]
  simp only [nil_append] at inserted
  generalize putScan a [] (ba.bins a.binNum) = scan at inserted ⊢
  obtain ⟨same, count, list⟩ := foldl_buddyHkFree scan.freed ba
  generalize scan.freed.foldl buddyHkFree ba = ba₁ at same count list ⊢
  have placed : Holding config total (ba₁.setBin a.binNum scan.areas) held := by
    refine holding.rebin binHigh _ same.config same.alloc (by simp [same.bins]) ?_
      inserted.ok (fun b isHeld => holding.heldFits b (by simp [isHeld])) ?_ ?_
    · have := holding.pool
      simp [count, list, this]
    · intro point
      have := inserted.cover point
      simp only [spans_cons, coverage_cons]
      omega
    · have := inserted.count
      simp only [setBin_hkFreeCount, length_cons]
      omega
  rw [same.config, holding.sameConfig]
  split_ifs with top
  · exact ⟨by simpa [PutScan.areas] using placed, by simp⟩
  · cases split : splitOddBlock ba₁ a.binNum scan.merge with
    | none => exact ⟨by simpa [PutScan.areas] using placed, by simp⟩
    | some result =>
      obtain ⟨ba₂, odd, merge⟩ := result
      exact promoteBlocks_holding (splitOddBlock_holding placed binHigh split) (by omega)

theorem buddyBinsPutLoop_holding {fuel : Nat} {residue : Option BuddyArea}
    (holding : Holding config total ba (residue.toList ++ held))
    (enough : ∀ b, residue = some b → config.maxBin < fuel + b.binNum) :
    Holding config total (buddyBinsPutLoop fuel ba residue) held := by
  induction fuel generalizing ba residue with
  | zero =>
    cases residue with
    | none => simpa [buddyBinsPutLoop] using holding
    | some b =>
      have binHigh := (holding.heldFits b (by simp)).binHigh
      have := enough b rfl
      omega
  | succ fuel ih =>
    cases residue with
    | none => simpa [buddyBinsPutLoop] using holding
    | some b =>
      obtain ⟨putHolding, nextBin⟩ := buddyBinsPutArea_holding (by simpa using holding)
      refine ih putHolding ?_
      intro c isResidue
      have := enough b rfl
      have := nextBin c isResidue
      omega

theorem buddyBinsPut_holding (holding : Holding config total ba (a :: held)) :
    Holding config total (buddyBinsPut ba a) held := by
  refine buddyBinsPutLoop_holding (by simpa using holding) ?_
  intro b _
  rw [holding.sameConfig]
  omega

end Xvisor.Buddy
