import Xvisor.Buddy.Put

/-!
# Taking areas from the bins keeps the invariant

`buddy_bins_get` takes blocks from the first bin that has enough of them and
downgrades them on the way back; `buddy_bins_reserve` carves a given range out
of one free area. The alloc tree is left alone.
-/

namespace Xvisor.Buddy

open Function List Lib Word BuddyAllocator

variable {config : BuddyConfig} {total : Nat → Nat} {ba ba' : BuddyAllocator}
  {held : List BuddyArea} {bin : Nat} {a : BuddyArea} {before after : List BuddyArea}

/-! ## Held areas -/

theorem Holding.rehold {held' : List BuddyArea} (holding : Holding config total ba held)
    (same : SameAreas ba ba') (pool : ba'.hkFreeCount = ba'.hkFreeList.length)
    (heldFits : ∀ b ∈ held', config.Fits b)
    (cover : ∀ point, coverage (spans held') point = coverage (spans held) point)
    (count : ba'.hkFreeCount + held'.length = ba.hkFreeCount + held.length) :
    Holding config total ba' held' := by
  refine holding.rebin (le_refl config.maxBin) (ba.bins config.maxBin) same.config same.alloc
    (by simp [same.bins]) pool (holding.bins _) heldFits ?_ ?_
  · intro point
    rw [cover point]
  · omega

theorem Holding.lower (holding : Holding config total ba (a :: held))
    (low : config.minBin ≤ bin) (high : bin ≤ a.binNum) :
    Holding config total ba (⟨a.map, a.blkCount * 2 ^ (a.binNum - bin), bin⟩ :: held) := by
  have fits := holding.heldFits a (by simp)
  obtain ⟨fitsLow, spanLow⟩ := fits.lower low high
  refine holding.rehold ⟨rfl, rfl, rfl⟩ holding.pool ?_ ?_ rfl
  · intro b mem
    rcases mem_cons.mp mem with rfl | isHeld
    · exact fitsLow
    · exact holding.heldFits b (by simp [isHeld])
  · intro point
    simp [spanLow]

theorem BuddyConfig.Fits.lower_mul (valid : config.Valid) (fits : config.Fits a)
    (low : config.minBin ≤ bin) (high : bin ≤ a.binNum) :
    mul a.blkCount (2 ^ (a.binNum - bin)) = a.blkCount * 2 ^ (a.binNum - bin) := by
  have stop := (fits.lower low high).1.high
  have block := Nat.le_mul_of_pos_right (a.blkCount * 2 ^ (a.binNum - bin))
    (Nat.two_pow_pos bin)
  have bound := valid.bound
  simp only [BuddyArea.span] at stop
  exact mul_of_lt (by omega)

theorem Holding.lowerTo (holding : Holding config total ba (a :: held))
    (low : config.minBin ≤ bin) (high : bin ≤ a.binNum) :
    Holding config total ba (a.lowerTo bin :: held) ∧ (a.lowerTo bin).span = a.span := by
  have fits := holding.heldFits a (by simp)
  rw [BuddyArea.lowerTo, fits.lower_mul holding.valid low high]
  exact ⟨holding.lower low high, (fits.lower low high).2⟩

theorem Holding.swap {b : BuddyArea} (holding : Holding config total ba (a :: b :: held)) :
    Holding config total ba (b :: a :: held) := by
  refine holding.rehold ⟨rfl, rfl, rfl⟩ holding.pool ?_ ?_ rfl
  · intro x mem
    exact holding.heldFits x (by simpa [or_left_comm] using mem)
  · intro point
    simp only [spans_cons, coverage_cons]
    omega

variable {count blkCount size addr : Nat} {t ret : BuddyArea}

section

variable (holding : Holding config total ba (a :: held)) (pos : 0 < count)
  (short : count < a.blkCount)
include holding pos short

theorem Holding.splitHeld {map : Nat} (taken : HkAllocated ba ba' t map bin blkCount) :
    Holding config total ba' (⟨a.map, count, a.binNum⟩ ::
      ⟨a.map + count * 2 ^ a.binNum, a.blkCount - count, a.binNum⟩ :: held) := by
  obtain ⟨fewer, pool⟩ := taken.pool holding.pool
  obtain ⟨fitsFront, fitsBack, weights⟩ := (holding.heldFits a (by simp)).cut count pos short
  refine holding.rehold taken.same pool ?_ ?_ ?_
  · intro b mem
    simp only [mem_cons] at mem
    rcases mem with rfl | rfl | isHeld
    · exact fitsFront
    · exact fitsBack
    · exact holding.heldFits b (by simp [isHeld])
  · intro point
    simp only [spans_cons, coverage_cons, weights point]
    omega
  · simp only [length_cons]
    omega

theorem Holding.putBack
    (allocated : buddyHkAlloc ba (add a.map (mul count (2 ^ a.binNum))) a.binNum
      (a.blkCount - count) = some (ba', t)) :
    Holding config total (buddyBinsPut ba' t) ({ a with blkCount := count } :: held) := by
  have taken := buddyHkAlloc_some allocated
  have fits := holding.heldFits a (by simp)
  rw [taken.area, fits.cut_address holding.valid _ short.le]
  exact buddyBinsPut_holding (holding.splitHeld pos short taken).swap

theorem Holding.putFront (allocated : buddyHkAlloc ba a.map a.binNum count = some (ba', t)) :
    Holding config total (buddyBinsPut ba' t)
      (⟨a.map + count * 2 ^ a.binNum, a.blkCount - count, a.binNum⟩ :: held) := by
  have taken := buddyHkAlloc_some allocated
  rw [taken.area]
  exact buddyBinsPut_holding (holding.splitHeld pos short taken)

end

/-! ## Getting blocks -/

structure HandsOut (config : BuddyConfig) (total : Nat → Nat) (held : List BuddyArea)
    (bin blkCount : Nat) (result : BuddyAllocator × Option BuddyArea) : Prop where
  holding : Holding config total result.1 (result.2.toList ++ held)
  area : ∀ ret, result.2 = some ret → ret.binNum = bin ∧ blkCount ≤ ret.blkCount

theorem HandsOut.nothing (holding : Holding config total ba held) :
    HandsOut config total held bin blkCount (ba, none) :=
  ⟨by simpa using holding, by simp⟩

theorem takeBlocks_handsOut (holding : Holding config total ba held)
    (split : ba.bins bin = before ++ a :: after) (pos : 0 < blkCount)
    (enough : blkCount ≤ a.blkCount) :
    HandsOut config total held bin blkCount (takeBlocks ba bin blkCount before a after) := by
  obtain ⟨rfl, fits⟩ := (holding.bins bin).fits a (by simp [split])
  have here : Holding config total (ba.setBin a.binNum (before ++ a :: after)) held := by
    rwa [← split, setBin_self]
  unfold takeBlocks
  cases allocated : buddyHkAlloc ba a.map a.binNum blkCount with
  | none => exact HandsOut.nothing holding
  | some result =>
    obtain ⟨ba₁, ret⟩ := result
    have taken := buddyHkAlloc_some allocated
    obtain ⟨fewer, pool⟩ := taken.pool holding.pool
    simp only [taken.area, fits.cut_address holding.valid _ enough]
    split_ifs with exhausted
    · have whole : blkCount = a.blkCount := by omega
      subst whole
      exact ⟨here.takeWhole fits.binHigh taken.same.config taken.same.alloc
        (by simp [buddyHkFree, taken.same.bins]) (by simp [pool]) fits rfl (by simpa using fewer),
        by simp⟩
    · have fitsFront := (fits.cut _ pos (by omega)).1
      exact ⟨here.take fits.binHigh pos (by omega) taken.same.config taken.same.alloc
        (by simp [taken.same.bins]) pool fitsFront rfl fewer, by simp⟩

theorem downgradeArea_handsOut (holding : Holding config total ba (ret :: held))
    (low : config.minBin ≤ bin) (above : ret.binNum = bin + 1) (pos : 0 < blkCount)
    (enough : (blkCount + 1) / 2 ≤ ret.blkCount) :
    HandsOut config total held bin blkCount (downgradeArea ba bin blkCount ret) := by
  have lowered := holding.lower low (by omega : bin ≤ ret.binNum)
  rw [above, Nat.add_sub_cancel_left, pow_one] at lowered
  unfold downgradeArea
  simp only [above, Nat.add_sub_cancel]
  split_ifs with same
  · exact ⟨by simpa using lowered, by simp [same]⟩
  · cases allocated : buddyHkAlloc ba (add ret.map (mul blkCount (2 ^ bin))) bin
        (ret.blkCount * 2 - blkCount) with
    | none => exact ⟨by simpa using lowered, by simp; omega⟩
    | some result =>
      obtain ⟨ba₁, residue⟩ := result
      have put := lowered.putBack pos (by simp only; omega) allocated
      exact ⟨by simpa using put, by simp⟩

/-- The recursion moves up one bin at a time; `HandsOut` is what each level returns. -/
theorem buddyBinsGetFrom_handsOut (fuel bin blkCount : Nat)
    (holding : Holding config total ba held) :
    HandsOut config total held bin blkCount (buddyBinsGetFrom fuel ba bin blkCount) := by
  induction fuel generalizing bin blkCount with
  | zero => exact HandsOut.nothing holding
  | succ fuel ih =>
    simp only [buddyBinsGetFrom, holding.sameConfig]
    split_ifs with refused
    · exact HandsOut.nothing holding
    · cases found : splitAtFirst (fun a => decide (blkCount ≤ a.blkCount)) (ba.bins bin) with
      | some result =>
        obtain ⟨before, a, after⟩ := result
        obtain ⟨split, enough, -⟩ := splitAtFirst_some found
        exact takeBlocks_handsOut holding split (by omega) (of_decide_eq_true enough)
      | none =>
        have bigger := ih (bin + 1) ((blkCount + 1) / 2)
        generalize buddyBinsGetFrom fuel ba (bin + 1) ((blkCount + 1) / 2) = result at bigger
        obtain ⟨ba₁, ret⟩ := result
        cases ret with
        | none => exact HandsOut.nothing (by simpa using bigger.holding)
        | some ret =>
          obtain ⟨above, enough⟩ := bigger.area ret rfl
          exact downgradeArea_handsOut (by simpa using bigger.holding) (by omega) above
            (by omega) enough

theorem buddyBinsGet_handsOut (bin blkCount : Nat) (holding : Holding config total ba held) :
    HandsOut config total held bin blkCount (buddyBinsGet ba bin blkCount) :=
  buddyBinsGetFrom_handsOut _ bin blkCount holding

/-! ## Reserving a range -/

section Carve

variable {head count tail : Nat}

-- the three pieces of a carved area; the first and the last may be empty
def BuddyArea.headPiece (a : BuddyArea) (head : Nat) : BuddyArea := ⟨a.map, head, a.binNum⟩

def BuddyArea.middlePiece (a : BuddyArea) (head count : Nat) : BuddyArea :=
  ⟨a.map + head * 2 ^ a.binNum, count, a.binNum⟩

def BuddyArea.tailPiece (a : BuddyArea) (head count tail : Nat) : BuddyArea :=
  ⟨a.map + (head + count) * 2 ^ a.binNum, tail, a.binNum⟩

theorem carve_spans (parts : a.blkCount = head + count + tail) :
    (a.headPiece head).span = ⟨a.map, a.map + head * 2 ^ a.binNum⟩ ∧
    (a.middlePiece head count).span =
      ⟨a.map + head * 2 ^ a.binNum, a.map + (head + count) * 2 ^ a.binNum⟩ ∧
    (a.tailPiece head count tail).span =
      ⟨a.map + (head + count) * 2 ^ a.binNum, a.span.stop⟩ := by
  refine ⟨rfl, ?_, ?_⟩
  · simp only [BuddyArea.middlePiece, BuddyArea.span, add_mul, add_assoc]
  · simp only [BuddyArea.tailPiece, BuddyArea.span, parts, add_mul, add_assoc]

theorem carve_order (parts : a.blkCount = head + count + tail) :
    head * 2 ^ a.binNum ≤ (head + count) * 2 ^ a.binNum ∧
      (head + count) * 2 ^ a.binNum ≤ a.blkCount * 2 ^ a.binNum :=
  ⟨Nat.mul_le_mul_right _ (by omega), Nat.mul_le_mul_right _ (by omega)⟩

theorem carve_weight (parts : a.blkCount = head + count + tail) (point : Nat) :
    a.span.weight point = (a.headPiece head).span.weight point +
      (a.middlePiece head count).span.weight point +
      (a.tailPiece head count tail).span.weight point := by
  obtain ⟨spanHead, spanMiddle, spanTail⟩ := carve_spans parts
  obtain ⟨middle, last⟩ := carve_order parts
  have whole : a.span = ⟨a.map, a.map + a.blkCount * 2 ^ a.binNum⟩ := rfl
  rw [spanHead, spanMiddle, spanTail, whole,
    Span.weight_cut _ (a.map + (head + count) * 2 ^ a.binNum) _ (by omega) (by omega),
    Span.weight_cut _ (a.map + head * 2 ^ a.binNum) _ (by omega) (by omega)]

theorem BuddyConfig.Fits.piece (fits : config.Fits a) (offset count : Nat) (pos : 0 < count)
    (short : offset + count ≤ a.blkCount) :
    config.Fits ⟨a.map + offset * 2 ^ a.binNum, count, a.binNum⟩ := by
  refine ⟨fits.binLow, fits.binHigh, pos, ?_, ?_, ?_⟩
  · exact dvd_add fits.aligned (dvd_mul_left _ _)
  · exact le_trans fits.low (Nat.le_add_right _ _)
  · refine le_trans ?_ fits.high
    have : (offset + count) * 2 ^ a.binNum ≤ a.blkCount * 2 ^ a.binNum :=
      Nat.mul_le_mul_right _ short
    rw [add_mul] at this
    simp only [BuddyArea.span]
    omega

def BuddyArea.unlessEmpty (a : BuddyArea) : List BuddyArea := if a.blkCount = 0 then [] else [a]

theorem unlessEmpty_of_zero (empty : a.blkCount = 0) : a.unlessEmpty = [] := if_pos empty

theorem unlessEmpty_of_ne (some : a.blkCount ≠ 0) : a.unlessEmpty = [a] := if_neg some

theorem mem_unlessEmpty {x : BuddyArea} (mem : x ∈ a.unlessEmpty) : x = a ∧ 0 < a.blkCount := by
  unfold BuddyArea.unlessEmpty at mem
  split_ifs at mem with empty
  · simp at mem
  · exact ⟨mem_singleton.mp mem, pos_of_ne_zero empty⟩

theorem coverage_unlessEmpty (a : BuddyArea) (point : Nat) :
    coverage (spans a.unlessEmpty) point = a.span.weight point := by
  unfold BuddyArea.unlessEmpty
  split_ifs with empty
  · have nothing : a.span = ⟨a.map, a.map⟩ := by simp [BuddyArea.span, empty]
    simp only [spans_nil, coverage_nil, nothing, Span.weight]
    rw [if_neg (by omega)]
  · simp

theorem binOk_unlessEmpty (isBin : a.binNum = bin) (fits : 0 < a.blkCount → config.Fits a) :
    BinOk config bin a.unlessEmpty := by
  unfold BuddyArea.unlessEmpty
  split_ifs with empty
  · exact binOk_nil
  · exact binOk_singleton isBin (fits (pos_of_ne_zero empty))

theorem Holding.carve
    (holding : Holding config total (ba.setBin a.binNum (before ++ a :: after)) held)
    (parts : a.blkCount = head + count + tail) (pos : 0 < count)
    (sameConfig : ba'.config = ba.config) (sameAlloc : ba'.alloc = ba.alloc)
    (newBins : ba'.bins = update ba.bins a.binNum (before ++
      ((a.headPiece head).unlessEmpty ++ (a.tailPiece head count tail).unlessEmpty ++ after)))
    (pool : ba'.hkFreeCount = ba'.hkFreeList.length)
    (fewer : ba'.hkFreeCount + (a.headPiece head).unlessEmpty.length +
      (a.tailPiece head count tail).unlessEmpty.length = ba.hkFreeCount) :
    Holding config total ba' (a.middlePiece head count :: held) := by
  obtain ⟨-, fits⟩ := holding.fits_binned
  obtain ⟨spanHead, -, spanTail⟩ := carve_spans parts
  obtain ⟨ordered, inside⟩ := carve_order parts
  refine holding.recut fits.binHigh _ [a.middlePiece head count] sameConfig sameAlloc
    newBins pool (binOk_append.mpr ⟨?_, ?_, ?_⟩) ?_ ?_ ?_ ?_
  · refine binOk_unlessEmpty rfl fun some => ?_
    have piece := fits.piece 0 head some (by omega)
    rwa [Nat.zero_mul, add_zero] at piece
  · exact binOk_unlessEmpty rfl fun some => fits.piece _ tail some (by omega)
  · intro x inHead y inTail
    rw [(mem_unlessEmpty inHead).1, (mem_unlessEmpty inTail).1, spanHead, spanTail]
    simp only [Span.Before]
    omega
  · intro x mem
    rcases mem_append.mp mem with inHead | inTail
    · rw [(mem_unlessEmpty inHead).1, spanHead]
      simp only [BuddyArea.span]
      omega
    · rw [(mem_unlessEmpty inTail).1, spanTail]
      simp only [BuddyArea.span]
      omega
  · exact forall_mem_singleton.mpr (fits.piece _ _ pos (by omega))
  · intro point
    simp only [spans_append, coverage_append, coverage_unlessEmpty, spans_cons, spans_nil,
      coverage_cons, coverage_nil, carve_weight parts point]
    omega
  · simp only [length_append, length_cons, length_nil]
    omega

end Carve

theorem carveArea_handsOut {head tail : Nat} (holding : Holding config total ba held)
    (split : ba.bins bin = before ++ a :: after) (parts : a.blkCount = head + count + tail)
    (pos : 0 < count) (taken : HkAllocated ba ba' ret (a.map + head * 2 ^ bin) bin count) :
    HandsOut config total held bin count (carveArea ba' bin before a after ret) := by
  obtain ⟨rfl, fits⟩ := (holding.bins bin).fits a (by simp [split])
  have here : Holding config total (ba.setBin a.binNum (before ++ a :: after)) held := by
    rwa [← split, setBin_self]
  obtain ⟨fewer, pool⟩ := taken.pool holding.pool
  obtain ⟨spanHead, spanMiddle, spanTail⟩ := carve_spans parts
  have fitsRet : config.Fits (a.middlePiece head count) := fits.piece _ _ pos (by omega)
  have isRet : ret = a.middlePiece head count := taken.area
  have bound := holding.valid.bound
  have high := fits.high
  have stopRet : ret.stop = a.map + (head + count) * 2 ^ a.binNum := by
    rw [isRet, fitsRet.stop_eq holding.valid, spanMiddle]
  have tailBlocks : sub a.stop ret.stop / 2 ^ a.binNum = tail := by
    have whole : a.span.stop = a.map + (head + count) * 2 ^ a.binNum + tail * 2 ^ a.binNum := by
      simp only [BuddyArea.span, parts, add_mul, add_assoc]
    rw [fits.stop_eq holding.valid, stopRet, sub_of_le (by omega) (by omega), whole,
      Nat.add_sub_cancel_left, Nat.mul_div_cancel _ (Nat.two_pow_pos _)]
  have headBlocks : sub ret.map a.map / 2 ^ a.binNum = head := by
    have start : ret.map = a.map + head * 2 ^ a.binNum := by rw [taken.area]
    have below := fitsRet.span_lt
    have inside := fitsRet.high
    simp only [spanMiddle] at below inside
    rw [start, sub_of_le (by omega) (by omega), Nat.add_sub_cancel_left,
      Nat.mul_div_cancel _ (Nat.two_pow_pos _)]
  -- what is left of the area replaces it, whichever of the two pieces there are
  have closed : ∀ {ba₂ : BuddyAllocator} (rest : List BuddyArea), SameAreas ba ba₂ →
      ba₂.hkFreeCount = ba₂.hkFreeList.length →
      ba₂.hkFreeCount + rest.length + 1 = ba.hkFreeCount →
      (a.tailPiece head count tail).unlessEmpty = rest →
      HandsOut config total held a.binNum count (if head = 0 then
        (buddyHkFree (ba₂.setBin a.binNum (before ++ (rest ++ after))) (a.headPiece head), some ret)
      else (ba₂.setBin a.binNum (before ++ a.headPiece head :: (rest ++ after)), some ret)) := by
    intro ba₂ rest same pool fewer isRest
    have handed : ∀ r : BuddyArea, some ret = some r → r.binNum = a.binNum ∧ count ≤ r.blkCount := by
      intro r same
      obtain rfl := Option.some.inj same
      exact ⟨by rw [taken.area], by rw [taken.area]⟩
    split_ifs with noHead
    · refine ⟨isRet ▸ here.carve parts pos same.config same.alloc ?_ ?_ ?_, handed⟩
      · rw [unlessEmpty_of_zero (a := a.headPiece head) noHead, isRest]
        simp [buddyHkFree, same.bins]
      · simp [pool]
      · rw [unlessEmpty_of_zero (a := a.headPiece head) noHead, isRest, ← fewer]
        simp [add_right_comm]
    · refine ⟨isRet ▸ here.carve parts pos same.config same.alloc ?_ pool ?_, handed⟩
      · rw [unlessEmpty_of_ne (a := a.headPiece head) noHead, isRest]
        simp [same.bins]
      · rw [unlessEmpty_of_ne (a := a.headPiece head) noHead, isRest, ← fewer]
        simp [add_right_comm]
  unfold carveArea
  simp only [tailBlocks, headBlocks]
  by_cases noTail : tail = 0
  · rw [if_neg (by omega)]
    exact closed [] taken.same pool (by simpa using fewer) (unlessEmpty_of_zero noTail)
  · rw [if_pos noTail, stopRet]
    cases allocated : buddyHkAlloc ba' (a.map + (head + count) * 2 ^ a.binNum) a.binNum tail with
    | none =>
      refine HandsOut.nothing (holding.rehold ⟨taken.same.config, taken.same.alloc,
        taken.same.bins⟩ (by simp [pool]) holding.heldFits (fun _ => rfl) ?_)
      simp [fewer]
    | some result =>
      obtain ⟨ba₂, b⟩ := result
      have takenTail := buddyHkAlloc_some allocated
      obtain ⟨fewer₂, pool₂⟩ := takenTail.pool pool
      refine closed [b] ⟨takenTail.same.config.trans taken.same.config,
        takenTail.same.alloc.trans taken.same.alloc, takenTail.same.bins.trans taken.same.bins⟩
        pool₂ ?_ ?_
      · rw [length_singleton, fewer₂, fewer]
      · rw [takenTail.area]
        exact unlessEmpty_of_ne noTail

/-- Rounding the end of the range up to a block of the largest bin stays inside the
address space, or else no free area starts at address zero. -/
def BuddyConfig.EndFits (config : BuddyConfig) (addr size : Nat) : Prop :=
  config.memStart ≠ 0 ∨ addr + size + 2 ^ config.maxBin ≤ 2 ^ 64

theorem blockCountUp_bounds (bin : Nat) (bound : size < 2 ^ 64) :
    size ≤ blockCountUp size bin * 2 ^ bin ∧ blockCountUp size bin * 2 ^ bin < size + 2 ^ bin := by
  have rounded := Nat.div_add_mod size (2 ^ bin)
  rw [mul_comm] at rounded
  have floor : mul (size / 2 ^ bin) (2 ^ bin) = size / 2 ^ bin * 2 ^ bin :=
    mul_of_lt (by omega)
  unfold blockCountUp
  rw [floor]
  split_ifs with short
  · rw [add_mul, one_mul]
    omega
  · omega

theorem reserveTest_contains (valid : config.Valid) (fits : config.Fits a)
    (noWrap : config.memStart ≠ 0 ∨ addr + count * 2 ^ a.binNum ≤ 2 ^ 64 - 1)
    (nearTop : addr + count * 2 ^ a.binNum < 2 ^ 64 + 2 ^ a.binNum)
    (passes : reserveTest addr (mul count (2 ^ a.binNum)) a = true) :
    a.map ≤ addr ∧ addr + count * 2 ^ a.binNum ≤ a.span.stop := by
  unfold reserveTest at passes
  rw [decide_eq_true_iff, fits.stop_eq valid] at passes
  obtain ⟨low, -, lowEnd, highEnd⟩ := passes
  have wrapped : add addr (mul count (2 ^ a.binNum)) =
      (addr + count * 2 ^ a.binNum) % 2 ^ 64 := by
    simp [add, mul]
  rw [wrapped] at lowEnd highEnd
  refine ⟨low, ?_⟩
  by_cases inside : addr + count * 2 ^ a.binNum < 2 ^ 64
  · rwa [Nat.mod_eq_of_lt inside] at highEnd
  · -- the sum wrapped to less than one block, so the aligned area starts at zero
    have small : a.map < 2 ^ a.binNum := by omega
    have zero : a.map = 0 := Nat.eq_zero_of_dvd_of_lt fits.aligned small
    have := fits.low
    omega

theorem contains_parts (fits : config.Fits a) (aligned : 2 ^ a.binNum ∣ addr) (low : a.map ≤ addr)
    (high : addr + count * 2 ^ a.binNum ≤ a.span.stop) :
    ∃ head tail, addr = a.map + head * 2 ^ a.binNum ∧ a.blkCount = head + count + tail := by
  obtain ⟨p, start⟩ := fits.aligned
  obtain ⟨q, target⟩ := aligned
  have pos := Nat.two_pow_pos a.binNum
  have order : p ≤ q := by
    rw [start, target] at low
    exact le_of_mul_le_mul_left low pos
  have room : q + count ≤ p + a.blkCount := by
    simp only [BuddyArea.span, start, target] at high
    refine le_of_mul_le_mul_left ?_ pos
    rw [mul_add, mul_add, mul_comm _ count, mul_comm _ a.blkCount]
    exact high
  refine ⟨q - p, p + a.blkCount - (q + count), ?_, by omega⟩
  rw [start, target, mul_comm (q - p), ← mul_add, Nat.add_sub_cancel' order]

theorem carveArea_snd {r : BuddyArea}
    (carved : (carveArea ba bin before a after ret).2 = some r) : r = ret := by
  unfold carveArea at carved
  cases allocated : buddyHkAlloc ba ret.stop bin (sub a.stop ret.stop / 2 ^ bin) with
  | none | some =>
    simp only [allocated] at carved
    split_ifs at carved <;> simp_all

theorem buddyBinsReserve_handsOut (bin : Nat) (holding : Holding config total ba held)
    (noWrap : addr + size < 2 ^ 64) (endFits : config.EndFits addr size) :
    HandsOut config total held bin 0 (buddyBinsReserve ba bin addr size) ∧
    ∀ ret, (buddyBinsReserve ba bin addr size).2 = some ret →
      ret.map ≤ addr ∧ addr + size ≤ ret.span.stop := by
  unfold buddyBinsReserve
  rw [holding.sameConfig]
  split_ifs with refused
  · exact ⟨HandsOut.nothing holding, by simp⟩
  have below := alignDown_le addr bin
  have aligned := dvd_alignDown addr bin
  have grown : add size (addr - alignDown addr bin) =
      size + (addr - alignDown addr bin) := add_of_lt (by omega)
  obtain ⟨enough, tight⟩ := blockCountUp_bounds bin
    (show size + (addr - alignDown addr bin) < 2 ^ 64 by omega)
  simp only [grown]
  generalize blockCountUp (size + (addr - alignDown addr bin)) bin = count at enough tight ⊢
  generalize alignDown addr bin = start at below aligned enough tight ⊢
  cases found : splitAtFirst (reserveTest start (mul count (2 ^ bin))) (ba.bins bin) with
  | none => exact ⟨HandsOut.nothing holding, by simp⟩
  | some result =>
    obtain ⟨before, a, after⟩ := result
    obtain ⟨split, passes, -⟩ := splitAtFirst_some found
    cases allocated : buddyHkAlloc ba start bin count with
    | none => simpa [allocated] using HandsOut.nothing holding
    | some result =>
      obtain ⟨ba₁, ret⟩ := result
      have taken := buddyHkAlloc_some allocated
      obtain ⟨rfl, fits⟩ := (holding.bins bin).fits a (by simp [split])
      have blockLe : 2 ^ a.binNum ≤ 2 ^ config.maxBin :=
        Nat.pow_le_pow_right (by omega) fits.binHigh
      have inTop : config.memStart ≠ 0 ∨ start + count * 2 ^ a.binNum ≤ 2 ^ 64 - 1 := by
        unfold BuddyConfig.EndFits at endFits
        omega
      obtain ⟨low, high⟩ := reserveTest_contains holding.valid fits inTop (by omega) passes
      obtain ⟨head, tail, isStart, parts⟩ := contains_parts fits aligned low high
      have pos : 0 < count := by
        rcases eq_zero_or_pos count with zero | pos
        · rw [zero, Nat.zero_mul] at enough
          omega
        · exact pos
      rw [isStart] at taken
      have carved := carveArea_handsOut holding split parts pos taken
      refine ⟨⟨carved.holding, fun r out => ⟨(carved.area r out).1, Nat.zero_le _⟩⟩, ?_⟩
      intro r out
      rw [carveArea_snd out, taken.area, ← isStart]
      simp only [BuddyArea.span]
      omega

/-! ## The alloc tree -/

theorem buddyHkAlloc_alloc {map blkCount : Nat}
    (allocated : buddyHkAlloc ba map bin blkCount = some (ba', a)) : ba'.alloc = ba.alloc :=
  (buddyHkAlloc_some allocated).same.alloc

theorem promoteBlocks_alloc (before : List BuddyArea) (merge : BuddyArea)
    (after : List BuddyArea) : (promoteBlocks ba bin before merge after).1.alloc = ba.alloc := by
  unfold promoteBlocks
  split_ifs with pairs
  · split
    · rfl
    · next allocated =>
      have same := buddyHkAlloc_alloc allocated
      dsimp only
      split_ifs
      · exact same
      · exact same
  · rfl

theorem buddyBinsPutArea_alloc (ba : BuddyAllocator) (a : BuddyArea) :
    (buddyBinsPutArea ba a).1.alloc = ba.alloc := by
  have pooled := (foldl_buddyHkFree (putScan a [] (ba.bins a.binNum)).freed ba).1.alloc
  unfold buddyBinsPutArea
  split_ifs with refused
  · rfl
  · dsimp only
    split_ifs
    · exact pooled
    · split
      · exact pooled
      · next split =>
        rw [promoteBlocks_alloc]
        unfold splitOddBlock at split
        split_ifs at split
        · obtain ⟨⟨ba₁, b⟩, allocated, same⟩ := Option.map_eq_some_iff.mp split
          cases same
          exact (buddyHkAlloc_alloc allocated).trans pooled
        · cases split
          exact pooled

theorem buddyBinsPutLoop_alloc (fuel : Nat) (ba : BuddyAllocator) (residue : Option BuddyArea) :
    (buddyBinsPutLoop fuel ba residue).alloc = ba.alloc := by
  induction fuel generalizing ba residue with
  | zero => rfl
  | succ fuel ih =>
    cases residue with
    | none => rfl
    | some residue => exact (ih _ _).trans (buddyBinsPutArea_alloc ba residue)

theorem buddyBinsPut_alloc (ba : BuddyAllocator) (a : BuddyArea) :
    (buddyBinsPut ba a).alloc = ba.alloc :=
  buddyBinsPutLoop_alloc _ ba (some a)

theorem carveArea_alloc (before : List BuddyArea) (a : BuddyArea) (after : List BuddyArea)
    (ret : BuddyArea) : (carveArea ba bin before a after ret).1.alloc = ba.alloc := by
  unfold carveArea
  dsimp only
  split_ifs
  all_goals try rfl
  all_goals
    split
    · rfl
    · next allocated =>
      have same := buddyHkAlloc_alloc allocated
      exact same

theorem buddyBinsReserve_alloc (ba : BuddyAllocator) (bin addr size : Nat) :
    (buddyBinsReserve ba bin addr size).1.alloc = ba.alloc := by
  unfold buddyBinsReserve
  split_ifs with refused
  · rfl
  · dsimp only
    split
    · rfl
    · split
      · rfl
      · next allocated => exact (carveArea_alloc _ _ _ _).trans (buddyHkAlloc_alloc allocated)

theorem reserveFrom_alloc (addr size : Nat) (bins : List Nat) (ba : BuddyAllocator) :
    (reserveFrom addr size bins ba).1.alloc = ba.alloc := by
  induction bins generalizing ba with
  | nil => rfl
  | cons bin bins ih =>
    have here := buddyBinsReserve_alloc ba bin addr size
    unfold reserveFrom
    split
    · next result =>
      rw [result] at here
      exact here
    · next result =>
      rw [result] at here
      exact (ih _).trans here

theorem trimArea_alloc (ba : BuddyAllocator) (a : BuddyArea) (blkCount : Nat) :
    (trimArea ba a blkCount).1.alloc = ba.alloc := by
  unfold trimArea
  split_ifs
  · split
    · rfl
    · next allocated => exact (buddyBinsPut_alloc _ _).trans (buddyHkAlloc_alloc allocated)
  · rfl

theorem trimFront_alloc (ba : BuddyAllocator) (a : BuddyArea) (addr : Nat) :
    (trimFront ba a addr).1.alloc = ba.alloc := by
  unfold trimFront
  dsimp only
  split_ifs
  · split
    · rfl
    · next allocated => exact (buddyBinsPut_alloc _ _).trans (buddyHkAlloc_alloc allocated)
  · rfl

theorem trimBack_alloc (ba : BuddyAllocator) (a : BuddyArea) (addr size : Nat) :
    (trimBack ba a addr size).1.alloc = ba.alloc := by
  unfold trimBack
  dsimp only
  generalize (if add addr size % 2 ^ a.binNum ≠ 0 then _ else size) = tsz
  split_ifs
  · split
    · rfl
    · next allocated => exact (buddyBinsPut_alloc _ _).trans (buddyHkAlloc_alloc allocated)
  · rfl

end Xvisor.Buddy
