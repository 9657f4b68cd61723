import Xvisor.Buddy.Bins

/-!
# The public operations of the buddy allocator

Allocation ends by adding the held area to the alloc tree, and that area never
overlaps one of the tree, so the `BUG_ON` of `__buddy_alloc_add` is not reached.
-/

namespace Xvisor.Buddy

open List Lib Word Rebalance Option

variable {config : BuddyConfig} {total : Nat → Nat} {ba ba' : BuddyAllocator}
  {held : List BuddyArea} {bin : Nat} {a : BuddyArea} {rb : Rebalance BuddyArea}

/-! ## The alloc tree -/

theorem Holding.retree {held' : List BuddyArea} (holding : Holding config total ba held)
    (sameConfig : ba'.config = ba.config) (sameBins : ba'.bins = ba.bins)
    (sameCount : ba'.hkFreeCount = ba.hkFreeCount) (sameList : ba'.hkFreeList = ba.hkFreeList)
    (allocFits : ∀ b ∈ ba'.alloc.toList, config.Fits b)
    (allocSorted : ba'.alloc.toList.Pairwise fun a b => a.span.Before b.span)
    (heldFits : ∀ b ∈ held', config.Fits b)
    (cover : ∀ point, coverage (spans ba'.alloc.toList) point + coverage (spans held') point =
      coverage (spans ba.alloc.toList) point + coverage (spans held) point)
    (count : ba'.alloc.toList.length + held'.length = ba.alloc.toList.length + held.length) :
    Holding config total ba' held' where
  sameConfig := sameConfig.trans holding.sameConfig
  valid := holding.valid
  single := holding.single
  bins := by simpa only [sameBins] using holding.bins
  alloc := allocFits
  allocSorted := allocSorted
  heldFits := heldFits
  covered := by
    intro point
    have before := holding.covered point
    have balance := cover point
    simp only [sameBins]
    omega
  pool := by rw [sameCount, sameList, holding.pool]
  counted := by
    have before := holding.counted
    simp only [sameBins, sameCount]
    omega

theorem addDirection_cases {b : BuddyArea} (valid : config.Valid) (fitsA : config.Fits a)
    (fitsB : config.Fits b) (apart : a.span.Apart b.span) :
    (addDirection a b = .lt ∧ a.span.Before b.span) ∨
      (addDirection a b = .gt ∧ b.span.Before a.span) := by
  have nonemptyA := fitsA.span_lt
  have nonemptyB := fitsB.span_lt
  have ordered := apart.before_or nonemptyA nonemptyB
  unfold addDirection
  rw [fitsA.stop_eq valid, fitsB.stop_eq valid]
  simp only [Span.Before, BuddyArea.span_first] at nonemptyA nonemptyB ordered ⊢
  rcases ordered with first | second
  · exact Or.inl ⟨if_pos first, first⟩
  · refine Or.inr ⟨?_, second⟩
    rw [if_neg (by omega), if_pos second]

theorem buddyAllocAdd_holding (rb : Rebalance BuddyArea)
    (holding : Holding config total ba (a :: held)) :
    ∃ ba', buddyAllocAdd rb ba a = some ba' ∧ Holding config total ba' held := by
  have fits := holding.heldFits a (by simp)
  have turns : ∀ b ∈ ba.alloc.toList, (addDirection a b = .lt ∧ a.span.Before b.span) ∨
        (addDirection a b = .gt ∧ b.span.Before a.span) := fun b inTree =>
    addDirection_cases holding.valid fits (holding.alloc b inTree)
      (holding.apart_alloc (by simp) inTree)
  have directed : SearchTree.Directed (addDirection a) ba.alloc.toList := by
    refine holding.allocSorted.imp_of_mem ?_
    intro x y inX inY ordered
    have nonemptyX := (holding.alloc x inX).span_lt
    have nonemptyY := (holding.alloc y inY).span_lt
    have nonemptyA := fits.span_lt
    rcases turns x inX with ⟨turnX, sideX⟩ | ⟨turnX, sideX⟩ <;>
      rcases turns y inY with ⟨turnY, sideY⟩ | ⟨turnY, sideY⟩ <;>
      simp only [turnX, turnY, Span.Before] at * <;> simp
    omega
  have passes : ∀ b ∈ ba.alloc.toList, addDirection a b ≠ .eq := by
    intro b inTree
    rcases turns b inTree with ⟨turn, -⟩ | ⟨turn, -⟩ <;> simp [turn]
  obtain ⟨tree, linked⟩ := SearchTree.link_isSome a passes
  obtain ⟨before, after, split, grown, sides⟩ := SearchTree.link_some linked
  obtain ⟨goRight, goLeft⟩ := sides directed
  refine ⟨_, by simp only [buddyAllocAdd, linked, map_some]; rfl, ?_⟩
  have fitsTree := holding.alloc
  have sorted := holding.allocSorted
  rw [split] at fitsTree sorted
  refine holding.retree rfl rfl rfl rfl ?_ ?_ (fun b isHeld => holding.heldFits b (by simp [isHeld]))
    ?_ ?_
  · intro b mem
    simp only [toList_insertColor, grown, mem_append, mem_cons] at mem
    rcases mem with inBefore | rfl | inAfter
    · exact fitsTree b (by simp [inBefore])
    · exact fits
    · exact fitsTree b (by simp [inAfter])
  · simp only [toList_insertColor, grown, pairwise_append, pairwise_cons,
      mem_cons] at sorted ⊢
    refine ⟨sorted.1, ⟨?_, sorted.2.1⟩, ?_⟩
    · intro b inAfter
      rcases turns b (by simp [split, inAfter]) with ⟨-, side⟩ | ⟨turn, -⟩
      · exact side
      · simp [goLeft b inAfter] at turn
    · rintro b inBefore c (rfl | inAfter)
      · rcases turns b (by simp [split, inBefore]) with ⟨turn, -⟩ | ⟨-, side⟩
        · simp [goRight b inBefore] at turn
        · exact side
      · exact sorted.2.2 b inBefore c inAfter
  · intro point
    simp only [toList_insertColor, grown, split, spans_append, spans_cons,
      coverage_append, coverage_cons]
    omega
  · simp only [toList_insertColor, grown, split, length_append, length_cons]
    omega

theorem buddyAllocDel_holding (holding : Holding config total ba held)
    (allocated : a ∈ ba.alloc.toList) :
    Holding config total (buddyAllocDel rb ba a) (a :: held) := by
  have perm := perm_cons_erase allocated
  refine holding.retree rfl rfl rfl rfl ?_ ?_ ?_ ?_ ?_
  · intro b mem
    simp only [buddyAllocDel, toList_erase] at mem
    exact holding.alloc b (mem_of_mem_erase mem)
  · simp only [buddyAllocDel, toList_erase]
    exact holding.allocSorted.sublist erase_sublist
  · exact forall_mem_cons.mpr ⟨holding.alloc _ allocated, holding.heldFits⟩
  · intro point
    have moved := coverage_perm (perm.map BuddyArea.span) point
    simp only [spans, buddyAllocDel, toList_erase, map_cons, coverage_cons]
      at moved ⊢
    omega
  · have length := perm.length_eq
    simp only [buddyAllocDel, toList_erase, length_cons] at length ⊢
    omega

/-! ## Allocation -/

theorem buddyEstimateBin_bounds (valid : config.Valid) (size : Nat) :
    config.minBin ≤ buddyEstimateBin config size ∧
      buddyEstimateBin config size ≤ config.maxBin := by
  have order := valid.order
  unfold buddyEstimateBin
  split_ifs with small
  · exact ⟨le_rfl, order⟩
  · cases found : (List.range' config.minBin (config.maxBin - config.minBin)).find?
        fun bin => decide (size ≤ 2 ^ bin) with
    | none => exact ⟨order, le_rfl⟩
    | some bin =>
      have inside := mem_range'_1.mp (mem_of_find?_eq_some found)
      simp only [getD_some]
      omega

variable {size blkCount addr : Nat}

theorem blockCountUp_pos (bin : Nat) (pos : 0 < size) (bound : size < 2 ^ 64) :
    0 < blockCountUp size bin := by
  have enough := (blockCountUp_bounds bin bound).1
  rcases eq_zero_or_pos (blockCountUp size bin) with zero | some
  · rw [zero, Nat.zero_mul] at enough
    omega
  · exact some

/-- It starts where the area started and still covers what it had to cover. -/
structure Trimmed (config : BuddyConfig) (total : Nat → Nat) (held : List BuddyArea)
    (ba : BuddyAllocator) (a : BuddyArea) (size : Nat) (ba' : BuddyAllocator) (b : BuddyArea) :
    Prop where
  holding : Holding config total ba' (b :: held)
  sameTree : ba'.alloc = ba.alloc
  map : b.map = a.map
  covers : a.map + size ≤ a.span.stop → b.map + size ≤ b.span.stop

theorem trimArea_trimmed (holding : Holding config total ba (a :: held)) (pos : 0 < blkCount)
    (enough : size ≤ blkCount * 2 ^ a.binNum) :
    Trimmed config total held ba a size (trimArea ba a blkCount).1 (trimArea ba a blkCount).2.1 ∧
      (trimArea ba a blkCount).2.1.binNum = a.binNum := by
  have sameTree := trimArea_alloc ba a blkCount
  have unchanged : Trimmed config total held ba a size ba a :=
    ⟨holding, rfl, rfl, fun covered => covered⟩
  unfold trimArea at sameTree ⊢
  split_ifs at sameTree ⊢ with short
  · cases allocated : buddyHkAlloc ba (add a.map (mul blkCount (2 ^ a.binNum)))
        a.binNum (a.blkCount - blkCount) with
    | none => exact ⟨unchanged, rfl⟩
    | some result =>
      rw [allocated] at sameTree
      refine ⟨⟨holding.putBack pos short allocated, sameTree, rfl, ?_⟩, rfl⟩
      intro _
      simp only [BuddyArea.span]
      omega
  · exact ⟨unchanged, rfl⟩

theorem reduceWastage_trimmed (holding : Holding config total ba (a :: held)) (pos : 0 < size)
    (bound : size < 2 ^ 64) :
    Trimmed config total held ba a size (reduceWastage ba a size).1
      (reduceWastage ba a size).2 := by
  obtain ⟨lowered, sameSpan⟩ := holding.lowerTo le_rfl (holding.heldFits a (by simp)).binLow
  unfold reduceWastage
  rw [holding.sameConfig]
  have trimmed := (trimArea_trimmed lowered (blockCountUp_pos _ pos bound)
    (blockCountUp_bounds _ bound).1).1
  refine ⟨trimmed.holding, trimmed.sameTree, trimmed.map, ?_⟩
  intro covered
  apply trimmed.covers
  rw [sameSpan]
  exact covered

def Keeps (config : BuddyConfig) (total : Nat → Nat) {α : Type}
    (result : Option (BuddyAllocator × α)) : Prop :=
  ∃ ba value, result = some (ba, value) ∧ Holding config total ba []

theorem finishAlloc_keeps (holding : Holding config total ba [a]) :
    Keeps config total (finishAlloc rb ba a) := by
  obtain ⟨ba', added, kept⟩ := buddyAllocAdd_holding rb holding
  exact ⟨ba', (.ok, a.map), by simp only [finishAlloc, added, map_some], kept⟩

/-- How an allocation ends: it fails and holds nothing, or it adds an area that covers the size
and whose address is aligned as given. -/
inductive AllocEnds (config : BuddyConfig) (total : Nat → Nat) (rb : Rebalance BuddyArea)
    (size : Nat) (Aligned : Nat → Prop) : Option (BuddyAllocator × Status × Nat) → Prop
  | fails {ba : BuddyAllocator} {status : Status} (failed : status ≠ .ok)
    (holding : Holding config total ba []) :
    AllocEnds config total rb size Aligned (some (ba, status, 0))
  | adds {ba : BuddyAllocator} {a : BuddyArea} (holding : Holding config total ba [a])
    (covers : a.map + size ≤ a.span.stop) (aligned : Aligned a.map) :
    AllocEnds config total rb size Aligned (finishAlloc rb ba a)

variable {Aligned : Nat → Prop}

theorem AllocEnds.keeps {result : Option (BuddyAllocator × Status × Nat)}
    (ends : AllocEnds config total rb size Aligned result) : Keeps config total result := by
  cases ends with
  | fails failed holding => exact ⟨_, _, rfl, holding⟩
  | adds holding covers aligned => exact finishAlloc_keeps holding

theorem buddyBinsGet_ends (bin : Nat) (holding : Holding config total ba [])
    (bound : size < 2 ^ 64)
    {finish : BuddyAllocator → BuddyArea → Option (BuddyAllocator × Status × Nat)}
    (ends : ∀ {ba a}, Holding config total ba [a] → a.binNum = bin → a.map + size ≤ a.span.stop →
      2 ^ bin ∣ a.map → AllocEnds config total rb size Aligned (finish ba a)) :
    AllocEnds config total rb size Aligned
      (match buddyBinsGet ba bin (blockCountUp size bin) with
      | (ba, none) => some (ba, .noMemory, 0)
      | (ba, some a) => finish ba a) := by
  have got := buddyBinsGet_handsOut bin (blockCountUp size bin) holding
  generalize buddyBinsGet ba bin (blockCountUp size bin) = result at got ⊢
  obtain ⟨ba₁, area⟩ := result
  cases area with
  | none => exact .fails (by simp) (by simpa using got.holding)
  | some a =>
    obtain ⟨isBin, enough⟩ := got.area a rfl
    have fits := got.holding.heldFits a (by simp)
    have rounded := (blockCountUp_bounds bin bound).1
    have blocks := Nat.mul_le_mul_right (2 ^ bin) enough
    refine ends got.holding isBin ?_ (isBin ▸ fits.aligned)
    simp only [BuddyArea.span, isBin]
    omega

theorem reduceWastage_ends (holding : Holding config total ba [a])
    (pos : 0 < size) (bound : size < 2 ^ 64) (covers : a.map + size ≤ a.span.stop)
    (aligned : Aligned a.map) :
    AllocEnds config total rb size Aligned
      (finishAlloc rb (reduceWastage ba a size).1 (reduceWastage ba a size).2) := by
  have reduced := reduceWastage_trimmed holding pos bound
  exact .adds reduced.holding (reduced.covers covers) (reduced.map ▸ aligned)

theorem buddyMemAlloc_ends (rb : Rebalance BuddyArea) (holding : Holding config total ba [])
    (bound : size < 2 ^ 64) :
    AllocEnds config total rb size (2 ^ buddyEstimateBin config size ∣ ·)
      (buddyMemAlloc rb ba size) := by
  unfold buddyMemAlloc
  rw [holding.sameConfig]
  split_ifs with zero
  · exact .fails (by simp) holding
  · refine buddyBinsGet_ends _ holding bound fun held _ covers aligned => ?_
    exact reduceWastage_ends held (by omega) bound covers aligned

theorem buddyMemAlignedAlloc_ends (rb : Rebalance BuddyArea) (order : Nat)
    (holding : Holding config total ba []) (bound : size < 2 ^ 64) :
    AllocEnds config total rb size
      (fun addr => 2 ^ buddyEstimateBin config size ∣ addr ∧ 2 ^ order ∣ addr)
      (buddyMemAlignedAlloc rb ba order size) := by
  unfold buddyMemAlignedAlloc
  rw [holding.sameConfig]
  split_ifs with refused
  · exact .fails (by simp) holding
  obtain ⟨binLow, -⟩ := buddyEstimateBin_bounds holding.valid size
  generalize buddyEstimateBin config size = bin at binLow ⊢
  simp only
  split_ifs with small
  · refine buddyBinsGet_ends _ holding bound fun held _ covers aligned => ?_
    exact reduceWastage_ends held (by omega) bound covers
      ⟨aligned, (pow_dvd_pow 2 small).trans aligned⟩
  · refine buddyBinsGet_ends _ holding bound fun {ba₁ a} holdingA isOrder covers aligned => ?_
    obtain ⟨lowered, sameSpan⟩ := holdingA.lowerTo binLow (by omega : bin ≤ a.binNum)
    rw [BuddyArea.lowerTo, isOrder] at lowered sameSpan
    have trimmed := (trimArea_trimmed lowered (blockCountUp_pos bin (by omega) bound)
      (blockCountUp_bounds bin bound).1).1
    have start := trimmed.map
    have covered := trimmed.covers (by rw [sameSpan]; exact covers)
    have held := trimmed.holding
    generalize trimArea ba₁ _ _ = result at start covered held ⊢
    obtain ⟨ba₂, b, enough⟩ := result
    rw [← show b.map = a.map from start] at aligned
    have both := And.intro ((pow_dvd_pow 2 (Nat.le_of_not_le small)).trans aligned) aligned
    cases enough with
    | false => exact .adds held covered both
    | true => exact reduceWastage_ends held (by omega) bound covered both

theorem buddyMemFree_holding (holding : Holding config total ba []) :
    Holding config total (buddyMemFree rb ba addr).1 [] := by
  unfold buddyMemFree
  split_ifs with refused
  · exact holding
  · cases found : buddyAllocFind ba addr with
    | none => exact holding
    | some a =>
      exact buddyBinsPut_holding
        (buddyAllocDel_holding holding (SearchTree.search_some found).1)

/-! ## Reservation -/

theorem reserveFrom_holding (bins : List Nat) (holding : Holding config total ba held)
    (noWrap : addr + size < 2 ^ 64) (endFits : config.EndFits addr size) :
    Holding config total (reserveFrom addr size bins ba).1
      ((reserveFrom addr size bins ba).2.toList ++ held) ∧
    ∀ ret, (reserveFrom addr size bins ba).2 = some ret →
      ret.map ≤ addr ∧ addr + size ≤ ret.span.stop := by
  induction bins generalizing ba with
  | nil => exact ⟨by simpa [reserveFrom] using holding, by simp [reserveFrom]⟩
  | cons bin bins ih =>
    obtain ⟨reserved, contains⟩ := buddyBinsReserve_handsOut bin holding noWrap endFits
    unfold reserveFrom
    generalize buddyBinsReserve ba bin addr size = result at reserved contains ⊢
    obtain ⟨ba₁, area⟩ := result
    cases area with
    | none => exact ih (by simpa using reserved.holding)
    | some ret => exact ⟨reserved.holding, contains⟩

theorem buddyHkAlloc_none {map : Nat} :
    buddyHkAlloc ba map bin blkCount = none ↔ ba.hkFreeList = [] := by
  unfold buddyHkAlloc
  cases ba.hkFreeList <;> simp

theorem frontBlocks_lt (low : a.map ≤ addr) (high : addr < a.span.stop) :
    (addr - a.map) / 2 ^ a.binNum < a.blkCount := by
  refine Nat.div_lt_of_lt_mul ?_
  simp only [BuddyArea.span] at high
  rw [mul_comm]
  omega

theorem BuddyConfig.Fits.behind (fits : config.Fits a) {stop : Nat}
    (aligned : 2 ^ a.binNum ∣ stop) (low : a.map < stop) (high : stop ≤ a.span.stop) :
    ∃ count, 0 < count ∧ count ≤ a.blkCount ∧ stop = a.map + count * 2 ^ a.binNum ∧
      (a.span.stop - stop) / 2 ^ a.binNum = a.blkCount - count := by
  obtain ⟨p, start⟩ := fits.aligned
  obtain ⟨q, isEnd⟩ := aligned
  have block := Nat.two_pow_pos a.binNum
  have wholeStop : a.span.stop = 2 ^ a.binNum * (p + a.blkCount) := by
    simp only [BuddyArea.span]
    rw [mul_add, ← start, mul_comm a.blkCount]
  have below : p < q := Nat.lt_of_mul_lt_mul_left (a := 2 ^ a.binNum) (by omega)
  have above : q ≤ p + a.blkCount := le_of_mul_le_mul_left (by omega) block
  refine ⟨q - p, by omega, by omega, ?_, ?_⟩
  · rw [isEnd, start, mul_comm (q - p), ← mul_add, Nat.add_sub_cancel' below.le]
  · rw [wholeStop, isEnd, ← Nat.mul_sub, Nat.mul_div_cancel_left _ block]
    omega

/-- The blocks in front of the reserved range go back to the bins, unless the pool is empty. -/
structure TrimmedFront (config : BuddyConfig) (total : Nat → Nat) (held : List BuddyArea)
    (ba : BuddyAllocator) (a : BuddyArea) (addr : Nat)
    (result : BuddyAllocator × BuddyArea × Bool) : Prop where
  holding : Holding config total result.1 (result.2.1 :: held)
  binNum : result.2.1.binNum = a.binNum
  low : result.2.1.map ≤ addr
  stop : result.2.1.span.stop = a.span.stop
  tight : result.2.2 = true → addr < result.2.1.map + 2 ^ a.binNum
  short : result.2.2 = false → ba.hkFreeList = []

theorem trimFront_trimmed (holding : Holding config total ba (a :: held)) (low : a.map ≤ addr)
    (high : addr < a.span.stop) :
    TrimmedFront config total held ba a addr (trimFront ba a addr) := by
  have fits := holding.heldFits a (by simp)
  have bound := holding.valid.bound
  have top := fits.high
  have offset : sub addr a.map = addr - a.map := sub_of_le low (by omega)
  have rounded := Nat.div_mul_le_self (addr - a.map) (2 ^ a.binNum)
  have remainder := Nat.lt_div_mul_add (Nat.two_pow_pos a.binNum) (a := addr - a.map)
  have short := frontBlocks_lt low high
  unfold trimFront
  simp only [offset]
  split_ifs with some
  · cases allocated : buddyHkAlloc ba a.map a.binNum ((addr - a.map) / 2 ^ a.binNum) with
    | none => exact ⟨holding, rfl, low, rfl, by simp, fun _ => buddyHkAlloc_none.mp allocated⟩
    | some result =>
      obtain ⟨ba₁, b⟩ := result
      have pos := pos_of_ne_zero some
      have front := holding.putFront pos short allocated
      have taken := buddyHkAlloc_some allocated
      have start : add a.map b.size =
          a.map + (addr - a.map) / 2 ^ a.binNum * 2 ^ a.binNum := by
        rw [taken.area]
        exact fits.cut_address holding.valid _ short.le
      have count : b.blkCount = (addr - a.map) / 2 ^ a.binNum := by rw [taken.area]
      simp only [start, count]
      exact ⟨front, rfl, by dsimp only; omega, BuddyConfig.cut_stop a short.le,
        fun _ => by dsimp only; omega, by simp⟩
  · have none := Decidable.not_not.mp some
    rw [none, Nat.zero_mul] at remainder
    exact ⟨holding, rfl, low, rfl, fun _ => by dsimp only; omega, by simp⟩

theorem trimBack_end (bin : Nat) (noWrap : addr + size < 2 ^ 64) :
    ∃ pad < 2 ^ bin, 2 ^ bin ∣ addr + (size + pad) ∧ (if (addr + size) % 2 ^ bin ≠ 0 then
      add size (2 ^ bin - (addr + size) % 2 ^ bin) else size) = add size pad := by
  have rounded := Nat.div_add_mod (addr + size) (2 ^ bin)
  have remainder := Nat.mod_lt (addr + size) (Nat.two_pow_pos bin)
  split_ifs with excess
  · refine ⟨_, by omega, ⟨(addr + size) / 2 ^ bin + 1, ?_⟩, rfl⟩
    rw [mul_add, mul_one]
    omega
  · refine ⟨0, by omega, ⟨(addr + size) / 2 ^ bin, by omega⟩, ?_⟩
    exact (add_of_lt (show size + 0 < _ by omega)).symm

structure TrimmedBack (config : BuddyConfig) (total : Nat → Nat) (held : List BuddyArea)
    (ba : BuddyAllocator) (a : BuddyArea) (addr size : Nat)
    (result : BuddyAllocator × BuddyArea) : Prop where
  holding : Holding config total result.1 (result.2 :: held)
  map : result.2.map = a.map
  high : addr + size ≤ result.2.span.stop
  tight : ba.hkFreeList ≠ [] → result.2.span.stop < addr + size + 2 ^ a.binNum

theorem trimBack_trimmed (holding : Holding config total ba (a :: held)) (pos : 0 < size)
    (low : a.map ≤ addr) (high : addr + size ≤ a.span.stop) :
    TrimmedBack config total held ba a addr size (trimBack ba a addr size) := by
  have fits := holding.heldFits a (by simp)
  have bound := holding.valid.bound
  have top := fits.high
  obtain ⟨pad, isPad, aligned, grown⟩ := trimBack_end a.binNum (show addr + size < _ by omega)
  have endLe := Nat.le_of_lt_add_of_dvd (show _ < a.span.stop + _ by omega) aligned
    (dvd_add fits.aligned (dvd_mul_left _ _))
  -- the area keeps its first `count` blocks
  obtain ⟨count, some, atMost, address, back⟩ := fits.behind aligned (by omega) endLe
  have cut := fits.cut_address holding.valid _ atMost
  have sum : add addr size = addr + size := add_of_lt (by omega)
  unfold trimBack
  simp only [sum, grown]
  have theEnd : add addr (add size pad) = add a.map (mul count (2 ^ a.binNum)) := by
    rw [add_of_lt (show size + pad < _ by omega), add_of_lt (by omega), address, cut]
  have rest : sub a.stop (add a.map (mul count (2 ^ a.binNum))) /
      2 ^ a.binNum = a.blkCount - count := by
    rw [cut, ← address, fits.stop_eq holding.valid, sub_of_le endLe (by omega), back]
  rw [theEnd, rest]
  split_ifs with more
  · cases allocated : buddyHkAlloc ba (add a.map (mul count (2 ^ a.binNum)))
        a.binNum (a.blkCount - count) with
    | none =>
      exact ⟨holding, rfl, high, fun enough => absurd (buddyHkAlloc_none.mp allocated) enough⟩
    | some result =>
      obtain ⟨ba₁, b⟩ := result
      have kept : a.blkCount - b.blkCount = count := by
        rw [(buddyHkAlloc_some allocated).area]
        simp only
        omega
      simp only [kept]
      refine ⟨holding.putBack some (by omega) allocated, rfl, ?_, fun _ => ?_⟩
      · simp only [BuddyArea.span, ← address]
        omega
      · simp only [BuddyArea.span, ← address]
        omega
  · have whole : count = a.blkCount := by omega
    rw [whole] at address
    refine ⟨holding, rfl, high, fun _ => ?_⟩
    simp only [BuddyArea.span, ← address]
    omega

/-- The house-keeping pool is empty when a residue in front of the range or behind it is to be
split off. -/
def reserveRunsOut (ba : BuddyAllocator) (addr size : Nat) : Prop :=
  match reserveFrom addr size
      (List.range' ba.config.minBin (ba.config.maxBin + 1 - ba.config.minBin)) ba with
  | (_, none) => False
  | (ba, some a) =>
    ba.hkFreeList = [] ∨ (trimFront ba (a.lowerTo ba.config.minBin) addr).1.hkFreeList = []

/-- How a reservation ends: it fails and holds nothing, or it adds an area that contains the
range and, with enough house-keeping objects, no further block. -/
inductive ReserveEnds (config : BuddyConfig) (total : Nat → Nat) (rb : Rebalance BuddyArea)
    (ba : BuddyAllocator) (addr size : Nat) : Option (BuddyAllocator × Status) → Prop
  | fails {ba' : BuddyAllocator} {status : Status} (failed : status ≠ .ok)
    (holding : Holding config total ba' []) :
    ReserveEnds config total rb ba addr size (some (ba', status))
  | adds {ba' : BuddyAllocator} {a : BuddyArea} (holding : Holding config total ba' [a])
    (sameTree : ba'.alloc = ba.alloc) (low : a.map ≤ addr) (high : addr + size ≤ a.span.stop)
    (tight : ¬ reserveRunsOut ba addr size →
      addr < a.map + 2 ^ config.minBin ∧ a.span.stop < addr + size + 2 ^ config.minBin) :
    ReserveEnds config total rb ba addr size
      ((buddyAllocAdd rb ba' a).map fun ba => (ba, .ok))

theorem ReserveEnds.keeps {result : Option (BuddyAllocator × Status)}
    (ends : ReserveEnds config total rb ba addr size result) : Keeps config total result := by
  cases ends with
  | fails failed holding => exact ⟨_, _, rfl, holding⟩
  | adds holding sameTree low high tight =>
    obtain ⟨ba', added, kept⟩ := buddyAllocAdd_holding rb holding
    exact ⟨ba', .ok, by simp only [added, map_some], kept⟩

theorem buddyMemReserve_ends (rb : Rebalance BuddyArea) (holding : Holding config total ba [])
    (noWrap : addr + size < 2 ^ 64) (endFits : config.EndFits addr size) :
    ReserveEnds config total rb ba addr size (buddyMemReserve rb ba addr size) := by
  unfold buddyMemReserve
  split_ifs with refused
  · exact .fails (by simp) holding
  set bins := List.range' ba.config.minBin (ba.config.maxBin + 1 - ba.config.minBin) with isBins
  obtain ⟨reserved, contains⟩ := reserveFrom_holding bins holding noWrap endFits
  have reservedTree := reserveFrom_alloc addr size bins ba
  generalize found : reserveFrom addr size bins ba = result at reserved contains reservedTree ⊢
  obtain ⟨ba₁, area⟩ := result
  cases area with
  | none => exact .fails (by simp) (by simpa using reserved)
  | some a =>
    have holdingA : Holding config total ba₁ [a] := reserved
    have fits := holdingA.heldFits a (by simp)
    obtain ⟨low, high⟩ := contains a rfl
    obtain ⟨lowered, sameSpan⟩ := holdingA.lowerTo le_rfl fits.binLow
    rw [← sameSpan] at high
    have front := trimFront_trimmed lowered low (show addr < _ by omega)
    have frontTree := trimFront_alloc ba₁ (a.lowerTo config.minBin) addr
    have runsOut : reserveRunsOut ba addr size ↔ ba₁.hkFreeList = [] ∨
        (trimFront ba₁ (a.lowerTo ba₁.config.minBin) addr).1.hkFreeList = [] := by
      rw [reserveRunsOut, ← isBins, found]
    simp only [holdingA.sameConfig] at runsOut ⊢
    generalize trimFront ba₁ _ addr = result at front frontTree runsOut ⊢
    obtain ⟨ba₂, b, trimmed⟩ := result
    obtain ⟨frontHolding, frontBin, frontLow, frontStop, frontTight, frontShort⟩ := front
    dsimp only at frontHolding frontBin frontLow frontStop frontTight frontShort frontTree runsOut
    cases trimmed with
    | false =>
      refine .adds frontHolding (frontTree.trans reservedTree) frontLow (frontStop ▸ high) ?_
      exact fun enough => absurd (runsOut.mpr (.inl (frontShort rfl))) enough
    | true =>
      have back := trimBack_trimmed frontHolding (by omega) frontLow (frontStop ▸ high)
      have backTree := trimBack_alloc ba₂ b addr size
      rw [if_pos rfl]
      refine .adds back.holding (backTree.trans (frontTree.trans reservedTree))
        (back.map ▸ frontLow) back.high ?_
      intro enough
      have backTight := back.tight fun empty => enough (runsOut.mpr (.inr empty))
      rw [frontBin] at backTight
      exact ⟨back.map ▸ frontTight rfl, backTight⟩

end Xvisor.Buddy
