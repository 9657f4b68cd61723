import Xvisor.Buddy.Operations
import Xvisor.Lib.System

/-!
# Conservation over whole runs

Starting from a freshly initialised allocator, every run of the public
operations keeps the areas disjoint, loses no byte and accounts for every
house-keeping object.
-/

namespace Xvisor.Buddy

open List Lib BuddyAllocator Rebalance

variable {config : BuddyConfig} {total : Nat → Nat} {ba ba' : BuddyAllocator}
  {bin : Nat} {a : BuddyArea} {rb : Rebalance BuddyArea}

/-! ## Initialisation -/

theorem Holding.grow {map blkCount : Nat} (holding : Holding config total ba [])
    (fits : config.Fits ⟨map, blkCount, bin⟩)
    (fresh : ∀ point, total point + (BuddyArea.mk map blkCount bin).span.weight point ≤ 1)
    (taken : HkAllocated ba ba' a map bin blkCount) :
    Holding config (fun point => total point + a.span.weight point) ba' [a] := by
  obtain ⟨fewer, pool⟩ := taken.pool holding.pool
  obtain ⟨⟨sameConfig, sameAlloc, sameBins⟩, rfl, -, -⟩ := taken
  refine ⟨sameConfig.trans holding.sameConfig, holding.valid, fresh, ?_, ?_, ?_, ?_, ?_, pool, ?_⟩
  · simpa only [sameBins] using holding.bins
  · simpa only [sameAlloc] using holding.alloc
  · simpa only [sameAlloc] using holding.allocSorted
  · exact forall_mem_singleton.mpr fits
  · intro point
    have covered := holding.covered point
    simp only [sameBins, sameAlloc, spans_nil, coverage_nil, spans_cons, coverage_cons] at *
    omega
  · have counted := holding.counted
    simp only [sameBins, sameAlloc, length_nil, length_cons] at *
    omega

/-- The fill loop. The bytes from `memStart` on are not covered yet, and `memStart` is
aligned to every block that still fits. -/
theorem fillBins_holding (fuel memStart memSize : Nat) (holding : Holding config total ba [])
    (uncovered : ∀ point, memStart ≤ point → total point = 0) (low : config.memStart ≤ memStart)
    (stop : memStart + memSize = config.memStart + config.memSize)
    (aligned : ∀ bin, bin ≤ config.maxBin → 2 ^ bin ≤ memSize → 2 ^ bin ∣ memStart) :
    (fillBins fuel ba memStart memSize).2 = .ok →
      ∃ total', Holding config total' (fillBins fuel ba memStart memSize).1 [] := by
  induction fuel generalizing ba memStart memSize total with
  | zero => exact fun _ => ⟨total, holding⟩
  | succ fuel ih =>
    unfold fillBins
    rw [holding.sameConfig]
    simp only
    obtain ⟨binLow, binHigh⟩ := buddyEstimateBin_bounds holding.valid memSize
    generalize buddyEstimateBin config memSize = bin at binLow binHigh ⊢
    split_ifs with done short
    · exact fun _ => ⟨total, holding⟩
    · exact fun _ => ⟨total, holding⟩
    · have pos : 0 < memSize / 2 ^ bin := Nat.div_pos (by omega) (Nat.two_pow_pos bin)
      have taking := Nat.div_mul_le_self memSize (2 ^ bin)
      have rest : memSize - memSize / 2 ^ bin * 2 ^ bin < 2 ^ bin := by
        have := Nat.div_add_mod memSize (2 ^ bin)
        rw [mul_comm]
        omega
      have fits : config.Fits ⟨memStart, memSize / 2 ^ bin, bin⟩ := by
        refine ⟨binLow, binHigh, pos, aligned bin binHigh (by omega), low, ?_⟩
        simp only [BuddyArea.span]
        omega
      cases allocated : buddyHkAlloc ba memStart bin (memSize / 2 ^ bin) with
      | none => exact fun failed => by simp at failed
      | some result =>
        obtain ⟨ba₁, a⟩ := result
        have taken := buddyHkAlloc_some allocated
        have single := holding.single
        have grown := holding.grow fits (fun point => by
          by_cases ahead : memStart ≤ point
          · rw [uncovered point ahead, zero_add]
            exact Span.weight_le_one _ _
          · rw [Span.weight_of_lt (by simp; omega)]
            exact single point) taken
        refine ih _ _ (buddyBinsPut_holding grown) ?_ (by omega) (by omega) ?_
        · intro point ahead
          rw [uncovered point (by omega), taken.area, zero_add]
          exact Span.weight_of_le ahead
        · intro smaller _ room
          have below : smaller ≤ bin := by
            by_contra above
            have := Nat.pow_le_pow_right (n := 2) (by omega) (show bin ≤ smaller by omega)
            omega
          refine dvd_add (aligned smaller (by omega) (by omega)) ?_
          exact (pow_dvd_pow 2 below).trans (dvd_mul_left _ _)

attribute [local simp] freshAllocator

theorem freshAllocator_holding (valid : config.Valid) :
    Holding config (fun _ => 0) (freshAllocator config) [] where
  sameConfig := rfl
  valid := valid
  single := by simp
  bins _ := binOk_nil
  alloc := by simp
  allocSorted := by simp
  heldFits := by simp
  covered := by simp
  pool := by simp
  counted := by simp

variable {hkAreaSize memStart memSize minBin maxBin : Nat}

theorem buddyAllocatorInit_ok (bound : memStart < 2 ^ 64) (boundSize : memSize < 2 ^ 64)
    (initialised : buddyAllocatorInit hkAreaSize memStart memSize minBin maxBin = .ok ba) :
    BuddyConfig.Valid ⟨hkAreaSize / sizeofBuddyArea, memStart, memSize, minBin, maxBin⟩ ∧
      fillBins memSize (freshAllocator
        ⟨hkAreaSize / sizeofBuddyArea, memStart, memSize, minBin, maxBin⟩) memStart memSize =
        (ba, .ok) := by
  unfold buddyAllocatorInit at initialised
  split_ifs at initialised with refused
  simp only [not_or, not_lt, not_le] at refused
  have noWrap : memStart + memSize < 2 ^ 64 := by
    have := refused.2.2.2.2.2.1
    simp only [Word.add] at this
    omega
  refine ⟨⟨refused.1, refused.2.2.1, noWrap⟩, ?_⟩
  simp only at initialised
  generalize fillBins memSize _ memStart memSize = result at initialised ⊢
  obtain ⟨ba₁, status⟩ := result
  cases status <;> simp only [reduceCtorEq, Except.ok.injEq] at initialised
  rw [initialised]

theorem buddyAllocatorInit_holding (bound : memStart < 2 ^ 64) (boundSize : memSize < 2 ^ 64)
    (aligned : 2 ^ maxBin ∣ memStart)
    (initialised : buddyAllocatorInit hkAreaSize memStart memSize minBin maxBin = .ok ba) :
    ∃ total, Holding ba.config total ba [] := by
  obtain ⟨valid, filling⟩ := buddyAllocatorInit_ok bound boundSize initialised
  have filled := fillBins_holding memSize memStart memSize (freshAllocator_holding valid)
    (fun _ _ => rfl) le_rfl rfl (fun bin inside _ => (pow_dvd_pow 2 inside).trans aligned)
  rw [filling] at filled
  obtain ⟨total, holding⟩ := filled rfl
  exact ⟨total, holding.sameConfig ▸ holding⟩

/-! ## Runs of the public operations -/

inductive Call where
  | alloc (size : Nat)
  | alignedAlloc (order size : Nat)
  | free (addr : Nat)
  | reserve (addr size : Nat)

/-- Arguments are machine words, and the range of a reservation does not wrap. -/
def Call.InRange : Call → Prop
  | .alloc size => size < 2 ^ 64
  | .alignedAlloc order size => order < 2 ^ 64 ∧ size < 2 ^ 64
  | .free addr => addr < 2 ^ 64
  | .reserve addr size => addr + size < 2 ^ 64

/-- The state after the call returns; `none` when it stops at a `BUG_ON`. -/
def Call.run (rb : Rebalance BuddyArea) (ba : BuddyAllocator) : Call → Option BuddyAllocator
  | .alloc size => (buddyMemAlloc rb ba size).map Prod.fst
  | .alignedAlloc order size => (buddyMemAlignedAlloc rb ba order size).map Prod.fst
  | .free addr => some (buddyMemFree rb ba addr).1
  | .reserve addr size => (buddyMemReserve rb ba addr size).map Prod.fst

def buddySystem (rb : Rebalance BuddyArea) (start : BuddyAllocator) :
    System BuddyAllocator Call where
  init ba := ba = start
  step ba call ba' := call.InRange ∧ call.run rb ba = some ba'

/-- A reservation whose rounded end stays inside the address space; every other call. -/
def Call.Contained (ba : BuddyAllocator) : Call → Prop
  | .reserve addr size => ba.config.EndFits addr size
  | _ => True

theorem Call.run_holding (rb : Rebalance BuddyArea) {call : Call}
    (holding : Holding config total ba [])
    (inRange : call.InRange) (contained : call.Contained ba) :
    ∃ ba', call.run rb ba = some ba' ∧ Holding config total ba' [] := by
  cases call with
  | alloc size =>
    obtain ⟨ba', value, result, kept⟩ := (buddyMemAlloc_ends rb holding inRange).keeps
    exact ⟨ba', by simp [Call.run, result], kept⟩
  | alignedAlloc order size =>
    obtain ⟨ba', value, result, kept⟩ :=
      (buddyMemAlignedAlloc_ends rb order holding inRange.2).keeps
    exact ⟨ba', by simp [Call.run, result], kept⟩
  | free addr => exact ⟨_, rfl, buddyMemFree_holding holding⟩
  | reserve addr size =>
    have endFits : config.EndFits addr size := holding.sameConfig ▸ contained
    obtain ⟨ba', value, result, kept⟩ := (buddyMemReserve_ends rb holding inRange endFits).keeps
    exact ⟨ba', by simp [Call.run, result], kept⟩

variable {start : BuddyAllocator}

theorem reachable_holding (holding : Holding start.config total start [])
    (reached : ((buddySystem rb start).restrict fun ba call => call.Contained ba).Reachable ba) :
    Holding start.config total ba [] := by
  refine reached.invariant (fun ba => Holding start.config total ba []) ?_ ?_
  · rintro ba rfl
    exact holding
  · rintro ba call ba' ih ⟨contained, inRange, result⟩
    obtain ⟨ba₁, result₁, kept⟩ := Call.run_holding rb ih inRange contained
    obtain rfl : ba₁ = ba' := Option.some.inj (result₁.symm.trans result)
    exact kept

/-! ## What a run conserves -/

def BuddyAllocator.freeAreas (ba : BuddyAllocator) : List BuddyArea :=
  (List.range 32).flatMap ba.bins

def BuddyAllocator.areas (ba : BuddyAllocator) : List BuddyArea :=
  ba.freeAreas ++ ba.alloc.toList

structure Conserved (start ba : BuddyAllocator) : Prop where
  disjoint : ba.areas.Pairwise fun a b => a.span.Apart b.span
  inside : ∀ a ∈ ba.areas, start.config.memStart ≤ a.map ∧
    a.span.stop ≤ start.config.memStart + start.config.memSize
  nonempty : ∀ a ∈ ba.areas, 0 < a.blkCount
  aligned : ∀ bin, ∀ a ∈ ba.bins bin, 2 ^ bin ∣ a.map
  sorted : ∀ bin, (ba.bins bin).Pairwise fun a b => a.map < b.map
  union : ∀ point, (∃ a ∈ ba.areas, a.span.covers point = true) ↔
    ∃ a ∈ start.areas, a.span.covers point = true
  counted : ba.hkFreeCount + ba.freeAreas.length + ba.alloc.toList.length =
    start.config.hkTotalCount

theorem coverage_flatMap_range (f : Nat → List BuddyArea) (count point : Nat) :
    coverage (spans ((List.range count).flatMap f)) point =
      ∑ bin ∈ Finset.range count, coverage (spans (f bin)) point := by
  induction count with
  | zero => simp
  | succ count ih =>
    rw [range_succ, flatMap_append, Finset.sum_range_succ, ← ih]
    simp

theorem Holding.coverage_areas (holding : Holding config total ba []) (point : Nat) :
    coverage (spans ba.areas) point = total point := by
  have covered := holding.covered point
  rw [areas, freeAreas, spans_append, coverage_append, coverage_flatMap_range]
  simpa using covered

theorem Holding.fits_areas (holding : Holding config total ba []) (mem : a ∈ ba.areas) :
    config.Fits a := by
  rcases mem_append.mp mem with free | allocated
  · obtain ⟨bin, -, inBin⟩ := mem_flatMap.mp free
    exact ((holding.bins bin).fits a inBin).2
  · exact holding.alloc a allocated

theorem Holding.conserved (holdingStart : Holding start.config total start [])
    (holding : Holding start.config total ba []) : Conserved start ba := by
  have single : ∀ point, coverage (spans ba.areas) point ≤ 1 := fun point => by
    rw [holding.coverage_areas]
    exact holding.single point
  refine ⟨?_, ?_, ?_, ?_, ?_, ?_, ?_⟩
  · exact pairwise_map.mp (pairwise_apart_of_coverage_le_one single)
  · exact fun a mem => ⟨(holding.fits_areas mem).low, (holding.fits_areas mem).high⟩
  · exact fun a mem => (holding.fits_areas mem).nonempty
  · intro bin a inBin
    obtain ⟨isBin, fits⟩ := (holding.bins bin).fits a inBin
    exact isBin ▸ fits.aligned
  · intro bin
    refine (holding.bins bin).sorted.imp_of_mem ?_
    intro a b inA _ ordered
    exact lt_of_lt_of_le ((holding.bins bin).fits a inA).2.span_lt ordered
  · have covered : ∀ ba : BuddyAllocator, Holding start.config total ba [] → ∀ point,
        (∃ a ∈ ba.areas, a.span.covers point = true) ↔ 0 < total point := by
      intro ba holding point
      rw [← holding.coverage_areas, coverage_pos]
      simp [spans]
    exact fun point => (covered ba holding point).trans (covered start holdingStart point).symm
  · have counted := holding.counted
    rw [length_nil, add_zero] at counted
    rw [freeAreas, length_flatMap]
    exact counted

/-- Every run of calls whose reservations do not round up past the end of the address
space conserves the managed memory, and no call of such a run stops at a `BUG_ON`. -/
theorem buddyRun_conserved (rb : Rebalance BuddyArea)
    (hkAreaSize memStart memSize minBin maxBin : Nat) {start ba : BuddyAllocator}
    (startBound : memStart < 2 ^ 64) (sizeBound : memSize < 2 ^ 64)
    (aligned : 2 ^ maxBin ∣ memStart)
    (initialised : buddyAllocatorInit hkAreaSize memStart memSize minBin maxBin = .ok start)
    (reached : ((buddySystem rb start).restrict fun ba call => call.Contained ba).Reachable ba) :
    Conserved start ba ∧
      ∀ call : Call, call.InRange → call.Contained ba → ∃ ba', call.run rb ba = some ba' := by
  obtain ⟨total, holdingStart⟩ :=
    buddyAllocatorInit_holding startBound sizeBound aligned initialised
  have holding := reachable_holding holdingStart reached
  refine ⟨holdingStart.conserved holding, ?_⟩
  intro call inRange contained
  obtain ⟨ba', result, -⟩ := Call.run_holding rb holding inRange contained
  exact ⟨ba', result⟩

theorem buddyRun_conserved_oneMegabyte :
    ∃ start ba, buddyAllocatorInit 4096 0x100000 0x100000 12 20 = .ok start ∧
      (Call.alloc 5000).run (plain _) start = some ba ∧ Conserved start ba := by
  refine ⟨_, _, rfl, rfl, ?_⟩
  have inRange : (Call.alloc 5000).InRange := (by decide : 5000 < 2 ^ 64)
  have contained : ∀ ba, (Call.alloc 5000).Contained ba := fun _ => trivial
  exact (buddyRun_conserved (plain _) 4096 0x100000 0x100000 12 20 (by decide)
    (by decide) (by decide) rfl (.next (.start rfl) ⟨contained _, inRange, rfl⟩)).1

/-- With memory at address zero, a reservation that ends at the last byte of the address
space passes the wrapped containment test: the bytes from `0x1000` on become one
allocated area far beyond the managed megabyte. -/
theorem buddyMemReserve_not_conserved :
    ∃ start ba, buddyAllocatorInit 4096 0 0x100000 12 20 = .ok start ∧
      (buddySystem (plain _) start).Reachable ba ∧ ¬ Conserved start ba := by
  have inRange : (Call.reserve 0x1000 (2 ^ 64 - 0x1001)).InRange :=
    (by decide : 0x1000 + (2 ^ 64 - 0x1001) < 2 ^ 64)
  refine ⟨_, _, rfl, .next (.start rfl)
    ⟨inRange, (Option.some_get (by decide +kernel)).symm⟩, ?_⟩
  intro conserved
  have allocated := conserved.inside ⟨0x1000, 2 ^ 52 - 1, 12⟩
    (mem_append_right _ (by decide +kernel))
  exact absurd allocated.2 (by decide +kernel)

/-! ## Single bytes

Which bytes are allocated is read off the alloc tree; by conservation the free
bytes are the others. -/

variable {held : List BuddyArea}

namespace BuddyAllocator

def FreeAt (ba : BuddyAllocator) (point : Nat) : Prop :=
  ∃ a ∈ ba.freeAreas, a.span.covers point = true

def AllocatedAt (ba : BuddyAllocator) (point : Nat) : Prop :=
  ∃ a ∈ ba.alloc.toList, a.span.covers point = true

theorem allocatedAt_iff {point : Nat} :
    ba.AllocatedAt point ↔ 0 < coverage (spans ba.alloc.toList) point := by
  simp [AllocatedAt, coverage_pos, spans]

theorem freeAt_iff {point : Nat} : ba.FreeAt point ↔ 0 < coverage (spans ba.freeAreas) point := by
  simp [FreeAt, coverage_pos, spans]

end BuddyAllocator

theorem Holding.bytes (holding : Holding config total ba []) (point : Nat) :
    (ba.FreeAt point ↔ 0 < total point ∧ ¬ ba.AllocatedAt point) ∧
      (ba.AllocatedAt point → 0 < total point) := by
  have covered := holding.coverage_areas point
  have single := holding.single point
  rw [areas, spans_append, coverage_append] at covered
  rw [freeAt_iff, allocatedAt_iff]
  omega

theorem findDirection_eq_iff {addr : Nat} (valid : config.Valid) (fits : config.Fits a) :
    findDirection addr a = .eq ↔ a.span.covers addr = true := by
  unfold findDirection
  rw [fits.stop_eq valid, Span.covers_iff, BuddyArea.span_first]
  split_ifs with inside below
  · simp [inside]
  · simp [inside]
  · simp [inside]

theorem Holding.found {addr : Nat} (holding : Holding config total ba held)
    (found : buddyAllocFind ba addr = some a) :
    a ∈ ba.alloc.toList ∧ config.Fits a ∧ a.map ≤ addr ∧ addr < a.span.stop := by
  obtain ⟨mem, stops⟩ := SearchTree.search_some found
  have fits := holding.alloc a mem
  have inside := (Span.covers_iff _ _).mp ((findDirection_eq_iff holding.valid fits).mp stops)
  exact ⟨mem, fits, inside⟩

/-! ## The alloc tree -/

theorem buddyAllocAdd_coverage (added : buddyAllocAdd rb ba a = some ba') (point : Nat) :
    coverage (spans ba'.alloc.toList) point =
      a.span.weight point + coverage (spans ba.alloc.toList) point := by
  obtain ⟨tree, linked, rfl⟩ := Option.map_eq_some_iff.mp added
  have perm := (SearchTree.link_perm linked).map BuddyArea.span
  rw [toList_insertColor, spans, coverage_perm perm]
  simp [spans]

theorem buddyAllocAdd_mem (added : buddyAllocAdd rb ba a = some ba') : a ∈ ba'.alloc.toList := by
  obtain ⟨tree, linked, rfl⟩ := Option.map_eq_some_iff.mp added
  rw [toList_insertColor]
  exact (SearchTree.link_perm linked).mem_iff.mpr mem_cons_self

theorem buddyAllocDel_coverage (allocated : a ∈ ba.alloc.toList) (point : Nat) :
    a.span.weight point + coverage (spans (buddyAllocDel rb ba a).alloc.toList) point =
      coverage (spans ba.alloc.toList) point := by
  have perm := (perm_cons_erase allocated).map BuddyArea.span
  rw [buddyAllocDel, toList_erase, spans, spans, coverage_perm perm]
  simp

/-! ## The free space after initialisation

The fill loop of `buddy_allocator_init` takes whole blocks of the largest bin
first. For what is left it estimates the bin that is large enough, not the
largest one that fits. -/

open Function Word

def buddyBinsBlockCount (ba : BuddyAllocator) (bin : Nat) : Nat :=
  if bin < ba.config.minBin ∨ ba.config.maxBin < bin then 0
  else (ba.bins bin).foldl (fun ret a => add ret a.blkCount) 0

def buddyBinsFreeSpace (ba : BuddyAllocator) : Nat :=
  (List.range' ba.config.minBin (ba.config.maxBin + 1 - ba.config.minBin)).foldl
    (fun ret bin => add ret (mul (buddyBinsBlockCount ba bin) (2 ^ bin))) 0

/-! ## Sums of machine words -/

theorem foldl_wordAdd {α : Type} (f : α → Nat) (values : List α) (start : Nat) :
    values.foldl (fun ret value => add ret (f value)) start % 2 ^ 64 =
      (start + (values.map f).sum) % 2 ^ 64 := by
  induction values generalizing start with
  | nil => simp
  | cons value values ih =>
    rw [foldl_cons, ih, map_cons, sum_cons, add, Nat.mod_add_mod, add_assoc]

theorem foldl_wordAdd_lt {α : Type} (f : α → Nat) (values : List α) :
    values.foldl (fun ret value => add ret (f value)) 0 < 2 ^ 64 := by
  induction values using List.reverseRecOn with
  | nil => simp
  | append_singleton values value _ =>
    rw [foldl_append]
    exact add_lt _ _

theorem sum_map_update {indices : List Nat} {index : Nat} (distinct : indices.Nodup)
    (inside : index ∈ indices) (f : Nat → Nat) (value : Nat) :
    (indices.map (update f index value)).sum + f index =
      (indices.map f).sum + value := by
  induction indices with
  | nil => cases inside
  | cons first indices ih =>
    obtain ⟨new, distinct⟩ := nodup_cons.mp distinct
    rw [map_cons, map_cons, sum_cons, sum_cons]
    rcases mem_cons.mp inside with rfl | later
    · have same : indices.map (update f index value) = indices.map f := by
        apply map_congr_left
        intro other isOther
        apply update_of_ne
        rintro rfl
        exact new isOther
      rw [same, update_self]
      omega
    · have other : first ≠ index := by
        rintro rfl
        exact new later
      rw [update_of_ne other]
      have rest := ih distinct later
      omega

/-! ## The free space of an allocator -/

def BuddyConfig.binRange (config : BuddyConfig) : List Nat :=
  List.range' config.minBin (config.maxBin + 1 - config.minBin)

theorem mem_binRange : bin ∈ config.binRange ↔ config.minBin ≤ bin ∧ bin ≤ config.maxBin := by
  rw [BuddyConfig.binRange, mem_range'_1]
  omega

def binBytes (areas : List BuddyArea) (bin : Nat) : Nat :=
  (areas.map BuddyArea.blkCount).sum * 2 ^ bin

theorem buddyBinsFreeSpace_eq (ba : BuddyAllocator) :
    buddyBinsFreeSpace ba =
      (ba.config.binRange.map fun bin => binBytes (ba.bins bin) bin).sum % 2 ^ 64 := by
  have block : ∀ bin ∈ ba.config.binRange,
      mul (buddyBinsBlockCount ba bin) (2 ^ bin) = binBytes (ba.bins bin) bin % 2 ^ 64 := by
    intro bin inside
    obtain ⟨low, high⟩ := mem_binRange.mp inside
    have counted := foldl_wordAdd BuddyArea.blkCount (ba.bins bin) 0
    rw [zero_add] at counted
    rw [buddyBinsBlockCount, if_neg (by omega), mul, binBytes, Nat.mul_mod, counted,
      ← Nat.mul_mod]
  have space := foldl_wordAdd (fun bin => mul (buddyBinsBlockCount ba bin) (2 ^ bin))
    ba.config.binRange 0
  rw [Nat.mod_eq_of_lt (foldl_wordAdd_lt _ _), zero_add] at space
  unfold buddyBinsFreeSpace
  rw [← BuddyConfig.binRange, space, map_congr_left block]
  generalize ba.config.binRange = indices
  induction indices with
  | nil => rfl
  | cons first indices ih =>
    rw [map_cons, map_cons, sum_cons, sum_cons, Nat.mod_add_mod, Nat.add_mod, ih, ← Nat.add_mod]

theorem buddyBinsFreeSpace_setBin (low : ba.config.minBin ≤ bin) (high : bin ≤ ba.config.maxBin)
    (empty : ba.bins bin = []) :
    buddyBinsFreeSpace (ba.setBin bin [a]) =
      (buddyBinsFreeSpace ba + a.blkCount * 2 ^ bin) % 2 ^ 64 := by
  have updated : (fun k => binBytes ((ba.setBin bin [a]).bins k) k) =
      update (fun k => binBytes (ba.bins k) k) bin (a.blkCount * 2 ^ bin) := by
    funext k
    by_cases same : k = bin
    · subst same
      simp [binBytes]
    · simp [update_of_ne same]
  have moved := sum_map_update nodup_range' (mem_binRange.mpr ⟨low, high⟩)
    (fun k => binBytes (ba.bins k) k) (a.blkCount * 2 ^ bin)
  have nothing : binBytes (ba.bins bin) bin = 0 := by
    simp [binBytes, empty]
  rw [buddyBinsFreeSpace_eq, buddyBinsFreeSpace_eq, Nat.mod_add_mod]
  rw [nothing, add_zero] at moved
  simp only [BuddyAllocator.setBin_config, updated]
  rw [BuddyConfig.binRange, moved]

/-! ## The fill loop -/

theorem buddyBinsPut_empty (low : ba.config.minBin ≤ a.binNum)
    (high : a.binNum ≤ ba.config.maxBin) (empty : ba.bins a.binNum = [])
    (stays : a.binNum = ba.config.maxBin ∨ a.blkCount = 1) :
    buddyBinsPut ba a = ba.setBin a.binNum [a] := by
  have placed : buddyBinsPutArea ba a = (ba.setBin a.binNum [a], none) := by
    unfold buddyBinsPutArea
    rw [if_neg (by omega)]
    simp only [empty, putScan, foldl_nil, nil_append]
    rcases stays with largest | single
    · rw [if_pos largest]
    · split_ifs
      · rfl
      · simp [splitOddBlock, promoteBlocks, single]
  simp [buddyBinsPut, buddyBinsPutLoop, placed]

variable {size fuel memStart memSize : Nat}

theorem buddyEstimateBin_of_ge (order : config.minBin ≤ config.maxBin)
    (large : 2 ^ config.maxBin ≤ size) : buddyEstimateBin config size = config.maxBin := by
  have lowest : 2 ^ config.minBin ≤ 2 ^ config.maxBin := Nat.pow_le_pow_right (by omega) order
  have missed : (List.range' config.minBin (config.maxBin - config.minBin)).find?
      (fun bin => decide (size ≤ 2 ^ bin)) = none := by
    rw [List.find?_eq_none]
    intro bin inside
    have below : 2 ^ bin < 2 ^ config.maxBin :=
      Nat.pow_lt_pow_right (by omega) (by have := mem_range'_1.mp inside; omega)
    simp only [decide_eq_true_eq]
    omega
  rw [buddyEstimateBin, if_neg (by omega), missed, Option.getD_none]

theorem le_buddyEstimateBin (small : size < 2 ^ config.maxBin) :
    size ≤ 2 ^ buddyEstimateBin config size := by
  unfold buddyEstimateBin
  split_ifs with tiny
  · exact tiny.le
  · cases found : (List.range' config.minBin (config.maxBin - config.minBin)).find?
        fun bin => decide (size ≤ 2 ^ bin) with
    | none => exact small.le
    | some bin =>
      have enough := List.find?_some found
      simpa using enough

theorem buddyEstimateBin_pow (low : config.minBin ≤ bin) (high : bin < config.maxBin) :
    buddyEstimateBin config (2 ^ bin) = bin := by
  have lowest : 2 ^ config.minBin ≤ 2 ^ bin := Nat.pow_le_pow_right (by omega) low
  rw [buddyEstimateBin, if_neg (by omega)]
  have found : (List.range' config.minBin (config.maxBin - config.minBin)).find?
      (fun k => decide (2 ^ bin ≤ 2 ^ k)) = some bin := by
    rw [List.find?_range'_eq_some]
    refine ⟨by simp, mem_range'_1.mpr ⟨low, by omega⟩, ?_⟩
    intro k _ isSmall
    simpa using Nat.pow_lt_pow_right (by omega : 1 < 2) isSmall
  rw [found, Option.getD_some]

theorem fillBins_zero (fuel : Nat) (ba : BuddyAllocator) (memStart : Nat) :
    fillBins fuel ba memStart 0 = (ba, .ok) := by
  cases fuel <;> simp [fillBins]

theorem fillBins_take (pos : 0 < memSize) (isBin : buddyEstimateBin ba.config memSize = bin)
    (enough : 2 ^ bin ≤ memSize) (low : ba.config.minBin ≤ bin) (high : bin ≤ ba.config.maxBin)
    (empty : ba.bins bin = []) (stays : bin = ba.config.maxBin ∨ memSize / 2 ^ bin = 1)
    (done : (fillBins (fuel + 1) ba memStart memSize).2 = .ok) :
    ∃ ba₁ : BuddyAllocator, ba₁.config = ba.config ∧
      ba₁.bins = update ba.bins bin [⟨memStart, memSize / 2 ^ bin, bin⟩] ∧
      buddyBinsFreeSpace ba₁ = (buddyBinsFreeSpace ba + memSize / 2 ^ bin * 2 ^ bin) % 2 ^ 64 ∧
      fillBins (fuel + 1) ba memStart memSize =
        fillBins fuel ba₁ (memStart + memSize / 2 ^ bin * 2 ^ bin) (memSize % 2 ^ bin) := by
  have rest : memSize - memSize / 2 ^ bin * 2 ^ bin = memSize % 2 ^ bin := by
    have := Nat.div_add_mod' memSize (2 ^ bin)
    omega
  simp only [fillBins, isBin, rest, if_neg (ne_of_gt pos),
    if_neg (Nat.not_lt.mpr enough)] at done ⊢
  cases allocated : buddyHkAlloc ba memStart bin (memSize / 2 ^ bin) with
  | none =>
    rw [allocated] at done
    cases done
  | some result =>
    obtain ⟨ba₀, a⟩ := result
    obtain ⟨⟨sameConfig, _, sameBins⟩, rfl, _, _⟩ := buddyHkAlloc_some allocated
    have sameSpace : buddyBinsFreeSpace ba₀ = buddyBinsFreeSpace ba := by
      rw [buddyBinsFreeSpace_eq, buddyBinsFreeSpace_eq, sameConfig, sameBins]
    refine ⟨ba₀.setBin bin [⟨memStart, memSize / 2 ^ bin, bin⟩], sameConfig, ?_, ?_, ?_⟩
    · rw [BuddyAllocator.setBin_bins, sameBins]
    · rw [buddyBinsFreeSpace_setBin (by rwa [sameConfig]) (by rwa [sameConfig]) (by rwa [sameBins]),
        sameSpace]
    · dsimp only
      rw [buddyBinsPut_empty (by rwa [sameConfig]) (by rwa [sameConfig]) (by rwa [sameBins])
        (by rwa [sameConfig])]

theorem fillBins_rest (valid : ba.config.Valid) (small : memSize < 2 ^ ba.config.maxBin)
    (pos : 0 < fuel) (empty : ∀ bin < ba.config.maxBin, ba.bins bin = [])
    (done : (fillBins fuel ba memStart memSize).2 = .ok) :
    (∀ bin, ba.config.minBin ≤ bin → memSize = 2 ^ bin →
      buddyBinsFreeSpace (fillBins fuel ba memStart memSize).1 =
        (buddyBinsFreeSpace ba + memSize) % 2 ^ 64) ∧
    ((∀ bin, ba.config.minBin ≤ bin → memSize ≠ 2 ^ bin) →
      (fillBins fuel ba memStart memSize).1 = ba) := by
  obtain ⟨fuel, rfl⟩ := Nat.exists_eq_succ_of_ne_zero (ne_of_gt pos)
  constructor
  · rintro bin low rfl
    have high : bin < ba.config.maxBin := (Nat.pow_lt_pow_iff_right (by omega)).mp small
    have whole : 2 ^ bin / 2 ^ bin = 1 := Nat.div_self (Nat.two_pow_pos bin)
    obtain ⟨ba₁, _, _, space, taken⟩ := fillBins_take (Nat.two_pow_pos bin)
      (buddyEstimateBin_pow low high) le_rfl low high.le (empty bin high) (.inr whole) done
    rw [taken, Nat.mod_self, fillBins_zero]
    rw [whole, one_mul] at space
    exact space
  · intro noBlock
    unfold fillBins
    dsimp only
    split_ifs with finished short
    · rfl
    · rfl
    · have estimated := le_buddyEstimateBin small
      exact absurd (le_antisymm estimated (Nat.le_of_not_lt short))
        (noBlock _ (buddyEstimateBin_bounds valid memSize).1)

variable {start : BuddyAllocator}

/-- The free space after initialisation: all blocks of the largest bin, and the rest if it is a
block itself. -/
theorem fillBins_freeSpace (valid : config.Valid)
    (sizeBound : memSize < 2 ^ 64)
    (filling : fillBins memSize (freshAllocator config) memStart memSize = (start, .ok)) :
    (∀ bin, config.minBin ≤ bin → memSize % 2 ^ config.maxBin = 2 ^ bin →
      buddyBinsFreeSpace start = memSize) ∧
    ((∀ bin, config.minBin ≤ bin → memSize % 2 ^ config.maxBin ≠ 2 ^ bin) →
      buddyBinsFreeSpace start = memSize / 2 ^ config.maxBin * 2 ^ config.maxBin) := by
  have nothing : buddyBinsFreeSpace (freshAllocator config) = 0 := by
    rw [buddyBinsFreeSpace_eq]
    simp [binBytes]
  have whole := Nat.div_add_mod' memSize (2 ^ config.maxBin)
  have smaller := Nat.mod_lt memSize (Nat.two_pow_pos config.maxBin)
  -- the state from which the rest is filled, and the bytes that are free there
  obtain ⟨ba, fuel, first, sameConfig, empty, space, enough, filled⟩ :
      ∃ (ba : BuddyAllocator) (fuel first : Nat), ba.config = config ∧
        (∀ bin < config.maxBin, ba.bins bin = []) ∧
        buddyBinsFreeSpace ba = memSize / 2 ^ config.maxBin * 2 ^ config.maxBin ∧
        (0 < memSize % 2 ^ config.maxBin → 0 < fuel) ∧
        fillBins fuel ba first (memSize % 2 ^ config.maxBin) = (start, .ok) := by
    by_cases large : 2 ^ config.maxBin ≤ memSize
    · have pos : 0 < memSize := (Nat.two_pow_pos _).trans_le large
      obtain ⟨fuel, isFuel⟩ := Nat.exists_eq_succ_of_ne_zero (ne_of_gt pos)
      have done : (fillBins (fuel + 1) (freshAllocator config) memStart memSize).2 = .ok := by
        rw [← Nat.succ_eq_add_one, ← isFuel, filling]
      obtain ⟨ba, sameConfig, bins, space, taken⟩ := fillBins_take pos
        (buddyEstimateBin_of_ge valid.order large) large valid.order le_rfl rfl (.inl rfl) done
      have isConfig : (freshAllocator config).config = config := rfl
      rw [← Nat.succ_eq_add_one, ← isFuel, filling] at taken
      simp only [isConfig] at bins space taken
      refine ⟨ba, fuel, _, sameConfig, ?_, ?_, ?_, taken.symm⟩
      · intro bin below
        rw [bins, update_of_ne (ne_of_lt below)]
        rfl
      · rw [space, nothing, zero_add]
        exact Nat.mod_eq_of_lt (by omega)
      · intro _
        omega
    · have isRest := Nat.mod_eq_of_lt (Nat.lt_of_not_le large)
      refine ⟨freshAllocator config, memSize, memStart, rfl, fun _ _ => rfl, ?_, ?_, ?_⟩
      · rw [nothing, Nat.div_eq_of_lt (Nat.lt_of_not_le large), Nat.zero_mul]
      · omega
      · rw [isRest]
        exact filling
  by_cases finished : memSize % 2 ^ config.maxBin = 0
  · rw [finished, fillBins_zero] at filled
    cases filled
    refine ⟨?_, fun _ => space⟩
    intro bin _ isBlock
    omega
  · obtain ⟨block, left⟩ := fillBins_rest (sameConfig ▸ valid) (by rwa [sameConfig])
      (enough (pos_of_ne_zero finished)) (by rwa [sameConfig]) (by rw [filled])
    rw [filled] at block left
    rw [sameConfig] at block left
    dsimp only at block left
    refine ⟨?_, ?_⟩
    · intro bin low isBlock
      rw [block bin low isBlock, space, whole]
      exact Nat.mod_eq_of_lt sizeBound
    · intro noBlock
      rw [left noBlock]
      exact space

/-- All memory is managed, up to less than a smallest block, exactly if what remains beside the
blocks of the largest bin is less than a smallest block or is itself one block. -/
theorem buddyAllocatorInit_freeSpace_iff {hkAreaSize memStart memSize minBin maxBin : Nat}
    {start : BuddyAllocator} (startBound : memStart < 2 ^ 64) (sizeBound : memSize < 2 ^ 64)
    (initialised : buddyAllocatorInit hkAreaSize memStart memSize minBin maxBin = .ok start) :
    buddyBinsFreeSpace start = memSize / 2 ^ minBin * 2 ^ minBin ↔
      memSize % 2 ^ maxBin < 2 ^ minBin ∨ ∃ bin, memSize % 2 ^ maxBin = 2 ^ bin := by
  obtain ⟨valid, filling⟩ := buddyAllocatorInit_ok startBound sizeBound initialised
  have order : minBin ≤ maxBin := valid.order
  obtain ⟨block, rest⟩ := fillBins_freeSpace valid sizeBound filling
  dsimp only at block rest
  have whole := Nat.div_add_mod' memSize (2 ^ maxBin)
  have rounded : memSize / 2 ^ minBin * 2 ^ minBin =
      memSize / 2 ^ maxBin * 2 ^ maxBin + memSize % 2 ^ maxBin / 2 ^ minBin * 2 ^ minBin := by
    obtain ⟨factor, isFactor⟩ := pow_dvd_pow 2 order
    have blocks : memSize = 2 ^ minBin * (factor * (memSize / 2 ^ maxBin)) +
        memSize % 2 ^ maxBin := by
      rw [← mul_assoc, ← isFactor, mul_comm]
      exact whole.symm
    conv_lhs => rw [blocks, Nat.mul_add_div (Nat.two_pow_pos _)]
    rw [isFactor]
    ring
  rw [rounded]
  by_cases tiny : memSize % 2 ^ maxBin < 2 ^ minBin
  · have noBlock : ∀ bin, minBin ≤ bin → memSize % 2 ^ maxBin ≠ 2 ^ bin := by
      intro bin low
      have := Nat.pow_le_pow_right (by omega : 0 < 2) low
      omega
    rw [rest noBlock, Nat.div_eq_of_lt tiny]
    simp [tiny]
  · rw [or_iff_right tiny]
    constructor
    · intro managed
      by_contra noBlock
      rw [rest fun bin _ isBlock => noBlock ⟨bin, isBlock⟩] at managed
      have := Nat.div_pos (Nat.le_of_not_lt tiny) (Nat.two_pow_pos minBin)
      have := mul_pos this (Nat.two_pow_pos minBin)
      omega
    · rintro ⟨bin, isBlock⟩
      have low : minBin ≤ bin := by
        rw [isBlock] at tiny
        exact (Nat.pow_le_pow_iff_right (by omega)).mp (Nat.le_of_not_lt tiny)
      rw [block bin low isBlock, isBlock, Nat.div_mul_cancel (pow_dvd_pow 2 low), ← isBlock]
      exact whole.symm

theorem buddyAllocatorInit_freeSpace_oneMegabyte :
    ∃ start, buddyAllocatorInit 4096 0x100000 0x100800 12 20 = .ok start ∧
      buddyBinsFreeSpace start = 0x100800 / 2 ^ 12 * 2 ^ 12 := by
  have initialised : ∃ start, buddyAllocatorInit 4096 0x100000 0x100800 12 20 = .ok start :=
    ⟨_, rfl⟩
  obtain ⟨start, initialised⟩ := initialised
  exact ⟨start, initialised, (buddyAllocatorInit_freeSpace_iff (by decide) (by decide)
    initialised).mpr (.inl (by decide))⟩

/-- Seven pages are less than the eight pages of the estimated bin: nothing is managed. -/
theorem buddyAllocatorInit_manages_nothing :
    ∃ start, buddyAllocatorInit 4096 0x100000 0x7000 12 20 = .ok start ∧
      buddyBinsFreeSpace start = 0 ∧ 0x7000 / 2 ^ 12 * 2 ^ 12 ≠ 0 :=
  ⟨_, rfl, by decide, by decide⟩

end Xvisor.Buddy
