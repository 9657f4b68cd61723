import Mathlib.Tactic
import Xvisor.Buddy.Allocator
import Xvisor.Lib.Coverage

/-!
# The invariant of the buddy allocator

Inside an operation some areas are neither on a bin nor in the alloc tree: the
operation holds them. `Holding` is the invariant with those areas listed, so
that each step moves areas between the three places.
-/

namespace Xvisor.Buddy

open Function List Lib

def BuddyArea.span (a : BuddyArea) : Span := ⟨a.map, a.map + a.blkCount * 2 ^ a.binNum⟩

def spans (areas : List BuddyArea) : List Span := areas.map BuddyArea.span

@[simp] theorem BuddyArea.span_first (a : BuddyArea) : a.span.first = a.map := rfl

@[simp] theorem spans_nil : spans [] = [] := rfl

@[simp] theorem spans_cons (a : BuddyArea) (areas : List BuddyArea) :
    spans (a :: areas) = a.span :: spans areas := rfl

@[simp] theorem spans_append (left right : List BuddyArea) :
    spans (left ++ right) = spans left ++ spans right := map_append

/-- The configurations that pass the checks of `buddy_allocator_init`. -/
structure BuddyConfig.Valid (config : BuddyConfig) : Prop where
  order : config.minBin ≤ config.maxBin
  bins : config.maxBin < 32
  bound : config.memStart + config.memSize < 2 ^ 64

structure BuddyConfig.Fits (config : BuddyConfig) (a : BuddyArea) : Prop where
  binLow : config.minBin ≤ a.binNum
  binHigh : a.binNum ≤ config.maxBin
  nonempty : 0 < a.blkCount
  aligned : 2 ^ a.binNum ∣ a.map
  low : config.memStart ≤ a.map
  high : a.span.stop ≤ config.memStart + config.memSize

namespace BuddyConfig

variable {config : BuddyConfig} {a b : BuddyArea}

theorem Fits.span_lt (fits : config.Fits a) : a.span.first < a.span.stop := by
  have : 0 < a.blkCount * 2 ^ a.binNum := mul_pos fits.nonempty (Nat.two_pow_pos _)
  simp only [BuddyArea.span]
  omega

theorem Fits.size_eq (valid : config.Valid) (fits : config.Fits a) :
    a.size = a.blkCount * 2 ^ a.binNum := by
  have bound := valid.bound
  have high := fits.high
  simp only [BuddyArea.span] at high
  exact Word.mul_of_lt (by omega)

theorem Fits.stop_eq (valid : config.Valid) (fits : config.Fits a) : a.stop = a.span.stop := by
  have bound := valid.bound
  have high := fits.high
  rw [BuddyArea.stop, fits.size_eq valid]
  simp only [BuddyArea.span] at high ⊢
  exact Word.add_of_lt (by omega)

theorem Fits.join (fitsA : config.Fits a) (fitsB : config.Fits b) (bin : a.binNum = b.binNum)
    (adjacent : a.span.stop = b.map) {count : Nat} (total : count = a.blkCount + b.blkCount) :
    config.Fits ⟨a.map, count, a.binNum⟩ ∧
      (BuddyArea.mk a.map count a.binNum).span = ⟨a.map, b.span.stop⟩ := by
  have stop : a.map + count * 2 ^ a.binNum = b.span.stop := by
    simp only [BuddyArea.span] at adjacent ⊢
    rw [total, add_mul, ← adjacent, bin]
    omega
  refine ⟨⟨fitsA.binLow, fitsA.binHigh, ?_, fitsA.aligned, fitsA.low, ?_⟩, ?_⟩
  · have := fitsA.nonempty
    simp only
    omega
  · simpa only [BuddyArea.span, stop] using fitsB.high
  · simp only [BuddyArea.span, stop]

theorem Fits.cut (fits : config.Fits a) (count : Nat) (pos : 0 < count)
    (short : count < a.blkCount) :
    config.Fits ⟨a.map, count, a.binNum⟩ ∧
      config.Fits ⟨a.map + count * 2 ^ a.binNum, a.blkCount - count, a.binNum⟩ ∧
      ∀ point, a.span.weight point = (BuddyArea.mk a.map count a.binNum).span.weight point +
          (BuddyArea.mk (a.map + count * 2 ^ a.binNum) (a.blkCount - count)
            a.binNum).span.weight point := by
  have whole : count * 2 ^ a.binNum + (a.blkCount - count) * 2 ^ a.binNum =
      a.blkCount * 2 ^ a.binNum := by
    rw [← add_mul]
    congr 1
    omega
  have high := fits.high
  simp only [BuddyArea.span] at high
  refine ⟨⟨fits.binLow, fits.binHigh, pos, fits.aligned, fits.low, ?_⟩,
    ⟨fits.binLow, fits.binHigh, ?_, ?_, ?_, ?_⟩, ?_⟩
  · simp only [BuddyArea.span]
    omega
  · simp only
    omega
  · exact dvd_add fits.aligned (dvd_mul_left _ _)
  · have := fits.low
    simp only
    omega
  · simp only [BuddyArea.span]
    omega
  · intro point
    simp only [BuddyArea.span, add_assoc, whole]
    exact Span.weight_cut _ _ _ (by omega) (by omega) point

theorem cut_stop (a : BuddyArea) {count : Nat} (short : count ≤ a.blkCount) :
    (BuddyArea.mk (a.map + count * 2 ^ a.binNum) (a.blkCount - count) a.binNum).span.stop =
      a.span.stop := by
  simp only [BuddyArea.span, add_assoc, ← add_mul, Nat.add_sub_cancel' short]

theorem Fits.cut_address (valid : config.Valid) (fits : config.Fits a) (count : Nat)
    (short : count ≤ a.blkCount) :
    Word.add a.map (Word.mul count (2 ^ a.binNum)) = a.map + count * 2 ^ a.binNum := by
  have bound := valid.bound
  have high := fits.high
  have part : count * 2 ^ a.binNum ≤ a.blkCount * 2 ^ a.binNum := Nat.mul_le_mul_right _ short
  simp only [BuddyArea.span] at high
  rw [Word.mul_of_lt (by omega), Word.add_of_lt (by omega)]

end BuddyConfig

structure BinOk (config : BuddyConfig) (bin : Nat) (areas : List BuddyArea) : Prop where
  fits : ∀ a ∈ areas, a.binNum = bin ∧ config.Fits a
  sorted : areas.Pairwise fun a b => a.span.Before b.span

section BinOk

variable {config : BuddyConfig} {bin : Nat} {before after : List BuddyArea} {a : BuddyArea}

theorem binOk_nil : BinOk config bin [] := ⟨by simp, List.Pairwise.nil⟩

theorem binOk_append : BinOk config bin (before ++ after) ↔
    BinOk config bin before ∧ BinOk config bin after ∧
      ∀ x ∈ before, ∀ y ∈ after, x.span.Before y.span := by
  constructor
  · rintro ⟨fits, sorted⟩
    rw [pairwise_append] at sorted
    refine ⟨⟨fun x h => fits x (by simp [h]), sorted.1⟩,
      ⟨fun x h => fits x (by simp [h]), sorted.2.1⟩, sorted.2.2⟩
  · rintro ⟨left, right, across⟩
    refine ⟨?_, pairwise_append.mpr ⟨left.sorted, right.sorted, across⟩⟩
    exact forall_mem_append.mpr ⟨left.fits, right.fits⟩

theorem binOk_cons : BinOk config bin (a :: after) ↔
    (a.binNum = bin ∧ config.Fits a) ∧ BinOk config bin after ∧
      ∀ y ∈ after, a.span.Before y.span := by
  constructor
  · rintro ⟨fits, sorted⟩
    rw [pairwise_cons] at sorted
    exact ⟨fits a (by simp), ⟨fun x h => fits x (by simp [h]), sorted.2⟩, sorted.1⟩
  · rintro ⟨own, rest, first⟩
    refine ⟨?_, pairwise_cons.mpr ⟨first, rest.sorted⟩⟩
    exact forall_mem_cons.mpr ⟨own, rest.fits⟩

theorem binOk_singleton (isBin : a.binNum = bin) (fits : config.Fits a) :
    BinOk config bin [a] := binOk_cons.mpr ⟨⟨isBin, fits⟩, binOk_nil, by simp⟩

end BinOk

/-- The allocator with the areas an operation holds. No operation changes `total`, the number of
areas that contain a byte. -/
structure Holding (config : BuddyConfig) (total : Nat → Nat) (ba : BuddyAllocator)
    (held : List BuddyArea) : Prop where
  sameConfig : ba.config = config
  valid : config.Valid
  single : ∀ point, total point ≤ 1
  bins : ∀ bin, BinOk config bin (ba.bins bin)
  alloc : ∀ a ∈ ba.alloc.toList, config.Fits a
  allocSorted : ba.alloc.toList.Pairwise fun a b => a.span.Before b.span
  heldFits : ∀ a ∈ held, config.Fits a
  covered : ∀ point, (∑ bin ∈ Finset.range 32, coverage (spans (ba.bins bin)) point) +
    coverage (spans ba.alloc.toList) point + coverage (spans held) point = total point
  pool : ba.hkFreeCount = ba.hkFreeList.length
  counted : ba.hkFreeCount + (∑ bin ∈ Finset.range 32, (ba.bins bin).length) +
    ba.alloc.toList.length + held.length = config.hkTotalCount

namespace Holding

variable {config : BuddyConfig} {total : Nat → Nat} {ba ba' : BuddyAllocator}
  {held held' : List BuddyArea} {bin : Nat}

theorem sum_bins {areas : List BuddyArea} (supported : bin < 32)
    (newBins : ba'.bins = update ba.bins bin areas) (f : List BuddyArea → Nat) :
    (∑ k ∈ Finset.range 32, f (ba'.bins k)) + f (ba.bins bin) =
      (∑ k ∈ Finset.range 32, f (ba.bins k)) + f areas := by
  rw [newBins, ← sum_update_range supported (fun k => f (ba.bins k)) (f areas)]
  simp only [apply_update fun _ => f]

/-- The bin list, the held areas and the pool may be reordered if they still cover and count the
same together. -/
theorem rebin (holding : Holding config total ba held) (inside : bin ≤ config.maxBin)
    (areas : List BuddyArea) (sameConfig : ba'.config = ba.config)
    (sameAlloc : ba'.alloc = ba.alloc) (newBins : ba'.bins = update ba.bins bin areas)
    (pool : ba'.hkFreeCount = ba'.hkFreeList.length) (ok : BinOk config bin areas)
    (heldFits : ∀ a ∈ held', config.Fits a)
    (cover : ∀ point, coverage (spans areas) point + coverage (spans held') point =
      coverage (spans (ba.bins bin)) point + coverage (spans held) point)
    (count : ba'.hkFreeCount + areas.length + held'.length =
      ba.hkFreeCount + (ba.bins bin).length + held.length) : Holding config total ba' held' where
  sameConfig := sameConfig.trans holding.sameConfig
  valid := holding.valid
  single := holding.single
  bins := by
    intro other
    rw [newBins]
    by_cases same : other = bin
    · subst same
      simpa using ok
    · simpa [update_of_ne same] using holding.bins other
  alloc := by simpa only [sameAlloc] using holding.alloc
  allocSorted := by simpa only [sameAlloc] using holding.allocSorted
  heldFits := heldFits
  covered := by
    intro point
    have moved := sum_bins (inside.trans_lt holding.valid.bins) newBins
      fun areas => coverage (spans areas) point
    have before := holding.covered point
    have balance := cover point
    rw [sameAlloc]
    omega
  pool := pool
  counted := by
    have moved := sum_bins (inside.trans_lt holding.valid.bins) newBins length
    have before := holding.counted
    rw [sameAlloc]
    omega

theorem coverage_bin_le (ba : BuddyAllocator) (supported : bin < 32) (point : Nat) :
    coverage (spans (ba.bins bin)) point ≤
      ∑ k ∈ Finset.range 32, coverage (spans (ba.bins k)) point :=
  Finset.single_le_sum (f := fun k => coverage (spans (ba.bins k)) point)
    (fun _ _ => Nat.zero_le _) (Finset.mem_range.mpr supported)

theorem apart_bin {a b : BuddyArea} (holding : Holding config total ba held) (own : a ∈ held)
    (free : b ∈ ba.bins bin) : a.span.Apart b.span := by
  intro point both
  obtain ⟨isBin, fits⟩ := (holding.bins bin).fits b free
  have supported : bin < 32 := by
    have := fits.binHigh
    have := holding.valid.bins
    omega
  have inHeld : 0 < coverage (spans held) point := coverage_pos.mpr ⟨_, mem_map_of_mem own, both.1⟩
  have inBin : 0 < coverage (spans (ba.bins bin)) point :=
    coverage_pos.mpr ⟨_, mem_map_of_mem free, both.2⟩
  have := coverage_bin_le ba supported point
  have := holding.covered point
  have := holding.single point
  omega

theorem apart_alloc {a b : BuddyArea} (holding : Holding config total ba held) (own : a ∈ held)
    (allocated : b ∈ ba.alloc.toList) : a.span.Apart b.span := by
  intro point both
  have inHeld : 0 < coverage (spans held) point := coverage_pos.mpr ⟨_, mem_map_of_mem own, both.1⟩
  have inAlloc : 0 < coverage (spans ba.alloc.toList) point :=
    coverage_pos.mpr ⟨_, mem_map_of_mem allocated, both.2⟩
  have := holding.covered point
  have := holding.single point
  omega

end Holding

/-! ## Putting an area on its bin -/

section PutScan

variable {config : BuddyConfig} {a : BuddyArea} {before rest : List BuddyArea}

def PutScan.areas (scan : PutScan) : List BuddyArea := scan.before ++ scan.merge :: scan.after

/-- The area was put into a sorted list; `freed` objects are not on the list any more. -/
structure Inserted (config : BuddyConfig) (a : BuddyArea) (areas result : List BuddyArea)
    (freed : Nat) : Prop where
  ok : BinOk config a.binNum result
  cover : ∀ point, coverage (spans result) point =
    coverage (spans areas) point + a.span.weight point
  count : result.length + freed = areas.length + 1

theorem inserted_between (before rest : List BuddyArea) (fits : config.Fits a)
    (ok : BinOk config a.binNum (before ++ rest))
    (below : ∀ b ∈ before, b.span.Before a.span) (above : ∀ b ∈ rest, a.span.Before b.span) :
    Inserted config a (before ++ rest) (before ++ a :: rest) 0 := by
  obtain ⟨okBefore, okRest, across⟩ := binOk_append.mp ok
  refine ⟨?_, ?_, by simp; omega⟩
  · refine binOk_append.mpr ⟨okBefore, binOk_cons.mpr ⟨⟨rfl, fits⟩, okRest, above⟩, ?_⟩
    exact fun x inBefore => forall_mem_cons.mpr ⟨below x inBefore, across x inBefore⟩
  · intro point
    simp only [spans_append, spans_cons, coverage_append, coverage_cons]
    omega

theorem Inserted.merge {areas : List BuddyArea} {x y : BuddyArea} {freed count : Nat}
    (inserted : Inserted config a areas (before ++ x :: y :: rest) freed)
    (adjacent : x.span.stop = y.map) (total : count = x.blkCount + y.blkCount) :
    Inserted config a areas (before ++ ⟨x.map, count, a.binNum⟩ :: rest) (freed + 1) := by
  obtain ⟨okBefore, okPair, across⟩ := binOk_append.mp inserted.ok
  obtain ⟨⟨binX, fitsX⟩, okTail, aboveX⟩ := binOk_cons.mp okPair
  obtain ⟨⟨binY, fitsY⟩, okRest, aboveY⟩ := binOk_cons.mp okTail
  obtain ⟨fitsJoin, spanJoin⟩ := fitsX.join fitsY (binX.trans binY.symm) adjacent total
  rw [binX] at fitsJoin spanJoin
  refine ⟨?_, ?_, ?_⟩
  · refine binOk_append.mpr ⟨okBefore, binOk_cons.mpr ⟨⟨rfl, fitsJoin⟩, okRest, ?_⟩, ?_⟩
    · intro z inRest
      rw [spanJoin]
      exact aboveY z inRest
    · intro z inBefore w mem
      rcases mem_cons.mp mem with rfl | inRest
      · rw [spanJoin]
        exact across z inBefore x (by simp)
      · exact across z inBefore w (by simp [inRest])
  · intro point
    have cut := Span.weight_cut x.map y.map y.span.stop
      (by rw [← adjacent]; exact fitsX.span_lt.le) fitsY.span_lt.le point
    have left : x.span = ⟨x.map, y.map⟩ := by rw [← adjacent]; rfl
    have right : y.span = ⟨y.map, y.span.stop⟩ := rfl
    have covered := inserted.cover point
    simp only [spans_append, spans_cons, coverage_append, coverage_cons] at covered ⊢
    rw [spanJoin, cut, ← left, ← right]
    omega
  · have := inserted.count
    simp only [length_append, length_cons] at this ⊢
    omega

/-- The scan of `__buddy_bins_put` inserts the area, merged with its neighbours. The
induction is on the entries still ahead; those passed all end before the area. -/
theorem putScan_inserted (before : List BuddyArea) (valid : config.Valid) (fits : config.Fits a)
    (ok : BinOk config a.binNum (before ++ rest)) (apart : ∀ b ∈ rest, a.span.Apart b.span)
    (passed : ∀ b ∈ before, b.span.Before a.span) :
    Inserted config a (before ++ rest) (putScan a before rest).areas
      (putScan a before rest).freed.length := by
  induction rest generalizing before with
  | nil => exact inserted_between _ _ fits ok passed (by simp)
  | cons b rest ih =>
    obtain ⟨okBefore, okHere, across⟩ := binOk_append.mp ok
    obtain ⟨⟨binB, fitsB⟩, okRest, aboveB⟩ := binOk_cons.mp okHere
    have stopA := fits.stop_eq valid
    have stopB := fitsB.stop_eq valid
    have ordered := (apart b (by simp)).before_or fits.span_lt fitsB.span_lt
    -- inserting before `b` and inserting right after it
    have placedBefore : a.span.Before b.span →
        Inserted config a (before ++ b :: rest) (before ++ a :: b :: rest) 0 := by
      intro first
      refine inserted_between _ _ fits ok passed ?_
      intro c mem
      rcases mem_cons.mp mem with rfl | inRest
      · exact first
      · exact le_trans first (le_trans fitsB.span_lt.le (aboveB c inRest))
    have placedAfter : b.stop = a.map →
        Inserted config a (before ++ b :: rest) (before ++ b :: a :: rest) 0 := by
      intro touching
      have := inserted_between (before ++ [b]) rest fits (by simpa using ok) ?_ ?_
      · simpa using this
      · refine forall_mem_append.mpr ⟨passed, forall_mem_singleton.mpr ?_⟩
        exact le_of_eq (stopB.symm.trans touching)
      · intro c inRest
        obtain ⟨-, fitsC⟩ := okRest.fits c inRest
        rcases (apart c (by simp [inRest])).before_or fits.span_lt fitsC.span_lt with h | h
        · exact h
        · have beyond := aboveB c inRest
          have nonempty := fitsC.span_lt
          simp only [Span.Before, BuddyArea.span_first] at h beyond nonempty
          omega
    simp only [putScan]
    by_cases touchesB : a.stop = b.map
    · have first : a.span.stop = b.map := stopA.symm.trans touchesB
      have joined := (placedBefore (le_of_eq first)).merge first (add_comm b.blkCount _)
      rw [if_pos touchesB, binB]
      cases last : before.getLast? with
      | none => exact joined
      | some c =>
        obtain ⟨front, rfl⟩ := List.getLast?_eq_some_iff.mp last
        obtain ⟨binC, fitsC⟩ := okBefore.fits c (by simp)
        by_cases touchesC : c.stop = a.map
        · rw [append_assoc, append_assoc] at joined
          have twice := Inserted.merge (x := c) joined
            ((fitsC.stop_eq valid).symm.trans touchesC) rfl
          simpa [touchesC, PutScan.areas, binC, add_comm] using twice
        · simpa [touchesC, PutScan.areas] using joined
    · rw [if_neg touchesB]
      by_cases touchesA : b.stop = a.map
      · have last : b.span.stop = a.map := stopB.symm.trans touchesA
        have joined := (placedAfter touchesA).merge last rfl
        rw [if_pos touchesA]
        cases rest with
        | nil => simpa [PutScan.areas, binB] using joined
        | cons c rest =>
          obtain ⟨binJoin, fitsJoin⟩ := joined.ok.fits ⟨b.map, b.blkCount + a.blkCount, a.binNum⟩
            (by simp)
          by_cases touchesC :
              (BuddyArea.mk b.map (b.blkCount + a.blkCount) a.binNum).stop = c.map
          · have twice := joined.merge ((fitsJoin.stop_eq valid).symm.trans touchesC) rfl
            simpa [touchesC, PutScan.areas, binB] using twice
          · simpa [touchesC, PutScan.areas, binB] using joined
      · rw [if_neg touchesA]
        by_cases below : a.stop < b.map
        · rw [if_pos below]
          exact placedBefore (le_of_lt (stopA ▸ below))
        · rw [if_neg below]
          have passedB : b.span.Before a.span := by
            simp only [Span.Before, BuddyArea.span_first] at ordered ⊢
            omega
          have further := ih (before ++ [b]) (by simpa using ok)
            (fun c inRest => apart c (by simp [inRest])) ?_
          · simpa using further
          · exact forall_mem_append.mpr ⟨passed, forall_mem_singleton.mpr passedB⟩

end PutScan

end Xvisor.Buddy
