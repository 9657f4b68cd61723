import Xvisor.Buddy.PartialFree

/-!
# What the callers of the allocator rely on

Runs of all public operations keep the invariant as long as no range wraps around the address space
and no partial free runs over the end of its area.
-/

namespace Xvisor.Buddy

open Lib BuddyAllocator Rebalance Option

variable {config : BuddyConfig} {total : Nat → Nat} {ba ba' : BuddyAllocator}
  {a : BuddyArea} {rb : Rebalance BuddyArea}

/-! ## Runs of all public operations -/

inductive PublicCall where
  | plain (call : Call)
  | partialFree (addr size : Nat)

namespace PublicCall

def Words : PublicCall → Prop
  | plain (.alloc size) => size < 2 ^ 64
  | plain (.alignedAlloc order size) => order < 2 ^ 64 ∧ size < 2 ^ 64
  | plain (.free addr) => addr < 2 ^ 64
  | plain (.reserve addr size) => addr < 2 ^ 64 ∧ size < 2 ^ 64
  | partialFree addr size => addr < 2 ^ 64 ∧ size < 2 ^ 64

instance : (call : PublicCall) → Decidable call.Words
  | plain (.alloc size) => inferInstanceAs (Decidable (size < 2 ^ 64))
  | plain (.alignedAlloc order size) =>
    inferInstanceAs (Decidable (order < 2 ^ 64 ∧ size < 2 ^ 64))
  | plain (.free addr) => inferInstanceAs (Decidable (addr < 2 ^ 64))
  | plain (.reserve addr size) => inferInstanceAs (Decidable (addr < 2 ^ 64 ∧ size < 2 ^ 64))
  | partialFree addr size => inferInstanceAs (Decidable (addr < 2 ^ 64 ∧ size < 2 ^ 64))

def run (rb : Rebalance BuddyArea) (ba : BuddyAllocator) : PublicCall → Option BuddyAllocator
  | plain call => call.run rb ba
  | partialFree addr size => (buddyMemPartialFree rb ba addr size).map Prod.fst

end PublicCall

def publicSystem (rb : Rebalance BuddyArea) (start : BuddyAllocator) :
    System BuddyAllocator PublicCall where
  init ba := ba = start
  step ba call ba' := call.Words ∧ call.run rb ba = some ba'

/-- A partial free that passes the checks of the code frees something, and nothing beyond the
end of the area. -/
def PartInside (ba : BuddyAllocator) (addr size : Nat) : Prop :=
  ∀ a, buddyAllocFind ba addr = some a → ¬ refusesPart (a.lowerTo ba.config.minBin) addr size →
    0 < size ∧ addr + size ≤ a.span.stop

/-- The range of a reservation and its rounded end stay inside the address space. -/
def RangeFits (ba : BuddyAllocator) (addr size : Nat) : Prop :=
  addr + size < 2 ^ 64 ∧ ba.config.EndFits addr size

def PublicCall.Contained (ba : BuddyAllocator) : PublicCall → Prop
  | .plain (.reserve addr size) => RangeFits ba addr size
  | .plain (.alloc _) | .plain (.alignedAlloc _ _) | .plain (.free _) => True
  | .partialFree addr size => PartInside ba addr size

variable {addr size : Nat}

theorem buddyMemPartialFree_cases (rb : Rebalance BuddyArea) (holding : Holding config total ba [])
    (inside : PartInside ba addr size) :
    (∃ status, status ≠ .ok ∧ buddyMemPartialFree rb ba addr size = some (ba, status)) ∨
      ∃ a ba' freed, buddyAllocFind ba addr = some a ∧
        ¬ refusesPart (a.lowerTo config.minBin) addr size ∧ 0 < size ∧
        buddyMemPartialFree rb ba addr size = some (ba', .ok) ∧
        FreedPart config total ba a addr size ba' freed := by
  rw [PartInside, holding.sameConfig] at inside
  by_cases out : outside config addr
  · refine .inl ⟨.invalid, by simp, ?_⟩
    rw [buddyMemPartialFree, holding.sameConfig, if_pos out]
  cases found : buddyAllocFind ba addr with
  | none =>
    refine .inl ⟨.notAvailable, by simp, ?_⟩
    rw [buddyMemPartialFree, holding.sameConfig, if_neg out, found]
  | some a =>
    by_cases refused : refusesPart (a.lowerTo config.minBin) addr size
    · refine .inl ⟨.invalid, by simp, ?_⟩
      rw [buddyMemPartialFree, holding.sameConfig, if_neg out, found]
      exact if_pos refused
    · obtain ⟨pos, high⟩ := inside a found refused
      obtain ⟨ba', freed, result, part⟩ :=
        buddyMemPartialFree_freed rb holding out found refused pos high
      exact .inr ⟨a, ba', freed, rfl, refused, pos, result, part⟩

def runCalls (rb : Rebalance BuddyArea) (start : BuddyAllocator) (calls : List PublicCall) :
    Option BuddyAllocator :=
  System.replay (fun _ call => decide call.Words) (fun ba call => call.run rb ba) start calls

theorem runCalls_reachable {start : BuddyAllocator} {calls : List PublicCall}
    (replayed : runCalls rb start calls = some ba) : (publicSystem rb start).Reachable ba :=
  (System.Reachable.start rfl).replay_some _ _ calls
    (fun words result => ⟨of_decide_eq_true words, result⟩) replayed

theorem PublicCall.run_holding (rb : Rebalance BuddyArea) {call : PublicCall}
    (holding : Holding config total ba []) (words : call.Words) (contained : call.Contained ba) :
    ∃ ba', call.run rb ba = some ba' ∧ Holding config total ba' [] := by
  cases call with
  | plain call =>
    have inRange : call.InRange := by
      cases call with
      | alloc size => exact words
      | alignedAlloc order size => exact words
      | free addr => exact words
      | reserve addr size => exact contained.1
    have fits : call.Contained ba := by
      cases call with
      | reserve addr size => exact contained.2
      | _ => trivial
    exact Call.run_holding rb holding inRange fits
  | partialFree addr size =>
    rcases buddyMemPartialFree_cases rb holding contained with
      ⟨status, -, result⟩ | ⟨a, ba', freed, -, -, -, result, part⟩
    · exact ⟨ba, by rw [PublicCall.run, result]; rfl, holding⟩
    · exact ⟨ba', by rw [PublicCall.run, result]; rfl, part.holding⟩

/-! ## Alignment -/

def BuddyAllocator.CoveredFrom (ba : BuddyAllocator) (addr size : Nat) : Prop :=
  ∃ a ∈ ba.alloc.toList, a.map = addr ∧ addr + size ≤ a.span.stop

theorem AllocEnds.allocated {Aligned : Nat → Prop} {result : Option (BuddyAllocator × Status × Nat)}
    (ends : AllocEnds config total rb size Aligned result)
    (isOk : result = some (ba', .ok, addr)) : Aligned addr ∧ ba'.CoveredFrom addr size := by
  cases ends with
  | fails failed holding => exact absurd (congrArg (·.2.1) (some.inj isOk)) failed
  | adds holding covers aligned =>
    obtain ⟨ba₁, added, pair⟩ := map_eq_some_iff.mp isOk
    obtain ⟨rfl, -, rfl⟩ : ba₁ = ba' ∧ Status.ok = .ok ∧ _ = addr := by simpa using pair
    exact ⟨aligned, _, buddyAllocAdd_mem added, rfl, covers⟩

/-! ## Reservation -/

def Touches (config : BuddyConfig) (addr size point : Nat) : Prop :=
  ∃ q, addr ≤ q ∧ q < addr + size ∧ q / 2 ^ config.minBin = point / 2 ^ config.minBin

theorem covers_iff_touches (fits : config.Fits a) (low : a.map ≤ addr)
    (high : addr + size ≤ a.span.stop) (pos : 0 < size)
    (tight : addr < a.map + 2 ^ config.minBin ∧ a.span.stop < addr + size + 2 ^ config.minBin)
    (point : Nat) : a.span.covers point = true ↔ Touches config addr size point := by
  have block : 2 ^ config.minBin ∣ 2 ^ a.binNum := pow_dvd_pow 2 fits.binLow
  have first : 2 ^ config.minBin ∣ a.map := block.trans fits.aligned
  have stop : 2 ^ config.minBin ∣ a.span.stop :=
    dvd_add first (block.trans (dvd_mul_left _ _))
  rw [Span.covers_iff]
  exact mem_rounded_iff first stop low tight.1 (by omega) high tight.2

structure Reserved (ba : BuddyAllocator) (addr size : Nat) (ba' : BuddyAllocator) : Prop where
  inside : addr + size ≤ ba.config.memStart + ba.config.memSize
  wasFree : ∀ point, addr ≤ point → point < addr + size → ba.FreeAt point
  oneArea : ∃ a ∈ ba'.alloc.toList,
    ∀ point, addr ≤ point → point < addr + size → a.span.covers point = true
  others : ¬ reserveRunsOut ba addr size → ∀ point, ¬ Touches ba.config addr size point →
    (ba'.FreeAt point ↔ ba.FreeAt point) ∧ (ba'.AllocatedAt point ↔ ba.AllocatedAt point)

theorem ReserveEnds.reserved {result : Option (BuddyAllocator × Status)}
    (holding : Holding config total ba []) (pos : 0 < size)
    (ends : ReserveEnds config total rb ba addr size result)
    (isOk : result = some (ba', .ok)) : Reserved ba addr size ba' := by
  cases ends with
  | fails failed holding => exact absurd (congrArg (·.2) (some.inj isOk)) failed
  | @adds ba₁ a held sameTree low high tight =>
    obtain ⟨ba₂, added, pair⟩ := map_eq_some_iff.mp isOk
    obtain rfl : ba₂ = ba' := (Prod.mk.inj pair).1
    obtain ⟨ba₃, added', holding'⟩ := buddyAllocAdd_holding rb held
    obtain rfl : ba₃ = ba₂ := some.inj (added'.symm.trans added)
    have fits := held.heldFits a (by simp)
    have tree : ∀ point, coverage (spans ba₃.alloc.toList) point =
        a.span.weight point + coverage (spans ba.alloc.toList) point := by
      intro point
      rw [buddyAllocAdd_coverage added, sameTree]
    have inArea : ∀ point, addr ≤ point → point < addr + size → a.span.covers point = true := by
      intro point above below
      exact (Span.covers_iff _ _).mpr ⟨low.trans above, by omega⟩
    refine ⟨?_, ?_, ⟨a, buddyAllocAdd_mem added, inArea⟩, ?_⟩
    · rw [holding.sameConfig]
      exact high.trans fits.high
    · intro point above below
      have weight : 0 < a.span.weight point := Span.weight_pos.mpr (inArea point above below)
      have managed := (holding'.bytes point).2
      have single := holding'.single point
      have covered := holding'.coverage_areas point
      rw [areas, spans_append, coverage_append] at covered
      rw [allocatedAt_iff] at managed
      rw [(holding.bytes point).1, allocatedAt_iff]
      have here := tree point
      omega
    · intro enough point untouched
      rw [holding.sameConfig] at untouched
      have apart := (covers_iff_touches fits low high pos (tight enough) point).not.mpr
        untouched
      have weight : a.span.weight point = 0 := by
        have := Span.weight_pos.not.mpr apart
        omega
      have allocated : ba₃.AllocatedAt point ↔ ba.AllocatedAt point := by
        rw [allocatedAt_iff, allocatedAt_iff, tree point, weight, zero_add]
      rw [(holding.bytes point).1, (holding'.bytes point).1, allocated]
      exact ⟨Iff.rfl, Iff.rfl⟩

/-! ## Partial free -/

structure PartlyFreed (ba : BuddyAllocator) (a : BuddyArea) (addr size : Nat)
    (ba' : BuddyAllocator) : Prop where
  allocated : ∀ point, ba'.AllocatedAt point ↔
    ba.AllocatedAt point ∧ ¬ (a.span.covers point = true ∧ Touches ba.config addr size point)
  free : ∀ point, ba'.FreeAt point ↔
    ba.FreeAt point ∨ (a.span.covers point = true ∧ Touches ba.config addr size point)
  nonempty : ∀ b ∈ ba'.areas, 0 < b.blkCount
  apart : ∀ point, ¬ (ba'.FreeAt point ∧ ba'.AllocatedAt point)
  inside : ∀ b ∈ ba'.areas, ba.config.memStart ≤ b.map ∧
    b.span.stop ≤ ba.config.memStart + ba.config.memSize

/-- A partial free fails and changes nothing, or it frees the blocks of the area around the
address that the range touches. -/
def PartialFreeSafe (rb : Rebalance BuddyArea) (ba : BuddyAllocator) (addr size : Nat) : Prop :=
  ∃ ba' status, buddyMemPartialFree rb ba addr size = some (ba', status) ∧
    (status ≠ .ok → ba' = ba) ∧
    (status = .ok → ∃ a, buddyAllocFind ba addr = some a ∧ PartlyFreed ba a addr size ba')

theorem FreedPart.partlyFreed {freed : BuddyArea} (holding : Holding config total ba [])
    (pos : 0 < size) (enough : residueCount (a.lowerTo config.minBin) addr size ≤ ba.hkFreeCount)
    (part : FreedPart config total ba a addr size ba' freed) : PartlyFreed ba a addr size ba' := by
  have touches := covers_iff_touches part.fits part.low part.high pos (part.tight enough)
  have lost : ∀ point, (a.span.covers point = true ∧ Touches ba.config addr size point) ↔
      0 < freed.span.weight point := by
    intro point
    rw [Span.weight_pos, holding.sameConfig, ← touches point]
    refine ⟨And.right, fun covered => ⟨?_, covered⟩⟩
    rw [Span.covers_iff] at covered ⊢
    have inside := part.inside
    simp only [BuddyArea.span_first] at covered ⊢
    omega
  have allocated : ∀ point, ba'.AllocatedAt point ↔
      ba.AllocatedAt point ∧ ¬ 0 < freed.span.weight point := by
    intro point
    have tree := part.tree point
    have managed := holding.coverage_areas point
    have single := holding.single point
    rw [areas, spans_append, coverage_append] at managed
    rw [allocatedAt_iff, allocatedAt_iff]
    omega
  have managed : ∀ point, 0 < freed.span.weight point → ba.AllocatedAt point := by
    intro point covered
    rw [allocatedAt_iff, ← part.tree point]
    omega
  refine ⟨?_, ?_, ?_, ?_, ?_⟩
  · intro point
    rw [lost, allocated]
  · intro point
    rw [lost, (part.holding.bytes point).1, (holding.bytes point).1, allocated]
    have inTotal := (holding.bytes point).2
    tauto
  · exact fun b mem => (part.holding.fits_areas mem).nonempty
  · intro point both
    exact ((part.holding.bytes point).1.mp both.1).2 both.2
  · intro b mem
    have fits := part.holding.fits_areas mem
    rw [holding.sameConfig]
    exact ⟨fits.low, fits.high⟩

/-- The range is contained, and the pool has an object for every residue. -/
def PartFits (ba : BuddyAllocator) (addr size : Nat) : Prop :=
  ∀ a, buddyAllocFind ba addr = some a → ¬ refusesPart (a.lowerTo ba.config.minBin) addr size →
    0 < size ∧ addr + size ≤ a.span.stop ∧
      residueCount (a.lowerTo ba.config.minBin) addr size ≤ ba.hkFreeCount

/-! ## Runs of contained calls -/

section Runs

variable (rb : Rebalance BuddyArea) (hkAreaSize memStart memSize minBin maxBin : Nat)
  {start ba : BuddyAllocator} (startBound : memStart < 2 ^ 64) (sizeBound : memSize < 2 ^ 64)
  (aligned : 2 ^ maxBin ∣ memStart)
  (initialised : buddyAllocatorInit hkAreaSize memStart memSize minBin maxBin = .ok start)
  (reached : ((publicSystem rb start).restrict fun ba call => call.Contained ba).Reachable ba)

section

include startBound sizeBound aligned initialised reached

theorem publicRun_holding : ∃ total, Holding start.config total ba [] := by
  obtain ⟨total, holding⟩ := buddyAllocatorInit_holding startBound sizeBound aligned initialised
  refine ⟨total, reached.invariant (fun ba => Holding start.config total ba []) ?_ ?_⟩
  · rintro ba rfl
    exact holding
  · rintro ba call ba' ih ⟨contained, words, result⟩
    obtain ⟨ba₁, result₁, kept⟩ := PublicCall.run_holding rb ih words contained
    obtain rfl : ba₁ = ba' := some.inj (result₁.symm.trans result)
    exact kept

/-- In every run of contained calls, the addresses handed out are aligned and covered. -/
theorem buddyAlloc_aligned (size addr : Nat) (ba' : BuddyAllocator) (bound : size < 2 ^ 64) :
    (buddyMemAlloc rb ba size = some (ba', .ok, addr) →
      2 ^ buddyEstimateBin ba.config size ∣ addr ∧ ba'.CoveredFrom addr size) ∧
    ∀ order, buddyMemAlignedAlloc rb ba order size = some (ba', .ok, addr) →
      2 ^ buddyEstimateBin ba.config size ∣ addr ∧ 2 ^ order ∣ addr ∧
        ba'.CoveredFrom addr size := by
  obtain ⟨total, holding⟩ :=
    publicRun_holding _ _ _ _ _ _ startBound sizeBound aligned initialised reached
  rw [holding.sameConfig]
  refine ⟨?_, ?_⟩
  · intro isOk
    exact (buddyMemAlloc_ends rb holding bound).allocated isOk
  · intro order isOk
    obtain ⟨⟨estimate, isAligned⟩, covered⟩ :=
      (buddyMemAlignedAlloc_ends rb order holding bound).allocated isOk
    exact ⟨estimate, isAligned, covered⟩

end

theorem buddyAlloc_aligned_oneMegabyte :
    ∃ start ba ba', buddyAllocatorInit 4096 0x100000 0x100000 12 20 = .ok start ∧
      (PublicCall.plain (.alloc 5000)).run (plain _) start = some ba ∧
      buddyMemAlignedAlloc (plain _) ba 14 5000 = some (ba', .ok, 0x104000) ∧
      2 ^ 14 ∣ 0x104000 ∧ ba'.CoveredFrom 0x104000 5000 := by
  have words : (PublicCall.plain (.alloc 5000)).Words := (by decide : 5000 < 2 ^ 64)
  have contained : ∀ ba, (PublicCall.plain (.alloc 5000)).Contained ba := fun _ => trivial
  refine ⟨_, _, _, rfl, rfl, rfl, ?_⟩
  exact ((buddyAlloc_aligned (plain _) 4096 0x100000 0x100000 12 20 (by decide)
    (by decide) (by decide) rfl (.next (.start rfl) ⟨contained _, words, rfl⟩) 5000 0x104000 _
    (by decide)).2 14 rfl).2

/-- After a reservation whose wrapped end passed the containment test, freeing it leaves an area
of `2 ^ 60` blocks on the last bin. Downgrading it for the largest request counts its blocks
as zero. -/
theorem buddyMemAlloc_empty_area :
    ∃ start ba ba', buddyAllocatorInit 4096 0 32 0 4 = .ok start ∧
      (publicSystem (plain _) start).Reachable ba ∧
      buddyMemAlloc (plain _) ba (2 ^ 64 - 1) = some (ba', .ok, 16) ∧
      ¬ ba'.CoveredFrom 16 (2 ^ 64 - 1) := by
  obtain ⟨start, initialised, computed⟩ :
      ∃ start, buddyAllocatorInit 4096 0 32 0 4 = .ok start ∧ ((runCalls (plain _) start
            [.plain (.reserve 16 (2 ^ 64 - 17)), .plain (.free 16)]).bind
          fun ba => buddyMemAlloc (plain _) ba (2 ^ 64 - 1)).map
          (fun result => (result.1.alloc.toList, result.2)) = some ([⟨16, 0, 0⟩], .ok, 16) :=
    ⟨_, rfl, by decide +kernel⟩
  obtain ⟨⟨ba', status, addr⟩, result, pair⟩ := map_eq_some_iff.mp computed
  obtain ⟨ba, replayed, allocated⟩ := bind_eq_some_iff.mp result
  obtain ⟨tree, rfl, rfl⟩ : ba'.alloc.toList = [⟨16, 0, 0⟩] ∧ status = .ok ∧ addr = 16 := by
    simpa using pair
  refine ⟨start, ba, ba', initialised, runCalls_reachable replayed, allocated, ?_⟩
  rw [CoveredFrom, tree]
  decide

section

include startBound sizeBound aligned initialised reached

/-- In every run of contained calls, a reservation whose range stays inside the address space
takes what it was asked for. -/
theorem buddyMemReserve_reserves (addr size : Nat) (ba' : BuddyAllocator) (positive : 0 < size)
    (fits : RangeFits ba addr size)
    (isOk : buddyMemReserve rb ba addr size = some (ba', .ok)) : Reserved ba addr size ba' := by
  obtain ⟨total, holding⟩ :=
    publicRun_holding _ _ _ _ _ _ startBound sizeBound aligned initialised reached
  obtain ⟨noWrap, endFits⟩ := fits
  rw [holding.sameConfig] at endFits
  exact (buddyMemReserve_ends rb holding noWrap endFits).reserved holding positive isOk

end

theorem buddyMemReserve_reserves_oneMegabyte :
    ∃ start ba', buddyAllocatorInit 4096 0x100000 0x100000 12 20 = .ok start ∧
      buddyMemReserve (plain _) start 0x123456 5000 = some (ba', .ok) ∧
      Reserved start 0x123456 5000 ba' := by
  refine ⟨_, _, rfl, rfl, ?_⟩
  exact buddyMemReserve_reserves (plain _) 4096 0x100000 0x100000 12 20 (by decide)
    (by decide) (by decide) rfl (.start rfl) 0x123456 5000 _ (by decide)
    ⟨by decide, .inl (by decide)⟩ rfl

/-- A size that wraps around the address space passes the containment test. -/
theorem buddyMemReserve_wraps :
    ∃ start ba', buddyAllocatorInit 4096 0x100000 0x100000 12 12 = .ok start ∧
      (publicSystem (plain _) start).Reachable start ∧
      buddyMemReserve (plain _) start 0x102000 (2 ^ 64 - 0x1000) = some (ba', .ok) ∧
      ¬ Reserved start 0x102000 (2 ^ 64 - 0x1000) ba' := by
  refine ⟨_, _, rfl, .start rfl, rfl, ?_⟩
  intro reserved
  exact absurd reserved.inside (by decide)

section

include startBound sizeBound aligned initialised reached

/-- In every run of contained calls, a partial free that fits is safe. -/
theorem buddyMemPartialFree_safe (addr size : Nat) (fits : PartFits ba addr size) :
    PartialFreeSafe rb ba addr size := by
  obtain ⟨total, holding⟩ :=
    publicRun_holding _ _ _ _ _ _ startBound sizeBound aligned initialised reached
  have contained : PartInside ba addr size := by
    intro a found accepted
    obtain ⟨positive, high, -⟩ := fits a found accepted
    exact ⟨positive, high⟩
  rcases buddyMemPartialFree_cases rb holding contained with
    ⟨status, failed, result⟩ | ⟨a, ba', freed, found, accepted, positive, result, part⟩
  · exact ⟨ba, status, result, fun _ => rfl, fun isOk => absurd isOk failed⟩
  · refine ⟨ba', .ok, result, fun failed => absurd rfl failed, fun _ => ⟨a, found, ?_⟩⟩
    rw [← holding.sameConfig] at accepted
    have enough := (fits a found accepted).2.2
    rw [holding.sameConfig] at enough
    exact part.partlyFreed holding positive enough

end

theorem buddyMemPartialFree_safe_oneMegabyte :
    ∃ start ba ba', buddyAllocatorInit 4096 0x100000 0x100000 12 20 = .ok start ∧
      (PublicCall.plain (.alloc 0x3000)).run (plain _) start = some ba ∧
      buddyMemPartialFree (plain _) ba 0x101000 0x1000 = some (ba', .ok) ∧
      PartialFreeSafe (plain _) ba 0x101000 0x1000 := by
  obtain ⟨start, ba, initialised, ran, found, pool, minBin, computed⟩ :
      ∃ start ba, buddyAllocatorInit 4096 0x100000 0x100000 12 20 = .ok start ∧
        (PublicCall.plain (.alloc 0x3000)).run (plain _) start = some ba ∧
        buddyAllocFind ba 0x101000 = some ⟨0x100000, 3, 12⟩ ∧ ba.hkFreeCount = 56 ∧
        ba.config.minBin = 12 ∧
        (buddyMemPartialFree (plain _) ba 0x101000 0x1000).map (·.2) = some .ok :=
    ⟨_, _, rfl, rfl, by decide +kernel, by decide +kernel, rfl, by decide +kernel⟩
  obtain ⟨⟨ba', status⟩, freed, rfl⟩ := map_eq_some_iff.mp computed
  have words : (PublicCall.plain (.alloc 0x3000)).Words := (by decide : 0x3000 < 2 ^ 64)
  have contained : (PublicCall.plain (.alloc 0x3000)).Contained start := trivial
  refine ⟨start, ba, ba', initialised, ran, freed, ?_⟩
  refine buddyMemPartialFree_safe (plain _) 4096 0x100000 0x100000 12 20 (by decide)
    (by decide) (by decide) initialised (.next (.start rfl) ⟨contained, words, ran⟩) _ _ ?_
  intro a isFound _
  obtain rfl : (⟨0x100000, 3, 12⟩ : BuddyArea) = a := some.inj (found.symm.trans isFound)
  rw [pool, minBin]
  decide

/-- Freeing zero bytes of an allocated area puts an area without blocks on the bins. -/
theorem buddyMemPartialFree_empty_area :
    ∃ start ba, buddyAllocatorInit 4096 0x100000 0x100000 12 20 = .ok start ∧
      (publicSystem (plain _) start).Reachable ba ∧
      ¬ PartialFreeSafe (plain _) ba 0x100000 0 := by
  obtain ⟨start, initialised, computed⟩ :
      ∃ start, buddyAllocatorInit 4096 0x100000 0x100000 12 20 = .ok start ∧
        ((runCalls (plain _) start [.plain (.alloc 0x2000)]).bind
          fun ba => buddyMemPartialFree (plain _) ba 0x100000 0).map
          (fun result => (result.1.bins 12, result.2)) = some ([⟨0x100000, 0, 12⟩], .ok) :=
    ⟨_, rfl, by decide +kernel⟩
  obtain ⟨⟨ba', status⟩, result, pair⟩ := map_eq_some_iff.mp computed
  obtain ⟨ba, replayed, freed⟩ := bind_eq_some_iff.mp result
  obtain ⟨bin, rfl⟩ : ba'.bins 12 = [⟨0x100000, 0, 12⟩] ∧ status = .ok := by simpa using pair
  refine ⟨start, ba, initialised, runCalls_reachable replayed, ?_⟩
  rintro ⟨ba₁, status, result₁, -, onOk⟩
  obtain ⟨rfl, rfl⟩ : ba' = ba₁ ∧ .ok = status := by simpa using freed.symm.trans result₁
  obtain ⟨a, -, part⟩ := onOk rfl
  have onBin : (⟨0x100000, 0, 12⟩ : BuddyArea) ∈ ba'.areas := by
    refine List.mem_append_left _ (List.mem_flatMap.mpr ⟨12, by decide, ?_⟩)
    rw [bin]
    exact List.mem_singleton_self _
  exact absurd (part.nonempty _ onBin) (by decide)

end Runs

end Xvisor.Buddy
