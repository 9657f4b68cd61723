import Xvisor.Guest.RegionAdd
import Xvisor.Mmu.Runs

/-!
# Stage-2 mapping of guest memory

A guest page fault is answered by mapping the largest block around the fault
address that one mapping of the guest covers (`cpu_vcpu_stage2_map`). The
choice looks at guest addresses and sizes only.
-/

namespace Xvisor.Guest

open Lib Mmu Aspace Nat

/-- `arch_mmu_pgflags_set` for stage 2. -/
def stage2Flags (flags : RegionFlags) : PgFlags where
  rsw := 0
  dirty := true
  accessed := true
  global := false
  user := true
  execute := true
  write := !flags.any .virtual && !flags.any .readonly
  read := !flags.any .virtual
  valid := true

structure Block where
  ia : Nat
  oa : Nat
  sz : Nat
  regFlags : RegionFlags
  deriving DecidableEq, Repr

def Block.page (block : Block) : Page :=
  ⟨block.ia, block.oa, block.sz, stage2Flags block.regFlags⟩

namespace Aspace

variable (aspace : Aspace)

def blockAt (fuel fault level : Nat) : Lookup PhysicalMapping :=
  aspace.physicalMap fuel (mapMask level fault) (blockSize level)

def blockOf (fault level : Nat) (mapping : PhysicalMapping) : Block :=
  ⟨mapMask level fault, mapping.hphysAddr, blockSize level, mapping.regFlags⟩

/-- Take the block of a level if one mapping covers it, and keep the given block otherwise. -/
def enlarge (fuel fault level : Nat) (block : Block) : Lookup Block :=
  match aspace.blockAt fuel fault level with
  | .found mapping =>
    .found (if blockSize level ≤ mapping.physSize then blockOf fault level mapping else block)
  | .missing => .found block
  | .hangs => .hangs

inductive Choice where
  | block (block : Block)
  | efail
  | enospc
  | hangs
  deriving DecidableEq

/-- The first part of `cpu_vcpu_stage2_map`: only RAM and ROM get larger blocks. -/
def chooseBlock (fuel fault : Nat) : Choice :=
  match aspace.blockAt fuel fault 0 with
  | .missing => .efail
  | .hangs => .hangs
  | .found mapping =>
    if mapping.physSize < blockSize 0 then .enospc
    else if mapping.regFlags.any (.isram ||| .isrom) then
      match aspace.enlarge fuel fault 1 (blockOf fault 0 mapping) with
      | .found block =>
        match aspace.enlarge fuel fault 2 block with
        | .found block => .block block
        | _ => .hangs
      | _ => .hangs
    else .block (blockOf fault 0 mapping)

end Aspace

inductive Stage2Result where
  | installed
  | present
  | efail
  | enospc
  | hangs
  deriving DecidableEq, Repr

/-- `cpu_vcpu_stage2_map`. When the page cannot be mapped, another VCPU may have mapped the
address already. -/
def stage2Map {config : Config} (aspace : Aspace) (s : MmuState config) (fuel fault : Nat) :
    MmuState config × Stage2Result :=
  match aspace.chooseBlock fuel fault with
  | .efail => (s, .efail)
  | .enospc => (s, .enospc)
  | .hangs => (s, .hangs)
  | .block block =>
    match s.mapPage block.page with
    | (s, .ok) => (s, .installed)
    | (s, _) =>
      match s.getPage fault with
      | none => (s, .efail)
      | some _ => (s, .present)

/-! ## Which block is mapped -/

namespace Aspace

def granted (aspace : Aspace) (fuel fault level : Nat) : Option PhysicalMapping :=
  match aspace.blockAt fuel fault level with
  | .found mapping => if blockSize level ≤ mapping.physSize then some mapping else none
  | _ => none

/-- The largest block around an address that one mapping covers; devices get pages only. -/
def largestBlock (aspace : Aspace) (fuel fault : Nat) : Option (Nat × PhysicalMapping) :=
  (aspace.granted fuel fault 0).map fun mapping =>
    if mapping.regFlags.any (.isram ||| .isrom) then
      match aspace.granted fuel fault 2, aspace.granted fuel fault 1 with
      | some large, _ => (2, large)
      | none, some middle => (1, middle)
      | none, none => (0, mapping)
    else (0, mapping)

variable {aspace : Aspace} {fuel fault level : Nat}

theorem enlarge_found {block block' : Block}
    (result : aspace.enlarge fuel fault level block = .found block') :
    block' = match aspace.granted fuel fault level with
      | some mapping => blockOf fault level mapping
      | none => block := by
  unfold enlarge at result
  unfold granted
  split at result
  · next isFound =>
    cases result
    rw [isFound]
    dsimp only
    split <;> rfl
  · next isMissing =>
    cases result
    rw [isMissing]
  · cases result

theorem chooseBlock_largest {block : Block}
    (chosen : aspace.chooseBlock fuel fault = .block block) :
    ∃ level mapping, aspace.largestBlock fuel fault = some (level, mapping) ∧
      block = blockOf fault level mapping ∧ level ≤ 2 := by
  unfold chooseBlock at chosen
  split at chosen
  · cases chosen
  · cases chosen
  · next mapping isFound =>
    split at chosen
    · cases chosen
    · next enough =>
      have smallest : aspace.granted fuel fault 0 = some mapping := by
        rw [granted, isFound]
        exact if_pos (Nat.le_of_not_lt enough)
      split at chosen
      · next isRam =>
        split at chosen
        · next middle isMiddle =>
          split at chosen
          · next large isLarge =>
            cases chosen
            have middleBlock := enlarge_found isMiddle
            have largeBlock := enlarge_found isLarge
            rw [largestBlock, smallest, Option.map_some, if_pos isRam]
            cases two : aspace.granted fuel fault 2 with
            | some mapping₂ =>
              rw [two] at largeBlock
              exact ⟨2, mapping₂, rfl, largeBlock, le_refl 2⟩
            | none =>
              rw [two] at largeBlock
              cases one : aspace.granted fuel fault 1 with
              | some mapping₁ =>
                rw [one] at middleBlock
                exact ⟨1, mapping₁, rfl, largeBlock.trans middleBlock, by omega⟩
              | none =>
                rw [one] at middleBlock
                exact ⟨0, mapping, rfl, largeBlock.trans middleBlock, by omega⟩
          · cases chosen
        · cases chosen
      · next notRam =>
        cases chosen
        refine ⟨0, mapping, ?_, rfl, by omega⟩
        rw [largestBlock, smallest, Option.map_some, if_neg notRam]

variable {mapping : PhysicalMapping}

theorem largestBlock_mapping (largest : aspace.largestBlock fuel fault = some (level, mapping)) :
    aspace.physicalMap fuel (mapMask level fault) (blockSize level) = .found mapping ∧
      blockSize level ≤ mapping.physSize := by
  have grantedMap : ∀ {level mapping}, aspace.granted fuel fault level = some mapping →
      aspace.physicalMap fuel (mapMask level fault) (blockSize level) = .found mapping ∧
        blockSize level ≤ mapping.physSize := by
    intro level mapping isGranted
    unfold granted blockAt at isGranted
    split at isGranted
    · next isFound =>
      split at isGranted
      · next enough =>
        cases isGranted
        exact ⟨isFound, enough⟩
      · cases isGranted
    · cases isGranted
  unfold largestBlock at largest
  obtain ⟨smallest, isSmallest, isLargest⟩ := Option.map_eq_some_iff.mp largest
  split at isLargest
  · split at isLargest
    · next isLarge =>
      cases isLargest
      exact grantedMap isLarge
    · next isMiddle =>
      cases isLargest
      exact grantedMap isMiddle
    · cases isLargest
      exact grantedMap isSmallest
  · cases isLargest
    exact grantedMap isSmallest

/-- Along a block the guest address space gives consecutive host addresses and one kind of
access rights. -/
def Linear (aspace : Aspace) (base size : Nat) (mapping : PhysicalMapping) : Prop :=
  ∀ i < size, ∃ fuel m, aspace.physicalMap fuel (base + i) 1 = .found m ∧
    m.hphysAddr = mapping.hphysAddr + i ∧
    stage2Flags m.regFlags = stage2Flags mapping.regFlags

/-- The host address of the largest block is aligned to the block and fits into a page table
entry, and the guest address space is linear along the block. -/
def BlockFits (aspace : Aspace) (fuel fault : Nat) : Prop :=
  ∃ level mapping, aspace.largestBlock fuel fault = some (level, mapping) ∧
    blockSize level ∣ mapping.hphysAddr ∧ mapping.hphysAddr < 2 ^ 56 ∧
    aspace.Linear (mapMask level fault) (blockSize level) mapping

theorem WellFormed.linear {base size available : Nat} {reg : Region}
    (wellFormed : aspace.WellFormed)
    (found : aspace.physicalMap fuel base available = .found mapping)
    (enough : size ≤ mapping.physSize) (noWrap : mapping.hphysAddr + size ≤ 2 ^ 64)
    (isReg : aspace.descend .memory base = some reg) (notAlias : ¬ reg.isAlias) :
    aspace.Linear base size mapping := by
  obtain ⟨mem, contains, memory⟩ := descend_some isReg
  have mapped := wellFormed.mapped reg mem
  have mapsTo : mapping.hphysAddr = (reg.findMapping base).1 ∧
      mapping.physSize ≤ (reg.findMapping base).2 ∧ mapping.regFlags = reg.flags := by
    rw [physicalMap, locate_eq, isReg] at found
    simp only [follow_of_not_alias notAlias] at found
    cases found
    refine ⟨rfl, ?_, rfl⟩
    dsimp only
    split <;> omega
  intro i below
  have inMapping : i < (reg.findMapping base).2 := by omega
  obtain ⟨inside, linear⟩ := Region.findMapping_linear mapped contains inMapping
  have here := wellFormed.descend_of_contains mem inside memory
  have located : aspace.locate 0 (base + i) = .found (reg, base + i) := by
    rw [locate_eq, here]
    exact follow_of_not_alias notAlias
  refine ⟨0, _, by rw [physicalMap, located], ?_, ?_⟩
  · rw [linear, mapsTo.1, Word.add_of_lt (by omega)]
  · rw [mapsTo.2.2]

theorem WellFormed.blockFits {reg : Region} (wellFormed : aspace.WellFormed)
    (largest : aspace.largestBlock fuel fault = some (level, mapping)) (small : level ≤ 2)
    (aligned : blockSize level ∣ mapping.hphysAddr) (fits : mapping.hphysAddr < 2 ^ 56)
    (isReg : aspace.descend .memory (mapMask level fault) = some reg)
    (notAlias : ¬ reg.isAlias) : aspace.BlockFits fuel fault := by
  obtain ⟨found, enough⟩ := largestBlock_mapping largest
  have size : blockSize level ≤ 2 ^ 30 := by
    obtain rfl | rfl | rfl : level = 0 ∨ level = 1 ∨ level = 2 := by omega
    all_goals decide
  exact ⟨level, mapping, largest, aligned, fits,
    wellFormed.linear found enough (by omega) isReg notAlias⟩

end Aspace

/-! ## The mapping that was installed -/

section Installed

variable {config : Config}

/-- The page table and the guest address space agree on an address: same host address, and the
access rights of its region. -/
def Agrees (aspace : Aspace) (s : MmuState config) (gphys : Nat) : Prop :=
  ∃ page fuel mapping, s.getPage gphys = some page ∧
    aspace.physicalMap fuel gphys 1 = .found mapping ∧
    page.oa + (gphys - page.ia) = mapping.hphysAddr ∧
    page.flags = stage2Flags mapping.regFlags

theorem stage2Flags_leaf (flags : RegionFlags) : (stage2Flags flags).leaf := by
  simp [stage2Flags, PgFlags.leaf]

variable {level : Nat}

theorem blockSize_dvd_span (le : blockSize level ≤ blockSize config.start) :
    blockSize level ∣ config.span config.start := by
  have below : level ≤ config.start := by
    by_contra above
    exact absurd (blockSize_lt (Nat.lt_of_not_le above)) (Nat.not_lt.mpr le)
  exact (blockSize_dvd below).trans (dvd_mul_right _ _)

/-- The addresses of the largest block translate linearly, from the part of the host address that
the entry can hold. -/
theorem getPage_installed {s s' : MmuState config} {aspace : Aspace} {fuel fault : Nat}
    (refines : s.Refines) (result : stage2Map aspace s fuel fault = (s', .installed)) :
    ∃ level mapping, aspace.largestBlock fuel fault = some (level, mapping) ∧ level ≤ 2 ∧
      ∀ gphys, gphys / blockSize level = fault / blockSize level →
        s'.getPage gphys = some ⟨mapMask level fault, mapMask level mapping.hphysAddr % 2 ^ 56,
          blockSize level, stage2Flags mapping.regFlags⟩ := by
  unfold stage2Map at result
  split at result
  · cases result
  · cases result
  · cases result
  · next block chosen =>
    obtain ⟨level, mapping, largest, rfl, small⟩ := chooseBlock_largest chosen
    refine ⟨level, mapping, largest, small, ?_⟩
    split at result
    · next mapped =>
      cases result
      intro gphys same
      have done := congrArg Prod.snd mapped
      have size := (Pgtbl.mapPage_fits done).2
      have base : mapMask level fault / blockSize level = fault / blockSize level :=
        Nat.mul_div_cancel _ (blockSize_pos level)
      have translated := refines.getPage_mapPage_ok (stage2Flags_leaf mapping.regFlags) done gphys
      rw [mapped, if_pos (.of_div_eq (blockSize_dvd_span size) (same.trans base.symm))] at translated
      rw [translated]
      simp only [Page.stored, Block.page, blockOf, same]
      rfl
    · split at result
      · cases result
      · cases result

theorem blockSize_dvd_ppn (small : level ≤ 2) : blockSize level ∣ 2 ^ 56 := by
  obtain rfl | rfl | rfl : level = 0 ∨ level = 1 ∨ level = 2 := by omega
  all_goals decide

theorem stored_address_iff {hphys : Nat} (small : level ≤ 2) :
    mapMask level hphys % 2 ^ 56 = hphys ↔ blockSize level ∣ hphys ∧ hphys < 2 ^ 56 := by
  constructor
  · intro kept
    constructor
    · rw [← kept]
      exact (dvd_mod_iff (blockSize_dvd_ppn small)).mpr (dvd_mul_left _ _)
    · rw [← kept]
      exact mod_lt _ (by decide)
  · rintro ⟨aligned, fits⟩
    rw [mapMask, Nat.div_mul_cancel aligned, Nat.mod_eq_of_lt fits]

end Installed

/-! ## Runs -/

structure GuestState (config : Config) where
  aspace : Aspace
  mmu : MmuState config

inductive GuestCall where
  | regionAdd (call : AddCall)
  | stage2Map (fuel fault : Nat)
  | others (alloc : Alloc)

/-- A guest is built by `region_add` and its page table is filled by `cpu_vcpu_stage2_map` only.
Between the calls the allocator serves other trees. -/
def guestSystem (rb : Rebalance Region) (config : Config) :
    System (GuestState config) GuestCall where
  init s := s.aspace = .empty ∧ (mmuSystem config).init s.mmu
  step s call s' :=
    match call with
    | .regionAdd call => (aspaceSystem rb).step s.aspace call s'.aspace ∧ s'.mmu = s.mmu
    | .stage2Map fuel fault => s' = { s with mmu := (stage2Map s.aspace s.mmu fuel fault).1 }
    | .others alloc => AllocOk config alloc s.mmu.root.descendants ∧
        s' = { s with mmu := { s.mmu with alloc := alloc } }

section Runs

variable {rb : Rebalance Region} {config : Config}

theorem refines_stage2Map {s : MmuState config} {aspace : Aspace} {fuel fault : Nat}
    (refines : s.Refines) : (stage2Map aspace s fuel fault).1.Refines := by
  unfold stage2Map
  split
  · exact refines
  · exact refines
  · exact refines
  · next block chosen =>
    have kept : (s.mapPage block.page).1.Refines :=
      refines.mapPage (stage2Flags_leaf block.regFlags)
    split
    · next mapped =>
      rw [mapped] at kept
      exact kept
    · next failed mapped =>
      rw [mapped] at kept
      split
      · exact kept
      · exact kept

theorem guestSystem_refines {s : GuestState config}
    (reached : (guestSystem rb config).Reachable s) : s.mmu.Refines := by
  apply reached.invariant fun s => s.mmu.Refines
  · rintro s ⟨_, initial⟩
    exact mmuSystem_refines (.start initial)
  · intro s call s' refines taken
    cases call with
    | regionAdd call =>
      rw [taken.2]
      exact refines
    | stage2Map fuel fault =>
      cases taken
      exact refines_stage2Map refines
    | others alloc =>
      obtain ⟨allocOk, rfl⟩ := taken
      exact ⟨refines.sound, allocOk, refines.lookup⟩

/-- In every run, the page table and the guest address space agree along an installed block
exactly if the host memory of the block fits: its address is aligned to the block, has at most
56 bits, and the guest address space continues linearly along the block. -/
theorem stage2Map_agrees_iff {s : GuestState config}
    (reached : (guestSystem rb config).Reachable s) {fuel fault : Nat} {mmu : MmuState config}
    (result : stage2Map s.aspace s.mmu fuel fault = (mmu, .installed)) :
    (∃ page, mmu.getPage fault = some page ∧
      ∀ gphys, page.ia ≤ gphys → gphys < page.ia + page.sz → Agrees s.aspace mmu gphys) ↔
    s.aspace.BlockFits fuel fault := by
  obtain ⟨level, mapping, largest, small, translated⟩ :=
    getPage_installed (guestSystem_refines reached) result
  obtain ⟨atBase, _⟩ := largestBlock_mapping largest
  have inBlock : ∀ i < blockSize level,
      (mapMask level fault + i) / blockSize level = fault / blockSize level := by
    intro i below
    rw [mapMask, mul_comm, mul_add_div (blockSize_pos level), div_eq_of_lt below,
      add_zero]
  constructor
  · rintro ⟨page, found, agrees⟩
    rw [translated fault rfl] at found
    cases found
    have addresses : ∀ i < blockSize level, ∃ fuel m,
        s.aspace.physicalMap fuel (mapMask level fault + i) 1 = .found m ∧
        mapMask level mapping.hphysAddr % 2 ^ 56 + i = m.hphysAddr ∧
        stage2Flags mapping.regFlags = stage2Flags m.regFlags := by
      intro i below
      obtain ⟨page, fuel', m, found, located, sameAddress, sameFlags⟩ :=
        agrees (mapMask level fault + i) (Nat.le_add_right _ _) (Nat.add_lt_add_left below _)
      rw [translated _ (inBlock i below)] at found
      cases found
      rw [Nat.add_sub_cancel_left] at sameAddress
      exact ⟨fuel', m, located, sameAddress, sameFlags⟩
    have kept : mapMask level mapping.hphysAddr % 2 ^ 56 = mapping.hphysAddr := by
      obtain ⟨fuel', m, located, sameAddress, _⟩ := addresses 0 (blockSize_pos level)
      exact sameAddress.trans (physicalMap_unique located atBase).1
    obtain ⟨aligned, fits⟩ := (stored_address_iff small).mp kept
    refine ⟨level, mapping, largest, aligned, fits, ?_⟩
    intro i below
    obtain ⟨fuel', m, located, sameAddress, sameFlags⟩ := addresses i below
    rw [kept] at sameAddress
    exact ⟨fuel', m, located, sameAddress.symm, sameFlags.symm⟩
  · rintro ⟨level', mapping', largest', aligned, fits, linear⟩
    cases largest.symm.trans largest'
    refine ⟨_, translated fault rfl, ?_⟩
    intro gphys atLeast below
    obtain ⟨i, rfl⟩ := Nat.exists_eq_add_of_le atLeast
    have below : i < blockSize level := lt_of_add_lt_add_left below
    obtain ⟨fuel', m, located, sameAddress, sameFlags⟩ := linear i below
    refine ⟨_, fuel', m, translated _ (inBlock i below), located, ?_, sameFlags.symm⟩
    rw [(stored_address_iff small).mpr ⟨aligned, fits⟩, Nat.add_sub_cancel_left, sameAddress]

end Runs

/-! ## Two MiB of guest RAM -/

def twoMegabytes (hphys : Nat) : AddCall where
  env := ⟨⟨1, 12, fun _ _ _ => true⟩, true, true⟩
  ram := ⟨[⟨⟨0x90000000, 0x800000, 2048, 0⟩, 2048⟩], fun _ => false⟩
  node := ⟨some .real, some .memory, some (.ram .reserved), some 0x80000000, some hphys, none,
    some 0x200000, none, none, some 12, none, none⟩

def twoMegabyteRegion (hphys : Nat) : Region :=
  ⟨0x969, 0x80000000, 0x80000000, 0x200000, 12, 21, 1, [⟨hphys, true⟩]⟩

def twoMegabyteGuest (hphys : Nat) : GuestState sv39x4 :=
  ⟨⟨.node .leaf (twoMegabyteRegion hphys) .leaf, .leaf⟩, emptyTree⟩

theorem twoMegabyteGuest_wellFormed : (twoMegabyteGuest 0x90200000).aspace.WellFormed := by
  apply Ordered.wellFormed
  · exact ⟨by decide, by decide, by decide⟩
  · intro reg mem
    have onlyRegion : reg = twoMegabyteRegion 0x90200000 := by
      simpa [twoMegabyteGuest] using mem
    rw [onlyRegion]
    exact ⟨by decide, by decide, by decide, by decide⟩

-- The reservation looks at 512 frames.
set_option maxRecDepth 4096 in
theorem twoMegabyteGuest_built {hphys : Nat} (isHost : hphys = 0x90001000 ∨ hphys = 0x90200000) :
    (guestSystem (.plain _) sv39x4).Reachable (twoMegabyteGuest hphys) := by
  have started : (guestSystem (.plain _) sv39x4).Reachable ⟨.empty, emptyTree⟩ :=
    .start ⟨rfl, emptyTree_init⟩
  have added : (aspaceSystem (.plain _)).step .empty (twoMegabytes hphys)
      (twoMegabyteGuest hphys).aspace := by
    rcases isHost with rfl | rfl
    · exact ⟨twoMegabyteRegion 0x90001000, _, rfl⟩
    · exact ⟨twoMegabyteRegion 0x90200000, _, rfl⟩
  exact started.next (show (guestSystem (.plain _) sv39x4).step _
    (.regionAdd (twoMegabytes hphys)) _ from ⟨added, rfl⟩)

/-- Host memory that is aligned to the block: the last byte of the block is translated as the
guest address space says. -/
theorem stage2Map_agrees_aligned :
    ∃ mmu, stage2Map (twoMegabyteGuest 0x90200000).aspace emptyTree 0 0x80001234 =
        (mmu, .installed) ∧
      Agrees (twoMegabyteGuest 0x90200000).aspace mmu 0x801FFFFF := by
  have largest : (twoMegabyteGuest 0x90200000).aspace.largestBlock 0 0x80001234 =
      some (1, ⟨0x90200000, 0x200000, 0x969⟩) := by decide
  have inRegion : (twoMegabyteGuest 0x90200000).aspace.descend .memory 0x80000000 =
      some (twoMegabyteRegion 0x90200000) := rfl
  have fits := twoMegabyteGuest_wellFormed.blockFits largest (by decide) (by decide)
    (by decide) inRegion (by decide)
  have installed : (stage2Map (twoMegabyteGuest 0x90200000).aspace emptyTree 0 0x80001234).2 =
      .installed := by decide
  have page : (stage2Map (twoMegabyteGuest 0x90200000).aspace emptyTree 0 0x80001234).1.getPage
      0x80001234 = some ⟨0x80000000, 0x90200000, 0x200000, rwx⟩ := by decide
  have result := Prod.ext rfl installed
  obtain ⟨_, found, agrees⟩ :=
    (stage2Map_agrees_iff (twoMegabyteGuest_built (.inr rfl)) result).mpr fits
  cases page.symm.trans found
  exact ⟨_, result, agrees _ (by decide) (by decide)⟩

/-- Host memory that is aligned to a page only: the block is installed all the same, and the
guest reaches the 4 KiB in front of its own memory. -/
theorem stage2Map_escapes_region :
    (guestSystem (.plain _) sv39x4).Reachable (twoMegabyteGuest 0x90001000) ∧
    (stage2Map (twoMegabyteGuest 0x90001000).aspace emptyTree 0 0x80000000).2 = .installed ∧
    (stage2Map (twoMegabyteGuest 0x90001000).aspace emptyTree 0 0x80000000).1.getPage 0x80000000 =
      some ⟨0x80000000, 0x90000000, 0x200000, rwx⟩ ∧
    (twoMegabyteGuest 0x90001000).aspace.physicalMap 0 0x80000000 1 =
      .found ⟨0x90001000, 1, 0x969⟩ :=
  ⟨twoMegabyteGuest_built (.inl rfl), by decide, by decide, by decide⟩

end Xvisor.Guest
