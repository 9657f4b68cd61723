import Xvisor.Nested.Xlate

/-!
# What the software TLB remembers

The guest page of an address is a function of the guest hypervisor's page tables.
An entry of the software TLB is current when a miss at any of its addresses would
install the same entry again.
-/

namespace Xvisor.Nested

open Lib Mmu Guest Aspace Nat

/-! ## Layouts

The translation without page tables tries blocks of three sizes around an
address. It is consistent along a block when the guest address space is regular;
address spaces without alias regions are. -/

/-- The alias loop ends, and a block within a block that one mapping covers is covered as well, by
a region of the same kind. -/
structure Regular (aspace : Aspace) (fuel : Nat) : Prop where
  resolves : ∀ addr level, level ≤ 2 → aspace.blockAt fuel addr level ≠ .hangs
  uniform : ∀ addr level mapping, level ≤ 2 → aspace.granted fuel addr level = some mapping →
    ∀ low ≤ level, ∃ part, aspace.granted fuel addr low = some part ∧
      part.regFlags = mapping.regFlags

/-- Blocks lie in host memory as they lie in guest memory, and a page table entry can hold their
addresses. -/
def Aligned (aspace : Aspace) (fuel : Nat) : Prop :=
  ∀ addr level mapping, level ≤ 2 → aspace.granted fuel addr level = some mapping →
    blockSize level ∣ mapping.hphysAddr ∧ mapping.hphysAddr < 2 ^ 56

def blockMapping (reg : Region) (base level : Nat) : Option PhysicalMapping :=
  if blockSize level ≤ (reg.findMapping base).2 then
    some ⟨(reg.findMapping base).1, blockSize level, reg.flags⟩
  else none

theorem mapMask_within {low level : Nat} (isLow : low ≤ level) (addr : Nat) :
    ∃ i, i + blockSize low ≤ blockSize level ∧ mapMask low addr = mapMask level addr + i := by
  obtain ⟨factor, isFactor⟩ := Mmu.blockSize_dvd isLow
  have pos : 0 < factor := by
    apply pos_of_ne_zero
    rintro rfl
    exact absurd isFactor (ne_of_gt (Mmu.blockSize_pos level))
  refine ⟨addr / blockSize low % factor * blockSize low, ?_, ?_⟩
  · have below : addr / blockSize low % factor + 1 ≤ factor := mod_lt _ pos
    calc addr / blockSize low % factor * blockSize low + blockSize low
        = (addr / blockSize low % factor + 1) * blockSize low := by ring
      _ ≤ factor * blockSize low := mul_le_mul_right _ below
      _ = blockSize level := by rw [isFactor, mul_comm]
  · have digits := div_add_mod (addr / blockSize low) factor
    rw [mapMask, mapMask, isFactor, ← Nat.div_div_eq_div_mul]
    calc addr / blockSize low * blockSize low
        = (factor * (addr / blockSize low / factor) + addr / blockSize low % factor) *
            blockSize low := by rw [digits]
      _ = _ := by ring

section Plain

variable {aspace : Aspace} (plain : ∀ reg ∈ aspace.memtree.toList, ¬ reg.isAlias)

include plain

theorem physicalMap_plain (fuel gphys size : Nat) :
    aspace.physicalMap fuel gphys size =
      match aspace.descend .memory gphys with
      | none => .missing
      | some reg => .found ⟨(reg.findMapping gphys).1,
          if size < (reg.findMapping gphys).2 then size else (reg.findMapping gphys).2,
          reg.flags⟩ := by
  rw [physicalMap, locate_eq]
  cases found : aspace.descend .memory gphys with
  | none => rfl
  | some reg =>
    have notAlias := plain reg (descend_some found).1
    simp only [follow_of_not_alias notAlias]

theorem granted_plain (fuel addr level : Nat) :
    aspace.granted fuel addr level = (aspace.descend .memory (mapMask level addr)).bind
        fun reg => blockMapping reg (mapMask level addr) level := by
  rw [granted, blockAt, physicalMap_plain plain]
  cases aspace.descend .memory (mapMask level addr) with
  | none => rfl
  | some reg =>
    simp only [Option.bind_some, blockMapping]
    by_cases enough : blockSize level ≤ (reg.findMapping (mapMask level addr)).2
    · rw [if_pos enough]
      rcases lt_or_eq_of_le enough with more | exactly
      · simp only [if_pos more, le_refl, if_true]
      · simp only [exactly, lt_irrefl, le_refl, reduceIte]
    · have less : ¬ blockSize level < (reg.findMapping (mapMask level addr)).2 := by omega
      simp only [if_neg less, if_neg enough]

theorem regular_of_plain (wellFormed : aspace.WellFormed) (fuel : Nat) : Regular aspace fuel where
  resolves := by
    intro addr level _
    rw [blockAt, physicalMap_plain plain]
    split <;> simp
  uniform := by
    intro addr level mapping _ isGranted low isLow
    rw [granted_plain plain, Option.bind_eq_some_iff] at isGranted
    obtain ⟨reg, found, covers⟩ := isGranted
    obtain ⟨mem, contains, memory⟩ := descend_some found
    unfold blockMapping at covers
    split at covers
    · next enough =>
      cases covers
      obtain ⟨i, inside, base⟩ := mapMask_within isLow addr
      have pos := Mmu.blockSize_pos low
      have available : i < (reg.findMapping (mapMask level addr)).2 := by omega
      obtain ⟨contains', linear⟩ := Region.findMapping_linear (wellFormed.mapped reg mem)
        contains available
      have found' := wellFormed.descend_of_contains mem contains' memory
      rw [granted_plain plain, base, found', Option.bind_some, blockMapping, linear]
      rw [if_pos (by dsimp only; omega)]
      exact ⟨_, rfl, rfl⟩
    · cases covers

end Plain

open World Option

namespace World

variable (world : World)

def hostBlock (guestHpa : Nat) : Option HostBlock :=
  match world.aspace.granted world.fuel guestHpa 0 with
  | none => none
  | some small =>
    match world.aspace.granted world.fuel guestHpa 1 with
    | none => some (hostBlockOf 0 small)
    | some middle =>
      match world.aspace.granted world.fuel guestHpa 2 with
      | none => some (hostBlockOf 1 middle)
      | some large => some (hostBlockOf 2 large)

def hostTable (guestHpa : Nat) : Option Nat :=
  ((world.aspace.granted world.fuel guestHpa 0).filter
    fun mapping => nestedNostagePermCheck .load mapping.regFlags).map
      fun mapping => mapping.hphysAddr ||| guestHpa % blockSize 0

def gstageEntry (table index : Nat) : Option Nat :=
  (world.hostTable table).bind fun pa => world.memory (Word.add pa (index * 8))

/-- The page that the G-stage of the guest hypervisor has for an address. -/
def guestPage (config : Config) (world : World) (guestGpa : Nat) : Option Page :=
  if atpMode world.hgatp = 0 then some (offPage guestGpa)
  else
    match modeLevel (atpMode world.hgatp) with
    | none => none
    | some level =>
      if config.start < level then none
      else (walk config world.gstageEntry level (atpTable world.hgatp) guestGpa).toOption

/-- The shadow page for an address of a guest page, with the flags of its region. -/
def fill (page : Page) (guestGpa : Nat) : Option (Page × RegionFlags) :=
  (world.hostBlock (page.oa ||| guestGpa % page.sz)).map fun host =>
    let host := fitHost page (page.oa ||| guestGpa % page.sz) host
    (shadowPage page guestGpa host, host.regFlags)

end World

/-! ## The code computes these functions -/

section Computes

variable {config : Config} {world : World}

theorem nestedXlateNostageSingle_eq (regular : Regular world.aspace world.fuel)
    (guestHpa : Nat) {level : Nat} (small : level ≤ 2) (access : Access) :
    nestedXlateNostageSingle world guestHpa level access =
      .ok ((world.aspace.granted world.fuel guestHpa level).filter
        fun mapping => nestedNostagePermCheck access mapping.regFlags) := by
  have resolves := regular.resolves guestHpa level small
  unfold nestedXlateNostageSingle Aspace.granted
  cases result : world.aspace.blockAt world.fuel guestHpa level with
  | hangs => exact absurd result resolves
  | missing => rfl
  | found mapping =>
    dsimp only
    by_cases enough : blockSize level ≤ mapping.physSize
    · rw [if_neg (Nat.not_lt.mpr enough), if_pos enough]
      by_cases permitted : nestedNostagePermCheck access mapping.regFlags
      · rw [if_pos permitted, filter_some, if_pos permitted]
      · rw [if_neg permitted, filter_some, if_neg permitted]
    · rw [if_pos (Nat.lt_of_not_le enough), if_neg enough]
      rfl

variable {small : PhysicalMapping}

theorem Regular.sameFlags {aspace : Aspace} {fuel addr level : Nat} {mapping : PhysicalMapping}
    (regular : Regular aspace fuel) (le : level ≤ 2)
    (isGranted : aspace.granted fuel addr level = some mapping)
    (isSmall : aspace.granted fuel addr 0 = some small) : mapping.regFlags = small.regFlags := by
  obtain ⟨part, isPart, same⟩ := regular.uniform addr level mapping le isGranted 0 (zero_le _)
  rw [isSmall] at isPart
  cases isPart
  exact same.symm

section

variable (regular : Regular world.aspace world.fuel)
include regular

theorem Regular.hostBlock_regFlags {guestHpa : Nat}
    (isSmall : world.aspace.granted world.fuel guestHpa 0 = some small) :
    ∃ host, world.hostBlock guestHpa = some host ∧ host.regFlags = small.regFlags := by
  unfold hostBlock
  rw [isSmall]
  cases isMiddle : world.aspace.granted world.fuel guestHpa 1 with
  | none => exact ⟨_, rfl, rfl⟩
  | some middle =>
    cases isLarge : world.aspace.granted world.fuel guestHpa 2 with
    | none => exact ⟨_, rfl, regular.sameFlags (by omega) isMiddle isSmall⟩
    | some large => exact ⟨_, rfl, regular.sameFlags (le_refl 2) isLarge isSmall⟩

theorem nestedXlateNostage_eq (guestHpa : Nat) (access : Access) :
    nestedXlateNostage world guestHpa access = .ok ((world.hostBlock guestHpa).filter
        fun host => nestedNostagePermCheck access host.regFlags) := by
  unfold nestedXlateNostage
  rw [nestedXlateNostageSingle_eq regular _ (by omega), nestedXlateNostageSingle_eq regular _
    (by omega), nestedXlateNostageSingle_eq regular _ (by omega)]
  cases isSmall : world.aspace.granted world.fuel guestHpa 0 with
  | none =>
    rw [hostBlock, isSmall]
    rfl
  | some small =>
    obtain ⟨host, isHost, sameFlags⟩ := regular.hostBlock_regFlags isSmall
    by_cases permitted : nestedNostagePermCheck access small.regFlags
    · -- the larger blocks are permitted as well
      have kept : ∀ level ≤ 2, (world.aspace.granted world.fuel guestHpa level).filter
          (fun mapping => nestedNostagePermCheck access mapping.regFlags) =
            world.aspace.granted world.fuel guestHpa level := by
        intro level le
        cases isGranted : world.aspace.granted world.fuel guestHpa level with
        | none => rfl
        | some mapping =>
          rw [filter_some, regular.sameFlags le isGranted isSmall, if_pos permitted]
      rw [filter_some, if_pos permitted, kept 1 (by omega), kept 2 le_rfl, isHost, filter_some,
        sameFlags, if_pos permitted, ← isHost, hostBlock, isSmall]
      cases world.aspace.granted world.fuel guestHpa 1 with
      | none => rfl
      | some middle => cases world.aspace.granted world.fuel guestHpa 2 <;> rfl
    · rw [isHost, filter_some, if_neg permitted, filter_some, sameFlags, if_neg permitted]
      rfl

theorem nestedXlateGstageOps_reads :
    (nestedXlateGstageOps world).Reads world.memory world.hostTable world.gstageEntry where
  gpa2hpa := by
    intro xc table
    show nestedGstageGpa2hpa world xc table = _
    unfold nestedGstageGpa2hpa hostTable
    rw [nestedXlateNostageSingle_eq regular table (zero_le 2)]
    cases (world.aspace.granted world.fuel table 0).filter
      fun mapping => nestedNostagePermCheck .load mapping.regFlags with
    | none => rfl
    | some mapping => rfl
  entry := fun _ _ => rfl

end

variable {xc : XlateContext}

theorem nestedXlateGstageOps_fault (noCause : xc.scause = none) (low guestGpa : Nat) :
    (nestedXlateGstageOps world).fault xc low guestGpa =
      .ok ({ xc with
        gstagePageSz := blockSize low, htval := guestGpa / 4,
        scause := some (.guestPageFault xc.originalAccess) }, .error .efault) := by
  simp [GuestPageOps.fault, nestedXlateGstageOps, nestedGstageSetfault, nestedGstageWriteFault,
    noCause, Except.map]

theorem gstagePage_cases (regular : Regular world.aspace world.fuel) (noCause : xc.scause = none)
    (guestGpa : Nat) :
    (∃ page, world.guestPage config guestGpa = some page ∧
      gstagePage config world xc guestGpa = .ok (xc, .ok page)) ∨
    (world.guestPage config guestGpa = none ∧
      ∃ xc' code, gstagePage config world xc guestGpa = .ok (xc', .error code) ∧
        xc'.toSetting = xc.toSetting) := by
  unfold guestPage gstagePage
  by_cases off : atpMode world.hgatp = 0
  · rw [if_pos off, if_pos off]
    exact .inl ⟨_, rfl, rfl⟩
  · rw [if_neg off, if_neg off]
    cases modeLevel (atpMode world.hgatp) with
    | none => exact .inr ⟨rfl, xc, .efail, rfl, rfl⟩
    | some level =>
      dsimp only
      by_cases tooHigh : config.start < level
      · rw [if_pos tooHigh, Mmu.mmuGetGuestPage, if_pos tooHigh]
        exact .inr ⟨rfl, xc, .einvalid, rfl, rfl⟩
      · rw [if_neg tooHigh, (nestedXlateGstageOps_reads regular).mmuGetGuestPage
          (Nat.le_of_not_lt tooHigh)]
        cases walk config world.gstageEntry level (atpTable world.hgatp) guestGpa with
        | ok page => exact .inl ⟨page, rfl, rfl⟩
        | error low =>
          exact .inr ⟨rfl, _, .efault, nestedXlateGstageOps_fault noCause low guestGpa, rfl⟩

theorem gstagePage_of_guestPage (regular : Regular world.aspace world.fuel)
    (noCause : xc.scause = none) {guestGpa : Nat} {page : Page}
    (isPage : world.guestPage config guestGpa = some page) :
    gstagePage config world xc guestGpa = .ok (xc, .ok page) := by
  rcases gstagePage_cases regular noCause guestGpa with ⟨_, isPage', found⟩ | ⟨missing, _⟩
  · rw [isPage] at isPage'
    cases isPage'
    exact found
  · rw [isPage] at missing
    cases missing

end Computes

/-! ## Blocks -/

section Blocks

variable {config : Config} {world : World} {guestGpa other : Nat} {page shadow : Page}
  {flags : RegionFlags}

variable {level a b guestHpa low high : Nat}

theorem mapMask_div {addr : Nat} : mapMask level addr / blockSize level = addr / blockSize level :=
  Nat.mul_div_cancel _ (Mmu.blockSize_pos level)

theorem toOption_some {ε α : Type} {result : Except ε α} {value : α}
    (found : result.toOption = some value) : result = .ok value := by
  cases result with
  | error _ => cases found
  | ok _ => exact congrArg Except.ok (some.inj found)

theorem guestPage_block (found : world.guestPage config guestGpa = some page) :
    ∃ level, page.sz = blockSize level ∧ page.ia = mapMask level guestGpa := by
  unfold guestPage at found
  split at found
  · cases found
    exact ⟨2, rfl, rfl⟩
  · split at found
    · cases found
    · split at found
      · cases found
      · have found := toOption_some found
        obtain ⟨low, _, size, base⟩ := (Mmu.walk_walksTo found).block
        exact ⟨low, size, base⟩

theorem guestPage_same (found : world.guestPage config guestGpa = some page)
    (same : other / page.sz = guestGpa / page.sz) : world.guestPage config other = some page := by
  unfold guestPage at found ⊢
  split at found
  · next off =>
    rw [if_pos off]
    cases found
    have same : other / blockSize 2 = guestGpa / blockSize 2 := same
    simp only [offPage, mapMask, same]
  · next off =>
    rw [if_neg off]
    split at found
    · cases found
    · split at found
      · cases found
      · next notHigh =>
        have found := toOption_some found
        simp only [if_neg notHigh, Mmu.walk_same_page found same]
        rfl

theorem granted_congr {aspace : Aspace} {fuel : Nat}
    (same : a / blockSize level = b / blockSize level) :
    aspace.granted fuel a level = aspace.granted fuel b level := by
  simp only [Aspace.granted, Aspace.blockAt, mapMask, same]

variable {host : HostBlock}

theorem hostBlock_level
    (found : world.hostBlock guestHpa = some host) : ∃ level ≤ 2, host.sz = blockSize level := by
  unfold hostBlock at found
  split at found
  · cases found
  · split at found
    · cases found
      exact ⟨0, by omega, rfl⟩
    · split at found
      · cases found
        exact ⟨1, by omega, rfl⟩
      · cases found
        exact ⟨2, by omega, rfl⟩

theorem Regular.hostBlock_same (regular : Regular world.aspace world.fuel)
    (found : world.hostBlock a = some host)
    (same : b / host.sz = a / host.sz) : world.hostBlock b = some host := by
  unfold hostBlock at found ⊢
  split at found
  · cases found
  · next small isSmall =>
    split at found
    · next isMiddle =>
      cases found
      have same : b / blockSize 0 = a / blockSize 0 := same
      rw [granted_congr same, isSmall,
        granted_congr (Mmu.div_blockSize_of_le (zero_le 1) same), isMiddle]
    · next middle isMiddle =>
      split at found
      · next isLarge =>
        cases found
        have same : b / blockSize 1 = a / blockSize 1 := same
        have isMiddle : world.aspace.granted world.fuel b 1 = some middle := by
          rw [granted_congr same, isMiddle]
        obtain ⟨part, isPart, _⟩ := regular.uniform b 1 middle (by omega) isMiddle 0 (by omega)
        rw [isPart, isMiddle, granted_congr (Mmu.div_blockSize_of_le (le_succ 1) same), isLarge]
      · next large isLarge =>
        cases found
        have same : b / blockSize 2 = a / blockSize 2 := same
        have isLarge : world.aspace.granted world.fuel b 2 = some large := by
          rw [granted_congr same, isLarge]
        obtain ⟨part, isPart, _⟩ := regular.uniform b 2 large (le_refl 2) isLarge 0 (by omega)
        obtain ⟨part', isPart', _⟩ := regular.uniform b 2 large (le_refl 2) isLarge 1 (by omega)
        rw [isPart, isPart', isLarge]

theorem fill_some (filled : world.fill page guestGpa = some (shadow, flags)) :
    ∃ host, world.hostBlock (page.oa ||| guestGpa % page.sz) = some host ∧
      shadow = shadowPage page guestGpa (fitHost page (page.oa ||| guestGpa % page.sz) host) ∧
      flags = host.regFlags := by
  obtain ⟨host, found, same⟩ := map_eq_some_iff.mp filled
  cases same
  refine ⟨host, found, rfl, ?_⟩
  unfold fitHost
  split <;> rfl

theorem fitHost_of_le (fits : page.sz ≤ host.sz) :
    fitHost page guestHpa host = ⟨(host.pa ||| guestHpa % host.sz) / page.sz * page.sz, page.sz,
      host.regFlags⟩ :=
  if_pos fits

theorem fitHost_of_lt (larger : host.sz < page.sz) : fitHost page guestHpa host = host :=
  if_neg (Nat.not_le.mpr larger)

theorem level_le_of_blockSize_le (le : blockSize low ≤ blockSize high) : low ≤ high := by
  by_contra above
  exact absurd (Mmu.blockSize_lt (Nat.lt_of_not_le above)) (Nat.not_lt.mpr le)

theorem shadowPage_block (size : page.sz = blockSize level)
    (base : page.ia = mapMask level guestGpa) (hostSize : host.sz = blockSize high) :
    ∃ low ≤ high, low ≤ level ∧
      (shadowPage page guestGpa (fitHost page guestHpa host)).sz = blockSize low ∧
      (shadowPage page guestGpa (fitHost page guestHpa host)).ia = mapMask low guestGpa := by
  rcases lt_or_ge host.sz page.sz with larger | fits
  · rw [fitHost_of_lt larger]
    have isLow : high ≤ level := level_le_of_blockSize_le (by omega)
    refine ⟨high, le_refl high, isLow, hostSize, ?_⟩
    show (if page.sz ≤ host.sz then page.ia else guestGpa / host.sz * host.sz) = _
    rw [if_neg (Nat.not_le.mpr larger), hostSize]
    rfl
  · rw [fitHost_of_le fits]
    have isLow : level ≤ high := level_le_of_blockSize_le (by omega)
    refine ⟨level, isLow, le_refl level, size, ?_⟩
    exact (if_pos (le_refl _)).trans base

theorem fill_block (filled : world.fill page guestGpa = some (shadow, flags))
    (size : page.sz = blockSize level) (base : page.ia = mapMask level guestGpa) :
    ∃ low ≤ 2, low ≤ level ∧ shadow.sz = blockSize low ∧ shadow.ia = mapMask low guestGpa := by
  obtain ⟨host, found, rfl, _⟩ := fill_some filled
  obtain ⟨high, isHigh, hostSize⟩ := hostBlock_level found
  obtain ⟨low, isLow, rest⟩ := shadowPage_block size base hostSize
  exact ⟨low, isLow.trans isHigh, rest⟩

theorem or_mod_div_congr {o : Nat} (le : low ≤ level)
    (same : a / blockSize low = b / blockSize low) :
    (o ||| a % blockSize level) / blockSize low = (o ||| b % blockSize level) / blockSize low := by
  obtain ⟨factor, isFactor⟩ := Mmu.blockSize_dvd le
  have digits : ∀ x, (o ||| x % blockSize level) / blockSize low =
      o / blockSize low ||| x / blockSize low % factor := by
    intro x
    rw [← mod_mul_right_div_self, ← isFactor]
    exact or_div_two_pow
  rw [digits, digits, same]

theorem Regular.fill_same (regular : Regular world.aspace world.fuel)
    (filled : world.fill page guestGpa = some (shadow, flags)) (size : page.sz = blockSize level)
    (same : other / shadow.sz = guestGpa / shadow.sz) :
    world.fill page other = some (shadow, flags) := by
  obtain ⟨host, found, rfl, rfl⟩ := fill_some filled
  obtain ⟨high, isHigh, hostSize⟩ := hostBlock_level found
  rcases lt_or_ge host.sz page.sz with larger | fits
  · rw [fitHost_of_lt larger] at same ⊢
    have same : other / host.sz = guestGpa / host.sz := same
    have isLow : high ≤ level := level_le_of_blockSize_le (by omega)
    have sameHpa : (page.oa ||| other % page.sz) / host.sz =
        (page.oa ||| guestGpa % page.sz) / host.sz := by
      rw [size, hostSize]
      rw [hostSize] at same
      exact or_mod_div_congr isLow same
    rw [fill, regular.hostBlock_same found sameHpa, map_some]
    simp only [fitHost_of_lt larger, shadowPage, same]
  · rw [fitHost_of_le fits] at same ⊢
    have same : other / page.sz = guestGpa / page.sz := same
    have isLow : level ≤ high := level_le_of_blockSize_le (by omega)
    have sameHpa : (page.oa ||| other % page.sz) / page.sz =
        (page.oa ||| guestGpa % page.sz) / page.sz := by
      rw [size] at same ⊢
      exact or_mod_div_congr (le_refl level) same
    have sameHost : (page.oa ||| other % page.sz) / host.sz =
        (page.oa ||| guestGpa % page.sz) / host.sz := by
      rw [size] at sameHpa ⊢
      rw [hostSize]
      exact Mmu.div_blockSize_of_le isLow sameHpa
    have samePa : (host.pa ||| (page.oa ||| other % page.sz) % host.sz) / page.sz =
        (host.pa ||| (page.oa ||| guestGpa % page.sz) % host.sz) / page.sz := by
      rw [size] at sameHpa ⊢
      rw [hostSize]
      exact or_mod_div_congr isLow sameHpa
    rw [fill, regular.hostBlock_same found sameHost, map_some]
    simp only [fitHost_of_le fits, samePa, shadowPage, le_refl, if_true]

end Blocks

/-! ## Current entries -/

/-- The guest hypervisor's page tables still have the guest page of the entry: it has fenced its
changes of them. -/
def Fenced (config : Config) (world : World) (e : SwtlbEntry) : Prop :=
  ∀ guestGpa, e.shadows guestGpa → world.guestPage config guestGpa = some e.page

/-- The shadow page is what a miss installs for the guest page. -/
structure Filled (world : World) (e : SwtlbEntry) : Prop where
  shadow : ∀ guestGpa, e.shadows guestGpa →
    world.fill e.page guestGpa = some (e.shadowPage, e.shadowRegFlags)
  memory : e.shadowRegFlags.any (.isram ||| .isrom)

section Entries

variable {config : Config} {world : World} {e e' : SwtlbEntry} {guestGpa : Nat}

structure Placed (config : Config) (shadow : Page) : Prop where
  block : ∃ level ≤ 2, shadow.sz = blockSize level
  aligned : shadow.sz ∣ shadow.ia
  inside : shadow.ia + shadow.sz ≤ config.span config.start
  leaf : shadow.flags.leaf
  valid : shadow.flags.valid

theorem SwtlbEntry.shadows.same_block (aligned : e.shadowPage.sz ∣ e.shadowPage.ia)
    (shadows : e.shadows guestGpa) :
    guestGpa / e.shadowPage.sz = e.shadowPage.ia / e.shadowPage.sz := by
  obtain ⟨atLeast, below⟩ := shadows
  have wraps : Word.add e.shadowPage.ia e.shadowPage.sz ≤ e.shadowPage.ia + e.shadowPage.sz :=
    mod_le _ _
  obtain ⟨q, base⟩ := aligned
  rw [base] at atLeast below wraps ⊢
  have pos : 0 < e.shadowPage.sz := by
    by_contra zero
    obtain zero : e.shadowPage.sz = 0 := by omega
    rw [zero] at wraps below atLeast
    omega
  rw [Nat.mul_div_cancel_left _ pos]
  apply Nat.div_eq_of_lt_le
  · rw [mul_comm]
    exact atLeast
  · rw [mul_comm, mul_add, mul_one]
    omega

theorem eq_of_shadows (fenced : Fenced config world e) (filled : Filled world e)
    (fenced' : Fenced config world e') (filled' : Filled world e')
    (shadows : e.shadows guestGpa) (shadows' : e'.shadows guestGpa) :
    e.page = e'.page ∧ e.shadowPage = e'.shadowPage := by
  have samePage : e.page = e'.page :=
    some.inj ((fenced guestGpa shadows).symm.trans (fenced' guestGpa shadows'))
  have first := filled.shadow guestGpa shadows
  rw [samePage, filled'.shadow guestGpa shadows'] at first
  exact ⟨samePage, (congrArg Prod.fst (some.inj first)).symm⟩

theorem shadowPage_leaf (guestGpa : Nat) {setting : Setting} {access : Access} {page : Page}
    {host : HostBlock}
    (permitted : setting.gstagePermFault access page.flags = false)
    (isMemory : nestedNostagePermCheck access host.regFlags) :
    (shadowPage page guestGpa host).flags.leaf ∧ host.regFlags.any (.isram ||| .isrom) := by
  have memory : host.regFlags.any (.isram ||| .isrom) := by
    cases access with
    | load => exact isMemory
    | fetch => exact isMemory
    | store =>
      rw [RegionFlags.any_or]
      exact Bool.or_eq_true_iff.mpr (.inl isMemory)
  refine ⟨?_, memory⟩
  have readable : page.flags.read ∨ page.flags.execute := by
    simp only [Setting.gstagePermFault, Setting.permFault, Bool.or_eq_false_iff] at permitted
    cases access <;> cases read : page.flags.read <;> cases execute : page.flags.execute <;>
      simp_all
  rcases readable with read | execute
  · simp [shadowPage, PgFlags.leaf, memory, read]
  · simp [shadowPage, PgFlags.leaf, execute]

theorem Regular.miss_current (regular : Regular world.aspace world.fuel) {page shadow : Page}
    {flags : RegionFlags} (found : world.guestPage config guestGpa = some page)
    (filled : world.fill page guestGpa = some (shadow, flags))
    (memory : flags.any (.isram ||| .isrom)) :
    Fenced config world ⟨page, shadow, flags⟩ ∧ Filled world ⟨page, shadow, flags⟩ := by
  obtain ⟨level, size, base⟩ := guestPage_block found
  obtain ⟨low, _, isLow, shadowSize, shadowBase⟩ := fill_block filled size base
  have inBlock : ∀ other, (SwtlbEntry.mk page shadow flags).shadows other →
      other / shadow.sz = guestGpa / shadow.sz := by
    intro other shadows
    have aligned : shadow.sz ∣ shadow.ia := by
      rw [shadowSize, shadowBase]
      exact dvd_mul_left _ _
    have same := SwtlbEntry.shadows.same_block aligned shadows
    have same : other / shadow.sz = shadow.ia / shadow.sz := same
    rw [same, shadowSize, shadowBase, mapMask_div]
  refine ⟨?_, ?_, memory⟩
  · intro other shadows
    have same := inBlock other shadows
    rw [shadowSize] at same
    apply guestPage_same found
    rw [size]
    exact Mmu.div_blockSize_of_le isLow same
  · intro other shadows
    exact regular.fill_same filled size (inBlock other shadows)

end Entries

end Xvisor.Nested
