import Mathlib.Algebra.Order.BigOperators.Group.List
import Mathlib.Algebra.Order.Group.Nat
import Xvisor.Lib.SearchTree
import Xvisor.Lib.Word

/-!
# Guest address spaces

Regions of a guest, their lookup by guest physical address and their mapping to
host physical addresses (`vmm_guest_aspace.c`). The loop that follows aliases
gets a step count, and running out of it is the outcome `hangs`.
-/

namespace Xvisor.Guest

open Lib Word

/-! ## Regions -/

abbrev RegionFlags := BitVec 32

namespace RegionFlags

def real : RegionFlags := 0x1
def virtual : RegionFlags := 0x2
def aliased : RegionFlags := 0x4
def memory : RegionFlags := 0x8
def io : RegionFlags := 0x10
def cacheable : RegionFlags := 0x20
def bufferable : RegionFlags := 0x40
def readonly : RegionFlags := 0x80
def isram : RegionFlags := 0x100
def isrom : RegionFlags := 0x200
def isdevice : RegionFlags := 0x400
def isreserved : RegionFlags := 0x800
def isalloced : RegionFlags := 0x1000
def iscolored : RegionFlags := 0x2000
def isshared : RegionFlags := 0x4000

def manifestMask : RegionFlags := real ||| virtual ||| aliased

variable (flags mask : RegionFlags)

def any : Bool := flags &&& mask ≠ 0

def all : Bool := flags &&& mask = mask

theorem all_iff : flags.all mask ↔ ∀ i, mask.getLsbD i → flags.getLsbD i := by
  rw [all, decide_eq_true_eq]
  constructor
  · intro same i isAsked
    rw [← same, BitVec.getLsbD_and, Bool.and_eq_true] at isAsked
    exact isAsked.1
  · intro carries
    apply BitVec.eq_of_getLsbD_eq
    intro i _
    rw [BitVec.getLsbD_and]
    cases isAsked : mask.getLsbD i
    · simp
    · simp [carries i isAsked]

theorem any_or (flags a b : RegionFlags) : flags.any (a ||| b) = (flags.any a || flags.any b) := by
  have split : flags &&& (a ||| b) = 0#32 ↔ flags &&& a = 0#32 ∧ flags &&& b = 0#32 := by
    rw [BitVec.and_or_distrib_left, BitVec.or_eq_zero_iff]
  simp only [any, ne_eq]
  by_cases inA : flags &&& a = 0#32
  · by_cases inB : flags &&& b = 0#32 <;> simp [split, inA, inB]
  · simp [split, inA]

end RegionFlags

structure RegionMapping where
  hphysAddr : Nat
  ishostram : Bool
  deriving DecidableEq, Repr

/-- `struct vmm_region`. `maps` is the memory at `reg->maps`, of which the region owns the
first `mapsCount` elements. -/
structure Region where
  flags : RegionFlags
  gphysAddr : Nat
  aphysAddr : Nat
  physSize : Nat
  alignOrder : Nat
  mapOrder : Nat
  mapsCount : Nat
  maps : List RegionMapping
  deriving DecidableEq, Repr

namespace Region

variable (reg : Region)

def gphysEnd : Nat := add reg.gphysAddr reg.physSize

def gphysToAphys (gphys : Nat) : Nat :=
  add reg.aphysAddr (sub gphys reg.gphysAddr)

def direction (gphys : Nat) (reg : Region) : Ordering :=
  if gphys < reg.gphysAddr then .lt else if reg.gphysEnd ≤ gphys then .gt else .eq

def isAlias : Bool := reg.flags.any .aliased

end Region

structure Aspace where
  memtree : SearchTree Region
  iotree : SearchTree Region

/-! ## Finding regions -/

inductive Lookup (α : Type) where
  | found (value : α)
  | missing
  | hangs
  deriving DecidableEq, Repr

namespace Aspace

variable (aspace : Aspace)

def tree (regFlags : RegionFlags) : SearchTree Region :=
  if regFlags.any .io then aspace.iotree else aspace.memtree

/-- One descent of `vmm_guest_find_region`, which ignores the manifest flags. -/
def descend (regFlags : RegionFlags) (gphys : Nat) : Option Region :=
  ((aspace.tree regFlags).search (Region.direction gphys)).filter fun reg =>
    reg.flags.all (regFlags &&& ~~~RegionFlags.manifestMask)

def resolve (aspace : Aspace) (regFlags : RegionFlags) : Nat → Region → Nat → Lookup Region
  | 0, reg, _ => if reg.isAlias then .hangs else .found reg
  | fuel + 1, reg, gphys =>
    if reg.isAlias then
      let gphys := reg.gphysToAphys gphys
      match aspace.descend regFlags gphys with
      | none => .missing
      | some reg => resolve aspace regFlags fuel reg gphys
    else .found reg

def findRegion (fuel gphys : Nat) (regFlags : RegionFlags) (resolveAlias : Bool) : Lookup Region :=
  match aspace.descend regFlags gphys with
  | none => .missing
  | some reg =>
    match if resolveAlias then aspace.resolve regFlags fuel reg gphys else .found reg with
    | .found reg =>
      if reg.flags.all (regFlags &&& RegionFlags.manifestMask) then .found reg else .missing
    | .missing => .missing
    | .hangs => .hangs

end Aspace

/-! ## Mappings of a region -/

namespace Region

variable (reg : Region)

def mappingGphysOffset (i : Nat) : Nat :=
  if reg.mapsCount ≤ i then reg.physSize else i * 2 ^ reg.mapOrder % 2 ^ 64

def mappingPhysSize (i : Nat) : Nat :=
  if reg.mapsCount ≤ i then 0
  else
    let mapSize := 2 ^ reg.mapOrder % 2 ^ 64
    let size := sub reg.physSize (reg.mappingGphysOffset i)
    if size < mapSize then size else mapSize

def mappingFind (gphys : Nat) : Option (Nat × RegionMapping) :=
  if gphys < reg.gphysAddr ∨ reg.gphysEnd ≤ gphys then none
  else
    let i := toU32 ((gphys - reg.gphysAddr) / 2 ^ reg.mapOrder)
    some (i, reg.maps.getD i ⟨0, false⟩)

/-- `vmm_guest_find_mapping`: the host address and the size available there, or zeros for an
address outside the region. -/
def findMapping (gphys : Nat) : Nat × Nat :=
  match reg.mappingFind gphys with
  | none => (0, 0)
  | some (i, map) =>
    let mapGphys := add reg.gphysAddr (reg.mappingGphysOffset i)
    let hphys := add map.hphysAddr (sub gphys mapGphys)
    (hphys, sub (add map.hphysAddr (reg.mappingPhysSize i)) hphys)

end Region

/-! ## `vmm_guest_physical_map` -/

structure PhysicalMapping where
  hphysAddr : Nat
  physSize : Nat
  regFlags : RegionFlags
  deriving DecidableEq, Repr

namespace Aspace

/-- The alias loop of `vmm_guest_physical_map`: it keeps the translated address. -/
def follow (aspace : Aspace) : Nat → Region → Nat → Lookup (Region × Nat)
  | 0, reg, gphys => if reg.isAlias then .hangs else .found (reg, gphys)
  | fuel + 1, reg, gphys =>
    if reg.isAlias then
      let gphys := reg.gphysToAphys gphys
      match aspace.findRegion 0 gphys .memory false with
      | .found reg => follow aspace fuel reg gphys
      | _ => .missing
    else .found (reg, gphys)

def locate (aspace : Aspace) (fuel gphys : Nat) : Lookup (Region × Nat) :=
  match aspace.findRegion 0 gphys .memory false with
  | .found reg => aspace.follow fuel reg gphys
  | _ => .missing

def physicalMap (aspace : Aspace) (fuel gphys gphysSize : Nat) : Lookup PhysicalMapping :=
  match aspace.locate fuel gphys with
  | .found (reg, gphys) =>
    let (hphys, size) := reg.findMapping gphys
    .found ⟨hphys, if gphysSize < size then gphysSize else size, reg.flags⟩
  | .missing => .missing
  | .hangs => .hangs

end Aspace

/-! ## Well-formed address spaces

Within one mapping the host address grows with the guest address. -/

open RegionFlags

namespace Region

def Contains (reg : Region) (gphys : Nat) : Prop :=
  reg.gphysAddr ≤ gphys ∧ gphys < reg.gphysEnd

instance (reg : Region) (gphys : Nat) : Decidable (reg.Contains gphys) :=
  inferInstanceAs (Decidable (_ ∧ _))

variable {reg : Region} {gphys : Nat}

theorem direction_eq_iff : direction gphys reg = .eq ↔ reg.Contains gphys := by
  unfold direction Contains
  split_ifs with below above
  · simp [below]
  · simp [above]
  · simp only [true_iff]
    exact ⟨Nat.le_of_not_lt below, Nat.lt_of_not_le above⟩

theorem Contains.word (contains : reg.Contains gphys) : gphys < 2 ^ 64 :=
  contains.2.trans (add_lt _ _)

/-- The mappings cover the region and are counted without overflow. -/
structure Mapped (reg : Region) : Prop where
  size : reg.physSize < 2 ^ 64
  order : reg.mapOrder < 64
  count : reg.mapsCount < 2 ^ 32
  covered : reg.physSize ≤ reg.mapsCount * 2 ^ reg.mapOrder

theorem Contains.bounds (contains : reg.Contains gphys) (size : reg.physSize < 2 ^ 64) :
    reg.gphysEnd = reg.gphysAddr + reg.physSize ∧ reg.gphysAddr + reg.physSize < 2 ^ 64 ∧
      gphys - reg.gphysAddr < reg.physSize := by
  simp only [Contains, gphysEnd, add] at contains ⊢
  omega

def mapIndex (reg : Region) (gphys : Nat) : Nat := (gphys - reg.gphysAddr) / 2 ^ reg.mapOrder

def mapOffset (reg : Region) (gphys : Nat) : Nat := (gphys - reg.gphysAddr) % 2 ^ reg.mapOrder

def mapLength (reg : Region) (i : Nat) : Nat :=
  min (2 ^ reg.mapOrder) (reg.physSize - i * 2 ^ reg.mapOrder)

section Mapped

variable {reg : Region} {gphys : Nat}

theorem Mapped.mapIndex_lt (mapped : reg.Mapped) (contains : reg.Contains gphys) :
    reg.mapIndex gphys < reg.mapsCount := by
  apply Nat.div_lt_of_lt_mul
  rw [mul_comm]
  exact (contains.bounds mapped.size).2.2.trans_le mapped.covered

theorem mapIndex_mul_add_mapOffset (reg : Region) (gphys : Nat) :
    reg.mapIndex gphys * 2 ^ reg.mapOrder + reg.mapOffset gphys = gphys - reg.gphysAddr := by
  rw [mapIndex, mapOffset, mul_comm]
  exact Nat.div_add_mod _ _

section

variable (mapped : reg.Mapped)
include mapped

theorem mapOffset_lt (contains : reg.Contains gphys) :
    reg.mapOffset gphys < reg.mapLength (reg.mapIndex gphys) := by
  have inside := (contains.bounds mapped.size).2.2
  have digits := mapIndex_mul_add_mapOffset reg gphys
  have low : reg.mapOffset gphys < 2 ^ reg.mapOrder := Nat.mod_lt _ (Nat.two_pow_pos _)
  rw [mapLength, lt_min_iff]
  exact ⟨low, by omega⟩

theorem mappingFind_eq (contains : reg.Contains gphys) :
    reg.mappingFind gphys =
      some (reg.mapIndex gphys, reg.maps.getD (reg.mapIndex gphys) ⟨0, false⟩) := by
  have inside : ¬ (gphys < reg.gphysAddr ∨ reg.gphysEnd ≤ gphys) := by
    simp only [Contains] at contains
    omega
  have index : toU32 ((gphys - reg.gphysAddr) / 2 ^ reg.mapOrder) = reg.mapIndex gphys :=
    toU32_of_lt ((mapped.mapIndex_lt contains).trans mapped.count)
  rw [mappingFind, if_neg inside]
  simp only [index]

theorem mappingPhysSize_eq {i : Nat} (inRange : i < reg.mapsCount)
    (inside : i * 2 ^ reg.mapOrder < reg.physSize) : reg.mappingPhysSize i = reg.mapLength i := by
  have notBeyond : ¬ reg.mapsCount ≤ i := Nat.not_le.mpr inRange
  have power : 2 ^ reg.mapOrder < 2 ^ 64 := Nat.pow_lt_pow_right (by omega) mapped.order
  have size := mapped.size
  simp only [mappingPhysSize, mappingGphysOffset, if_neg notBeyond, mapLength]
  rw [Nat.mod_eq_of_lt power, Nat.mod_eq_of_lt (inside.trans size), sub_of_le inside.le size]
  split <;> omega

section

variable (contains : reg.Contains gphys)
include contains

theorem findMapping_eq : reg.findMapping gphys =
      (add (reg.maps.getD (reg.mapIndex gphys) ⟨0, false⟩).hphysAddr (reg.mapOffset gphys),
        reg.mapLength (reg.mapIndex gphys) - reg.mapOffset gphys) := by
  obtain ⟨_, noWrap, inside⟩ := contains.bounds mapped.size
  have index := mapped.mapIndex_lt contains
  have digits := mapIndex_mul_add_mapOffset reg gphys
  have offset := mapOffset_lt mapped contains
  have length : reg.mapLength (reg.mapIndex gphys) ≤ reg.physSize :=
    (min_le_right _ _).trans (Nat.sub_le _ _)
  have size := mapped.size
  have start : reg.mapIndex gphys * 2 ^ reg.mapOrder < reg.physSize := by omega
  have notBeyond : ¬ reg.mapsCount ≤ reg.mapIndex gphys := Nat.not_le.mpr index
  have gphysOffset : reg.mappingGphysOffset (reg.mapIndex gphys) =
      reg.mapIndex gphys * 2 ^ reg.mapOrder := by
    rw [mappingGphysOffset, if_neg notBeyond, Nat.mod_eq_of_lt (start.trans size)]
  have below := contains.1
  simp only [findMapping, mappingFind_eq mapped contains, gphysOffset,
    mappingPhysSize_eq mapped index start]
  have distance : sub gphys (add reg.gphysAddr (reg.mapIndex gphys * 2 ^ reg.mapOrder)) =
      reg.mapOffset gphys := by
    rw [add_of_lt (by omega), sub_of_le (by omega) (by omega)]
    omega
  rw [distance, sub_add_add offset.le (length.trans_lt size)]

theorem findMapping_linear {i : Nat} (available : i < (reg.findMapping gphys).2) :
    reg.Contains (gphys + i) ∧ reg.findMapping (gphys + i) =
        (add (reg.findMapping gphys).1 i, (reg.findMapping gphys).2 - i) := by
  obtain ⟨isEnd, noWrap, inside⟩ := contains.bounds mapped.size
  have digits := mapIndex_mul_add_mapOffset reg gphys
  rw [findMapping_eq mapped contains] at available ⊢
  have inMap : reg.mapOffset gphys + i < 2 ^ reg.mapOrder := by
    simp only [mapLength] at available
    omega
  have inRegion : reg.mapIndex gphys * 2 ^ reg.mapOrder + (reg.mapOffset gphys + i) <
      reg.physSize := by
    simp only [mapLength] at available
    omega
  have low := contains.1
  have contains' : reg.Contains (gphys + i) := by
    refine ⟨by omega, ?_⟩
    rw [isEnd]
    omega
  have shifted : gphys + i - reg.gphysAddr =
      (reg.mapOffset gphys + i) + 2 ^ reg.mapOrder * reg.mapIndex gphys := by
    rw [mul_comm]
    omega
  have index : reg.mapIndex (gphys + i) = reg.mapIndex gphys := by
    rw [mapIndex, shifted, Nat.add_mul_div_left _ _ (Nat.two_pow_pos _),
      Nat.div_eq_of_lt inMap, zero_add]
  have offset : reg.mapOffset (gphys + i) = reg.mapOffset gphys + i := by
    rw [mapOffset, shifted, Nat.add_mul_mod_self_left, Nat.mod_eq_of_lt inMap]
  refine ⟨contains', ?_⟩
  rw [findMapping_eq mapped contains', index, offset, add_add, Nat.sub_add_eq]

theorem findMapping_available : 0 < (reg.findMapping gphys).2 := by
  rw [findMapping_eq mapped contains]
  exact Nat.sub_pos_of_lt (mapOffset_lt mapped contains)

end

end

end Mapped

end Region

namespace Aspace

variable {aspace : Aspace} {fuel gphys : Nat} {reg : Region}

/-- Every address belongs to at most one memory region, which the search finds, and all memory
regions are mapped. -/
structure WellFormed (aspace : Aspace) : Prop where
  finds : ∀ reg ∈ aspace.memtree.toList, ∀ gphys, reg.Contains gphys →
    aspace.memtree.search (Region.direction gphys) = some reg
  mapped : ∀ reg ∈ aspace.memtree.toList, reg.Mapped

theorem descend_memory : aspace.descend .memory gphys =
    (aspace.memtree.search (Region.direction gphys)).filter fun reg => reg.flags.all .memory := by
  rfl

theorem descend_real : aspace.descend (.real ||| .memory) gphys = aspace.descend .memory gphys := by
  rfl

theorem descend_some (found : aspace.descend .memory gphys = some reg) :
    reg ∈ aspace.memtree.toList ∧ reg.Contains gphys ∧ reg.flags.all .memory := by
  rw [descend_memory, Option.filter_eq_some_iff] at found
  obtain ⟨mem, stops⟩ := SearchTree.search_some found.1
  exact ⟨mem, Region.direction_eq_iff.mp stops, found.2⟩

theorem WellFormed.descend_of_contains (wellFormed : aspace.WellFormed)
    (mem : reg ∈ aspace.memtree.toList) (contains : reg.Contains gphys)
    (memory : reg.flags.all .memory) : aspace.descend .memory gphys = some reg := by
  rw [descend_memory, Option.filter_eq_some_iff]
  exact ⟨wellFormed.finds reg mem gphys contains, memory⟩

theorem findRegion_memory : aspace.findRegion fuel gphys .memory false =
    match aspace.descend .memory gphys with
    | none => .missing
    | some reg => .found reg := by
  have noManifest : ∀ flags : RegionFlags,
      flags.all (memory &&& manifestMask) = true := by
    intro flags
    have none : memory &&& manifestMask = 0 := by decide
    simp [none, all]
  unfold findRegion
  cases aspace.descend .memory gphys with
  | none => rfl
  | some reg => simp [noManifest]

theorem locate_eq : aspace.locate fuel gphys =
    match aspace.descend .memory gphys with
    | none => .missing
    | some reg => aspace.follow fuel reg gphys := by
  rw [locate, findRegion_memory]
  cases aspace.descend .memory gphys <;> rfl

theorem follow_of_alias (isAlias : reg.isAlias) : aspace.follow (fuel + 1) reg gphys =
    aspace.locate fuel (reg.gphysToAphys gphys) := by
  simp only [follow, isAlias, if_true, locate, findRegion_memory]

theorem follow_of_not_alias (notAlias : ¬ reg.isAlias) :
    aspace.follow fuel reg gphys = .found (reg, gphys) := by
  cases fuel <;> simp [follow, notAlias]

theorem locate_step {pair : Region × Nat} (found : aspace.locate fuel gphys = .found pair) :
    ∃ reg, aspace.descend .memory gphys = some reg ∧ (¬ reg.isAlias ∧ (reg, gphys) = pair ∨
      reg.isAlias ∧ ∃ less < fuel, aspace.locate less (reg.gphysToAphys gphys) = .found pair) := by
  rw [locate_eq] at found
  split at found
  · cases found
  · next reg isReg =>
    refine ⟨reg, isReg, ?_⟩
    by_cases isAlias : reg.isAlias
    · cases fuel with
      | zero => simp [follow, isAlias] at found
      | succ fuel =>
        rw [follow_of_alias isAlias] at found
        exact .inr ⟨isAlias, fuel, Nat.lt_succ_self fuel, found⟩
    · rw [follow_of_not_alias isAlias] at found
      cases found
      exact .inl ⟨isAlias, rfl⟩

theorem locate_found {target : Nat} (found : aspace.locate fuel gphys = .found (reg, target)) :
    reg ∈ aspace.memtree.toList ∧ reg.Contains target ∧ ¬ reg.isAlias ∧
      reg.flags.all .memory := by
  induction fuel using Nat.strong_induction_on generalizing gphys with
  | h fuel ih =>
    obtain ⟨first, isFirst, ⟨notAlias, ⟨⟩⟩ | ⟨-, less, isLess, onward⟩⟩ := locate_step found
    · obtain ⟨mem, contains, memory⟩ := descend_some isFirst
      exact ⟨mem, contains, notAlias, memory⟩
    · exact ih less isLess onward

theorem locate_found_unique {fuel' : Nat} {first second : Region × Nat}
    (isFirst : aspace.locate fuel gphys = .found first)
    (isSecond : aspace.locate fuel' gphys = .found second) : first = second := by
  induction fuel using Nat.strong_induction_on generalizing fuel' gphys with
  | h fuel ih =>
    obtain ⟨reg, isReg, ends⟩ := locate_step isFirst
    obtain ⟨reg', isReg', ends'⟩ := locate_step isSecond
    cases isReg.symm.trans isReg'
    rcases ends with ⟨notAlias, same⟩ | ⟨isAlias, less, isLess, onward⟩
    · exact same.symm.trans (ends'.resolve_right fun other => notAlias other.1).2
    · obtain ⟨-, _, -, onward'⟩ := ends'.resolve_left fun other => other.1 isAlias
      exact ih less isLess onward onward'

theorem physicalMap_unique {fuel' size size' : Nat} {first second : PhysicalMapping}
    (isFirst : aspace.physicalMap fuel gphys size = .found first)
    (isSecond : aspace.physicalMap fuel' gphys size' = .found second) :
    first.hphysAddr = second.hphysAddr ∧ first.regFlags = second.regFlags := by
  unfold physicalMap at isFirst isSecond
  split at isFirst
  · next located =>
    split at isSecond
    · next located' =>
      cases locate_found_unique located located'
      cases isFirst
      cases isSecond
      exact ⟨rfl, rfl⟩
    · cases isSecond
    · cases isSecond
  · cases isFirst
  · cases isFirst

theorem resolve_eq_follow (fuel : Nat) (reg : Region) (gphys : Nat) :
    aspace.resolve (.real ||| .memory) fuel reg gphys =
      match aspace.follow fuel reg gphys with
      | .found (reg, _) => .found reg
      | .missing => .missing
      | .hangs => .hangs := by
  induction fuel generalizing reg gphys with
  | zero =>
    by_cases isAlias : reg.isAlias <;> simp [resolve, follow, isAlias]
  | succ fuel ih =>
    by_cases isAlias : reg.isAlias
    · rw [follow_of_alias isAlias, locate_eq]
      simp only [resolve, isAlias, if_true, descend_real]
      cases aspace.descend .memory (reg.gphysToAphys gphys) with
      | none => rfl
      | some reg => exact ih reg _
    · simp [resolve, follow, isAlias]

theorem findRegion_real (aspace : Aspace) (fuel gphys : Nat) :
    aspace.findRegion fuel gphys (.real ||| .memory) true =
    match aspace.locate fuel gphys with
    | .found (reg, _) => if reg.flags.all .real then .found reg else .missing
    | .missing => .missing
    | .hangs => .hangs := by
  have manifest : (real ||| memory) &&& manifestMask =
      real := by
    decide
  rw [locate_eq, findRegion, descend_real]
  cases aspace.descend .memory gphys with
  | none => rfl
  | some reg =>
    simp only [if_true, resolve_eq_follow, manifest]
    cases aspace.follow fuel reg gphys <;> rfl

def Acyclic (aspace : Aspace) : Prop :=
  ∃ rank : Region → Nat, ∀ reg ∈ aspace.memtree.toList, ∀ gphys target, reg.isAlias →
    reg.Contains gphys → aspace.descend .memory (reg.gphysToAphys gphys) = some target →
      rank target < rank reg

theorem Acyclic.locate_ne_hangs (acyclic : aspace.Acyclic) :
    ∃ enough, ∀ fuel ≥ enough, ∀ gphys, aspace.locate fuel gphys ≠ .hangs := by
  obtain ⟨rank, falls⟩ := acyclic
  have ends : ∀ fuel reg gphys, reg ∈ aspace.memtree.toList → reg.Contains gphys →
      rank reg < fuel → aspace.follow fuel reg gphys ≠ .hangs := by
    intro fuel
    induction fuel with
    | zero =>
      intro reg gphys _ _ absurd
      cases absurd
    | succ fuel ih =>
      intro reg gphys mem contains below
      by_cases isAlias : reg.isAlias
      · rw [follow_of_alias isAlias, locate_eq]
        cases target : aspace.descend .memory (reg.gphysToAphys gphys) with
        | none => simp
        | some next =>
          obtain ⟨nextMembership, nextContains, _⟩ := descend_some target
          have lower := falls reg mem gphys next isAlias contains target
          exact ih next _ nextMembership nextContains (by omega)
      · simp [follow_of_not_alias isAlias]
  refine ⟨(aspace.memtree.toList.map rank).sum + 1, ?_⟩
  intro fuel enough gphys
  rw [locate_eq]
  cases found : aspace.descend .memory gphys with
  | none => simp
  | some reg =>
    obtain ⟨mem, contains, _⟩ := descend_some found
    have bounded : rank reg ≤ (aspace.memtree.toList.map rank).sum :=
      List.le_sum_of_mem (List.mem_map_of_mem mem)
    exact ends fuel reg gphys mem contains (by omega)

end Aspace

end Xvisor.Guest
