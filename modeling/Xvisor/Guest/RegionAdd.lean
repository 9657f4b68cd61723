import Mathlib.Data.List.Pairwise
import Xvisor.Guest.Aspace
import Xvisor.Host.RamLedger

/-!
# Adding and deleting a region

`region_add` reads a region from its device tree node, claims host RAM for it
and links it into the tree of its address type. The heap, the device emulators
and the shared memory instances are the environment of a call.
-/

namespace Xvisor.Guest

open Lib Host

/-! ## Device tree nodes -/

inductive ManifestType where
  | real
  | virtual
  | aliased
  deriving DecidableEq, Repr

inductive AddressType where
  | memory
  | io
  deriving DecidableEq, Repr

/-- Where the host memory of a RAM or ROM region comes from. -/
inductive Provision where
  | reserved
  | alloced
  | colored
  | shared
  deriving DecidableEq, Repr

inductive DeviceType where
  | ram (provision : Provision)
  | rom (provision : Provision)
  | device
  deriving DecidableEq, Repr

structure Shmem where
  addr : Nat
  size : Nat
  alignOrder : Nat
  deriving DecidableEq, Repr

/-- The attributes of a region node. An attribute is `none` when it is missing; so is a type
attribute with an unknown value, except that any other device type is a device.
`sharedMem` is the instance found by its name. -/
structure RegionNode where
  manifestType : Option ManifestType
  addressType : Option AddressType
  deviceType : Option DeviceType
  guestPhys : Option Nat
  hostPhys : Option Nat
  aliasPhys : Option Nat
  physSize : Option Nat
  firstColor : Option Nat
  numColors : Option Nat
  alignOrder : Option Nat
  mapOrder : Option Nat
  sharedMem : Option Shmem
  deriving DecidableEq, Repr

namespace DeviceType

def provision : DeviceType → Option Provision
  | ram provision => some provision
  | rom provision => some provision
  | device => none

end DeviceType

/-- Colours of host RAM, and what the heap and the device emulators answer. -/
structure AddEnv where
  ops : ColorOps
  mapsAllocated : Bool
  devemuProbe : Bool

def isRegionNodeValid (ops : ColorOps) (node : RegionNode) : Bool :=
  match node.manifestType, node.addressType, node.deviceType, node.guestPhys, node.physSize with
  | some manifest, some _, some kind, some gphys, some size =>
    let isReal := manifest = .real
    let isAlias := manifest = .aliased
    let isColored := kind.provision = some .colored
    let isShared := kind.provision = some .shared
    let isAlloced := kind.provision = some .alloced
    let readsHost := isReal ∧ ¬ isAlloced ∧ ¬ isColored ∧ ¬ isShared
    let firstColor := node.firstColor.getD 0
    let numColors := node.numColors.getD 0
    if readsHost ∧ node.hostPhys = none then false
    else if isAlias ∧ node.aliasPhys = none then false
    else if isColored ∧ (numColors = 0 ∨ ops.numColors ≤ firstColor ∨
        ops.numColors < Word.toU32 (firstColor + numColors)) then false
    else if isShared ∧ (node.sharedMem.all fun shm => shm.size < size) then false
    else
      let hphys := if readsHost then node.hostPhys.getD 0 else 0
      let aphys := if isAlias then node.aliasPhys.getD 0 else 0
      let alignOrder := if isColored then ops.colorOrder
        else if isShared then (node.sharedMem.map Shmem.alignOrder).getD 0
        else node.alignOrder.getD 0
      alignOrder < 64 ∧ size % 2 ^ alignOrder = 0 ∧ gphys % 2 ^ alignOrder = 0 ∧
        hphys % 2 ^ alignOrder = 0 ∧ aphys % 2 ^ alignOrder = 0
  | _, _, _, _, _ => false

/-! ## Filling in the region -/

def manifestFlags : ManifestType → RegionFlags
  | .real => .real
  | .aliased => .aliased
  | .virtual => .virtual

def addressFlags : AddressType → RegionFlags
  | .io => .io
  | .memory => .memory

def provisionFlags : Provision → RegionFlags
  | .reserved => .isreserved
  | .alloced => .isalloced
  | .colored => .iscolored
  | .shared => .isshared

def deviceFlags : DeviceType → RegionFlags
  | .ram provision => .isram ||| provisionFlags provision
  | .rom provision => .readonly ||| .isrom ||| provisionFlags provision
  | .device => .isdevice

def regionFlags (manifest : ManifestType) (address : AddressType) (kind : DeviceType) :
    RegionFlags :=
  let flags := manifestFlags manifest ||| addressFlags address ||| deviceFlags kind
  if flags.any .real && flags.any .memory && flags.any .isram then
    flags ||| .cacheable ||| .bufferable
  else flags

/-- The smallest order from the page order up to 63 that holds the region. -/
def defaultMapOrder (physSize : Nat) : Option Nat :=
  ((List.range 52).map (pageShift + ·)).find? fun order => physSize ≤ 2 ^ order

variable (reg : Region)

def Region.ownsMemory : Bool :=
  !reg.flags.any (.aliased ||| .virtual) && reg.flags.any (.isram ||| .isrom)

/-- The mapping order, which alloced and colored regions choose themselves. -/
def Region.chooseMapOrder (mapOrder : Option Nat) (default : Nat) : Nat :=
  if reg.ownsMemory && reg.flags.any .iscolored then reg.alignOrder
  else if reg.ownsMemory && reg.flags.any .isalloced then
    let order :=
      if pageShift ≤ reg.alignOrder ∧ reg.alignOrder < default then reg.alignOrder else default
    match mapOrder with
    | some chosen => if pageShift ≤ chosen then chosen else order
    | none => order
  else default

/-- The number of mappings is a 32-bit counter. -/
def countMaps (physSize mapOrder : Nat) : Nat :=
  let count := Word.toU32 (physSize / 2 ^ mapOrder)
  if count * 2 ^ mapOrder % 2 ^ 64 < physSize then Word.toU32 (count + 1) else count

def Region.identityMaps : List RegionMapping :=
  (List.range reg.mapsCount).map fun i =>
    ⟨Word.add reg.gphysAddr (reg.mappingGphysOffset i), false⟩

/-! ## Claiming host RAM -/

inductive Claim where
  | got (ram : HostRam) (hphysAddr : Nat)
  | failed
  | hangs

inductive Claimed where
  | all (ram : HostRam) (maps : List RegionMapping)
  | some (ram : HostRam) (maps : List RegionMapping)
  | hangs

def claimMaps (claim : HostRam → Nat → RegionMapping → Claim) :
    List Nat → HostRam → List RegionMapping → Claimed
  | [], ram, maps => .all ram maps
  | i :: rest, ram, maps =>
    match claim ram i (maps.getD i ⟨0, false⟩) with
    | .got ram hphysAddr => claimMaps claim rest ram (maps.set i ⟨hphysAddr, true⟩)
    | .failed => .some ram maps
    | .hangs => .hangs

def claimOfAlloc : AllocOutcome → Claim
  | .allocated ram pa _ => .got ram pa
  | .failed => .failed
  | .hangs => .hangs

def Region.reserve (ram : HostRam) (i : Nat) (map : RegionMapping) : Claim :=
  match vmmHostRamReserve ram map.hphysAddr (reg.mappingPhysSize i) with
  | (ram, .ok) => .got ram map.hphysAddr
  | _ => .failed

def Region.alloc (ram : HostRam) (i : Nat) (_ : RegionMapping) : Claim :=
  claimOfAlloc (vmmHostRamAlloc ram (reg.mappingPhysSize i) reg.alignOrder)

def Region.colorAlloc (ops : ColorOps) (firstColor numColors : Nat) (ram : HostRam) (i : Nat)
    (_ : RegionMapping) : Claim :=
  claimOfAlloc (vmmHostRamColorAlloc ram ops (Word.toU32 (firstColor + i % numColors)))

def Region.claim (env : AddEnv) (firstColor numColors : Nat) :
    Option (HostRam → Nat → RegionMapping → Claim) :=
  if !reg.ownsMemory then none
  else if reg.flags.any .isreserved then some reg.reserve
  else if reg.flags.any .isalloced then some reg.alloc
  else if reg.flags.any .iscolored then some (Region.colorAlloc env.ops firstColor numColors)
  else none

/-- The `region_ram_free_fail` part: claimed mappings are given back. -/
def Region.freeMaps (reg : Region) : List Nat → HostRam → List RegionMapping → HostRam
  | [], ram, _ => ram
  | i :: rest, ram, maps =>
    let map := maps.getD i ⟨0, false⟩
    if map.ishostram then
      reg.freeMaps rest (vmmHostRamFree ram map.hphysAddr (reg.mappingPhysSize i)).1 maps
    else reg.freeMaps rest ram maps

/-! ## The tree -/

/-- Where the descent of a new region goes from the node of another one. -/
def Region.insertDirection (new reg : Region) : Ordering :=
  if new.gphysEnd ≤ reg.gphysAddr then .lt
  else if reg.gphysEnd ≤ new.gphysAddr then .gt
  else .eq

def Aspace.isRegionOverlapping (aspace : Aspace) (new : Region) : Bool :=
  ((aspace.tree new.flags).search new.insertDirection).isSome

def Aspace.link (rb : Rebalance Region) (aspace : Aspace) (new : Region) : Option Aspace :=
  ((aspace.tree new.flags).link new.insertDirection new).map fun tree =>
    if new.flags.any .io then { aspace with iotree := rb.insertColor tree }
    else { aspace with memtree := rb.insertColor tree }

inductive AddError where
  | einvalid
  | enomem
  | attribute
  | reserve
  | probe
  deriving DecidableEq, Repr

inductive AddOutcome where
  | added (reg : Region) (aspace : Aspace) (ram : HostRam)
  | failed (error : AddError) (ram : HostRam)
  | hangs

/-- Only colored regions have colors, and these must be given. -/
def readColors (flags : RegionFlags) (node : RegionNode) : Except AddError (Nat × Nat) :=
  if flags.any .iscolored then
    match node.firstColor, node.numColors with
    | some firstColor, some numColors => .ok (firstColor, numColors)
    | _, _ => .error .attribute
  else .ok (0, 0)

def readAlignOrder (ops : ColorOps) (flags : RegionFlags) (node : RegionNode) : Nat :=
  if flags.any .iscolored then ops.colorOrder
  else if flags.any .isshared then (node.sharedMem.map Shmem.alignOrder).getD 0
  else node.alignOrder.getD 0

/-- Choose the order and number of the mappings and allocate them; an array of no element is
not allocated. -/
def Region.allocMaps (mapOrder : Option Nat) (mapsAllocated : Bool) : Except AddError Region :=
  match defaultMapOrder reg.physSize with
  | none => .error .einvalid
  | some default =>
    let order := reg.chooseMapOrder mapOrder default
    let reg := { reg with mapOrder := order, mapsCount := countMaps reg.physSize order }
    if reg.mapsCount = 0 ∨ !mapsAllocated then .error .enomem
    else .ok { reg with maps := reg.identityMaps }

def readRegion (env : AddEnv) (node : RegionNode) : Except AddError (Region × Nat × Nat) :=
  match node.manifestType, node.addressType, node.deviceType, node.guestPhys, node.physSize with
  | some manifest, some address, some kind, some gphys, some size =>
    let flags := regionFlags manifest address kind
    let aphys := if flags.any .aliased then node.aliasPhys.getD 0 else gphys
    match readColors flags node with
    | .error error => .error error
    | .ok colors =>
      if flags.any .isshared && (node.sharedMem.all fun shm => shm.size < size) then
        .error .einvalid
      else
        let reg : Region := ⟨flags, gphys, aphys, size, readAlignOrder env.ops flags node, 0, 0, []⟩
        match reg.allocMaps node.mapOrder env.mapsAllocated with
        | .error error => .error error
        | .ok reg => .ok (reg, colors)
  | _, _, _, _, _ => .error .attribute

/-- The first mapping of a real region that brings its host address along, or of a shared
one. -/
def Region.placeFirst (node : RegionNode) : Region :=
  let place (reg : Region) (hphys : Nat) : Region :=
    { reg with maps := reg.maps.set 0 ⟨hphys, false⟩ }
  let reg :=
    if reg.flags.any .real && !reg.flags.any (.isalloced ||| .iscolored ||| .isshared) then
      place reg (node.hostPhys.getD 0)
    else reg
  if reg.ownsMemory && reg.flags.any .isshared then
    place reg ((node.sharedMem.map Shmem.addr).getD 0)
  else reg

variable (rb : Rebalance Region)

/-- The end of `region_add`: probe the emulator and link the region. A failure gives the host
memory back. -/
def finishAdd (env : AddEnv) (aspace : Aspace) (reg : Region) (ram : HostRam) : AddOutcome :=
  let released := if reg.ownsMemory then
      reg.freeMaps (List.range reg.mapsCount) ram reg.maps
    else ram
  if reg.flags.any .isdevice && !reg.flags.any .aliased && !env.devemuProbe then
    .failed .probe released
  else
    match aspace.link rb reg with
    | some aspace => .added reg aspace ram
    | none => .failed .einvalid released

def regionAdd (env : AddEnv) (aspace : Aspace) (ram : HostRam) (node : RegionNode) : AddOutcome :=
  if !isRegionNodeValid env.ops node then .failed .einvalid ram
  else
    match readRegion env node with
    | .error error => .failed error ram
    | .ok (reg, firstColor, numColors) =>
      if aspace.isRegionOverlapping reg then .failed .einvalid ram
      else
        let reg := reg.placeFirst node
        match reg.claim env firstColor numColors with
        | none => finishAdd rb env aspace reg ram
        | some claim =>
          match claimMaps claim (List.range reg.mapsCount) ram reg.maps with
          | .all ram maps => finishAdd rb env aspace { reg with maps := maps } ram
          | .some ram maps =>
            .failed (if reg.flags.any .isreserved then .reserve else .enomem)
              (reg.freeMaps (List.range reg.mapsCount) ram maps)
          | .hangs => .hangs

def Aspace.empty : Aspace := ⟨.leaf, .leaf⟩

/-- What a call of `region_add` finds: its environment, the host RAM, and the node. -/
structure AddCall where
  env : AddEnv
  ram : HostRam
  node : RegionNode

/-- Address spaces built by `region_add`. -/
def aspaceSystem : System Aspace AddCall where
  init aspace := aspace = .empty
  step aspace call aspace' := ∃ reg ram,
    regionAdd rb call.env aspace call.ram call.node = .added reg aspace' ram

/-! ## Deleting a region -/

/-- The region trees and probe lists of a guest, and the host RAM. -/
structure RegionSpace where
  aspace : Aspace
  ioprobeList : List Region
  memprobeList : List Region
  ram : HostRam

def Region.releaseMaps (reg : Region) : List Nat → HostRam → RamStatus → HostRam × RamStatus
  | [], ram, rc => (ram, rc)
  | i :: rest, ram, rc =>
    let map := reg.maps.getD i ⟨0, false⟩
    if map.ishostram then
      let (ram, rc) := vmmHostRamFree ram map.hphysAddr (reg.mappingPhysSize i)
      reg.releaseMaps rest ram rc
    else reg.releaseMaps rest ram rc

namespace RegionSpace

variable (rb : Rebalance Region)

/-- `region_add`; `none` when it does not return. -/
def add (env : AddEnv) (space : RegionSpace) (node : RegionNode)
    (addProbeList : Bool) : Option (RegionSpace × Except AddError Region) :=
  match regionAdd rb env space.aspace space.ram node with
  | .added reg aspace ram =>
    let space := { space with aspace := aspace, ram := ram }
    let space := if !addProbeList then space
      else if reg.flags.any .io then { space with ioprobeList := space.ioprobeList ++ [reg] }
      else { space with memprobeList := space.memprobeList ++ [reg] }
    some (space, .ok reg)
  | .failed error ram => some ({ space with ram := ram }, .error error)
  | .hangs => none

/-- The part of `region_del` that takes the region out of its tree and its probe list. -/
def unlink (space : RegionSpace) (reg : Region) (delRegTree delProbeList : Bool) : RegionSpace :=
  let aspace := if !delRegTree then space.aspace
    else if reg.flags.any .io then
      { space.aspace with iotree := rb.erase space.aspace.iotree reg }
    else { space.aspace with memtree := rb.erase space.aspace.memtree reg }
  let space := { space with aspace := aspace }
  if !delProbeList then space
  else if reg.flags.any .io then { space with ioprobeList := space.ioprobeList.erase reg }
  else { space with memprobeList := space.memprobeList.erase reg }

def del (space : RegionSpace) (reg : Region)
    (delRegTree delProbeList : Bool) : RegionSpace × RamStatus :=
  let space := space.unlink rb reg delRegTree delProbeList
  if reg.ownsMemory then
    let (ram, rc) := reg.releaseMaps (List.range reg.mapsCount) space.ram .ok
    ({ space with ram := ram }, rc)
  else (space, .ok)

end RegionSpace

/-! ## Balance -/

/-- `freed` is `later` with what changed from `before` to `after` given back. -/
structure GivesBack (before after later freed : HostRam) : Prop where
  layout : freed.layout = later.layout
  bits : ∀ x, freed.bits x = if after.bits x = before.bits x then later.bits x else before.bits x
  free : ∀ k, freed.freeAt k = later.freeAt k + (before.freeAt k - after.freeAt k)

/-- A failed `region_add` changes nothing. Deleting the region that a successful one added
restores the host RAM, and later on it gives back what the region took. -/
def Balanced (rb : Rebalance Region) (env : AddEnv) (space : RegionSpace) (node : RegionNode) :
    Prop :=
  ∀ addProbeList space' result, space.add rb env node addProbeList = some (space', result) →
    match result with
    | .error _ => space' = space
    | .ok reg => ∀ delRegTree delProbeList,
      (space'.del rb reg delRegTree delProbeList).1.ram = space.ram ∧
      ∀ later : RegionSpace, later.ram.layout = space.ram.layout →
        (∀ k, later.ram.freeAt k + (space.ram.freeAt k - space'.ram.freeAt k) < 2 ^ 32) →
        GivesBack space.ram space'.ram later.ram
          (later.del rb reg delRegTree delProbeList).1.ram

def Region.request (reg : Region) (env : AddEnv) (firstColor numColors i : Nat) : Request where
  size := roundup2OrderSize (reg.mappingPhysSize i) reg.alignOrder
  order := reg.alignOrder
  colorMatch pa size := reg.flags.any .isalloced ||
    env.ops.colorMatch pa size (Word.toU32 (firstColor + i % numColors))

def Region.Fits (reg : Region) (env : AddEnv) (firstColor numColors : Nat) (ram : HostRam)
    (i : Nat) (map : RegionMapping) : Prop :=
  if reg.flags.any .isreserved then map.hphysAddr + reg.mappingPhysSize i < 2 ^ 64
  else reg.alignOrder ≤ reg.mapOrder ∧ reg.mappingPhysSize i < 2 ^ 44 ∧
    (reg.request env firstColor numColors i).Contained ram

def ClaimsFit (claim : HostRam → Nat → RegionMapping → Claim)
    (fits : HostRam → Nat → RegionMapping → Prop) : List Nat → HostRam → List RegionMapping → Prop
  | [], _, _ => True
  | i :: rest, ram, maps =>
    match claim ram i (maps.getD i ⟨0, false⟩) with
    | .got ram' hphysAddr => fits ram i (maps.getD i ⟨0, false⟩) ∧
      ClaimsFit claim fits rest ram' (maps.set i ⟨hphysAddr, true⟩)
    | _ => True

def AddFits (env : AddEnv) (space : RegionSpace) (node : RegionNode) : Prop :=
  isRegionNodeValid env.ops node = true → ∀ reg firstColor numColors claim,
    readRegion env node = .ok (reg, firstColor, numColors) →
    space.aspace.isRegionOverlapping reg = false →
    (reg.placeFirst node).claim env firstColor numColors = some claim →
    ClaimsFit claim ((reg.placeFirst node).Fits env firstColor numColors)
      (List.range (reg.placeFirst node).mapsCount) space.ram (reg.placeFirst node).maps

/-- Sizes and addresses for which nothing wraps. -/
structure AddBounded (ram : HostRam) (node : RegionNode) : Prop where
  size : node.physSize.getD 0 < 2 ^ 44
  host : node.hostPhys.getD 0 + node.physSize.getD 0 < 2 ^ 64
  top : ∀ bank ∈ ram.layout, bank.start + bank.size ≤ 2 ^ 63
  short : ram.Short

/-! ## Address spaces built by `region_add`

`region_add` keeps regions in order and apart if they do not wrap around the end
of the address space and their mappings can be counted in 32 bits; it checks
neither. -/

open List Region Nat Word

/-- Nonempty regions in ascending order, without overlap and without wrapping around. -/
structure Ordered (regions : List Region) : Prop where
  nonempty : ∀ reg ∈ regions, 0 < reg.physSize
  noWrap : ∀ reg ∈ regions, reg.gphysAddr + reg.physSize < 2 ^ 64
  ascending : regions.Pairwise fun low high => low.gphysAddr + low.physSize ≤ high.gphysAddr

variable {reg new : Region}

theorem Region.gphysEnd_of_noWrap (noWrap : reg.gphysAddr + reg.physSize < 2 ^ 64) :
    reg.gphysEnd = reg.gphysAddr + reg.physSize :=
  add_of_lt noWrap

variable {regions : List Region}

theorem Ordered.apart (ordered : Ordered regions) {a b : Region} (isA : a ∈ regions)
    (isB : b ∈ regions) (different : a ≠ b) :
    a.gphysAddr + a.physSize ≤ b.gphysAddr ∨ b.gphysAddr + b.physSize ≤ a.gphysAddr := by
  let Apart (a b : Region) : Prop :=
    a.gphysAddr + a.physSize ≤ b.gphysAddr ∨ b.gphysAddr + b.physSize ≤ a.gphysAddr
  have symmetric : Std.Symm Apart := ⟨fun _ _ => Or.symm⟩
  have pairwise : regions.Pairwise Apart := ordered.ascending.imp Or.inl
  exact pairwise.forall isA isB different

theorem Ordered.directed (ordered : Ordered regions) (gphys : Nat) :
    SearchTree.Directed (direction gphys) regions := by
  apply ordered.ascending.imp_of_mem
  intro low high lowMember highMember before
  have lowEnd := gphysEnd_of_noWrap (ordered.noWrap low lowMember)
  have highEnd := gphysEnd_of_noWrap (ordered.noWrap high highMember)
  unfold direction
  rw [lowEnd, highEnd]
  constructor
  all_goals split_ifs <;> first | omega | simp

theorem Ordered.finds {tree : SearchTree Region} (ordered : Ordered tree.toList)
    (mem : reg ∈ tree.toList) {gphys : Nat} (contains : reg.Contains gphys) :
    tree.search (direction gphys) = some reg := by
  cases found : tree.search (direction gphys) with
  | none =>
    have stops := direction_eq_iff.mpr contains
    exact absurd stops (SearchTree.search_none (ordered.directed gphys) found reg mem)
  | some other =>
    obtain ⟨otherMember, stops⟩ := SearchTree.search_some found
    have otherContains := direction_eq_iff.mp stops
    have regEnd := gphysEnd_of_noWrap (ordered.noWrap reg mem)
    have otherEnd := gphysEnd_of_noWrap (ordered.noWrap other otherMember)
    unfold Contains at contains otherContains
    rw [regEnd] at contains
    rw [otherEnd] at otherContains
    by_contra different
    have isOther : other ≠ reg := fun same => different (congrArg some same)
    rcases ordered.apart otherMember mem isOther with before | after
    · omega
    · omega

variable {aspace aspace' : Aspace}

theorem Ordered.wellFormed (ordered : Ordered aspace.memtree.toList)
    (mapped : ∀ reg ∈ aspace.memtree.toList, reg.Mapped) : aspace.WellFormed where
  finds _ mem _ contains := ordered.finds mem contains
  mapped := mapped

/-! ## `region_add` -/

theorem countMaps_lt (physSize mapOrder : Nat) : countMaps physSize mapOrder < 2 ^ 32 := by
  simp only [countMaps]
  split
  · exact mod_lt _ (by decide)
  · exact mod_lt _ (by decide)

variable {physSize mapOrder : Nat}

theorem countMaps_covers (size : physSize < 2 ^ 64) (counted : physSize / 2 ^ mapOrder < 2 ^ 32)
    (notZero : countMaps physSize mapOrder ≠ 0) :
    countMaps physSize mapOrder < 2 ^ 32 ∧
      physSize ≤ countMaps physSize mapOrder * 2 ^ mapOrder := by
  refine ⟨countMaps_lt physSize mapOrder, ?_⟩
  have below := div_mul_le_self physSize (2 ^ mapOrder)
  simp only [countMaps, toU32_of_lt counted, mod_eq_of_lt (below.trans_lt size)] at notZero ⊢
  split at notZero
  · next rest =>
    rw [if_pos rest]
    -- the counter only overflows to zero
    have small : physSize / 2 ^ mapOrder + 1 ≠ 2 ^ 32 := fun full => notZero (by rw [full]; rfl)
    rw [toU32_of_lt (Nat.lt_of_le_of_ne counted small), mul_comm]
    exact (lt_mul_div_succ physSize (Nat.two_pow_pos mapOrder)).le
  · next whole =>
    rw [if_neg whole]
    exact Nat.le_of_not_lt whole

theorem physSize_pos_of_countMaps (notZero : countMaps physSize mapOrder ≠ 0) : 0 < physSize := by
  apply pos_of_ne_zero
  intro empty
  apply notZero
  rw [empty]
  simp [countMaps, toU32]

structure Region.Read (reg : Region) (env : AddEnv) (node : RegionNode) : Prop where
  flags : ∃ manifest address kind, node.manifestType = some manifest ∧
    node.addressType = some address ∧ node.deviceType = some kind ∧
    reg.flags = regionFlags manifest address kind
  size : node.physSize = some reg.physSize
  align : reg.alignOrder = readAlignOrder env.ops reg.flags node
  order : ∃ default, defaultMapOrder reg.physSize = some default ∧
    reg.mapOrder = reg.chooseMapOrder node.mapOrder default
  count : reg.mapsCount = countMaps reg.physSize reg.mapOrder
  maps : reg.maps = reg.identityMaps

variable {env : AddEnv}

theorem readRegion_ok {node : RegionNode} {colors : Nat × Nat}
    (result : readRegion env node = .ok (reg, colors)) :
    reg.Read env node ∧ node.guestPhys = some reg.gphysAddr ∧ reg.mapsCount ≠ 0 := by
  simp only [readRegion] at result
  split at result
  · next manifest address kind _ _ isManifest isAddress isKind isGphys isSize =>
    split at result
    · cases result
    split at result
    · cases result
    split at result
    · cases result
    next allocated =>
    cases result
    generalize (if (regionFlags manifest address kind).any .aliased then _ else _) = aphys
      at allocated
    simp only [allocMaps] at allocated
    split at allocated
    · cases allocated
    next default isDefault =>
    split at allocated
    · cases allocated
    next notEmpty =>
    cases allocated
    exact ⟨⟨⟨manifest, address, kind, isManifest, isAddress, isKind, rfl⟩, isSize, rfl,
      ⟨default, isDefault, rfl⟩, rfl, rfl⟩, isGphys, fun empty => notEmpty (.inl empty)⟩
  · cases result

theorem placeFirst_fields (reg : Region) (node : RegionNode) :
    (reg.placeFirst node).mapsCount = reg.mapsCount ∧
      (reg.placeFirst node).physSize = reg.physSize ∧
      (reg.placeFirst node).mapOrder = reg.mapOrder := by
  simp only [placeFirst]
  split_ifs <;> exact ⟨rfl, rfl, rfl⟩

variable {ram ram' : Host.HostRam} {rb : Rebalance Region}

theorem finishAdd_added (result : finishAdd rb env aspace new ram = .added reg aspace' ram') :
    reg = new ∧ aspace.link rb reg = some aspace' := by
  simp only [finishAdd] at result
  split at result
  · cases result
  · split at result
    · next linked =>
      cases result
      exact ⟨rfl, linked⟩
    · cases result

theorem regionAdd_added {node : RegionNode}
    (result : regionAdd rb env aspace ram node = .added reg aspace' ram') :
    (reg.mapsCount = countMaps reg.physSize reg.mapOrder ∧ reg.mapsCount ≠ 0) ∧
      aspace.link rb reg = some aspace' := by
  simp only [regionAdd] at result
  split at result
  · cases result
  · split at result
    · cases result
    · next read _ _ isRead =>
      obtain ⟨count, size, order⟩ := placeFirst_fields read node
      obtain ⟨isRegion, -, notEmpty⟩ := readRegion_ok isRead
      have counted := And.intro isRegion.count notEmpty
      rw [← count, ← size, ← order] at counted
      split at result
      · cases result
      · split at result
        · obtain ⟨rfl, linked⟩ := finishAdd_added result
          exact ⟨counted, linked⟩
        · split at result
          · obtain ⟨rfl, linked⟩ := finishAdd_added result
            exact ⟨counted, linked⟩
          · cases result
          · cases result

theorem insertDirection_directed (ordered : Ordered regions)
    (noWrap : new.gphysAddr + new.physSize < 2 ^ 64) :
    SearchTree.Directed new.insertDirection regions := by
  apply ordered.ascending.imp_of_mem
  intro low high lowMember highMember before
  have lowEnd := gphysEnd_of_noWrap (ordered.noWrap low lowMember)
  have highEnd := gphysEnd_of_noWrap (ordered.noWrap high highMember)
  have newEnd := gphysEnd_of_noWrap noWrap
  unfold insertDirection
  rw [lowEnd, highEnd, newEnd]
  constructor
  all_goals split_ifs <;> first | omega | simp

theorem Ordered.insert {before after : List Region} (ordered : Ordered (before ++ after))
    (noWrap : new.gphysAddr + new.physSize < 2 ^ 64) (nonempty : 0 < new.physSize)
    (low : ∀ reg ∈ before, new.insertDirection reg = .gt)
    (high : ∀ reg ∈ after, new.insertDirection reg = .lt) : Ordered (before ++ new :: after) := by
  obtain ⟨oldNonempty, oldNoWrap, ascending⟩ := ordered
  have newEnd := gphysEnd_of_noWrap noWrap
  refine ⟨?_, ?_, ?_⟩
  · simp only [perm_middle.mem_iff, forall_mem_cons]
    exact ⟨nonempty, oldNonempty⟩
  · simp only [perm_middle.mem_iff, forall_mem_cons]
    exact ⟨noWrap, oldNoWrap⟩
  · rw [pairwise_append] at ascending ⊢
    obtain ⟨lowAscending, highAscending, across⟩ := ascending
    have aboveNew : ∀ reg ∈ after, new.gphysAddr + new.physSize ≤ reg.gphysAddr := by
      intro reg mem
      have turned := high reg mem
      unfold insertDirection at turned
      split_ifs at turned with above
      rw [newEnd] at above
      exact above
    have belowNew : ∀ reg ∈ before, reg.gphysAddr + reg.physSize ≤ new.gphysAddr := by
      intro reg mem
      have turned := low reg mem
      unfold insertDirection at turned
      split_ifs at turned with above below
      rw [gphysEnd_of_noWrap (oldNoWrap reg (mem_append_left _ mem))] at below
      exact below
    refine ⟨lowAscending, pairwise_cons.mpr ⟨aboveNew, highAscending⟩, ?_⟩
    intro lowReg isLow
    exact forall_mem_cons.mpr ⟨belowNew lowReg isLow, across lowReg isLow⟩

end Xvisor.Guest
