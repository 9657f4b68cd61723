import Xvisor.Guest.Memory
import Mathlib.Order.CompletePartialOrder

/-!
# Region lookup

The overlap check, the insertion and the lookup are three descents of the same tree.
-/

namespace Xvisor.Guest

open Lib Host Option RegionFlags

namespace Region

def range (reg : Region) : Set Nat := Set.Ico reg.gphysAddr (reg.gphysAddr + reg.physSize)

variable {a b reg : Region}

theorem disjoint_range_iff (nonemptyA : 0 < a.physSize) (nonemptyB : 0 < b.physSize) :
    Disjoint a.range b.range ↔
      a.gphysAddr + a.physSize ≤ b.gphysAddr ∨ b.gphysAddr + b.physSize ≤ a.gphysAddr := by
  rw [range, range, Set.Ico_disjoint_Ico]
  omega

theorem contains_iff_mem_range (noWrap : reg.gphysAddr + reg.physSize < 2 ^ 64) (gphys : Nat) :
    reg.Contains gphys ↔ gphys ∈ reg.range := by
  rw [Contains, gphysEnd_of_noWrap noWrap]
  rfl

theorem insertDirection_ne_eq_iff {new : Region} (newNoWrap : new.gphysAddr + new.physSize < 2 ^ 64)
    (newNonempty : 0 < new.physSize) (noWrap : reg.gphysAddr + reg.physSize < 2 ^ 64)
    (nonempty : 0 < reg.physSize) :
    new.insertDirection reg ≠ .eq ↔ Disjoint new.range reg.range := by
  rw [disjoint_range_iff newNonempty nonempty, insertDirection, gphysEnd_of_noWrap newNoWrap,
    gphysEnd_of_noWrap noWrap]
  split_ifs <;> simp_all

/-- The region after its host memory was claimed, and the host RAM then. -/
def Claims (reg : Region) (env : AddEnv) (firstColor numColors : Nat) (ram : HostRam)
    (claimed : Region) (ram' : HostRam) : Prop :=
  match reg.claim env firstColor numColors with
  | none => claimed = reg ∧ ram' = ram
  | some claim => ∃ maps,
    claimMaps claim (List.range reg.mapsCount) ram reg.maps = .all ram' maps ∧
      claimed = { reg with maps := maps }

/-- Regions that a descent of the tree cannot tell apart. -/
structure SamePlace (a b : Region) : Prop where
  flags : a.flags = b.flags
  gphysAddr : a.gphysAddr = b.gphysAddr
  physSize : a.physSize = b.physSize

theorem SamePlace.trans {c : Region} (first : a.SamePlace b) (second : b.SamePlace c) :
    a.SamePlace c where
  flags := first.flags.trans second.flags
  gphysAddr := first.gphysAddr.trans second.gphysAddr
  physSize := first.physSize.trans second.physSize

theorem SamePlace.insertDirection (same : a.SamePlace b) :
    a.insertDirection = b.insertDirection := by
  funext reg
  unfold Region.insertDirection gphysEnd
  rw [same.gphysAddr, same.physSize]

theorem samePlace_placeFirst (reg : Region) (node : RegionNode) :
    (reg.placeFirst node).SamePlace reg := by
  simp only [placeFirst]
  split_ifs <;> exact ⟨rfl, rfl, rfl⟩

theorem Claims.samePlace {claimed : Region} {env : AddEnv} {firstColor numColors : Nat}
    {ram ram' : HostRam} (claims : reg.Claims env firstColor numColors ram claimed ram') :
    claimed.SamePlace reg := by
  unfold Claims at claims
  split at claims
  · rw [claims.1]
    exact ⟨rfl, rfl, rfl⟩
  · obtain ⟨maps, _, rfl⟩ := claims
    exact ⟨rfl, rfl, rfl⟩

end Region

/-! ## The checks of `region_add` -/

def Probed (env : AddEnv) (reg : Region) : Prop :=
  (reg.flags.any .isdevice && !reg.flags.any .aliased && !env.devemuProbe) = false

/-- Every check of `region_add` passes but the one for overlaps, and host memory is claimed for
the region. -/
structure Prepared (env : AddEnv) (ram : HostRam) (node : RegionNode) (reg : Region)
    (ram' : HostRam) : Prop where
  valid : isRegionNodeValid env.ops node = true
  read : ∃ read firstColor numColors, readRegion env node = .ok (read, firstColor, numColors) ∧
    (read.placeFirst node).Claims env firstColor numColors ram reg ram'
  probed : Probed env reg

def RegionNode.NoWrap (node : RegionNode) : Prop :=
  node.guestPhys.getD 0 + node.physSize.getD 0 < 2 ^ 64

instance (node : RegionNode) : Decidable node.NoWrap := inferInstanceAs (Decidable (_ < _))

variable {reg : Region}

namespace Prepared

variable {env : AddEnv} {ram ram' : HostRam} {node : RegionNode} {reg : Region}

section

variable (prepared : Prepared env ram node reg ram')
include prepared

theorem noWrap (noWrap : node.NoWrap) : reg.gphysAddr + reg.physSize < 2 ^ 64 := by
  obtain ⟨read, firstColor, numColors, isRead, claims⟩ := prepared.read
  obtain ⟨isRegion, gphys, -⟩ := readRegion_ok isRead
  obtain ⟨-, sameGphys, sameSize⟩ := claims.samePlace.trans (read.samePlace_placeFirst node)
  rw [RegionNode.NoWrap, gphys, isRegion.size, getD_some, getD_some] at noWrap
  rw [sameGphys, sameSize]
  exact noWrap

theorem nonempty : 0 < reg.physSize := by
  obtain ⟨read, firstColor, numColors, isRead, claims⟩ := prepared.read
  obtain ⟨-, -, sameSize⟩ := claims.samePlace.trans (read.samePlace_placeFirst node)
  obtain ⟨isRegion, -, notZero⟩ := readRegion_ok isRead
  rw [sameSize]
  exact physSize_pos_of_countMaps (isRegion.count ▸ notZero)

theorem regionAdd_eq (rb : Rebalance Region) (aspace : Aspace) :
    regionAdd rb env aspace ram node =
      match aspace.link rb reg with
      | some aspace' => .added reg aspace' ram'
      | none => .failed .einvalid ram := by
  obtain ⟨valid, ⟨read, firstColor, numColors, isRead, claims⟩, probed⟩ := prepared
  have same := claims.samePlace.trans (read.samePlace_placeFirst node)
  have overlap : aspace.isRegionOverlapping read = !(aspace.link rb reg).isSome := by
    have linked : ((aspace.tree reg.flags).link reg.insertDirection reg).isSome ↔ _ :=
      SearchTree.link_isSome_iff _ reg
    rw [Aspace.isRegionOverlapping, Aspace.link, isSome_map, ← same.flags,
      ← same.insertDirection]
    cases found : (aspace.tree reg.flags).search reg.insertDirection with
    | none => simp [linked.mpr found]
    | some other =>
      rw [found] at linked
      simpa using linked
  simp only [regionAdd, valid, Bool.not_true, isRead, overlap]
  cases linked : aspace.link rb reg with
  | none => simp
  | some aspace' =>
    have finish : finishAdd rb env aspace reg ram' = .added reg aspace' ram' := by
      rw [Probed] at probed
      simp [finishAdd, probed, linked]
    unfold Region.Claims at claims
    split at claims
    · next noClaim =>
      obtain ⟨rfl, rfl⟩ := claims
      simpa [noClaim] using finish
    · next claim isClaim =>
      obtain ⟨maps, all, rfl⟩ := claims
      simpa [isClaim, all] using finish

end

end Prepared

variable {rb : Rebalance Region}

theorem regionAdd_prepared {env : AddEnv} {aspace aspace' : Aspace}
    {ram ram' : HostRam} {node : RegionNode}
    (result : regionAdd rb env aspace ram node = .added reg aspace' ram') :
    Prepared env ram node reg ram' ∧ aspace.link rb reg = some aspace' := by
  have probed : ∀ {new : Region} {ram : HostRam},
      finishAdd rb env aspace new ram = .added reg aspace' ram' →
      Probed env reg ∧ ram = ram' := by
    intro new ram result
    simp only [finishAdd] at result
    split at result
    · cases result
    · next notRefused =>
      split at result
      · cases result
        exact ⟨Bool.eq_false_iff.mpr notRefused, rfl⟩
      · cases result
  simp only [regionAdd] at result
  split at result
  · cases result
  · next valid =>
    have valid : isRegionNodeValid env.ops node = true := by simpa using valid
    split at result
    · cases result
    · next read firstColor numColors isRead =>
      split at result
      · cases result
      · split at result
        · next noClaim =>
          obtain ⟨accepted, sameRam⟩ := probed result
          obtain ⟨sameReg, linked⟩ := finishAdd_added result
          refine ⟨⟨valid, ⟨read, firstColor, numColors, isRead, ?_⟩, accepted⟩, linked⟩
          rw [Region.Claims, noClaim]
          exact ⟨sameReg, sameRam.symm⟩
        · next claim isClaim =>
          split at result
          · next claimedRam maps all =>
            obtain ⟨accepted, sameRam⟩ := probed result
            obtain ⟨sameReg, linked⟩ := finishAdd_added result
            refine ⟨⟨valid, ⟨read, firstColor, numColors, isRead, ?_⟩, accepted⟩, linked⟩
            rw [Region.Claims, isClaim]
            exact ⟨maps, sameRam ▸ all, sameReg⟩
          · cases result
          · cases result

/-! ## Runs of `region_add` and `region_del` -/

inductive RegionEvent where
  | add (env : AddEnv) (node : RegionNode) (addProbeList : Bool)
  | del (reg : Region) (delRegTree delProbeList : Bool)
  -- others allocate and free host RAM
  | hostRam (ram : HostRam)

def regionSystem (rb : Rebalance Region) : System RegionSpace RegionEvent where
  init space := space.aspace = .empty ∧ space.ioprobeList = [] ∧ space.memprobeList = []
  step space event space' :=
    match event with
    | .add env node addProbeList => ∃ result,
      space.add rb env node addProbeList = some (space', result)
    | .del reg delRegTree delProbeList => space' = (space.del rb reg delRegTree delProbeList).1
    | .hostRam ram => space' = { space with ram := ram }

def RegionEvent.NoWrap : RegionEvent → Prop
  | .add _ node _ => node.NoWrap
  | _ => True

theorem Ordered.erase {regions : List Region} (ordered : Ordered regions) (reg : Region) :
    Ordered (regions.erase reg) where
  nonempty other mem := ordered.nonempty other (List.mem_of_mem_erase mem)
  noWrap other mem := ordered.noWrap other (List.mem_of_mem_erase mem)
  ascending := ordered.ascending.sublist List.erase_sublist

structure Aspace.InOrder (aspace : Aspace) : Prop where
  memory : Ordered aspace.memtree.toList
  io : Ordered aspace.iotree.toList

namespace Aspace.InOrder

variable {aspace : Aspace}

theorem tree (inOrder : aspace.InOrder) (regFlags : RegionFlags) :
    Ordered (aspace.tree regFlags).toList := by
  unfold Aspace.tree
  split
  · exact inOrder.io
  · exact inOrder.memory

theorem link (inOrder : aspace.InOrder) {new : Region}
    {aspace' : Aspace} (linked : aspace.link rb new = some aspace')
    (noWrap : new.gphysAddr + new.physSize < 2 ^ 64) (nonempty : 0 < new.physSize) :
    aspace'.InOrder := by
  have ordered := inOrder.tree new.flags
  simp only [Aspace.link] at linked
  obtain ⟨tree, isTree, isAspace⟩ := map_eq_some_iff.mp linked
  obtain ⟨before, after, same, grown, turns⟩ := SearchTree.link_some isTree
  obtain ⟨goRight, goLeft⟩ := turns (insertDirection_directed ordered noWrap)
  rw [same] at ordered
  have ordered := ordered.insert noWrap nonempty goRight goLeft
  rw [← grown, ← rb.toList_insertColor] at ordered
  split at isAspace
  · rw [← isAspace]
    exact ⟨inOrder.memory, ordered⟩
  · rw [← isAspace]
    exact ⟨ordered, inOrder.io⟩

theorem unlink {space : RegionSpace} (inOrder : space.aspace.InOrder) (rb : Rebalance Region)
    (reg : Region) (delRegTree delProbeList : Bool) :
    (space.unlink rb reg delRegTree delProbeList).aspace.InOrder := by
  have erased : ∀ tree : SearchTree Region, Ordered tree.toList →
      Ordered (rb.erase tree reg).toList := by
    intro tree ordered
    rw [rb.toList_erase]
    exact ordered.erase reg
  unfold RegionSpace.unlink
  dsimp only
  split_ifs
  all_goals first
    | exact inOrder
    | exact ⟨inOrder.memory, erased _ inOrder.io⟩
    | exact ⟨erased _ inOrder.memory, inOrder.io⟩

theorem step {space space' : RegionSpace} {event : RegionEvent}
    (inOrder : space.aspace.InOrder) (noWrap : event.NoWrap)
    (taken : (regionSystem rb).step space event space') : space'.aspace.InOrder := by
  cases event with
  | add env node addProbeList =>
    obtain ⟨result, added⟩ := taken
    unfold RegionSpace.add at added
    split at added
    · next reg aspace ram isAdded =>
      obtain ⟨prepared, linked⟩ := regionAdd_prepared isAdded
      have new := inOrder.link linked (prepared.noWrap noWrap) prepared.nonempty
      cases added
      split
      · exact new
      · split
        · exact new
        · exact new
    · cases added
      exact inOrder
    · cases added
  | del reg delRegTree delProbeList =>
    have unlinked := inOrder.unlink rb reg delRegTree delProbeList
    rw [show space' = _ from taken]
    unfold RegionSpace.del
    dsimp only
    split
    · exact unlinked
    · exact unlinked
  | hostRam ram =>
    rw [show space' = _ from taken]
    exact inOrder

end Aspace.InOrder

/-! ## Exactness -/

namespace Aspace

/-- The regions of a tree are disjoint, `region_add` refuses exactly what overlaps one of them,
and a lookup finds exactly the region that contains the address and carries the flags. -/
structure LookupExact (rb : Rebalance Region) (aspace : Aspace) : Prop where
  disjoint : ∀ regFlags, (aspace.tree regFlags).toList.Pairwise fun a b => Disjoint a.range b.range
  rejects : ∀ env ram node reg ram', Prepared env ram node reg ram' → node.NoWrap →
    ((∃ error freed, regionAdd rb env aspace ram node = .failed error freed) ↔
      ∃ other ∈ (aspace.tree reg.flags).toList, ¬ Disjoint reg.range other.range)
  adds : ∀ env ram node reg ram', Prepared env ram node reg ram' → node.NoWrap →
    ((∃ aspace', regionAdd rb env aspace ram node = .added reg aspace' ram') ↔
      ∀ other ∈ (aspace.tree reg.flags).toList, Disjoint reg.range other.range)
  finds : ∀ fuel gphys regFlags reg, aspace.findRegion fuel gphys regFlags false = .found reg ↔
    reg ∈ (aspace.tree regFlags).toList ∧ gphys ∈ reg.range ∧ reg.flags.all regFlags

variable {aspace : Aspace}

theorem InOrder.disjoint (inOrder : aspace.InOrder) (regFlags : RegionFlags) :
    (aspace.tree regFlags).toList.Pairwise fun a b => Disjoint a.range b.range := by
  have ordered := inOrder.tree regFlags
  apply ordered.ascending.imp_of_mem
  intro low high isLow isHigh before
  rw [Region.disjoint_range_iff (ordered.nonempty low isLow) (ordered.nonempty high isHigh)]
  exact .inl before

theorem InOrder.link_isSome_iff (inOrder : aspace.InOrder) (rb : Rebalance Region) {reg : Region}
    (noWrap : reg.gphysAddr + reg.physSize < 2 ^ 64) (nonempty : 0 < reg.physSize) :
    (aspace.link rb reg).isSome ↔
      ∀ other ∈ (aspace.tree reg.flags).toList, Disjoint reg.range other.range := by
  have ordered := inOrder.tree reg.flags
  rw [Aspace.link, isSome_map, SearchTree.link_isSome_iff,
    SearchTree.search_eq_none_iff (insertDirection_directed ordered noWrap)]
  refine forall₂_congr fun other mem => ?_
  exact Region.insertDirection_ne_eq_iff noWrap nonempty (ordered.noWrap other mem)
    (ordered.nonempty other mem)

theorem all_split (flags mask : RegionFlags) :
    flags.all mask ↔ flags.all (mask &&& ~~~manifestMask) ∧
      flags.all (mask &&& manifestMask) := by
  simp only [all_iff, BitVec.getLsbD_and, Bool.and_eq_true]
  constructor
  · intro carries
    exact ⟨fun i isAsked => carries i isAsked.1, fun i isAsked => carries i isAsked.1⟩
  · rintro ⟨others, manifest⟩ i isAsked
    by_cases isManifest : manifestMask.getLsbD i
    · exact manifest i ⟨isAsked, isManifest⟩
    · refine others i ⟨isAsked, ?_⟩
      have bounded : i < 32 := BitVec.lt_of_getLsbD isAsked
      simp only [BitVec.getLsbD_not, bounded, isManifest, decide_true, Bool.true_and, Bool.not_false]

theorem findRegion_found_iff (aspace : Aspace) (fuel gphys : Nat) (regFlags : RegionFlags)
    (reg : Region) :
    aspace.findRegion fuel gphys regFlags false = .found reg ↔
      (aspace.tree regFlags).search (Region.direction gphys) = some reg ∧
        reg.flags.all regFlags := by
  rw [all_split]
  unfold findRegion descend
  cases found : (aspace.tree regFlags).search (Region.direction gphys) with
  | none => simp
  | some other =>
    rw [some.injEq]
    by_cases carries : other.flags.all (regFlags &&& ~~~manifestMask)
    · by_cases manifest : other.flags.all (regFlags &&& manifestMask)
      · simp only [filter_some, carries, if_true, Bool.false_eq_true, if_false, manifest,
          Lookup.found.injEq]
        constructor
        · rintro rfl
          exact ⟨rfl, carries, manifest⟩
        · exact And.left
      · simp only [filter_some, carries, manifest, Bool.false_eq_true, reduceIte]
        refine iff_of_false nofun ?_
        rintro ⟨rfl, -, isManifest⟩
        exact manifest isManifest
    · simp only [filter_some, carries, reduceCtorEq, reduceIte]
      refine iff_of_false nofun ?_
      rintro ⟨rfl, isCarried, -⟩
      exact carries isCarried

theorem InOrder.search_iff (inOrder : aspace.InOrder) (gphys : Nat) (regFlags : RegionFlags)
    (reg : Region) :
    (aspace.tree regFlags).search (Region.direction gphys) = some reg ↔
      reg ∈ (aspace.tree regFlags).toList ∧ gphys ∈ reg.range := by
  have ordered := inOrder.tree regFlags
  constructor
  · intro found
    obtain ⟨mem, stops⟩ := SearchTree.search_some found
    refine ⟨mem, ?_⟩
    rw [← Region.contains_iff_mem_range (ordered.noWrap reg mem)]
    exact Region.direction_eq_iff.mp stops
  · rintro ⟨mem, inRange⟩
    rw [← Region.contains_iff_mem_range (ordered.noWrap reg mem)] at inRange
    exact ordered.finds mem inRange

theorem InOrder.lookupExact (inOrder : aspace.InOrder) (rb : Rebalance Region) :
    aspace.LookupExact rb where
  disjoint := inOrder.disjoint
  rejects env ram node reg ram' prepared noWrap := by
    have adds := inOrder.link_isSome_iff rb (prepared.noWrap noWrap) prepared.nonempty
    have rejects := not_congr adds
    simp only [not_forall, exists_prop] at rejects
    rw [prepared.regionAdd_eq, ← rejects]
    cases aspace.link rb reg with
    | none => simp
    | some aspace' => simp
  adds env ram node reg ram' prepared noWrap := by
    rw [prepared.regionAdd_eq,
      ← inOrder.link_isSome_iff rb (prepared.noWrap noWrap) prepared.nonempty]
    cases aspace.link rb reg with
    | none => simp
    | some aspace' => simp
  finds fuel gphys regFlags reg := by
    rw [findRegion_found_iff, inOrder.search_iff, and_assoc]

end Aspace

/-- Lookup is exact after any run that adds no region wrapping around. -/
theorem regionLookup_exact (rb : Rebalance Region) (space : RegionSpace)
    (reached : ((regionSystem rb).restrict fun _ event => event.NoWrap).Reachable space) :
    space.aspace.LookupExact rb := by
  have inOrder : space.aspace.InOrder := by
    apply reached.invariant fun space => space.aspace.InOrder
    · rintro space ⟨isEmpty, -⟩
      rw [isEmpty]
      exact ⟨⟨by simp [Aspace.empty], by simp [Aspace.empty], .nil⟩,
        ⟨by simp [Aspace.empty], by simp [Aspace.empty], .nil⟩⟩
    · rintro space event space' inOrder ⟨noWrap, taken⟩
      exact inOrder.step noWrap taken
  exact inOrder.lookupExact rb

theorem regionSystem_aliasOnly :
    ∃ space : RegionSpace, space.aspace.memtree.toList = [aliasRegion] ∧
      ((regionSystem (.plain _)).restrict fun _ event => event.NoWrap).Reachable space := by
  let system := (regionSystem (.plain _)).restrict fun _ event => event.NoWrap
  have ramNoWrap : twoPages.node.NoWrap := by decide
  have aliasNoWrap : aliasPage.node.NoWrap := by decide
  have start : system.Reachable ⟨.empty, [], [], twoPages.ram⟩ := .start ⟨rfl, rfl, rfl⟩
  have ram := start.step (.add twoPages.env twoPages.node false) ⟨ramNoWrap, _, rfl⟩
  have aliased := ram.step (.add aliasPage.env aliasPage.node false) ⟨aliasNoWrap, _, rfl⟩
  have deleted := aliased.step (.del ramRegion true false) ⟨trivial, rfl⟩
  exact ⟨_, rfl, deleted⟩

/-- After that run the alias is found at its own addresses. -/
theorem regionLookup_exact_aliasOnly :
    ∃ space : RegionSpace, ∀ fuel,
      space.aspace.findRegion fuel 0x5008 .memory false = .found aliasRegion := by
  obtain ⟨space, regions, reached⟩ := regionSystem_aliasOnly
  refine ⟨space, ?_⟩
  intro fuel
  apply ((regionLookup_exact (.plain _) space reached).finds fuel 0x5008 .memory aliasRegion).mpr
  refine ⟨?_, ⟨by decide, by decide⟩, by decide⟩
  rw [show space.aspace.tree .memory = space.aspace.memtree from rfl, regions]
  exact List.mem_singleton_self _

end Xvisor.Guest
