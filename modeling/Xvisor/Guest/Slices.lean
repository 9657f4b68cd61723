import Xvisor.Guest.Lookup
import Xvisor.Guest.RegionClaims

/-!
# The mappings of a region

When the slices that `vmm_guest_iterate_mapping` visits partition a region that `region_add` built.
-/

namespace Xvisor.Guest

open List Lib Host Nat

structure Slice where
  gphysAddr : Nat
  hphysAddr : Nat
  physSize : Nat
  deriving DecidableEq, Repr

def Slice.span (slice : Slice) : Span := ⟨slice.gphysAddr, slice.gphysAddr + slice.physSize⟩

namespace Region

def slice (reg : Region) (i : Nat) : Slice where
  gphysAddr := Word.add reg.gphysAddr (reg.mappingGphysOffset i)
  hphysAddr := (reg.maps.getD i ⟨0, false⟩).hphysAddr
  physSize := reg.mappingPhysSize i

/-- `vmm_guest_iterate_mapping`, with the calls that it makes. -/
def iterateMapping (reg : Region) : List Slice := (List.range reg.mapsCount).map reg.slice

/-- The slices tile the region, and a lookup picks the slice that contains the address. -/
structure Partitioned (reg : Region) : Prop where
  tiles : Tiles reg.gphysAddr (reg.iterateMapping.map Slice.span)
    (reg.gphysAddr + reg.physSize)
  finds : ∀ gphys, reg.gphysAddr ≤ gphys → gphys < reg.gphysAddr + reg.physSize →
    ∃ slice ∈ reg.iterateMapping, slice.span.covers gphys ∧ reg.findMapping gphys =
        (Word.add slice.hphysAddr (gphys - slice.gphysAddr), slice.span.stop - gphys)

/-- The number of mappings is the one that `region_add` computes, and not zero. -/
structure Counted (reg : Region) : Prop where
  size : reg.physSize < 2 ^ 64
  count : reg.mapsCount = countMaps reg.physSize reg.mapOrder
  notZero : reg.mapsCount ≠ 0

/-- The region ends before the end of the address space, its mapping order is a shift of a 64-bit
number, and its mappings can be counted in 32 bits. -/
structure Countable (reg : Region) : Prop where
  noWrap : reg.gphysAddr + reg.physSize < 2 ^ 64
  order : reg.mapOrder < 64
  count : reg.physSize / 2 ^ reg.mapOrder < 2 ^ 32

variable {reg : Region}

namespace Counted

section

variable (counted : reg.Counted)
include counted

theorem nonempty : 0 < reg.physSize :=
  physSize_pos_of_countMaps (counted.count ▸ counted.notZero)

theorem mapped (countable : reg.Countable) : reg.Mapped := by
  obtain ⟨small, covers⟩ :=
    countMaps_covers counted.size countable.count (counted.count ▸ counted.notZero)
  rw [← counted.count] at small covers
  exact ⟨counted.size, countable.order, small, covers⟩

theorem offset_lt {i : Nat} (inCount : i < reg.mapsCount) : i * 2 ^ reg.mapOrder < reg.physSize :=
  countMaps_offset_lt counted.size (counted.count ▸ inCount)

section

variable (countable : reg.Countable)
include countable

theorem slice_eq {i : Nat} (inCount : i < reg.mapsCount) :
    reg.slice i = ⟨reg.gphysAddr + i * 2 ^ reg.mapOrder,
      (reg.maps.getD i ⟨0, false⟩).hphysAddr, reg.mapLength i⟩ := by
  have offset := counted.offset_lt inCount
  have noWrap := countable.noWrap
  unfold slice
  rw [mappingPhysSize_eq (counted.mapped countable) inCount offset, mappingGphysOffset,
    if_neg (Nat.not_le.mpr inCount), mod_eq_of_lt (by omega), Word.add_of_lt (by omega)]

theorem tiles_from (n i : Nat) (upTo : i + n = reg.mapsCount) :
    Tiles (reg.gphysAddr + min (i * 2 ^ reg.mapOrder) reg.physSize)
      (((List.range' i n).map reg.slice).map Slice.span) (reg.gphysAddr + reg.physSize) := by
  induction n generalizing i with
  | zero =>
    have covered := (counted.mapped countable).covered
    rw [← upTo, add_zero] at covered
    exact congrArg (reg.gphysAddr + ·) (min_eq_right covered)
  | succ n ih =>
    have inCount : i < reg.mapsCount := by omega
    have offset := counted.offset_lt inCount
    have block := Nat.two_pow_pos reg.mapOrder
    have onward := ih (i + 1) (by omega)
    have next : reg.gphysAddr + min ((i + 1) * 2 ^ reg.mapOrder) reg.physSize =
        reg.gphysAddr + i * 2 ^ reg.mapOrder + reg.mapLength i := by
      rw [mapLength, succ_mul]
      omega
    rw [next] at onward
    rw [List.range'_succ, map_cons, map_cons, counted.slice_eq countable inCount]
    refine ⟨?_, ?_, onward⟩
    · simp only [Slice.span]
      omega
    · simp only [Slice.span, mapLength]
      omega

theorem tiles :
    Tiles reg.gphysAddr (reg.iterateMapping.map Slice.span) (reg.gphysAddr + reg.physSize) := by
  have all := counted.tiles_from countable reg.mapsCount 0 (zero_add _)
  rw [Nat.zero_mul, zero_min, add_zero] at all
  rw [iterateMapping, range_eq_range']
  exact all

theorem finds {gphys : Nat}
    (above : reg.gphysAddr ≤ gphys) (below : gphys < reg.gphysAddr + reg.physSize) :
    ∃ slice ∈ reg.iterateMapping, slice.span.covers gphys ∧ reg.findMapping gphys =
        (Word.add slice.hphysAddr (gphys - slice.gphysAddr), slice.span.stop - gphys) := by
  have mapped := counted.mapped countable
  have contains : reg.Contains gphys := by
    refine ⟨above, ?_⟩
    rw [gphysEnd_of_noWrap countable.noWrap]
    exact below
  have inCount := mapped.mapIndex_lt contains
  have digits := mapIndex_mul_add_mapOffset reg gphys
  have offset := mapOffset_lt mapped contains
  refine ⟨reg.slice (reg.mapIndex gphys), ?_, ?_, ?_⟩
  · exact mem_map_of_mem (mem_range.mpr inCount)
  · rw [counted.slice_eq countable inCount, Span.covers_iff]
    simp only [Slice.span]
    omega
  · rw [findMapping_eq mapped contains, counted.slice_eq countable inCount, Prod.mk.injEq]
    simp only [Slice.span]
    refine ⟨?_, by omega⟩
    congr 1
    omega

end

end

/-! ### Regions that are not partitioned -/

section

variable (counted : reg.Counted)
include counted

section

variable (partitioned : reg.Partitioned)
include partitioned

theorem noWrap_of_finds : reg.gphysAddr + reg.physSize < 2 ^ 64 := by
  have nonempty := counted.nonempty
  have size := counted.size
  by_contra wraps
  obtain ⟨slice, -, covered, found⟩ := partitioned.finds reg.gphysAddr (le_refl _) (by omega)
  have ended : reg.gphysEnd ≤ reg.gphysAddr := by
    unfold gphysEnd Word.add
    omega
  have missed : reg.findMapping reg.gphysAddr = (0, 0) := by
    simp only [findMapping, mappingFind, if_pos (Or.inr ended)]
  rw [missed, Prod.mk.injEq] at found
  rw [Span.covers_iff] at covered
  omega

theorem order_of_tiles : reg.mapOrder < 64 := by
  by_contra large
  have first : 0 < reg.mapsCount := pos_of_ne_zero counted.notZero
  have isSlice : (reg.slice 0).span ∈ reg.iterateMapping.map Slice.span :=
    mem_map_of_mem (mem_map_of_mem (mem_range.mpr first))
  have nonempty := partitioned.tiles.nonempty _ isSlice
  have noBlock : 2 ^ reg.mapOrder % 2 ^ 64 = 0 :=
    mod_eq_zero_of_dvd (pow_dvd_pow 2 (Nat.le_of_not_lt large))
  have empty : reg.mappingPhysSize 0 = 0 := by
    simp only [mappingPhysSize, if_neg (Nat.not_le.mpr first), noBlock]
    rfl
  simp only [Slice.span, slice, empty] at nonempty
  omega

theorem count_of_tiles : reg.physSize / 2 ^ reg.mapOrder < 2 ^ 32 := by
  by_contra many
  have short : ∀ span ∈ reg.iterateMapping.map Slice.span,
      span.stop ≤ span.first + 2 ^ reg.mapOrder := by
    intro span mem
    obtain ⟨slice, isSlice, rfl⟩ := mem_map.mp mem
    obtain ⟨i, -, rfl⟩ := mem_map.mp isSlice
    have power := mod_le (2 ^ reg.mapOrder) (2 ^ 64)
    simp only [Slice.span, Region.slice, mappingPhysSize]
    split_ifs <;> omega
  have reach := partitioned.tiles.le_add_mul short
  have length : (reg.iterateMapping.map Slice.span).length = reg.mapsCount := by
    simp [iterateMapping]
  have few : reg.mapsCount < 2 ^ 32 := by
    rw [counted.count]
    exact countMaps_lt _ _
  rw [length] at reach
  have blocks := div_mul_le_self reg.physSize (2 ^ reg.mapOrder)
  have fewer : reg.mapsCount * 2 ^ reg.mapOrder <
      reg.physSize / 2 ^ reg.mapOrder * 2 ^ reg.mapOrder :=
    mul_lt_mul_of_pos_right (by omega) (Nat.two_pow_pos _)
  omega

end

theorem partitioned_iff : reg.Partitioned ↔ reg.Countable := by
  constructor
  · intro partitioned
    exact ⟨counted.noWrap_of_finds partitioned, counted.order_of_tiles partitioned,
      counted.count_of_tiles partitioned⟩
  · intro countable
    exact ⟨counted.tiles countable, fun _ above below => counted.finds countable above below⟩

end

end Counted

end Region

theorem Prepared.counted {env : AddEnv} {ram ram' : HostRam} {node : RegionNode} {reg : Region}
    (prepared : Prepared env ram node reg ram')
    (count : reg.mapsCount = countMaps reg.physSize reg.mapOrder) (notZero : reg.mapsCount ≠ 0) :
    reg.Counted := by
  refine ⟨?_, count, notZero⟩
  obtain ⟨read, firstColor, numColors, isRead, claims⟩ := prepared.read
  obtain ⟨-, -, sameSize⟩ := claims.samePlace.trans (read.samePlace_placeFirst node)
  obtain ⟨default, isDefault, -⟩ := (readRegion_ok isRead).1.order
  obtain ⟨-, order, fits⟩ := defaultMapOrder_some isDefault
  have power : 2 ^ default < 2 ^ 64 := Nat.pow_lt_pow_right (by omega) (by omega)
  rw [sameSize]
  omega

/-- The mappings of a region that `region_add` built partition it if and only if it ends before
the end of the address space and its mappings can be counted. -/
theorem regionMappings_partition_iff (rb : Rebalance Region) (env : AddEnv)
    (aspace aspace' : Aspace) (ram ram' : HostRam) (node : RegionNode) (reg : Region)
    (result : regionAdd rb env aspace ram node = .added reg aspace' ram') :
    reg.Partitioned ↔ reg.Countable := by
  obtain ⟨⟨count, notZero⟩, -⟩ := regionAdd_added result
  obtain ⟨prepared, -⟩ := regionAdd_prepared result
  exact (prepared.counted count notZero).partitioned_iff

/-- The one mapping of two pages of RAM. -/
theorem regionMappings_partition_twoPages : ramRegion.Partitioned := by
  apply (regionMappings_partition_iff (.plain _) twoPages.env .empty _ twoPages.ram _ twoPages.node
    ramRegion rfl).mpr
  exact ⟨by decide, by decide, by decide⟩

/-! ## A region with too many pages -/

/-- RAM of 2^32 + 1 pages that are allocated one by one. -/
def manyPages : AddCall where
  env := twoPages.env
  ram := twoPages.ram
  node := ⟨some .real, some .memory, some (.ram .alloced), some 0x1000, none, none,
    some (2 ^ 44 + 2 ^ 12), none, none, some 12, none, none⟩

def manyPagesRegion : Region :=
  ⟨0x1169, 0x1000, 0x1000, 2 ^ 44 + 2 ^ 12, 12, 12, 2, [⟨0x90000000, true⟩, ⟨0x90001000, true⟩]⟩

theorem manyPagesRegion_counted : manyPagesRegion.Counted := ⟨by decide, by decide, by decide⟩

/-- `region_add` builds the region with two mappings of a page each. -/
theorem regionMappings_miss_pages :
    (∃ aspace ram, regionAdd (.plain _) manyPages.env .empty manyPages.ram manyPages.node =
      .added manyPagesRegion aspace ram) ∧
    manyPagesRegion.iterateMapping = [⟨0x1000, 0x90000000, 0x1000⟩, ⟨0x2000, 0x90001000, 0x1000⟩] ∧
    ¬ manyPagesRegion.Partitioned := by
  refine ⟨⟨_, _, rfl⟩, by decide, ?_⟩
  rw [manyPagesRegion_counted.partitioned_iff]
  intro countable
  exact absurd countable.count (by decide)

end Xvisor.Guest
