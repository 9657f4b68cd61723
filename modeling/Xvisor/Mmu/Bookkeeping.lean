import Xvisor.Mmu.Map

/-!
# Counters and child lists of page tables

`pte_cnt` counts the valid entries of a table, `child_cnt` its children, and every child is linked
at the entry of its address.
-/

namespace Xvisor.Mmu

open Function List Lib

/-! ## Tables and the allocator -/

/-- Start levels of the two stages and the table pools of stage 1, which are page aligned, lie
below the largest physical address and do not overlap. -/
structure Platform where
  start : Stage → Nat
  ipgtblBase : Nat
  pgtblBase : Nat
  poolCount : Nat
  start_le : ∀ stage, start stage ≤ 4
  firstAligned : 4096 ∣ ipgtblBase
  secondAligned : 4096 ∣ pgtblBase
  firstSmall : ipgtblBase + 8 * 4096 ≤ 2 ^ 56
  secondSmall : pgtblBase + poolCount * 4096 ≤ 2 ^ 56
  disjoint : ipgtblBase + 8 * 4096 ≤ pgtblBase ∨ pgtblBase + poolCount * 4096 ≤ ipgtblBase

namespace Platform

variable (platform : Platform)

def config (stage : Stage) : Config where
  stage := stage
  start := platform.start stage
  ipgtblBase := platform.ipgtblBase
  pgtblBase := platform.pgtblBase
  poolCount := platform.poolCount
  start_le := platform.start_le stage

def initTables : List Nat := (List.range 8).map fun i => platform.ipgtblBase + i * 4096

def poolTables : List Nat :=
  (List.range platform.poolCount).map (fun i => platform.pgtblBase + i * 4096) ++
    platform.initTables

theorem nodup_pages (base count : Nat) :
    ((List.range count).map fun i => base + i * 4096).Nodup := by
  refine nodup_range.map fun i j same => ?_
  omega

theorem mem_pages {base count tblPa : Nat} (aligned : 4096 ∣ base) :
    tblPa ∈ (List.range count).map (fun i => base + i * 4096) ↔
      4096 ∣ tblPa ∧ base ≤ tblPa ∧ tblPa < base + count * 4096 := by
  rw [mem_map]
  constructor
  · rintro ⟨i, isLow, rfl⟩
    rw [mem_range] at isLow
    omega
  · rintro ⟨isPage, low, high⟩
    exact ⟨(tblPa - base) / 4096, mem_range.mpr (by omega), by omega⟩

def InPool (pa : Nat) : Prop :=
  platform.pgtblBase ≤ pa ∧ pa < platform.pgtblBase + platform.poolCount * 4096

theorem mem_poolTables {tblPa : Nat} : tblPa ∈ platform.poolTables ↔ 4096 ∣ tblPa ∧
    (platform.InPool tblPa ∨
      platform.ipgtblBase ≤ tblPa ∧ tblPa < platform.ipgtblBase + 8 * 4096) := by
  rw [poolTables, initTables, mem_append, mem_pages platform.secondAligned,
    mem_pages platform.firstAligned, and_or_left, InPool]

theorem nodup_poolTables : platform.poolTables.Nodup := by
  rw [poolTables, nodup_append]
  refine ⟨nodup_pages _ _, nodup_pages _ _, ?_⟩
  intro second isSecond first isFirst same
  rw [mem_pages platform.secondAligned] at isSecond
  rw [initTables, mem_pages platform.firstAligned] at isFirst
  have := platform.disjoint
  omega

theorem address_poolTables {tblPa : Nat} (mem : tblPa ∈ platform.poolTables) :
    2 ^ 12 ∣ tblPa ∧ tblPa < 2 ^ 56 := by
  have := platform.firstSmall
  have := platform.secondSmall
  rw [mem_poolTables, InPool] at mem
  omega

/-- The page right behind the initial tables is looked up as page 8. -/
theorem pgtblPoolFind_eq_some {pa tblPa : Nat} :
    pgtblPoolFind (platform.config .stage1) pa = some tblPa ↔
      if pa / 4096 * 4096 = platform.ipgtblBase + 8 * 4096 then
        tblPa = 8 * 4096 ∧ platform.InPool tblPa
      else tblPa ∈ platform.poolTables ∧ tblPa ≤ pa ∧ pa < tblPa + 4096 := by
  have aligned := platform.firstAligned
  have aligned' := platform.secondAligned
  have disjoint := platform.disjoint
  have first : (platform.config .stage1).ipgtblBase = platform.ipgtblBase := rfl
  have second : (platform.config .stage1).pgtblBase = platform.pgtblBase := rfl
  have count : (platform.config .stage1).poolCount = platform.poolCount := rfl
  simp only [pgtblPoolFind, mem_poolTables, InPool]
  repeat' split
  all_goals
    simp only [Option.some.injEq, reduceCtorEq, false_iff]
    omega

/-- A table of a pool is found by every address in its memory, and nothing else is found. -/
def PoolFindExact (pa : Nat) : Prop :=
  ∀ tblPa, pgtblPoolFind (platform.config .stage1) pa = some tblPa ↔
    tblPa ∈ platform.poolTables ∧ tblPa ≤ pa ∧ pa < tblPa + 4096

/-- The lookup is exact unless the address is in the page right behind the initial tables, these do
not start at zero, and the second pool holds that page or page 8. -/
theorem pgtblPoolFind_exact_iff (pa : Nat) : platform.PoolFindExact pa ↔
    (pa / 4096 * 4096 = platform.ipgtblBase + 8 * 4096 → platform.ipgtblBase = 0 ∨
      ¬ platform.InPool (8 * 4096) ∧ ¬ platform.InPool (platform.ipgtblBase + 8 * 4096)) := by
  unfold PoolFindExact
  simp only [pgtblPoolFind_eq_some, mem_poolTables, InPool]
  split_ifs with behind
  · have aligned := platform.secondAligned
    constructor
    · intro exact _
      have asPage := exact (8 * 4096)
      have itself := exact (pa / 4096 * 4096)
      omega
    · intro apart tblPa
      have := apart behind
      omega
  · exact iff_of_true (fun _ => Iff.rfl) fun same => absurd same behind

/-- Of adjacent pools, the first table of the second one is not found. -/
theorem pgtblPoolFind_misses : ∃ platform : Platform, platform.InPool platform.pgtblBase ∧
    pgtblPoolFind (platform.config .stage1) platform.pgtblBase = none ∧
    ¬ platform.PoolFindExact platform.pgtblBase := by
  refine ⟨⟨fun _ => 0, 4096, 9 * 4096, 1, fun _ => Nat.zero_le 4, by decide, by decide, by decide,
    by decide, by decide⟩, ⟨by decide, by decide⟩, by decide, fun exact => ?_⟩
  exact absurd ((exact (9 * 4096)).mpr (by decide)) (by decide)

end Platform

structure PoolOwned (platform : Platform) (alloc : Alloc) (tables : List Nat) : Prop where
  all : (alloc.poolFree ++ tables).Perm platform.poolTables
  count : alloc.poolAllocCount = tables.length

structure NonpoolOwned (alloc : Alloc) (tables : List Nat) : Prop where
  registered : alloc.nonpool.Perm tables
  keys : (tables.map (· / 4096)).Nodup
  address : ∀ tblPa ∈ tables, 2 ^ 12 ∣ tblPa ∧ tblPa < 2 ^ 56

/-- The tables handed out are, for one of the stages, its own ones, and for the other stage
the foreign ones. -/
def Owned (platform : Platform) (stage : Stage) (alloc : Alloc) (own foreign : List Nat) : Prop :=
  match stage with
  | .stage1 => PoolOwned platform alloc own ∧ NonpoolOwned alloc foreign
  | .stage2 => PoolOwned platform alloc foreign ∧ NonpoolOwned alloc own

section Allocator

variable {platform : Platform} {stage : Stage} {alloc alloc' : Alloc}
  {tables tables' own own' foreign : List Nat} {tblPa : Nat}

section

variable (owned : PoolOwned platform alloc tables)
include owned

theorem PoolOwned.nodup : tables.Nodup :=
  (owned.all.nodup_iff.mpr platform.nodup_poolTables).sublist (sublist_append_right _ _)

theorem PoolOwned.address (mem : tblPa ∈ tables) : 2 ^ 12 ∣ tblPa ∧ tblPa < 2 ^ 56 :=
  platform.address_poolTables (owned.all.subset (mem_append_right _ mem))

theorem PoolOwned.perm (permuted : tables.Perm tables') : PoolOwned platform alloc tables' where
  all := (permuted.symm.append_left _).trans owned.all
  count := owned.count.trans permuted.length_eq

theorem PoolOwned.total :
    alloc.poolFree.length + alloc.poolAllocCount = platform.poolCount + 8 := by
  rw [owned.count, ← length_append, owned.all.length_eq]
  simp [Platform.poolTables, Platform.initTables]

theorem PoolOwned.count_lt : alloc.poolFree.length + alloc.poolAllocCount < 2 ^ 64 := by
  have := owned.total
  have := platform.secondSmall
  omega

theorem PoolOwned.handOut {rest : List Nat} (free : alloc.poolFree = tblPa :: rest) :
    PoolOwned platform { alloc with
      poolFree := rest, poolAllocCount := (alloc.poolAllocCount + 1) % 2 ^ 64 }
      (tblPa :: tables) := by
  have small := owned.count_lt
  have all := owned.all
  rw [free] at all small
  refine ⟨perm_middle.trans all, ?_⟩
  rw [length_cons] at small ⊢
  rw [← owned.count]
  exact Nat.mod_eq_of_lt (by omega)

end

theorem PoolOwned.takeBack (owned : PoolOwned platform alloc (tblPa :: tables)) :
    PoolOwned platform (pgtblPoolFree alloc tblPa) tables := by
  have small := owned.count_lt
  have count := owned.count
  rw [length_cons] at count
  refine ⟨?_, ?_⟩
  · simp only [pgtblPoolFree, append_assoc]
    exact owned.all
  · simp only [pgtblPoolFree]
    omega

theorem NonpoolOwned.perm (owned : NonpoolOwned alloc tables)
    (permuted : tables.Perm tables') : NonpoolOwned alloc tables' where
  registered := owned.registered.trans permuted
  keys := (permuted.map _).nodup_iff.mp owned.keys
  address tblPa mem := owned.address tblPa (permuted.symm.subset mem)

theorem NonpoolOwned.handOut (owned : NonpoolOwned alloc tables) {page : Fin (2 ^ 44)}
    (new : ∀ old ∈ alloc.nonpool, old / 4096 ≠ page.val * 4096 / 4096)
    (supply : List (Option (Fin (2 ^ 44)))) :
    NonpoolOwned { alloc with supply := supply, nonpool := alloc.nonpool ++ [page.val * 4096] }
      (page.val * 4096 :: tables) := by
  refine ⟨perm_append_comm.trans (owned.registered.cons _), ?_, ?_⟩
  · rw [map_cons, nodup_cons]
    refine ⟨?_, owned.keys⟩
    intro taken
    obtain ⟨old, isOld, sameKey⟩ := mem_map.mp taken
    exact new old (owned.registered.symm.subset isOld) sameKey
  · exact forall_mem_cons.mpr ⟨by omega, owned.address⟩

theorem NonpoolOwned.takeBack (owned : NonpoolOwned alloc (tblPa :: tables)) :
    NonpoolOwned (pgtblNonpoolFree alloc tblPa) tables := by
  have keys := owned.keys
  rw [map_cons, nodup_cons] at keys
  have others : (tblPa :: tables).filter (fun other => other / 4096 ≠ tblPa / 4096) = tables := by
    rw [filter_cons_of_neg (by simp), filter_eq_self]
    intro other mem
    apply decide_eq_true
    intro sameKey
    exact keys.1 (mem_map.mpr ⟨other, mem, sameKey⟩)
  have registered := owned.registered.filter fun other => other / 4096 ≠ tblPa / 4096
  rw [others] at registered
  exact ⟨registered, keys.2, fun other mem => owned.address other (mem_cons_of_mem _ mem)⟩

namespace Owned

section

variable (owned : Owned platform stage alloc own foreign)
include owned

theorem nodup : own.Nodup := by
  cases stage with
  | stage1 => exact owned.1.nodup
  | stage2 => exact owned.2.keys.of_map _

theorem address (mem : tblPa ∈ own) : 2 ^ 12 ∣ tblPa ∧ tblPa < 2 ^ 56 := by
  cases stage with
  | stage1 => exact owned.1.address mem
  | stage2 => exact owned.2.address tblPa mem

theorem perm (permuted : own.Perm own') : Owned platform stage alloc own' foreign := by
  cases stage with
  | stage1 => exact ⟨owned.1.perm permuted, owned.2⟩
  | stage2 => exact ⟨owned.1, owned.2.perm permuted⟩

theorem pgtblAlloc_some (result : pgtblAlloc (platform.config stage) alloc = (some tblPa, alloc')) :
    Owned platform stage alloc' (tblPa :: own) foreign := by
  cases pgtblAlloc_cases result with
  | pool isStage free =>
    cases stage with
    | stage1 => exact ⟨owned.1.handOut free, owned.2.registered, owned.2.keys, owned.2.address⟩
    | stage2 => cases isStage
  | page isStage new =>
    cases stage with
    | stage1 => cases isStage
    | stage2 => exact ⟨⟨owned.1.all, owned.1.count⟩, owned.2.handOut new _⟩

theorem pgtblAlloc_none (result : pgtblAlloc (platform.config stage) alloc = (none, alloc')) :
    Owned platform stage alloc' own foreign := by
  cases pgtblAlloc_cases result
  cases stage <;>
    exact ⟨⟨owned.1.all, owned.1.count⟩, owned.2.registered, owned.2.keys, owned.2.address⟩

end

theorem pgtblRelease (owned : Owned platform stage alloc (tblPa :: own) foreign) :
    Owned platform stage (pgtblRelease (platform.config stage) alloc tblPa) own foreign := by
  cases stage with
  | stage1 => exact ⟨owned.1.takeBack, owned.2.registered, owned.2.keys, owned.2.address⟩
  | stage2 => exact ⟨⟨owned.1.all, owned.1.count⟩, owned.2.takeBack⟩

end Owned

end Allocator

namespace Pgtbl

/-! ## The books of a tree -/

section Book

variable {config : Config} {level : Nat}

def tableEntries (config : Config) (t : Pgtbl level) : Finset Nat :=
  (validEntries config t).filter fun i => pteIsTable (t.pte i)

def slot (config : Config) (child : Pgtbl level) : Nat :=
  config.levelIndex (level + 1) child.mapIa

/-- The counters of every table of a tree are exact, and each child is referenced by exactly
one table entry of its parent, the one of its address. -/
def Book (config : Config) : {level : Nat} → Pgtbl level → Prop
  | 0, t => pteCnt t = (validEntries config t).card ∧ childCnt t = 0 ∧
      childCnt t = (tableEntries config t).card
  | _ + 1, t => pteCnt t = (validEntries config t).card ∧ childCnt t = (children t).length ∧
      childCnt t = (tableEntries config t).card ∧
      ∀ child ∈ children t, Book config child ∧ slot config child ∈ tableEntries config t ∧
        ∀ i ∈ tableEntries config t, pteAddr (pte t i) = child.tblPa ↔ i = slot config child

variable {t : Pgtbl level}

theorem Book.childCnt_le (book : Book config t) : t.childCnt ≤ t.pteCnt := by
  have fewer : (tableEntries config t).card ≤ (validEntries config t).card :=
    Finset.card_filter_le _ _
  cases level with
  | zero =>
    obtain ⟨count, _, tables⟩ := book
    rwa [← count, ← tables] at fewer
  | succ level =>
    obtain ⟨count, _, tables, _⟩ := book
    rwa [← count, ← tables] at fewer

structure Linked (config : Config) (t : Pgtbl (level + 1)) : Prop where
  counted : t.childCnt = t.children.length
  nodup : (t.children.map (slot config)).Nodup
  entries : tableEntries config t = (t.children.map (slot config)).toFinset
  address : ∀ child ∈ t.children, pteAddr (t.pte (slot config child)) = child.tblPa

def Kept (config : Config) : {level : Nat} → Pgtbl level → Prop
  | 0, t => pteCnt t = (validEntries config t).card ∧ childCnt t = 0 ∧ tableEntries config t = ∅
  | _ + 1, t => pteCnt t = (validEntries config t).card ∧ Linked config t ∧
      ∀ child ∈ children t, Kept config child

theorem mem_tableEntries {i : Nat} :
    i ∈ tableEntries config t ↔
      i < config.entries level ∧ pteValid (t.pte i) ∧ pteIsTable (t.pte i) := by
  rw [tableEntries, Finset.mem_filter, mem_validEntries, and_assoc]

theorem Kept.count (kept : Kept config t) : t.pteCnt = (validEntries config t).card := by
  cases level with
  | zero => exact kept.1
  | succ level => exact kept.1

theorem Linked.slot_mem {t : Pgtbl (level + 1)} {child : Pgtbl level} (linked : Linked config t)
    (mem : child ∈ t.children) : slot config child ∈ tableEntries config t := by
  rw [linked.entries, mem_toFinset]
  exact mem_map_of_mem mem

theorem Linked.exists_child {t : Pgtbl (level + 1)} {i : Nat} (linked : Linked config t)
    (entry : i ∈ tableEntries config t) : ∃ child ∈ t.children, slot config child = i := by
  rw [linked.entries, mem_toFinset] at entry
  exact mem_map.mp entry

theorem Linked.card {t : Pgtbl (level + 1)} (linked : Linked config t) :
    (tableEntries config t).card = t.children.length := by
  rw [linked.entries, toFinset_card_of_nodup linked.nodup, length_map]

theorem Kept.book (kept : Kept config t) (nodup : (descendants t).Nodup) : Book config t := by
  induction level with
  | zero =>
    obtain ⟨count, noChild, noTable⟩ := kept
    refine ⟨count, noChild, ?_⟩
    rw [noChild, noTable, Finset.card_empty]
  | succ level ih =>
    obtain ⟨count, linked, below⟩ := kept
    refine ⟨count, linked.counted, linked.counted.trans linked.card.symm, ?_⟩
    intro child mem
    refine ⟨?_, linked.slot_mem mem, ?_⟩
    · apply ih (below child mem)
      exact ((nodup_flatMap.mp nodup).1 child mem).of_cons
    · intro i entry
      constructor
      · intro address
        obtain ⟨other, isOther, rfl⟩ := linked.exists_child entry
        rw [linked.address other isOther] at address
        rw [(inj_on_of_nodup_map (children_nodup nodup)) isOther mem address]
      · rintro rfl
        exact linked.address child mem

end Book

/-! ## Writing one entry -/

section Entries

variable {config : Config} {level : Nat} {t : Pgtbl level} {i pte count : Nat}

theorem tableEntries_setPte (old : i ∉ tableEntries config t)
    (notTable : pteValid pte → pteIsTable pte = false) :
    tableEntries config (t.setPte i pte count) = tableEntries config t := by
  ext j
  rw [mem_tableEntries, mem_tableEntries, pte_setPte]
  by_cases same : j = i
  · subst same
    rw [if_pos rfl]
    constructor
    · rintro ⟨_, valid, isTable⟩
      rw [notTable valid] at isTable
      cases isTable
    · intro entry
      exact absurd (mem_tableEntries.mpr entry) old
  · rw [if_neg same]

theorem tableEntries_setPte_table {tblPa : Nat} (inRange : i < config.entries level) (count : Nat) :
    tableEntries config (t.setPte i (pteSetTable tblPa) count) =
      insert i (tableEntries config t) := by
  ext j
  rw [Finset.mem_insert, mem_tableEntries, mem_tableEntries, pte_setPte]
  by_cases same : j = i
  · simp [same, inRange]
  · simp [same]

theorem tableEntries_setPte_zero (i count : Nat) :
    tableEntries config (t.setPte i 0 count) = (tableEntries config t).erase i := by
  ext j
  rw [Finset.mem_erase, mem_tableEntries, mem_tableEntries, pte_setPte]
  by_cases same : j = i
  · simp [same]
  · simp [same]

theorem pteCnt_setPte : (t.setPte i pte count).pteCnt = count := by
  simp [setPte, pteCnt]

theorem childCnt_setPte : (t.setPte i pte count).childCnt = t.childCnt := by
  simp [setPte, childCnt]

theorem Kept.setPte (kept : Kept config t) (old : i ∉ tableEntries config t)
    (notTable : pteValid pte → pteIsTable pte = false)
    (exact : count = (validEntries config (t.setPte i pte count)).card) :
    Kept config (t.setPte i pte count) := by
  have entries : tableEntries config (t.setPte i pte count) = tableEntries config t :=
    tableEntries_setPte old notTable
  cases level with
  | zero => exact ⟨pteCnt_setPte.trans exact, childCnt_setPte.trans kept.2.1, entries.trans kept.2.2⟩
  | succ level =>
    obtain ⟨_, linked, below⟩ := kept
    refine ⟨pteCnt_setPte.trans exact, ⟨childCnt_setPte.trans linked.counted, linked.nodup,
      entries.trans linked.entries, ?_⟩, below⟩
    intro child mem
    have other : slot config child ≠ i := by
      rintro rfl
      exact old (linked.slot_mem mem)
    rw [pte_setPte, if_neg other]
    exact linked.address child mem

end Entries

/-! ## Children -/

section Children

variable {config : Config} {level : Nat} {t : Pgtbl (level + 1)} {child child' : Pgtbl level}

theorem Kept.addChild {ia : Nat} (kept : Kept config t) (childKept : Kept config child)
    (invalid : pteValid (t.pte (config.levelIndex (level + 1) ia)) = false)
    (childSlot : slot config child = config.levelIndex (level + 1) ia)
    (address : 2 ^ 12 ∣ child.tblPa ∧ child.tblPa < 2 ^ 56) :
    Kept config ((t.setPte (config.levelIndex (level + 1) ia) (pteSetTable child.tblPa)
      (t.pteCnt + 1)).addChild child) := by
  obtain ⟨count, linked, below⟩ := kept
  rw [← childSlot] at invalid ⊢
  have inRange : slot config child < config.entries (level + 1) := config.levelIndex_lt _ _
  have notValid : slot config child ∉ validEntries config t := by
    rw [mem_validEntries, invalid]
    simp
  have new : slot config child ∉ t.children.map (slot config) := by
    intro mem
    obtain ⟨other, isOther, sameSlot⟩ := mem_map.mp mem
    have entry := linked.slot_mem isOther
    rw [sameSlot] at entry
    exact notValid (Finset.mem_of_mem_filter _ entry)
  set written := t.setPte (slot config child) (pteSetTable child.tblPa) (t.pteCnt + 1)
  have entry : ∀ i, (written.addChild child).pte i =
      if i = slot config child then pteSetTable child.tblPa else t.pte i :=
    pte_setPte (t := t) (slot config child) (pteSetTable child.tblPa) (t.pteCnt + 1)
  refine ⟨?_, ⟨?_, ?_, ?_, ?_⟩, ?_⟩
  · have valid : validEntries config (written.addChild child) =
        insert (slot config child) (validEntries config t) :=
      validEntries_setPte_valid (t := t) inRange (pteValid_pteSetTable child.tblPa) (t.pteCnt + 1)
    rw [valid, Finset.card_insert_of_notMem notValid, ← count]
    rfl
  · change t.childCnt + 1 = (child :: t.children).length
    rw [linked.counted, length_cons]
  · exact nodup_cons.mpr ⟨new, linked.nodup⟩
  · have tables : tableEntries config (written.addChild child) =
        insert (slot config child) (tableEntries config t) :=
      tableEntries_setPte_table (t := t) inRange (t.pteCnt + 1)
    rw [tables, linked.entries]
    exact (toFinset_cons).symm
  · intro other mem
    rw [entry]
    rcases mem_cons.mp mem with rfl | old
    · rw [if_pos rfl, pteAddr_pteSetTable address.1 address.2]
    · rw [if_neg, linked.address other old]
      intro same
      exact new (same ▸ mem_map_of_mem old)
  · exact forall_mem_cons.mpr ⟨childKept, below⟩

theorem Kept.putChild (kept : Kept config t) (childKept : Kept config child')
    (reached : findKey tblPa child.tblPa t.children = some child)
    (sameTblPa : child'.tblPa = child.tblPa) (sameMapIa : child'.mapIa = child.mapIa)
    (nodup : (descendants t).Nodup) : Kept config (t.putChild child') := by
  obtain ⟨count, linked, below⟩ := kept
  obtain ⟨before, after, isSplit, replaced, _⟩ := findKey_split (children_nodup nodup) reached
  have children : (t.putChild child').children = before ++ child' :: after := by
    rw [children_putChild, sameTblPa, replaced]
  have sameSlot : slot config child' = slot config child := by
    rw [slot, slot, sameMapIa]
  have slots : (t.putChild child').children.map (slot config) = t.children.map (slot config) := by
    rw [children, isSplit, map_append, map_append, map_cons, map_cons, sameSlot]
  have origin : ∀ other ∈ (t.putChild child').children, other = child' ∨ other ∈ t.children := by
    intro other mem
    exact (mem_replaceKey mem).imp_right And.left
  refine ⟨count, ⟨?_, ?_, ?_, ?_⟩, ?_⟩
  · rw [← length_map (slot config), slots, length_map]
    exact linked.counted
  · rw [slots]
    exact linked.nodup
  · rw [slots]
    exact linked.entries
  · intro other mem
    rcases origin other mem with rfl | old
    · rw [pte_putChild, sameSlot, sameTblPa]
      exact linked.address child (findKey_some reached).1
    · exact linked.address other old
  · intro other mem
    rcases origin other mem with rfl | old
    · exact childKept
    · exact below other old

theorem Kept.removeChild (kept : Kept config t)
    (reached : findKey tblPa child.tblPa t.children = some child) (nodup : (descendants t).Nodup) :
    Kept config ((t.setPte (slot config child) 0 (t.pteCnt - 1)).removeChild child) := by
  obtain ⟨count, linked, below⟩ := kept
  obtain ⟨before, after, isSplit, _, dropped⟩ := findKey_split (children_nodup nodup) reached
  have isEntry := linked.slot_mem (findKey_some reached).1
  set written := t.setPte (slot config child) 0 (t.pteCnt - 1)
  have children : (written.removeChild child).children = before ++ after := dropped
  have entry : ∀ i, (written.removeChild child).pte i =
      if i = slot config child then 0 else t.pte i :=
    pte_setPte (t := t) (slot config child) 0 (t.pteCnt - 1)
  have slots : t.children.map (slot config) =
      before.map (slot config) ++ slot config child :: after.map (slot config) := by
    rw [isSplit, map_append, map_cons]
  have slotsNodup := linked.nodup
  rw [slots, nodup_middle, nodup_cons, ← map_append] at slotsNodup
  have origin : ∀ other ∈ (written.removeChild child).children, other ∈ t.children :=
    fun other mem => mem_of_mem_filter mem
  refine ⟨?_, ⟨?_, ?_, ?_, ?_⟩, ?_⟩
  · have valid : validEntries config (written.removeChild child) =
        (validEntries config t).erase (slot config child) :=
      validEntries_setPte_zero (t := t) (slot config child) (t.pteCnt - 1)
    rw [valid, Finset.card_erase_of_mem (Finset.mem_of_mem_filter _ isEntry), ← count]
    rfl
  · change t.childCnt - 1 = _
    rw [children, linked.counted, isSplit]
    simp
  · rw [children]
    exact slotsNodup.2
  · have tables : tableEntries config (written.removeChild child) =
        (tableEntries config t).erase (slot config child) :=
      tableEntries_setPte_zero (t := t) (slot config child) (t.pteCnt - 1)
    rw [tables, linked.entries, children, slots, toFinset_eq_of_perm _ _ perm_middle,
      toFinset_cons, ← map_append]
    exact Finset.erase_insert (mt mem_toFinset.mp slotsNodup.1)
  · intro other mem
    rw [entry, if_neg]
    · exact linked.address other (origin other mem)
    · intro same
      rw [children] at mem
      exact slotsNodup.1 (same ▸ mem_map_of_mem mem)
  · exact fun other mem => below other (origin other mem)

end Children

/-! ## The operations -/

section Operations

variable {platform : Platform} {stage : Stage} {alloc alloc' : Alloc} {frame foreign : List Nat}
  {level : Nat}

/-- The root keeps its place, and the books of the tree and of the allocator are right. -/
structure Keeps (platform : Platform) (stage : Stage) (alloc : Alloc) (frame foreign : List Nat)
    {level : Nat} (t t' : Pgtbl level) : Prop where
  tblPa : t'.tblPa = t.tblPa
  mapIa : t'.mapIa = t.mapIa
  kept : Kept (platform.config stage) t'
  owned : Owned platform stage alloc (frame ++ descendants t') foreign

variable {t : Pgtbl level}

theorem Keeps.trans {t t₁ t₂ : Pgtbl level} (first : Keeps platform stage alloc frame foreign t t₁)
    (second : Keeps platform stage alloc' frame foreign t₁ t₂) :
    Keeps platform stage alloc' frame foreign t t₂ :=
  ⟨second.tblPa.trans first.tblPa, second.mapIa.trans first.mapIa, second.kept, second.owned⟩

theorem Owned.nodup_descendants
    (owned : Owned platform stage alloc (frame ++ descendants t) foreign) : (descendants t).Nodup :=
  owned.nodup.sublist (sublist_append_right _ _)

variable {pg : Page}

section Entries

variable (kept : Kept (platform.config stage) t)
  (owned : Owned platform stage alloc (frame ++ descendants t) foreign)
include kept owned

theorem Keeps.refl : Keeps platform stage alloc frame foreign t t :=
  ⟨rfl, rfl, kept, owned⟩

theorem Keeps.setPte {i pte count : Nat} (old : i ∉ tableEntries (platform.config stage) t)
    (notTable : pteValid pte → pteIsTable pte = false)
    (exact : count = (validEntries (platform.config stage) (t.setPte i pte count)).card) :
    Keeps platform stage alloc frame foreign t (t.setPte i pte count) := by
  refine ⟨?_, ?_, kept.setPte old notTable exact, ?_⟩
  · simp [Pgtbl.setPte, Pgtbl.tblPa]
  · simp [Pgtbl.setPte, Pgtbl.mapIa]
  · cases level <;> exact owned

theorem mapHere_keeps (leaf : pg.flags.leaf) :
    Keeps platform stage alloc frame foreign t (mapHere (platform.config stage) t pg).1 := by
  unfold mapHere
  by_cases valid : pteValid (t.pte ((platform.config stage).levelIndex level pg.ia))
  · rw [if_pos valid]
    exact .refl kept owned
  · rw [if_neg valid]
    have new : (platform.config stage).levelIndex level pg.ia ∉
        validEntries (platform.config stage) t :=
      fun entry => valid (mem_validEntries.mp entry).2
    apply Keeps.setPte kept owned fun entry => new (Finset.mem_of_mem_filter _ entry)
    · intro _
      rw [pteIsTable_pteSet, leaf]
      rfl
    · rw [validEntries_setPte_valid (Config.levelIndex_lt _ _ _) (pteValid_pteSet _ _ _),
        Finset.card_insert_of_notMem new, kept.count]

theorem unmapHere_keeps (notTable : (platform.config stage).levelIndex level pg.ia ∉
      tableEntries (platform.config stage) t) :
    Keeps platform stage alloc frame foreign t (unmapHere (platform.config stage) t pg).1 := by
  unfold unmapHere
  dsimp only
  split
  · exact .refl kept owned
  · next isValid =>
    split
    · exact .refl kept owned
    · have entry : (platform.config stage).levelIndex level pg.ia ∈
          validEntries (platform.config stage) t :=
        mem_validEntries.mpr ⟨Config.levelIndex_lt _ _ _, by simpa using isValid⟩
      apply Keeps.setPte kept owned notTable (by simp)
      rw [validEntries_setPte_zero, Finset.card_erase_of_mem entry, kept.count]

end Entries

theorem Owned.child {t : Pgtbl (level + 1)} {child : Pgtbl level}
    (owned : Owned platform stage alloc (frame ++ descendants t) foreign)
    (reached : findKey tblPa child.tblPa t.children = some child) :
    Owned platform stage alloc ((child.tblPa :: (frame ++ siblings t child)) ++ descendants child)
      foreign :=
  owned.perm (descendants_perm frame (Owned.nodup_descendants owned) reached)

theorem Blank.kept {config : Config} (blank : Blank t)
    (noChild : t.childCnt = 0) : Kept config t := by
  have noEntry : validEntries config t = ∅ := by
    ext i
    simp [mem_validEntries, blank.pte]
  have noTable : tableEntries config t = ∅ := by
    rw [tableEntries, noEntry, Finset.filter_empty]
  have count : t.pteCnt = (validEntries config t).card := by
    rw [noEntry, blank.pteCnt, Finset.card_empty]
  cases level with
  | zero => exact ⟨count, noChild, noTable⟩
  | succ level =>
    have empty := blank.children
    refine ⟨count, ⟨?_, ?_, ?_, ?_⟩, ?_⟩
    · rw [noChild, empty, length_nil]
    · rw [empty]
      exact nodup_nil
    · rw [noTable, empty]
      rfl
    · simp [empty]
    · simp [empty]

theorem attach_keeps {t : Pgtbl (level + 1)} {ia newPa : Nat}
    (kept : Kept (platform.config stage) t)
    (owned : Owned platform stage alloc (newPa :: (frame ++ descendants t)) foreign)
    (invalid : pteValid (t.pte ((platform.config stage).levelIndex (level + 1) ia)) = false) :
    ∃ t' child, attach (platform.config stage) t ia (fresh newPa level) = some (t', child) ∧
      Keeps platform stage alloc frame foreign t t' ∧
      findKey tblPa child.tblPa t'.children = some child := by
  unfold attach
  rw [if_neg (by simp [invalid])]
  refine ⟨_, _, rfl, ?_, ?_⟩
  · set child := (fresh newPa level).update fun t => { t with mapIa := mapMask (level + 1) ia }
      with isChild
    have childPa : child.tblPa = newPa := by
      simp [isChild, Pgtbl.tblPa]
    have childSlot : slot (platform.config stage) child =
        (platform.config stage).levelIndex (level + 1) ia := by
      simp [isChild, slot, Pgtbl.mapIa, Config.levelIndex, mapMask,
        Nat.mul_div_cancel _ (blockSize_pos (level + 1))]
    refine ⟨rfl, rfl, ?_, ?_⟩
    · have childKept : Kept (platform.config stage) child := by
        apply ((blank_fresh newPa).setMapIa _).kept
        simp [Pgtbl.childCnt]
      apply kept.addChild childKept invalid childSlot
      rw [childPa]
      exact Owned.address owned mem_cons_self
    · apply owned.perm
      have noTables : descendants child = [] := ((blank_fresh newPa).setMapIa _).descendants
      simp only [Pgtbl.addChild, descendants, children_setChildren, flatMap_cons, noTables, childPa]
      exact perm_middle.symm
  · simp [Pgtbl.addChild, findKey_cons]

theorem getOrCreateChild_keeps {t t' : Pgtbl (level + 1)} {ia : Nat}
    {child : Option (Pgtbl level)} (kept : Kept (platform.config stage) t)
    (owned : Owned platform stage alloc (frame ++ descendants t) foreign)
    (result : getOrCreateChild (platform.config stage) alloc t ia = (t', child, alloc')) :
    Keeps platform stage alloc' frame foreign t t' ∧
      ∀ c, child = some c → findKey tblPa c.tblPa t'.children = some c := by
  unfold getOrCreateChild at result
  by_cases valid : pteValid (t.pte ((platform.config stage).levelIndex (level + 1) ia))
  · rw [if_pos valid] at result
    cases result
    exact ⟨.refl kept owned, fun c isChild => getChild_find isChild⟩
  · rw [if_neg valid] at result
    split at result
    · next failed =>
      cases result
      exact ⟨.refl kept (owned.pgtblAlloc_none failed), by simp⟩
    · next newPa alloc₁ allocated =>
      obtain ⟨t₁, child₁, attached, keeps, reached⟩ :=
        attach_keeps kept (owned.pgtblAlloc_some allocated) (Bool.eq_false_iff.mpr valid)
      rw [attached] at result
      cases result
      refine ⟨keeps, ?_⟩
      rintro c ⟨rfl⟩
      exact reached

theorem freeChildren_owned {free : Pgtbl level → Alloc → Alloc × Rc}
    (freed : ∀ {frame : List Nat} {child : Pgtbl level} {alloc : Alloc},
      Kept (platform.config stage) child →
        Owned platform stage alloc (frame ++ child.tblPa :: descendants child) foreign →
          Owned platform stage (free child alloc).1 frame foreign ∧ (free child alloc).2 = .ok)
    {children : List (Pgtbl level)} {table : Table}
    (kept : ∀ child ∈ children, Kept (platform.config stage) child)
    (slots : (children.map (slot (platform.config stage))).Nodup)
    (valid : ∀ child ∈ children, pteValid (table.pte (slot (platform.config stage) child)))
    (owned : Owned platform stage alloc (frame ++ table.tblPa ::
      children.flatMap fun child => child.tblPa :: descendants child) foreign) :
    Owned platform stage (freeChildren (platform.config stage) free children table alloc).1 frame
        foreign ∧
      (freeChildren (platform.config stage) free children table alloc).2 = .ok := by
  induction children generalizing alloc table with
  | nil => exact ⟨(owned.perm perm_append_comm).pgtblRelease, rfl⟩
  | cons child rest ih =>
    obtain ⟨childOwned, done⟩ := freed (kept child mem_cons_self)
      (owned.perm (perm_childLast frame table.tblPa child rest))
    generalize childFreed : free child alloc = outcome at childOwned done
    obtain ⟨alloc₁, rc⟩ := outcome
    cases done
    have step : freeChildren (platform.config stage) free (child :: rest) table alloc =
        freeChildren (platform.config stage) free rest
          { table with
            pte := Function.update table.pte (slot (platform.config stage) child) 0 } alloc₁ := by
      rw [freeChildren]
      simp only [childFreed]
      exact if_pos (valid child mem_cons_self)
    rw [map_cons, nodup_cons] at slots
    rw [step]
    refine ih (fun other later => kept other (mem_cons_of_mem _ later))
      slots.2 ?_ childOwned
    intro other later
    have apart : slot (platform.config stage) other ≠ slot (platform.config stage) child := by
      intro same
      exact slots.1 (same ▸ mem_map_of_mem later)
    dsimp only
    rw [update_of_ne apart]
    exact valid other (mem_cons_of_mem _ later)

theorem freeDetached_owned (kept : Kept (platform.config stage) t)
    (owned : Owned platform stage alloc (frame ++ t.tblPa :: descendants t) foreign) :
    Owned platform stage (freeDetached (platform.config stage) t alloc).1 frame foreign ∧
      (freeDetached (platform.config stage) t alloc).2 = .ok := by
  induction level generalizing alloc frame with
  | zero => exact ⟨(owned.perm perm_append_comm).pgtblRelease, rfl⟩
  | succ level ih =>
    obtain ⟨_, linked, below⟩ := kept
    refine freeChildren_owned ih below linked.nodup ?_ owned
    intro child mem
    exact (mem_tableEntries.mp (linked.slot_mem mem)).2.1

section Child

variable {t : Pgtbl (level + 1)} {child child' : Pgtbl level}
  (kept : Kept (platform.config stage) t)
  (owned : Owned platform stage alloc (frame ++ descendants t) foreign)
  (reached : findKey Pgtbl.tblPa child.tblPa t.children = some child)
  (keeps : Keeps platform stage alloc' (child.tblPa :: (frame ++ siblings t child)) foreign
    child child')
include kept owned reached keeps

theorem Keeps.putChild : Keeps platform stage alloc' frame foreign t (t.putChild child') := by
  have nodup := Owned.nodup_descendants owned
  exact ⟨rfl, rfl, kept.putChild keeps.kept reached keeps.tblPa keeps.mapIa nodup,
    keeps.owned.perm (descendants_putChild_perm frame nodup reached keeps.tblPa)⟩

theorem Keeps.freeChild :
    Keeps platform stage (freeChild (platform.config stage) t child' alloc').2 frame foreign t
      (freeChild (platform.config stage) t child' alloc').1 := by
  have nodup := Owned.nodup_descendants owned
  have isEntry := kept.2.1.slot_mem (findKey_some reached).1
  set index := slot (platform.config stage) child with isIndex
  have detached : Pgtbl.freeChild (platform.config stage) t child' alloc' =
      ((t.setPte index 0 (t.pteCnt - 1)).removeChild child,
        (freeDetached (platform.config stage) child' alloc').1) := by
    have sameIndex : (platform.config stage).levelIndex (level + 1) child'.mapIa = index := by
      rw [keeps.mapIa]
      rfl
    simp only [Pgtbl.freeChild, deattach, sameIndex, Pgtbl.removeChild, keeps.tblPa]
    rw [if_pos (mem_tableEntries.mp isEntry).2.1]
  rw [detached]
  refine ⟨rfl, rfl, kept.removeChild reached nodup, ?_⟩
  apply (freeDetached_owned keeps.kept (keeps.owned.perm _)).1
  rw [keeps.tblPa]
  exact perm_middle.symm

end Child

theorem mapPage_keeps {t t' : Pgtbl level} {rc : Rc} (kept : Kept (platform.config stage) t)
    (owned : Owned platform stage alloc (frame ++ descendants t) foreign) (leaf : pg.flags.leaf)
    (result : mapPage (platform.config stage) t pg alloc = (t', alloc', rc)) :
    Keeps platform stage alloc' frame foreign t t' := by
  have maps := mapPage_maps result
  clear result
  induction maps generalizing frame with
  | refused => exact .refl kept owned
  | here => exact mapHere_keeps kept owned leaf
  | noChild created => exact (getOrCreateChild_keeps kept owned created).1
  | child _ _ created _ ih =>
    obtain ⟨first, reached⟩ := getOrCreateChild_keeps kept owned created
    have reached := reached _ rfl
    have keeps := ih (first.kept.2.2 _ (findKey_some reached).1)
      (Owned.child first.owned reached)
    exact first.trans (.putChild first.kept first.owned reached keeps)

/-- The entry for the address of a page, in the table that maps blocks of its size, points to
a table. -/
def endsAtTable (config : Config) (alloc : Alloc) : {level : Nat} → Pgtbl level → Page → Bool
  | level, t, pg =>
    if pg.sz < blockSize level then
      match level, t with
      | 0, _ => false
      | _ + 1, t =>
        match getChild config alloc t pg.ia with
        | none => false
        | some child => endsAtTable config alloc child pg
    else if pg.sz = blockSize level then
      pteValid (t.pte (config.levelIndex level pg.ia)) &&
        pteIsTable (t.pte (config.levelIndex level pg.ia))
    else false

theorem unmapPage_keeps {t t' : Pgtbl level} {freed : Bool} {rc : Rc}
    (kept : Kept (platform.config stage) t)
    (owned : Owned platform stage alloc (frame ++ descendants t) foreign)
    (notTable : endsAtTable (platform.config stage) alloc t pg = false)
    (result : unmapPage (platform.config stage) t pg alloc = (t', freed, alloc', rc)) :
    Keeps platform stage alloc' frame foreign t t' := by
  have unmaps := unmapPage_unmaps result
  clear result
  induction unmaps generalizing frame with
  | refused => exact .refl kept owned
  | @here level t t' alloc size unmapped =>
    rw [endsAtTable.eq_def] at notTable
    simp only [size, Nat.lt_irrefl, Bool.and_eq_false_imp, reduceIte] at notTable
    have notEntry : (platform.config stage).levelIndex level pg.ia ∉
        tableEntries (platform.config stage) t := by
      intro entry
      obtain ⟨_, valid, isTable⟩ := mem_tableEntries.mp entry
      rw [notTable valid] at isTable
      cases isTable
    have keeps := unmapHere_keeps kept owned notEntry
    rwa [unmapped] at keeps
  | child _ smaller isChild _ ih =>
    rw [endsAtTable.eq_def] at notTable
    simp only [if_pos smaller, isChild] at notTable
    have reached := getChild_find isChild
    exact .putChild kept owned reached (ih
      (kept.2.2 _ (findKey_some reached).1) (Owned.child owned reached) notTable)
  | freed _ smaller isChild _ ih =>
    rw [endsAtTable.eq_def] at notTable
    simp only [if_pos smaller, isChild] at notTable
    have reached := getChild_find isChild
    exact .freeChild kept owned reached (ih
      (kept.2.2 _ (findKey_some reached).1) (Owned.child owned reached) notTable)

end Operations

end Pgtbl

end Xvisor.Mmu
