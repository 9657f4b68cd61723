import Mathlib.Data.Finset.Card
import Xvisor.Mmu.Pgtbl

/-!
# Well-formed page table trees

`Sound` says that every table entry leads to a child on the table's list and that
the entry counters are exact; `AllocOk` ties the tables to the allocator. Under
both, `mmu_get_page` is the plain walk `lookup`.
-/

namespace Xvisor.Mmu

open List Lib

namespace Pgtbl

section Fields

variable {level : Nat}

@[simp] theorem table_update (f : Table → Table) (t : Pgtbl level) :
    (t.update f).table = f t.table := by
  cases level <;> rfl

@[simp] theorem table_setChildren (t : Pgtbl (level + 1)) (children : List (Pgtbl level)) :
    (t.setChildren children).table = t.table := rfl

@[simp] theorem children_update (f : Table → Table) (t : Pgtbl (level + 1)) :
    (t.update f).children = t.children := rfl

@[simp] theorem children_setChildren (t : Pgtbl (level + 1)) (children : List (Pgtbl level)) :
    (t.setChildren children).children = children := rfl

@[simp] theorem table_fresh (tblPa : Nat) :
    (fresh tblPa level).table = ⟨tblPa, 0, fun _ => 0, 0, 0⟩ := by
  cases level <;> rfl

@[simp] theorem children_fresh (tblPa : Nat) : (fresh tblPa (level + 1)).children = [] := rfl

end Fields

def validEntries (config : Config) {level : Nat} (t : Pgtbl level) : Finset Nat :=
  (Finset.range (config.entries level)).filter fun i => pteValid (t.pte i)

def Sound (config : Config) : {level : Nat} → Pgtbl level → Prop
  | 0, t => pteCnt t = (validEntries config t).card ∧
      ∀ i ∈ validEntries config t, pteIsTable (pte t i) = false
  | level + 1, t => pteCnt t = (validEntries config t).card ∧
      (∀ i ∈ validEntries config t, pteIsTable (pte t i) → ∃ child ∈ children t,
        child.tblPa = pteAddr (pte t i) ∧ config.levelIndex (level + 1) child.mapIa = i) ∧
      ∀ child ∈ children t, Sound config child

def descendants : {level : Nat} → Pgtbl level → List Nat
  | 0, _ => []
  | _ + 1, t => (children t).flatMap fun child => child.tblPa :: descendants child

/-- The walk that finds the child of an entry directly by its address. -/
def lookup (config : Config) : {level : Nat} → Pgtbl level → Nat → Option Page
  | 0, t, ia =>
    let pte := pte t (config.levelIndex 0 ia)
    if !pteValid pte then none
    else if pteIsTable pte then none
    else some (pageAt 0 ia pte)
  | level + 1, t, ia =>
    let pte := pte t (config.levelIndex (level + 1) ia)
    if !pteValid pte then none
    else if pteIsTable pte then
      match findKey tblPa (pteAddr pte) (children t) with
      | none => none
      | some child => lookup config child ia
    else some (pageAt (level + 1) ia pte)

theorem Sound.count {config : Config} {level : Nat} {t : Pgtbl level} (sound : Sound config t) :
    t.pteCnt = (validEntries config t).card := by
  cases level with
  | zero => exact sound.1
  | succ level => exact sound.1

end Pgtbl

variable (config : Config)

theorem Config.entries_pos (level : Nat) : 0 < config.entries level := by
  unfold Config.entries
  split <;> omega

theorem Config.levelIndex_lt (level ia : Nat) : config.levelIndex level ia < config.entries level :=
  Nat.mod_lt _ (config.entries_pos level)

def Config.IsPoolTable (tblPa : Nat) : Prop :=
  (∃ i < 8, tblPa = config.ipgtblBase + i * 4096) ∨
    ∃ i < config.poolCount, tblPa = config.pgtblBase + i * 4096

/-- The pools are page aligned, lie below the largest physical address, do not overlap, and
the second does not start right behind the first. -/
structure Config.PoolsApart (config : Config) : Prop where
  firstAligned : 4096 ∣ config.ipgtblBase
  secondAligned : 4096 ∣ config.pgtblBase
  firstSmall : config.ipgtblBase + 8 * 4096 ≤ 2 ^ 56
  secondSmall : config.pgtblBase + config.poolCount * 4096 ≤ 2 ^ 56
  disjoint : config.ipgtblBase + 8 * 4096 < config.pgtblBase ∨
    config.pgtblBase + config.poolCount * 4096 ≤ config.ipgtblBase

variable {config : Config}

theorem Config.IsPoolTable.aligned {tblPa : Nat} (isPool : config.IsPoolTable tblPa)
    (apart : config.PoolsApart) : 2 ^ 12 ∣ tblPa ∧ tblPa < 2 ^ 56 := by
  obtain ⟨firstAligned, secondAligned, firstSmall, secondSmall, _⟩ := apart
  rcases isPool with ⟨i, inRange, rfl⟩ | ⟨i, inRange, rfl⟩
  · constructor
    · omega
    · omega
  · constructor
    · omega
    · omega

theorem pgtblPoolFind_of_isPoolTable {tblPa : Nat} (apart : config.PoolsApart)
    (isPool : config.IsPoolTable tblPa) : pgtblPoolFind config tblPa = some tblPa := by
  have aligned := (isPool.aligned apart).1
  obtain ⟨firstAligned, secondAligned, _, _, disjoint⟩ := apart
  have rounded : tblPa / 4096 * 4096 = tblPa := by omega
  simp only [pgtblPoolFind, rounded]
  rcases isPool with ⟨i, inRange, rfl⟩ | ⟨i, inRange, rfl⟩
  · have index : (config.ipgtblBase + i * 4096 - config.ipgtblBase) / 4096 = i := by omega
    have inFirst : config.ipgtblBase ≤ config.ipgtblBase + i * 4096 ∧
        config.ipgtblBase + i * 4096 ≤ config.ipgtblBase + 8 * 4096 := by
      omega
    rw [index, if_pos ⟨inFirst, inRange⟩]
  · have index : (config.pgtblBase + i * 4096 - config.pgtblBase) / 4096 = i := by omega
    have notFirst : ¬ (config.ipgtblBase ≤ config.pgtblBase + i * 4096 ∧
        config.pgtblBase + i * 4096 ≤ config.ipgtblBase + 8 * 4096) := by
      omega
    have inSecond : config.pgtblBase ≤ config.pgtblBase + i * 4096 ∧
        config.pgtblBase + i * 4096 ≤ config.pgtblBase + config.poolCount * 4096 := by
      omega
    rw [if_neg fun both => notFirst both.1, if_neg notFirst, if_pos inSecond, index, if_pos inRange]

/-- Right behind the first pool, the first table of the second pool is not found. -/
theorem pgtblPoolFind_adjacent (aligned : 4096 ∣ config.ipgtblBase)
    (notZero : 0 < config.ipgtblBase) (adjacent : config.pgtblBase = config.ipgtblBase + 8 * 4096) :
    pgtblPoolFind config config.pgtblBase = none := by
  have rounded : config.pgtblBase / 4096 * 4096 = config.pgtblBase := by omega
  have inFirst : config.ipgtblBase ≤ config.pgtblBase ∧
      config.pgtblBase ≤ config.ipgtblBase + 8 * 4096 := by
    omega
  have offset : (config.pgtblBase - config.ipgtblBase) / 4096 = 8 := by omega
  simp only [pgtblPoolFind, rounded, offset, Nat.lt_irrefl, and_false, if_false]
  rw [if_pos inFirst, if_neg]
  omega

/-- A table of stage 1 is from the pool and one of stage 2 is a new page. A refusal uses up no
more than an answer. -/
inductive Allocates (config : Config) (alloc : Alloc) : Option Nat → Alloc → Prop
  | pool {tblPa : Nat} {rest : List Nat} (stage : config.stage = .stage1)
    (free : alloc.poolFree = tblPa :: rest) : Allocates config alloc (some tblPa) { alloc with
      poolFree := rest, poolAllocCount := (alloc.poolAllocCount + 1) % 2 ^ 64 }
  | page {page : Fin (2 ^ 44)} {rest : List (Option (Fin (2 ^ 44)))} (stage : config.stage = .stage2)
    (new : ∀ old ∈ alloc.nonpool, old / 4096 ≠ page.val * 4096 / 4096) :
    Allocates config alloc (some (page.val * 4096)) { alloc with
      supply := rest, nonpool := alloc.nonpool ++ [page.val * 4096] }
  | refused (supply : List (Option (Fin (2 ^ 44)))) :
    Allocates config alloc none { alloc with supply := supply }

theorem pgtblAlloc_cases {alloc alloc' : Alloc} {answer : Option Nat}
    (result : pgtblAlloc config alloc = (answer, alloc')) :
    Allocates config alloc answer alloc' := by
  cases stage : config.stage with
  | stage1 =>
    simp only [pgtblAlloc, stage, pgtblPoolAlloc] at result
    split at result <;> cases result
    · exact .refused _
    · next free => exact .pool stage free
  | stage2 =>
    simp only [pgtblAlloc, stage, pgtblNonpoolAlloc] at result
    split at result
    · cases result
      exact .refused _
    · cases result
      exact .refused _
    · split at result <;> cases result
      · exact .refused _
      · next new => exact .page stage (by simpa using new)

/-- The allocator knows the given tables, all different, and will hand out no one of them. -/
structure AllocOk (config : Config) (alloc : Alloc) (tables : List Nat) : Prop where
  nodup : tables.Nodup
  found : ∀ tblPa ∈ tables, pgtblFind config alloc tblPa = some tblPa
  aligned : ∀ tblPa ∈ tables, 2 ^ 12 ∣ tblPa
  small : ∀ tblPa ∈ tables, tblPa < 2 ^ 56
  pool : config.stage = .stage1 → config.PoolsApart ∧ alloc.poolFree.Nodup ∧
    (∀ tblPa ∈ alloc.poolFree, config.IsPoolTable tblPa ∧ tblPa ∉ tables) ∧
    ∀ tblPa ∈ tables, config.IsPoolTable tblPa
  nonpool : config.stage = .stage2 → (alloc.nonpool.map (· / 4096)).Nodup

namespace AllocOk

variable {config : Config} {alloc alloc' : Alloc} {tables tables' : List Nat} {tblPa : Nat}

theorem subset (ok : AllocOk config alloc tables) (nodup : tables'.Nodup)
    (included : tables' ⊆ tables) : AllocOk config alloc tables' where
  nodup := nodup
  found tblPa mem := ok.found tblPa (included mem)
  aligned tblPa mem := ok.aligned tblPa (included mem)
  small tblPa mem := ok.small tblPa (included mem)
  pool isStage1 := by
    obtain ⟨apart, freeNodup, free, isPool⟩ := ok.pool isStage1
    refine ⟨apart, freeNodup, ?_, fun tblPa mem => isPool tblPa (included mem)⟩
    intro tblPa isFree
    exact ⟨(free tblPa isFree).1, fun mem => (free tblPa isFree).2 (included mem)⟩
  nonpool := ok.nonpool

theorem perm (ok : AllocOk config alloc tables) (permuted : tables.Perm tables') :
    AllocOk config alloc tables' :=
  ok.subset (permuted.nodup_iff.mp ok.nodup) permuted.symm.subset

theorem sublist (ok : AllocOk config alloc tables) (sub : tables'.Sublist tables) :
    AllocOk config alloc tables' :=
  ok.subset (ok.nodup.sublist sub) sub.subset

theorem nonpool_find (distinct : (alloc.nonpool.map (· / 4096)).Nodup)
    (mem : tblPa ∈ alloc.nonpool) : pgtblNonpoolFind alloc tblPa = some tblPa :=
  findKey_of_nodup distinct mem

section

variable (ok : AllocOk config alloc tables)
include ok

theorem registered (stage : config.stage = .stage2) : ∀ tblPa ∈ tables, tblPa ∈ alloc.nonpool := by
  intro tblPa mem
  have found := ok.found tblPa mem
  rw [pgtblFind, stage] at found
  exact mem_of_find?_eq_some found

theorem pgtblAlloc_some (result : pgtblAlloc config alloc = (some tblPa, alloc')) :
    AllocOk config alloc' (tblPa :: tables) := by
  cases pgtblAlloc_cases result with
  | pool stage freeList =>
    obtain ⟨apart, freeNodup, free, isPool⟩ := ok.pool stage
    rw [freeList] at freeNodup free
    rw [nodup_cons] at freeNodup
    obtain ⟨firstPool, firstNew⟩ := free tblPa mem_cons_self
    have allPool : ∀ other ∈ tblPa :: tables, config.IsPoolTable other := by
      exact forall_mem_cons.mpr ⟨firstPool, isPool⟩
    refine ⟨nodup_cons.mpr ⟨firstNew, ok.nodup⟩, ?_, ?_, ?_, ?_, ?_⟩
    · intro tblPa mem
      rw [pgtblFind, stage]
      exact pgtblPoolFind_of_isPoolTable apart (allPool tblPa mem)
    · exact fun tblPa mem => ((allPool tblPa mem).aligned apart).1
    · exact fun tblPa mem => ((allPool tblPa mem).aligned apart).2
    · intro _
      refine ⟨apart, freeNodup.2, ?_, allPool⟩
      intro tblPa isFree
      obtain ⟨inPool, new⟩ := free tblPa (mem_cons_of_mem _ isFree)
      refine ⟨inPool, fun mem => ?_⟩
      rcases mem_cons.mp mem with rfl | old
      · exact freeNodup.1 isFree
      · exact new old
    · rw [stage]
      simp
  | @page page _ stage fresh =>
    have distinct' : ((alloc.nonpool ++ [page.val * 4096]).map (· / 4096)).Nodup := by
      rw [map_append, nodup_append]
      refine ⟨ok.nonpool stage, by simp, ?_⟩
      intro key isOld newKey isNew
      obtain ⟨old, mem, rfl⟩ := mem_map.mp isOld
      rw [map_singleton, mem_singleton] at isNew
      rw [isNew]
      exact fresh old mem
    have registered := ok.registered stage
    have notOld : page.val * 4096 ∉ tables := by
      intro mem
      exact fresh _ (registered _ mem) rfl
    refine ⟨nodup_cons.mpr ⟨notOld, ok.nodup⟩, ?_, ?_, ?_, ?_, fun _ => distinct'⟩
    · intro tblPa mem
      rw [pgtblFind, stage]
      apply nonpool_find distinct'
      rcases mem_cons.mp mem with rfl | old
      · simp
      · exact mem_append_left _ (registered tblPa old)
    · exact forall_mem_cons.mpr ⟨by omega, ok.aligned⟩
    · exact forall_mem_cons.mpr ⟨by omega, ok.small⟩
    · rw [stage]
      simp

theorem pgtblAlloc_none (result : pgtblAlloc config alloc = (none, alloc')) :
    AllocOk config alloc' tables := by
  cases pgtblAlloc_cases result
  exact ⟨ok.nodup, ok.found, ok.aligned, ok.small, ok.pool, ok.nonpool⟩

end

theorem pgtblRelease (ok : AllocOk config alloc (tblPa :: tables)) :
    AllocOk config (pgtblRelease config alloc tblPa) tables := by
  obtain ⟨notOther, nodup⟩ := nodup_cons.mp ok.nodup
  have rest := ok.sublist (sublist_cons_self tblPa tables)
  cases stage : config.stage with
  | stage1 =>
    obtain ⟨apart, freeNodup, free, isPool⟩ := ok.pool stage
    refine ⟨nodup, ?_, rest.aligned, rest.small, ?_, ?_⟩
    · intro other mem
      rw [pgtblFind, stage]
      exact pgtblPoolFind_of_isPoolTable apart (isPool other (mem_cons_of_mem _ mem))
    · intro _
      simp only [Mmu.pgtblRelease, stage, pgtblPoolFree]
      refine ⟨apart, ?_, ?_, fun other mem => isPool other (mem_cons_of_mem _ mem)⟩
      · rw [nodup_append]
        refine ⟨freeNodup, by simp, ?_⟩
        intro old isFree new isNew same
        rw [mem_singleton] at isNew
        subst isNew same
        exact (free _ isFree).2 mem_cons_self
      · intro other isFree
        rcases mem_append.mp isFree with old | new
        · obtain ⟨inPool, unused⟩ := free other old
          exact ⟨inPool, fun mem => unused (mem_cons_of_mem _ mem)⟩
        · rw [mem_singleton] at new
          subst new
          exact ⟨isPool _ mem_cons_self, notOther⟩
    · rw [stage]
      simp
  | stage2 =>
    have distinct := ok.nonpool stage
    have registered := ok.registered stage
    have distinct' : ((alloc.nonpool.filter (· / 4096 ≠ tblPa / 4096)).map (· / 4096)).Nodup :=
      distinct.sublist (filter_sublist.map _)
    refine ⟨nodup, ?_, rest.aligned, rest.small, ?_, ?_⟩
    · intro other mem
      simp only [pgtblFind, stage, Mmu.pgtblRelease, pgtblNonpoolFree]
      apply nonpool_find distinct'
      rw [mem_filter]
      refine ⟨registered other (mem_cons_of_mem _ mem), ?_⟩
      rw [decide_eq_true_eq]
      intro sameKey
      have same : other = tblPa := by
        have first := nonpool_find distinct (registered other (mem_cons_of_mem _ mem))
        have second := nonpool_find distinct (registered tblPa mem_cons_self)
        rw [pgtblNonpoolFind, sameKey] at first
        exact Option.some.inj (first.symm.trans second)
      rw [same] at mem
      exact notOther mem
    · rw [stage]
      simp
    · intro _
      simpa only [Mmu.pgtblRelease, stage, pgtblNonpoolFree] using distinct'

end AllocOk

/-! ## The walk -/

namespace Pgtbl

variable {config : Config} {alloc : Alloc} {level : Nat} {t : Pgtbl (level + 1)}

theorem entryChild_eq {pte : Nat}
    (found : ∀ child ∈ t.children, pgtblFind config alloc child.tblPa = some child.tblPa)
    (linked : ∃ child ∈ t.children, child.tblPa = pteAddr pte) :
    entryChild config alloc t pte = findKey tblPa (pteAddr pte) t.children := by
  obtain ⟨child, mem, address⟩ := linked
  have known := found child mem
  rw [address] at known
  simp [entryChild, known]

theorem child_mem_descendants {child : Pgtbl level}
    (mem : child ∈ t.children) : child.tblPa ∈ descendants t ∧
      ∀ tblPa ∈ descendants child, tblPa ∈ descendants t := by
  constructor
  · exact mem_flatMap.mpr ⟨child, mem, mem_cons_self⟩
  · intro tblPa below
    exact mem_flatMap.mpr ⟨child, mem, mem_cons_of_mem _ below⟩

theorem getPage_eq_lookup {t : Pgtbl level} (sound : Sound config t)
    (found : ∀ tblPa ∈ descendants t, pgtblFind config alloc tblPa = some tblPa) (ia : Nat) :
    getPage config alloc t ia = lookup config t ia := by
  induction level with
  | zero => rfl
  | succ level ih =>
    obtain ⟨_, linked, below⟩ := sound
    simp only [getPage, lookup]
    by_cases valid : pteValid (pte t (config.levelIndex (level + 1) ia))
    · by_cases isTable : pteIsTable (pte t (config.levelIndex (level + 1) ia))
      · have entry : config.levelIndex (level + 1) ia ∈ validEntries config t := by
          rw [validEntries, Finset.mem_filter, Finset.mem_range]
          exact ⟨config.levelIndex_lt _ _, valid⟩
        obtain ⟨child, mem, address, _⟩ := linked _ entry isTable
        have walk : getChild config alloc t ia =
            findKey tblPa (pteAddr (pte t (config.levelIndex (level + 1) ia))) t.children := by
          rw [getChild, if_pos ⟨valid, isTable⟩]
          apply entryChild_eq _ ⟨child, mem, address⟩
          exact fun child mem => found _ (child_mem_descendants mem).1
        rw [walk]
        simp only [valid, isTable, reduceIte]
        cases reached : findKey tblPa (pteAddr (pte t (config.levelIndex (level + 1) ia)))
            t.children with
        | none => rfl
        | some child =>
          have isChild := (findKey_some reached).1
          apply ih (below child isChild)
          exact fun tblPa isBelow => found _ ((child_mem_descendants isChild).2 _ isBelow)
      · simp [valid, isTable]
    · simp [valid]

end Pgtbl

end Xvisor.Mmu
