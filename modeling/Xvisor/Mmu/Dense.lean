import Xvisor.Mmu.Map

/-!
# Page tables without empty tables

`mmu_unmap_page` frees the tables that it empties, so every table below the root
has an entry. In such a tree each block without a mapping can be mapped, as long
as the host has pages to give.
-/

namespace Xvisor.Mmu

open List Lib

namespace Alloc

/-- The next `n` answers of the host page allocator are pages, all different and none of them
registered. -/
def Supplied (alloc : Alloc) (n : Nat) : Prop :=
  ∃ (pages : List (Fin (2 ^ 44))) (rest : List (Option (Fin (2 ^ 44)))),
    alloc.supply = pages.map some ++ rest ∧ pages.length = n ∧ pages.Nodup ∧
      ∀ page ∈ pages, ∀ old ∈ alloc.nonpool, old / 4096 ≠ page

/-- Tables are given back: the coming answers are the same, and no table is new. -/
def Returns (alloc alloc' : Alloc) : Prop :=
  alloc'.supply = alloc.supply ∧ alloc'.nonpool ⊆ alloc.nonpool

theorem Returns.refl (alloc : Alloc) : alloc.Returns alloc := ⟨rfl, List.Subset.refl _⟩

theorem Returns.trans {a b c : Alloc} (first : a.Returns b) (second : b.Returns c) : a.Returns c :=
  ⟨second.1.trans first.1, List.Subset.trans second.2 first.2⟩

theorem Returns.supplied {alloc alloc' : Alloc} {n : Nat} (returns : alloc.Returns alloc')
    (supplied : alloc.Supplied n) : alloc'.Supplied n := by
  obtain ⟨pages, rest, answers, length, nodup, new⟩ := supplied
  refine ⟨pages, rest, returns.1.trans answers, length, nodup, ?_⟩
  intro page isPage old isOld
  exact new page isPage old (returns.2 isOld)

theorem Supplied.mono {alloc : Alloc} {n m : Nat} (supplied : alloc.Supplied m) (le : n ≤ m) :
    alloc.Supplied n := by
  obtain ⟨pages, rest, answers, length, nodup, new⟩ := supplied
  refine ⟨pages.take n, (pages.drop n).map some ++ rest, ?_, ?_, ?_, ?_⟩
  · rw [← append_assoc, ← map_append, take_append_drop]
    exact answers
  · rw [length_take]
    omega
  · exact nodup.sublist (take_sublist _ _)
  · exact fun page isPage => new page (mem_of_mem_take isPage)

theorem Supplied.pgtblAlloc {config : Config} {alloc : Alloc} {n : Nat}
    (isStage2 : config.stage = .stage2) (supplied : alloc.Supplied (n + 1)) :
    ∃ newPa alloc', pgtblAlloc config alloc = (some newPa, alloc') ∧ alloc'.Supplied n := by
  obtain ⟨pages, rest, answers, length, nodup, new⟩ := supplied
  cases pages with
  | nil => cases length
  | cons page pages =>
    obtain ⟨different, nodup⟩ := nodup_cons.mp nodup
    have unregistered : ¬ alloc.nonpool.any fun old => old / 4096 = page.val * 4096 / 4096 := by
      simp only [any_eq_true, decide_eq_true_eq, not_exists, not_and]
      intro old isOld
      rw [Nat.mul_div_cancel _ (by omega)]
      exact new page mem_cons_self old isOld
    refine ⟨page.val * 4096, { alloc with
      supply := pages.map some ++ rest, nonpool := alloc.nonpool ++ [page.val * 4096] }, ?_,
      pages, rest, rfl, Nat.succ.inj length, nodup, ?_⟩
    · simp only [Mmu.pgtblAlloc, isStage2, pgtblNonpoolAlloc, answers, map_cons, cons_append]
      rw [if_neg unregistered]
    · intro other isOther old isOld
      rcases mem_append.mp isOld with isOld | isNew
      · exact new other (mem_cons_of_mem _ isOther) old isOld
      · rw [mem_singleton.mp isNew, Nat.mul_div_cancel _ (by omega)]
        intro same
        exact different (Fin.ext same ▸ isOther)

end Alloc

theorem pgtblRelease_returns (config : Config) (alloc : Alloc) (tblPa : Nat) :
    alloc.Returns (pgtblRelease config alloc tblPa) := by
  unfold pgtblRelease
  split
  · exact ⟨rfl, List.Subset.refl _⟩
  · exact ⟨rfl, filter_subset_self _⟩

namespace Pgtbl

variable {config : Config} {level : Nat}

def Dense : {level : Nat} → Pgtbl level → Prop
  | 0, _ => True
  | _ + 1, t => ∀ child ∈ children t, 0 < child.pteCnt ∧ Dense child

variable {t : Pgtbl level}

theorem Blank.dense (blank : Blank t) : Dense t := by
  cases level with
  | zero => trivial
  | succ level =>
    rw [Dense, blank.children]
    simp

theorem Dense.setPte {t : Pgtbl level} (dense : Dense t) (i pte count : Nat) :
    Dense (t.setPte i pte count) := by
  cases level with
  | zero => trivial
  | succ level => exact dense

theorem Dense.putChild {t : Pgtbl (level + 1)} {child : Pgtbl level}
    (others : ∀ other ∈ t.children, other.tblPa ≠ child.tblPa → 0 < other.pteCnt ∧ Dense other)
    (occupied : 0 < child.pteCnt) (dense : Dense child) : Dense (t.putChild child) := by
  intro other mem
  rw [children_putChild] at mem
  rcases mem_replaceKey mem with rfl | ⟨isOld, different⟩
  · exact ⟨occupied, dense⟩
  · exact others other isOld different

theorem Sound.occupied {i : Nat} (sound : Sound config t)
    (entry : i ∈ validEntries config t) : 0 < t.pteCnt := by
  rw [sound.count]
  exact Finset.card_pos.mpr ⟨i, entry⟩

theorem entry_address {i : Nat} (inRange : i < config.entries level) (base : Nat) :
    ∃ ia, ia / config.span level = base / config.span level ∧ config.levelIndex level ia = i := by
  have blockPos := blockSize_pos level
  have entriesPos := config.entries_pos level
  refine ⟨(base / config.span level * config.entries level + i) * blockSize level, ?_, ?_⟩
  · have quotient : ∀ x, x * blockSize level / config.span level = x / config.entries level := by
      intro x
      rw [Config.span, ← Nat.div_div_eq_div_mul, Nat.mul_div_cancel _ blockPos]
    rw [quotient, mul_comm, Nat.mul_add_div entriesPos, Nat.div_eq_of_lt inRange, add_zero]
  · rw [Config.levelIndex, Nat.mul_div_cancel _ blockPos, Nat.mul_add_mod_self_right,
      Nat.mod_eq_of_lt inRange]

theorem levelIndex_of_div_eq {high ia base : Nat}
    (same : ia / blockSize high = base / blockSize high) :
    config.levelIndex high ia = config.levelIndex high base := by
  rw [Config.levelIndex, same, Config.levelIndex]

theorem Dense.exists_lookup {level : Nat} {alloc : Alloc} {frame : List Nat} {t : Pgtbl level}
    {base : Nat} (isBelow : level ≤ config.start) (intact : Intact config alloc frame t)
    (dense : Dense t) (entry : config.levelIndex level base ∈ validEntries config t) :
    ∃ ia pg, ia / blockSize level = base / blockSize level ∧ lookup config t ia = some pg := by
  by_cases isTable : pteIsTable (t.pte (config.levelIndex level base))
  · cases level with
    | zero =>
      rw [intact.sound.2 _ entry] at isTable
      cases isTable
    | succ level =>
      obtain ⟨child, reached, _⟩ := intact.sound.reached intact.nodup entry isTable
      have leads : Leads config t base child := ⟨entry, isTable, reached⟩
      obtain ⟨occupied, childDense⟩ := dense child (findKey_some leads.find).1
      have childIntact := intact.child leads
      rw [childIntact.sound.count, Finset.card_pos] at occupied
      obtain ⟨i, childEntry⟩ := occupied
      obtain ⟨inner, sameTable, rfl⟩ := entry_address (mem_validEntries.mp childEntry).1 base
      obtain ⟨ia, pg, sameBlock, found⟩ :=
        Dense.exists_lookup (by omega) childIntact childDense childEntry
      have same : ia / blockSize (level + 1) = base / blockSize (level + 1) := by
        rw [← Config.span_child config isBelow, ← sameTable, Config.span,
          ← Nat.div_div_eq_div_mul, sameBlock, Nat.div_div_eq_div_mul]
      refine ⟨ia, pg, same, ?_⟩
      rw [leads.lookup (levelIndex_of_div_eq same)]
      exact found
  · exact ⟨base, _, rfl,
      lookup_of_leaf (mem_validEntries.mp entry).2 (Bool.eq_false_iff.mpr isTable)⟩
termination_by level

/-! ## Mapping into a dense tree -/

variable {alloc alloc' : Alloc} {frame : List Nat}

theorem getOrCreateChild_ok {n : Nat} {t t' : Pgtbl (level + 1)} {ia : Nat}
    {child : Option (Pgtbl level)} (isStage2 : config.stage = .stage2)
    (intact : Intact config alloc frame t) (dense : Dense t) (unmapped : lookup config t ia = none)
    (supplied : alloc.Supplied (n + 1))
    (result : getOrCreateChild config alloc t ia = (t', child, alloc')) :
    ∃ c, child = some c ∧ Dense c ∧ alloc'.Supplied n ∧
      ∀ other ∈ t'.children, other.tblPa ≠ c.tblPa → other ∈ t.children := by
  unfold getOrCreateChild at result
  by_cases valid : pteValid (t.pte (config.levelIndex (level + 1) ia))
  · rw [if_pos valid] at result
    cases result
    have isTable : pteIsTable (t.pte (config.levelIndex (level + 1) ia)) := by
      by_contra isLeaf
      rw [lookup_of_leaf valid (Bool.eq_false_iff.mpr isLeaf)] at unmapped
      cases unmapped
    have entry := levelIndex_mem_validEntries valid
    obtain ⟨c, reached, _⟩ := intact.sound.reached intact.nodup entry isTable
    have leads : Leads config t ia c := ⟨entry, isTable, reached⟩
    exact ⟨c, (getChild_leads intact).mpr leads, (dense c (findKey_some leads.find).1).2,
      supplied.mono (Nat.le_succ n), fun _ mem _ => mem⟩
  · rw [if_neg valid] at result
    obtain ⟨newPa, alloc₁, allocated, left⟩ := supplied.pgtblAlloc isStage2
    rw [allocated] at result
    dsimp only [attach] at result
    rw [if_neg valid] at result
    cases result
    refine ⟨_, rfl, ((blank_fresh newPa).setMapIa _).dense, left, ?_⟩
    intro other mem different
    rcases mem_cons.mp mem with rfl | isOld
    · exact absurd rfl different
    · exact isOld

theorem Dense.invalid {base : Nat} (isBelow : level ≤ config.start)
    (intact : Intact config alloc frame t) (dense : Dense t)
    (unmapped : ∀ ia, ia / blockSize level = base / blockSize level → lookup config t ia = none) :
    pteValid (t.pte (config.levelIndex level base)) = false := by
  rw [Bool.eq_false_iff]
  intro valid
  have entry : config.levelIndex level base ∈ validEntries config t :=
    mem_validEntries.mpr ⟨config.levelIndex_lt _ _, valid⟩
  obtain ⟨ia, pg, same, found⟩ := Dense.exists_lookup isBelow intact dense entry
  rw [unmapped ia same] at found
  cases found

theorem mapPage_dense {n : Nat} {t t' : Pgtbl level} {pg : Page} {rc : Rc}
    (isBelow : level ≤ config.start) (isStage2 : config.stage = .stage2)
    (intact : Intact config alloc frame t) (dense : Dense t) (leaf : pg.flags.leaf)
    (size : ∃ low ≤ level, pg.sz = blockSize low)
    (unmapped : ∀ ia, ia / pg.sz = pg.ia / pg.sz → lookup config t ia = none)
    (supplied : alloc.Supplied (level + n))
    (result : mapPage config t pg alloc = (t', alloc', rc)) :
    rc = .ok ∧ Dense t' ∧ 0 < t'.pteCnt ∧ alloc'.Supplied n := by
  have maps := mapPage_maps result
  clear result
  induction maps generalizing frame n with
  | refused unfit =>
    obtain ⟨low, isLow, size⟩ := size
    have larger := unfit
      (validBlockSize_iff.mpr ⟨low, (isLow.trans isBelow).trans config.start_le, size⟩)
    rw [size] at larger
    exact absurd (Nat.le_of_dvd (blockSize_pos _) (blockSize_dvd isLow)) (Nat.not_le.mpr larger)
  | noChild created =>
    rw [Nat.succ_add] at supplied
    obtain ⟨c, isNone, _⟩ := getOrCreateChild_ok isStage2 intact dense (unmapped pg.ia rfl)
      supplied created
    cases isNone
  | @child level t t₁ c c' alloc alloc₁ alloc' rc valid smaller created below ih =>
    have divides := dvd_blockSize valid smaller.le
    obtain ⟨low, isLow, size⟩ := size
    have isLow : low ≤ level := by
      by_contra above
      obtain rfl : low = level + 1 := by omega
      exact absurd size (ne_of_lt smaller)
    rw [Nat.succ_add] at supplied
    obtain ⟨_, ⟨⟩, childDense, left, others⟩ := getOrCreateChild_ok isStage2 intact dense
      (unmapped pg.ia rfl) supplied created
    obtain ⟨first, leads⟩ := getOrCreateChild_edited intact created
    have leads := leads c rfl
    have childIntact := first.intact.child leads
    have childUnmapped : ∀ ia, ia / pg.sz = pg.ia / pg.sz → lookup config c ia = none := by
      intro ia same
      have sameEntry : ia / blockSize (level + 1) = pg.ia / blockSize (level + 1) := by
        obtain ⟨factor, isFactor⟩ := divides
        rw [isFactor, ← Nat.div_div_eq_div_mul, same, Nat.div_div_eq_div_mul]
      rw [← leads.lookup (levelIndex_of_div_eq sameEntry), first.outside ia not_false]
      exact unmapped ia same
    obtain ⟨done, newDense, occupied, left⟩ := ih (by omega) childIntact childDense
      ⟨low, isLow, size⟩ childUnmapped left
    refine ⟨done, Dense.putChild ?_ occupied newDense, first.sound.occupied leads.entry, left⟩
    intro other mem different
    rw [(below.edited (by omega) childIntact leaf).tblPa] at different
    exact dense other (others other mem different)
  | here _ isSize =>
    rw [isSize] at unmapped
    have invalid := dense.invalid isBelow intact unmapped
    simp only [mapHere, invalid, Bool.false_eq_true, if_false]
    refine ⟨trivial, dense.setPte _ _ _, ?_, supplied.mono (Nat.le_add_left _ _)⟩
    simp [Pgtbl.setPte, pteCnt]

/-! ## Unmapping -/

theorem freeChildren_returns {free : Pgtbl level → Alloc → Alloc × Rc}
    (freed : ∀ (child : Pgtbl level) (alloc : Alloc), alloc.Returns (free child alloc).1)
    (children : List (Pgtbl level)) (table : Table) (alloc : Alloc) :
    alloc.Returns (freeChildren config free children table alloc).1 := by
  induction children generalizing alloc table with
  | nil => exact pgtblRelease_returns config alloc table.tblPa
  | cons child rest ih =>
    simp only [freeChildren]
    have childFreed := freed child alloc
    split
    · split
      · next alloc₁ isFreed =>
        rw [isFreed] at childFreed
        exact childFreed.trans (ih _ _)
      · next alloc₁ rc _ isFreed =>
        rw [isFreed] at childFreed
        exact childFreed
    · exact .refl alloc

theorem freeDetached_returns (t : Pgtbl level) (alloc : Alloc) :
    alloc.Returns (freeDetached config t alloc).1 := by
  induction level generalizing alloc with
  | zero => exact pgtblRelease_returns config alloc _
  | succ level ih => exact freeChildren_returns ih _ _ _

theorem unmapPage_dense {t t' : Pgtbl level} {pg : Page} {freed : Bool} {rc : Rc}
    (isBelow : level ≤ config.start) (intact : Intact config alloc frame t) (dense : Dense t)
    (result : unmapPage config t pg alloc = (t', freed, alloc', rc)) :
    Dense t' ∧ alloc.Returns alloc' ∧
      (0 < t.pteCnt → freed = false → level < config.start → 0 < t'.pteCnt) := by
  have unmaps := unmapPage_unmaps result
  clear result
  have notEmptied : ∀ {level} {t : Pgtbl level}, emptied config t = false → level < config.start →
      0 < t.pteCnt := by
    intro level t kept below
    simp only [emptied, decide_eq_false_iff_not] at kept
    omega
  induction unmaps generalizing frame with
  | refused => exact ⟨dense, .refl _, fun occupied _ _ => occupied⟩
  | here _ unmapped =>
    simp only [unmapHere] at unmapped
    split_ifs at unmapped <;> cases unmapped
    exact ⟨dense.setPte _ _ _, .refl _, fun _ => notEmptied⟩
  | child _ _ isChild _ ih =>
    have leads := (getChild_leads intact).mp isChild
    have isMember := (findKey_some leads.find).1
    obtain ⟨childDense, returns, childOccupied⟩ := ih (by omega) (intact.child leads)
      (dense _ isMember).2
    have occupied := childOccupied (dense _ isMember).1 rfl (by omega)
    exact ⟨Dense.putChild (fun other mem _ => dense other mem) occupied childDense,
      returns, fun _ => notEmptied⟩
  | freed _ _ isChild below ih =>
    have leads := (getChild_leads intact).mp isChild
    have childIntact := intact.child leads
    obtain ⟨_, returns, _⟩ := ih (by omega) childIntact (dense _ (findKey_some leads.find).1).2
    have mapIa := (below.edited (by omega) childIntact).1.mapIa
    rw [leads.freeChild_eq intact mapIa]
    refine ⟨?_, returns.trans (freeDetached_returns _ _), fun _ => notEmptied⟩
    intro other mem
    exact dense other (mem_of_mem_filter mem)

theorem unmapPage_congr {pg pg' : Page} (ia : pg.ia = pg'.ia) (sz : pg.sz = pg'.sz)
    (t : Pgtbl level) (alloc : Alloc) :
    unmapPage config t pg alloc = unmapPage config t pg' alloc := by
  induction level generalizing alloc with
  | zero =>
    rw [unmapPage.eq_def, unmapPage.eq_def]
    simp only [unmapHere, ia, sz]
  | succ level ih =>
    rw [unmapPage.eq_def, unmapPage.eq_def]
    simp only [unmapHere, ia, sz, ih]

end Pgtbl

end Xvisor.Mmu
