import Xvisor.Mmu.Invariant

/-!
# What the page table operations do to the translation

Mapping and unmapping change the walk of a tree at the addresses of one block
only. `Edited` says what an operation on a table did, and an edited child put
back in its place edits its parent.
-/

namespace Xvisor.Mmu

open List Lib

/-- The page that is read back at an address after a page was mapped there: addresses are
rounded down to the block, the entry holds 56 bits of the output address and is valid. -/
def Page.stored (pg : Page) (ia : Nat) : Page where
  ia := ia / pg.sz * pg.sz
  oa := pg.oa / pg.sz * pg.sz % 2 ^ 56
  sz := pg.sz
  flags := { pg.flags with valid := true }

namespace Pgtbl

variable {config : Config} {alloc alloc' : Alloc} {frame : List Nat} {level : Nat}

/-! ## Single entries -/

section Entries

variable {t : Pgtbl level} {ia : Nat}

theorem lookup_of_invalid (invalid : pteValid (t.pte (config.levelIndex level ia)) = false) :
    lookup config t ia = none := by
  cases level <;> simp [lookup, invalid]

theorem lookup_of_leaf (valid : pteValid (t.pte (config.levelIndex level ia)))
    (leaf : pteIsTable (t.pte (config.levelIndex level ia)) = false) :
    lookup config t ia = some (pageAt level ia (t.pte (config.levelIndex level ia))) := by
  cases level <;> simp [lookup, valid, leaf]

theorem lookup_congr {t t' : Pgtbl (level + 1)}
    (entry : t'.pte (config.levelIndex (level + 1) ia) = t.pte (config.levelIndex (level + 1) ia))
    (reached : pteValid (t.pte (config.levelIndex (level + 1) ia)) →
      pteIsTable (t.pte (config.levelIndex (level + 1) ia)) →
      findKey tblPa (pteAddr (t.pte (config.levelIndex (level + 1) ia))) t'.children =
        findKey tblPa (pteAddr (t.pte (config.levelIndex (level + 1) ia))) t.children) :
    lookup config t' ia = lookup config t ia := by
  by_cases valid : pteValid (t.pte (config.levelIndex (level + 1) ia))
  · by_cases isTable : pteIsTable (t.pte (config.levelIndex (level + 1) ia))
    · simp only [lookup, entry, reached valid isTable]
    · simp [lookup, entry, isTable]
  · simp [lookup, entry, valid]

theorem mem_validEntries {i : Nat} :
    i ∈ validEntries config t ↔ i < config.entries level ∧ pteValid (t.pte i) := by
  simp [validEntries]

theorem pte_setPte (i pte count j : Nat) :
    (t.setPte i pte count).pte j = if j = i then pte else t.pte j := by
  simp only [setPte, Pgtbl.pte, table_update, Function.update_apply]

theorem validEntries_setPte_valid {i pte : Nat} (inRange : i < config.entries level)
    (valid : pteValid pte) (count : Nat) :
    validEntries config (t.setPte i pte count) = insert i (validEntries config t) := by
  ext j
  rw [Finset.mem_insert, mem_validEntries, mem_validEntries, pte_setPte]
  by_cases same : j = i
  · simp [same, inRange, valid]
  · simp [same]

theorem validEntries_setPte_zero (i count : Nat) :
    validEntries config (t.setPte i 0 count) = (validEntries config t).erase i := by
  ext j
  rw [Finset.mem_erase, mem_validEntries, mem_validEntries, pte_setPte]
  by_cases same : j = i
  · simp [same]
  · simp [same]

end Entries

/-! ## Tables and their children -/

theorem map_tblPa_sublist (children : List (Pgtbl level)) :
    (children.map tblPa).Sublist
      (children.flatMap fun child => child.tblPa :: descendants child) := by
  induction children with
  | nil => simp
  | cons child rest ih =>
    rw [map_cons, flatMap_cons, cons_append]
    exact (ih.trans (sublist_append_right _ _)).cons_cons _

theorem children_nodup {t : Pgtbl (level + 1)} (nodup : (descendants t).Nodup) :
    (t.children.map tblPa).Nodup :=
  nodup.sublist (map_tblPa_sublist t.children)

section Parent

variable {t : Pgtbl (level + 1)} {i : Nat}

variable {ia : Nat}

theorem levelIndex_mem_validEntries (valid : pteValid (t.pte (config.levelIndex (level + 1) ia))) :
    config.levelIndex (level + 1) ia ∈ validEntries config t :=
  mem_validEntries.mpr ⟨config.levelIndex_lt _ _, valid⟩

structure Leads (config : Config) (t : Pgtbl (level + 1)) (ia : Nat) (child : Pgtbl level) :
    Prop where
  entry : config.levelIndex (level + 1) ia ∈ validEntries config t
  isTable : pteIsTable (t.pte (config.levelIndex (level + 1) ia))
  reached : findKey tblPa (pteAddr (t.pte (config.levelIndex (level + 1) ia))) t.children =
    some child

variable {child : Pgtbl level}

theorem Leads.lookup {base ia : Nat} (leads : Leads config t base child)
    (same : config.levelIndex (level + 1) ia = config.levelIndex (level + 1) base) :
    lookup config t ia = lookup config child ia := by
  have valid := (mem_validEntries.mp leads.entry).2
  simp [Pgtbl.lookup, same, valid, leads.isTable, leads.reached]

theorem Leads.address (leads : Leads config t ia child) :
    child.tblPa = pteAddr (t.pte (config.levelIndex (level + 1) ia)) :=
  (findKey_some leads.reached).2

theorem Leads.find (leads : Leads config t ia child) :
    findKey tblPa child.tblPa t.children = some child := by
  rw [leads.address]
  exact leads.reached

theorem Sound.reached (sound : Sound config t) (nodup : (descendants t).Nodup)
    (entry : i ∈ validEntries config t) (isTable : pteIsTable (t.pte i)) :
    ∃ child, findKey tblPa (pteAddr (t.pte i)) t.children = some child ∧
      config.levelIndex (level + 1) child.mapIa = i := by
  obtain ⟨child, mem, address, index⟩ := sound.2.1 i entry isTable
  refine ⟨child, ?_, index⟩
  rw [← address]
  exact findKey_of_nodup (children_nodup nodup) mem

theorem Sound.entry_unique {j : Nat} (sound : Sound config t) (nodup : (descendants t).Nodup)
    (first : i ∈ validEntries config t) (firstTable : pteIsTable (t.pte i))
    (second : j ∈ validEntries config t) (secondTable : pteIsTable (t.pte j))
    (same : pteAddr (t.pte i) = pteAddr (t.pte j)) : i = j := by
  obtain ⟨child, reached, index⟩ := sound.reached nodup first firstTable
  obtain ⟨other, otherReached, otherIndex⟩ := sound.reached nodup second secondTable
  rw [same, otherReached] at reached
  cases reached
  exact index.symm.trans otherIndex

/-- The tree is well formed, and its tables and those of the frame are known to the allocator. -/
structure Intact (config : Config) (alloc : Alloc) (frame : List Nat) {level : Nat}
    (t : Pgtbl level) : Prop where
  sound : Sound config t
  alloc : AllocOk config alloc (frame ++ descendants t)

theorem Intact.nodup {t : Pgtbl level} (intact : Intact config alloc frame t) :
    (descendants t).Nodup :=
  intact.alloc.nodup.sublist (sublist_append_right _ _)

theorem getChild_leads (intact : Intact config alloc frame t) :
    getChild config alloc t ia = some child ↔ Leads config t ia child := by
  by_cases isTable : pteValid (t.pte (config.levelIndex (level + 1) ia)) ∧
      pteIsTable (t.pte (config.levelIndex (level + 1) ia))
  · have entry := levelIndex_mem_validEntries isTable.1
    obtain ⟨attached, mem, address, _⟩ := intact.sound.2.1 _ entry isTable.2
    have found : ∀ child ∈ t.children, pgtblFind config alloc child.tblPa = some child.tblPa :=
      fun child isChild =>
        intact.alloc.found _ (mem_append_right _ (child_mem_descendants isChild).1)
    rw [getChild, if_pos isTable, entryChild_eq found ⟨attached, mem, address⟩]
    exact ⟨fun reached => ⟨entry, isTable.2, reached⟩, fun leads => leads.reached⟩
  · rw [getChild, if_neg isTable]
    constructor
    · simp
    · intro leads
      exact absurd ⟨(mem_validEntries.mp leads.entry).2, leads.isTable⟩ isTable

theorem entryChild_find {pte : Nat} (found : entryChild config alloc t pte = some child) :
    findKey tblPa child.tblPa t.children = some child := by
  unfold entryChild at found
  split at found
  · cases found
  · rw [(findKey_some found).2]
    exact found

theorem getChild_find (found : getChild config alloc t ia = some child) :
    findKey tblPa child.tblPa t.children = some child := by
  unfold getChild at found
  dsimp only at found
  split at found
  · exact entryChild_find found
  · cases found

/-- The tables of a tree other than a child of the root and the tables below that child. -/
def siblings (t : Pgtbl (level + 1)) (child : Pgtbl level) : List Nat :=
  (dropKey tblPa child.tblPa t.children).flatMap fun other => other.tblPa :: descendants other

theorem descendants_perm (frame : List Nat) (nodup : (descendants t).Nodup)
    (reached : findKey tblPa child.tblPa t.children = some child) :
    (frame ++ descendants t).Perm
      ((child.tblPa :: (frame ++ siblings t child)) ++ descendants child) := by
  obtain ⟨before, after, isSplit, _, dropped⟩ := findKey_split (children_nodup nodup) reached
  rw [siblings, dropped, perm_iff_count]
  intro tblPa
  simp only [descendants, isSplit, flatMap_append, flatMap_cons, cons_append,
    count_append, count_cons]
  omega

/-- The root keeps its place, the tree is still well formed, and the addresses affected translate
as given. -/
structure Edited (config : Config) (alloc : Alloc) (frame : List Nat) {level : Nat}
    (t t' : Pgtbl level) (affected : Nat → Prop) (translation : Nat → Option Page) : Prop where
  tblPa : t'.tblPa = t.tblPa
  mapIa : t'.mapIa = t.mapIa
  sound : Sound config t'
  alloc : AllocOk config alloc (frame ++ descendants t')
  inside : ∀ ia, affected ia → lookup config t' ia = translation ia
  outside : ∀ ia, ¬ affected ia → lookup config t' ia = lookup config t ia

theorem pte_putChild (child : Pgtbl level) (j : Nat) : (t.putChild child).pte j = t.pte j := rfl

theorem children_putChild (child : Pgtbl level) :
    (t.putChild child).children = replaceKey Pgtbl.tblPa child.tblPa child t.children := rfl

variable {child child' : Pgtbl level}

theorem Sound.putChild (sound : Sound config t)
    (reached : findKey Pgtbl.tblPa child.tblPa t.children = some child)
    (sameTblPa : child'.tblPa = child.tblPa) (sameMapIa : child'.mapIa = child.mapIa)
    (nodup : (descendants t).Nodup) (childSound : Sound config child') :
    Sound config (t.putChild child') := by
  obtain ⟨count, linked, below⟩ := sound
  refine ⟨count, ?_, ?_⟩
  · intro j entry isTable
    obtain ⟨other, mem, address, index⟩ := linked j entry isTable
    have put := mem_map_of_mem (f := fun c => if c.tblPa = child'.tblPa then child' else c) mem
    by_cases same : other.tblPa = child'.tblPa
    · rw [if_pos same] at put
      have isChild : other = child := inj_on_of_nodup_map (children_nodup nodup) mem
        (findKey_some reached).1 (same.trans sameTblPa)
      rw [isChild, ← sameMapIa] at index
      exact ⟨child', put, same.symm.trans address, index⟩
    · rw [if_neg same] at put
      exact ⟨other, put, address, index⟩
  · intro other mem
    rcases mem_replaceKey mem with rfl | ⟨old, -⟩
    · exact childSound
    · exact below other old

theorem descendants_putChild_perm (frame : List Nat)
    (nodup : (descendants t).Nodup) (reached : findKey tblPa child.tblPa t.children = some child)
    (sameTblPa : child'.tblPa = child.tblPa) :
    ((child.tblPa :: (frame ++ siblings t child)) ++ descendants child').Perm
      (frame ++ descendants (t.putChild child')) := by
  obtain ⟨before, after, _, replaced, dropped⟩ := findKey_split (children_nodup nodup) reached
  have children : (t.putChild child').children = before ++ child' :: after := by
    rw [children_putChild, sameTblPa, replaced]
  rw [perm_iff_count]
  intro tblPa
  simp only [siblings, descendants, dropped, children, flatMap_append, flatMap_cons,
    cons_append, count_append, count_cons, sameTblPa]
  omega

theorem perm_childLast (frame : List Nat) (tblPa : Nat) (child : Pgtbl level)
    (rest : List (Pgtbl level)) :
    (frame ++ tblPa :: (child :: rest).flatMap fun child =>
        child.tblPa :: descendants child).Perm
      ((frame ++ tblPa :: rest.flatMap fun child => child.tblPa :: descendants child) ++
        child.tblPa :: descendants child) := by
  rw [flatMap_cons, append_assoc]
  exact (perm_append_comm.cons _).append_left _

theorem Config.span_child (config : Config) (below : level + 1 ≤ config.start) :
    config.span level = blockSize (level + 1) := by
  have notRoot : ¬ (config.stage ≠ .stage1 ∧ level = config.start) := by omega
  rw [Config.span, Config.entries, if_neg notRoot, blockSize_succ]

theorem sameBlock_succ {size base : Nat} (below : level + 1 ≤ config.start)
    (divides : size ∣ blockSize (level + 1)) :
    SameBlock (config.span (level + 1)) size ia base ↔
      config.levelIndex (level + 1) ia = config.levelIndex (level + 1) base ∧
        SameBlock (config.span level) size ia base := by
  rw [Config.span_child config below]
  exact SameBlock.iff_part divides (blockSize_pos _)

theorem Edited.putChild {size base : Nat} {done : Prop}
    {translation : Nat → Option Page} (intact : Intact config alloc frame t)
    (below : level + 1 ≤ config.start) (divides : size ∣ blockSize (level + 1))
    (leads : Leads config t base child)
    (edited : Edited config alloc' (child.tblPa :: (frame ++ siblings t child)) child child'
      (fun ia => done ∧ SameBlock (config.span level) size ia base) translation) :
    Edited config alloc' frame t (t.putChild child')
      (fun ia => done ∧ SameBlock (config.span (level + 1)) size ia base) translation := by
  have nodup := intact.nodup
  have leads' : Leads config (t.putChild child') base child' := by
    refine ⟨leads.entry, leads.isTable, ?_⟩
    rw [pte_putChild, ← leads.address, children_putChild, edited.tblPa]
    exact findKey_replaceKey_self edited.tblPa leads.find
  refine ⟨rfl, rfl, intact.sound.putChild leads.find edited.tblPa edited.mapIa nodup edited.sound,
    edited.alloc.perm (descendants_putChild_perm frame nodup leads.find edited.tblPa), ?_, ?_⟩
  · rintro ia ⟨isDone, inBlock⟩
    obtain ⟨same, inChild⟩ := (sameBlock_succ below divides).mp inBlock
    rw [leads'.lookup same]
    exact edited.inside ia ⟨isDone, inChild⟩
  · intro ia unaffected
    by_cases same : config.levelIndex (level + 1) ia = config.levelIndex (level + 1) base
    · rw [leads'.lookup same, leads.lookup same]
      apply edited.outside
      rintro ⟨isDone, inChild⟩
      exact unaffected ⟨isDone, (sameBlock_succ below divides).mpr ⟨same, inChild⟩⟩
    · apply lookup_congr (pte_putChild child' _)
      intro valid otherTable
      rw [children_putChild]
      apply findKey_replaceKey_of_ne rfl
      intro shared
      apply same
      apply intact.sound.entry_unique nodup (levelIndex_mem_validEntries valid) otherTable
        leads.entry leads.isTable
      rw [shared, edited.tblPa, leads.address]

end Parent

/-! ## Writing one entry -/

section Write

variable {t : Pgtbl level} {i pte count : Nat}

theorem Sound.setPte (sound : Sound config t) (notTable : pteValid pte → pteIsTable pte = false)
    (exact : count = (validEntries config (t.setPte i pte count)).card) :
    Sound config (t.setPte i pte count) := by
  have counter : (t.setPte i pte count).pteCnt = count := by
    simp [Pgtbl.setPte, pteCnt]
  have other : ∀ j ∈ validEntries config (t.setPte i pte count),
      pteIsTable ((t.setPte i pte count).pte j) →
        j ∈ validEntries config t ∧ (t.setPte i pte count).pte j = t.pte j := by
    intro j entry isTable
    rw [mem_validEntries, pte_setPte] at entry
    rw [pte_setPte] at isTable ⊢
    by_cases same : j = i
    · rw [if_pos same] at entry isTable
      rw [notTable entry.2] at isTable
      cases isTable
    · rw [if_neg same] at entry ⊢
      exact ⟨mem_validEntries.mpr entry, rfl⟩
  cases level with
  | zero =>
    refine ⟨counter.trans exact, ?_⟩
    intro j entry
    rw [Bool.eq_false_iff]
    intro isTable
    obtain ⟨old, same⟩ := other j entry isTable
    rw [same, sound.2 j old] at isTable
    cases isTable
  | succ level =>
    refine ⟨counter.trans exact, ?_, sound.2.2⟩
    intro j entry isTable
    obtain ⟨old, same⟩ := other j entry isTable
    rw [same] at isTable ⊢
    exact sound.2.1 j old isTable

theorem lookup_setPte_of_ne {ia : Nat} (other : config.levelIndex level ia ≠ i) :
    lookup config (t.setPte i pte count) ia = lookup config t ia := by
  have entry := pte_setPte (t := t) i pte count (config.levelIndex level ia)
  rw [if_neg other] at entry
  cases level with
  | zero => simp only [lookup, entry]
  | succ level => exact lookup_congr entry fun _ _ => rfl

theorem sameBlock_here {ia base : Nat} :
    SameBlock (config.span level) (blockSize level) ia base ↔
      config.levelIndex level ia = config.levelIndex level base :=
  SameBlock.iff_index (blockSize_pos level)

theorem Edited.setEntry {size base : Nat} {done : Prop} {translation : Nat → Option Page}
    (intact : Intact config alloc frame t) (notTable : pteValid pte → pteIsTable pte = false)
    (exact : count = (validEntries config (t.setPte (config.levelIndex level base) pte count)).card)
    (isSize : size = blockSize level) (isDone : done)
    (inside : ∀ (t' : Pgtbl level) ia, t'.pte (config.levelIndex level ia) = pte →
      lookup config t' ia = translation ia) :
    Edited config alloc frame t (t.setPte (config.levelIndex level base) pte count)
      (fun ia => done ∧ SameBlock (config.span level) size ia base) translation := by
  rw [isSize]
  refine ⟨?_, ?_, intact.sound.setPte notTable exact, ?_, ?_, ?_⟩
  · simp [Pgtbl.setPte, Pgtbl.tblPa]
  · simp [Pgtbl.setPte, Pgtbl.mapIa]
  · cases level <;> exact intact.alloc
  · rintro ia ⟨-, inBlock⟩
    apply inside
    rw [pte_setPte, if_pos (sameBlock_here.mp inBlock)]
  · intro ia outside
    exact lookup_setPte_of_ne fun same => outside ⟨isDone, sameBlock_here.mpr same⟩

end Write

variable {translation : Nat → Option Page} {affected : Nat → Prop}

theorem Edited.unchanged {t : Pgtbl level}
    (intact : Intact config alloc frame t) (none : ∀ ia, ¬ affected ia) :
    Edited config alloc frame t t affected translation :=
  ⟨rfl, rfl, intact.sound, intact.alloc, fun ia isAffected => (none ia isAffected).elim,
    fun _ _ => rfl⟩

theorem Edited.intact {t t' : Pgtbl level}
    (edited : Edited config alloc frame t t' affected translation) : Intact config alloc frame t' :=
  ⟨edited.sound, edited.alloc⟩

theorem Edited.after {t t₁ t₂ : Pgtbl level} {translation₁ : Nat → Option Page}
    (second : Edited config alloc' frame t₁ t₂ affected translation)
    (first : Edited config alloc frame t t₁ (fun _ => False) translation₁) :
    Edited config alloc' frame t t₂ affected translation where
  tblPa := second.tblPa.trans first.tblPa
  mapIa := second.mapIa.trans first.mapIa
  sound := second.sound
  alloc := second.alloc
  inside := second.inside
  outside ia unaffected := (second.outside ia unaffected).trans (first.outside ia not_false)

theorem dvd_blockSize {sz : Nat} (isValid : validBlockSize sz) (le : sz ≤ blockSize level) :
    sz ∣ blockSize level := by
  obtain ⟨low, isLow, rfl⟩ := exists_level_of_le isValid le
  exact blockSize_dvd isLow

/-! ## Going down the tree -/

theorem Intact.child {t : Pgtbl (level + 1)} {child : Pgtbl level} {ia : Nat}
    (intact : Intact config alloc frame t) (leads : Leads config t ia child) :
    Intact config alloc (child.tblPa :: (frame ++ siblings t child)) child :=
  ⟨intact.sound.2.2 _ (findKey_some leads.find).1,
    intact.alloc.perm (descendants_perm frame intact.nodup leads.find)⟩

section Steps

variable {config : Config} {pg : Page} {frame : List Nat}

/-- How `mmu_map_page` goes down to the table that maps blocks of the size of the page. -/
inductive Maps (config : Config) (pg : Page) :
    {level : Nat} → Pgtbl level → Alloc → Pgtbl level → Alloc → Rc → Prop where
  | refused {level : Nat} {t : Pgtbl level} {alloc : Alloc} {rc : Rc}
      (unfit : validBlockSize pg.sz → blockSize level < pg.sz) (failed : rc ≠ .ok) :
      Maps config pg t alloc t alloc rc
  | here {level : Nat} {t : Pgtbl level} {alloc : Alloc} (valid : validBlockSize pg.sz)
      (size : pg.sz = blockSize level) :
      Maps config pg t alloc (mapHere config t pg).1 alloc (mapHere config t pg).2
  | noChild {level : Nat} {t t' : Pgtbl (level + 1)} {alloc alloc' : Alloc}
      (created : getOrCreateChild config alloc t pg.ia = (t', none, alloc')) :
      Maps config pg t alloc t' alloc' .efail
  | child {level : Nat} {t t₁ : Pgtbl (level + 1)} {child child' : Pgtbl level}
      {alloc alloc₁ alloc' : Alloc} {rc : Rc} (valid : validBlockSize pg.sz)
      (smaller : pg.sz < blockSize (level + 1))
      (created : getOrCreateChild config alloc t pg.ia = (t₁, some child, alloc₁))
      (below : Maps config pg child alloc₁ child' alloc' rc) :
      Maps config pg t alloc (t₁.putChild child') alloc' rc

theorem mapPage_maps {level : Nat} {t t' : Pgtbl level} {alloc alloc' : Alloc} {rc : Rc}
    (result : mapPage config t pg alloc = (t', alloc', rc)) :
    Maps config pg t alloc t' alloc' rc := by
  rw [mapPage.eq_def] at result
  dsimp only at result
  split at result
  · next invalid =>
    cases result
    exact .refused (fun valid => by simp [valid] at invalid) (by decide)
  next isValid =>
  have valid : validBlockSize pg.sz := by simpa using isValid
  split at result
  · next larger =>
    cases result
    exact .refused (fun _ => larger) (by decide)
  next notLarger =>
  split at result
  · next smaller =>
    cases level with
    | zero =>
      obtain ⟨low, -, size⟩ := validBlockSize_iff.mp valid
      rw [size] at smaller
      exact absurd smaller
        (Nat.not_lt.mpr (Nat.le_of_dvd (blockSize_pos _) (blockSize_dvd (Nat.zero_le low))))
    | succ level =>
      dsimp only at result
      split at result
      · next created =>
        cases result
        exact .noChild created
      · next created =>
        cases result
        exact .child valid smaller created (mapPage_maps rfl)
  · cases result
    exact .here valid (by omega)
termination_by level

/-- How `mmu_unmap_page` goes down to the entry of the page, and frees emptied tables on the
way back. -/
inductive Unmaps (config : Config) (pg : Page) :
    {level : Nat} → Pgtbl level → Alloc → Pgtbl level → Bool → Alloc → Rc → Prop where
  | refused {level : Nat} {t : Pgtbl level} {alloc : Alloc} {rc : Rc} (failed : rc ≠ .ok) :
      Unmaps config pg t alloc t false alloc rc
  | here {level : Nat} {t t' : Pgtbl level} {alloc : Alloc} (size : pg.sz = blockSize level)
      (unmapped : unmapHere config t pg = (t', .ok)) :
      Unmaps config pg t alloc t' (emptied config t') alloc .ok
  | child {level : Nat} {t : Pgtbl (level + 1)} {child child' : Pgtbl level}
      {alloc alloc' : Alloc} {rc : Rc} (valid : validBlockSize pg.sz)
      (smaller : pg.sz < blockSize (level + 1))
      (isChild : getChild config alloc t pg.ia = some child)
      (below : Unmaps config pg child alloc child' false alloc' rc) :
      Unmaps config pg t alloc (t.putChild child') (emptied config (t.putChild child')) alloc' rc
  | freed {level : Nat} {t : Pgtbl (level + 1)} {child child' : Pgtbl level}
      {alloc alloc' : Alloc} {rc : Rc} (valid : validBlockSize pg.sz)
      (smaller : pg.sz < blockSize (level + 1))
      (isChild : getChild config alloc t pg.ia = some child)
      (below : Unmaps config pg child alloc child' true alloc' rc) :
      Unmaps config pg t alloc (freeChild config t child' alloc').1
        (emptied config (freeChild config t child' alloc').1)
        (freeChild config t child' alloc').2 rc

theorem unmapPage_unmaps {level : Nat} {t t' : Pgtbl level} {alloc alloc' : Alloc}
    {freed : Bool} {rc : Rc} (result : unmapPage config t pg alloc = (t', freed, alloc', rc)) :
    Unmaps config pg t alloc t' freed alloc' rc := by
  rw [unmapPage.eq_def] at result
  dsimp only at result
  split at result
  · cases result
    exact .refused (by decide)
  next isValid =>
  split at result
  · cases result
    exact .refused (by decide)
  next notLarger =>
  split at result
  · next smaller =>
    cases level with
    | zero =>
      cases result
      exact .refused (by decide)
    | succ level =>
      dsimp only at result
      split at result
      · cases result
        exact .refused (by decide)
      · next child isChild =>
        generalize unmapped : unmapPage config child pg alloc = childResult at result
        obtain ⟨child', childFreed, alloc₁, childRc⟩ := childResult
        have below := unmapPage_unmaps unmapped
        cases childFreed with
        | false =>
          cases result
          exact .child (by simpa using isValid) smaller isChild below
        | true =>
          cases result
          exact .freed (by simpa using isValid) smaller isChild below
  · next notSmaller =>
    split at result
    · next unmapped =>
      cases result
      exact .here (by omega) unmapped
    · next t₁ rc₁ failed unmapped =>
      cases result
      have unchanged : t' = t := by
        simp only [unmapHere] at unmapped
        split_ifs at unmapped <;> cases unmapped <;> first | rfl | exact absurd rfl failed
      rw [unchanged]
      exact .refused failed
termination_by level

end Steps

end Pgtbl

end Xvisor.Mmu
