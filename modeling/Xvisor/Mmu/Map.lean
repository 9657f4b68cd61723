import Xvisor.Mmu.Translate

/-!
# Mapping and unmapping a page

`mmu_map_page` creates the tables it misses on the way down and then writes one
entry. Linking a new table changes no translation, so a failure on the way
leaves tables behind but no mapping. `mmu_unmap_page` clears one entry; tables
that become empty are unlinked and freed on the way back.
-/

namespace Xvisor.Mmu

open List Lib Finset

namespace Pgtbl

variable {config : Config} {alloc alloc' : Alloc} {frame : List Nat} {level : Nat}

structure Blank (t : Pgtbl level) : Prop where
  pte : ∀ i, t.pte i = 0
  pteCnt : t.pteCnt = 0
  descendants : descendants t = []

section Fresh

variable {t : Pgtbl level}

theorem Blank.children {t : Pgtbl (level + 1)} (blank : Blank t) : t.children = [] := by
  rw [eq_nil_iff_forall_not_mem]
  intro child mem
  have below := (child_mem_descendants mem).1
  rw [blank.descendants] at below
  cases below

theorem blank_fresh (newPa : Nat) : Blank (fresh newPa level) := by
  refine ⟨?_, ?_, ?_⟩
  · simp [Pgtbl.pte]
  · simp [Pgtbl.pteCnt]
  · cases level <;> rfl

theorem Blank.setMapIa (blank : Blank t) (mapIa : Nat) :
    Blank (t.update fun table => { table with mapIa := mapIa }) := by
  refine ⟨?_, ?_, ?_⟩
  · simpa [Pgtbl.pte] using blank.pte
  · simpa [Pgtbl.pteCnt] using blank.pteCnt
  · cases level <;> exact blank.descendants

theorem Blank.lookup (blank : Blank t) (ia : Nat) : lookup config t ia = none := by
  apply lookup_of_invalid
  rw [blank.pte]
  rfl

theorem Blank.sound (blank : Blank t) : Sound config t := by
  have empty : validEntries config t = ∅ := by
    ext i
    simp [mem_validEntries, blank.pte]
  cases level with
  | zero =>
    refine ⟨?_, ?_⟩
    · rw [empty]
      exact blank.pteCnt
    · rw [empty]
      simp
  | succ level =>
    refine ⟨?_, ?_, ?_⟩
    · rw [empty]
      exact blank.pteCnt
    · rw [empty]
      simp
    · rw [blank.children]
      simp

end Fresh

theorem attach_edited {t : Pgtbl (level + 1)} {ia : Nat} {new : Pgtbl level}
    (sound : Sound config t) (blank : Blank new)
    (allocOk : AllocOk config alloc (new.tblPa :: (frame ++ descendants t)))
    (invalid : pteValid (t.pte (config.levelIndex (level + 1) ia)) = false) :
    ∃ t' child, attach config t ia new = some (t', child) ∧
      Edited config alloc frame t t' (fun _ => False) (fun _ => none) ∧
      Leads config t' ia child := by
  have small := allocOk.small new.tblPa mem_cons_self
  have aligned := allocOk.aligned new.tblPa mem_cons_self
  obtain ⟨isNew, _⟩ := nodup_cons.mp allocOk.nodup
  set index := config.levelIndex (level + 1) ia with isIndex
  set child := new.update fun t => { t with mapIa := mapMask (level + 1) ia } with isChild
  set t' := (t.setPte index (pteSetTable child.tblPa) (t.pteCnt + 1)).addChild child with isParent
  have childBlank : Blank child := blank.setMapIa _
  have childPa : child.tblPa = new.tblPa := by
    simp [isChild, Pgtbl.tblPa]
  have childIndex : config.levelIndex (level + 1) child.mapIa = index := by
    simp [isChild, isIndex, Pgtbl.mapIa, Config.levelIndex, mapMask,
      Nat.mul_div_cancel _ (blockSize_pos (level + 1))]
  have children : t'.children = child :: t.children := rfl
  have entry : ∀ j, t'.pte j = if j = index then pteSetTable child.tblPa else t.pte j :=
    pte_setPte (t := t) index (pteSetTable child.tblPa) (t.pteCnt + 1)
  have here : t'.pte index = pteSetTable child.tblPa := by
    rw [entry, if_pos rfl]
  have address : pteAddr (t'.pte index) = child.tblPa := by
    rw [here, childPa, pteAddr_pteSetTable aligned small]
  have entries : validEntries config t' = insert index (validEntries config t) :=
    validEntries_setPte_valid (t := t) (config.levelIndex_lt _ _)
      (pteValid_pteSetTable child.tblPa) (t.pteCnt + 1)
  have leads : Leads config t' ia child := by
    refine ⟨?_, ?_, ?_⟩
    · rw [entries]
      exact mem_insert_self _ _
    · rw [← isIndex, here, pteIsTable_pteSetTable]
    · rw [← isIndex, address, children, findKey_cons, if_pos rfl]
  have attached : attach config t ia new = some (t', child) := by
    simp only [attach, ← isIndex, invalid, reduceCtorEq, reduceIte]
    rfl
  refine ⟨t', child, attached, ⟨?_, ?_, ?_, ?_, fun _ absurd => absurd.elim, ?_⟩, leads⟩
  · simp [isParent, Pgtbl.tblPa, setPte, addChild]
  · simp [isParent, Pgtbl.mapIa, setPte, addChild]
  · obtain ⟨count, linked, below⟩ := sound
    refine ⟨?_, ?_, ?_⟩
    · have absent : index ∉ validEntries config t := by
        rw [mem_validEntries, invalid]
        simp
      rw [entries, card_insert_of_notMem absent, ← count]
      simp [isParent, Pgtbl.pteCnt, setPte, addChild]
    · intro j isEntry isTable
      by_cases same : j = index
      · rw [same]
        exact ⟨child, mem_cons_self, address.symm, childIndex⟩
      · rw [entries, mem_insert, or_iff_right same] at isEntry
        rw [entry, if_neg same] at isTable ⊢
        obtain ⟨old, mem, rest⟩ := linked j isEntry isTable
        exact ⟨old, mem_cons_of_mem _ mem, rest⟩
    · exact forall_mem_cons.mpr ⟨childBlank.sound, below⟩
  · apply allocOk.perm
    simp only [descendants, children, flatMap_cons, childBlank.descendants, childPa]
    exact perm_middle.symm
  · intro other _
    by_cases same : config.levelIndex (level + 1) other = index
    · have before : lookup config t other = none := by
        apply lookup_of_invalid
        rw [same]
        exact invalid
      rw [before, leads.lookup same, childBlank.lookup]
    · apply lookup_congr
      · rw [entry, if_neg same]
      · intro valid isTable
        obtain ⟨old, mem, oldAddress, _⟩ := sound.2.1 _ (levelIndex_mem_validEntries valid) isTable
        rw [children, findKey_cons, if_neg]
        rw [childPa, ← oldAddress]
        intro shared
        apply isNew
        rw [shared]
        exact mem_append_right _ (child_mem_descendants mem).1

theorem getOrCreateChild_edited {t t' : Pgtbl (level + 1)} {ia : Nat}
    {child : Option (Pgtbl level)} (intact : Intact config alloc frame t)
    (result : getOrCreateChild config alloc t ia = (t', child, alloc')) :
    Edited config alloc' frame t t' (fun _ => False) (fun _ => none) ∧
      ∀ c, child = some c → Leads config t' ia c := by
  unfold getOrCreateChild at result
  by_cases valid : pteValid (t.pte (config.levelIndex (level + 1) ia))
  · rw [if_pos valid] at result
    cases result
    exact ⟨.unchanged intact fun _ => not_false, fun c isChild => (getChild_leads intact).mp isChild⟩
  · rw [if_neg valid] at result
    split at result
    · next failed =>
      cases result
      exact ⟨.unchanged ⟨intact.sound, intact.alloc.pgtblAlloc_none failed⟩ fun _ => not_false,
        by simp⟩
    · next newPa alloc₁ allocated =>
      have newOk : AllocOk config alloc₁ ((fresh newPa level).tblPa :: (frame ++ descendants t)) := by
        simpa [Pgtbl.tblPa] using intact.alloc.pgtblAlloc_some allocated
      obtain ⟨t₁, child₁, attached, edited, leads⟩ := attach_edited intact.sound (blank_fresh newPa)
        newOk (Bool.eq_false_iff.mpr valid)
      rw [attached] at result
      cases result
      refine ⟨edited, ?_⟩
      rintro c ⟨rfl⟩
      exact leads

variable {t : Pgtbl level} {pg : Page}

theorem mapHere_edited (intact : Intact config alloc frame t) (leaf : pg.flags.leaf)
    (size : pg.sz = blockSize level) :
    Edited config alloc frame t (mapHere config t pg).1
      (fun ia => (mapHere config t pg).2 = .ok ∧ SameBlock (config.span level) pg.sz ia pg.ia)
      (fun ia => some (pg.stored ia)) := by
  unfold mapHere
  by_cases valid : pteValid (t.pte (config.levelIndex level pg.ia))
  · rw [if_pos valid]
    exact .unchanged intact (by simp)
  · simp only [valid, Bool.false_eq_true, if_false]
    have new : config.levelIndex level pg.ia ∉ validEntries config t :=
      fun entry => valid (mem_validEntries.mp entry).2
    have isLeaf : pteIsTable (pteSet level pg.oa pg.flags) = false := by
      rw [pteIsTable_pteSet, leaf]
      rfl
    refine .setEntry intact (fun _ => isLeaf) ?_ size trivial ?_
    · rw [validEntries_setPte_valid (config.levelIndex_lt _ _) (pteValid_pteSet _ _ _),
        card_insert_of_notMem new, intact.sound.count]
    · intro t' ia entry
      rw [lookup_of_leaf (by rw [entry, pteValid_pteSet]) (by rw [entry, isLeaf]), entry, pageAt,
        pteAddr_pteSet, pteFlags_pteSet, Page.stored, size]
      rfl

theorem Maps.edited {t' : Pgtbl level} {rc : Rc} (maps : Maps config pg t alloc t' alloc' rc)
    (isBelow : level ≤ config.start) (intact : Intact config alloc frame t) (leaf : pg.flags.leaf) :
    Edited config alloc' frame t t'
      (fun ia => rc = .ok ∧ SameBlock (config.span level) pg.sz ia pg.ia)
      (fun ia => some (pg.stored ia)) := by
  induction maps generalizing frame with
  | refused _ failed => exact .unchanged intact fun _ done => failed done.1
  | here _ size => exact mapHere_edited intact leaf size
  | noChild created =>
    obtain ⟨first, _⟩ := getOrCreateChild_edited intact created
    exact Edited.after (.unchanged first.intact (by simp)) first
  | child valid smaller created _ ih =>
    obtain ⟨first, leads⟩ := getOrCreateChild_edited intact created
    have leads := leads _ rfl
    have edited := ih (by omega) (first.intact.child leads)
    exact (Edited.putChild first.intact isBelow (dvd_blockSize valid smaller.le) leads
      edited).after first

theorem mapPage_unmapped {t t' : Pgtbl level} {ia : Nat} (isBelow : level ≤ config.start)
    (intact : Intact config alloc frame t) (result : mapPage config t pg alloc = (t', alloc', .ok))
    (inBlock : SameBlock (config.span level) pg.sz ia pg.ia) : lookup config t ia = none := by
  have maps := mapPage_maps result
  clear result
  generalize isOk : Rc.ok = rc at maps
  induction maps generalizing frame with
  | refused _ failed => exact absurd isOk.symm failed
  | noChild => cases isOk
  | child isValid smaller created below ih =>
    obtain ⟨sameIndex, inBlock⟩ :=
      (sameBlock_succ isBelow (dvd_blockSize isValid smaller.le)).mp inBlock
    obtain ⟨first, leads⟩ := getOrCreateChild_edited intact created
    have leads := leads _ rfl
    rw [← first.outside ia not_false, leads.lookup sameIndex]
    exact ih (by omega) (first.intact.child leads) inBlock isOk
  | here _ size =>
    rw [size, sameBlock_here] at inBlock
    unfold mapHere at isOk
    apply lookup_of_invalid
    rw [inBlock, Bool.eq_false_iff]
    intro valid
    simp [valid] at isOk

theorem mapPage_fits (done : (mapPage config t pg alloc).2.2 = .ok) :
    validBlockSize pg.sz ∧ pg.sz ≤ blockSize level := by
  generalize result : mapPage config t pg alloc = outcome at done
  obtain ⟨t', alloc', rc⟩ := outcome
  cases mapPage_maps result with
  | refused _ failed => exact absurd done failed
  | here valid size => exact ⟨valid, size.le⟩
  | noChild => cases done
  | child valid smaller => exact ⟨valid, smaller.le⟩

/-! ## Unmapping -/

theorem unmapHere_edited {t' : Pgtbl level} {rc : Rc}
    (intact : Intact config alloc frame t) (size : pg.sz = blockSize level)
    (result : unmapHere config t pg = (t', rc)) :
    Edited config alloc frame t t'
      (fun ia => rc = .ok ∧ SameBlock (config.span level) pg.sz ia pg.ia) (fun _ => none) := by
  simp only [unmapHere] at result
  split at result
  · cases result
    exact .unchanged intact (by simp)
  · next isValid =>
    have entry : config.levelIndex level pg.ia ∈ validEntries config t :=
      mem_validEntries.mpr ⟨config.levelIndex_lt _ _, by simpa using isValid⟩
    split at result
    · cases result
      exact .unchanged intact (by simp)
    · cases result
      refine .setEntry intact (by simp) ?_ size rfl ?_
      · rw [validEntries_setPte_zero, card_erase_of_mem entry, intact.sound.count]
      · intro t' ia entry
        apply lookup_of_invalid
        rw [entry]
        rfl

theorem freeChildren_allocOk {free : Pgtbl level → Alloc → Alloc × Rc}
    (freed : ∀ {frame : List Nat} {child : Pgtbl level} {alloc : Alloc},
      AllocOk config alloc (frame ++ child.tblPa :: descendants child) →
        AllocOk config (free child alloc).1 frame) {children : List (Pgtbl level)} {table : Table}
    (allocOk : AllocOk config alloc (frame ++ table.tblPa ::
      children.flatMap fun child => child.tblPa :: descendants child)) :
    AllocOk config (freeChildren config free children table alloc).1 frame := by
  induction children generalizing alloc table with
  | nil => exact (allocOk.perm perm_append_comm).pgtblRelease
  | cons child rest ih =>
    simp only [freeChildren]
    split
    · have childFreed := freed (allocOk.perm (perm_childLast frame table.tblPa child rest))
      split
      · next alloc₁ isFreed =>
        rw [isFreed] at childFreed
        exact ih childFreed
      · next alloc₁ rc _ isFreed =>
        rw [isFreed] at childFreed
        exact childFreed.sublist (sublist_append_left _ _)
    · exact allocOk.sublist (sublist_append_left _ _)

theorem freeDetached_allocOk (allocOk : AllocOk config alloc (frame ++ t.tblPa :: descendants t)) :
    AllocOk config (freeDetached config t alloc).1 frame := by
  induction level generalizing alloc frame with
  | zero => exact (allocOk.perm perm_append_comm).pgtblRelease
  | succ level ih =>
    exact freeChildren_allocOk ih allocOk

theorem Leads.index {t : Pgtbl (level + 1)} {child : Pgtbl level} {base : Nat}
    (leads : Leads config t base child) (intact : Intact config alloc frame t) :
    config.levelIndex (level + 1) child.mapIa = config.levelIndex (level + 1) base := by
  obtain ⟨attached, reached, index⟩ := intact.sound.reached intact.nodup leads.entry leads.isTable
  rw [leads.reached] at reached
  cases reached
  exact index

theorem lookup_of_pteCnt_zero (sound : Sound config t) (empty : t.pteCnt = 0)
    (ia : Nat) : lookup config t ia = none := by
  apply lookup_of_invalid
  rw [Bool.eq_false_iff]
  intro valid
  have entry : config.levelIndex level ia ∈ validEntries config t :=
    mem_validEntries.mpr ⟨config.levelIndex_lt _ _, valid⟩
  rw [sound.count, card_eq_zero] at empty
  rw [empty] at entry
  cases entry

variable {child child' : Pgtbl level}

theorem Leads.freeChild_eq {t : Pgtbl (level + 1)} {base : Nat}
    (leads : Leads config t base child) (intact : Intact config alloc frame t)
    (mapIa : child'.mapIa = child.mapIa) (alloc' : Alloc) :
    freeChild config t child' alloc' =
      ((t.setPte (config.levelIndex (level + 1) base) 0 (t.pteCnt - 1)).removeChild child',
        (freeDetached config child' alloc').1) := by
  have index : config.levelIndex (level + 1) child'.mapIa = config.levelIndex (level + 1) base := by
    rw [mapIa]
    exact leads.index intact
  have valid := (mem_validEntries.mp leads.entry).2
  simp only [freeChild, deattach, index]
  rw [if_pos valid]

theorem Edited.freeChild {t : Pgtbl (level + 1)} {size base : Nat}
    {done : Prop} (intact : Intact config alloc frame t)
    (below : level + 1 ≤ config.start) (divides : size ∣ blockSize (level + 1))
    (leads : Leads config t base child)
    (edited : Edited config alloc' (child.tblPa :: (frame ++ siblings t child)) child child'
      (fun ia => done ∧ SameBlock (config.span level) size ia base) (fun _ => none))
    (empty : child'.pteCnt = 0) :
    Edited config (freeChild config t child' alloc').2 frame t (freeChild config t child' alloc').1
      (fun ia => done ∧ SameBlock (config.span (level + 1)) size ia base) (fun _ => none) := by
  have sound := intact.sound
  set index := config.levelIndex (level + 1) base with isIndex
  set t' := (t.setPte index 0 (t.pteCnt - 1)).removeChild child' with isParent
  rw [leads.freeChild_eq intact edited.mapIa alloc', ← isIndex, ← isParent]
  have children : t'.children = dropKey Pgtbl.tblPa child.tblPa t.children := by
    rw [← edited.tblPa]
    rfl
  have entry : ∀ j, t'.pte j = if j = index then 0 else t.pte j :=
    pte_setPte (t := t) index 0 (t.pteCnt - 1)
  have entries : validEntries config t' = (validEntries config t).erase index :=
    validEntries_setPte_zero (t := t) index (t.pteCnt - 1)
  have otherChild : ∀ j ∈ validEntries config t, j ≠ index → pteIsTable (t.pte j) →
      pteAddr (t.pte j) ≠ child.tblPa := by
    intro j isEntry other isTable shared
    rw [leads.address] at shared
    exact other (sound.entry_unique intact.nodup isEntry isTable leads.entry leads.isTable shared)
  have gone : ∀ ia, config.levelIndex (level + 1) ia = index → lookup config t' ia = none := by
    intro ia same
    apply lookup_of_invalid
    rw [entry, if_pos same]
    rfl
  refine ⟨?_, ?_, ?_, ?_, ?_, ?_⟩
  · simp [isParent, Pgtbl.tblPa, setPte, removeChild]
  · simp [isParent, Pgtbl.mapIa, setPte, removeChild]
  · refine ⟨?_, ?_, ?_⟩
    · rw [entries, card_erase_of_mem leads.entry, ← sound.count]
      simp [isParent, Pgtbl.pteCnt, setPte, removeChild]
    · intro j isEntry isTable
      rw [entries, mem_erase] at isEntry
      obtain ⟨other, isEntry⟩ := isEntry
      rw [entry, if_neg other] at isTable ⊢
      obtain ⟨attached, mem, address, index⟩ := sound.2.1 j isEntry isTable
      refine ⟨attached, ?_, address, index⟩
      rw [children, dropKey, mem_filter, address]
      exact ⟨mem, by simpa using otherChild j isEntry other isTable⟩
    · intro other mem
      exact sound.2.2 other (mem_of_mem_filter mem)
  · apply freeDetached_allocOk (t := child')
    rw [edited.tblPa, descendants, children]
    exact edited.alloc.perm perm_middle.symm
  · rintro ia ⟨-, inBlock⟩
    exact gone ia ((sameBlock_succ below divides).mp inBlock).1
  · intro ia unaffected
    by_cases same : config.levelIndex (level + 1) ia = index
    · rw [gone ia same, leads.lookup same, ← edited.outside ia,
        lookup_of_pteCnt_zero edited.sound empty]
      rintro ⟨isDone, inChild⟩
      exact unaffected ⟨isDone, (sameBlock_succ below divides).mpr ⟨same, inChild⟩⟩
    · apply lookup_congr
      · rw [entry, if_neg same]
      · intro valid isTable
        rw [children]
        apply findKey_dropKey_of_ne
        exact otherChild _ (levelIndex_mem_validEntries valid) same isTable

theorem pteCnt_of_emptied (isEmpty : emptied config t) : t.pteCnt = 0 := by
  simp only [emptied, decide_eq_true_eq] at isEmpty
  exact isEmpty.1

theorem Unmaps.edited {t t' : Pgtbl level} {freed : Bool} {rc : Rc}
    (unmaps : Unmaps config pg t alloc t' freed alloc' rc) (isBelow : level ≤ config.start)
    (intact : Intact config alloc frame t) :
    Edited config alloc' frame t t'
      (fun ia => rc = .ok ∧ SameBlock (config.span level) pg.sz ia pg.ia) (fun _ => none) ∧
      (freed → t'.pteCnt = 0) := by
  induction unmaps generalizing frame with
  | refused failed => exact ⟨.unchanged intact fun _ done => failed done.1, by simp⟩
  | here size unmapped => exact ⟨unmapHere_edited intact size unmapped, pteCnt_of_emptied⟩
  | child valid smaller isChild _ ih =>
    have leads := (getChild_leads intact).mp isChild
    have edited := ih (by omega) (intact.child leads)
    exact ⟨Edited.putChild intact isBelow (dvd_blockSize valid smaller.le) leads edited.1,
      pteCnt_of_emptied⟩
  | freed valid smaller isChild _ ih =>
    have leads := (getChild_leads intact).mp isChild
    obtain ⟨edited, empty⟩ := ih (by omega) (intact.child leads)
    exact ⟨Edited.freeChild intact isBelow (dvd_blockSize valid smaller.le) leads edited
      (empty rfl), pteCnt_of_emptied⟩

theorem levelIndex_mapMask {low high ia : Nat} (le : low ≤ high) :
    config.levelIndex high (mapMask low ia) = config.levelIndex high ia := by
  obtain ⟨factor, isFactor⟩ := blockSize_dvd le
  rw [Config.levelIndex, Config.levelIndex, mapMask, isFactor, ← Nat.div_div_eq_div_mul,
    ← Nat.div_div_eq_div_mul, Nat.mul_div_cancel _ (blockSize_pos low)]

variable {ia : Nat}

theorem lookup_some_cases (found : lookup config t ia = some pg) :
    pteValid (t.pte (config.levelIndex level ia)) ∧
      pteIsTable (t.pte (config.levelIndex level ia)) = false ∧
      pg = pageAt level ia (t.pte (config.levelIndex level ia)) ∨
    ∃ (low : Nat) (isSucc : level = low + 1) (child : Pgtbl low),
      Leads config (isSucc ▸ t) ia child ∧ lookup config child ia = some pg := by
  by_cases valid : pteValid (t.pte (config.levelIndex level ia))
  · by_cases isTable : pteIsTable (t.pte (config.levelIndex level ia))
    · cases level with
      | zero => simp [lookup, valid, isTable] at found
      | succ level =>
        simp only [lookup, valid, isTable, Bool.not_true, Bool.false_eq_true, if_false,
          if_true] at found
        split at found
        · cases found
        · next child reached =>
          exact .inr ⟨level, rfl, child, ⟨levelIndex_mem_validEntries valid, isTable, reached⟩,
            found⟩
    · rw [Bool.not_eq_true] at isTable
      rw [lookup_of_leaf valid isTable] at found
      exact .inl ⟨valid, isTable, (Option.some.inj found).symm⟩
  · rw [Bool.not_eq_true] at valid
    rw [lookup_of_invalid valid] at found
    cases found

theorem lookup_size (found : lookup config t ia = some pg) :
    ∃ low ≤ level, pg.sz = blockSize low ∧ pg.ia = mapMask low ia := by
  induction level with
  | zero =>
    rcases lookup_some_cases found with ⟨_, _, rfl⟩ | ⟨low, isSucc, _⟩
    · exact ⟨0, le_refl 0, rfl, rfl⟩
    · cases isSucc
  | succ level ih =>
    rcases lookup_some_cases found with ⟨_, _, rfl⟩ | ⟨low, isSucc, child, _, below⟩
    · exact ⟨level + 1, le_refl _, rfl, rfl⟩
    · cases isSucc
      obtain ⟨low, isLow, page⟩ := ih below
      exact ⟨low, by omega, page⟩

theorem unmapPage_of_lookup {level : Nat} {alloc : Alloc} {frame : List Nat} {t : Pgtbl level}
    (isBelow : level ≤ config.start) (intact : Intact config alloc frame t)
    (found : lookup config t ia = some pg) : (unmapPage config t pg alloc).2.2.2 = .ok := by
  obtain ⟨low, isLow, size, base⟩ := lookup_size found
  have isValid : validBlockSize pg.sz :=
    validBlockSize_iff.mpr ⟨low, (isLow.trans isBelow).trans config.start_le, size⟩
  have notLarger : ¬ blockSize level < pg.sz := by
    rw [size]
    exact Nat.not_lt.mpr (Nat.le_of_dvd (blockSize_pos _) (blockSize_dvd isLow))
  rw [unmapPage.eq_def]
  simp only [isValid, if_neg notLarger, Bool.not_true, reduceCtorEq, reduceIte]
  rcases lookup_some_cases found with ⟨valid, isLeaf, isPage⟩ | ⟨childLevel, isSucc, child, leads, below⟩
  · have here : ¬ pg.sz < blockSize level := by
      rw [isPage]
      exact Nat.lt_irrefl _
    have index : config.levelIndex level pg.ia = config.levelIndex level ia := by
      rw [isPage]
      exact levelIndex_mapMask (le_refl level)
    simp only [if_neg here, unmapHere, index, valid, isLeaf, Bool.not_true, Bool.false_eq_true,
      and_false, if_false]
  · subst isSucc
    obtain ⟨childLow, isChildLow, childSize, _⟩ := lookup_size below
    have smaller : pg.sz < blockSize (childLevel + 1) := by
      rw [childSize]
      exact blockSize_lt (by omega)
    have index : config.levelIndex (childLevel + 1) pg.ia = config.levelIndex (childLevel + 1) ia := by
      rw [base]
      exact levelIndex_mapMask isLow
    have leads : Leads config t pg.ia child := by
      obtain ⟨entry, isTable, reached⟩ := leads
      rw [← index] at entry isTable reached
      exact ⟨entry, isTable, reached⟩
    simp only [if_pos smaller, (getChild_leads intact).mpr leads]
    exact unmapPage_of_lookup (by omega) (intact.child leads) below
termination_by level

end Pgtbl

end Xvisor.Mmu
