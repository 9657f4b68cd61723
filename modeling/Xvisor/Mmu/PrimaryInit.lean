import Xvisor.Mmu.Bookkeeping

/-!
# The page tables of the boot code

`mmu_scan_initial_pgtbl` builds the table records of the initial page tables. It
never returns when an entry of a level 0 table looks like a table entry or when a
table entry does not point to an initial table.
-/

namespace Xvisor.Mmu

open List Lib

def Platform.initialChild (platform : Platform) (tblPa pte : Nat) : Option Nat :=
  let childPa := pteAddr pte
  if childPa < platform.ipgtblBase ∨ platform.ipgtblBase + 8 * 4096 ≤ childPa then none
  else
    let childIdx := (childPa - platform.ipgtblBase) / 4096
    if 8 ≤ childIdx then none
    else
      let child := platform.ipgtblBase + childIdx * 4096
      if child = tblPa then none else some child

theorem Platform.initialChild_some {platform : Platform} {tblPa pte childPa : Nat}
    (result : platform.initialChild tblPa pte = some childPa) :
    childPa = pteAddr pte ∧ childPa ∈ platform.initTables := by
  have aligned := platform.firstAligned
  have isPage : 4096 ∣ pteAddr pte := Nat.dvd_mul_left _ _
  simp only [initialChild] at result
  split at result
  · cases result
  · next inside =>
    split at result
    · cases result
    · next isLow =>
      split at result
      · cases result
      · cases result
        refine ⟨by omega, mem_map.mpr ⟨_, mem_range.mpr ?_, rfl⟩⟩
        omega

namespace Pgtbl

variable {platform : Platform} {level : Nat}

section Scan

variable (platform)

def scanPages : List Nat → Table → Option Table
  | [], t => some t
  | i :: rest, t =>
    if !pteValid (t.pte i) then scanPages rest t
    else
      let t := { t with pteCnt := t.pteCnt + 1 }
      if !pteIsTable (t.pte i) then scanPages rest t else none

/-- The scan of a table of a higher level; the last argument counts the tables in use. -/
def scanEntries (scan : Nat → Nat → Nat → Option (Pgtbl level × Nat)) :
    List Nat → Pgtbl (level + 1) → Nat → Option (Pgtbl (level + 1) × Nat)
  | [], t, count => some (t, count)
  | i :: rest, t, count =>
    if !pteValid (t.pte i) then scanEntries scan rest t count
    else
      let t := t.update fun table => { table with pteCnt := table.pteCnt + 1 }
      if !pteIsTable (t.pte i) then scanEntries scan rest t count
      else
        match platform.initialChild t.tblPa (t.pte i) with
        | none => none
        | some childPa =>
          match scan childPa (t.mapIa + i * blockSize (level + 1)) (count + 1) with
          | none => none
          | some (child, count) =>
            let t := t.update fun table => { table with childCnt := table.childCnt + 1 }
            scanEntries scan rest (t.setChildren (t.children ++ [child])) count

def scanIndices : List Nat := List.range 512

def scanInitialPgtbl (mem : Nat → Nat → Nat) :
    (level : Nat) → (tblPa mapIa count : Nat) → Option (Pgtbl level × Nat)
  | 0, tblPa, mapIa, count =>
    (scanPages scanIndices ⟨tblPa, mapIa, mem tblPa, 0, 0⟩).map fun t => (t, count)
  | level + 1, tblPa, mapIa, count =>
    scanEntries platform (scanInitialPgtbl mem level) scanIndices
      (⟨tblPa, mapIa, mem tblPa, 0, 0⟩, []) count

end Scan

variable {scan : Nat → Nat → Nat → Option (Pgtbl level × Nat)} {rest : List Nat}

theorem scanEntries_of_invalid {t : Pgtbl (level + 1)} {count : Nat}
    (invalid : ∀ i ∈ rest, pteValid (t.pte i) = false) :
    scanEntries platform scan rest t count = some (t, count) := by
  induction rest with
  | nil => rfl
  | cons i rest ih =>
    simp only [scanEntries, invalid i mem_cons_self, Bool.not_false, if_true]
    exact ih fun j later => invalid j (mem_cons_of_mem _ later)

theorem scanPages_some {t t' : Table} (result : scanPages rest t = some t') :
    t'.tblPa = t.tblPa ∧ t'.mapIa = t.mapIa ∧ t'.pte = t.pte ∧ t'.childCnt = t.childCnt ∧
      t'.pteCnt = t.pteCnt + (rest.filter fun i => pteValid (t.pte i)).length ∧
      ∀ i ∈ rest, pteValid (t.pte i) → pteIsTable (t.pte i) = false := by
  induction rest generalizing t with
  | nil =>
    cases result
    simp
  | cons i rest ih =>
    simp only [scanPages] at result
    by_cases valid : pteValid (t.pte i)
    · simp only [valid, Bool.not_true, Bool.false_eq_true, if_false] at result
      split at result
      · next notTable =>
        obtain ⟨tblPa, mapIa, pte, childCnt, pteCnt, pages⟩ := ih result
        refine ⟨tblPa, mapIa, pte, childCnt, ?_, ?_⟩
        · simp only [pteCnt, filter_cons, valid, if_true, length_cons]
          omega
        · exact forall_mem_cons.mpr ⟨fun _ => by simpa using notTable, pages⟩
      · cases result
    · simp only [valid, Bool.not_false, if_true] at result
      obtain ⟨tblPa, mapIa, pte, childCnt, pteCnt, pages⟩ := ih result
      refine ⟨tblPa, mapIa, pte, childCnt, ?_, ?_⟩
      · rw [pteCnt, filter_cons_of_neg (by simpa using valid)]
      · exact forall_mem_cons.mpr ⟨fun isValid => absurd isValid valid, pages⟩

structure Scanned (platform : Platform) {level : Nat} (tblPa mapIa count : Nat) (t : Pgtbl level)
    (count' : Nat) : Prop where
  tblPa : t.tblPa = tblPa
  mapIa : t.mapIa = mapIa
  kept : Kept (platform.config .stage1) t
  tables : ∀ tblPa ∈ descendants t, tblPa ∈ platform.initTables
  counted : count' = count + (descendants t).length

structure Scanning (platform : Platform) {level : Nat} (word : Nat → Nat) (tblPa mapIa count : Nat)
    (done : List Nat) (t : Pgtbl (level + 1)) (count' : Nat) : Prop where
  tblPa : t.tblPa = tblPa
  mapIa : t.mapIa = mapIa
  pte : ∀ i, t.pte i = word i
  pteCnt : t.pteCnt = (done.filter fun i => pteValid (word i)).length
  childCnt : t.childCnt = t.children.length
  slots : t.children.map (slot (platform.config .stage1)) =
    done.filter fun i => pteValid (word i) && pteIsTable (word i)
  address : ∀ child ∈ t.children,
    pteAddr (word (slot (platform.config .stage1) child)) = child.tblPa
  kept : ∀ child ∈ t.children, Kept (platform.config .stage1) child
  tables : ∀ tblPa ∈ descendants t, tblPa ∈ platform.initTables
  counted : count' = count + (descendants t).length

theorem mem_scanIndices {i : Nat} : i ∈ scanIndices ↔ i < 512 := mem_range

theorem nodup_scanIndices : scanIndices.Nodup := nodup_range

theorem entries_stage1 (level : Nat) : (platform.config .stage1).entries level = 512 := by
  simp [Config.entries, Platform.config]

section Scanning

variable {word : Nat → Nat} {tblPa mapIa count count' count₁ : Nat} {done : List Nat}
  {t : Pgtbl (level + 1)}

theorem Scanning.finished
    (scanning : Scanning platform word tblPa mapIa count scanIndices t count') :
    Scanned platform tblPa mapIa count t count' := by
  have valid : validEntries (platform.config .stage1) t =
      (scanIndices.filter fun i => pteValid (word i)).toFinset := by
    ext i
    rw [mem_validEntries, entries_stage1, mem_toFinset, mem_filter, mem_scanIndices, scanning.pte]
  have tables : tableEntries (platform.config .stage1) t =
      (t.children.map (slot (platform.config .stage1))).toFinset := by
    ext i
    rw [scanning.slots, mem_toFinset, mem_tableEntries, entries_stage1, mem_filter,
      mem_scanIndices, scanning.pte, Bool.and_eq_true]
  have slotsNodup : (t.children.map (slot (platform.config .stage1))).Nodup := by
    rw [scanning.slots]
    exact nodup_scanIndices.filter _
  have pteCnt : t.pteCnt = (validEntries (platform.config .stage1) t).card := by
    rw [valid, toFinset_card_of_nodup (nodup_scanIndices.filter _), scanning.pteCnt]
  have address : ∀ child ∈ t.children,
      pteAddr (t.pte (slot (platform.config .stage1) child)) = child.tblPa := by
    intro child membership
    rw [scanning.pte, scanning.address child membership]
  exact ⟨scanning.tblPa, scanning.mapIa,
    ⟨pteCnt, ⟨scanning.childCnt, slotsNodup, tables, address⟩, scanning.kept⟩,
    scanning.tables, scanning.counted⟩

variable {i : Nat}

section

variable (scanning : Scanning platform word tblPa mapIa count done t count')
include scanning

theorem Scanning.skip (invalid : pteValid (word i) = false) :
    Scanning platform word tblPa mapIa count (done ++ [i]) t count' := by
  refine { scanning with pteCnt := ?_, slots := ?_ }
  · simp [scanning.pteCnt, filter_append, invalid]
  · simp [scanning.slots, filter_append, invalid]

theorem Scanning.page (valid : pteValid (word i)) (notTable : pteIsTable (word i) = false) :
    Scanning platform word tblPa mapIa count (done ++ [i])
      (t.update fun table => { table with pteCnt := table.pteCnt + 1 }) count' := by
  refine ⟨scanning.tblPa, scanning.mapIa, scanning.pte, ?_, scanning.childCnt, ?_,
    scanning.address, scanning.kept, scanning.tables, scanning.counted⟩
  · change t.pteCnt + 1 = _
    simp [scanning.pteCnt, filter_append, valid]
  · simp [scanning.slots, filter_append, notTable]

theorem Scanning.child {childPa : Nat} {child : Pgtbl level} (valid : pteValid (word i))
    (isTable : pteIsTable (word i)) (isChild : platform.initialChild tblPa (word i) = some childPa)
    (isSlot : slot (platform.config .stage1) child = i)
    (scanned : Scanned platform childPa (mapIa + i * blockSize (level + 1)) (count' + 1) child
      count₁) :
    Scanning platform word tblPa mapIa count (done ++ [i])
      ((t.update fun table =>
        { table with pteCnt := table.pteCnt + 1, childCnt := table.childCnt + 1 }).setChildren
          (t.children ++ [child])) count₁ := by
  obtain ⟨childAddress, isInit⟩ := Platform.initialChild_some isChild
  have member : ∀ other ∈ t.children ++ [child], other ∈ t.children ∨ other = child := by
    intro other membership
    rwa [mem_append, mem_singleton] at membership
  have tables : (t.children ++ [child]).flatMap (fun other => other.tblPa :: descendants other) =
      descendants t ++ child.tblPa :: descendants child := by
    rw [flatMap_append, flatMap_singleton]
    rfl
  refine ⟨scanning.tblPa, scanning.mapIa, scanning.pte, ?_, ?_, ?_, ?_, ?_, ?_, ?_⟩
  · change t.pteCnt + 1 = _
    simp [scanning.pteCnt, filter_append, valid]
  · change t.childCnt + 1 = (t.children ++ [child]).length
    rw [scanning.childCnt, length_append, length_singleton]
  · simp [scanning.slots, filter_append, valid, isTable, isSlot]
  · intro other membership
    rcases member other membership with old | rfl
    · exact scanning.address other old
    · rw [isSlot, ← childAddress, scanned.tblPa]
  · intro other membership
    rcases member other membership with old | rfl
    · exact scanning.kept other old
    · exact scanned.kept
  · intro other membership
    rw [descendants, children_setChildren, tables, mem_append, mem_cons] at membership
    rcases membership with old | rfl | below
    · exact scanning.tables other old
    · rw [scanned.tblPa]
      exact isInit
    · exact scanned.tables other below
  · rw [descendants, children_setChildren, tables, length_append, length_cons,
      scanned.counted, scanning.counted]
    omega

end

theorem levelIndex_entry (aligned : blockSize (level + 1) ∣ mapIa) (low : i < 512) :
    (platform.config .stage1).levelIndex level (mapIa + i * blockSize level) = i := by
  obtain ⟨factor, rfl⟩ := aligned
  rw [blockSize_succ, Config.levelIndex, entries_stage1, Nat.add_mul_div_right _ _ (blockSize_pos _),
    Nat.mul_assoc, Nat.mul_div_cancel_left _ (blockSize_pos level)]
  omega

theorem scanEntries_scanning
    (scans : ∀ {tblPa mapIa count : Nat} {child : Pgtbl level} {count' : Nat},
      blockSize (level + 1) ∣ mapIa → scan tblPa mapIa count = some (child, count') →
        Scanned platform tblPa mapIa count child count')
    (aligned : blockSize (level + 2) ∣ mapIa) (low : ∀ i ∈ rest, i < 512)
    {t' : Pgtbl (level + 1)} (scanning : Scanning platform word tblPa mapIa count done t count₁)
    (result : scanEntries platform scan rest t count₁ = some (t', count')) :
    Scanning platform word tblPa mapIa count (done ++ rest) t' count' := by
  induction rest generalizing t done count₁ with
  | nil =>
    cases result
    rwa [append_nil]
  | cons i rest ih =>
    have continued : done ++ i :: rest = (done ++ [i]) ++ rest := by simp
    rw [continued]
    have laterLow : ∀ j ∈ rest, j < 512 := fun j later => low j (mem_cons_of_mem _ later)
    have counted : ∀ j,
        (t.update fun table => { table with pteCnt := table.pteCnt + 1 }).pte j = word j :=
      scanning.pte
    have samePa : (t.update fun table => { table with pteCnt := table.pteCnt + 1 }).tblPa = tblPa :=
      scanning.tblPa
    have sameIa : (t.update fun table => { table with pteCnt := table.pteCnt + 1 }).mapIa = mapIa :=
      scanning.mapIa
    simp only [scanEntries, scanning.pte, counted, samePa, sameIa] at result
    split at result
    · next invalid =>
      exact ih laterLow (scanning.skip (by simpa using invalid)) result
    · next valid =>
      have valid : pteValid (word i) := by simpa using valid
      split at result
      · next notTable =>
        have notTable : pteIsTable (word i) = false := by simpa using notTable
        exact ih laterLow (scanning.page valid notTable) result
      · next isTable =>
        have isTable : pteIsTable (word i) := by simpa using isTable
        split at result
        · cases result
        · next childPa isChild =>
          split at result
          · cases result
          · next child count₂ childScan =>
            have childAligned : blockSize (level + 1) ∣ mapIa + i * blockSize (level + 1) :=
              Nat.dvd_add ((blockSize_dvd (Nat.le_succ _)).trans aligned) (Nat.dvd_mul_left _ _)
            have scanned := scans childAligned childScan
            have isSlot : slot (platform.config .stage1) child = i := by
              rw [slot, scanned.mapIa]
              exact levelIndex_entry aligned (low i mem_cons_self)
            exact ih laterLow
              (scanning.child valid isTable isChild isSlot scanned) result

theorem scanPages_scanned {mem : Nat → Nat} {t : Pgtbl 0}
    (result : scanPages scanIndices ⟨tblPa, mapIa, mem, 0, 0⟩ = some t) :
    Scanned platform tblPa mapIa count t count := by
  obtain ⟨samePa, sameIa, pte, childCnt, pteCnt, pages⟩ := scanPages_some result
  have valid : validEntries (platform.config .stage1) t =
      (scanIndices.filter fun i => pteValid (mem i)).toFinset := by
    ext i
    rw [mem_validEntries, entries_stage1, mem_toFinset, mem_filter, mem_scanIndices,
      Pgtbl.pte, Pgtbl.table, pte]
  have noTable : tableEntries (platform.config .stage1) t = ∅ := by
    rw [Finset.eq_empty_iff_forall_notMem]
    intro i entry
    obtain ⟨inRange, isValid, isTable⟩ := mem_tableEntries.mp entry
    rw [entries_stage1] at inRange
    rw [Pgtbl.pte, Pgtbl.table, pte] at isValid isTable
    rw [pages i (mem_scanIndices.mpr inRange) isValid] at isTable
    cases isTable
  refine ⟨samePa, sameIa, ⟨?_, childCnt, noTable⟩, ?_, rfl⟩
  · rw [valid, toFinset_card_of_nodup (nodup_scanIndices.filter _)]
    exact pteCnt.trans (Nat.zero_add _)
  · exact fun other membership => (not_mem_nil membership).elim

theorem scanInitialPgtbl_scanned {mem : Nat → Nat → Nat} {t : Pgtbl level}
    (aligned : blockSize (level + 1) ∣ mapIa)
    (result : scanInitialPgtbl platform mem level tblPa mapIa count = some (t, count')) :
    Scanned platform tblPa mapIa count t count' := by
  induction level generalizing tblPa mapIa count count' with
  | zero =>
    obtain ⟨table, scanned, outcome⟩ := Option.map_eq_some_iff.mp result
    cases outcome
    exact scanPages_scanned scanned
  | succ level ih =>
    have started : @Scanning platform level (mem tblPa) tblPa mapIa count []
        (⟨tblPa, mapIa, mem tblPa, 0, 0⟩, []) count := by
      refine ⟨rfl, rfl, fun _ => rfl, rfl, rfl, rfl, ?_, ?_, ?_, rfl⟩
      all_goals exact fun child membership => (not_mem_nil membership).elim
    rw [scanInitialPgtbl] at result
    have scanning := scanEntries_scanning
      (fun childAligned scanned => ih childAligned scanned) aligned
      (fun i membership => mem_scanIndices.mp membership) started result
    rw [nil_append] at scanning
    exact scanning.finished

end Scanning

end Pgtbl

end Xvisor.Mmu
