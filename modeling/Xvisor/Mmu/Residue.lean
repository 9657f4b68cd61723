import Xvisor.Mmu.Map

/-!
# What a failed mapping leaves behind

`mmu_map_page` links each table it creates before it creates the next one, and it
does not undo this when a later table cannot be allocated.
-/

namespace Xvisor.Mmu

open List Lib

namespace Pgtbl

variable {config : Config} {alloc alloc' : Alloc} {level : Nat} {pg : Page}

def counters : {level : Nat} → Pgtbl level → List (Nat × Nat × Nat)
  | 0, t => [(tblPa t, pteCnt t, childCnt t)]
  | _ + 1, t => (tblPa t, pteCnt t, childCnt t) :: (children t).flatMap counters

/-- The same tables are attached, with the same counters, and as many tables are free and
registered as before. -/
structure NoResidue (t t' : Pgtbl level) (alloc alloc' : Alloc) : Prop where
  tables : (counters t').Perm (counters t)
  free : alloc'.poolFree.length = alloc.poolFree.length
  registered : alloc'.nonpool.length = alloc.nonpool.length

/-- The tables of a tree are different, and the allocator hands out no one of them. -/
structure Unshared (config : Config) (alloc : Alloc) (t : Pgtbl level) : Prop where
  nodup : (descendants t).Nodup
  fresh : ∀ newPa alloc', pgtblAlloc config alloc = (some newPa, alloc') → newPa ∉ descendants t

/-! ## Tables that are missing, and tables that are granted -/

def absentTables (pg : Page) : Nat → Nat
  | 0 => 0
  | level + 1 => if pg.sz < blockSize (level + 1) then absentTables pg level + 1 else 0

def missingTables (config : Config) (alloc : Alloc) (pg : Page) : {level : Nat} → Pgtbl level → Nat
  | 0, _ => 0
  | level + 1, t =>
    if validBlockSize pg.sz ∧ pg.sz < blockSize (level + 1) then
      if pteValid (pte t (config.levelIndex (level + 1) pg.ia)) then
        match getChild config alloc t pg.ia with
        | none => 0
        | some child => missingTables config alloc pg child
      else absentTables pg (level + 1)
    else 0

def grantedTables (config : Config) : Nat → Alloc → Nat
  | 0, _ => 0
  | n + 1, alloc =>
    match pgtblAlloc config alloc with
    | (none, _) => 0
    | (some _, alloc) => grantedTables config n alloc + 1

theorem grantedTables_le (config : Config) (n : Nat) (alloc : Alloc) :
    grantedTables config n alloc ≤ n := by
  induction n generalizing alloc with
  | zero => exact le_rfl
  | succ n ih =>
    unfold grantedTables
    split
    · exact Nat.zero_le _
    · exact Nat.succ_le_succ (ih _)

/-- What `mmu_map_page` does when its path misses `n` tables. -/
structure MapOutcome (config : Config) (alloc : Alloc) (t : Pgtbl level) (n : Nat)
    (result : Pgtbl level × Alloc × Rc) : Prop where
  tblPa : result.1.tblPa = t.tblPa
  untouched : grantedTables config n alloc = 0 → result.2.2 ≠ .ok →
    result.1 = t ∧ result.2.1.poolFree = alloc.poolFree ∧ result.2.1.nonpool = alloc.nonpool
  granted : 0 < n → grantedTables config n alloc = n → result.2.2 = .ok
  short : grantedTables config n alloc < n → result.2.2 ≠ .ok ∧
    (counters result.1).length = (counters t).length + grantedTables config n alloc

variable {t : Pgtbl level}

theorem MapOutcome.refused {rc : Rc} : MapOutcome config alloc t 0 (t, alloc, rc) where
  tblPa := rfl
  untouched _ _ := ⟨rfl, rfl, rfl⟩
  granted pos := absurd pos (lt_irrefl 0)
  short less := absurd less (Nat.not_lt_zero _)

theorem mapHere_outcome (t : Pgtbl level) (pg : Page) :
    MapOutcome config alloc t 0 ((mapHere config t pg).1, alloc, (mapHere config t pg).2) := by
  unfold mapHere
  by_cases valid : pteValid (t.pte (config.levelIndex level pg.ia))
  · rw [if_pos valid]
    exact .refused
  · rw [if_neg valid]
    refine ⟨?_, fun _ failed => absurd rfl failed, ?_, ?_⟩
    · simp [setPte, Pgtbl.tblPa]
    · exact fun pos => absurd pos (lt_irrefl 0)
    · exact fun less => absurd less (Nat.not_lt_zero _)

/-! ## Creating a table -/

theorem length_counters_blank (blank : Blank t) : (counters t).length = 1 := by
  cases level with
  | zero => rfl
  | succ level => rw [counters, blank.children, flatMap_nil, length_singleton]

theorem length_counters_attach {t : Pgtbl (level + 1)} {new child : Pgtbl level}
    (i entry count : Nat) (isNew : ∀ other ∈ t.children, other.tblPa ≠ new.tblPa)
    (same : child.tblPa = new.tblPa) :
    (counters (((t.setPte i entry count).addChild new).putChild child)).length =
      (counters t).length + (counters child).length := by
  have children : (((t.setPte i entry count).addChild new).putChild child).children =
      child :: t.children := by
    change replaceKey Pgtbl.tblPa child.tblPa child (new :: t.children) = _
    rw [replaceKey_cons, if_pos same.symm, replaceKey_of_absent (by rwa [same])]
  rw [counters, children, counters, flatMap_cons, length_cons, length_cons, length_append]
  omega

section

variable (isValid : validBlockSize pg.sz)
include isValid

theorem mapPage_create {t : Pgtbl (level + 1)} (smaller : pg.sz < blockSize (level + 1))
    (invalid : pteValid (t.pte (config.levelIndex (level + 1) pg.ia)) = false)
    (isNew : ∀ newPa alloc', pgtblAlloc config alloc = (some newPa, alloc') →
      ∀ other ∈ t.children, other.tblPa ≠ newPa)
    (below : ∀ (new : Pgtbl level) (alloc' : Alloc), Blank new →
      MapOutcome config alloc' new (absentTables pg level) (mapPage config new pg alloc') ∧
        (absentTables pg level = 0 → (mapPage config new pg alloc').2.2 = .ok)) :
    MapOutcome config alloc t (absentTables pg (level + 1)) (mapPage config t pg alloc) := by
  have one : absentTables pg (level + 1) = absentTables pg level + 1 := if_pos smaller
  rw [one, mapPage.eq_def]
  simp only [isValid, Bool.not_true, Bool.false_eq_true, if_false, lt_asymm smaller, smaller,
    if_true]
  unfold getOrCreateChild
  rw [if_neg (by simp [invalid])]
  cases allocated : pgtblAlloc config alloc with
  | mk newPa alloc₁ =>
    cases newPa with
    | none =>
      have none : grantedTables config (absentTables pg level + 1) alloc = 0 := by
        rw [grantedTables, allocated]
      refine ⟨rfl, fun _ _ => ⟨rfl, (by cases pgtblAlloc_cases allocated; exact ⟨rfl, rfl⟩)⟩, ?_, ?_⟩
      · rw [none]
        exact fun _ isZero => absurd isZero (Nat.succ_ne_zero _).symm
      · rw [none]
        exact fun _ => ⟨by simp, rfl⟩
    | some newPa =>
      have some : grantedTables config (absentTables pg level + 1) alloc =
          grantedTables config (absentTables pg level) alloc₁ + 1 := by
        rw [grantedTables, allocated]
      simp only [attach, invalid, Bool.false_eq_true, if_false]
      generalize isChild : ((fresh newPa level).update fun t =>
        { t with mapIa := mapMask (level + 1) pg.ia }) = new
      have blank : Blank new := isChild ▸ (blank_fresh newPa).setMapIa _
      have newTblPa : new.tblPa = newPa := by
        rw [← isChild]
        simp [Pgtbl.tblPa]
      obtain ⟨outcome, done⟩ := below new alloc₁ blank
      generalize mapPage config new pg alloc₁ = result at outcome done ⊢
      obtain ⟨child, alloc₂, rc⟩ := result
      have length := length_counters_attach (config.levelIndex (level + 1) pg.ia)
        (pteSetTable new.tblPa) (t.pteCnt + 1) (newTblPa ▸ isNew newPa alloc₁ allocated)
        outcome.tblPa
      refine ⟨?_, ?_, ?_, ?_⟩
      · simp [Pgtbl.tblPa, setPte, addChild, putChild]
      · rw [some]
        exact fun isZero => absurd isZero (Nat.succ_ne_zero _)
      · rw [some]
        intro _ all
        rcases eq_zero_or_pos (absentTables pg level) with last | more
        · exact done last
        · exact outcome.granted more (Nat.succ.inj all)
      · rw [some]
        intro less
        obtain ⟨failed, counted⟩ := outcome.short (Nat.lt_of_succ_lt_succ less)
        refine ⟨failed, length.trans ?_⟩
        rw [counted, length_counters_blank blank]
        omega

theorem mapPage_here (whole : pg.sz = blockSize level) :
    mapPage config t pg alloc = ((mapHere config t pg).1, alloc, (mapHere config t pg).2) := by
  rw [mapPage.eq_def]
  simp [isValid, whole.not_lt, whole.not_gt]

theorem le_blockSize_of_lt (smaller : pg.sz < blockSize (level + 1)) : pg.sz ≤ blockSize level := by
  obtain ⟨low, isLow, isSize⟩ := exists_level_of_le isValid smaller.le
  have notHere : low ≠ level + 1 := by
    rintro rfl
    omega
  rcases lt_or_eq_of_le (show low ≤ level by omega) with lower | rfl
  · exact isSize ▸ (blockSize_lt lower).le
  · exact isSize.le

theorem mapPage_blank (notLarger : pg.sz ≤ blockSize level) (blank : Blank t) :
    MapOutcome config alloc t (absentTables pg level) (mapPage config t pg alloc) ∧
      (absentTables pg level = 0 → (mapPage config t pg alloc).2.2 = .ok) := by
  have done : (mapHere config t pg).2 = .ok := by
    simp only [mapHere, blank.pte]
    rfl
  induction level generalizing alloc with
  | zero =>
    obtain ⟨low, isLow, isSize⟩ := exists_level_of_le isValid notLarger
    obtain rfl := Nat.le_zero.mp isLow
    rw [mapPage_here isValid isSize]
    exact ⟨mapHere_outcome t pg, fun _ => done⟩
  | succ level ih =>
    by_cases smaller : pg.sz < blockSize (level + 1)
    · refine ⟨mapPage_create isValid smaller ?_ ?_ ?_, ?_⟩
      · rw [blank.pte]
        rfl
      · rw [blank.children]
        simp
      · intro new alloc' newBlank
        refine ih (le_blockSize_of_lt isValid smaller) newBlank ?_
        simp only [mapHere, newBlank.pte]
        rfl
      · rw [absentTables, if_pos smaller]
        exact fun isZero => absurd isZero (Nat.succ_ne_zero _)
    · rw [mapPage_here isValid (by omega), absentTables, if_neg smaller]
      exact ⟨mapHere_outcome t pg, fun _ => done⟩

end

/-! ## The whole path -/

theorem Unshared.child {t : Pgtbl (level + 1)} {child : Pgtbl level}
    (unshared : Unshared config alloc t) (mem : child ∈ t.children) :
    Unshared config alloc child := by
  obtain ⟨_, below⟩ := child_mem_descendants mem
  refine ⟨?_, fun newPa alloc' allocated inside =>
    unshared.fresh newPa alloc' allocated (below newPa inside)⟩
  have nodup := (nodup_flatMap.mp unshared.nodup).1 child mem
  exact (nodup_cons.mp nodup).2

theorem putChild_outcome {t : Pgtbl (level + 1)} {child child' : Pgtbl level}
    (nodup : (descendants t).Nodup) (found : findKey tblPa child.tblPa t.children = some child)
    (same : child'.tblPa = child.tblPa) :
    (child' = child → t.putChild child' = t) ∧
      (counters (t.putChild child')).length + (counters child).length =
        (counters t).length + (counters child').length := by
  obtain ⟨before, after, split, replaced, -⟩ := findKey_split (children_nodup nodup) found
  have children : (t.putChild child').children = before ++ child' :: after := by
    change replaceKey Pgtbl.tblPa child'.tblPa child' t.children = _
    rw [same, replaced]
  refine ⟨?_, ?_⟩
  · rintro rfl
    exact Prod.ext rfl (children.trans split.symm)
  · rw [counters, counters, children, split]
    simp only [flatMap_append, flatMap_cons, length_cons, length_append]
    omega

theorem mapPage_outcome {level : Nat} {t : Pgtbl level} (pg : Page)
    (unshared : Unshared config alloc t) :
    MapOutcome config alloc t (missingTables config alloc pg t) (mapPage config t pg alloc) := by
  by_cases below : validBlockSize pg.sz ∧ pg.sz < blockSize level
  · obtain ⟨isValid, smaller⟩ := below
    cases level with
    | zero =>
      obtain ⟨low, isLow, isSize⟩ := exists_level_of_le isValid smaller.le
      obtain rfl := Nat.le_zero.mp isLow
      omega
    | succ level =>
      rw [missingTables, if_pos ⟨isValid, smaller⟩]
      by_cases valid : pteValid (t.pte (config.levelIndex (level + 1) pg.ia))
      · rw [if_pos valid, mapPage.eq_def]
        simp only [isValid, Bool.not_true, Bool.false_eq_true, if_false, lt_asymm smaller,
          smaller, if_true]
        rw [getOrCreateChild, if_pos valid]
        cases found : getChild config alloc t pg.ia with
        | none => exact .refused
        | some child =>
          have isChild := getChild_find found
          have outcome := mapPage_outcome pg (unshared.child (findKey_some isChild).1)
          obtain ⟨put, length⟩ := putChild_outcome unshared.nodup isChild outcome.tblPa
          refine ⟨rfl, ?_, outcome.granted, ?_⟩
          · intro none failed
            obtain ⟨same, sameAlloc⟩ := outcome.untouched none failed
            exact ⟨put same, sameAlloc⟩
          · intro less
            obtain ⟨failed, counted⟩ := outcome.short less
            refine ⟨failed, ?_⟩
            dsimp only
            omega
      · rw [if_neg valid]
        refine mapPage_create isValid smaller (Bool.eq_false_iff.mpr valid) ?_ ?_
        · intro newPa alloc' allocated other mem same
          exact unshared.fresh newPa alloc' allocated
            (same ▸ (child_mem_descendants mem).1)
        · intro new alloc' blank
          exact mapPage_blank isValid (le_blockSize_of_lt isValid smaller) blank
  · have none : missingTables config alloc pg t = 0 := by
      cases level with
      | zero => rfl
      | succ level => rw [missingTables, if_neg below]
    rw [none]
    by_cases isValid : validBlockSize pg.sz
    · rcases lt_or_eq_of_le (Nat.le_of_not_lt fun smaller => below ⟨isValid, smaller⟩) with
        larger | whole
      · rw [mapPage.eq_def]
        simp only [isValid, larger, reduceIte]
        exact .refused
      · rw [mapPage_here isValid whole.symm]
        exact mapHere_outcome t pg
    · rw [mapPage.eq_def]
      simp only [isValid, Bool.not_false, if_true]
      exact .refused
termination_by level

/-- A failing call leaves nothing behind exactly when the allocator grants none of the tables
that the path of the page misses, or all of them. -/
theorem mapPage_noResidue_iff (config : Config) (level : Nat) (t t' : Pgtbl level) (pg : Page)
    (alloc alloc' : Alloc) (rc : Rc) (unshared : Unshared config alloc t)
    (mapped : mapPage config t pg alloc = (t', alloc', rc)) :
    (rc ≠ .ok → NoResidue t t' alloc alloc') ↔
      grantedTables config (missingTables config alloc pg t) alloc = 0 ∨
        grantedTables config (missingTables config alloc pg t) alloc =
          missingTables config alloc pg t := by
  have outcome := mapPage_outcome pg unshared
  rw [mapped] at outcome
  generalize missingTables config alloc pg t = n at outcome ⊢
  constructor
  · intro clean
    by_contra partly
    obtain ⟨some, notAll⟩ := not_or.mp partly
    have less : grantedTables config n alloc < n :=
      lt_of_le_of_ne (grantedTables_le config n alloc) notAll
    obtain ⟨failed, counted⟩ := outcome.short less
    have same := (clean failed).tables.length_eq
    dsimp only at counted
    omega
  · intro granted failed
    have none : grantedTables config n alloc = 0 := by
      rcases granted with none | all
      · exact none
      · rcases eq_zero_or_pos n with rfl | positive
        · exact all
        · exact absurd (outcome.granted positive all) failed
    obtain ⟨same, free, registered⟩ := outcome.untouched none failed
    dsimp only at same free registered
    refine ⟨?_, ?_, ?_⟩
    · rw [same]
    · rw [free]
    · rw [registered]

def twoTables : Config := ⟨.stage1, 2, 0x10000, 0x20000, 2, Config.threeLevels_le⟩

def lowPage : Page := ⟨0, 0, 0x1000, ⟨0, true, true, false, false, false, false, true, true⟩⟩

theorem mapPage_noResidue_emptyPool :
    ∃ t' alloc', mapPage twoTables (fresh 0x10000 2) lowPage ⟨[], 0, [], []⟩ = (t', alloc', .efail) ∧
      NoResidue (fresh 0x10000 2) t' ⟨[], 0, [], []⟩ alloc' := by
  refine ⟨_, _, rfl, ?_⟩
  refine (mapPage_noResidue_iff twoTables 2 (fresh 0x10000 2) _ lowPage ⟨[], 0, [], []⟩ _ .efail
    ?_ rfl).mpr (.inl rfl) (by decide)
  exact ⟨nodup_nil, fun _ _ _ => not_mem_nil⟩

/-- One free table is linked below the root before the second allocation fails, and it stays. -/
theorem mapPage_leaves_table :
    ∃ t' alloc', mapPage twoTables (fresh 0x10000 2) lowPage ⟨[0x20000], 0, [], []⟩ =
        (t', alloc', .efail) ∧
      ¬ NoResidue (fresh 0x10000 2) t' ⟨[0x20000], 0, [], []⟩ alloc' := by
  refine ⟨_, _, rfl, ?_⟩
  intro clean
  exact absurd clean.free (by decide)

end Pgtbl

end Xvisor.Mmu
