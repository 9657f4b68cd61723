import Xvisor.Lib.Lists
import Xvisor.Mmu.PrimaryInit
import Xvisor.Mmu.Runs

/-!
# All page tables of a host

The hypervisor's own root and the roots that `mmu_pgtbl_alloc` hands out share one allocator. A
call names a live table by the addresses down from its root.
-/

namespace Xvisor.Mmu

open List Lib

inductive TableCall where
  | map (pg : Page)
  | unmap (pg : Page)
  | getChild (ia : Nat) (create : Bool)
  | free

def TableCall.isFree : TableCall → Bool
  | .free => true
  | _ => false

namespace Pgtbl

section Calls

variable (config : Config) (c : TableCall)

/-- A call on a table; the flag tells that the table itself is to be freed. -/
def call {level : Nat} (t : Pgtbl level) (alloc : Alloc) : Pgtbl level × Bool × Alloc :=
  match c with
  | .map pg =>
    let (t, alloc, _) := mapPage config t pg alloc
    (t, false, alloc)
  | .unmap pg =>
    let (t, freed, alloc, _) := unmapPage config t pg alloc
    (t, freed, alloc)
  | .getChild ia create =>
    match level, t with
    | 0, t => (t, false, alloc)
    | _ + 1, t =>
      if create then
        let (t, _, alloc) := getOrCreateChild config alloc t ia
        (t, false, alloc)
      else (t, false, alloc)
  | .free => (t, true, alloc)

def callAt : {level : Nat} → List Nat → Pgtbl level → Alloc → Pgtbl level × Bool × Alloc
  | _, [], t, alloc => t.call config c alloc
  | 0, _ :: _, t, alloc => (t, false, alloc)
  | _ + 1, tblPa :: path, t, alloc =>
    match findKey Pgtbl.tblPa tblPa (children t) with
    | none => (t, false, alloc)
    | some child =>
      let (child, freed, alloc) := callAt path child alloc
      if freed then
        let (t, alloc) := freeChild config t child alloc
        (t, false, alloc)
      else (putChild t child, false, alloc)

def orderly {level : Nat} (t : Pgtbl level) (alloc : Alloc) : Bool :=
  match c with
  | .map pg => pg.flags.leaf
  | .unmap pg => !endsAtTable config alloc t pg
  | .getChild .. => true
  | .free => true

def orderlyAt : {level : Nat} → List Nat → Pgtbl level → Alloc → Bool
  | _, [], t, alloc => t.orderly config c alloc
  | 0, _ :: _, _, _ => true
  | _ + 1, tblPa :: path, t, alloc =>
    match findKey Pgtbl.tblPa tblPa (children t) with
    | none => true
    | some child => orderlyAt path child alloc

end Calls

section Keeping

variable {platform : Platform} {stage : Stage} {alloc alloc' : Alloc} {frame foreign : List Nat}
  {level : Nat} {t t' : Pgtbl level} {c : TableCall} {freed : Bool}

theorem call_keeps (kept : Kept (platform.config stage) t)
    (owned : Owned platform stage alloc (frame ++ descendants t) foreign)
    (isOrderly : t.orderly (platform.config stage) c alloc)
    (result : t.call (platform.config stage) c alloc = (t', freed, alloc')) :
    Keeps platform stage alloc' frame foreign t t' := by
  cases c with
  | map pg =>
    cases result
    exact mapPage_keeps kept owned isOrderly rfl
  | unmap pg =>
    cases result
    exact unmapPage_keeps kept owned (by simpa [orderly] using isOrderly) rfl
  | getChild ia create =>
    cases level with
    | zero =>
      cases result
      exact .refl kept owned
    | succ level =>
      simp only [call] at result
      split at result
      · cases result
        exact (getOrCreateChild_keeps kept owned rfl).1
      · cases result
        exact .refl kept owned
  | free =>
    cases result
    exact .refl kept owned

theorem callAt_keeps {path : List Nat} (kept : Kept (platform.config stage) t)
    (owned : Owned platform stage alloc (frame ++ descendants t) foreign)
    (isOrderly : t.orderlyAt (platform.config stage) c path alloc)
    (result : t.callAt (platform.config stage) c path alloc = (t', freed, alloc')) :
    Keeps platform stage alloc' frame foreign t t' := by
  induction path generalizing level alloc alloc' frame freed with
  | nil =>
    rw [callAt] at result
    rw [orderlyAt] at isOrderly
    exact call_keeps kept owned isOrderly result
  | cons tblPa path ih =>
    cases level with
    | zero =>
      cases result
      exact .refl kept owned
    | succ level =>
      simp only [callAt] at result
      simp only [orderlyAt] at isOrderly
      split at result
      · cases result
        exact .refl kept owned
      · next child found =>
        rw [found] at isOrderly
        have reached : findKey Pgtbl.tblPa child.tblPa t.children = some child := by
          rw [(findKey_some found).2]
          exact found
        have childKept := kept.2.2 child (findKey_some found).1
        generalize called : child.callAt (platform.config stage) c path alloc = outcome at result
        obtain ⟨child', childFreed, alloc₁⟩ := outcome
        have keeps := ih childKept (Owned.child owned reached) isOrderly called
        cases childFreed with
        | false =>
          cases result
          exact .putChild kept owned reached keeps
        | true =>
          cases result
          exact .freeChild kept owned reached keeps

theorem unmapPage_freed {config : Config} {pg : Page} {rc : Rc}
    (result : unmapPage config t pg alloc = (t', true, alloc', rc)) : level < config.start := by
  have emptied_below : ∀ {level} {t : Pgtbl level}, true = emptied config t →
      level < config.start :=
    fun isEmpty => (of_decide_eq_true isEmpty.symm).2
  generalize isFreed : true = freed at result
  cases unmapPage_unmaps result with
  | refused => cases isFreed
  | here => exact emptied_below isFreed
  | child => exact emptied_below isFreed
  | freed => exact emptied_below isFreed

/-- Only a call on the root itself frees it: a free, or an unmap below the start level. -/
theorem callAt_freed {config : Config} {path : List Nat}
    (result : t.callAt config c path alloc = (t', true, alloc')) :
    path = [] ∧ (c.isFree ∨ level < config.start) := by
  cases path with
  | nil =>
    refine ⟨rfl, ?_⟩
    rw [callAt] at result
    cases c with
    | map pg => cases result
    | unmap pg =>
      simp only [call] at result
      generalize unmapped : unmapPage config t pg alloc = outcome at result
      obtain ⟨t₁, freed₁, alloc₁, rc⟩ := outcome
      cases result
      exact .inr (unmapPage_freed unmapped)
    | getChild ia create =>
      cases level with
      | zero => cases result
      | succ level =>
        simp only [call] at result
        split at result <;> cases result
    | free => exact .inl rfl
  | cons tblPa path =>
    cases level with
    | zero => cases result
    | succ level =>
      simp only [callAt] at result
      split at result
      · cases result
      · split at result <;> cases result

end Keeping

end Pgtbl

/-! ## Roots -/

/-- A root: the hypervisor's own one is static, the others were handed out by the allocator. -/
structure Root where
  stage : Stage
  level : Nat
  static : Bool
  tree : Pgtbl level

def Root.tables (r : Root) : List Nat :=
  (if r.static then [] else [r.tree.tblPa]) ++ r.tree.descendants

structure Forest where
  roots : List Root
  alloc : Alloc

def tablesOf (stage : Stage) (roots : List Root) : List Nat :=
  roots.flatMap fun r => if r.stage = stage then r.tables else []

/-- Allocate a root, of the start level if none is given, or call a function on a table of a
root. -/
inductive MmuRequest where
  | alloc (stage : Stage) (level : Option (Fin 5))
  | call (root : Nat) (path : List Nat) (c : TableCall)

namespace Forest

variable (platform : Platform)

/-- The state of the page tables when the boot code has run: every initial table that the scan
did not meet is free. -/
def primaryInit (mem : Nat → Nat → Nat) (rootPa : Nat) (supply : List (Option (Fin (2 ^ 44)))) :
    Option Forest :=
  match Pgtbl.scanInitialPgtbl platform mem (platform.start .stage1) rootPa 0 0 with
  | none => none
  | some (t, count) =>
    some {
      roots := [⟨.stage1, platform.start .stage1, true, t⟩]
      alloc := {
        poolFree := (List.range platform.poolCount).map (fun i => platform.pgtblBase + i * 4096) ++
          platform.initTables.filter (· ∉ t.descendants)
        poolAllocCount := count
        nonpool := []
        supply := supply } }

def run (f : Forest) : MmuRequest → Option Forest
  | .alloc stage level =>
    match pgtblAlloc (platform.config stage) f.alloc with
    | (none, alloc) => some { f with alloc := alloc }
    | (some tblPa, alloc) =>
      let level := level.elim (platform.start stage) Fin.val
      some ⟨f.roots ++ [⟨stage, level, false, .fresh tblPa level⟩], alloc⟩
  | .call root path c =>
    match f.roots[root]? with
    | none => none
    | some r =>
      let (tree, freed, alloc) := r.tree.callAt (platform.config r.stage) c path f.alloc
      if freed then
        let alloc := (Pgtbl.freeDetached (platform.config r.stage) tree alloc).1
        some ⟨f.roots.eraseIdx root, alloc⟩
      else some ⟨f.roots.set root { r with tree := tree }, alloc⟩

/-- Pages are mapped with a permission, no table is unmapped as if it were a page, and the
hypervisor's own root is not freed. -/
def orderly (f : Forest) : MmuRequest → Bool
  | .alloc .. => true
  | .call root path c =>
    match f.roots[root]? with
    | none => true
    | some r => r.tree.orderlyAt (platform.config r.stage) c path f.alloc &&
        !(r.static && path.isEmpty && c.isFree)

end Forest

/-- The page table code from boot on. The boot code links each initial table once. -/
def forestSystem (platform : Platform) : System Forest MmuRequest where
  init f := (∃ mem rootPa supply, Forest.primaryInit platform mem rootPa supply = some f) ∧
    (tablesOf .stage1 f.roots).Nodup
  step f request f' := f.run platform request = some f'

/-! ## The books of all tables -/

def Stage.other : Stage → Stage
  | .stage1 => .stage2
  | .stage2 => .stage1

theorem Stage.other_ne (stage : Stage) : stage ≠ stage.other := by
  cases stage <;> simp [Stage.other]

section Split

variable {stage : Stage} {before after : List Root} {r : Root}

theorem tablesOf_cons_other (other : r.stage ≠ stage) :
    tablesOf stage (before ++ r :: after) = tablesOf stage (before ++ after) := by
  simp [tablesOf, other]

theorem tablesOf_cons_perm (before after : List Root) (r : Root) :
    (tablesOf r.stage (before ++ r :: after)).Perm
      (((if r.static then [] else [r.tree.tblPa]) ++ tablesOf r.stage (before ++ after)) ++
        r.tree.descendants) := by
  rw [perm_iff_count]
  intro tblPa
  simp only [tablesOf, Root.tables, flatMap_append, flatMap_cons, if_true, count_append]
  omega

end Split

namespace Forest

/-- The books of all tables and of the allocator are right; the hypervisor's own root is a
table of the start level. -/
structure Kept (platform : Platform) (f : Forest) : Prop where
  trees : ∀ r ∈ f.roots, r.tree.Kept (platform.config r.stage)
  owned : ∀ stage, Owned platform stage f.alloc (tablesOf stage f.roots)
    (tablesOf stage.other f.roots)
  static : ∀ r ∈ f.roots, r.static → r.level = platform.start r.stage

variable {platform : Platform} {f f' : Forest}

theorem Kept.of_owned (stage : Stage) (trees : ∀ r ∈ f.roots, r.tree.Kept (platform.config r.stage))
    (owned : Owned platform stage f.alloc (tablesOf stage f.roots) (tablesOf stage.other f.roots))
    (static : ∀ r ∈ f.roots, r.static → r.level = platform.start r.stage) : Kept platform f := by
  refine ⟨trees, ?_, static⟩
  intro which
  cases stage <;> cases which <;> exact owned

theorem Kept.alloc {stage : Stage} {level : Option (Fin 5)} (kept : f.Kept platform)
    (result : f.run platform (.alloc stage level) = some f') : f'.Kept platform := by
  simp only [run] at result
  split at result
  · next alloc failed =>
    cases result
    exact .of_owned stage kept.trees ((kept.owned stage).pgtblAlloc_none failed) kept.static
  · next tblPa alloc allocated =>
    cases result
    have owned := (kept.owned stage).pgtblAlloc_some allocated
    generalize level.elim (platform.start stage) Fin.val = newLevel
    refine .of_owned stage ?_ ?_ ?_
    · refine forall_mem_append.mpr ⟨kept.trees, forall_mem_singleton.mpr ?_⟩
      exact (Pgtbl.blank_fresh tblPa).kept (by simp [Pgtbl.childCnt])
    · have fresh : Root.tables ⟨stage, newLevel, false, .fresh tblPa newLevel⟩ = [tblPa] := by
        simp [Root.tables, Pgtbl.tblPa, (Pgtbl.blank_fresh tblPa).descendants]
      rw [@tablesOf_cons_other stage.other _ _ _ stage.other_ne, append_nil]
      apply owned.perm
      simp only [tablesOf, flatMap_append, flatMap_singleton, if_true, fresh]
      exact (perm_append_singleton _ _).symm
    · exact forall_mem_append.mpr ⟨kept.static, forall_mem_singleton.mpr (by simp)⟩

theorem Kept.call {root : Nat} {path : List Nat} {c : TableCall} (kept : f.Kept platform)
    (isOrderly : f.orderly platform (.call root path c))
    (result : f.run platform (.call root path c) = some f') : f'.Kept platform := by
  simp only [run] at result
  simp only [orderly] at isOrderly
  split at result
  · cases result
  · next r found =>
    rw [found] at isOrderly
    dsimp only at isOrderly
    rw [Bool.and_eq_true] at isOrderly
    obtain ⟨before, after, roots, -, replaced, erased⟩ := getElem?_split found
    have isRoot : r ∈ f.roots := by simp [roots]
    have others : ∀ other ∈ before ++ after, other ∈ f.roots := by
      intro other membership
      rw [roots, perm_middle.mem_iff]
      exact mem_cons_of_mem _ membership
    have owned := kept.owned r.stage
    rw [roots, tablesOf_cons_other r.stage.other_ne] at owned
    generalize called : r.tree.callAt (platform.config r.stage) c path f.alloc = outcome at result
    obtain ⟨tree, freed, alloc⟩ := outcome
    have keeps := Pgtbl.callAt_keeps (kept.trees r isRoot)
      (owned.perm (tablesOf_cons_perm before after r)) isOrderly.1 called
    cases freed with
    | false =>
      cases result
      rw [replaced]
      refine .of_owned r.stage ?_ ?_ ?_
      · intro other membership
        rcases mem_cons.mp (perm_middle.mem_iff.mp membership) with rfl | old
        · exact keeps.kept
        · exact kept.trees other (others other old)
      · have own := tablesOf_cons_perm before after { r with tree := tree }
        rw [keeps.tblPa] at own
        dsimp only
        rw [tablesOf_cons_other (r := { r with tree := tree }) r.stage.other_ne]
        exact keeps.owned.perm own.symm
      · intro other membership isStatic
        rcases mem_cons.mp (perm_middle.mem_iff.mp membership) with rfl | old
        · exact kept.static r isRoot isStatic
        · exact kept.static other (others other old) isStatic
    | true =>
      cases result
      rw [erased]
      obtain ⟨isPath, reason⟩ := Pgtbl.callAt_freed called
      have notStatic : r.static = false := by
        rw [Bool.eq_false_iff]
        intro isStatic
        rcases reason with isFree | low
        · have spared := isOrderly.2
          rw [isStatic, isPath, isFree] at spared
          cases spared
        · rw [kept.static r isRoot isStatic] at low
          exact absurd low (lt_irrefl _)
      refine .of_owned r.stage (fun other membership => kept.trees other (others other membership))
        ?_ fun other membership => kept.static other (others other membership)
      have own := keeps.owned
      rw [notStatic, ← keeps.tblPa] at own
      exact (Pgtbl.freeDetached_owned keeps.kept (own.perm perm_middle.symm)).1

theorem perm_unused {used : List Nat} (nodup : used.Nodup)
    (included : ∀ tblPa ∈ used, tblPa ∈ platform.initTables) :
    (platform.initTables.filter (· ∉ used) ++ used).Perm platform.initTables := by
  have initNodup : platform.initTables.Nodup := Platform.nodup_pages _ _
  have apart : (platform.initTables.filter (· ∉ used)).Disjoint used := by
    intro tblPa unused isUsed
    exact of_decide_eq_true (mem_filter.mp unused).2 isUsed
  rw [perm_ext_iff_of_nodup ((initNodup.filter _).append nodup apart) initNodup]
  intro tblPa
  rw [mem_append, mem_filter]
  constructor
  · rintro (⟨isInit, _⟩ | isUsed)
    · exact isInit
    · exact included tblPa isUsed
  · intro isInit
    by_cases isUsed : tblPa ∈ used
    · exact .inr isUsed
    · exact .inl ⟨isInit, decide_eq_true isUsed⟩

theorem Kept.primaryInit {mem : Nat → Nat → Nat} {rootPa : Nat}
    {supply : List (Option (Fin (2 ^ 44)))}
    (booted : Forest.primaryInit platform mem rootPa supply = some f)
    (once : (tablesOf .stage1 f.roots).Nodup) : f.Kept platform := by
  simp only [Forest.primaryInit] at booted
  split at booted
  · cases booted
  · next t count result =>
    cases booted
    have scanned := Pgtbl.scanInitialPgtbl_scanned (dvd_zero _) result
    have tables : tablesOf .stage1 [⟨.stage1, platform.start .stage1, true, t⟩] =
        t.descendants := by
      simp [tablesOf, Root.tables]
    rw [tables] at once
    refine .of_owned .stage1 ?_ ?_ ?_
    · intro r membership
      rw [mem_singleton] at membership
      subst membership
      exact scanned.kept
    · rw [tables]
      refine ⟨⟨?_, ?_⟩, ?_⟩
      · dsimp only
        rw [append_assoc]
        exact List.Perm.append_left _ (perm_unused once scanned.tables)
      · rw [scanned.counted, zero_add]
      · exact ⟨List.Perm.nil, nodup_nil, by simp [tablesOf, Stage.other]⟩
    · intro r membership _
      rw [mem_singleton] at membership
      subst membership
      rfl

end Forest

/-- In every run, the counters of every table are exact, every child is referenced by exactly one
entry of its parent, the free tables of the pool and those handed out add up to the pool, and
freeing a root that was handed out does not fail. -/
theorem forestSystem_bookkeeping {platform : Platform} {f : Forest}
    (reached : ((forestSystem platform).restrict fun f request =>
      f.orderly platform request).Reachable f) :
    (∀ r ∈ f.roots, r.tree.Book (platform.config r.stage)) ∧
      f.alloc.poolFree.length + f.alloc.poolAllocCount = platform.poolCount + 8 ∧
      ∀ r ∈ f.roots, r.static = false →
        (r.tree.freeDetached (platform.config r.stage) f.alloc).2 = .ok := by
  have kept : f.Kept platform := by
    refine reached.invariant (Forest.Kept platform) ?_ ?_
    · rintro f ⟨⟨mem, rootPa, supply, booted⟩, once⟩
      exact .primaryInit booted once
    · rintro f request f' kept ⟨isOrderly, result⟩
      cases request with
      | alloc stage level => exact kept.alloc result
      | call root path c => exact kept.call isOrderly result
  have own : ∀ r ∈ f.roots, ∃ others, Owned platform r.stage f.alloc
      (((if r.static then [] else [r.tree.tblPa]) ++ others) ++ r.tree.descendants)
      (tablesOf r.stage.other f.roots) := by
    intro r membership
    obtain ⟨before, after, roots⟩ := append_of_mem membership
    have owned := kept.owned r.stage
    rw [roots] at owned ⊢
    exact ⟨_, owned.perm (tablesOf_cons_perm before after r)⟩
  refine ⟨?_, (kept.owned .stage1).1.total, ?_⟩
  · intro r membership
    obtain ⟨others, owned⟩ := own r membership
    exact (kept.trees r membership).book (Pgtbl.Owned.nodup_descendants owned)
  · intro r membership handedOut
    obtain ⟨others, owned⟩ := own r membership
    rw [handedOut] at owned
    exact (Pgtbl.freeDetached_owned (kept.trees r membership)
      (owned.perm perm_middle.symm)).2

/-! ## A table unmapped as if it were a page -/

/-- Sv39 with eight initial tables, a pool of two tables and no entry in the boot tables. -/
def smallHost : Platform where
  start _ := 2
  ipgtblBase := 0x10000
  pgtblBase := 0x20000
  poolCount := 2
  start_le _ := by decide
  firstAligned := by decide
  secondAligned := by decide
  firstSmall := by decide
  secondSmall := by decide
  disjoint := by decide

def bootRoot : Pgtbl 2 := (⟨0x1000, 0, fun _ => 0, 0, 0⟩, [])

def bootedHost : Forest where
  roots := [⟨.stage1, 2, true, bootRoot⟩]
  alloc := ⟨smallHost.poolTables, 0, [], [some 4, some 8, some 9]⟩

theorem bootedHost_init : (forestSystem smallHost).init bootedHost := by
  have noEntry : Pgtbl.scanInitialPgtbl smallHost (fun _ _ => 0) 2 0x1000 0 0 =
      some (bootRoot, 0) := by
    rw [Pgtbl.scanInitialPgtbl]
    exact Pgtbl.scanEntries_of_invalid fun _ _ => rfl
  have scanned : Pgtbl.scanInitialPgtbl smallHost (fun _ _ => 0) (smallHost.start .stage1) 0x1000
      0 0 = some (bootRoot, 0) := noEntry
  have booted : Forest.primaryInit smallHost (fun _ _ => 0) 0x1000 [some 4, some 8, some 9] =
      some bootedHost := by
    rw [Forest.primaryInit, scanned]
    rfl
  exact ⟨⟨_, _, _, booted⟩, by decide⟩

/-- A page mapped for a guest, and a table created for the hypervisor. -/
theorem forestSystem_bookkeeping_mapped :
    ∃ f : Forest, f.roots.map (fun r => r.tree.childCnt) = [1, 1] ∧
      f.alloc.poolFree.length = 9 ∧ f.alloc.poolAllocCount = 1 ∧
      ∀ r ∈ f.roots, r.tree.Book (smallHost.config r.stage) := by
  have started : ((forestSystem smallHost).restrict fun f request =>
      f.orderly smallHost request).Reachable bootedHost := .start bootedHost_init
  refine ⟨_, ?_, ?_, ?_, (forestSystem_bookkeeping
    (started.replay (fun f request => f.orderly smallHost request) (Forest.run smallHost)
      [.alloc .stage2 none, .call 1 [] (.map ⟨0x80000000, 0x90000000, 0x1000, rwx⟩),
        .call 0 [] (.getChild 0 true)]
      And.intro (by decide))).1⟩
  · decide
  · decide
  · decide

/-- A page of 4 KiB is mapped and 1 GiB is unmapped at its address: the entry of the root is
cleared, and the child stays on its list. -/
theorem unmapPage_orphans_child :
    ∃ f : Forest, (forestSystem smallHost).Reachable f ∧
      f.roots.map (fun r => (r.tree.pteCnt, r.tree.childCnt)) = [(0, 0), (0, 1)] ∧
      ∃ r ∈ f.roots, ¬r.tree.Book (smallHost.config r.stage) := by
  refine ⟨_, .replay (.start bootedHost_init) (fun _ _ => True)
    (Forest.run smallHost)
    [.alloc .stage2 none, .call 1 [] (.map ⟨0x80000000, 0x90000000, 0x1000, rwx⟩),
      .call 1 [] (.unmap ⟨0x80000000, 0, 0x40000000, rwx⟩)]
    (fun _ result => result) (by decide), ?_, ?_⟩
  · decide
  · refine ⟨_, get_mem _ ⟨1, by decide⟩, ?_⟩
    intro book
    exact absurd book.childCnt_le (by decide)

end Xvisor.Mmu
