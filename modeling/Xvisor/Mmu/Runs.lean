import Xvisor.Lib.System
import Xvisor.Mmu.Map

/-!
# Page tables as partial functions

The abstract page table is a partial function from input addresses to pages.
-/

namespace Xvisor.Mmu

open Lib

def Mapping := Nat → Option Page

namespace Mapping

def empty : Mapping := fun _ => none

def overwrite (m : Mapping) (space : Nat) (pg : Page) (new : Nat → Option Page) : Mapping :=
  fun ia => if SameBlock space pg.sz ia pg.ia then new ia else m ia

def map (m : Mapping) (space : Nat) (pg : Page) : Mapping :=
  m.overwrite space pg fun ia => some (pg.stored ia)

def unmap (m : Mapping) (space : Nat) (pg : Page) : Mapping :=
  m.overwrite space pg fun _ => none

end Mapping

variable {config : Config}

theorem Pgtbl.Edited.overwrites {alloc : Alloc} {frame : List Nat} {level : Nat}
    {t t' : Pgtbl level} {pg : Page} {rc : Rc} {new : Nat → Option Page} {m : Mapping}
    (edited : Edited config alloc frame t t'
      (fun ia => rc = .ok ∧ SameBlock (config.span level) pg.sz ia pg.ia) new)
    (before : ∀ ia, lookup config t ia = m ia) (ia : Nat) :
    lookup config t' ia = (if rc = .ok then m.overwrite (config.span level) pg new else m) ia := by
  split
  · next done =>
    rw [Mapping.overwrite]
    split
    · next inBlock => exact edited.inside ia ⟨done, inBlock⟩
    · next outside =>
      rw [← before]
      exact edited.outside ia fun affected => outside affected.2
  · next failed =>
    rw [← before]
    exact edited.outside ia fun affected => failed affected.1

/-- A tree, the allocator of its tables, and the abstract page table. -/
structure MmuState (config : Config) where
  root : Pgtbl config.start
  alloc : Alloc
  mapping : Mapping

namespace MmuState

variable {config : Config}

def mapPage (s : MmuState config) (pg : Page) : MmuState config × Rc :=
  let (root, alloc, rc) := Pgtbl.mapPage config s.root pg s.alloc
  let mapping := if rc = .ok then s.mapping.map (config.span config.start) pg else s.mapping
  (⟨root, alloc, mapping⟩, rc)

def unmapPage (s : MmuState config) (pg : Page) : MmuState config × Rc :=
  let (root, _, alloc, rc) := Pgtbl.unmapPage config s.root pg s.alloc
  let mapping := if rc = .ok then s.mapping.unmap (config.span config.start) pg else s.mapping
  (⟨root, alloc, mapping⟩, rc)

def getPage (s : MmuState config) (ia : Nat) : Option Page :=
  Pgtbl.getPage config s.alloc s.root ia

/-- The tree is well formed, its tables are known to the allocator, and it translates as the
abstract page table says. -/
structure Refines (s : MmuState config) : Prop where
  sound : Pgtbl.Sound config s.root
  alloc : AllocOk config s.alloc s.root.descendants
  lookup : ∀ ia, Pgtbl.lookup config s.root ia = s.mapping ia

variable {s : MmuState config} {pg : Page}

theorem dvd_span_of_mapPage_ok (done : (s.mapPage pg).2 = .ok) :
    pg.sz ∣ config.span config.start := by
  obtain ⟨isValid, size⟩ := Pgtbl.mapPage_fits done
  exact (Pgtbl.dvd_blockSize isValid size).trans (Nat.dvd_mul_right _ _)

variable (refines : s.Refines)
include refines

theorem Refines.getPage (ia : Nat) : s.getPage ia = s.mapping ia := by
  rw [← refines.lookup]
  apply Pgtbl.getPage_eq_lookup refines.sound
  intro tblPa below
  exact refines.alloc.found tblPa below

theorem Refines.intact : Pgtbl.Intact config s.alloc [] s.root :=
  ⟨refines.sound, refines.alloc⟩

theorem Refines.mapPage (leaf : pg.flags.leaf) : (s.mapPage pg).1.Refines := by
  generalize result : Pgtbl.mapPage config s.root pg s.alloc = mapped
  obtain ⟨root, alloc, rc⟩ := mapped
  have edited := (Pgtbl.mapPage_maps result).edited (le_refl _) refines.intact leaf
  simp only [MmuState.mapPage, result]
  exact ⟨edited.sound, edited.alloc, edited.overwrites refines.lookup⟩

theorem Refines.unmapPage : (s.unmapPage pg).1.Refines := by
  generalize result : Pgtbl.unmapPage config s.root pg s.alloc = unmapped
  obtain ⟨root, freed, alloc, rc⟩ := unmapped
  obtain ⟨edited, _⟩ := (Pgtbl.unmapPage_unmaps result).edited (le_refl _) refines.intact
  simp only [MmuState.unmapPage, result]
  exact ⟨edited.sound, edited.alloc, edited.overwrites refines.lookup⟩

theorem Refines.getPage_mapPage_ok (leaf : pg.flags.leaf)
    (done : (s.mapPage pg).2 = .ok) (ia : Nat) :
    (s.mapPage pg).1.getPage ia =
      if SameBlock (config.span config.start) pg.sz ia pg.ia then some (pg.stored ia)
      else s.getPage ia := by
  rw [(refines.mapPage leaf).getPage, refines.getPage]
  simp only [MmuState.mapPage] at done ⊢
  rw [if_pos done]
  rfl

theorem Refines.getPage_of_mapPage_ok {ia : Nat} (done : (s.mapPage pg).2 = .ok)
    (inBlock : SameBlock (config.span config.start) pg.sz ia pg.ia) : s.getPage ia = none := by
  generalize result : Pgtbl.mapPage config s.root pg s.alloc = mapped
  obtain ⟨root, alloc, rc⟩ := mapped
  simp only [MmuState.mapPage, result] at done
  subst done
  rw [refines.getPage, ← refines.lookup]
  exact Pgtbl.mapPage_unmapped (le_refl _) refines.intact result inBlock

theorem Refines.getPage_mapPage_failed (leaf : pg.flags.leaf)
    (failed : (s.mapPage pg).2 ≠ .ok) (ia : Nat) : (s.mapPage pg).1.getPage ia = s.getPage ia := by
  rw [(refines.mapPage leaf).getPage, refines.getPage]
  simp only [MmuState.mapPage] at failed ⊢
  rw [if_neg failed]

theorem Refines.unmapPage_ok {ia : Nat}
    (found : s.getPage ia = some pg) : (s.unmapPage pg).2 = .ok := by
  rw [refines.getPage, ← refines.lookup] at found
  exact Pgtbl.unmapPage_of_lookup (le_refl _) refines.intact found

theorem Refines.getPage_unmapPage {ia : Nat} (found : s.getPage ia = some pg) (other : Nat) :
    (s.unmapPage pg).1.getPage other =
      if SameBlock (config.span config.start) pg.sz other pg.ia then none
      else s.getPage other := by
  have done := refines.unmapPage_ok found
  rw [refines.unmapPage.getPage, refines.getPage]
  simp only [MmuState.unmapPage] at done ⊢
  rw [if_pos done]
  rfl

end MmuState

inductive MmuCall where
  | map (pg : Page)
  | unmap (pg : Page)
  | others (alloc : Alloc)

/-- Map and unmap calls from an empty root. Between them the allocator serves other trees,
which leaves the tables of this one alone. -/
def mmuSystem (config : Config) : System (MmuState config) MmuCall where
  init s := (∃ tblPa, s.root = .fresh tblPa config.start) ∧
    AllocOk config s.alloc [] ∧ s.mapping = .empty
  step s call s' :=
    match call with
    | .map pg => pg.flags.leaf ∧ s' = (s.mapPage pg).1
    | .unmap pg => s' = (s.unmapPage pg).1
    | .others alloc => AllocOk config alloc s.root.descendants ∧ s' = { s with alloc := alloc }

theorem mmuSystem_refines {s : MmuState config}
    (reached : (mmuSystem config).Reachable s) : s.Refines := by
  apply reached.invariant MmuState.Refines
  · rintro ⟨root, alloc, mapping⟩ ⟨⟨tblPa, rfl⟩, allocOk, rfl⟩
    have blank : Pgtbl.Blank (.fresh tblPa config.start) := Pgtbl.blank_fresh tblPa
    refine ⟨blank.sound, ?_, blank.lookup⟩
    rw [blank.descendants]
    exact allocOk
  · intro s call s' refines taken
    cases call with
    | map pg =>
      obtain ⟨leaf, rfl⟩ := taken
      exact refines.mapPage leaf
    | unmap pg =>
      cases taken
      exact refines.unmapPage
    | others alloc =>
      obtain ⟨allocOk, rfl⟩ := taken
      exact ⟨refines.sound, allocOk, refines.lookup⟩

/-- In every run, `mmu_get_page` computes the abstract page table. A successful map gives the
addresses of its block the page that its entry can hold and changes no other address, a failed
one changes nothing, and unmapping a page that `mmu_get_page` returned takes exactly its
addresses away. -/
theorem mmuRun_translates {s : MmuState config}
    (reached : (mmuSystem config).Reachable s) :
    (∀ ia, s.getPage ia = s.mapping ia) ∧
    (∀ pg : Page, pg.flags.leaf → ((s.mapPage pg).2 = .ok → ∀ ia, (s.mapPage pg).1.getPage ia =
        if SameBlock (config.span config.start) pg.sz ia pg.ia then some (pg.stored ia)
        else s.getPage ia) ∧
      ((s.mapPage pg).2 ≠ .ok → ∀ ia, (s.mapPage pg).1.getPage ia = s.getPage ia)) ∧
    (∀ ia pg, s.getPage ia = some pg → (s.unmapPage pg).2 = .ok ∧
      ∀ other, (s.unmapPage pg).1.getPage other =
        if SameBlock (config.span config.start) pg.sz other pg.ia then none
        else s.getPage other) := by
  have refines := mmuSystem_refines reached
  refine ⟨refines.getPage, ?_, ?_⟩
  · intro pg leaf
    exact ⟨refines.getPage_mapPage_ok leaf, refines.getPage_mapPage_failed leaf⟩
  · intro ia pg found
    exact ⟨refines.unmapPage_ok found, refines.getPage_unmapPage found⟩

def sv39x4 : Config := ⟨.stage2, 2, 0, 0, 0, Config.threeLevels_le⟩

def rwx : PgFlags := ⟨0, true, true, false, true, true, true, true, true⟩

def emptyTree : MmuState sv39x4 := ⟨.fresh 0x1000 2, ⟨[], 0, [0x1000], [some 2, some 3]⟩, .empty⟩

theorem emptyTree_init : (mmuSystem sv39x4).init emptyTree := by
  refine ⟨⟨_, rfl⟩, ⟨by decide, by decide, by decide, by decide, by simp [sv39x4], ?_⟩, rfl⟩
  intro _
  decide

/-- A 4 KiB page of the guest RAM at 0x80000000, read back at its last byte and then
unmapped. -/
theorem mmuRun_translates_guestRam :
    (emptyTree.mapPage ⟨0x80000000, 0x90000000, 0x1000, rwx⟩).2 = .ok ∧
    (emptyTree.mapPage ⟨0x80000000, 0x90000000, 0x1000, rwx⟩).1.getPage 0x80000FFF =
      some ⟨0x80000000, 0x90000000, 0x1000, rwx⟩ ∧
    ((emptyTree.mapPage ⟨0x80000000, 0x90000000, 0x1000, rwx⟩).1.unmapPage
      ⟨0x80000000, 0x90000000, 0x1000, rwx⟩).1.getPage 0x80000FFF = none := by
  have started : (mmuSystem sv39x4).Reachable emptyTree := .start emptyTree_init
  have mapped : (mmuSystem sv39x4).Reachable
      (emptyTree.mapPage ⟨0x80000000, 0x90000000, 0x1000, rwx⟩).1 :=
    started.next (show (mmuSystem sv39x4).step emptyTree (.map _) _ from ⟨by decide, rfl⟩)
  have done : (emptyTree.mapPage ⟨0x80000000, 0x90000000, 0x1000, rwx⟩).2 = .ok := by decide
  have found : (emptyTree.mapPage ⟨0x80000000, 0x90000000, 0x1000, rwx⟩).1.getPage 0x80000FFF =
      some ⟨0x80000000, 0x90000000, 0x1000, rwx⟩ := by
    rw [((mmuRun_translates started).2.1 _ (by decide)).1 done, if_pos (by decide)]
    decide
  refine ⟨done, found, ?_⟩
  rw [((mmuRun_translates mapped).2.2 _ _ found).2, if_pos (by decide)]

/-- An entry holds 56 address bits: a page mapped to 2^56 is read back at address 0. -/
theorem mapPage_truncates_address :
    (mmuSystem sv39x4).init emptyTree ∧
    (emptyTree.mapPage ⟨0, 2 ^ 56, 0x1000, rwx⟩).2 = .ok ∧
    (emptyTree.mapPage ⟨0, 2 ^ 56, 0x1000, rwx⟩).1.getPage 0 = some ⟨0, 0, 0x1000, rwx⟩ ∧
    2 ^ 56 / 0x1000 * 0x1000 ≠ 0 :=
  ⟨emptyTree_init, by decide, by decide, by decide⟩

end Xvisor.Mmu
