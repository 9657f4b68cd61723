import Xvisor.Guest.Aspace
import Xvisor.Mmu.Runs

/-!
# The software TLB of nested virtualization

A VCPU that runs a guest of its own has a shadow page table and a software TLB
whose active entries remember the pages in it. Entries for instructions and for
data are on separate lists. The panics of the code are `none`.
-/

namespace Xvisor.Nested

open Lib Mmu Guest

structure SwtlbEntry where
  page : Page
  shadowPage : Page
  shadowRegFlags : RegionFlags

/-- `struct nested_swtlb_xtlb`: entries by their place in the array. -/
structure Xtlb where
  activeList : List Nat
  freeList : List Nat

structure Swtlb where
  itlb : Xtlb
  dtlb : Xtlb
  entries : Nat → SwtlbEntry

namespace Swtlb

def xtlb (t : Swtlb) (itlb : Bool) : Xtlb := if itlb then t.itlb else t.dtlb

def setXtlb (t : Swtlb) (itlb : Bool) (x : Xtlb) : Swtlb :=
  if itlb then { t with itlb := x } else { t with dtlb := x }

end Swtlb

structure Npriv (config : Mmu.Config) where
  swtlb : Swtlb
  pgtbl : MmuState config

variable {config : Mmu.Config}

/-! ## Lookup -/

def SwtlbEntry.shadows (e : SwtlbEntry) (gpa : Nat) : Prop :=
  e.shadowPage.ia ≤ gpa ∧ gpa < Word.add e.shadowPage.ia e.shadowPage.sz

instance (e : SwtlbEntry) (gpa : Nat) : Decidable (e.shadows gpa) :=
  inferInstanceAs (Decidable (_ ∧ _))

def Xtlb.touch (x : Xtlb) (slot : Nat) : Xtlb :=
  { x with activeList := slot :: x.activeList.erase slot }

def Swtlb.find (t : Swtlb) (itlb : Bool) (gpa : Nat) : Option Nat :=
  (t.xtlb itlb).activeList.find? fun slot => (t.entries slot).shadows gpa

def nestedSwtlbLookup (t : Swtlb) (gpa : Nat) : Option SwtlbEntry × Swtlb :=
  match t.find true gpa with
  | some slot => (some (t.entries slot), t.setXtlb true (t.itlb.touch slot))
  | none =>
    match t.find false gpa with
    | some slot => (some (t.entries slot), t.setXtlb false (t.dtlb.touch slot))
    | none => (none, t)

/-! ## Update -/

variable (s : Npriv config)

/-- A free entry, or else the one that was used least recently, whose page is unmapped. -/
def takeSlot (x : Xtlb) : Option (Nat × Xtlb × MmuState config) :=
  match x.freeList with
  | slot :: rest => some (slot, { x with freeList := rest }, s.pgtbl)
  | [] =>
    match x.activeList.getLast? with
    | none => none
    | some slot =>
      match s.pgtbl.unmapPage (s.swtlb.entries slot).shadowPage with
      | (pgtbl, .ok) => some (slot, { x with activeList := x.activeList.dropLast }, pgtbl)
      | _ => none

def nestedSwtlbUpdate (itlb : Bool) (page shadowPage : Page)
    (shadowRegFlags : RegionFlags) : Option (Npriv config) :=
  match takeSlot s (s.swtlb.xtlb itlb) with
  | none => none
  | some (slot, x, pgtbl) =>
    let swtlb := { s.swtlb with
      entries := Function.update s.swtlb.entries slot ⟨page, shadowPage, shadowRegFlags⟩ }
    match pgtbl.mapPage shadowPage with
    | (pgtbl, .ok) =>
      some ⟨swtlb.setXtlb itlb { x with activeList := slot :: x.activeList }, pgtbl⟩
    | _ => none

/-! ## Flush -/

def flushBounds (gpa size : Nat) : Nat × Nat :=
  if gpa = 0 ∧ size = 0 then (0, 2 ^ 64 - 1) else (gpa, Word.sub (Word.add gpa size) 1)

def SwtlbEntry.flushedBy (e : SwtlbEntry) (gpa size : Nat) : Prop :=
  ¬ ((flushBounds gpa size).2 < e.page.ia ∨
    Word.sub (Word.add e.page.ia e.page.sz) 1 < (flushBounds gpa size).1)

instance (e : SwtlbEntry) (gpa size : Nat) : Decidable (e.flushedBy gpa size) :=
  inferInstanceAs (Decidable (¬ _))

def Swtlb.flushed (t : Swtlb) (itlb : Bool) (gpa size : Nat) : List Nat :=
  (t.xtlb itlb).activeList.filter fun slot => (t.entries slot).flushedBy gpa size

def Swtlb.flushXtlb (t : Swtlb) (itlb : Bool) (gpa size : Nat) : Xtlb where
  activeList := (t.xtlb itlb).activeList.filter fun slot => ¬ (t.entries slot).flushedBy gpa size
  freeList := (t.xtlb itlb).freeList ++ t.flushed itlb gpa size

def unmapShadows (entries : Nat → SwtlbEntry) : List Nat → MmuState config →
    Option (MmuState config)
  | [], pgtbl => some pgtbl
  | slot :: slots, pgtbl =>
    match pgtbl.unmapPage (entries slot).shadowPage with
    | (pgtbl, .ok) => unmapShadows entries slots pgtbl
    | _ => none

def cpuVcpuNestedSwtlbFlush (gpa size : Nat) : Option (Npriv config) :=
  let t := s.swtlb
  match unmapShadows t.entries (t.flushed true gpa size) s.pgtbl with
  | none => none
  | some pgtbl =>
    (unmapShadows t.entries (t.flushed false gpa size) pgtbl).map fun pgtbl =>
      ⟨{ t with itlb := t.flushXtlb true gpa size, dtlb := t.flushXtlb false gpa size }, pgtbl⟩

variable {gpa size slot : Nat}

theorem cpuVcpuNestedSwtlbFlush_some {s s' : Npriv config}
    (flushed : cpuVcpuNestedSwtlbFlush s gpa size = some s') :
    s'.swtlb = { s.swtlb with
      itlb := s.swtlb.flushXtlb true gpa size, dtlb := s.swtlb.flushXtlb false gpa size } := by
  unfold cpuVcpuNestedSwtlbFlush at flushed
  dsimp only at flushed
  split at flushed
  · cases flushed
  · obtain ⟨pgtbl, -, rfl⟩ := Option.map_eq_some_iff.mp flushed
    rfl

def Swtlb.active (t : Swtlb) : List Nat := t.itlb.activeList ++ t.dtlb.activeList

theorem Swtlb.mem_active {t : Swtlb} :
    slot ∈ t.active ↔ ∃ itlb, slot ∈ (t.xtlb itlb).activeList := by
  simp [active, xtlb]
  exact Or.comm

theorem mem_active_flush {s s' : Npriv config}
    (flushed : cpuVcpuNestedSwtlbFlush s gpa size = some s') :
    slot ∈ s'.swtlb.active ↔
      slot ∈ s.swtlb.active ∧ ¬ (s.swtlb.entries slot).flushedBy gpa size := by
  rw [cpuVcpuNestedSwtlbFlush_some flushed]
  simp [Swtlb.active, Swtlb.flushXtlb, Swtlb.xtlb, or_and_right]

theorem mem_flushed {t : Swtlb} :
    slot ∈ t.flushed true gpa size ++ t.flushed false gpa size ↔
      slot ∈ t.active ∧ (t.entries slot).flushedBy gpa size := by
  simp [Swtlb.active, Swtlb.flushed, Swtlb.xtlb, or_and_right]

end Xvisor.Nested
