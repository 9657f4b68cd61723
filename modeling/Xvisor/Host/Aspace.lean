import Xvisor.Buddy.PartialFree
import Xvisor.Host.Ram
import Xvisor.Mmu.Runs

/-!
# The host address space

`vmm_host_aspace.c` maps physical memory into the address space of the host. The
memmap hash remembers what is mapped, so that it is used again. New virtual
addresses come from a buddy allocator.
-/

namespace Xvisor.Host

open Lib Word Mmu Buddy

/-! ## The memmap hash -/

structure MappedRange where
  pa : Nat
  va : Nat
  sz : Nat
  deriving DecidableEq, Repr

structure MhashEntry extends MappedRange where
  memFlags : Nat
  refCount : Nat
  deriving DecidableEq, Repr

namespace MhashEntry

def paEnd (e : MhashEntry) : Nat := add e.pa e.sz

def vaEnd (e : MhashEntry) : Nat := add e.va e.sz

end MhashEntry

/-- `struct host_mhash_ctrl`: the number of entries there are, and the tree of those in use. -/
structure Mhash where
  count : Nat
  root : SearchTree MhashEntry

inductive MhashStatus where
  | ok
  | invalid
  | noMem
  | notAvail
  | busy
  deriving DecidableEq, Repr

/-- The descent of `__host_mhash_find`. Its last branch, a panic, is never taken. -/
def mhashDirection (pa : Nat) (e : MhashEntry) : Ordering :=
  if e.pa ≤ pa ∧ pa < e.paEnd then .eq
  else if pa < e.pa then .lt
  else .gt

def hostMhashFind (h : Mhash) (pa : Nat) : Option MhashEntry := h.root.search (mhashDirection pa)

def mhashAddDirection (e parent : MhashEntry) : Ordering :=
  if e.paEnd ≤ parent.pa then .lt
  else if parent.paEnd ≤ e.pa then .gt
  else .eq

def Mhash.setRefCount (h : Mhash) (e : MhashEntry) (refCount : Nat) : Mhash :=
  { h with root := h.root.map fun old => if old = e then { old with refCount } else old }

def MhashEntry.rejects (e : MhashEntry) (pa va sz : Nat) : Prop :=
  va < e.va ∨ e.vaEnd ≤ va ∨ add va sz < e.va ∨ e.vaEnd < add va sz ∨
    e.paEnd < add pa sz

instance (e : MhashEntry) (pa va sz : Nat) : Decidable (e.rejects pa va sz) :=
  inferInstanceAs (Decidable (_ ∨ _))

variable (rb : Rebalance MhashEntry)

/-- `none` when the new entry overlaps another one and the host panics. -/
def hostMhashAdd (h : Mhash) (pa va sz memFlags : Nat) : Option (Mhash × MhashStatus) :=
  match hostMhashFind h pa with
  | some e =>
    if e.rejects pa va sz ∨ e.memFlags ≠ memFlags then some (h, .invalid)
    else some (h.setRefCount e (e.refCount + 1), .ok)
  | none =>
    if h.count ≤ h.root.toList.length then some (h, .noMem)
    else
      let e : MhashEntry := ⟨⟨pa, va, sz⟩, memFlags, 1⟩
      (h.root.link (mhashAddDirection e) e).map fun root =>
        ({ h with root := rb.insertColor root }, .ok)

def addResidue (h : Mhash) (pa va sz memFlags : Nat) : Option Mhash :=
  if sz = 0 then some h
  else
    match hostMhashAdd rb h pa va sz memFlags with
    | some (h, .ok) => some h
    | _ => none

/-- `none` when a residue cannot be added and the host panics. -/
def hostMhashDel (h : Mhash) (pa va sz : Nat) : Option (Mhash × MhashStatus) :=
  match hostMhashFind h pa with
  | none => some (h, .notAvail)
  | some e =>
    if e.rejects pa va sz then some (h, .invalid)
    else if e.refCount - 1 ≠ 0 then some (h.setRefCount e (e.refCount - 1), .busy)
    else
      let h := { h with root := rb.erase h.root e }
      match addResidue rb h e.pa e.va (sub va e.va) e.memFlags with
      | none => none
      | some h =>
        (addResidue rb h (add pa sz) (add va sz)
          (sub e.vaEnd (add va sz)) e.memFlags).map fun h => (h, .ok)

/-! ## The page table of the hypervisor -/

/-- `arch_mmu_pgflags_set` for stage 1. -/
def stage1Pgflags (memFlags : Nat) : PgFlags where
  rsw := 0
  dirty := true
  accessed := true
  global := true
  user := false
  execute := memFlags / 4 % 2 = 1
  write := memFlags / 2 % 2 = 1
  read := memFlags % 2 = 1
  valid := true

variable {config : Mmu.Config} (mmu : MmuState config)

def archCpuAspaceMap (va sz pa memFlags : Nat) : MmuState config × Rc :=
  if sz ≠ Mmu.blockSize 0 ∧ sz ≠ Mmu.blockSize 1 then (mmu, .einvalid)
  else mmu.mapPage ⟨va, pa, sz, stage1Pgflags memFlags⟩

def archCpuAspaceUnmap (va : Nat) : MmuState config × Rc :=
  match mmu.getPage va with
  | none => (mmu, .efail)
  | some p => mmu.unmapPage p

def archCpuAspaceVa2pa (va : Nat) : Option Nat :=
  (mmu.getPage va).map fun p => add p.oa (va % p.sz)

def pageOrder (useHugepage : Bool) : Nat := if useHugepage then Mmu.blockShift 1 else pageShift

def mapPages (mmu : MmuState config) (va pa order memFlags : Nat) : Nat → Option (MmuState config)
  | 0 => some mmu
  | n + 1 =>
    match mapPages mmu va pa order memFlags n with
    | none => none
    | some mmu =>
      match archCpuAspaceMap mmu (add va (n * 2 ^ order)) (2 ^ order)
          (add pa (n * 2 ^ order)) memFlags with
      | (mmu, .ok) => some mmu
      | _ => none

def unmapPages (mmu : MmuState config) (va order : Nat) : Nat → MmuState config × Rc
  | 0 => (mmu, .ok)
  | n + 1 =>
    match unmapPages mmu va order n with
    | (mmu, .ok) => archCpuAspaceUnmap mmu (add va (n * 2 ^ order))
    | failed => failed

/-! ## Mapping and unmapping -/

structure Vapool where
  start : Nat
  size : Nat
  ba : BuddyAllocator

def vmmHostVapoolAlloc (rb : Rebalance BuddyArea) (vapool : Vapool) (sz : Nat) :
    Option (Vapool × Nat) :=
  match Buddy.buddyMemAlloc rb vapool.ba sz with
  | some (ba, .ok, va) => some ({ vapool with ba }, va)
  | _ => none

def vmmHostVapoolFree (rb : Rebalance BuddyArea) (vapool : Vapool) (va sz : Nat) : Option Vapool :=
  if va < vapool.start ∨ add vapool.start vapool.size < add va sz then none
  else
    match Buddy.buddyMemPartialFree rb vapool.ba va sz with
    | some (ba, .ok) => some { vapool with ba }
    | _ => none

structure HostAspace (config : Mmu.Config) where
  mhash : Mhash
  vapool : Vapool
  mmu : MmuState config

structure Trees where
  mhash : Rebalance MhashEntry
  vapool : Rebalance BuddyArea

section

variable (trees : Trees) (s : HostAspace config)

/-- The end of `host_memmap`: count the range in the memmap hash. -/
def finishMemmap (tpa va sz memFlags : Nat) : Option (HostAspace config × Nat) :=
  match hostMhashAdd trees.mhash s.mhash tpa va sz memFlags with
  | some (mhash, .ok) => some ({ s with mhash }, va)
  | _ => none

/-- The virtual address of the first page of the range, mapped or used again. -/
def memmapPages (tpa sz memFlags order : Nat) : Option (HostAspace config × Nat) :=
  match hostMhashFind s.mhash tpa with
  | some e =>
    if memFlags ≠ e.memFlags ∨ e.sz - (tpa - e.pa) < sz then none
    else
      finishMemmap trees s tpa (alignDown (add e.va (tpa - e.pa)) order) sz memFlags
  | none =>
    match vmmHostVapoolAlloc trees.vapool s.vapool sz with
    | none => none
    | some (vapool, va) =>
      if va % 2 ^ order ≠ 0 then none
      else
        match mapPages s.mmu va tpa order memFlags (sz / 2 ^ order) with
        | none => none
        | some mmu => finishMemmap trees { s with vapool, mmu } tpa va sz memFlags

/-- `host_memmap`; `none` when the host panics. -/
def hostMemmap (pa sz memFlags : Nat) (useHugepage : Bool) : Option (HostAspace config × Nat) :=
  let order := pageOrder useHugepage
  (memmapPages trees s (alignDown pa order) (roundup2OrderSize sz order) memFlags order).map
    fun (s, va) => (s, add va (pa % 2 ^ order))

def vmmHostMemmap (pa sz memFlags : Nat) : Option (HostAspace config × Nat) :=
  hostMemmap trees s pa sz memFlags false

/-- `host_memunmap`; `none` when the host panics. -/
def hostMemunmap (va sz : Nat) (useHugepage : Bool) : Option (HostAspace config × Rc) :=
  let order := pageOrder useHugepage
  let sz := roundup2OrderSize sz order
  let va := alignDown va order
  match archCpuAspaceVa2pa s.mmu va with
  | none => some (s, .efail)
  | some pa =>
    match hostMhashDel trees.mhash s.mhash pa va sz with
    | some (mhash, .busy) => some ({ s with mhash }, .ok)
    | some (mhash, .ok) =>
      match unmapPages s.mmu va order (sz / 2 ^ order) with
      | (mmu, .ok) =>
        (vmmHostVapoolFree trees.vapool s.vapool va sz).map fun vapool =>
          ({ s with mhash, mmu, vapool }, .ok)
      | (mmu, rc) => some ({ s with mhash, mmu }, rc)
    | _ => none

end

end Xvisor.Host
