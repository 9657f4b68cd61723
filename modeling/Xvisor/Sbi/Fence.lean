import Xvisor.Nested.Swtlb
import Xvisor.Scheduler.Model

/-!
# Remote fences and inter-processor interrupts of a guest

`cpu_vcpu_sbi_replace.c` turns the harts that a guest names into VCPUs, host CPUs
and host harts and asks the firmware to fence those, in windows of 64 harts. The
hardware TLBs are part of the state.
-/

namespace Xvisor.Sbi

open List Lib Mmu Nested Nat

open Scheduler (VcpuState)

universe u

/-! ## Guests and hosts -/

structure Host where
  cpuCount : Nat
  hwid : Fin cpuCount → Option Nat
  maxGuestCount : Nat
  vmidBits : Nat
  vmidBits_le : vmidBits ≤ 14

/-- `riscv_stage2_vmid_nested`: the first VMID for nested guests. -/
def Host.vmidNested (host : Host) : Nat := 2 ^ host.vmidBits / 2

def Host.vmidAvailable (host : Host) : Bool := host.maxGuestCount ≤ host.vmidNested

structure Vcpu (host : Host) where
  subid : Nat
  state : VcpuState
  hcpu : Fin host.cpuCount

def Vcpu.interruptible {host : Host} (vcpu : Vcpu host) : Bool :=
  match vcpu.state with
  | .running | .ready | .paused => true
  | .unknown | .reset | .halted => false

structure Guest (host : Host) (V : Type u) where
  id : Nat
  id_lt : id < host.maxGuestCount
  vcpus : List V
  vcpu : V → Vcpu host

variable {host : Host} {V : Type u}

namespace Guest

variable (guest : Guest host V)

def vmid : Nat := if host.vmidAvailable then guest.id else 0

def nestedVmid : Nat :=
  if host.vmidAvailable then host.vmidNested + guest.id else 0

def hart (v : V) : Option Nat := host.hwid (guest.vcpu v).hcpu

end Guest

structure Args where
  hmask : Nat
  hbase : Nat
  start : Nat
  size : Nat
  asid : Nat
  hmask_lt : hmask < 2 ^ 64
  hbase_lt : hbase < 2 ^ 64
  start_lt : start < 2 ^ 64
  size_lt : size < 2 ^ 64

/-- The loop over the VCPUs of the guest. The machine shifts by the distance modulo 64. -/
def selects (args : Args) (vcpu : Vcpu host) : Bool :=
  vcpu.interruptible && (args.hbase = 2 ^ 64 - 1 ||
    (args.hbase ≤ vcpu.subid && args.hmask.testBit ((vcpu.subid - args.hbase) % 64)))

def selected (guest : Guest host V) (args : Args) : List V :=
  guest.vcpus.filter fun v => selects args (guest.vcpu v)

/-! ## Host harts -/

/-- `sbi_cpumask_to_hartmask`: harts that the mask has no bit for are left out. -/
def hartmask (host : Host) (cpus : List (Fin host.cpuCount)) (hart : Nat) : Bool :=
  hart < host.cpuCount && cpus.any fun cpu => host.hwid cpu = some hart

/-- The loop of `__sbi_rfence_v02` over the harts of the mask, upwards: the calls it makes. -/
def rfenceWindows (hmask hbase : Nat) : List Nat → List (Nat × Nat)
  | [] => if hmask ≠ 0 then [(hmask, hbase)] else []
  | hart :: harts =>
    if hmask ≠ 0 ∧ hbase + 64 ≤ hart then (hmask, hbase) :: rfenceWindows 1 hart harts
    else
      let hbase := if hmask = 0 then hart else hbase
      rfenceWindows (hmask ||| 2 ^ (hart - hbase)) hbase harts

def asksFor (windows : List (Nat × Nat)) (hart : Nat) : Bool :=
  windows.any fun (hmask, hbase) =>
    hbase ≤ hart && hart < hbase + 64 && hmask.testBit (hart - hbase)

/-! ## Hardware TLBs -/

structure TlbEntry where
  stage : Stage
  vmid : Nat
  asid : Nat
  ia : Nat
  sz : Nat
  deriving DecidableEq, Repr

def RangeHits (start size ia sz : Nat) : Prop :=
  start = 0 ∧ size = 0 ∨ size = 2 ^ 64 - 1 ∨ 0 < size ∧ ia < start + size ∧ start < ia + sz

instance (start size ia sz : Nat) : Decidable (RangeHits start size ia sz) :=
  inferInstanceAs (Decidable (_ ∨ _))

structure Fence where
  stage : Stage
  vmid : Option Nat
  asid : Option Nat
  start : Nat
  size : Nat

def Fence.Hits (fence : Fence) (e : TlbEntry) : Prop :=
  e.stage = fence.stage ∧ (fence.vmid = none ∨ fence.vmid = some e.vmid) ∧
    (fence.asid = none ∨ fence.asid = some e.asid) ∧
    RangeHits fence.start fence.size e.ia e.sz

instance (fence : Fence) (e : TlbEntry) : Decidable (fence.Hits e) :=
  inferInstanceAs (Decidable (_ ∧ _))

structure FenceState (config : Mmu.Config) (V : Type u) where
  hgatp : Nat
  tlb : Nat → List TlbEntry
  nested : V → Npriv config

variable {config : Mmu.Config}

def hgatpVmid (hgatp : Nat) : Nat := hgatp / 2 ^ 44 % 2 ^ 14

def PageHits (guest : Guest host V) (page : Page) (e : TlbEntry) : Prop :=
  e.stage = .stage2 ∧ (host.vmidAvailable = true → e.vmid = guest.nestedVmid) ∧
    e.ia < page.ia + page.sz ∧ page.ia < e.ia + e.sz

instance (guest : Guest host V) (page : Page) (e : TlbEntry) : Decidable (PageHits guest page e) :=
  inferInstanceAs (Decidable (_ ∧ _))

namespace FenceState

/-- `__sbi_rfence_v02` for the harts of some host CPUs. -/
def rfence (host : Host) (cpus : List (Fin host.cpuCount)) (fence : Fence)
    (st : FenceState config V) : FenceState config V :=
  let windows := rfenceWindows 0 0 ((List.range host.cpuCount).filter (hartmask host cpus))
  { st with tlb := fun hart =>
      if asksFor windows hart then (st.tlb hart).filter (¬ fence.Hits ·) else st.tlb hart }

/-- `sbi_remote_hfence_vvma` and its variant with an ASID: for the VMID in hgatp. -/
def remoteHfenceVvma (host : Host) (cpus : List (Fin host.cpuCount)) (asid : Option Nat)
    (start size : Nat) (st : FenceState config V) : FenceState config V :=
  st.rfence host cpus ⟨.stage1, some (hgatpVmid st.hgatp), asid, start, size⟩

/-- `arch_mmu_stage2_tlbflush` on this hart, as `mmu_unmap_page` calls it for a shadow page. -/
def tlbflush (guest : Guest host V) (v : V) (page : Page) (st : FenceState config V) :
    FenceState config V :=
  { st with tlb := fun hart =>
      if guest.hart v = some hart then (st.tlb hart).filter (¬ PageHits guest page ·)
      else st.tlb hart }

variable [DecidableEq V]

def flushCaller (guest : Guest host V) (caller : V) (start size : Nat)
    (st : FenceState config V) : Option (FenceState config V) :=
  let swtlb := (st.nested caller).swtlb
  (cpuVcpuNestedSwtlbFlush (st.nested caller) start size).map fun npriv =>
    let pages := (swtlb.flushed true start size ++ swtlb.flushed false start size).map
      fun slot => (swtlb.entries slot).shadowPage
    pages.foldl (fun st page => st.tlbflush guest caller page)
      { st with nested := Function.update st.nested caller npriv }

end FenceState

/-! ## The calls -/

inductive Rfence where
  | fenceI
  | sfenceVma
  | sfenceVmaAsid
  | hfenceGvmaVmid
  | hfenceGvma
  | hfenceVvmaAsid
  | hfenceVvma
  deriving DecidableEq, Repr

/-- `SBI_EXT_RFENCE_REMOTE_*`. -/
def Rfence.funcId : Rfence → Nat
  | fenceI => 0
  | sfenceVma => 1
  | sfenceVmaAsid => 2
  | hfenceGvmaVmid => 3
  | hfenceGvma => 4
  | hfenceVvmaAsid => 5
  | hfenceVvma => 6

def Rfence.ofFuncId : Nat → Option Rfence
  | 0 => some .fenceI
  | 1 => some .sfenceVma
  | 2 => some .sfenceVmaAsid
  | 3 => some .hfenceGvmaVmid
  | 4 => some .hfenceGvma
  | 5 => some .hfenceVvmaAsid
  | 6 => some .hfenceVvma
  | _ => none

def sbiErrNotSupported : Int := -2

variable [DecidableEq V]

/-- The G-stage fence. The VMID is the truth value of `mmu_pgtbl_has_hw_tag`, not the tag. -/
def gvmaFence (host : Host) (args : Args) : Fence :=
  ⟨.stage2, if host.vmidAvailable then some 1 else none, none, args.start, args.size⟩

variable (guest : Guest host V)

/-- Fences for nested guests use the tag of their page table as the VMID in hgatp. -/
def vvmaNested (cpus : List (Fin host.cpuCount)) (asid : Option Nat)
    (args : Args) (st : FenceState config V) : FenceState config V :=
  if host.vmidAvailable then
    let hgatp := st.hgatp
    let st := { st with hgatp := guest.nestedVmid * 2 ^ 44 % 2 ^ 64 }
    { st.remoteHfenceVvma host cpus asid args.start args.size with hgatp := hgatp }
  else st.remoteHfenceVvma host cpus asid args.start args.size

/-- `vcpu_sbi_rfence_ecall`; `none` when the flush of the software TLB panics. -/
def vcpuSbiRfenceEcall (caller : V) (funcId : Nat) (args : Args)
    (st : FenceState config V) : Option (FenceState config V × Int) :=
  let cpus := (selected guest args).map fun v => (guest.vcpu v).hcpu
  match Rfence.ofFuncId funcId with
  | none => some (st, sbiErrNotSupported)
  | some .fenceI => some (st, 0)
  | some .sfenceVma => some (st.remoteHfenceVvma host cpus none args.start args.size, 0)
  | some .sfenceVmaAsid =>
    some (st.remoteHfenceVvma host cpus (some args.asid) args.start args.size, 0)
  | some .hfenceGvma | some .hfenceGvmaVmid =>
    (st.flushCaller guest caller args.start args.size).map fun st =>
      (st.rfence host cpus (gvmaFence host args), 0)
  | some .hfenceVvma => some (vvmaNested guest cpus none args st, 0)
  | some .hfenceVvmaAsid => some (vvmaNested guest cpus (some args.asid) args st, 0)

/-- `vcpu_sbi_ipi_ecall`: the VCPUs whose software interrupt is asserted, in order. -/
def vcpuSbiIpiEcall (funcId : Nat) (args : Args) : List V × Int :=
  if funcId ≠ 0 then ([], sbiErrNotSupported) else (selected guest args, 0)

/-! ## Named VCPUs and fenced harts

The host harts that the firmware is asked for are those of the selected VCPUs.
Selected are the VCPUs that the guest named, unless one outside of the window of
the mask is mistaken for one inside. -/

variable {host : Host} {V : Type u} {config : Mmu.Config} {guest : Guest host V} {args : Args}
  {v : V} {st : FenceState config V} {fence : Fence} {e : TlbEntry} {hart : Nat}

/-! ## The windows of the firmware calls -/

def Covers (hmask hbase hart : Nat) : Prop :=
  hbase ≤ hart ∧ hart < hbase + 64 ∧ hmask.testBit (hart - hbase) = true

theorem covers_zero (hbase hart : Nat) : ¬ Covers 0 hbase hart := by
  rintro ⟨-, -, bit⟩
  simp at bit

theorem covers_add (hmask : Nat) {hbase new : Nat} (low : hbase ≤ new) (high : new < hbase + 64)
    (hart : Nat) :
    Covers (hmask ||| 2 ^ (new - hbase)) hbase hart ↔ Covers hmask hbase hart ∨ hart = new := by
  unfold Covers
  rw [testBit_or, testBit_two_pow]
  constructor
  · rintro ⟨above, below, bit⟩
    rcases Bool.or_eq_true_iff.mp bit with old | isNew
    · exact .inl ⟨above, below, old⟩
    · have := of_decide_eq_true isNew
      exact .inr (by omega)
  · rintro (⟨above, below, old⟩ | rfl)
    · exact ⟨above, below, by simp [old]⟩
    · exact ⟨low, high, by simp⟩

theorem asksFor_cons (hmask hbase : Nat) (windows : List (Nat × Nat)) (hart : Nat) :
    asksFor ((hmask, hbase) :: windows) hart = true ↔
      Covers hmask hbase hart ∨ asksFor windows hart = true := by
  simp [asksFor, Covers, and_assoc]

theorem asksFor_rfenceWindows {harts : List Nat} (sorted : harts.Pairwise (· < ·))
    (hmask hbase : Nat) (above : hmask ≠ 0 → ∀ hart ∈ harts, hbase ≤ hart) (hart : Nat) :
    asksFor (rfenceWindows hmask hbase harts) hart = true ↔
      Covers hmask hbase hart ∨ hart ∈ harts := by
  induction harts generalizing hmask hbase with
  | nil =>
    unfold rfenceWindows
    split_ifs with waiting
    · rw [asksFor_cons]
      simp [asksFor]
    · rw [not_not.mp waiting]
      simp [asksFor, covers_zero]
  | cons first harts ih =>
    obtain ⟨less, sorted⟩ := pairwise_cons.mp sorted
    have later : ∀ other ∈ harts, first ≤ other := fun other inRest => (less other inRest).le
    unfold rfenceWindows
    split_ifs with full empty
    · have alone : Covers 1 first hart ↔ hart = first := by
        have := covers_add 0 (le_refl first) (by omega) hart
        simpa [covers_zero] using this
      rw [asksFor_cons, ih sorted 1 first fun _ => later, alone, mem_cons]
    · subst empty
      rw [ih sorted _ first fun _ => later, covers_add 0 le_rfl (by omega), mem_cons]
      simp [covers_zero]
    · have low := above empty first mem_cons_self
      have high : first < hbase + 64 := by
        by_contra out
        exact full ⟨empty, by omega⟩
      dsimp only
      rw [ih sorted _ hbase fun _ other inRest => low.trans (later other inRest),
        covers_add hmask low high, mem_cons, or_assoc]

variable (cpus : List (Fin host.cpuCount))

theorem asksFor_hartmask (hart : Nat) :
    asksFor (rfenceWindows 0 0 ((List.range host.cpuCount).filter (hartmask host cpus))) hart =
      true ↔ hartmask host cpus hart = true := by
  have sorted : ((List.range host.cpuCount).filter (hartmask host cpus)).Pairwise (· < ·) :=
    pairwise_lt_range.filter _
  rw [asksFor_rfenceWindows sorted 0 0 (fun wrong => absurd rfl wrong), or_iff_right (covers_zero _ _),
    mem_filter, mem_range, and_iff_right_iff_imp]
  intro inMask
  simp only [hartmask, Bool.and_eq_true, decide_eq_true_eq] at inMask
  exact inMask.1

theorem mem_rfence_tlb : e ∈ (st.rfence host cpus fence).tlb hart ↔
      e ∈ st.tlb hart ∧ ¬ (hartmask host cpus hart = true ∧ fence.Hits e) := by
  unfold FenceState.rfence
  dsimp only
  by_cases inMask : hartmask host cpus hart = true
  · rw [if_pos ((asksFor_hartmask cpus hart).mpr inMask)]
    simp [inMask]
  · rw [if_neg fun asked => inMask ((asksFor_hartmask cpus hart).mp asked)]
    simp [inMask]

/-! ## Selection -/

def Named (args : Args) (vcpu : Vcpu host) : Prop :=
  vcpu.interruptible = true ∧ (args.hbase = 2 ^ 64 - 1 ∨
    args.hbase ≤ vcpu.subid ∧ vcpu.subid < args.hbase + 64 ∧
      args.hmask.testBit (vcpu.subid - args.hbase) = true)

instance (args : Args) (vcpu : Vcpu host) : Decidable (Named args vcpu) :=
  inferInstanceAs (Decidable (_ ∧ _))

/-- No VCPU beyond the window of the mask has its bit, counted modulo 64, in the mask. -/
def Windowed (guest : Guest host V) (args : Args) : Prop :=
  args.hbase = 2 ^ 64 - 1 ∨ ∀ v ∈ guest.vcpus, (guest.vcpu v).interruptible = true →
    args.hbase + 64 ≤ (guest.vcpu v).subid →
      args.hmask.testBit (((guest.vcpu v).subid - args.hbase) % 64) = false

theorem selects_of_named {vcpu : Vcpu host} (named : Named args vcpu) :
    selects args vcpu = true := by
  obtain ⟨interruptible, all | ⟨low, high, bit⟩⟩ := named
  · simp [selects, interruptible, all]
  · have distance : (vcpu.subid - args.hbase) % 64 = vcpu.subid - args.hbase :=
      mod_eq_of_lt (by omega)
    simp [selects, interruptible, low, distance, bit]

theorem selected_iff_named :
    (∀ v ∈ guest.vcpus, v ∈ selected guest args ↔ Named args (guest.vcpu v)) ↔
      Windowed guest args := by
  have inSelected : ∀ v ∈ guest.vcpus,
      v ∈ selected guest args ↔ selects args (guest.vcpu v) = true := by
    intro v inGuest
    simp [selected, inGuest]
  constructor
  · intro exactly
    by_cases all : args.hbase = 2 ^ 64 - 1
    · exact .inl all
    refine .inr ?_
    intro v inGuest interruptible beyond
    by_contra bit
    have selects : selects args (guest.vcpu v) = true := by
      simp only [Bool.not_eq_false] at bit
      simp [Sbi.selects, interruptible, bit, show args.hbase ≤ (guest.vcpu v).subid by omega]
    have named := (exactly v inGuest).mp ((inSelected v inGuest).mpr selects)
    obtain ⟨-, everyone | ⟨-, below, -⟩⟩ := named
    · exact all everyone
    · omega
  · intro windowed v inGuest
    rw [inSelected v inGuest]
    refine ⟨fun selects => ?_, selects_of_named⟩
    simp only [Sbi.selects, Bool.and_eq_true, Bool.or_eq_true, decide_eq_true_eq] at selects
    obtain ⟨interruptible, all | ⟨low, bit⟩⟩ := selects
    · exact ⟨interruptible, .inl all⟩
    · rcases windowed with all | windowed
      · exact ⟨interruptible, .inl all⟩
      · refine ⟨interruptible, .inr ?_⟩
        have below : (guest.vcpu v).subid < args.hbase + 64 := by
          by_contra beyond
          rw [windowed v inGuest interruptible (by omega)] at bit
          cases bit
        rw [mod_eq_of_lt (by omega)] at bit
        exact ⟨low, below, bit⟩

abbrev fencedCpus (guest : Guest host V) (args : Args) : List (Fin host.cpuCount) :=
  (selected guest args).map fun v => (guest.vcpu v).hcpu

theorem hartmask_of_named (inGuest : v ∈ guest.vcpus) (named : Named args (guest.vcpu v))
    (placed : guest.hart v = some hart) (known : hart < host.cpuCount) :
    hartmask host (fencedCpus guest args) hart = true := by
  have isSelected : v ∈ selected guest args := by
    simp [selected, inGuest, selects_of_named named]
  simp only [hartmask, known, decide_true, Bool.true_and, any_eq_true, decide_eq_true_eq]
  exact ⟨_, mem_map_of_mem isSelected, placed⟩

theorem lt_of_hartmask {cpus : List (Fin host.cpuCount)} (inMask : hartmask host cpus hart = true) :
    hart < host.cpuCount := by
  simp only [hartmask, Bool.and_eq_true, decide_eq_true_eq] at inMask
  exact inMask.1

end Xvisor.Sbi
