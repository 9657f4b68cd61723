import Mathlib.Logic.Basic

/-!
# Traps, SRET and the nested world switch

Virtual-HS mode and the virtual-VS mode below it share the hardware `vs` registers:
the set that is not in use is kept in the nested context.
-/

namespace Xvisor.Nested

/-! ## Bits -/

def sie : Nat := 1
def spie : Nat := 5
def spp : Nat := 8

def gva : Nat := 6
def spv : Nat := 7
def spvp : Nat := 8
def vtvm : Nat := 20
def vtsr : Nat := 22

def fsVs : BitVec 64 := 0x6600

/-- Clear a bit, and set it if the condition holds. -/
def putBit (i : Nat) (a : BitVec 64) (b : Bool) : BitVec 64 :=
  (a &&& ~~~BitVec.twoPow 64 i) ||| if b then BitVec.twoPow 64 i else 0

def blend (mask a b : BitVec 64) : BitVec 64 := (a &&& ~~~mask) ||| (b &&& mask)

def bit (i : Nat) (a : BitVec 64) : Bool := a.getLsbD i

theorem bit_putBit {i j : Nat} (low : j < 64) (a : BitVec 64) (b : Bool) :
    bit j (putBit i a b) = if j = i then b else bit j a := by
  by_cases same : i = j
  · cases b <;> simp [bit, putBit, same, low]
  · cases b <;> simp [bit, putBit, low, Ne.symm same]

theorem bit_blend {j : Nat} (low : j < 64) (mask a b : BitVec 64) :
    bit j (blend mask a b) = if mask.getLsbD j then bit j b else bit j a := by
  simp only [bit, blend, BitVec.getLsbD_or, BitVec.getLsbD_and, BitVec.getLsbD_not, low]
  cases mask.getLsbD j <;> simp

theorem blend_and (mask a b : BitVec 64) : blend mask a b &&& mask = b &&& mask := by
  refine BitVec.eq_of_getLsbD_eq fun j low => ?_
  have blended := bit_blend low mask a b
  simp only [bit] at blended
  rw [BitVec.getLsbD_and, BitVec.getLsbD_and, blended]
  cases mask.getLsbD j <;> simp

theorem blend_blend {mask a b c : BitVec 64} (own : c &&& mask = a &&& mask) :
    blend mask (blend mask a b) c = a := by
  refine BitVec.eq_of_getLsbD_eq fun j low => ?_
  have same := congrArg (bit j) own
  have blended := (bit_blend low mask (blend mask a b) c).trans (by rw [bit_blend low mask a b])
  simp only [bit, BitVec.getLsbD_and] at same blended
  rw [blended]
  cases isMasked : mask.getLsbD j <;> simp_all

/-! ## State -/

/-- The registers that a world switch swaps as they are. -/
structure SwapCsrs where
  hcounteren : BitVec 64
  hedeleg : BitVec 64
  vstvec : BitVec 64
  vsscratch : BitVec 64
  vsepc : BitVec 64
  vscause : BitVec 64
  vstval : BitVec 64
  vsatp : BitVec 64
  deriving DecidableEq

/-- The hardware registers, their counterparts in the nested context, the `virt` flag and `hstatus`
of virtual-HS mode, and the trapped frame; `hExt` says that the VCPU has the H-extension. -/
structure SwitchRegs where
  hExt : Bool
  hw : SwapCsrs
  hwVsstatus : BitVec 64
  saved : SwapCsrs
  vsstatus : BitVec 64
  virt : Bool
  hstatus : BitVec 64
  regsSstatus : BitVec 64
  regsHstatus : BitVec 64
  regsSepc : BitVec 64
  deriving DecidableEq

structure SmodeTrap where
  sepc : BitVec 64
  scause : BitVec 64
  stval : BitVec 64

inductive SetVirtEvent where
  | trap
  | sret
  deriving DecidableEq

inductive TrapReturn where
  | goesOn
  | virtualInsn
  | illegalInsn
  deriving DecidableEq

namespace SwitchRegs

section

variable (r : SwitchRegs)

/-- The part of `cpu_vcpu_nested_set_virt` for a changed `virt`. -/
def swapCsrs (virt : Bool) : SwitchRegs :=
  if virt then
    { r with
      hw := r.saved
      saved := r.hw
      hwVsstatus := r.vsstatus
      regsSstatus := blend fsVs r.regsSstatus r.hwVsstatus
      vsstatus := blend fsVs r.hwVsstatus r.regsSstatus }
  else
    { r with
      hw := r.saved
      saved := r.hw
      hwVsstatus := blend fsVs r.vsstatus r.regsSstatus
      regsSstatus := blend fsVs r.regsSstatus r.vsstatus
      vsstatus := r.hwVsstatus }

/-- The bits of `hstatus` that a trap sets; `SPVP` only if it comes from virtual-VS or VU mode. -/
def trapHstatus (isSpvp isGva : Bool) : BitVec 64 :=
  let hstatus := putBit spv r.hstatus r.virt
  putBit gva (if r.virt then putBit spvp hstatus isSpvp else hstatus) isGva

/-- `cpu_vcpu_nested_set_virt` without shared memory. -/
def setVirt (event : SetVirtEvent) (virt isSpvp isGva : Bool) : SwitchRegs :=
  if !r.hExt then r
  else
    let r := if virt = r.virt then r else r.swapCsrs virt
    let r := if event = .sret then r else { r with hstatus := r.trapHstatus isSpvp isGva }
    let traps := bit (if virt then vtsr else spv) r.hstatus
    { r with
      regsHstatus := putBit vtvm (putBit vtsr r.regsHstatus traps)
        (virt && bit vtvm r.hstatus)
      virt := virt }

def redirectSmodeTrap (trap : SmodeTrap) (prevSpp : Bool) : SwitchRegs :=
  let vsstatus := putBit spp r.hwVsstatus prevSpp
  let vsstatus := putBit spie vsstatus (bit sie vsstatus)
  { r with
    hwVsstatus := putBit sie vsstatus false
    hw := { r.hw with vscause := trap.scause, vstval := trap.stval, vsepc := trap.sepc }
    regsSepc := r.hw.vstvec
    regsSstatus := putBit spp r.regsSstatus true }

def redirectTrap (trap : SmodeTrap) (isGva : Bool) : SwitchRegs :=
  let prevSpp := bit spp r.regsSstatus
  (r.setVirt .trap false prevSpp isGva).redirectSmodeTrap trap prevSpp

def sretInsn : SwitchRegs × TrapReturn :=
  if r.virt then (r, .virtualInsn)
  else if !bit spvp r.regsHstatus then (r, .illegalInsn)
  else
    let vsstatus := r.hwVsstatus
    let r := { r with
      hwVsstatus := putBit sie vsstatus (bit spie vsstatus)
      regsSepc := r.hw.vsepc
      regsSstatus := putBit spp r.regsSstatus (bit spp vsstatus) }
    (r.setVirt .sret (bit spv r.hstatus) false false, .goesOn)

/-- The status register of virtual-HS mode, wherever it is. -/
def hsStatus : BitVec 64 := if r.virt then r.vsstatus else r.hwVsstatus

end

/-! ## The switch -/

/-- What virtual-VS mode can do: it has the hardware `vs` registers, and no others. -/
structure RunsVs (r r' : SwitchRegs) : Prop where
  hExt : r'.hExt = r.hExt
  virt : r'.virt = r.virt
  saved : r'.saved = r.saved
  vsstatus : r'.vsstatus = r.vsstatus
  fsVs : r'.regsSstatus &&& Nested.fsVs = r.regsSstatus &&& Nested.fsVs

/-- Virtual-HS mode leaves the registers of virtual-VS mode alone. -/
structure RunsHs (r r' : SwitchRegs) : Prop where
  hExt : r'.hExt = r.hExt
  virt : r'.virt = r.virt
  saved : r'.saved = r.saved
  vsstatus : r'.vsstatus = r.vsstatus

variable {r : SwitchRegs} (isSpvp isGva : Bool)

theorem setVirt_enter (hExt : r.hExt = true) (off : r.virt = false) :
    ∃ trapping, r.setVirt .sret true isSpvp isGva =
      { r.swapCsrs true with regsHstatus := trapping, virt := true } := by
  simp only [setVirt, hExt, off]
  exact ⟨_, rfl⟩

theorem setVirt_leave (hExt : r.hExt = true) (on : r.virt = true) :
    ∃ trapping, r.setVirt .trap false isSpvp isGva =
      { r.swapCsrs false with
        hstatus := r.trapHstatus isSpvp isGva, regsHstatus := trapping, virt := false } := by
  simp only [setVirt, hExt, on]
  exact ⟨_, rfl⟩

end SwitchRegs

open SwitchRegs

/-- Virtual-HS mode is about to enter virtual-VS mode for the first time. -/
def switchRegs : SwitchRegs :=
  ⟨true, ⟨0, 0, 0x80, 0, 0x1000, 0, 0, 0⟩, 0x2122, ⟨0, 0, 0, 0, 0, 0, 0, 0⟩, 0, false, 0x80, 0x4000,
    0x100, 0⟩

/-! ## Traps and returns -/

/-- A trap to supervisor mode, as the privileged specification has it. -/
structure Entered (r r' : SwitchRegs) (trap : SmodeTrap) (prevSpp : Bool) : Prop where
  spp : bit spp r'.hwVsstatus = prevSpp
  spie : bit spie r'.hwVsstatus = bit sie r.hwVsstatus
  sie : bit sie r'.hwVsstatus = false
  others : ∀ i < 64, i ≠ Nested.spp → i ≠ Nested.spie → i ≠ Nested.sie →
    bit i r'.hwVsstatus = bit i r.hwVsstatus
  privilege : bit Nested.spp r'.regsSstatus = true
  pc : r'.regsSepc = r.hw.vstvec ∧ r'.hw.vsepc = trap.sepc

/-- An SRET, as the privileged specification has it. -/
structure Returned (r r' : SwitchRegs) : Prop where
  privilege : bit spp r'.regsSstatus = bit spp r.hwVsstatus
  sie : bit sie r'.hsStatus = bit spie r.hwVsstatus
  spie : bit spie r'.hsStatus = true
  spp : bit spp r'.hsStatus = false
  pc : r'.regsSepc = r.hw.vsepc

/-- A handler leaves to its SRET what the trap has saved, whatever else it does; around traps of
its own it saves and restores these registers. -/
structure SwitchRegs.Handles (r r' : SwitchRegs) : Prop where
  hExt : r'.hExt = r.hExt
  virt : r'.virt = r.virt
  smode : bit spvp r'.regsHstatus = true
  spv : bit spv r'.hstatus = bit spv r.hstatus
  vsepc : r'.hw.vsepc = r.hw.vsepc
  spie : bit spie r'.hwVsstatus = bit spie r.hwVsstatus
  spp : bit spp r'.hwVsstatus = bit spp r.hwVsstatus

/-- The SRET after a trap takes the guest back to where it was. -/
def Resumes (r : SwitchRegs) : Prop :=
  ∀ trap isGva r₁, (r.redirectTrap trap isGva).Handles r₁ →
    let r₂ := r₁.sretInsn.1
    r₂.regsSepc = trap.sepc ∧ bit Nested.spp r₂.regsSstatus = bit Nested.spp r.regsSstatus ∧
      bit Nested.sie r₂.hsStatus = bit Nested.sie r.hsStatus ∧ r₂.virt = r.virt

variable {r : SwitchRegs}

attribute [local simp] redirectSmodeTrap bit_putBit

theorem redirectSmodeTrap_entered (r : SwitchRegs) (trap : SmodeTrap) (prevSpp : Bool) :
    Entered r (r.redirectSmodeTrap trap prevSpp) trap prevSpp := by
  refine ⟨?_, ?_, ?_, fun i low notSpp notSpie notSie => ?_, ?_, rfl, rfl⟩
  · simp [spp, spie, sie]
  · simp [spp, spie, sie]
  · simp [sie]
  · simp [low, notSpp, notSpie, notSie]
  · simp [spp]

/-- What the emulation of SRET does; `SPIE` and `SPP` stay as they are. -/
theorem sretInsn_does (off : r.virt = false) (smode : bit spvp r.regsHstatus = true) :
    r.sretInsn.1.regsSepc = r.hw.vsepc ∧ bit spp r.sretInsn.1.regsSstatus = bit spp r.hwVsstatus ∧
      r.sretInsn.1.virt = (r.hExt && bit spv r.hstatus) ∧
      bit sie r.sretInsn.1.hsStatus = bit spie r.hwVsstatus ∧
      bit spie r.sretInsn.1.hsStatus = bit spie r.hwVsstatus ∧
      bit spp r.sretInsn.1.hsStatus = bit spp r.hwVsstatus := by
  cases hExt : r.hExt <;> cases next : bit spv r.hstatus <;>
    simp [sretInsn, setVirt, swapCsrs, hsStatus, off, smode, hExt, next, bit_blend, fsVs, sie, spie,
      spp]

theorem redirectTrap_does (nested : r.virt = true → r.hExt = true) (trap : SmodeTrap)
    (isGva : Bool) :
    (r.redirectTrap trap isGva).virt = false ∧
      ((r.redirectTrap trap isGva).hExt && bit spv (r.redirectTrap trap isGva).hstatus) = r.virt ∧
      (r.redirectTrap trap isGva).hw.vsepc = trap.sepc ∧
      bit spp (r.redirectTrap trap isGva).hwVsstatus = bit spp r.regsSstatus ∧
      bit spie (r.redirectTrap trap isGva).hwVsstatus = bit sie r.hsStatus := by
  cases hExt : r.hExt <;> cases virt : r.virt <;>
    simp_all [redirectTrap, setVirt, swapCsrs, trapHstatus, hsStatus, bit_blend, fsVs, sie, spie,
      spp, spv, spvp, gva]

theorem resumes (nested : r.virt = true → r.hExt = true) : Resumes r := by
  intro trap isGva r₁ handles
  obtain ⟨off, fromVs, vsepc, previous, enabled⟩ := redirectTrap_does nested trap isGva
  obtain ⟨pc, privilege, virt, interrupts, -, -⟩ :=
    sretInsn_does (handles.virt.trans off) handles.smode
  refine ⟨pc.trans (handles.vsepc.trans vsepc), privilege.trans (handles.spp.trans previous),
    interrupts.trans (handles.spie.trans enabled), virt.trans ?_⟩
  rw [handles.hExt, handles.spv, fromVs]

/-- Traps are entered as the specification says, and the emulated SRET returns from them. It
leaves the registers as the specification says exactly if `SPIE` is set and `SPP` is clear, as it
changes neither. -/
theorem trapReturn_follows_iff (r : SwitchRegs) (nested : r.virt = true → r.hExt = true) :
    (∀ trap prevSpp, Entered r (r.redirectSmodeTrap trap prevSpp) trap prevSpp) ∧ Resumes r ∧
      (r.virt = false → bit spvp r.regsHstatus = true → (Returned r r.sretInsn.1 ↔
          bit spie r.hwVsstatus = true ∧ bit spp r.hwVsstatus = false)) := by
  refine ⟨redirectSmodeTrap_entered r, resumes nested, fun off smode => ?_⟩
  obtain ⟨pc, privilege, -, interrupts, keepsSpie, keepsSpp⟩ := sretInsn_does off smode
  constructor
  · intro returned
    exact ⟨keepsSpie.symm.trans returned.spie, keepsSpp.symm.trans returned.spp⟩
  · rintro ⟨isSpie, notSpp⟩
    exact ⟨privilege, interrupts, keepsSpie.trans isSpie, keepsSpp.trans notSpp, pc⟩

theorem trapReturn_follows_user : Returned { switchRegs with hwVsstatus := 0x2022 }
      (sretInsn { switchRegs with hwVsstatus := 0x2022 }).1 :=
  ((trapReturn_follows_iff { switchRegs with hwVsstatus := 0x2022 } (by decide)).2.2 rfl rfl).mpr
    (by decide)

/-- Virtual-HS mode returns to supervisor mode, and its `SPP` stays set. -/
theorem sretInsn_keeps_spp : bit spp switchRegs.hwVsstatus = true ∧
    bit spp switchRegs.sretInsn.1.hsStatus = true ∧ ¬Returned switchRegs switchRegs.sretInsn.1 := by
  have isSet : bit spp switchRegs.sretInsn.1.hsStatus = true := by decide
  refine ⟨by decide, isSet, fun returned => ?_⟩
  cases isSet.symm.trans returned.spp

end Xvisor.Nested
