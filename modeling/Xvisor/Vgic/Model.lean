import Mathlib.Data.Fin.VecNotation
import Xvisor.Lib.Checked
import Xvisor.Lib.Word

/-!
# The GICv2 distributor emulator

State and functions of `vgic.c`. Every array of the C state is a table of its
declared size and every access to one is checked. What the hardware does to the
list registers is a step of its own.
-/

namespace Xvisor.Vgic

open Lib

/-- The sizes fixed when the emulator is probed, and the number of list registers the
hardware reports. -/
structure Config where
  numCpu : Nat
  numIrq : Nat
  lrCnt : Nat
  numCpu_le : numCpu ≤ 8
  numIrq_le : numIrq ≤ 256
  lrCnt_le : lrCnt ≤ 64

structure IrqState where
  active : BitVec 8
  level : BitVec 8
  model : Bool
  trigger : Bool
  hostIrq : BitVec 32

structure Lr where
  virtid : BitVec 16
  physid : BitVec 16
  prio : BitVec 8
  flags : BitVec 8
  deriving DecidableEq

structure VcpuState where
  lrUsedCount : BitVec 32
  lrUsed : Table 2 (BitVec 32)
  irqLr : Table 256 (BitVec 8)
  lr : Nat → Lr

abbrev Bits := Table 8 (Table 8 (BitVec 32))

structure GuestState where
  id : Table 8 (BitVec 8)
  vstate : Table 8 VcpuState
  enabled : BitVec 32
  irqState : Table 256 IrqState
  sgiSource : Table 8 (Table 16 (BitVec 32))
  irqTarget : Table 256 (BitVec 32)
  priority1 : Table 32 (Table 8 (BitVec 32))
  priority2 : Table 224 (BitVec 32)
  irqEnabled : Bits
  irqPending : Bits

def uintMax : BitVec 32 := BitVec.allOnes 32

/-- `1 << (n & 0x1f)`. -/
def bit (n : Nat) : BitVec 32 := 1#32 <<< (n % 32)

variable (config : Config)

def Config.allCpuMask : BitVec 32 := 1#32 <<< config.numCpu - 1

/-! ## Per-CPU bit arrays -/

/-- Update the bit of `irq` for every CPU in the mask. -/
def updateBits (bits : Bits) (irq : Nat) (cm : BitVec 32)
    (f : BitVec 32 → BitVec 32) : Checked Bits :=
  (List.range config.numCpu).foldlM (fun bits i => do
    if cm.getLsbD i then
      let row ← bits.read i
      let row ← row.modify (irq / 32) f
      bits.write i row
    else pure bits) bits

def testBits (bits : Bits) (irq : Nat) (cm : BitVec 32) : Checked Bool :=
  (List.range config.numCpu).anyM fun i => do
    if cm.getLsbD i then
      let row ← bits.read i
      let word ← row.read (irq / 32)
      pure (word.getLsbD (irq % 32))
    else pure false

namespace GuestState

variable (config : Config)

section

variable (s : GuestState) (irq : Nat) (cm : BitVec 32)

def setEnabled : Checked GuestState := do
  let bits ← updateBits config s.irqEnabled irq cm (· ||| bit irq)
  pure { s with irqEnabled := bits }

def clearEnabled : Checked GuestState := do
  let bits ← updateBits config s.irqEnabled irq cm (· &&& ~~~bit irq)
  pure { s with irqEnabled := bits }

def testEnabled : Checked Bool :=
  testBits config s.irqEnabled irq cm

def setPending : Checked GuestState := do
  let bits ← updateBits config s.irqPending irq cm (· ||| bit irq)
  pure { s with irqPending := bits }

def clearPending : Checked GuestState := do
  let bits ← updateBits config s.irqPending irq cm (· &&& ~~~bit irq)
  pure { s with irqPending := bits }

def testPending : Checked Bool :=
  testBits config s.irqPending irq cm

/-! ## Per-interrupt state -/

def modifyIrq (f : IrqState → IrqState) : Checked GuestState := do
  let irqState ← s.irqState.modify irq f
  pure { s with irqState := irqState }

def setActive : Checked GuestState :=
  s.modifyIrq irq fun state => { state with active := state.active ||| cm.setWidth 8 }

def clearActive : Checked GuestState :=
  s.modifyIrq irq fun state => { state with active := state.active &&& ~~~cm.setWidth 8 }

def testActive : Checked Bool := do
  let state ← s.irqState.read irq
  pure (state.active.setWidth 32 &&& cm != 0)

def setLevel : Checked GuestState :=
  s.modifyIrq irq fun state => { state with level := state.level ||| cm.setWidth 8 }

def clearLevel : Checked GuestState :=
  s.modifyIrq irq fun state => { state with level := state.level &&& ~~~cm.setWidth 8 }

def testLevel : Checked Bool := do
  let state ← s.irqState.read irq
  pure (state.level.setWidth 32 &&& cm != 0)

/-- Private interrupts and interrupts mapped to a host interrupt count as edge triggered. -/
def testTrigger : Checked Bool :=
  if irq < 32 then pure true
  else do
    let state ← s.irqState.read irq
    pure (state.hostIrq != uintMax || state.trigger)

def getPriority (cpu : Nat) : Checked (BitVec 32) :=
  if irq < 32 then do
    let row ← s.priority1.read irq
    row.read cpu
  else s.priority2.read (irq - 32)

/-! ## List registers -/

def modifyVcpu (cpu : Nat) (f : VcpuState → VcpuState) : Checked GuestState := do
  let vstate ← s.vstate.modify cpu f
  pure { s with vstate := vstate }

variable (cpu lr : Nat)

def testLrUsed : Checked Bool := do
  let vs ← s.vstate.read cpu
  let word ← vs.lrUsed.read (lr / 32)
  pure (word.getLsbD (lr % 32))

def setLrUsed : Checked GuestState := do
  let vs ← s.vstate.read cpu
  let lrUsed ← vs.lrUsed.modify (lr / 32) (· ||| bit lr)
  s.modifyVcpu cpu fun vs => { vs with lrUsed := lrUsed, lrUsedCount := vs.lrUsedCount + 1 }

def clearLrUsed : Checked GuestState := do
  let vs ← s.vstate.read cpu
  let lrUsed ← vs.lrUsed.modify (lr / 32) (· &&& ~~~bit lr)
  s.modifyVcpu cpu fun vs => { vs with lrUsed := lrUsed, lrUsedCount := vs.lrUsedCount - 1 }

def setLrMap (cpu irq : Nat) (lr : BitVec 8) : Checked GuestState := do
  let vs ← s.vstate.read cpu
  let irqLr ← vs.irqLr.write irq lr
  s.modifyVcpu cpu fun vs => { vs with irqLr := irqLr }

def setLr (value : Lr) : Checked GuestState :=
  s.modifyVcpu cpu fun vs => { vs with lr := Function.update vs.lr lr value }

end

def findFreeLr (s : GuestState) (cpu : Nat) : List Nat → Checked (Option Nat)
  | [] => pure none
  | lr :: rest => do
    if ← s.testLrUsed cpu lr then s.findFreeLr cpu rest else pure (some lr)

def lrStatePending : BitVec 8 := 1
def lrHw : BitVec 8 := 4
def lrUnknown : BitVec 8 := 0xFF

variable (s : GuestState) (cpu irq : Nat)

def mappedLr : Checked (Option (Nat × Lr)) := do
  let vs ← s.vstate.read cpu
  let lr ← vs.irqLr.read irq
  if lr.toNat < config.lrCnt then
    if ← s.testLrUsed cpu lr.toNat then
      let value := vs.lr lr.toNat
      pure (if value.virtid.toNat = irq then some (lr.toNat, value) else none)
    else pure none
  else pure none

/-- Put the interrupt in a list register of its own; fails when all are in use. -/
def queueNewLr : Checked (GuestState × Bool) := do
  match ← s.findFreeLr cpu (List.range config.lrCnt) with
  | none => pure (s, false)
  | some lr => do
    let s ← s.setLrMap cpu irq (BitVec.ofNat 8 lr)
    let s ← s.setLrUsed cpu lr
    let state ← s.irqState.read irq
    let value : Lr :=
      if state.hostIrq != uintMax then
        ⟨BitVec.ofNat 16 irq, state.hostIrq.setWidth 16, 0, lrStatePending ||| lrHw⟩
      else ⟨BitVec.ofNat 16 irq, 0, 0, lrStatePending⟩
    let s ← s.setLr cpu lr value
    pure (s, true)

def queueIrq : Checked (GuestState × Bool) := do
  match ← s.mappedLr config cpu irq with
  | some (lr, value) => do
    let s ← s.setLr cpu lr { value with flags := value.flags ||| lrStatePending }
    pure (s, true)
  | none => s.queueNewLr config cpu irq

def queueSources (cpu irq : Nat) : List Nat → GuestState → BitVec 32 →
    Checked (GuestState × BitVec 32)
  | [], s, source => pure (s, source)
  | c :: rest, s, source => do
    if source.getLsbD c then
      let (s, queued) ← s.queueIrq config cpu irq
      queueSources cpu irq rest s (if queued then source &&& ~~~bit c else source)
    else queueSources cpu irq rest s source

def queueSgi : Checked (GuestState × Bool) := do
  let row ← s.sgiSource.read cpu
  let source ← row.read irq
  let (s, source) ← queueSources config cpu irq (List.range config.numCpu) s source
  let row ← s.sgiSource.read cpu
  let row ← row.write irq source
  let sgiSource ← s.sgiSource.write cpu row
  let s := { s with sgiSource := sgiSource }
  if source = 0 then
    let s ← s.clearPending config irq (bit cpu)
    pure (s, true)
  else pure (s, false)

def queueHwirq : Checked (GuestState × Bool) := do
  if ← s.testActive irq (bit cpu) then pure (s, true)
  else
    let (s, queued) ← s.queueIrq config cpu irq
    if queued then
      let s ← s.clearPending config irq (bit cpu)
      if ← s.testTrigger irq then pure (s, true)
      else
        let s ← s.setActive irq (bit cpu)
        pure (s, true)
    else pure (s, false)

/-! ## Synchronising with the hardware -/

def readBits (bits : Bits) (cpu word : Nat) : Checked (BitVec 32) := do
  let row ← Table.read bits cpu
  row.read word

/-- `vstate[cpu].vcpu->subid`: the VCPUs are entered in the order of their numbers. -/
def subid (cpu : Nat) : Checked Nat := do
  let _ ← s.vstate.read cpu
  pure cpu

def pendingWord (cpu word : Nat) : Checked (BitVec 32) := do
  let cpu ← s.subid cpu
  let pending ← readBits s.irqPending cpu word
  let enabled ← readBits s.irqEnabled cpu word
  pure (pending &&& enabled)

def vcpuIrqPending (cpu : Nat) : Checked Bool := do
  if s.enabled = 0 then pure false
  else if ← (List.range 8).anyM fun word => (· != 0#32) <$> s.pendingWord cpu word then pure true
  else
    let vs ← s.vstate.read cpu
    pure (vs.lrUsedCount != 0)

/-- Queue the interrupts of a mask one after the other; `true` tells that one did not fit. -/
def queueMask (queue : GuestState → Nat → Checked (GuestState × Bool)) (first : Nat)
    (mask : BitVec 32) : List Nat → GuestState → Checked (GuestState × Bool)
  | [], s => pure (s, false)
  | n :: rest, s => do
    if mask.getLsbD n then
      let (s, queued) ← queue s (first + n)
      if queued then queueMask queue first mask rest s else pure (s, true)
    else queueMask queue first mask rest s

def queueShared (cpu : Nat) : List Nat → GuestState → Checked (GuestState × Bool)
  | [], s => pure (s, false)
  | word :: rest, s => do
    let mask ← s.pendingWord cpu word
    let (s, overflow) ← queueMask (fun s irq => s.queueHwirq config cpu irq) (word * 32) mask
      (List.range 32) s
    if overflow then pure (s, true) else queueShared cpu rest s

/-- Queue the private interrupts: first the software generated ones. -/
def queuePrivate (cpu : Nat) : Checked (GuestState × Bool) := do
  let mask ← s.pendingWord cpu 0
  let (s, overflow) ← queueMask (fun s irq => s.queueSgi config cpu irq) 0 mask (List.range 16) s
  if overflow then pure (s, true)
  else queueMask (fun s irq => s.queueHwirq config cpu irq) 0 mask (List.range' 16 16) s

/-- Move pending interrupts to list registers; `true` asks for an underflow interrupt. -/
def flushVcpuHwstate (cpu : Nat) : Checked (GuestState × Bool) := do
  if s.enabled = 0 then pure (s, false)
  else
    let (s, overflow) ← s.queuePrivate config cpu
    if overflow then pure (s, true) else queueShared config cpu (List.range' 1 7) s

structure LrStatus where
  eisr : Table 2 (BitVec 32)
  elrsr : Table 2 (BitVec 32)

def reclaimLr (cpu lr : Nat) : Checked GuestState := do
  let vs ← s.vstate.read cpu
  let irq := (vs.lr lr).virtid.toNat
  let s ← s.setLr cpu lr ⟨0, 0, 0, 0⟩
  if 256 ≤ irq then throw .bug
  let s ←
    if ← s.testTrigger irq then pure s
    else do
      let s ← s.clearActive irq (bit cpu)
      let target ← s.irqTarget.read irq
      if (← s.testLevel irq (bit cpu)) && (target &&& bit cpu != 0) then
        s.setPending config irq (bit cpu)
      else s.clearPending config irq (bit cpu)
  let s ← s.clearLrUsed cpu lr
  s.setLrMap cpu irq lrUnknown

def reclaimLrs (done0 done1 : BitVec 32) (s : GuestState) (cpu : Nat) : Checked GuestState :=
  (List.range config.lrCnt).foldlM (fun s lr =>
    if (if lr / 32 % 2 = 0 then done0 else done1).getLsbD (lr % 32) then s.reclaimLr config cpu lr
    else pure s) s

def syncVcpuHwstate (status : LrStatus) (s : GuestState) (cpu : Nat) : Checked GuestState := do
  let vs ← s.vstate.read cpu
  if vs.lrUsedCount = 0 then pure s
  else
    let used0 ← vs.lrUsed.read 0
    let used1 ← vs.lrUsed.read 1
    s.reclaimLrs config ((status.elrsr 0 ||| status.eisr 0) &&& used0)
      ((status.elrsr 1 ||| status.eisr 1) &&& used1) cpu

def syncAndFlushVcpu (status : LrStatus) (s : GuestState) (cpu : Nat) :
    Checked (GuestState × Bool) := do
  let s ← s.syncVcpuHwstate config status cpu
  s.flushVcpuHwstate config cpu

end GuestState

/-! ## Distributor registers and device interrupts -/

inductive Rc where
  | ok
  | efail
  | enodev
  deriving DecidableEq, Repr

namespace GuestState

variable (config : Config)

/-! ## Device interrupts -/

variable (s : GuestState) (irq : Nat)

def levelChange (cm target : BitVec 32) (level : Int) : Checked GuestState := do
  let raised ← s.testLevel irq cm
  if level = (if raised then 1 else 0) then pure s
  else if level ≠ 0 then
    let s ← s.setLevel irq cm
    s.setPending config irq target
  else s.clearLevel irq cm

def route (cpu : Int) : Checked (Option (BitVec 32 × BitVec 32 × Int)) := do
  if irq < 32 then pure (some (1#32 <<< cpu.toNat, 1#32 <<< cpu.toNat, cpu))
  else
    let target ← s.irqTarget.read irq
    match (List.range config.numCpu).find? fun cpu => target.getLsbD cpu with
    | some cpu => pure (some (config.allCpuMask, target, cpu))
    | none => pure none

/-- The device raises or lowers the interrupt, once or twice. The returned flag is the
state of the VCPU's interrupt line. -/
def irqHandle (status : LrStatus) (isCurrent : Bool) (s : GuestState) (irq : Nat) (cpu : Int)
    (levels : List Int) : Checked (GuestState × Option Bool) := do
  if s.enabled = 0 then pure (s, none)
  else
    match ← s.route config irq cpu with
    | none => pure (s, none)
    | some (cm, target, cpu) => do
      if cpu < 0 then throw .bug
      let cpu := cpu.toNat
      let s ← levels.foldlM (fun s level => s.levelChange config irq cm target level) s
      let irqPending ← s.vcpuIrqPending cpu
      if isCurrent then
        let (s, _) ← s.syncAndFlushVcpu config status cpu
        pure (s, some irqPending)
      else pure (s, some irqPending)

def setHostIrq (hostIrq : BitVec 32) : Checked GuestState :=
  s.modifyIrq irq fun state => { state with hostIrq := hostIrq }

def irqMapHost2guest (hostIrq : BitVec 32) : Checked GuestState :=
  if config.numIrq ≤ irq then pure s else s.setHostIrq irq hostIrq

def irqUnmapHost2guest : Checked GuestState :=
  s.irqMapHost2guest config irq uintMax

/-! ## Reading registers -/

def collectBits (count : Nat) (test : Nat → Checked (BitVec 8)) : Checked (BitVec 8) :=
  (List.range count).foldlM (fun dst i => do
    let bits ← test i
    pure (dst ||| bits)) 0

def cpuMaskFor (irq cpu : Nat) : BitVec 32 :=
  if irq < 32 then 1#32 <<< cpu else config.allCpuMask

variable (cpu offset : Nat)

/-- A byte of the distributor, or nothing where it has no register. -/
def distReadb : Checked (Option (BitVec 8)) := do
  match offset / 256 with
  | 0x0 =>
    if offset - offset % 4 = 0x000 then
      pure (some (if offset = 0x000 then s.enabled.setWidth 8 else 0))
    else if offset - offset % 4 = 0x004 then
      pure (some (if offset = 0x004 then
        ((BitVec.ofNat 32 config.numCpu - 1) <<< 5).setWidth 8 |||
          (BitVec.ofNat 32 (config.numIrq / 32) - 1).setWidth 8
        else 0))
    else pure none
  | 0x1 =>
    let irq := offset % 128 * 8
    if config.numIrq ≤ irq then pure none
    else some <$> collectBits 8 fun i => do
      let set ← s.testEnabled config (irq + i) (1#32 <<< cpu)
      pure (if set then 1#8 <<< i else 0)
  | 0x2 =>
    let irq := offset % 128 * 8
    if config.numIrq ≤ irq then pure none
    else some <$> collectBits 8 fun i => do
      let set ← s.testPending config (irq + i) (cpuMaskFor config irq cpu)
      pure (if set then 1#8 <<< i else 0)
  | 0x3 =>
    let irq := offset % 128 * 8
    if config.numIrq ≤ irq then pure none
    else some <$> collectBits 8 fun i => do
      let set ← s.testActive (irq + i) (cpuMaskFor config irq cpu)
      pure (if set then 1#8 <<< i else 0)
  | 0x4 =>
    let irq := offset - 0x400
    if config.numIrq ≤ irq then pure none
    else do
      let priority ← s.getPriority irq cpu
      pure (some ((priority <<< 4).setWidth 8))
  | 0x8 =>
    let irq := offset - 0x800
    if config.numIrq ≤ irq then pure none
    else if irq < 32 then pure (some (1#8 <<< cpu))
    else do
      let target ← s.irqTarget.read irq
      pure (some (target.setWidth 8))
  | 0xC =>
    let irq := (offset - 0xC00) * 4
    if config.numIrq ≤ irq then pure none
    else some <$> collectBits 4 fun i => do
      let state ← s.irqState.read (irq + i)
      pure ((if state.model then 1#8 <<< (i * 2) else 0) |||
        (if state.trigger then 2#8 <<< (i * 2) else 0))
  | 0xF =>
    if 0xFE0 ≤ offset then
      if offset % 4 ≠ 0 then pure (some 0)
      else do
        let byte ← s.id.read ((offset - 0xFE0) / 4)
        pure (some byte)
    else pure none
  | _ => pure none

def distRead : Checked (BitVec 32) :=
  go 4 0 0
where
  go : Nat → Nat → BitVec 32 → Checked (BitVec 32)
    | 0, _, dst => pure dst
    | left + 1, i, dst => do
      match ← s.distReadb config cpu (offset + i) with
      | none => pure dst
      | some byte => go left (i + 1) (dst ||| byte.setWidth 32 <<< (i * 8))

/-! ## Writing registers -/

variable (src : BitVec 8)

def forBits (action : GuestState → Nat → Checked GuestState) (s : GuestState) :
    Checked GuestState :=
  (List.range 8).foldlM (fun s i => if src.getLsbD i then action s i else pure s) s

/-- Enable one interrupt; a raised level triggered one becomes pending. -/
def enableIrq (cpu irq : Nat) : Checked GuestState := do
  let mask ← if irq < 32 then pure (1#32 <<< cpu) else s.irqTarget.read irq
  let s ← s.setEnabled config irq (cpuMaskFor config irq cpu)
  if (← s.testLevel irq mask) && !(← s.testTrigger irq) then s.setPending config irq mask
  else pure s

def configureIrq (i : Nat) : Checked GuestState :=
  s.modifyIrq irq fun state =>
    { state with model := src.getLsbD (i * 2), trigger := src.getLsbD (i * 2 + 1) }

def distWriteb : Checked (GuestState × Rc) := do
  match offset / 256 with
  | 0x0 =>
    if offset - offset % 4 = 0x000 then
      pure (if offset = 0x000 then { s with enabled := src.setWidth 32 &&& 1 } else s, .ok)
    else if offset - offset % 4 = 0x004 then pure (s, .ok)
    else pure (s, .efail)
  | 0x1 =>
    let irq := offset % 128 * 8
    if config.numIrq ≤ irq then pure (s, .efail)
    else if offset % 256 < 0x80 then do
      let src := if irq < 16 then 0xFF else src
      let s ← forBits src (fun s i => s.enableIrq config cpu (irq + i)) s
      pure (s, .ok)
    else do
      let src := if irq < 16 then 0x00 else src
      let s ← forBits src
        (fun s i => s.clearEnabled config (irq + i) (cpuMaskFor config (irq + i) cpu)) s
      pure (s, .ok)
  | 0x2 =>
    let irq := offset % 128 * 8
    if config.numIrq ≤ irq then pure (s, .efail)
    else if offset % 256 < 0x80 then do
      let src := if irq < 16 then 0x00 else src
      let s ← forBits src (fun s i => do
        let mask ← s.irqTarget.read (irq + i)
        s.setPending config (irq + i) mask) s
      pure (s, .ok)
    else do
      let s ← forBits src (fun s i => s.clearPending config (irq + i) config.allCpuMask) s
      pure (s, .ok)
  | 0x3 => pure (s, .ok)
  | 0x4 =>
    let irq := offset - 0x400
    if config.numIrq ≤ irq then pure (s, .efail)
    else if irq < 32 then do
      let row ← s.priority1.read irq
      let row ← row.write cpu ((src >>> 4).setWidth 32)
      let priority1 ← s.priority1.write irq row
      pure ({ s with priority1 := priority1 }, .ok)
    else do
      let priority2 ← s.priority2.write (irq - 32) ((src >>> 4).setWidth 32)
      pure ({ s with priority2 := priority2 }, .ok)
  | 0x8 =>
    let irq := offset - 0x800
    if config.numIrq ≤ irq then pure (s, .efail)
    else do
      let src := if irq < 16 then 0 else if irq < 32 then config.allCpuMask.setWidth 8 else src
      let irqTarget ← s.irqTarget.write irq (src.setWidth 32 &&& config.allCpuMask)
      pure ({ s with irqTarget := irqTarget }, .ok)
  | 0xC =>
    let irq := (offset - 0xC00) * 4
    if config.numIrq ≤ irq then pure (s, .efail)
    else do
      let src := if irq < 32 then src ||| 0xAA else src
      let s ← (List.range 4).foldlM (fun s i => s.configureIrq (irq + i) src i) s
      pure (s, .ok)
  | _ => pure (s, .efail)

/-- Write the bytes whose mask bits are not all set, up to the first one that fails. -/
def distWriteBytes (cpu : Nat) : Nat → Nat → BitVec 32 → BitVec 32 → GuestState →
    Checked (GuestState × Rc)
  | 0, _, _, _, s => pure (s, .ok)
  | left + 1, offset, srcMask, src, s => do
    if srcMask.setWidth 8 ≠ 0 then
      let (s, rc) ← s.distWriteb config cpu offset (src.setWidth 8)
      if rc = .ok then distWriteBytes cpu left (offset + 1) (srcMask >>> 8) (src >>> 8) s
      else pure (s, rc)
    else distWriteBytes cpu left (offset + 1) (srcMask >>> 8) (src >>> 8) s

/-- The CPUs addressed by a write to the software interrupt register. -/
def sgiMask (cpu : Nat) (src : BitVec 32) : BitVec 32 :=
  match (src >>> 24 &&& 3).toNat with
  | 0 => src >>> 16 &&& config.allCpuMask
  | 1 => config.allCpuMask ^^^ 1#32 <<< cpu
  | 2 => 1#32 <<< cpu
  | _ => config.allCpuMask

/-- The interrupt number in a write to the software interrupt register. -/
def sgiIrq (src : BitVec 32) : Nat := (src &&& 0x3FF).toNat

def addSgiSources (cpu irq : Nat) (mask : BitVec 32) : Checked GuestState :=
  (List.range config.numCpu).foldlM (fun s i => do
    if mask.getLsbD i then
      if (← s.subid i) = (← s.subid cpu) then pure s
      else
        let row ← s.sgiSource.read i
        let row ← row.modify irq (· ||| 1#32 <<< cpu)
        let sgiSource ← s.sgiSource.write i row
        pure { s with sgiSource := sgiSource }
    else pure s) s

def writeSgi (cpu : Nat) (src : BitVec 32) : Checked GuestState := do
  let irq := sgiIrq src
  let mask := sgiMask config cpu src
  let s ← s.setPending config irq mask
  if irq < 16 then s.addSgiSources config cpu irq mask else pure s

def distWrite (status : LrStatus) (s : GuestState) (cpu offset : Nat) (srcMask src : BitVec 32) :
    Checked (GuestState × List Bool × Rc) := do
  let (s, rc) ←
    if offset = 0xF00 then do
      let s ← s.writeSgi config cpu src
      pure (s, Rc.ok)
    else distWriteBytes config cpu 4 offset (~~~srcMask) src s
  let (s, _) ← s.syncAndFlushVcpu config status cpu
  let lines ← (List.range config.numCpu).mapM fun i => s.vcpuIrqPending i
  pure (s, lines, rc)

/-! ## Set-up -/

/-- `vgic_dist_emulator_reset`; `lr` is the content the hardware reset leaves behind. -/
def resetVcpu (lr : Nat → Lr) (cpu : Nat) : Checked GuestState := do
  let s ← s.modifyVcpu cpu fun vs => { vs with lrUsedCount := 0, lr := lr }
  let s ← (List.range ((config.lrCnt + 31) / 32)).foldlM (fun s word => do
    let vs ← s.vstate.read cpu
    let lrUsed ← vs.lrUsed.write word 0
    s.modifyVcpu cpu fun vs => { vs with lrUsed := lrUsed }) s
  (List.range config.numIrq).foldlM (fun s irq => s.setLrMap cpu irq lrUnknown) s

def resetSgiSources (cpu : Nat) : Checked GuestState := do
  let row ← s.sgiSource.read cpu
  let row ← (List.range 16).foldlM (fun row irq => row.write irq 0) row
  let sgiSource ← s.sgiSource.write cpu row
  pure { s with sgiSource := sgiSource }

def resetIrq : Checked GuestState := do
  let s ← s.clearEnabled config irq config.allCpuMask
  let s ← s.clearPending config irq config.allCpuMask
  let s ← s.clearActive irq config.allCpuMask
  s.modifyIrq irq fun state => { state with model := false, trigger := false }

def emulatorReset (lr : Nat → Lr) : Checked GuestState := do
  let s ← (List.range config.numCpu).foldlM (fun s cpu => s.resetVcpu config lr cpu) s
  let s ← (List.range config.numCpu).foldlM (fun s cpu => s.resetSgiSources cpu) s
  let s ← (List.range config.numIrq).foldlM (fun s irq => s.resetIrq config irq) s
  let s ← (List.range 16).foldlM (fun s irq => do
    let s ← s.setEnabled config irq config.allCpuMask
    s.modifyIrq irq fun state => { state with trigger := true }) s
  pure { s with enabled := 0 }

/-- The state `vgic_state_alloc` starts from: zero but for the identification bytes and the
unmapped host interrupts. -/
def stateAlloc : GuestState where
  id := ![0x90, 0x13, 0x04, 0x00, 0x0d, 0xf0, 0x05, 0xb1]
  vstate _ := ⟨0, fun _ => 0, fun _ => 0, fun _ => ⟨0, 0, 0, 0⟩⟩
  enabled := 0
  irqState irq := ⟨0, 0, false, false, if irq < config.numIrq then uintMax else 0⟩
  sgiSource _ _ := 0
  irqTarget _ := 0
  priority1 _ _ := 0
  priority2 _ := 0
  irqEnabled _ _ := 0
  irqPending _ _ := 0

end GuestState

/-- The part of `vgic_dist_emulator_probe` that decides the sizes: too many VCPUs are
refused, too many interrupts are cut off. -/
def emulatorProbe (vcpuCount : Nat) (numIrq : Option Nat) (lrCnt : Fin 64) : Except Rc Config :=
  if tooMany : 8 < vcpuCount then .error .enodev
  else .ok {
    numCpu := vcpuCount
    numIrq := min (numIrq.getD 256) 256
    lrCnt := lrCnt + 1
    numCpu_le := by omega
    numIrq_le := by omega
    lrCnt_le := by omega }

end Xvisor.Vgic
