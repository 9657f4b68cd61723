import Xvisor.Guest.Stage2
import Xvisor.Mmu.GuestPage
import Xvisor.Nested.Swtlb

/-!
# Two-stage address translation for a nested guest

Addresses of a nested guest are translated in software (`cpu_vcpu_nested.c`):
the VS-stage gives a guest physical address, the G-stage an address of the guest
hypervisor's memory, and the guest address space the host address. The software
TLB keeps the results of the last two steps.
-/

namespace Xvisor.Nested

open Lib Mmu Guest

inductive Access where
  | load
  | store
  | fetch
  deriving DecidableEq, Repr

inductive Cause where
  | pageFault (access : Access)
  | guestPageFault (access : Access)
  deriving DecidableEq, Repr

/-- What is known of an access before it is translated: its type for fault generation, the
privilege, the SUM and MXR bits of sstatus, and whether the instruction is HLVX. -/
structure Setting where
  originalAccess : Access
  smode : Bool
  sum : Bool
  mxr : Bool
  hlvx : Bool
  deriving DecidableEq, Repr

structure XlateContext extends Setting where
  hostPa : Nat
  hostSz : Nat
  hostRegFlags : RegionFlags
  nostagePageSz : Nat
  gstagePageSz : Nat
  vsstagePageSz : Nat
  scause : Option Cause
  stval : Nat
  htval : Nat

def nestedXlateContextInit (setting : Setting) : XlateContext :=
  ⟨setting, 0, 0, 0, 0, 0, 0, none, 0, 0⟩

/-- The address space of the guest hypervisor, the words of host memory that can be read, and the
two registers that hold its page tables. `fuel` bounds the alias loop. -/
structure World where
  aspace : Aspace
  fuel : Nat
  memory : Nat → Option Nat
  hgatp : BitVec 64
  vsatp : BitVec 64

def atpMode (atp : BitVec 64) : Nat := atp.toNat / 2 ^ 60

def atpTable (atp : BitVec 64) : Nat := atp.toNat % 2 ^ 44 * 2 ^ 12

/-- The levels of the modes Sv39, Sv48 and Sv57, also in their variants for the G-stage. -/
def modeLevel : Nat → Option Nat
  | 8 => some 2
  | 9 => some 3
  | 10 => some 4
  | _ => none

/-- The page that takes the place of a leaf when a stage is off: `NESTED_MMU_OFF_BLOCK_SIZE`
around the address, with all permissions. -/
def offPage (addr : Nat) : Page :=
  ⟨mapMask 2 addr, mapMask 2 addr, blockSize 2, ⟨0, true, true, true, true, true, true, true, true⟩⟩

/-! ## Without translation -/

def nestedNostagePermCheck (access : Access) (regFlags : RegionFlags) : Bool :=
  match access with
  | .load | .fetch => regFlags.any (.isram ||| .isrom)
  | .store => regFlags.any .isram

variable (world : World)

/-- `nested_xlate_nostage_single` for the block size of a level; `none` is `VMM_EFAULT`. -/
def nestedXlateNostageSingle (guestHpa level : Nat) (access : Access) :
    Except Stop (Option PhysicalMapping) :=
  match world.aspace.blockAt world.fuel guestHpa level with
  | .hangs => .error .hangs
  | .missing => .ok none
  | .found mapping =>
    if mapping.physSize < blockSize level then .ok none
    else if nestedNostagePermCheck access mapping.regFlags then .ok (some mapping)
    else .ok none

structure HostBlock where
  pa : Nat
  sz : Nat
  regFlags : RegionFlags
  deriving DecidableEq, Repr

def hostBlockOf (level : Nat) (mapping : PhysicalMapping) : HostBlock :=
  ⟨mapping.hphysAddr, blockSize level, mapping.regFlags⟩

/-- `nested_xlate_nostage`: larger blocks are tried as long as they can be translated. -/
def nestedXlateNostage (guestHpa : Nat) (access : Access) : Except Stop (Option HostBlock) := do
  match ← nestedXlateNostageSingle world guestHpa 0 access with
  | none => return none
  | some small =>
    match ← nestedXlateNostageSingle world guestHpa 1 access with
    | none => return some (hostBlockOf 0 small)
    | some middle =>
      match ← nestedXlateNostageSingle world guestHpa 2 access with
      | none => return some (hostBlockOf 1 middle)
      | some large => return some (hostBlockOf 2 large)

theorem nestedXlateNostage_cases (guestHpa : Nat) (access : Access) :
    (∃ level stop, nestedXlateNostageSingle world guestHpa level access = .error stop ∧
      nestedXlateNostage world guestHpa access = .error stop) ∨
    nestedXlateNostage world guestHpa access = .ok none ∨
    ∃ level ≤ 2, ∃ mapping,
      nestedXlateNostageSingle world guestHpa level access = .ok (some mapping) ∧
      nestedXlateNostage world guestHpa access = .ok (some (hostBlockOf level mapping)) := by
  unfold nestedXlateNostage
  rcases small : nestedXlateNostageSingle world guestHpa 0 access with stop | _ | mapping
  · exact .inl ⟨0, stop, small, rfl⟩
  · exact .inr (.inl rfl)
  rcases middle : nestedXlateNostageSingle world guestHpa 1 access with stop | _ | larger
  · exact .inl ⟨1, stop, middle, rfl⟩
  · exact .inr (.inr ⟨0, by decide, mapping, small, rfl⟩)
  rcases large : nestedXlateNostageSingle world guestHpa 2 access with stop | _ | largest
  · exact .inl ⟨2, stop, large, rfl⟩
  · exact .inr (.inr ⟨1, by decide, larger, middle, rfl⟩)
  · exact .inr (.inr ⟨2, by decide, largest, large, rfl⟩)

/-! ## The G-stage -/

variable (xc : XlateContext)

/-- The context must not have a cause yet. -/
def nestedGstageWriteFault (guestGpa : Nat) : Except Stop XlateContext :=
  if xc.scause.isSome then .error .panics
  else .ok { xc with
    scause := some (.guestPageFault xc.originalAccess), htval := guestGpa / 4 }

def nestedGstageSetfault (level guestGpa : Nat) : Except Stop XlateContext :=
  nestedGstageWriteFault { xc with gstagePageSz := blockSize level } guestGpa

def nestedGstageGpa2hpa (guestHpa : Nat) : Call XlateContext Nat :=
  (nestedXlateNostageSingle world guestHpa 0 .load).map fun
    | none => (xc, .error .efault)
    | some mapping => (xc, .ok (mapping.hphysAddr ||| guestHpa % blockSize 0))

def nestedXlateGstageOps : GuestPageOps XlateContext where
  gpa2hpa := nestedGstageGpa2hpa world
  setfault := nestedGstageSetfault

def Setting.permFault (setting : Setting) (access : Access) (flags : PgFlags) : Bool :=
  if access = .fetch ∨ setting.hlvx then !flags.execute
  else
    match access with
    | .load => !(flags.read || (setting.mxr && flags.execute)) || !flags.accessed
    | .store => !flags.read || !flags.write || !flags.accessed || !flags.dirty
    | .fetch => false

def Setting.gstagePermFault (setting : Setting) (access : Access) (flags : PgFlags) : Bool :=
  !flags.user || setting.permFault access flags

def shadowPermits (access : Access) (flags : PgFlags) : Bool :=
  match access with
  | .load => flags.read
  | .store => flags.read && flags.write
  | .fetch => flags.execute

def fitHost (page : Page) (guestHpa : Nat) (host : HostBlock) : HostBlock :=
  if page.sz ≤ host.sz then
    { host with
      pa := (host.pa ||| guestHpa % host.sz) / page.sz * page.sz, sz := page.sz }
  else host

def shadowPage (page : Page) (guestGpa : Nat) (host : HostBlock) : Page where
  ia := if page.sz ≤ host.sz then page.ia else guestGpa / host.sz * host.sz
  oa := host.pa
  sz := host.sz
  flags :=
    { rsw := 0
      dirty := true
      accessed := true
      global := false
      user := true
      execute := page.flags.execute
      write := host.regFlags.any .isram && page.flags.write
      read := host.regFlags.any (.isram ||| .isrom) && page.flags.read
      valid := true }

structure XlateState (config : Config) where
  npriv : Npriv config
  xc : XlateContext

variable {config : Config} (st : XlateState config)

def XlateState.gstageFault (xc : XlateContext) (guestGpa : Nat) : Call (XlateState config) Unit :=
  (nestedGstageWriteFault xc guestGpa).map fun xc => ({ st with xc := xc }, .error .efault)

/-- Find the guest G-stage page in the page tables of the guest hypervisor. -/
def gstagePage (config : Config) (world : World) (xc : XlateContext) (guestGpa : Nat) :
    Call XlateContext Page :=
  if atpMode world.hgatp = 0 then .ok (xc, .ok (offPage guestGpa))
  else
    match modeLevel (atpMode world.hgatp) with
    | none => .ok (xc, .error .efail)
    | some level =>
      Mmu.mmuGetGuestPage config world.memory (nestedXlateGstageOps world) level xc
        (atpTable world.hgatp) guestGpa

def gstageHit (swte : SwtlbEntry) (guestGpa : Nat) (access : Access) :
    Call (XlateState config) Unit :=
  let xc := { st.xc with
    hostPa := swte.shadowPage.oa, hostSz := swte.shadowPage.sz
    hostRegFlags := swte.shadowRegFlags }
  if shadowPermits access swte.shadowPage.flags then .ok ({ st with xc := xc }, .ok ())
  else st.gstageFault { xc with nostagePageSz := swte.page.sz } guestGpa

variable (world : World) (st : XlateState config)

/-- The host details come from the guest address space, and the software TLB gets an entry. -/
def gstageMiss (page : Page) (guestGpa : Nat) (access : Access) : Call (XlateState config) Unit :=
  let guestHpa := page.oa ||| guestGpa % page.sz
  match nestedXlateNostage world guestHpa access with
  | .error stop => .error stop
  | .ok none => st.gstageFault { st.xc with nostagePageSz := page.sz } guestGpa
  | .ok (some host) =>
    let host := fitHost page guestHpa host
    match nestedSwtlbUpdate st.npriv (access = .fetch) page (shadowPage page guestGpa host)
        host.regFlags with
    | none => .error .panics
    | some npriv =>
      .ok (⟨npriv, { st.xc with
        hostPa := host.pa, hostSz := host.sz, hostRegFlags := host.regFlags }⟩, .ok ())

def nestedXlateGstage (guestGpa : Nat) (access : Access) : Call (XlateState config) Unit :=
  match nestedSwtlbLookup st.npriv.swtlb guestGpa with
  | (some swte, swtlb) =>
    let st := { st with npriv := { st.npriv with swtlb := swtlb } }
    if st.xc.gstagePermFault access swte.page.flags then
      st.gstageFault { st.xc with gstagePageSz := swte.page.sz } guestGpa
    else gstageHit st swte guestGpa access
  | (none, _) =>
    match gstagePage config world st.xc guestGpa with
    | .error stop => .error stop
    | .ok (xc, .error code) => .ok ({ st with xc := xc }, .error code)
    | .ok (xc, .ok page) =>
      let st := { st with xc := xc }
      if st.xc.gstagePermFault access page.flags then
        st.gstageFault { st.xc with gstagePageSz := page.sz } guestGpa
      else gstageMiss world st page guestGpa access

/-! ## The VS-stage -/

def nestedVsstageWriteFault (xc : XlateContext) (guestGva : Nat) : XlateContext :=
  { xc with
    scause := some (xc.scause.getD (.pageFault xc.originalAccess)), stval := guestGva }

def nestedVsstageSetfault (level guestGva : Nat) : Except Stop (XlateState config) :=
  .ok { st with
    xc := nestedVsstageWriteFault { st.xc with vsstagePageSz := blockSize level } guestGva }

def nestedVsstageGpa2hpa (guestGpa : Nat) : Call (XlateState config) Nat :=
  match nestedXlateGstage world st guestGpa .load with
  | .error stop => .error stop
  | .ok (st, .error code) => .ok (st, .error code)
  | .ok (st, .ok ()) => .ok (st, .ok (st.xc.hostPa ||| guestGpa % st.xc.hostSz))

def nestedXlateVsstageOps : GuestPageOps (XlateState config) where
  gpa2hpa := nestedVsstageGpa2hpa world
  setfault := nestedVsstageSetfault

/-- Find the guest VS-stage page; `stage1` is the configuration of the host's own stage 1. -/
def vsstagePage (stage1 : Config) (world : World) (st : XlateState config) (guestGva : Nat) :
    Call (XlateState config) Page :=
  if atpMode world.vsatp = 0 then .ok (st, .ok (offPage guestGva))
  else
    match modeLevel (atpMode world.vsatp) with
    | none => .ok (st, .error .efail)
    | some level =>
      Mmu.mmuGetGuestPage stage1 world.memory (nestedXlateVsstageOps world) level st
        (atpTable world.vsatp) guestGva

def Setting.vsstagePermFault (setting : Setting) (access : Access) (flags : PgFlags) : Bool :=
  (if flags.user then setting.smode && (access = .fetch || setting.sum) else !setting.smode) ||
    setting.permFault access flags

def XlateContext.fitPage (xc : XlateContext) (page : Page) (guestGpa : Nat) : XlateContext :=
  if page.sz ≤ xc.hostSz then
    { xc with
      hostPa := (xc.hostPa ||| guestGpa % xc.hostSz) / page.sz * page.sz, hostSz := page.sz }
  else xc

def nestedXlateVsstage (stage1 : Config) (world : World) (st : XlateState config)
    (guestGva : Nat) (access : Access) : Call (XlateState config) Unit :=
  match vsstagePage stage1 world st guestGva with
  | .error stop => .error stop
  | .ok (st, .error code) => .ok (st, .error code)
  | .ok (st, .ok page) =>
    if st.xc.vsstagePermFault access page.flags then
      .ok ({ st with
        xc := nestedVsstageWriteFault { st.xc with vsstagePageSz := page.sz } guestGva },
        .error .efault)
    else
      let guestGpa := page.oa ||| guestGva % page.sz
      match nestedXlateGstage world st guestGpa access with
      | .error stop => .error stop
      | .ok (st, .error .efault) =>
        .ok ({ st with xc := nestedVsstageWriteFault st.xc guestGva }, .error .efault)
      | .ok (st, .error code) => .ok (st, .error code)
      | .ok (st, .ok ()) => .ok ({ st with xc := st.xc.fitPage page guestGpa }, .ok ())

/-! ## Initial state -/

/-- `NESTED_SWTLB_ITLB_MAX_ENTRY` and `NESTED_SWTLB_DTLB_MAX_ENTRY`. -/
def xtlbMaxEntry : Nat := 1024

def nestedSwtlbInit (entries : Nat → SwtlbEntry) : Swtlb where
  itlb := ⟨[], List.range xtlbMaxEntry⟩
  dtlb := ⟨[], List.range' xtlbMaxEntry xtlbMaxEntry⟩
  entries := entries

end Xvisor.Nested
