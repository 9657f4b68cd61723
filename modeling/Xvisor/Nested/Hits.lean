import Xvisor.Lib.Judge
import Xvisor.Nested.Gstage

/-!
# Software TLB hits

While the page tables stay as they are, all entries of the software TLB stay current, and a
translation answers the same in every state of it.
-/

namespace Xvisor.Nested

open Lib Mmu

section Hits

inductive TlbCall where
  | translate (xc : XlateContext) (guestGpa : Nat) (access : Access)
  | flush (guestGpa size : Nat)
  | others (alloc : Alloc)

variable {config : Config} {world : World}

/-- Translations and flushes from an empty software TLB, over page tables that do not change.
Between them the allocator serves other trees. -/
def translationSystem (config : Config) (world : World) : System (Npriv config) TlbCall where
  init s := (∃ entries, s.swtlb = nestedSwtlbInit entries) ∧ (mmuSystem config).init s.pgtbl
  step s call s' :=
    match call with
    | .translate xc guestGpa access => xc.scause = none ∧
        ∃ st result, nestedXlateGstage world ⟨s, xc⟩ guestGpa access = .ok (st, result) ∧
          s' = st.npriv
    | .flush guestGpa size => cpuVcpuNestedSwtlbFlush s guestGpa size = some s'
    | .others alloc => AllocOk config alloc s.pgtbl.root.descendants ∧
        s' = { s with pgtbl := { s.pgtbl with alloc := alloc } }

/-- The address is one that the shadow page table tells apart from all others, and the host has
pages for its tables. -/
def InReach (config : Config) (s : Npriv config) (guestGpa : Nat) : Prop :=
  guestGpa < config.span config.start ∧ s.pgtbl.alloc.Supplied config.start

def TlbCall.InReach (s : Npriv config) : TlbCall → Prop
  | .translate _ guestGpa _ => Nested.InReach config s guestGpa
  | .flush _ _ => True
  | .others _ => True

/-! ## Soundness along runs -/

variable {s : Npriv config}

theorem sound_init {entries : Nat → SwtlbEntry} (isInit : s.swtlb = nestedSwtlbInit entries)
    (tree : (mmuSystem config).init s.pgtbl) : Sound world s := by
  have noEntry : s.swtlb.active = [] := by
    rw [isInit]
    rfl
  have refines := Mmu.mmuSystem_refines (.start tree)
  obtain ⟨⟨tblPa, isRoot⟩, _, isMapping⟩ := tree
  refine ⟨?_, ⟨refines, ?_, ?_, ?_, ?_⟩, ?_⟩
  · intro itlb
    rw [isInit]
    cases itlb <;> simp [nestedSwtlbInit, Swtlb.xtlb, Xtlb.slots, slotsOf]
  · rw [isRoot]
    exact (Pgtbl.blank_fresh tblPa).dense
  · simp [noEntry]
  · simp [noEntry]
  · simp [noEntry, isMapping, Mmu.Mapping.empty]
  · simp [noEntry]

theorem Sound.others (sound : Sound world s) {alloc : Alloc}
    (allocOk : AllocOk config alloc s.pgtbl.root.descendants) :
    Sound world { s with pgtbl := { s.pgtbl with alloc := alloc } } where
  lists := sound.lists
  shadowed :=
    { refines := ⟨sound.shadowed.refines.sound, allocOk, sound.shadowed.refines.lookup⟩
      dense := sound.shadowed.dense
      placed := sound.shadowed.placed
      disjoint := sound.shadowed.disjoint
      leaves := sound.shadowed.leaves }
  filled := sound.filled

theorem AllFenced.flush {s' : Npriv config} {guestGpa size : Nat} (fenced : AllFenced world s)
    (flushed : cpuVcpuNestedSwtlbFlush s guestGpa size = some s') : AllFenced world s' := by
  intro slot isActive
  rw [cpuVcpuNestedSwtlbFlush_some flushed]
  exact fenced slot ((mem_active_flush flushed).mp isActive).1

theorem translationRun_current (isStage2 : config.stage = .stage2) (isStart : 2 ≤ config.start)
    (regular : Regular world.aspace world.fuel)
    (reached : ((translationSystem config world).restrict TlbCall.InReach).Reachable s) :
    Sound world s ∧ AllFenced world s := by
  apply reached.invariant fun s => Sound world s ∧ AllFenced world s
  · rintro s ⟨⟨entries, isInit⟩, tree⟩
    refine ⟨sound_init isInit tree, ?_⟩
    intro slot isActive
    rw [isInit] at isActive
    cases isActive
  · rintro s call s' ⟨sound, fenced⟩ ⟨allowed, taken⟩
    cases call with
    | translate xc guestGpa access =>
      obtain ⟨noCause, st, result, translates, rfl⟩ := taken
      obtain ⟨st', result', translates', translated⟩ :=
        nestedXlateGstage_translated isStage2 isStart regular sound fenced noCause allowed.1
          allowed.2 access
      rw [translates] at translates'
      cases translates'
      exact ⟨translated.sound, translated.fenced⟩
    | flush guestGpa size =>
      obtain ⟨s₁, flushed, sound₁⟩ := sound.cpuVcpuNestedSwtlbFlush isStage2 guestGpa size
      cases flushed.symm.trans taken
      exact ⟨sound₁, fenced.flush taken⟩
    | others alloc =>
      obtain ⟨allocOk, rfl⟩ := taken
      exact ⟨sound.others allocOk, fenced⟩

/-! ## Hits and misses -/

def answers (call : Call (XlateState config) Unit) : Option Answer :=
  match call with
  | .ok (st, result) => some (answer st result)
  | .error _ => none

variable {xc : XlateContext} {access : Access}

theorem translationRun_answers (isStage2 : config.stage = .stage2) (isStart : 2 ≤ config.start)
    (regular : Regular world.aspace world.fuel)
    (reached : ((translationSystem config world).restrict TlbCall.InReach).Reachable s)
    (noCause : xc.scause = none) {guestGpa : Nat} (inReach : InReach config s guestGpa)
    (plain : PlainAccess config world xc.toSetting guestGpa access) :
    ∃ a, answers (nestedXlateGstage world ⟨s, xc⟩ guestGpa access) = some a ∧
      world.gstageAnswer config xc guestGpa access = some a := by
  obtain ⟨sound, fenced⟩ := translationRun_current isStage2 isStart regular reached
  obtain ⟨st, result, translates, translated⟩ :=
    nestedXlateGstage_translated isStage2 isStart regular sound fenced noCause inReach.1 inReach.2
      access
  refine ⟨answer st result, ?_, (translated.answers fun _ => plain).symm⟩
  rw [translates]
  rfl

/-- A state of a run in which no entry is in use. -/
structure EmptyTlb (config : Config) (world : World) (s : Npriv config) : Prop where
  reached : ((translationSystem config world).restrict TlbCall.InReach).Reachable s
  empty : s.swtlb.active = []

/-- In a regular guest address space, whatever was translated and flushed before, a translation
answers as with an empty software TLB: with the same host block, or with the same code, cause and
address. The guest page has to grant the access without MXR and HLVX. -/
theorem swtlb_transparent (isStage2 : config.stage = .stage2) (isStart : 2 ≤ config.start)
    (regular : Regular world.aspace world.fuel) {s fresh : Npriv config}
    (reached : ((translationSystem config world).restrict TlbCall.InReach).Reachable s)
    (isFresh : EmptyTlb config world fresh) {xc : XlateContext} (noCause : xc.scause = none)
    {guestGpa : Nat} (inReach : InReach config s guestGpa)
    (freshInReach : InReach config fresh guestGpa) {access : Access}
    (plain : PlainAccess config world xc.toSetting guestGpa access) :
    ∃ a, answers (nestedXlateGstage world ⟨s, xc⟩ guestGpa access) = some a ∧
      answers (nestedXlateGstage world ⟨fresh, xc⟩ guestGpa access) = some a := by
  obtain ⟨a, isAnswer, expected⟩ :=
    translationRun_answers isStage2 isStart regular reached noCause inReach plain
  obtain ⟨b, isFreshAnswer, expected'⟩ :=
    translationRun_answers isStage2 isStart regular isFresh.reached noCause freshInReach plain
  cases expected.symm.trans expected'
  exact ⟨a, isAnswer, isFreshAnswer⟩

/-! ## One G-stage leaf -/

variable (bits : Nat)

/-- 2 MiB of guest RAM at 0x80000000. Its first word is the only entry of the G-stage: a leaf with
the given low bits that maps the first GiB to the RAM. -/
def oneLeafWorld : World where
  aspace := (Guest.twoMegabyteGuest 0x90200000).aspace
  fuel := 0
  memory addr := if addr = 0x90200000 then some (0x20000000 + bits) else some 0
  hgatp := 0x8000000000080000
  vsatp := 0

theorem oneLeafWorld_onlyRegion {reg : Guest.Region}
    (mem : reg ∈ (oneLeafWorld bits).aspace.memtree.toList) :
    reg = Guest.twoMegabyteRegion 0x90200000 := by
  simpa [oneLeafWorld, Guest.twoMegabyteGuest] using mem

theorem oneLeafWorld_plain : ∀ reg ∈ (oneLeafWorld bits).aspace.memtree.toList, ¬ reg.isAlias := by
  intro reg mem
  rw [oneLeafWorld_onlyRegion bits mem]
  decide

theorem oneLeafWorld_regular : Regular (oneLeafWorld bits).aspace (oneLeafWorld bits).fuel :=
  regular_of_plain (oneLeafWorld_plain bits) Guest.twoMegabyteGuest_wellFormed _

def freshNpriv : Npriv sv39x4 where
  swtlb := nestedSwtlbInit fun _ => ⟨⟨0, 0, 0, Mmu.rwx⟩, ⟨0, 0, 0, Mmu.rwx⟩, 0⟩
  pgtbl := ⟨.fresh 0x1000 2, ⟨[], 0, [0x1000], [some 2, some 3, some 4, some 5]⟩, .empty⟩

theorem freshNpriv_init (world : World) : (translationSystem sv39x4 world).init freshNpriv := by
  refine ⟨⟨_, rfl⟩, ⟨_, rfl⟩, ⟨by decide, by decide, by decide, by decide, by simp [sv39x4], ?_⟩, rfl⟩
  intro _
  decide

def nprivAfter (call : Call (XlateState config) Unit) : Option (Npriv config) :=
  match call with
  | .ok (st, _) => some st.npriv
  | .error _ => none

theorem nprivAfter_some {call : Call (XlateState config) Unit}
    (returns : nprivAfter call = some s) : ∃ st result, call = .ok (st, result) ∧ s = st.npriv := by
  unfold nprivAfter at returns
  split at returns
  · next st result => exact ⟨st, result, rfl, (Option.some.inj returns).symm⟩
  · cases returns

def sload (mxr : Bool) : XlateContext := nestedXlateContextInit ⟨.load, true, false, mxr, false⟩
def sstore : XlateContext := nestedXlateContextInit ⟨.store, true, false, false, false⟩
def sfetch : XlateContext := nestedXlateContextInit ⟨.fetch, true, false, false, false⟩

def firstNpriv (world : World) (xc : XlateContext) (access : Access) : Npriv sv39x4 :=
  (nprivAfter (nestedXlateGstage world ⟨freshNpriv, xc⟩ 0x1000 access)).getD freshNpriv

theorem firstNpriv_some
    (returns : (nprivAfter (nestedXlateGstage world ⟨freshNpriv, xc⟩ 0x1000 access)).isSome) :
    nprivAfter (nestedXlateGstage world ⟨freshNpriv, xc⟩ 0x1000 access) =
      some (firstNpriv world xc access) := by
  obtain ⟨s, isNpriv⟩ := Option.isSome_iff_exists.mp returns
  rw [firstNpriv, isNpriv]
  rfl

theorem firstNpriv_step (noCause : xc.scause = none)
    (returns : (nprivAfter (nestedXlateGstage world ⟨freshNpriv, xc⟩ 0x1000 access)).isSome) :
    (translationSystem sv39x4 world).step freshNpriv (.translate xc 0x1000 access)
      (firstNpriv world xc access) :=
  ⟨noCause, nprivAfter_some (firstNpriv_some returns)⟩

theorem supplied_two {alloc : Alloc} (first second : Fin (2 ^ 44))
    {rest : List (Option (Fin (2 ^ 44)))}
    (answers : alloc.supply = some first :: some second :: rest)
    (different : first ≠ second)
    (new : ∀ old ∈ alloc.nonpool, old / 4096 ≠ first ∧ old / 4096 ≠ second) : alloc.Supplied 2 := by
  refine ⟨[first, second], rest, answers, rfl, by simpa using different, ?_⟩
  intro page isPage old isOld
  rcases List.mem_pair.mp isPage with rfl | rfl
  · exact (new old isOld).1
  · exact (new old isOld).2

/-- A page with all permissions: a store to it hits the entry that a load has installed, and is
answered as with an empty software TLB. -/
theorem swtlb_transparent_loadStore :
    (firstNpriv (oneLeafWorld 0xDF) (sload false) .load).swtlb.active = [1024] ∧
    ∃ a, answers (nestedXlateGstage (oneLeafWorld 0xDF)
        ⟨firstNpriv (oneLeafWorld 0xDF) (sload false) .load, sstore⟩ 0x2345 .store) = some a ∧
      answers (nestedXlateGstage (oneLeafWorld 0xDF) ⟨freshNpriv, sstore⟩ 0x2345 .store) =
        some a := by
  have start : ((translationSystem sv39x4 (oneLeafWorld 0xDF)).restrict
      TlbCall.InReach).Reachable freshNpriv := .start (freshNpriv_init (oneLeafWorld 0xDF))
  have freshReach : ∀ guestGpa < 2 ^ 41, InReach sv39x4 freshNpriv guestGpa := fun _ inRange =>
    ⟨inRange, supplied_two 2 3 rfl (by decide) (by decide)⟩
  have loaded := start.step (.translate (sload false) 0x1000 .load)
    ⟨freshReach 0x1000 (by decide), firstNpriv_step rfl (by decide +kernel)⟩
  have supply : (firstNpriv (oneLeafWorld 0xDF) (sload false) .load).pgtbl.alloc.supply =
      [some 3, some 4, some 5] := by decide +kernel
  have loadedReach : InReach sv39x4 (firstNpriv (oneLeafWorld 0xDF) (sload false) .load) 0x2345 :=
    ⟨by decide, supplied_two 3 4 supply (by decide) (by decide +kernel)⟩
  refine ⟨by decide +kernel, ?_⟩
  exact swtlb_transparent rfl (by decide) (oneLeafWorld_regular 0xDF) loaded ⟨start, rfl⟩ rfl
    loadedReach (freshReach 0x2345 (by decide))
    (plainAccess_of_setting rfl (by decide) sv39x4 (oneLeafWorld 0xDF) 0x2345)

/-- An execute-only page: a fetch fills the software TLB, and the load with MXR that is answered
with an empty software TLB is refused. -/
theorem swtlb_hit_refuses :
    (translationSystem sv39x4 (oneLeafWorld 0x59)).init freshNpriv ∧
    (translationSystem sv39x4 (oneLeafWorld 0x59)).step freshNpriv (.translate sfetch 0x1000 .fetch)
      (firstNpriv (oneLeafWorld 0x59) sfetch .fetch) ∧
    answers (nestedXlateGstage (oneLeafWorld 0x59) ⟨freshNpriv, sload true⟩ 0x1000 .load) =
      some (.host 0x90200000 0x200000) ∧
    answers (nestedXlateGstage (oneLeafWorld 0x59)
        ⟨firstNpriv (oneLeafWorld 0x59) sfetch .fetch, sload true⟩ 0x1000 .load) =
      some (.fails .efault (some (.guestPageFault .load)) 0x400) :=
  ⟨freshNpriv_init _, firstNpriv_step rfl (by decide +kernel), by decide +kernel,
    by decide +kernel⟩

end Hits

/-! ## The permissions of a two-stage access

An access of a nested guest consults pages in a fixed order: for each table of the
VS-stage the G-stage page that maps it, then the VS-stage page of the address, and
at last the G-stage page of the access itself. -/

open Setting

/-! ## The pages on the way -/

/-- An address that the G-stage translates, and the page that its tables have for it. -/
structure Visit where
  gpa : Nat
  page : Page

/-- One step of the way, as it is found when nothing is refused before. -/
inductive Step where
  /-- A table of the VS-stage is read. -/
  | read (visit : Visit)
  /-- The VS-stage has no page for the address. -/
  | noPage
  /-- The VS-stage is off. -/
  | bare
  /-- The VS-stage has a page for the address. -/
  | leaf (page : Page)
  /-- The access itself. -/
  | access (visit : Visit)
  /-- The G-stage has no page for the address, or there is no memory behind it. -/
  | noGuestPage (gpa : Nat)

def Step.cause (originalAccess : Access) : Step → Cause
  | .noPage | .bare | .leaf _ => .pageFault originalAccess
  | .read _ | .access _ | .noGuestPage _ => .guestPageFault originalAccess

namespace World

variable (stage1 config : Config) (world : World) (access : Access) (guestGva : Nat)

/-- The part of a guest page around an address that lies in one block of memory of the right kind
for the access. -/
def memoryAt (visit : Visit) : Option HostBlock :=
  ((world.hostBlock (visit.page.oa ||| visit.gpa % visit.page.sz)).filter
    fun host => nestedNostagePermCheck access host.regFlags).map
      (fitHost visit.page (visit.page.oa ||| visit.gpa % visit.page.sz))

def accessSteps (gpa : Nat) : List Step :=
  match world.guestPage config gpa with
  | none => [.noGuestPage gpa]
  | some page =>
    .access ⟨gpa, page⟩ ::
      if (world.memoryAt access ⟨gpa, page⟩).isSome then [] else [.noGuestPage gpa]

def entrySteps (level : Nat) (below : Nat → List Step) : Option Nat → List Step
  | none => [.noPage]
  | some pte =>
    if !pteValid pte then [.noPage]
    else if pteIsTable pte then below (pteAddr pte)
    else
      let page := pageAt level guestGva pte
      .leaf page :: world.accessSteps config access (page.oa ||| guestGva % page.sz)

def tableSteps (level : Nat) (below : Nat → List Step) (table : Nat) : List Step :=
  match world.guestPage config table with
  | none => [.noGuestPage table]
  | some page =>
    .read ⟨table, page⟩ ::
      match world.memoryAt .load ⟨table, page⟩ with
      | none => [.noGuestPage table]
      | some host =>
        world.entrySteps config access guestGva level below (world.memory
          (Word.add (host.pa ||| table % host.sz) (stage1.levelIndex level guestGva * 8)))

def walkSteps : Nat → Nat → List Step
  | 0 => world.tableSteps stage1 config access guestGva 0 fun _ => [.noPage]
  | level + 1 =>
    world.tableSteps stage1 config access guestGva (level + 1) (walkSteps level)

def steps : List Step :=
  if atpMode world.vsatp = 0 then .bare :: world.accessSteps config access guestGva
  else
    match modeLevel (atpMode world.vsatp) with
    | none => [.noPage]
    | some level =>
      world.walkSteps stage1 config access guestGva level (atpTable world.vsatp)

def Supported : Prop :=
  (atpMode world.hgatp = 0 ∨ ∃ level ≤ config.start, modeLevel (atpMode world.hgatp) = some level) ∧
  (atpMode world.vsatp = 0 ∨ ∃ level ≤ stage1.start, modeLevel (atpMode world.vsatp) = some level)

end World

/-- The address of a step is one that the shadow page table tells apart from all others. -/
def Step.InRange (config : Config) : Step → Prop
  | .read visit | .access visit => visit.gpa < config.span config.start
  | .noGuestPage gpa => gpa < config.span config.start
  | .noPage | .bare | .leaf _ => True

instance (config : Config) : DecidablePred (Step.InRange config)
  | .read visit | .access visit => inferInstanceAs (Decidable (visit.gpa < config.span config.start))
  | .noGuestPage gpa => inferInstanceAs (Decidable (gpa < config.span config.start))
  | .noPage | .bare | .leaf _ => isTrue trivial

/-! ## The privileged specification -/

inductive Verdict where
  | allowed
  | raises (cause : Cause)
  deriving DecidableEq, Repr

/-- A leaf that can be used: a large page is aligned, and a page that can be written can be read. -/
def wellFormedLeaf (page : Page) : Bool :=
  page.sz ∣ page.oa && (!page.flags.write || page.flags.read)

variable (setting : Setting) (access : Access)

/-- The permission that the access itself needs. Bits A and D are not set by the translation:
where they are clear, the access faults. -/
def Setting.leafPermits (page : Page) : Bool :=
  wellFormedLeaf page && page.flags.accessed &&
    match access with
    | .fetch => page.flags.execute
    | .load =>
      if setting.hlvx then page.flags.execute
      else page.flags.read || (setting.mxr && page.flags.execute)
    | .store => page.flags.write && page.flags.dirty

def Setting.privilegePermits (flags : PgFlags) : Bool :=
  if flags.user then !setting.smode || (setting.sum && access ≠ .fetch) else setting.smode

/-- The specification's decision. Tables are read with read permission, whatever the access. -/
def Step.allowed (_ : List Step) : Step → Bool
  | .read visit =>
    visit.page.flags.user && wellFormedLeaf visit.page && visit.page.flags.accessed &&
      visit.page.flags.read
  | .bare => true
  | .leaf page => setting.privilegePermits access page.flags && setting.leafPermits access page
  | .access visit => visit.page.flags.user && setting.leafPermits access visit.page
  | .noPage | .noGuestPage _ => false

/-- What the specification says of an access that takes the given steps. -/
def Setting.specVerdict (steps : List Step) : Verdict :=
  judge (Step.allowed setting access) (fun step => .raises (step.cause setting.originalAccess))
    .allowed [] steps

/-! ## The code -/

/-- The step has left an entry for the address in the software TLB. -/
def Step.covers (world : World) (gpa : Nat) : Step → Bool
  | .read visit => world.covers visit.page visit.gpa gpa
  | _ => false

variable (world : World)

/-- The G-stage check of the code. When an earlier step has left an entry for the address, the
shadow page has to grant the access as well. -/
def Setting.gstageAdmits (setting : Setting) (access : Access)
    (earlier : List Step) (visit : Visit) : Bool :=
  !setting.gstagePermFault access visit.page.flags &&
    (shadowPermits access visit.page.flags || !earlier.any (Step.covers world visit.gpa))

def Step.admitted (setting : Setting) (access : Access) (earlier : List Step) : Step → Bool
  | .read visit => setting.gstageAdmits world .load earlier visit
  | .bare => !setting.vsstagePermFault access (offPage 0).flags
  | .leaf page => !setting.vsstagePermFault access page.flags
  | .access visit => setting.gstageAdmits world access earlier visit
  | .noPage | .noGuestPage _ => false

/-- Where the code and the specification part on the way, the one that goes on is refused later
with the same cause. -/
def Setting.Meets (setting : Setting) (access : Access) (steps : List Step) : Prop :=
  SameEnd (Step.admitted world setting access) (Step.allowed setting access)
    (fun step => Verdict.raises (step.cause setting.originalAccess)) .allowed [] steps

def Step.Aligned : Step → Prop
  | .read visit | .access visit => visit.page.sz ∣ visit.page.oa
  | .leaf page => page.sz ∣ page.oa
  | .noPage | .bare | .noGuestPage _ => True

instance : DecidablePred Step.Aligned
  | .read visit | .access visit => inferInstanceAs (Decidable (visit.page.sz ∣ visit.page.oa))
  | .leaf page => inferInstanceAs (Decidable (page.sz ∣ page.oa))
  | .noPage | .bare | .noGuestPage _ => isTrue trivial

section Plain

variable {setting : Setting} {access : Access} (noMxr : setting.mxr = false)
  (noHlvx : setting.hlvx = false)

include noMxr noHlvx

theorem Setting.permFault_plain (noFetch : access ≠ .fetch) {page : Page}
    (aligned : page.sz ∣ page.oa) :
    (!setting.permFault access page.flags) = setting.leafPermits access page ∧
      (setting.leafPermits access page → shadowPermits access page.flags) := by
  have isWellFormed : wellFormedLeaf page = (!page.flags.write || page.flags.read) := by
    simp only [wellFormedLeaf, aligned, decide_true, Bool.true_and]
  unfold permFault leafPermits shadowPermits
  rw [isWellFormed, noMxr, noHlvx]
  cases access with
  | fetch => exact absurd rfl noFetch
  | load =>
    cases page.flags.read <;> cases page.flags.accessed <;> simp
  | store =>
    cases page.flags.read <;> cases page.flags.accessed <;> cases page.flags.write <;> simp

theorem Setting.gstageAdmits_plain (noFetch : access ≠ .fetch) (world : World)
    (earlier : List Step) {visit : Visit} (aligned : visit.page.sz ∣ visit.page.oa) :
    setting.gstageAdmits world access earlier visit =
      (visit.page.flags.user && setting.leafPermits access visit.page) := by
  obtain ⟨same, granted⟩ := setting.permFault_plain noMxr noHlvx noFetch aligned
  unfold gstageAdmits gstagePermFault
  rw [Bool.not_or, Bool.not_not, same]
  cases permits : setting.leafPermits access visit.page with
  | false => simp
  | true => simp [granted permits]

theorem Step.admitted_eq_allowed (user : setting.smode = false) (noFetch : access ≠ .fetch)
    (world : World) {step : Step} (aligned : step.Aligned) (earlier : List Step) :
    step.admitted world setting access earlier = step.allowed setting access earlier := by
  cases step with
  | noPage => rfl
  | noGuestPage gpa => rfl
  | bare =>
    cases access with
    | fetch => exact absurd rfl noFetch
    | load | store =>
      simp [Step.admitted, Step.allowed, vsstagePermFault, permFault, offPage, user, noHlvx]
  | access visit =>
    exact setting.gstageAdmits_plain noMxr noHlvx noFetch world earlier aligned
  | read visit =>
    have isLoad : Access.load ≠ .fetch := by decide
    have admits := setting.gstageAdmits_plain noMxr noHlvx isLoad world earlier aligned
    simp only [Step.admitted, Step.allowed, admits, leafPermits, noMxr, noHlvx,
      Bool.false_eq_true, if_false, Bool.false_and, Bool.or_false, Bool.and_assoc]
  | leaf page =>
    obtain ⟨same, _⟩ := setting.permFault_plain noMxr noHlvx noFetch aligned
    simp only [Step.admitted, Step.allowed, vsstagePermFault, privilegePermits, user]
    rw [Bool.not_or, same]
    cases page.flags.user <;> simp

theorem Setting.meets_plain (user : setting.smode = false) (noFetch : access ≠ .fetch)
    (world : World) {steps : List Step} (aligned : ∀ step ∈ steps, step.Aligned) :
    setting.Meets world access steps :=
  SameEnd.of_alike fun _ mem =>
    Step.admitted_eq_allowed noMxr noHlvx user noFetch world (aligned _ mem)

end Plain

end Xvisor.Nested
