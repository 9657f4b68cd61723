import Xvisor.Nested.Hits

/-!
# Runs of a guest hypervisor

The shadow pages are exactly the leaves of the shadow page table, and the host does not panic, as
long as the guest hypervisor is careful.
-/

namespace Xvisor.Nested

open Lib Mmu Guest BitVec Nat List

/-! ## Writes to hgatp -/

def hgatpModeMask : BitVec 64 := 0xF000000000000000
def hgatpVmidMask : BitVec 64 := 0x03FFF00000000000
def hgatpPpnMask : BitVec 64 := 0x00000FFFFFFFFFFF

/-- Only Sv39x4 can be chosen, and only if the host has a G-stage of that depth. -/
def hgatpNewVal (config : Config) (newVal wrMask : BitVec 64) : BitVec 64 :=
  if wrMask &&& hgatpModeMask ≠ 0 then
    let mode : BitVec 64 :=
      if (newVal &&& hgatpModeMask) >>> 60 = 8 ∧ 2 ≤ config.start then 8 else 0
    (newVal &&& ~~~hgatpModeMask) ||| (mode <<< 60 &&& hgatpModeMask)
  else newVal

def hgatpNukes (old newVal wrMask : BitVec 64) : Bool :=
  (wrMask &&& hgatpModeMask ≠ 0 ∧ (newVal ^^^ old) &&& hgatpModeMask ≠ 0) ∨
    (wrMask &&& hgatpVmidMask ≠ 0 ∧ (newVal ^^^ old) &&& hgatpVmidMask ≠ 0)

structure NestedState (config : Config) where
  npriv : Npriv config
  world : World

/-- `__cpu_vcpu_nested_hext_csr_rmw` for hgatp. -/
def hextCsrRmwHgatp {config : Config} (s : NestedState config) (newVal wrMask : BitVec 64) :
    Option (NestedState config) :=
  let newVal := hgatpNewVal config newVal wrMask
  let mask := wrMask &&& (hgatpModeMask ||| hgatpVmidMask ||| hgatpPpnMask)
  let world := { s.world with hgatp := (s.world.hgatp &&& ~~~mask) ||| (newVal &&& mask) }
  if hgatpNukes s.world.hgatp newVal wrMask then
    (cpuVcpuNestedSwtlbFlush s.npriv 0 0).map fun npriv => ⟨npriv, world⟩
  else some ⟨s.npriv, world⟩

/-! ## Runs -/

inductive NestedCall where
  | translate (setting : Setting) (guestGpa : Nat) (access : Access)
  | rewrite (memory : Nat → Option Nat)
  | writeHgatp (newVal wrMask : BitVec 64)
  | flush (guestGpa size : Nat)
  | others (alloc : Alloc)

inductive Machine (config : Config) where
  | running (s : NestedState config)
  | panicked

namespace Machine

variable {config : Config}

def ofOption : Option (NestedState config) → Machine config
  | some s => running s
  | none => panicked

end Machine

/-- A guest hypervisor with the given address space, from the reset of its VCPU on. A translation
that goes round an alias for ever has no next state. -/
def nestedSystem (config : Config) (aspace : Aspace) (fuel : Nat) :
    System (Machine config) NestedCall where
  init m := ∃ s, m = .running s ∧ s.world.aspace = aspace ∧ s.world.fuel = fuel ∧
    s.world.hgatp = 0 ∧ (∃ entries, s.npriv.swtlb = nestedSwtlbInit entries) ∧
    (mmuSystem config).init s.npriv.pgtbl
  step m call m' := ∃ s, m = .running s ∧
      match call with
      | .translate setting guestGpa access =>
        match nestedXlateGstage s.world ⟨s.npriv, nestedXlateContextInit setting⟩ guestGpa access with
        | .ok (st, _) => m' = .running { s with npriv := st.npriv }
        | .error .panics => m' = .panicked
        | .error .hangs => False
      | .rewrite memory => m' = .running { s with world := { s.world with memory := memory } }
      | .writeHgatp newVal wrMask => m' = .ofOption (hextCsrRmwHgatp s newVal wrMask)
      | .flush guestGpa size =>
        m' = .ofOption ((cpuVcpuNestedSwtlbFlush s.npriv guestGpa size).map
          fun npriv => { s with npriv := npriv })
      | .others alloc => AllocOk config alloc s.npriv.pgtbl.root.descendants ∧
          m' = .running { s with
            npriv := { s.npriv with pgtbl := { s.npriv.pgtbl with alloc := alloc } } }

variable {config : Config} {aspace : Aspace} {fuel : Nat}

/-- Before a translation the guest hypervisor has fenced what it changed, the address is one that
the shadow page table tells apart from all others, and the host has pages for its tables. -/
def Careful (m : Machine config) (call : NestedCall) : Prop :=
  match m, call with
  | .running s, .translate _ guestGpa _ =>
    InReach config s.npriv guestGpa ∧ AllFenced s.world s.npriv
  | _, _ => True

/-! ## What holds in every state -/

/-- Each entry is on exactly one list, the shadow pages of the entries in use have disjoint ranges,
and they are exactly the leaves of the shadow page table. -/
structure InOrder (s : Npriv config) : Prop where
  lists : (s.swtlb.itlb.activeList ++ s.swtlb.itlb.freeList ++
    (s.swtlb.dtlb.activeList ++ s.swtlb.dtlb.freeList)).Perm (List.range (2 * xtlbMaxEntry))
  disjoint : ∀ a ∈ s.swtlb.active, ∀ b ∈ s.swtlb.active, a ≠ b →
    (s.swtlb.entries a).shadowPage.ia + (s.swtlb.entries a).shadowPage.sz ≤
        (s.swtlb.entries b).shadowPage.ia ∨
      (s.swtlb.entries b).shadowPage.ia + (s.swtlb.entries b).shadowPage.sz ≤
        (s.swtlb.entries a).shadowPage.ia
  leaves : ∀ gpa < config.span config.start, ∀ page, s.pgtbl.getPage gpa = some page ↔
    ∃ slot ∈ s.swtlb.active, (s.swtlb.entries slot).shadowPage.ia ≤ gpa ∧
      gpa < (s.swtlb.entries slot).shadowPage.ia + (s.swtlb.entries slot).shadowPage.sz ∧
      page = (s.swtlb.entries slot).shadowPage

theorem slotsOf_append : slotsOf true ++ slotsOf false = List.range (2 * xtlbMaxEntry) := by
  have halves : range' 0 xtlbMaxEntry ++ range' (0 + xtlbMaxEntry) xtlbMaxEntry =
      range' 0 (xtlbMaxEntry + xtlbMaxEntry) := range'_append_1
  rw [Nat.zero_add, ← Nat.two_mul] at halves
  simp only [slotsOf, range_eq_range', reduceIte]
  exact halves

variable {world : World}

theorem hostBlock_granted {guestHpa : Nat} {host : HostBlock}
    (found : world.hostBlock guestHpa = some host) :
    ∃ level ≤ 2, ∃ mapping, world.aspace.granted world.fuel guestHpa level = some mapping ∧
      host = hostBlockOf level mapping := by
  unfold World.hostBlock at found
  split at found
  · cases found
  · next small isSmall =>
    split at found
    · cases found
      exact ⟨0, by omega, small, isSmall, rfl⟩
    · next middle isMiddle =>
      split at found
      · cases found
        exact ⟨1, by omega, middle, isMiddle, rfl⟩
      · next large isLarge =>
        cases found
        exact ⟨2, by omega, large, isLarge, rfl⟩

theorem Filled.stored {e : SwtlbEntry} {gpa : Nat} (aligned : Aligned world.aspace world.fuel)
    (filled : Filled world e) (placed : Placed config e.shadowPage) (shadows : e.shadows gpa) :
    e.shadowPage.stored gpa = e.shadowPage := by
  have base : gpa / e.shadowPage.sz * e.shadowPage.sz = e.shadowPage.ia := by
    rw [shadows.same_block placed.aligned, Nat.div_mul_cancel placed.aligned]
  have address : e.shadowPage.sz ∣ e.shadowPage.oa ∧ e.shadowPage.oa < 2 ^ 56 := by
    obtain ⟨host, found, isShadow, _⟩ := filled.host shadows
    obtain ⟨level, isLevel, mapping, isGranted, rfl⟩ := hostBlock_granted found
    obtain ⟨divides, small⟩ := aligned _ level mapping isLevel isGranted
    rw [isShadow]
    rcases lt_or_ge (hostBlockOf level mapping).sz e.page.sz with larger | fits
    · rw [fitHost_of_lt larger]
      exact ⟨divides, small⟩
    · rw [fitHost_of_le fits]
      refine ⟨dvd_mul_left _ _, (div_mul_le_self _ _).trans_lt (or_lt_two_pow small ?_)⟩
      have blockSmall : blockSize level ≤ 2 ^ 56 := by
        apply Nat.pow_le_pow_right (by omega)
        unfold Mmu.blockShift
        omega
      exact (mod_lt _ (Mmu.blockSize_pos level)).trans_le blockSmall
  have valid := placed.valid
  unfold Page.stored
  rw [base, Nat.div_mul_cancel address.1, Nat.mod_eq_of_lt address.2, ← valid]

theorem Sound.inOrder (isStage2 : config.stage = .stage2) {s : Npriv config} (sound : Sound world s)
    (aligned : Aligned world.aspace world.fuel) : InOrder s := by
  have range : ∀ slot ∈ s.swtlb.active, ∀ gpa, (s.swtlb.entries slot).shadows gpa ↔
      (s.swtlb.entries slot).shadowPage.ia ≤ gpa ∧
        gpa < (s.swtlb.entries slot).shadowPage.ia + (s.swtlb.entries slot).shadowPage.sz := by
    intro slot isActive gpa
    have inside := (sound.shadowed.placed slot isActive).inside
    have top := span_lt isStage2
    rw [SwtlbEntry.shadows, Word.add_of_lt (by omega)]
  refine ⟨?_, ?_, ?_⟩
  · have halves := (sound.lists true).append (sound.lists false)
    rw [slotsOf_append] at halves
    exact halves
  · intro a isA b isB different
    by_contra overlap
    have posA := (sound.shadowed.placed a isA).size_pos
    have posB := (sound.shadowed.placed b isB).size_pos
    have common : ∀ gpa, ¬ ((s.swtlb.entries a).shadows gpa ∧ (s.swtlb.entries b).shadows gpa) :=
      fun gpa both => different (sound.shadowed.disjoint a isA b isB gpa both.1 both.2)
    have atMax := common (max (s.swtlb.entries a).shadowPage.ia (s.swtlb.entries b).shadowPage.ia)
    rw [range a isA, range b isB] at atMax
    omega
  · intro gpa inRange page
    rw [sound.shadowed.refines.getPage, sound.shadowed.leaves, mod_eq_of_lt inRange]
    constructor
    · rintro ⟨slot, isActive, shadows, rfl⟩
      obtain ⟨low, high⟩ := (range slot isActive gpa).mp shadows
      exact ⟨slot, isActive, low, high, (sound.filled slot isActive).stored aligned
        (sound.shadowed.placed slot isActive) shadows⟩
    · rintro ⟨slot, isActive, low, high, rfl⟩
      have shadows := (range slot isActive gpa).mpr ⟨low, high⟩
      exact ⟨slot, isActive, shadows, ((sound.filled slot isActive).stored aligned
        (sound.shadowed.placed slot isActive) shadows).symm⟩

theorem Sound.world_congr {world' : World} {s : Npriv config} (sound : Sound world s)
    (sameAspace : world'.aspace = world.aspace) (sameFuel : world'.fuel = world.fuel) :
    Sound world' s where
  lists := sound.lists
  shadowed := sound.shadowed
  filled := by
    intro slot isActive
    obtain ⟨shadow, memory⟩ := sound.filled slot isActive
    refine ⟨?_, memory⟩
    intro gpa shadows
    rw [← shadow gpa shadows]
    simp only [World.fill, World.hostBlock, sameAspace, sameFuel]

def RunsSoundly (aspace : Aspace) (fuel : Nat) (m : Machine config) : Prop :=
  ∃ s, m = .running s ∧ s.world.aspace = aspace ∧ s.world.fuel = fuel ∧ Sound s.world s.npriv

theorem hextCsrRmwHgatp_sound (isStage2 : config.stage = .stage2) {s : NestedState config}
    (sound : Sound s.world s.npriv) (newVal wrMask : BitVec 64) :
    ∃ s', hextCsrRmwHgatp s newVal wrMask = some s' ∧ s'.world.aspace = s.world.aspace ∧
      s'.world.fuel = s.world.fuel ∧ Sound s'.world s'.npriv := by
  unfold hextCsrRmwHgatp
  dsimp only
  split
  · obtain ⟨npriv, flushed, sound⟩ := sound.cpuVcpuNestedSwtlbFlush isStage2 0 0
    rw [flushed]
    exact ⟨_, rfl, rfl, rfl, sound.world_congr rfl rfl⟩
  · exact ⟨_, rfl, rfl, rfl, sound.world_congr rfl rfl⟩

theorem nestedStep_sound (isStage2 : config.stage = .stage2) (isStart : 2 ≤ config.start)
    (regular : Regular aspace fuel) {m m' : Machine config} {call : NestedCall}
    (runs : RunsSoundly aspace fuel m) (careful : Careful m call)
    (taken : (nestedSystem config aspace fuel).step m call m') : RunsSoundly aspace fuel m' := by
  obtain ⟨s, rfl, isAspace, isFuel, sound⟩ := runs
  obtain ⟨_, same, taken⟩ := taken
  cases same
  cases call with
  | translate setting guestGpa access =>
    obtain ⟨inReach, fenced⟩ := careful
    have regular : Regular s.world.aspace s.world.fuel := by
      rw [isAspace, isFuel]
      exact regular
    have noCause : (nestedXlateContextInit setting).scause = none := rfl
    obtain ⟨st, result, translates, translated⟩ := nestedXlateGstage_translated isStage2 isStart
      regular sound fenced noCause inReach.1 inReach.2 access
    simp only [translates] at taken
    exact ⟨_, taken, isAspace, isFuel, translated.sound⟩
  | rewrite memory => exact ⟨_, taken, isAspace, isFuel, sound.world_congr rfl rfl⟩
  | writeHgatp newVal wrMask =>
    obtain ⟨s', written, isAspace', isFuel', sound'⟩ :=
      hextCsrRmwHgatp_sound isStage2 sound newVal wrMask
    simp only [written] at taken
    exact ⟨s', taken, isAspace'.trans isAspace, isFuel'.trans isFuel, sound'⟩
  | flush guestGpa size =>
    obtain ⟨npriv, flushed, sound'⟩ := sound.cpuVcpuNestedSwtlbFlush isStage2 guestGpa size
    simp only [flushed] at taken
    exact ⟨_, taken, isAspace, isFuel, sound'⟩
  | others alloc =>
    obtain ⟨allocOk, taken⟩ := taken
    exact ⟨_, taken, isAspace, isFuel, sound.others allocOk⟩

/-- A guest hypervisor that fences its changes and stays within reach does not panic the host: in
every state of its runs the software TLB and the shadow page table are in order. -/
theorem nestedRun_inOrder (isStage2 : config.stage = .stage2) (isStart : 2 ≤ config.start)
    (regular : Regular aspace fuel) (aligned : Aligned aspace fuel) {m : Machine config}
    (reached : ((nestedSystem config aspace fuel).restrict Careful).Reachable m) :
    ∃ s, m = .running s ∧ InOrder s.npriv := by
  have runs : RunsSoundly aspace fuel m := by
    apply reached.invariant (RunsSoundly aspace fuel)
    · rintro m ⟨s, rfl, isAspace, isFuel, _, ⟨entries, isInit⟩, tree⟩
      exact ⟨s, rfl, isAspace, isFuel, sound_init isInit tree⟩
    · intro m call m' runs taken
      exact nestedStep_sound isStage2 isStart regular runs taken.1 taken.2
  obtain ⟨s, isRunning, isAspace, isFuel, sound⟩ := runs
  rw [← isAspace, ← isFuel] at aligned
  exact ⟨s, isRunning, sound.inOrder isStage2 aligned⟩

/-! ## Runs that panic -/

theorem oneLeafWorld_aligned (bits : Nat) :
    Aligned (oneLeafWorld bits).aspace (oneLeafWorld bits).fuel := by
  intro addr level mapping isLevel isGranted
  rw [granted_plain (oneLeafWorld_plain bits), Option.bind_eq_some_iff] at isGranted
  obtain ⟨reg, found, covers⟩ := isGranted
  obtain ⟨mem, contains, _⟩ := Aspace.descend_some found
  obtain rfl := oneLeafWorld_onlyRegion bits mem
  have mapped := Guest.twoMegabyteGuest_wellFormed.mapped _ mem
  obtain ⟨q, isMultiple⟩ : blockSize level ∣ mapMask level addr := dvd_mul_left _ _
  generalize mapMask level addr = base at *
  have inside : base - 0x80000000 < 0x200000 := (contains.bounds mapped.size).2.2
  have address := Guest.Region.findMapping_eq mapped contains
  have offset : (Guest.twoMegabyteRegion 0x90200000).mapOffset base = base - 0x80000000 :=
    mod_eq_of_lt inside
  have index : (Guest.twoMegabyteRegion 0x90200000).mapIndex base = 0 := div_eq_of_lt inside
  have length : (Guest.twoMegabyteRegion 0x90200000).mapLength 0 = 0x200000 := by decide
  have host : ((Guest.twoMegabyteRegion 0x90200000).maps.getD 0 ⟨0, false⟩).hphysAddr =
      0x90200000 := rfl
  rw [index, offset, length, host, Word.add_of_lt (by omega)] at address
  rw [blockMapping, address] at covers
  split at covers
  · next enough =>
    have isHost : mapping.hphysAddr = 0x90200000 + (base - 0x80000000) := by
      rw [← Option.some.inj covers]
    have block : blockSize level = 2 ^ 12 ∨ blockSize level = 2 ^ 21 := by
      obtain rfl | rfl | rfl : level = 0 ∨ level = 1 ∨ level = 2 := by omega
      · exact .inl rfl
      · exact .inr rfl
      · have tooLarge : blockSize 2 = 2 ^ 30 := rfl
        omega
    rcases block with block | block
    all_goals
      rw [block] at isMultiple ⊢
      omega
  · cases covers

variable (memory : Nat → Option Nat)

/-- The VCPU after its reset, with the given words in the memory of the one-leaf world. -/
def resetMachine : NestedState sv39x4 :=
  ⟨freshNpriv, { oneLeafWorld 0 with memory := memory, hgatp := 0 }⟩

theorem resetMachine_init :
    (nestedSystem sv39x4 (oneLeafWorld 0).aspace 0).init (.running (resetMachine memory)) :=
  ⟨_, rfl, rfl, rfl, rfl, (freshNpriv_init (oneLeafWorld 0)).1, (freshNpriv_init (oneLeafWorld 0)).2⟩

def gstageOn : NestedCall := .writeHgatp 0x8000000000080000 (allOnes 64)

theorem resetMachine_gstageOn :
    (nestedSystem sv39x4 (oneLeafWorld 0).aspace 0).step (.running (resetMachine memory)) gstageOn
      (.running ⟨freshNpriv, { oneLeafWorld 0 with memory := memory }⟩) := by
  have newVal : hgatpNewVal sv39x4 0x8000000000080000 (allOnes 64) =
      0x8000000000080000 := by decide
  have nukes : hgatpNukes 0 0x8000000000080000 (allOnes 64) = true := by decide
  have flushed : cpuVcpuNestedSwtlbFlush freshNpriv 0 0 = some freshNpriv := by
    simp [cpuVcpuNestedSwtlbFlush, freshNpriv, nestedSwtlbInit, Swtlb.flushed, Swtlb.flushXtlb,
      Swtlb.xtlb, unmapShadows]
  have written : hextCsrRmwHgatp (resetMachine memory) 0x8000000000080000 (allOnes 64) =
      some ⟨freshNpriv, { oneLeafWorld 0 with memory := memory }⟩ := by
    simp only [hextCsrRmwHgatp, newVal, resetMachine, nukes, if_true, flushed, Option.map_some]
    rfl
  refine ⟨_, rfl, ?_⟩
  show _ = Machine.ofOption (hextCsrRmwHgatp (resetMachine memory) _ _)
  rw [written]
  rfl

section Steps

variable {s : NestedState config} {setting : Setting} {guestGpa : Nat} {access : Access}

theorem nestedStep_translate {npriv : Npriv config}
    (returns : nprivAfter (nestedXlateGstage s.world ⟨s.npriv, nestedXlateContextInit setting⟩
      guestGpa access) = some npriv) :
    (nestedSystem config aspace fuel).step (.running s) (.translate setting guestGpa access)
      (.running { s with npriv := npriv }) := by
  obtain ⟨st, result, translates, rfl⟩ := nprivAfter_some returns
  refine ⟨s, rfl, ?_⟩
  simp only [translates]

def panics (call : Call (XlateState config) Unit) : Bool :=
  match call with
  | .error .panics => true
  | _ => false

theorem nestedStep_panics
    (isPanic : panics (nestedXlateGstage s.world ⟨s.npriv, nestedXlateContextInit setting⟩
      guestGpa access)) :
    (nestedSystem config aspace fuel).step (.running s) (.translate setting guestGpa access)
      .panicked := by
  refine ⟨s, rfl, ?_⟩
  unfold panics at isPanic
  split at isPanic
  · next stops => simp only [stops]
  · cases isPanic

end Steps

def smodeLoad : Setting := ⟨.load, true, false, false, false⟩

/-- The guest hypervisor turns its G-stage on and loads through its one leaf. -/
theorem nestedRun_inOrder_oneLeaf :
    ∃ s : NestedState sv39x4, Machine.running s =
        .running ⟨firstNpriv (oneLeafWorld 0xDF) (sload false) .load, oneLeafWorld 0xDF⟩ ∧
      InOrder s.npriv := by
  have start : ((nestedSystem sv39x4 (oneLeafWorld 0).aspace 0).restrict Careful).Reachable
      (.running (resetMachine (oneLeafWorld 0xDF).memory)) := .start (resetMachine_init _)
  have on := start.step gstageOn ⟨trivial, resetMachine_gstageOn _⟩
  have careful : Careful (.running ⟨freshNpriv, oneLeafWorld 0xDF⟩)
      (.translate smodeLoad 0x1000 .load) :=
    ⟨⟨by decide, supplied_two 2 3 rfl (by decide) (by decide)⟩, nofun⟩
  have loaded := on.step (.translate smodeLoad 0x1000 .load) ⟨careful, nestedStep_translate
    (firstNpriv_some (by decide +kernel))⟩
  obtain ⟨s, isRunning, inOrder⟩ := nestedRun_inOrder rfl (by decide) (oneLeafWorld_regular 0)
    (oneLeafWorld_aligned 0) loaded
  exact ⟨s, isRunning.symm, inOrder⟩

theorem nestedRun_firstLoad (returns : (nprivAfter (nestedXlateGstage { oneLeafWorld 0 with memory := memory }
      ⟨freshNpriv, sload false⟩ 0x1000 .load)).isSome) :
    (nestedSystem sv39x4 (oneLeafWorld 0).aspace 0).Reachable
      (.running ⟨firstNpriv { oneLeafWorld 0 with memory := memory } (sload false) .load,
        { oneLeafWorld 0 with memory := memory }⟩) := by
  have start : (nestedSystem sv39x4 (oneLeafWorld 0).aspace 0).Reachable
      (.running (resetMachine memory)) := .start (resetMachine_init memory)
  have on := start.step gstageOn (resetMachine_gstageOn memory)
  exact on.step (.translate smodeLoad 0x1000 .load) (nestedStep_translate
    (firstNpriv_some returns))

def threeLevelMemory (addr : Nat) : Option Nat :=
  if addr = 0x90200000 then some 0x20000401
  else if addr = 0x90201000 then some 0x20000801
  else if addr = 0x90202008 then some 0x20000CDF
  else some 0

/-- Two ways to panic the host. An address beyond those of the shadow page table has the same
entry of it as a lower one that is in use. And page tables that are replaced by one leaf without
a fence give a shadow page that covers the one in use. -/
theorem nestedRun_panics :
    (∃ s, (nestedSystem sv39x4 (oneLeafWorld 0).aspace 0).Reachable (.running s) ∧
      (nestedSystem sv39x4 (oneLeafWorld 0).aspace 0).step (.running s)
        (.translate smodeLoad (2 ^ 41 + 0x1000) .load) .panicked) ∧
    (∃ s s', (nestedSystem sv39x4 (oneLeafWorld 0).aspace 0).Reachable (.running s) ∧
      (nestedSystem sv39x4 (oneLeafWorld 0).aspace 0).step (.running s)
        (.rewrite (oneLeafWorld 0xDF).memory) (.running s') ∧
      (nestedSystem sv39x4 (oneLeafWorld 0).aspace 0).step (.running s')
        (.translate smodeLoad 0x2000 .load) .panicked) := by
  constructor
  · refine ⟨_, nestedRun_firstLoad (oneLeafWorld 0xDF).memory (by decide +kernel),
      nestedStep_panics ?_⟩
    decide +kernel
  · refine ⟨_, _, nestedRun_firstLoad threeLevelMemory (by decide +kernel), ⟨_, rfl, rfl⟩,
      nestedStep_panics ?_⟩
    decide +kernel

/-! ## What holds however a guest hypervisor runs

A guest hypervisor may change its page tables without a fence and use any address. -/

/-! ## The software TLB -/

def IsBlock (page : Page) : Prop :=
  ∃ level ≤ 4, ∃ addr < 2 ^ 64, page.sz = blockSize level ∧ page.ia = mapMask level addr

structure Tidy (s : Npriv config) : Prop where
  lists : ∀ itlb, (s.swtlb.xtlb itlb).slots.Perm (slotsOf itlb)
  installed : Installed s.swtlb.entries s.swtlb.active s.pgtbl
  pages : ∀ slot ∈ s.swtlb.active, IsBlock (s.swtlb.entries slot).page

section Tidy

variable {s s' : Npriv config} {itlb : Bool} {slot : Nat}

theorem Tidy.touch (tidy : Tidy s) (inUse : slot ∈ (s.swtlb.xtlb itlb).activeList) :
    Tidy (s.touch itlb slot) where
  lists := lists_setXtlb tidy.lists
    (((Xtlb.touch_perm inUse).append_right _).trans (tidy.lists itlb))
  installed := by
    rw [Npriv.touch, Swtlb.entries_setXtlb]
    exact tidy.installed.perm fun _ => mem_active_touch inUse
  pages := by
    intro other isActive
    rw [Npriv.touch, Swtlb.entries_setXtlb]
    exact tidy.pages other ((mem_active_touch inUse).mp isActive)

theorem Tidy.update {e : SwtlbEntry} (tidy : Tidy s) (leaf : e.shadowPage.flags.leaf)
    (aligned : e.shadowPage.sz ∣ e.shadowPage.ia) (isBlock : IsBlock e.page)
    (updated : nestedSwtlbUpdate s itlb e.page e.shadowPage e.shadowRegFlags = some s') :
    Tidy s' := by
  obtain ⟨slot, x, lists, kept, taken⟩ := takeSlot_cases tidy.lists itlb
  -- Whether the entry was free or in use, its page is not mapped any more.
  obtain ⟨pgtbl, taken, installed⟩ : ∃ pgtbl, takeSlot s (s.swtlb.xtlb itlb) = some (slot, x, pgtbl) ∧
      Installed s.swtlb.entries (s.swtlb.setXtlb itlb x).active pgtbl := by
    rcases taken with ⟨taken, same⟩ | ⟨inUse, taken, rest⟩
    · exact ⟨s.pgtbl, taken, tidy.installed.perm same⟩
    · obtain ⟨unmapped, installed⟩ := tidy.installed.unmapPage inUse
      exact ⟨_, taken _ (Prod.ext rfl unmapped), installed.perm rest⟩
  have unused := taken_unused tidy.lists lists
  simp only [nestedSwtlbUpdate, taken] at updated
  split at updated
  · next pgtbl' mapped =>
    cases updated
    refine ⟨lists_setXtlb tidy.lists lists, ?_, ?_⟩
    · rw [Swtlb.entries_setXtlb]
      exact (installed.mapPage leaf aligned unused mapped).perm mem_active_push
    · intro other mem
      rw [Swtlb.entries_setXtlb]
      show IsBlock (Function.update s.swtlb.entries slot e other).page
      exact (forall_mem_cons_update unused (P := fun _ (e : SwtlbEntry) => IsBlock e.page)).mpr
        ⟨isBlock, fun other wasActive => tidy.pages other (mem_active_of_taken kept wasActive)⟩
        other ((mem_active_push other).mp mem)
  · cases updated

theorem Tidy.flush (tidy : Tidy s) (gpa size : Nat) :
    ∃ s', cpuVcpuNestedSwtlbFlush s gpa size = some s' ∧ Tidy s' := by
  obtain ⟨s', flushed, lists, installed⟩ := flush_keeps (Installed s.swtlb.entries) tidy.lists
    (fun installed same => Installed.perm installed same)
    (fun installed inUse => ⟨_, Prod.ext rfl (Installed.unmapPage installed inUse).1,
      (Installed.unmapPage installed inUse).2⟩) tidy.installed gpa size
  have entries : s'.swtlb.entries = s.swtlb.entries := by
    rw [cpuVcpuNestedSwtlbFlush_some flushed]
  refine ⟨s', flushed, lists, entries ▸ installed, ?_⟩
  intro slot mem
  rw [entries]
  exact tidy.pages slot ((mem_active_flush flushed).mp mem).1

end Tidy

/-! ## Translations -/

section Translate

variable {world : World} {st st' : XlateState config} {xc xc' : XlateContext} {guestGpa : Nat}
  {access : Access}

theorem gstagePage_block {page : Page}
    (found : gstagePage config world xc guestGpa = .ok (xc', .ok page)) :
    ∃ level ≤ 4, page.sz = blockSize level ∧ page.ia = mapMask level guestGpa := by
  unfold gstagePage at found
  split at found
  · cases found
    exact ⟨2, by omega, rfl, rfl⟩
  · split at found
    · cases found
    · obtain ⟨low, isLow, rest⟩ := Mmu.mmuGetGuestPage_page found
      exact ⟨low, isLow.trans config.start_le, rest⟩

theorem nestedXlateNostageSingle_some {guestHpa level : Nat} {mapping : Guest.PhysicalMapping}
    (found : nestedXlateNostageSingle world guestHpa level access = .ok (some mapping)) :
    nestedNostagePermCheck access mapping.regFlags := by
  unfold nestedXlateNostageSingle at found
  split at found
  · cases found
  · cases found
  · split_ifs at found with tooSmall permitted
    · cases found
    · cases found
      exact permitted
    · cases found

theorem nestedXlateNostage_some {guestHpa : Nat} {host : HostBlock}
    (found : nestedXlateNostage world guestHpa access = .ok (some host)) :
    (∃ level ≤ 2, host.sz = blockSize level) ∧ nestedNostagePermCheck access host.regFlags := by
  rcases nestedXlateNostage_cases world guestHpa access with ⟨_, _, _, isStop⟩ | isNone |
    ⟨level, isLevel, mapping, isMapping, isSome⟩
  · cases found.symm.trans isStop
  · cases found.symm.trans isNone
  · cases found.symm.trans isSome
    exact ⟨⟨level, isLevel, rfl⟩, nestedXlateNostageSingle_some isMapping⟩

variable {result : Except Code Unit}

theorem gstageFault_npriv
    (returns : st.gstageFault xc guestGpa = .ok (st', result)) : st'.npriv = st.npriv := by
  unfold XlateState.gstageFault at returns
  cases written : nestedGstageWriteFault xc guestGpa
  all_goals
    rw [written] at returns
    cases returns
  rfl

structure Fills (e : SwtlbEntry) (guestGpa : Nat) : Prop where
  leaf : e.shadowPage.flags.leaf
  page : ∃ level ≤ 4, e.page.sz = blockSize level ∧ e.page.ia = mapMask level guestGpa
  shadow : ∃ low, e.shadowPage.sz = blockSize low ∧ e.shadowPage.ia = mapMask low guestGpa

theorem nestedXlateGstage_npriv
    (returns : nestedXlateGstage world st guestGpa access = .ok (st', result)) :
    st'.npriv = st.npriv ∨
    (∃ itlb slot, slot ∈ (st.npriv.swtlb.xtlb itlb).activeList ∧
      st'.npriv = st.npriv.touch itlb slot) ∨
    ∃ e, Fills e guestGpa ∧ nestedSwtlbUpdate st.npriv (access = .fetch) e.page e.shadowPage
      e.shadowRegFlags = some st'.npriv := by
  unfold nestedXlateGstage at returns
  rcases nestedSwtlbLookup_cases st.npriv.swtlb guestGpa with
    ⟨itlb, slot, isActive, shadows, lookup⟩ | ⟨missed, lookup⟩
  · rw [lookup] at returns
    refine .inr (.inl ⟨itlb, slot, isActive, ?_⟩)
    dsimp only at returns
    split_ifs at returns
    · exact gstageFault_npriv returns
    · unfold gstageHit at returns
      dsimp only at returns
      split_ifs at returns
      · cases returns
        rfl
      · exact gstageFault_npriv returns
  · rw [lookup] at returns
    dsimp only at returns
    split at returns
    · cases returns
    · cases returns
      exact .inl rfl
    · next xc page isPage =>
      split_ifs at returns with refused
      · exact .inl (gstageFault_npriv returns)
      · unfold gstageMiss at returns
        dsimp only at returns
        split at returns
        · cases returns
        · exact .inl (gstageFault_npriv returns)
        · next host isHost =>
          split at returns
          · cases returns
          · next npriv updated =>
            cases returns
            obtain ⟨level, isLevel, size, base⟩ := gstagePage_block isPage
            obtain ⟨⟨high, _, hostSize⟩, permitted⟩ := nestedXlateNostage_some isHost
            obtain ⟨low, _, _, shadowSize, shadowBase⟩ := shadowPage_block size base hostSize
            refine .inr (.inr ⟨⟨page, _, _⟩, ⟨?_, ⟨level, isLevel, size, base⟩,
              ⟨low, shadowSize, shadowBase⟩⟩, updated⟩)
            have isMemory := permitted
            rw [← fitHost_regFlags page (page.oa ||| guestGpa % page.sz)] at isMemory
            exact (shadowPage_leaf guestGpa (Bool.eq_false_iff.mpr refused) isMemory).1

theorem Tidy.translate (tidy : Tidy st.npriv) (isAddr : guestGpa < 2 ^ 64)
    (returns : nestedXlateGstage world st guestGpa access = .ok (st', result)) :
    Tidy st'.npriv := by
  rcases nestedXlateGstage_npriv returns with same | ⟨itlb, slot, inUse, touched⟩ |
    ⟨e, fills, updated⟩
  · rw [same]
    exact tidy
  · rw [touched]
    exact tidy.touch inUse
  · obtain ⟨level, isLevel, size, base⟩ := fills.page
    obtain ⟨low, shadowSize, shadowBase⟩ := fills.shadow
    have aligned : e.shadowPage.sz ∣ e.shadowPage.ia := by
      rw [shadowSize, shadowBase]
      exact Nat.dvd_mul_left _ _
    exact tidy.update fills.leaf aligned ⟨level, isLevel, guestGpa, isAddr, size, base⟩ updated

end Translate

/-! ## Runs -/

/-- The addresses of the calls are 64-bit numbers. -/
def NestedCall.IsWord : NestedCall → Prop
  | .translate _ guestGpa _ => guestGpa < 2 ^ 64
  | .flush guestGpa size => guestGpa < 2 ^ 64 ∧ size < 2 ^ 64
  | _ => True

theorem tidy_init {s : Npriv config} {entries : Nat → SwtlbEntry}
    (isInit : s.swtlb = nestedSwtlbInit entries) (tree : (mmuSystem config).init s.pgtbl) :
    Tidy s := by
  have noEntry : s.swtlb.active = [] := by
    rw [isInit]
    rfl
  have refines := Mmu.mmuSystem_refines (.start tree)
  obtain ⟨_, _, isMapping⟩ := tree
  refine ⟨?_, ⟨refines, ?_, ?_, ?_⟩, ?_⟩
  · intro itlb
    rw [isInit]
    cases itlb <;> simp [nestedSwtlbInit, Swtlb.xtlb, Xtlb.slots, slotsOf]
  · simp [noEntry]
  · simp [noEntry]
  · simp [noEntry, isMapping, Mmu.Mapping.empty]
  · simp [noEntry]

theorem Tidy.others {s : Npriv config} (tidy : Tidy s) {alloc : Alloc}
    (allocOk : AllocOk config alloc s.pgtbl.root.descendants) :
    Tidy { s with pgtbl := { s.pgtbl with alloc := alloc } } where
  lists := tidy.lists
  installed :=
    { refines := ⟨tidy.installed.refines.sound, allocOk, tidy.installed.refines.lookup⟩
      aligned := tidy.installed.aligned
      disjoint := tidy.installed.disjoint
      leaves := tidy.installed.leaves }
  pages := tidy.pages

theorem hextCsrRmwHgatp_tidy {s s' : NestedState config} {newVal wrMask : BitVec 64}
    (tidy : Tidy s.npriv) (written : hextCsrRmwHgatp s newVal wrMask = some s') :
    Tidy s'.npriv := by
  unfold hextCsrRmwHgatp at written
  dsimp only at written
  split at written
  · obtain ⟨npriv, flushed, tidy'⟩ := tidy.flush 0 0
    rw [flushed] at written
    cases written
    exact tidy'
  · cases written
    exact tidy

def RunsTidily (m : Machine config) : Prop :=
  ∀ s, m = .running s → Tidy s.npriv

theorem runsTidily_ofOption {result : Option (NestedState config)}
    (tidy : ∀ s, result = some s → Tidy s.npriv) : RunsTidily (.ofOption result) := by
  intro s isRunning
  cases result with
  | none => cases isRunning
  | some s' =>
    cases isRunning
    exact tidy s rfl

theorem nestedStep_tidy {aspace : Aspace} {fuel : Nat} {m m' : Machine config} {call : NestedCall}
    (runs : RunsTidily m) (isWord : call.IsWord)
    (taken : (nestedSystem config aspace fuel).step m call m') : RunsTidily m' := by
  obtain ⟨s, rfl, taken⟩ := taken
  have tidy := runs s rfl
  cases call with
  | translate setting guestGpa access =>
    dsimp only at taken
    split at taken
    · next st result returns =>
      rw [taken]
      rintro _ ⟨⟩
      exact tidy.translate isWord returns
    · rw [taken]
      rintro _ ⟨⟩
    · cases taken
  | rewrite memory =>
    cases taken
    rintro _ ⟨⟩
    exact tidy
  | writeHgatp newVal wrMask =>
    cases taken
    exact runsTidily_ofOption fun _ written => hextCsrRmwHgatp_tidy tidy written
  | flush gpa size =>
    cases taken
    obtain ⟨npriv, flushed, tidy'⟩ := tidy.flush gpa size
    rw [flushed]
    rintro _ ⟨⟩
    exact tidy'
  | others alloc =>
    obtain ⟨allocOk, taken⟩ := taken
    rw [taken]
    rintro _ ⟨⟩
    exact tidy.others allocOk

theorem nestedRun_tidy {aspace : Aspace} {fuel : Nat} {m : Machine config}
    (reached : ((nestedSystem config aspace fuel).restrict fun _ call => call.IsWord).Reachable m) :
    RunsTidily m := by
  apply reached.invariant RunsTidily
  · rintro m ⟨s, rfl, _, _, _, ⟨entries, isSwtlb⟩, isPgtbl⟩ _ ⟨⟩
    exact tidy_init isSwtlb isPgtbl
  · intro m call m' runs taken
    exact nestedStep_tidy runs taken.1 taken.2

end Xvisor.Nested
