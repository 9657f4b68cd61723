import Xvisor.Sbi.Fence

/-!
# Fences leave nothing of what they name

Fences of the VS-stage are complete when the harts of the named VCPUs can be
fenced. A G-stage fence only flushes the software TLB of its caller and is asked
for with the wrong VMID.
-/

namespace Xvisor.Sbi

open Function List Lib Mmu Nested Word

universe u

variable {host : Host} {V : Type u} {config : Mmu.Config} {guest : Guest host V} {args : Args}
  {caller v : V} {st st' : FenceState config V} {fence : Fence} {e : TlbEntry} {hart : Nat}

/-! ## What a fence names -/

def Rfence.named (guest : Guest host V) (args : Args) : Rfence → Option Fence
  | fenceI => none
  | sfenceVma => some ⟨.stage1, some guest.vmid, none, args.start, args.size⟩
  | sfenceVmaAsid => some ⟨.stage1, some guest.vmid, some args.asid, args.start, args.size⟩
  | hfenceGvma | hfenceGvmaVmid =>
    some ⟨.stage2, some guest.nestedVmid, none, args.start, args.size⟩
  | hfenceVvma => some ⟨.stage1, some guest.nestedVmid, none, args.start, args.size⟩
  | hfenceVvmaAsid =>
    some ⟨.stage1, some guest.nestedVmid, some args.asid, args.start, args.size⟩

/-- Neither the hart of the VCPU nor, for a G-stage fence, its software TLB holds a translation
that the fence names. -/
structure Clean (guest : Guest host V) (fence : Fence) (st : FenceState config V) (v : V) :
    Prop where
  hardware : ∀ hart, guest.hart v = some hart → ∀ e ∈ st.tlb hart, ¬ fence.Hits e
  software : fence.stage = .stage2 → ∀ slot ∈ (st.nested v).swtlb.active,
    ¬ RangeHits fence.start fence.size ((st.nested v).swtlb.entries slot).shadowPage.ia
      ((st.nested v).swtlb.entries slot).shadowPage.sz

/-- Pages are made of frames, and the shadow page is a part of the guest page. -/
structure Placed (e : SwtlbEntry) : Prop where
  iaAligned : 4096 ∣ e.shadowPage.ia
  szAligned : 4096 ∣ e.shadowPage.sz
  positive : 0 < e.shadowPage.sz
  low : e.page.ia ≤ e.shadowPage.ia
  high : e.shadowPage.ia + e.shadowPage.sz ≤ e.page.ia + e.page.sz
  top : e.page.ia + e.page.sz ≤ 2 ^ 64

structure Coherent (guest : Guest host V) (st : FenceState config V) : Prop where
  hgatp : hgatpVmid st.hgatp = guest.vmid
  placed : ∀ v ∈ guest.vcpus, ∀ slot ∈ (st.nested v).swtlb.active,
    Placed ((st.nested v).swtlb.entries slot)
  shadowed : host.vmidAvailable = true → ∀ hart, ∀ e ∈ st.tlb hart, e.stage = .stage2 →
    e.vmid = guest.nestedVmid → ∃ w ∈ guest.vcpus, guest.hart w = some hart ∧
      ∃ slot ∈ (st.nested w).swtlb.active, 0 < e.sz ∧
        ((st.nested w).swtlb.entries slot).shadowPage.ia ≤ e.ia ∧
        e.ia + e.sz ≤ ((st.nested w).swtlb.entries slot).shadowPage.ia +
          ((st.nested w).swtlb.entries slot).shadowPage.sz

/-- After a successful call nothing that it names is left on the harts and in the software TLBs of
the VCPUs that it names. -/
def Complete [DecidableEq V] (config : Mmu.Config) (guest : Guest host V) (caller : V) (fn : Rfence)
    (args : Args) : Prop :=
  ∀ st st' : FenceState config V, Coherent guest st →
    vcpuSbiRfenceEcall guest caller fn.funcId args st = some (st', 0) →
      ∀ fence, fn.named guest args = some fence →
        ∀ v ∈ guest.vcpus, Named args (guest.vcpu v) → Clean guest fence st' v

/-! ## The condition -/

def Args.nonempty (args : Args) : Prop := ¬ (args.size = 0 ∧ args.start ≠ 0)

def RangeReached (args : Args) : Prop :=
  ∀ frame < 2 ^ 52, RangeHits args.start args.size (frame * 4096) 4096 →
    frame * 4096 ≤ (flushBounds args.start args.size).2 ∧
      (flushBounds args.start args.size).1 ≤ frame * 4096 + 4095

/-- A G-stage fence is complete on the hart of its caller: with VMIDs no other VCPU shares it, or
the VMID happens to be 1; without, the hart is one that can be fenced. -/
def HartReached (guest : Guest host V) (caller : V) (hart : Nat) : Prop :=
  if host.vmidAvailable then
    (∃ w ∈ guest.vcpus, w ≠ caller ∧ guest.hart w = some hart) →
      hart < host.cpuCount ∧ guest.nestedVmid = 1
  else hart < host.cpuCount

def FenceReaches (guest : Guest host V) (caller : V) (args : Args) : Rfence → Prop
  | .fenceI => True
  | .sfenceVma | .sfenceVmaAsid | .hfenceVvma | .hfenceVvmaAsid =>
    args.nonempty → ∀ v ∈ guest.vcpus, Named args (guest.vcpu v) →
      ∀ hart, guest.hart v = some hart → hart < host.cpuCount
  | .hfenceGvma | .hfenceGvmaVmid =>
    args.nonempty → ∀ v ∈ guest.vcpus, Named args (guest.vcpu v) → v = caller ∧ RangeReached args ∧
        ∀ hart, guest.hart caller = some hart → HartReached guest caller hart

/-! ## VMIDs -/

theorem vmid_lt (guest : Guest host V) : guest.vmid < 2 ^ 14 ∧ guest.nestedVmid < 2 ^ 14 := by
  have small : 2 ^ host.vmidBits ≤ 2 ^ 14 := Nat.pow_le_pow_right (by omega) host.vmidBits_le
  have := guest.id_lt
  unfold Guest.vmid Guest.nestedVmid
  cases available : host.vmidAvailable
  · simp
  · have fits : host.maxGuestCount ≤ 2 ^ host.vmidBits / 2 := of_decide_eq_true available
    simp only [if_true, Host.vmidNested]
    omega

theorem hgatpVmid_shift {vmid : Nat} (small : vmid < 2 ^ 14) :
    hgatpVmid (vmid * 2 ^ 44 % 2 ^ 64) = vmid := by
  unfold hgatpVmid
  omega

/-! ## Fences of the VS-stage -/

theorem Rfence.ofFuncId_funcId (fn : Rfence) : Rfence.ofFuncId fn.funcId = some fn := by
  cases fn <;> rfl

section Calls

variable [DecidableEq V] {fn : Rfence}

omit [DecidableEq V] in
theorem vvmaNested_tlb (coherent : Coherent guest st) (cpus : List (Fin host.cpuCount))
    (asid : Option Nat) :
    (vvmaNested guest cpus asid args st).tlb = (st.rfence host cpus
        ⟨.stage1, some guest.nestedVmid, asid, args.start, args.size⟩).tlb := by
  unfold vvmaNested FenceState.remoteHfenceVvma
  cases available : host.vmidAvailable
  · have same : guest.nestedVmid = guest.vmid := by simp [Guest.nestedVmid, Guest.vmid, available]
    simp only [coherent.hgatp, same, reduceCtorEq, reduceIte]
  · simp only [if_true, hgatpVmid_shift (vmid_lt guest).2]
    rfl

theorem vcpuSbiRfenceEcall_vsStage (caller : V) (coherent : Coherent guest st)
    (named : fn.named guest args = some fence) (vsStage : fence.stage = .stage1) :
    ∃ st', vcpuSbiRfenceEcall guest caller fn.funcId args st = some (st', 0) ∧
      st'.tlb = (st.rfence host (fencedCpus guest args) fence).tlb := by
  unfold vcpuSbiRfenceEcall
  rw [Rfence.ofFuncId_funcId]
  cases fn with
  | fenceI => cases named
  | sfenceVma | sfenceVmaAsid =>
    cases named
    refine ⟨_, rfl, ?_⟩
    rw [FenceState.remoteHfenceVvma, coherent.hgatp]
  | hfenceGvma | hfenceGvmaVmid =>
    cases named
    cases vsStage
  | hfenceVvma | hfenceVvmaAsid =>
    cases named
    exact ⟨_, rfl, vvmaNested_tlb coherent _ _⟩

def namedEntry (fence : Fence) : TlbEntry where
  stage := fence.stage
  vmid := fence.vmid.getD 0
  asid := fence.asid.getD 0
  ia := fence.start / 4096 * 4096
  sz := 4096

omit [DecidableEq V] in
theorem namedEntry_hits (named : fn.named guest args = some fence) (nonempty : args.nonempty) :
    fence.Hits (namedEntry fence) := by
  have range : RangeHits args.start args.size (args.start / 4096 * 4096) 4096 := by
    unfold RangeHits
    unfold Args.nonempty at nonempty
    omega
  cases fn <;> cases named <;> simp [Fence.Hits, namedEntry, range]

omit [DecidableEq V] in
theorem not_hits_of_empty (named : fn.named guest args = some fence) (empty : ¬ args.nonempty)
    (ia sz : Nat) : ¬ RangeHits fence.start fence.size ia sz := by
  have range : ¬ RangeHits args.start args.size ia sz := by
    unfold RangeHits
    unfold Args.nonempty at empty
    omega
  cases fn <;> cases named <;> exact range

/-! ## States that show what is left -/

def npriv (slots : List Nat) (entry : SwtlbEntry) : Npriv config where
  swtlb := ⟨⟨slots, []⟩, ⟨[], []⟩, fun _ => entry⟩
  pgtbl := ⟨.fresh 0 config.start, ⟨[], 0, [], []⟩, .empty⟩

def framePage (frame : Nat) : Page :=
  ⟨frame * 4096, 0, 4096, ⟨0, true, true, false, true, true, true, true, true⟩⟩

def frameEntry (frame : Nat) : SwtlbEntry := ⟨framePage frame, framePage frame, 0⟩

variable {frame : Nat}

theorem frameEntry_placed (small : frame < 2 ^ 52) : Placed (frameEntry frame) := by
  have positive : 0 < (frameEntry frame).shadowPage.sz := Nat.succ_pos 4095
  refine ⟨Nat.dvd_mul_left _ _, dvd_rfl, positive, le_rfl, le_rfl, ?_⟩
  simp only [frameEntry, framePage]
  omega

/-- One VCPU has the page of a frame in its software TLB, and one hart has cached one
translation. -/
def leftover (config : Mmu.Config) (guest : Guest host V) (owner : Option V) (frame : Nat)
    (cached : Option (Nat × TlbEntry)) : FenceState config V where
  hgatp := guest.vmid * 2 ^ 44 % 2 ^ 64
  tlb hart := cached.toList.filterMap fun c => if c.1 = hart then some c.2 else none
  nested v := npriv (if owner = some v then [0] else []) (frameEntry frame)

variable {owner : Option V} {cached : Option (Nat × TlbEntry)}

theorem mem_leftover_tlb :
    e ∈ (leftover config guest owner frame cached).tlb hart ↔ cached = some (hart, e) := by
  simp only [leftover, mem_filterMap, Option.mem_toList]
  constructor
  · rintro ⟨⟨hart', e'⟩, isCached, same⟩
    split_ifs at same with here
    cases same
    rw [isCached, ← here]
  · intro isCached
    exact ⟨_, isCached, by simp⟩

theorem mem_active_leftover {slot : Nat} :
    slot ∈ ((leftover config guest owner frame cached).nested v).swtlb.active ↔
      owner = some v ∧ slot = 0 := by
  simp only [leftover, npriv, Swtlb.active]
  split_ifs with isOwner <;> simp [isOwner]

theorem leftover_coherent (small : frame < 2 ^ 52)
    (shadowed : host.vmidAvailable = true → ∀ hart e, cached = some (hart, e) →
      e.stage = .stage2 → ∃ w ∈ guest.vcpus, guest.hart w = some hart ∧ owner = some w ∧
        e.ia = frame * 4096 ∧ e.sz = 4096) :
    Coherent guest (leftover config guest owner frame cached) := by
  refine ⟨hgatpVmid_shift (vmid_lt guest).1, ?_, ?_⟩
  · intro v _ slot _
    exact frameEntry_placed small
  · intro available hart e inTlb stage _
    obtain ⟨w, inGuest, here, isOwner, ia, sz⟩ :=
      shadowed available hart e (mem_leftover_tlb.mp inTlb) stage
    refine ⟨w, inGuest, here, 0, mem_active_leftover.mpr ⟨isOwner, rfl⟩, ?_⟩
    simp only [leftover, npriv, frameEntry, framePage, ia, sz]
    omega

theorem complete_vsStage_iff (named : fn.named guest args = some fence)
    (vsStage : fence.stage = .stage1) :
    Complete config guest caller fn args ↔ (args.nonempty → ∀ v ∈ guest.vcpus,
      Named args (guest.vcpu v) → ∀ hart, guest.hart v = some hart → hart < host.cpuCount) := by
  constructor
  · intro complete nonempty v inGuest isNamed hart here
    by_contra unknown
    -- the hart of the VCPU has cached what the fence names, and is not fenced
    let st : FenceState config V := leftover config guest none 0 (some (hart, namedEntry fence))
    have coherent : Coherent guest st := by
      refine leftover_coherent (by decide) ?_
      intro _ _ e isCached stage
      cases isCached
      simp [namedEntry, vsStage] at stage
    obtain ⟨st', returned, tlb⟩ := vcpuSbiRfenceEcall_vsStage caller coherent named
      vsStage
    have clean := complete st st' coherent returned fence named v inGuest isNamed
    refine clean.hardware hart here (namedEntry fence) ?_ (namedEntry_hits named nonempty)
    rw [tlb, mem_rfence_tlb]
    exact ⟨mem_leftover_tlb.mpr rfl, fun fenced => unknown (lt_of_hartmask fenced.1)⟩
  · intro known st st' coherent returned fence' named' v inGuest isNamed
    obtain rfl : fence = fence' := Option.some.inj (named.symm.trans named')
    refine ⟨?_, fun gStage => by simp [vsStage] at gStage⟩
    intro hart here e inTlb hits
    by_cases nonempty : args.nonempty
    · obtain ⟨st'', returned', tlb⟩ := vcpuSbiRfenceEcall_vsStage caller coherent named
        vsStage
      obtain rfl : st'' = st' := (Prod.mk.inj (Option.some.inj (returned'.symm.trans returned))).1
      rw [tlb, mem_rfence_tlb] at inTlb
      exact inTlb.2 ⟨hartmask_of_named inGuest isNamed here
        (known nonempty v inGuest isNamed hart here), hits⟩
    · exact not_hits_of_empty named nonempty _ _ hits.2.2.2

/-! ## Fences of the G-stage -/

omit [DecidableEq V] in
theorem foldl_tlbflush (guest : Guest host V) (caller : V) (pages : List Page)
    (st : FenceState config V) :
    (pages.foldl (fun st page => st.tlbflush guest caller page) st).nested = st.nested ∧
      ∀ hart e, e ∈ (pages.foldl (fun st page => st.tlbflush guest caller page) st).tlb hart ↔
        e ∈ st.tlb hart ∧
          ¬ (guest.hart caller = some hart ∧ ∃ page ∈ pages, PageHits guest page e) := by
  induction pages generalizing st with
  | nil => simp
  | cons page pages ih =>
    obtain ⟨nested, tlb⟩ := ih (st.tlbflush guest caller page)
    refine ⟨nested, ?_⟩
    intro hart e
    rw [foldl_cons, tlb hart e]
    unfold FenceState.tlbflush
    by_cases here : guest.hart caller = some hart
    · simp [here, and_assoc]
    · simp [here]

theorem vcpuSbiRfenceEcall_gStage (caller : V) (gStage : fn = .hfenceGvma ∨ fn = .hfenceGvmaVmid)
    (st : FenceState config V) :
    vcpuSbiRfenceEcall guest caller fn.funcId args st =
      (st.flushCaller guest caller args.start args.size).map fun st =>
        (st.rfence host (fencedCpus guest args) (gvmaFence host args), 0) := by
  rcases gStage with rfl | rfl <;> rfl

theorem flushCaller_some {start size : Nat}
    (flushed : st.flushCaller guest caller start size = some st') :
    (∃ npriv, cpuVcpuNestedSwtlbFlush (st.nested caller) start size = some npriv ∧
        st'.nested = update st.nested caller npriv) ∧
      ∀ hart e, e ∈ st'.tlb hart ↔ e ∈ st.tlb hart ∧ ¬ (guest.hart caller = some hart ∧
        ∃ slot ∈ (st.nested caller).swtlb.active,
          ((st.nested caller).swtlb.entries slot).flushedBy start size ∧
          PageHits guest ((st.nested caller).swtlb.entries slot).shadowPage e) := by
  obtain ⟨npriv, isFlushed, rfl⟩ := Option.map_eq_some_iff.mp flushed
  refine ⟨⟨npriv, isFlushed, (foldl_tlbflush guest caller _ _).1⟩, ?_⟩
  intro hart e
  rw [(foldl_tlbflush guest caller _ _).2 hart e]
  simp only [mem_map, exists_exists_and_eq_and]
  simp only [Nested.mem_flushed, and_assoc]

theorem flushCaller_idle (guest : Guest host V) (caller : V) (start size : Nat)
    (st : FenceState config V) (idle : ∀ slot ∈ (st.nested caller).swtlb.active,
      ¬ ((st.nested caller).swtlb.entries slot).flushedBy start size) :
    ∃ st', st.flushCaller guest caller start size = some st' ∧ st'.tlb = st.tlb ∧
      ∀ v, (st'.nested v).swtlb.active = (st.nested v).swtlb.active ∧
        (st'.nested v).swtlb.entries = (st.nested v).swtlb.entries := by
  have none : ∀ itlb, (st.nested caller).swtlb.flushed itlb start size = [] := by
    intro itlb
    refine filter_eq_nil_iff.mpr ?_
    intro slot inList flushed
    exact idle slot (Swtlb.mem_active.mpr ⟨itlb, inList⟩) (of_decide_eq_true flushed)
  have kept : ∀ itlb, ((st.nested caller).swtlb.flushXtlb itlb start size).activeList =
      ((st.nested caller).swtlb.xtlb itlb).activeList := by
    intro itlb
    refine filter_eq_self.mpr ?_
    intro slot inList
    exact decide_eq_true (idle slot (Swtlb.mem_active.mpr ⟨itlb, inList⟩))
  unfold FenceState.flushCaller cpuVcpuNestedSwtlbFlush
  simp only [none, Nested.unmapShadows]
  refine ⟨_, rfl, rfl, ?_⟩
  intro v
  simp only [append_nil, map_nil, foldl_nil]
  by_cases isCaller : v = caller
  · subst isCaller
    simp only [update_self, Swtlb.active, kept, and_true]
    rfl
  · simp [isCaller]

theorem flushedBy_of_rangeHits {entry : SwtlbEntry} (placed : Placed entry)
    (reached : RangeReached args)
    (hits : RangeHits args.start args.size entry.shadowPage.ia entry.shadowPage.sz) :
    entry.flushedBy args.start args.size := by
  obtain ⟨iaAligned, szAligned, positive, low, high, top⟩ := placed
  obtain ⟨first, isIa⟩ := iaAligned
  obtain ⟨count, isSz⟩ := szAligned
  -- a frame of the shadow page that the range names
  obtain ⟨frame, above, below, named⟩ : ∃ frame, first ≤ frame ∧ frame < first + count ∧
      RangeHits args.start args.size (frame * 4096) 4096 := by
    unfold RangeHits at hits ⊢
    by_cases early : args.start < 4096 * first
    · exact ⟨first, le_rfl, by omega, by omega⟩
    · by_cases inside : args.start < 4096 * (first + count)
      · exact ⟨args.start / 4096, by omega, by omega, by omega⟩
      · exact ⟨first, le_rfl, by omega, by omega⟩
  obtain ⟨notAfter, notBefore⟩ := reached frame (by omega) named
  have pageEnd : sub (add entry.page.ia entry.page.sz) 1 =
      entry.page.ia + entry.page.sz - 1 := by
    unfold sub add
    omega
  unfold SwtlbEntry.flushedBy
  rw [pageEnd]
  omega

section

variable (gStage : fn = .hfenceGvma ∨ fn = .hfenceGvmaVmid)
include gStage

theorem complete_gStage_of_reaches
    (reaches : args.nonempty → ∀ v ∈ guest.vcpus, Named args (guest.vcpu v) →
      v = caller ∧ RangeReached args ∧
        ∀ hart, guest.hart caller = some hart → HartReached guest caller hart) :
    Complete config guest caller fn args := by
  intro st st' coherent returned fence named v isVcpu isNamed
  obtain rfl : fence = ⟨.stage2, some guest.nestedVmid, none, args.start, args.size⟩ := by
    rcases gStage with rfl | rfl <;> exact (Option.some.inj named).symm
  by_cases nonempty : args.nonempty
  · obtain ⟨rfl, rangeReached, hartReached⟩ := reaches nonempty v isVcpu isNamed
    rw [vcpuSbiRfenceEcall_gStage v gStage] at returned
    obtain ⟨st₁, flushed, result⟩ := Option.map_eq_some_iff.mp returned
    obtain rfl := (Prod.mk.inj result).1
    obtain ⟨⟨npriv, swtlbFlushed, nested⟩, tlb⟩ := flushCaller_some flushed
    refine ⟨?_, ?_⟩
    · intro hart here e inTlb hits
      obtain ⟨inFlushed, unfenced⟩ := (mem_rfence_tlb _).mp inTlb
      obtain ⟨inOld, unflushed⟩ := (tlb hart e).mp inFlushed
      obtain ⟨stage, vmid, -, range⟩ := hits
      have isVmid : e.vmid = guest.nestedVmid := by simpa [eq_comm] using vmid
      have reached := hartReached hart here
      unfold HartReached at reached
      cases available : host.vmidAvailable
      · simp only [available, reduceCtorEq, reduceIte] at reached
        refine unfenced ⟨hartmask_of_named isVcpu isNamed here reached, stage, ?_, .inl rfl, range⟩
        simp [gvmaFence, available]
      · rw [if_pos available] at reached
        obtain ⟨w, isVcpu', sameHart, slot, inUse, positive, low, high⟩ :=
          coherent.shadowed available hart e inOld stage isVmid
        by_cases isCaller : w = v
        · subst isCaller
          refine unflushed ⟨here, slot, inUse, ?_, stage, fun _ => isVmid, ?_, ?_⟩
          · refine flushedBy_of_rangeHits (coherent.placed w isVcpu' slot inUse) rangeReached ?_
            unfold RangeHits at range ⊢
            dsimp only at range
            omega
          · omega
          · omega
        · obtain ⟨known, isOne⟩ := reached ⟨w, isVcpu', isCaller, sameHart⟩
          refine unfenced ⟨hartmask_of_named isVcpu isNamed here known, stage, .inr ?_, .inl rfl,
            range⟩
          simp [gvmaFence, available, isVmid, isOne]
    · intro _ slot inUse hits
      have isNpriv : ((st₁.rfence host (fencedCpus guest args) (gvmaFence host args)).nested v) =
          npriv := by
        change st₁.nested v = npriv
        rw [nested, update_self]
      rw [isNpriv] at inUse hits
      obtain ⟨wasInUse, unflushed⟩ := (Nested.mem_active_flush swtlbFlushed).mp inUse
      rw [Nested.cpuVcpuNestedSwtlbFlush_some swtlbFlushed] at hits
      exact unflushed (flushedBy_of_rangeHits (coherent.placed v isVcpu slot wasInUse) rangeReached
        hits)
  · refine ⟨?_, ?_⟩
    · intro hart _ e _ hits
      exact not_hits_of_empty named nonempty _ _ hits.2.2.2
    · intro _ slot _ hits
      exact not_hits_of_empty named nonempty _ _ hits

/-- Where the flush of the caller does nothing, the software TLB has no page of the range, and the
firmware fences what the hart has cached of it. -/
theorem Complete.leftover
    (complete : Complete config guest caller fn args) (isVcpu : v ∈ guest.vcpus)
    (named : Named args (guest.vcpu v))
    (coherent : Coherent guest (leftover config guest owner frame cached))
    (idle : owner = some caller → ¬ (frameEntry frame).flushedBy args.start args.size) :
    (owner = some v → ¬ RangeHits args.start args.size (frame * 4096) 4096) ∧
      ∀ hart e, guest.hart v = some hart → cached = some (hart, e) → e.stage = .stage2 →
        e.vmid = guest.nestedVmid → RangeHits args.start args.size e.ia e.sz →
          hartmask host (fencedCpus guest args) hart = true ∧ (gvmaFence host args).Hits e := by
  have isFence : fn.named guest args =
      some ⟨.stage2, some guest.nestedVmid, none, args.start, args.size⟩ := by
    rcases gStage with rfl | rfl <;> rfl
  obtain ⟨st₁, flushed, tlb, same⟩ := flushCaller_idle guest caller args.start args.size
    (Sbi.leftover config guest owner frame cached)
    (fun slot inUse => idle (mem_active_leftover.mp inUse).1)
  have returned : vcpuSbiRfenceEcall guest caller fn.funcId args
      (Sbi.leftover config guest owner frame cached) =
        some (st₁.rfence host (fencedCpus guest args) (gvmaFence host args), 0) := by
    rw [vcpuSbiRfenceEcall_gStage caller gStage, flushed]
    rfl
  have clean := complete _ _ coherent returned _ isFence v isVcpu named
  refine ⟨?_, ?_⟩
  · intro isOwner hits
    have inUse : 0 ∈ (st₁.nested v).swtlb.active := by
      rw [(same v).1]
      exact mem_active_leftover.mpr ⟨isOwner, rfl⟩
    refine clean.software rfl 0 inUse ?_
    change RangeHits args.start args.size ((st₁.nested v).swtlb.entries 0).shadowPage.ia _
    rw [show (st₁.rfence host (fencedCpus guest args) (gvmaFence host args)).nested v =
      st₁.nested v from rfl, (same v).2]
    exact hits
  · intro hart e here isCached stage vmid hits
    by_contra unfenced
    refine clean.hardware hart here e ?_ ⟨stage, .inr (congrArg some vmid.symm), .inl rfl, hits⟩
    rw [mem_rfence_tlb, tlb]
    exact ⟨mem_leftover_tlb.mpr isCached, unfenced⟩

theorem reaches_of_complete_gStage
    (complete : Complete config guest caller fn args) (nonempty : args.nonempty)
    (isVcpu : v ∈ guest.vcpus) (named : Named args (guest.vcpu v)) :
    v = caller ∧ RangeReached args ∧
        ∀ hart, guest.hart caller = some hart → HartReached guest caller hart := by
  have small : args.start / 4096 < 2 ^ 52 := by
    have := args.start_lt
    omega
  have range : RangeHits args.start args.size (args.start / 4096 * 4096) 4096 := by
    unfold RangeHits
    unfold Args.nonempty at nonempty
    omega
  have isCaller : v = caller := by
    by_contra other
    have coherent : Coherent guest (leftover config guest (some v) (args.start / 4096) none) :=
      leftover_coherent small fun _ _ _ isCached => by cases isCached
    refine (complete.leftover gStage isVcpu named coherent ?_).1 rfl range
    intro isOwner
    exact absurd (Option.some.inj isOwner) other
  subst isCaller
  refine ⟨rfl, ?_, ?_⟩
  · intro frame inSpace hits
    by_contra missed
    have coherent : Coherent guest (leftover config guest (some v) frame none) :=
      leftover_coherent inSpace fun _ _ _ isCached => by cases isCached
    refine (complete.leftover gStage isVcpu named coherent ?_).1 rfl hits
    intro _ flushed
    have pageEnd : sub (add (frame * 4096) 4096) 1 = frame * 4096 + 4095 := by
      unfold sub add
      omega
    simp only [SwtlbEntry.flushedBy, frameEntry, framePage, pageEnd] at flushed
    omega
  · intro hart here
    let e : TlbEntry := ⟨.stage2, guest.nestedVmid, 0, args.start / 4096 * 4096, 4096⟩
    unfold HartReached
    cases available : host.vmidAvailable
    · rw [if_neg (by decide)]
      have coherent : Coherent guest
          (leftover config guest none (args.start / 4096) (some (hart, e))) :=
        leftover_coherent small fun wrong => by simp [available] at wrong
      obtain ⟨fenced, -⟩ := (complete.leftover gStage isVcpu named coherent
        (fun isOwner => by cases isOwner)).2 hart e here rfl rfl rfl range
      exact lt_of_hartmask fenced
    · rw [if_pos rfl]
      rintro ⟨w, isVcpu', other, sameHart⟩
      have coherent : Coherent guest
          (leftover config guest (some w) (args.start / 4096) (some (hart, e))) := by
        refine leftover_coherent small ?_
        intro _ hart' e' isCached _
        cases isCached
        exact ⟨w, isVcpu', sameHart, rfl, rfl, rfl⟩
      obtain ⟨fenced, hits⟩ := (complete.leftover gStage isVcpu named coherent
        (fun isOwner => absurd (Option.some.inj isOwner) other)).2 hart e here rfl rfl rfl range
      refine ⟨lt_of_hartmask fenced, ?_⟩
      simpa [gvmaFence, available, eq_comm, e] using hits.2.1

end

/-! ## All calls -/

inductive Call where
  | sendIpi
  | rfence (fn : Rfence)

def Call.actsOn (guest : Guest host V) (args : Args) : Call → List V
  | sendIpi => (vcpuSbiIpiEcall guest 0 args).1
  | rfence _ => selected guest args

def Call.Complete (config : Mmu.Config) (guest : Guest host V) (caller : V) (args : Args) :
    Call → Prop
  | sendIpi => True
  | rfence fn => Sbi.Complete config guest caller fn args

def Call.Reaches (guest : Guest host V) (caller : V) (args : Args) : Call → Prop
  | sendIpi => True
  | rfence fn => FenceReaches guest caller args fn

theorem complete_iff_reaches (config : Mmu.Config) (guest : Guest host V) (caller : V) (fn : Rfence)
    (args : Args) : Complete config guest caller fn args ↔ FenceReaches guest caller args fn := by
  cases fn with
  | fenceI =>
    refine iff_of_true ?_ trivial
    intro _ _ _ _ fence named
    cases named
  | sfenceVma | sfenceVmaAsid | hfenceVvma | hfenceVvmaAsid => exact complete_vsStage_iff rfl rfl
  | hfenceGvma =>
    exact ⟨fun complete nonempty v isVcpu => reaches_of_complete_gStage (.inl rfl) complete nonempty
      isVcpu, complete_gStage_of_reaches (.inl rfl)⟩
  | hfenceGvmaVmid =>
    exact ⟨fun complete nonempty v isVcpu => reaches_of_complete_gStage (.inr rfl) complete nonempty
      isVcpu, complete_gStage_of_reaches (.inr rfl)⟩

/-- The VCPUs acted on are those that the guest named, and a fence that returned left nothing of
what it names behind, exactly when no VCPU beyond the window of the mask is mistaken for one inside
and the fence reaches every translation. -/
theorem vcpuSbiCall_exact_iff (config : Mmu.Config) (guest : Guest host V) (caller : V)
    (call : Call) (args : Args) :
    ((∀ v ∈ guest.vcpus, v ∈ call.actsOn guest args ↔ Named args (guest.vcpu v)) ∧
      call.Complete config guest caller args) ↔
        Windowed guest args ∧ call.Reaches guest caller args := by
  cases call with
  | sendIpi => exact and_congr selected_iff_named Iff.rfl
  | rfence fn => exact and_congr selected_iff_named (complete_iff_reaches config guest caller fn args)

/-- Two harts, two VCPUs, and VMIDs with 4 bits. -/
def twoHarts : Host := ⟨2, fun cpu => some cpu, 4, 4, by decide⟩

def twoVcpus : Guest twoHarts (Fin 2) where
  id := 1
  id_lt := by decide
  vcpus := [0, 1]
  vcpu v := ⟨v, .running, v⟩

def fenceOther : Args := ⟨2, 0, 0, 0, 0, by decide, by decide, by decide, by decide⟩

/-- VCPU 0 fences VCPU 1. The call succeeds, but the page in the software TLB of VCPU 1 and what
its hart has cached of it are still there. -/
theorem hfenceGvma_misses_other :
    ∃ st', Coherent twoVcpus (leftover Mmu.sv39x4 twoVcpus (some 1) 0x80000
        (some (1, ⟨.stage2, 9, 0, 0x80000000, 4096⟩))) ∧
      vcpuSbiRfenceEcall twoVcpus 0 Rfence.hfenceGvma.funcId fenceOther
        (leftover Mmu.sv39x4 twoVcpus (some 1) 0x80000
          (some (1, ⟨.stage2, 9, 0, 0x80000000, 4096⟩))) = some (st', 0) ∧
      Named fenceOther (twoVcpus.vcpu 1) ∧ twoVcpus.nestedVmid = 9 ∧
      (st'.nested 1).swtlb.active = [0] ∧
      ((st'.nested 1).swtlb.entries 0).shadowPage.ia = 0x80000000 ∧
      st'.tlb 1 = [⟨.stage2, 9, 0, 0x80000000, 4096⟩] := by
  refine ⟨_, ?_, rfl, by decide, by decide, by decide, by decide, by decide⟩
  refine leftover_coherent (by decide) ?_
  intro _ hart e isCached _
  cases isCached
  exact ⟨1, by decide, rfl, rfl, rfl, rfl⟩

end Calls

end Xvisor.Sbi
