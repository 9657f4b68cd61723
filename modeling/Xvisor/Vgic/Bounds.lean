import Xvisor.Lib.System
import Xvisor.Vgic.Model

/-!
# Array accesses of the distributor stay in bounds

One lemma per function, for any content of the state: the bounds on the
indices come from the sizes fixed at probe time and from the register offset.
-/

namespace Xvisor.Vgic

open List Lib GuestState

namespace GuestState

variable {config : Config} {s : GuestState} {cpu irq : Nat} {cm : BitVec 32}

theorem updateBits_inBounds {bits : Bits} {f : BitVec 32 → BitVec 32}
    (reach : ∀ i < config.numCpu, cm.getLsbD i → irq < 256) :
    InBounds (updateBits config bits irq cm f) := by
  apply inBounds_foldlM_range
  intro i inRange bits
  have cpus := config.numCpu_le
  have atCpu : i < 8 := by omega
  have word : cm.getLsbD i → irq / 32 < 8 := by
    intro addressed
    have := reach i inRange addressed
    omega
  simp only [inBounds_ite, inBounds_bind, inBounds_read, inBounds_modify, inBounds_write]
  refine ⟨?_, fun _ => inBounds_pure bits⟩
  intro addressed
  exact ⟨atCpu, fun _ _ => ⟨word addressed, fun _ _ => atCpu⟩⟩

section

variable (inside : irq < 256)
include inside

@[simp] theorem testBits_inBounds {bits : Bits} : InBounds (testBits config bits irq cm) := by
  apply inBounds_anyM
  intro i mem
  have cpus := config.numCpu_le
  have inRange := mem_range.mp mem
  have atCpu : i < 8 := by omega
  have word : irq / 32 < 8 := by omega
  simp [atCpu, word]

@[simp] theorem setEnabled_inBounds : InBounds (s.setEnabled config irq cm) := by
  simp [setEnabled, updateBits_inBounds fun _ _ _ => inside]

@[simp] theorem clearEnabled_inBounds : InBounds (s.clearEnabled config irq cm) := by
  simp [clearEnabled, updateBits_inBounds fun _ _ _ => inside]

@[simp] theorem setPending_inBounds : InBounds (s.setPending config irq cm) := by
  simp [setPending, updateBits_inBounds fun _ _ _ => inside]

@[simp] theorem clearPending_inBounds : InBounds (s.clearPending config irq cm) := by
  simp [clearPending, updateBits_inBounds fun _ _ _ => inside]

end

@[simp] theorem modifyIrq_inBounds {f : IrqState → IrqState} :
    InBounds (s.modifyIrq irq f) ↔ irq < 256 := by
  simp [modifyIrq]

@[simp] theorem testActive_inBounds : InBounds (s.testActive irq cm) ↔ irq < 256 := by
  simp [testActive]

@[simp] theorem testLevel_inBounds : InBounds (s.testLevel irq cm) ↔ irq < 256 := by
  simp [testLevel]

@[simp] theorem testTrigger_inBounds (inside : irq < 256) : InBounds (s.testTrigger irq) := by
  simp [testTrigger, inside]

theorem getPriority_inBounds (inside : irq < 256) (atCpu : cpu < 8) :
    InBounds (s.getPriority irq cpu) := by
  simp only [getPriority, inBounds_ite, inBounds_bind, inBounds_read]
  refine ⟨fun isPrivate => ⟨isPrivate, fun _ _ => atCpu⟩, ?_⟩
  omega

/-! ## List registers -/

@[simp] theorem modifyVcpu_inBounds {f : VcpuState → VcpuState} :
    InBounds (s.modifyVcpu cpu f) ↔ cpu < 8 := by
  simp [modifyVcpu]

variable {lr : Nat} {status : LrStatus}

@[simp] theorem setLr_inBounds {value : Lr} : InBounds (s.setLr cpu lr value) ↔ cpu < 8 := by
  simp [setLr]

theorem findFreeLr_mem {lrs : List Nat} (found : s.findFreeLr cpu lrs = .ok (some lr)) :
    lr ∈ lrs := by
  induction lrs with
  | nil => cases found
  | cons first rest ih =>
    simp only [findFreeLr] at found
    cases used : s.testLrUsed cpu first with
    | error fault =>
      rw [used] at found
      cases found
    | ok isUsed =>
      rw [used] at found
      cases isUsed with
      | true => exact mem_cons_of_mem first (ih found)
      | false =>
        cases found
        exact mem_cons_self

theorem queueMask_inBounds {queue : GuestState → Nat → Checked (GuestState × Bool)} {first : Nat}
    {mask : BitVec 32} {numbers : List Nat}
    (inside : ∀ n ∈ numbers, ∀ s, InBounds (queue s (first + n))) :
    InBounds (queueMask queue first mask numbers s) := by
  induction numbers generalizing s with
  | nil => exact inBounds_pure _
  | cons n rest ih =>
    have others : ∀ s, InBounds (queueMask queue first mask rest s) := fun s =>
      ih fun m mem => inside m (mem_cons_of_mem n mem)
    simp [queueMask, inside n mem_cons_self, others]

section AtCpu

variable (atCpu : cpu < 8)
include atCpu

theorem testLrUsed_inBounds (inside : lr < 64) :
    InBounds (s.testLrUsed cpu lr) := by
  have word : lr / 32 < 2 := by omega
  simp [testLrUsed, atCpu, word]

@[simp] theorem setLrUsed_inBounds (inside : lr < 64) :
    InBounds (s.setLrUsed cpu lr) := by
  have word : lr / 32 < 2 := by omega
  simp [setLrUsed, atCpu, word]

@[simp] theorem clearLrUsed_inBounds (inside : lr < 64) :
    InBounds (s.clearLrUsed cpu lr) := by
  have word : lr / 32 < 2 := by omega
  simp [clearLrUsed, atCpu, word]

@[simp] theorem setLrMap_inBounds {value : BitVec 8} (inside : irq < 256) :
    InBounds (s.setLrMap cpu irq value) := by
  simp [setLrMap, atCpu, inside]

theorem findFreeLr_inBounds {lrs : List Nat} (inside : ∀ lr ∈ lrs, lr < 64) :
    InBounds (s.findFreeLr cpu lrs) := by
  induction lrs with
  | nil => exact inBounds_pure none
  | cons lr rest ih =>
    have first := testLrUsed_inBounds (s := s) atCpu (inside lr mem_cons_self)
    have others := ih fun lr mem => inside lr (mem_cons_of_mem _ mem)
    simp [findFreeLr, first, others]

section

variable (inside : irq < 256)
include inside

theorem mappedLr_inBounds : InBounds (s.mappedLr config cpu irq) := by
  have lrs := config.lrCnt_le
  simp only [mappedLr, inBounds_bind, inBounds_read, inBounds_ite, inBounds_pure]
  refine ⟨atCpu, fun vs _ => ⟨inside, fun lr _ => ⟨?_, fun _ => trivial⟩⟩⟩
  intro small
  refine ⟨testLrUsed_inBounds atCpu (by omega), fun _ _ => ⟨fun _ => trivial, fun _ => trivial⟩⟩

theorem queueNewLr_inBounds : InBounds (s.queueNewLr config cpu irq) := by
  have lrs := config.lrCnt_le
  simp only [queueNewLr, inBounds_bind]
  constructor
  · apply findFreeLr_inBounds atCpu
    intro lr mem
    have := mem_range.mp mem
    omega
  · intro free found
    cases free with
    | none => exact inBounds_pure _
    | some lr =>
      have inRange := mem_range.mp (findFreeLr_mem found)
      have small : lr < 64 := by omega
      simp [small, inside, atCpu]

@[simp] theorem queueIrq_inBounds : InBounds (s.queueIrq config cpu irq) := by
  simp only [queueIrq, inBounds_bind]
  refine ⟨mappedLr_inBounds atCpu inside, ?_⟩
  intro mapped _
  cases mapped with
  | none => exact queueNewLr_inBounds atCpu inside
  | some entry => simp [atCpu]

@[simp] theorem queueSources_inBounds (cpus : List Nat)
    (source : BitVec 32) : InBounds (queueSources config cpu irq cpus s source) := by
  induction cpus generalizing s source with
  | nil => exact inBounds_pure _
  | cons c rest ih =>
    simp [queueSources, atCpu, inside, ih]

end

@[simp] theorem queueSgi_inBounds (inside : irq < 16) : InBounds (s.queueSgi config cpu irq) := by
  have small : irq < 256 := by omega
  simp [queueSgi, atCpu, inside, small]

theorem queueHwirq_inBounds (inside : irq < 256) : InBounds (s.queueHwirq config cpu irq) := by
  simp [queueHwirq, inside, atCpu, setActive]

/-! ## Synchronising with the hardware -/

@[simp] theorem pendingWord_inBounds {word : Nat} (inside : word < 8) :
    InBounds (s.pendingWord cpu word) := by
  simp only [pendingWord, subid, readBits, inBounds_bind, inBounds_read, inBounds_pure]
  refine ⟨⟨atCpu, fun _ _ => trivial⟩, ?_⟩
  intro cpu' isCpu
  have same : cpu' = cpu := by
    simp only [Table.read, atCpu, dite_true, bind, Except.bind, pure, Except.pure] at isCpu
    cases isCpu
    rfl
  subst same
  simp [atCpu, inside]

@[simp] theorem vcpuIrqPending_inBounds : InBounds (s.vcpuIrqPending cpu) := by
  have words : InBounds ((List.range 8).anyM fun word => (· != 0#32) <$> s.pendingWord cpu word) := by
    apply inBounds_anyM
    intro word mem
    simp [atCpu, mem_range.mp mem]
  simp [vcpuIrqPending, words, atCpu]

theorem queueHwirqs_inBounds {first : Nat} {mask : BitVec 32} {numbers : List Nat}
    (inside : ∀ n ∈ numbers, first + n < 256) : InBounds (queueMask
      (fun s irq => s.queueHwirq config cpu irq) first mask numbers s) :=
  queueMask_inBounds fun n mem _ => queueHwirq_inBounds atCpu (inside n mem)

theorem queueShared_inBounds {words : List Nat} (inside : ∀ word ∈ words, word < 8) :
    InBounds (queueShared config cpu words s) := by
  induction words generalizing s with
  | nil => exact inBounds_pure _
  | cons word rest ih =>
    have small := inside word mem_cons_self
    have others : ∀ s, InBounds (queueShared config cpu rest s) := fun s =>
      ih fun w mem => inside w (mem_cons_of_mem word mem)
    have inWord : ∀ n ∈ List.range 32, word * 32 + n < 256 := by
      intro n mem
      have := mem_range.mp mem
      omega
    simp [queueShared, atCpu, small, queueHwirqs_inBounds atCpu inWord, others]

@[simp] theorem queuePrivate_inBounds : InBounds (s.queuePrivate config cpu) := by
  have ppis : ∀ n ∈ List.range' 16 16, 0 + n < 256 := by
    intro n mem
    have := mem_range'_1.mp mem
    omega
  simp +contextual [queuePrivate, atCpu, queueMask_inBounds, queueHwirqs_inBounds atCpu ppis]

@[simp] theorem flushVcpuHwstate_inBounds : InBounds (s.flushVcpuHwstate config cpu) := by
  have shared : ∀ s, InBounds (queueShared config cpu (List.range' 1 7) s) := by
    intro s
    apply queueShared_inBounds atCpu
    intro word mem
    have := mem_range'_1.mp mem
    omega
  simp [flushVcpuHwstate, atCpu, shared]

theorem reclaimLr_inBounds (small : lr < 64) :
    InBounds (s.reclaimLr config cpu lr) := by
  simp only [reclaimLr, inBounds_bind, inBounds_read]
  refine ⟨atCpu, fun vs _ => ⟨by simp [atCpu], fun s _ => ?_⟩⟩
  generalize (vs.lr lr).virtid.toNat = irq
  by_cases tooBig : 256 ≤ irq
  · simp [tooBig]
  · have inside : irq < 256 := by omega
    simp [tooBig, inside, clearActive, atCpu, small]

@[simp] theorem reclaimLrs_inBounds {done0 done1 : BitVec 32} :
    InBounds (s.reclaimLrs config done0 done1 cpu) := by
  have lrs := config.lrCnt_le
  apply inBounds_foldlM_range
  intro lr inRange s
  have reclaimed : InBounds (s.reclaimLr config cpu lr) := reclaimLr_inBounds atCpu (by omega)
  simp [reclaimed]

@[simp] theorem syncVcpuHwstate_inBounds :
    InBounds (s.syncVcpuHwstate config status cpu) := by
  simp [syncVcpuHwstate, atCpu]

@[simp] theorem syncAndFlushVcpu_inBounds :
    InBounds (s.syncAndFlushVcpu config status cpu) := by
  simp [syncAndFlushVcpu, atCpu]

end AtCpu

/-! ## Device interrupts -/

@[simp] theorem levelChange_inBounds {target : BitVec 32} {level : Int} (inside : irq < 256) :
    InBounds (s.levelChange config irq cm target level) := by
  simp [levelChange, inside, setLevel, clearLevel]

theorem route_cpu {number cpu : Int} {target : BitVec 32}
    (routed : s.route config irq number = .ok (some (cm, target, cpu))) :
    (irq < 32 ∧ cpu = number) ∨ (0 ≤ cpu ∧ cpu < config.numCpu) := by
  unfold route at routed
  by_cases isPrivate : irq < 32
  · rw [if_pos isPrivate] at routed
    cases routed
    exact Or.inl ⟨isPrivate, rfl⟩
  · rw [if_neg isPrivate] at routed
    cases read : s.irqTarget.read irq with
    | error fault =>
      rw [read] at routed
      cases routed
    | ok mask =>
      rw [read] at routed
      simp only [bind, Except.bind] at routed
      split at routed
      · next first found =>
        cases routed
        have inRange := mem_range.mp (mem_of_find?_eq_some found)
        exact Or.inr ⟨by omega, by omega⟩
      · cases routed

theorem irqHandle_inBounds {isCurrent : Bool} {number : Int} {levels : List Int}
    (inside : irq < 256) (present : irq < 32 → number < config.numCpu) :
    InBounds (s.irqHandle config status isCurrent irq number levels) := by
  have cpus := config.numCpu_le
  unfold irqHandle
  split
  · exact inBounds_pure _
  rw [inBounds_bind]
  constructor
  · simp only [route, inBounds_ite, inBounds_pure, inBounds_bind, inBounds_read]
    refine ⟨fun _ => trivial, fun _ => ⟨inside, fun _ _ => ?_⟩⟩
    split <;> simp
  · intro routed isRouted
    cases routed with
    | none => exact inBounds_pure _
    | some destination =>
      obtain ⟨cm, target, cpu⟩ := destination
      by_cases negative : cpu < 0
      · simp [negative]
      · have atCpu : cpu.toNat < 8 := by
          rcases route_cpu isRouted with ⟨isPrivate, rfl⟩ | ⟨_, small⟩
          · omega
          · omega
        simp [negative, inBounds_foldlM, inside, atCpu]

theorem irqMapHost2guest_inBounds {hostIrq : BitVec 32} :
    InBounds (s.irqMapHost2guest config irq hostIrq) := by
  have irqs := config.numIrq_le
  simp only [irqMapHost2guest, setHostIrq, inBounds_ite, inBounds_pure, modifyIrq_inBounds]
  refine ⟨fun _ => trivial, ?_⟩
  omega

/-! ## Distributor registers -/

section Registers

variable {offset : Nat}

theorem collectBits_inBounds {count : Nat} {test : Nat → Checked (BitVec 8)}
    (inside : ∀ i < count, InBounds (test i)) : InBounds (collectBits count test) := by
  apply inBounds_foldlM_range
  intro i inRange dst
  simp [inside i inRange]

theorem forBits_inBounds {src : BitVec 8} {action : GuestState → Nat → Checked GuestState}
    (inside : ∀ i < 8, ∀ s, InBounds (action s i)) : InBounds (forBits src action s) := by
  apply inBounds_foldlM_range
  intro i inRange s
  simp [inside i inRange]

theorem enableIrq_inBounds (inside : irq < 256) : InBounds (s.enableIrq config cpu irq) := by
  simp [enableIrq, inside]

section

variable (atCpu : cpu < 8)
include atCpu

theorem distReadb_inBounds : InBounds (s.distReadb config cpu offset) := by
  have irqs := config.numIrq_le
  unfold distReadb
  split
  · simp
  · simp only [inBounds_ite, inBounds_pure, inBounds_map]
    refine ⟨fun _ => trivial, fun small => collectBits_inBounds fun i inRange => ?_⟩
    have inside : offset % 128 * 8 + i < 256 := by omega
    simp [testEnabled, inside]
  · simp only [inBounds_ite, inBounds_pure, inBounds_map]
    refine ⟨fun _ => trivial, fun small => collectBits_inBounds fun i inRange => ?_⟩
    have inside : offset % 128 * 8 + i < 256 := by omega
    simp [testPending, inside]
  · simp only [inBounds_ite, inBounds_pure, inBounds_map]
    refine ⟨fun _ => trivial, fun small => collectBits_inBounds fun i inRange => ?_⟩
    simp only [inBounds_bind, testActive_inBounds, inBounds_pure]
    exact ⟨by omega, fun _ _ => trivial⟩
  · simp only [inBounds_ite, inBounds_pure, inBounds_bind]
    refine ⟨fun _ => trivial, fun small => ⟨getPriority_inBounds (by omega) atCpu, fun _ _ => trivial⟩⟩
  · simp only [inBounds_ite, inBounds_pure, inBounds_bind, inBounds_read]
    exact ⟨fun _ => trivial, fun small => ⟨fun _ => trivial, fun _ => ⟨by omega, fun _ _ => trivial⟩⟩⟩
  · simp only [inBounds_ite, inBounds_pure, inBounds_map]
    refine ⟨fun _ => trivial, fun small => collectBits_inBounds fun i inRange => ?_⟩
    simp only [inBounds_bind, inBounds_read, inBounds_pure]
    exact ⟨by omega, fun _ _ => trivial⟩
  · simp only [inBounds_ite, inBounds_pure, inBounds_bind, inBounds_read]
    refine ⟨fun high => ⟨fun _ => trivial, fun _ => ⟨?_, fun _ _ => trivial⟩⟩, fun _ => trivial⟩
    omega
  · exact inBounds_pure _

theorem distRead_inBounds : InBounds (s.distRead config cpu offset) := by
  have bytes : ∀ left i dst, InBounds (distRead.go config s cpu offset left i dst) := by
    intro left
    induction left with
    | zero => exact fun _ _ => inBounds_pure _
    | succ left ih =>
      intro i dst
      rw [distRead.go, inBounds_bind]
      refine ⟨distReadb_inBounds atCpu, ?_⟩
      intro byte _
      cases byte with
      | none => exact inBounds_pure _
      | some byte => exact ih _ _
  exact bytes 4 0 0

theorem distWriteb_inBounds {src : BitVec 8} :
    InBounds (s.distWriteb config cpu offset src) := by
  have irqs := config.numIrq_le
  unfold distWriteb
  split
  · simp
  · simp only [inBounds_ite, inBounds_pure, inBounds_bind]
    refine ⟨fun _ => trivial, fun small => ⟨fun _ => ⟨?_, fun _ _ => trivial⟩,
      fun _ => ⟨?_, fun _ _ => trivial⟩⟩⟩
    · exact forBits_inBounds fun i inRange s => enableIrq_inBounds (by omega)
    · exact forBits_inBounds fun i inRange s => clearEnabled_inBounds (by omega)
  · simp only [inBounds_ite, inBounds_pure, inBounds_bind]
    refine ⟨fun _ => trivial, fun small => ⟨fun _ => ⟨?_, fun _ _ => trivial⟩,
      fun _ => ⟨?_, fun _ _ => trivial⟩⟩⟩
    · apply forBits_inBounds
      intro i inRange s
      simp only [inBounds_bind, inBounds_read]
      exact ⟨by omega, fun _ _ => setPending_inBounds (by omega)⟩
    · exact forBits_inBounds fun i inRange s => clearPending_inBounds (by omega)
  · exact inBounds_pure _
  · simp only [inBounds_ite, inBounds_pure, inBounds_bind, inBounds_read, inBounds_write]
    refine ⟨fun _ => trivial, fun small => ⟨fun isPrivate => ?_, fun shared => ?_⟩⟩
    · exact ⟨isPrivate, fun _ _ => ⟨atCpu, fun _ _ => ⟨isPrivate, fun _ _ => trivial⟩⟩⟩
    · exact ⟨by omega, fun _ _ => trivial⟩
  · simp only [inBounds_ite, inBounds_pure, inBounds_bind, inBounds_write]
    exact ⟨fun _ => trivial, fun small => ⟨by omega, fun _ _ => trivial⟩⟩
  · simp only [inBounds_ite, inBounds_pure, inBounds_bind]
    refine ⟨fun _ => trivial, fun small => ⟨inBounds_foldlM_range ?_ s, fun _ _ => trivial⟩⟩
    intro i inRange s
    rw [configureIrq, modifyIrq_inBounds]
    omega
  · exact inBounds_pure _

variable {src srcMask : BitVec 32}

theorem distWriteBytes_inBounds {left : Nat} :
    InBounds (distWriteBytes config cpu left offset srcMask src s) := by
  induction left generalizing offset srcMask src s with
  | zero => exact inBounds_pure _
  | succ left ih =>
    simp [distWriteBytes, distWriteb_inBounds atCpu, ih]

theorem writeSgi_inBounds
    (reach : ∀ i < config.numCpu, (sgiMask config cpu src).getLsbD i → sgiIrq src < 256) :
    InBounds (s.writeSgi config cpu src) := by
  have cpus := config.numCpu_le
  have sources : ∀ s : GuestState, sgiIrq src < 16 →
      InBounds (s.addSgiSources config cpu (sgiIrq src) (sgiMask config cpu src)) := by
    intro s small
    apply inBounds_foldlM_range
    intro i inRange s
    have there : i < 8 := by omega
    simp [subid, atCpu, there, small]
  have pending : InBounds (s.setPending config (sgiIrq src) (sgiMask config cpu src)) := by
    simp [setPending, updateBits_inBounds reach]
  simp only [writeSgi, inBounds_bind, inBounds_ite, inBounds_pure]
  exact ⟨pending, fun s _ => ⟨fun small => sources s small, fun _ => trivial⟩⟩

theorem distWrite_inBounds {status : LrStatus} (reach : offset = 0xF00 → ∀ i < config.numCpu,
      (sgiMask config cpu src).getLsbD i → sgiIrq src < 256) :
    InBounds (s.distWrite config status cpu offset srcMask src) := by
  have cpus := config.numCpu_le
  have lines : ∀ s : GuestState,
      InBounds ((List.range config.numCpu).mapM fun i => s.vcpuIrqPending i) := by
    intro s
    apply inBounds_mapM
    intro i mem
    have inRange := mem_range.mp mem
    exact vcpuIrqPending_inBounds (by omega)
  by_cases isSgi : offset = 0xF00
  · simp [distWrite, isSgi, writeSgi_inBounds atCpu (reach isSgi), atCpu, lines]
  · simp [distWrite, isSgi, distWriteBytes_inBounds, atCpu, lines]

end

end Registers

/-! ## Reset -/

theorem resetVcpu_inBounds {lr : Nat → Lr} (atCpu : cpu < 8) :
    InBounds (s.resetVcpu config lr cpu) := by
  have irqs := config.numIrq_le
  have lrs := config.lrCnt_le
  simp only [resetVcpu, inBounds_bind, modifyVcpu_inBounds]
  refine ⟨atCpu, fun s _ => ⟨inBounds_foldlM_range ?_ s, fun s _ => inBounds_foldlM_range ?_ s⟩⟩
  · intro word inRange s
    simp only [inBounds_bind, inBounds_read, inBounds_write, modifyVcpu_inBounds]
    exact ⟨atCpu, fun _ _ => ⟨by omega, fun _ _ => atCpu⟩⟩
  · intro irq inRange s
    exact setLrMap_inBounds atCpu (by omega)

theorem resetSgiSources_inBounds (atCpu : cpu < 8) : InBounds (s.resetSgiSources cpu) := by
  simp only [resetSgiSources, inBounds_bind, inBounds_read, inBounds_write, inBounds_pure]
  refine ⟨atCpu, fun row _ => ⟨inBounds_foldlM_range ?_ row, fun _ _ => ⟨atCpu, fun _ _ => trivial⟩⟩⟩
  intro irq inRange row
  simp [inRange]

theorem resetIrq_inBounds (inside : irq < 256) : InBounds (s.resetIrq config irq) := by
  simp [resetIrq, inside, clearActive]

theorem emulatorReset_inBounds {lr : Nat → Lr} : InBounds (s.emulatorReset config lr) := by
  have cpus := config.numCpu_le
  have irqs := config.numIrq_le
  simp only [emulatorReset, inBounds_bind, inBounds_pure]
  refine ⟨inBounds_foldlM_range ?_ s, fun s _ => ⟨inBounds_foldlM_range ?_ s, fun s _ =>
    ⟨inBounds_foldlM_range ?_ s, fun s _ => ⟨inBounds_foldlM_range ?_ s, fun _ _ => trivial⟩⟩⟩⟩
  · intro cpu inRange s
    exact resetVcpu_inBounds (by omega)
  · intro cpu inRange s
    exact resetSgiSources_inBounds (by omega)
  · intro irq inRange s
    exact resetIrq_inBounds (by omega)
  · intro irq inRange s
    have inside : irq < 256 := by omega
    simp [inside]

end GuestState

/-! ## Runs

Guest accesses from any VCPU, device interrupts, context switches, resets and
arbitrary changes of the list registers by the hardware interleave. -/

inductive Event where
  | read (cpu offset : Nat)
  | write (status : LrStatus) (cpu offset : Nat) (srcMask src : BitVec 32)
  | device (status : LrStatus) (isCurrent : Bool) (irq : Nat) (cpu : Int)
      (levels : List Int)
  | mapHost2guest (irq : Nat) (hostIrq : BitVec 32)
  | unmapHost2guest (irq : Nat)
  | syncAndFlush (status : LrStatus) (cpu : Nat)
  | save (status : LrStatus) (cpu : Nat)
  | restore (cpu : Nat)
  | hardware (cpu : Nat) (lr : Nat → Lr)
  | reset (lr : Nat → Lr)

variable (config : Config)

def Event.run (s : GuestState) : Event → Checked GuestState
  | .read cpu offset => (fun _ => s) <$> s.distRead config cpu offset
  | .write status cpu offset srcMask src =>
    (·.1) <$> s.distWrite config status cpu offset srcMask src
  | .device status isCurrent irq cpu levels =>
    (·.1) <$> s.irqHandle config status isCurrent irq cpu levels
  | .mapHost2guest irq hostIrq => s.irqMapHost2guest config irq hostIrq
  | .unmapHost2guest irq => s.irqUnmapHost2guest config irq
  | .syncAndFlush status cpu => (·.1) <$> s.syncAndFlushVcpu config status cpu
  | .save status cpu => s.syncVcpuHwstate config status cpu
  | .restore cpu => (·.1) <$> s.flushVcpuHwstate config cpu
  | .hardware cpu lr => s.modifyVcpu cpu fun vs => { vs with lr := lr }
  | .reset lr => s.emulatorReset config lr

/-- Accesses come from VCPUs of the guest with a 12-bit offset; devices raise interrupts
below `num_irq`, private ones for a VCPU of the guest. -/
def Event.Admissible : Event → Prop
  | .read cpu offset => cpu < config.numCpu ∧ offset < 0x1000
  | .write _ cpu offset _ _ => cpu < config.numCpu ∧ offset < 0x1000
  | .device _ _ irq cpu _ => irq < config.numIrq ∧ (irq < 32 → cpu < config.numCpu)
  | .mapHost2guest _ _ => True
  | .unmapHost2guest _ => True
  | .syncAndFlush _ cpu => cpu < config.numCpu
  | .save _ cpu => cpu < config.numCpu
  | .restore cpu => cpu < config.numCpu
  | .hardware cpu _ => cpu < config.numCpu
  | .reset _ => True

/-- A software interrupt that addresses a VCPU has a number below 256. -/
def Event.SgiInRange : Event → Prop
  | .write _ cpu offset _ src => offset = 0xF00 → ∀ i < config.numCpu,
      (sgiMask config cpu src).getLsbD i → sgiIrq src < 256
  | _ => True

theorem Event.run_inBounds {config : Config} {event : Event} (s : GuestState)
    (admissible : event.Admissible config) (inRange : event.SgiInRange config) :
    InBounds (event.run config s) := by
  have cpus := config.numCpu_le
  have irqs := config.numIrq_le
  cases event with
  | read cpu offset =>
    have atCpu : cpu < 8 := lt_of_lt_of_le admissible.1 cpus
    simp [Event.run, distRead_inBounds atCpu]
  | write status cpu offset srcMask src =>
    have atCpu : cpu < 8 := lt_of_lt_of_le admissible.1 cpus
    simp [Event.run, distWrite_inBounds atCpu inRange]
  | device status isCurrent irq cpu levels =>
    obtain ⟨below, present⟩ := admissible
    have inside : irq < 256 := lt_of_lt_of_le below irqs
    simp [Event.run, irqHandle_inBounds inside present]
  | mapHost2guest irq hostIrq => exact irqMapHost2guest_inBounds
  | unmapHost2guest irq => exact irqMapHost2guest_inBounds
  | syncAndFlush status cpu =>
    have atCpu : cpu < 8 := lt_of_lt_of_le admissible cpus
    simp [Event.run, atCpu]
  | save status cpu => exact syncVcpuHwstate_inBounds (lt_of_lt_of_le admissible cpus)
  | restore cpu =>
    have atCpu : cpu < 8 := lt_of_lt_of_le admissible cpus
    simp [Event.run, atCpu]
  | hardware cpu lr => exact modifyVcpu_inBounds.mpr (lt_of_lt_of_le admissible cpus)
  | reset lr => exact emulatorReset_inBounds

/-- The emulator runs, stopped at an assertion, or wrote or read outside an array. -/
inductive Machine where
  | running (s : GuestState)
  | stopped
  | corrupted

def Machine.after : Checked GuestState → Machine
  | .ok s => .running s
  | .error .bug => .stopped
  | .error .outOfBounds => .corrupted

def vgicSystem : System Machine Event where
  init machine := machine = .running (stateAlloc config)
  step machine event machine' := ∃ s, machine = .running s ∧ event.Admissible config ∧
    machine' = Machine.after (event.run config s)

/-- In every run whose software interrupts are in range, no array access leaves its array. -/
theorem vgicRun_inBounds {config : Config} {machine : Machine}
    (reached : ((vgicSystem config).restrict fun _ event => event.SgiInRange config).Reachable
      machine) : machine ≠ .corrupted := by
  cases reached with
  | start initial =>
    cases initial
    simp
  | next _ taken =>
    obtain ⟨inRange, s, rfl, admissible, rfl⟩ := taken
    have inBounds := Event.run_inBounds s admissible inRange
    cases result : Event.run config s _ with
    | ok s' => simp [Machine.after]
    | error fault =>
      cases fault with
      | bug => simp [Machine.after]
      | outOfBounds => exact absurd result inBounds

/-- What idle hardware reports. -/
def noStatus : LrStatus := ⟨fun _ => 0, fun _ => 0⟩

def oneCpu : Config := ⟨1, 256, 4, by decide, by decide, by decide⟩

def eightCpus : Config := ⟨8, 256, 4, by decide, by decide, by decide⟩

/-- In a guest with one VCPU, a software interrupt of the VCPU to itself. -/
theorem vgicRun_inBounds_sgi :
    emulatorProbe 1 none 3 = .ok oneCpu ∧ ∃ machine,
      (vgicSystem oneCpu).Reachable machine ∧ machine ≠ .corrupted := by
  let event : Event := .write noStatus 0 0xF00 0 0x02000001
  have admissible : event.Admissible oneCpu := ⟨by decide, by decide⟩
  have inRange : event.SgiInRange oneCpu := fun _ _ _ _ => by decide
  have reached : ((vgicSystem oneCpu).restrict fun _ event => event.SgiInRange oneCpu).Reachable
      (.after (event.run oneCpu (stateAlloc oneCpu))) :=
    .next (.start rfl) ⟨inRange, stateAlloc oneCpu, rfl, admissible, rfl⟩
  exact ⟨rfl, _, reached.of_restrict, vgicRun_inBounds reached⟩

/-- Eight VCPUs; the first one sends interrupt 1023 to the last one. The word it sets lies
behind the last row of the pending bits, outside the whole array. -/
theorem writeSgi_corrupts :
    emulatorProbe 8 none 3 = .ok eightCpus ∧ (vgicSystem eightCpus).Reachable .corrupted ∧
      8 * 8 ≤ 7 * 8 + sgiIrq 0x008003FF / 32 := by
  let event : Event := .write noStatus 0 0xF00 0 0x008003FF
  have admissible : event.Admissible eightCpus := ⟨by decide, by decide⟩
  have faults : event.run eightCpus (stateAlloc eightCpus) = .error .outOfBounds := rfl
  have taken : (vgicSystem eightCpus).step
      (.running (stateAlloc eightCpus)) event .corrupted := by
    refine ⟨_, rfl, admissible, ?_⟩
    rw [faults]
    rfl
  exact ⟨rfl, .next (.start rfl) taken, by decide⟩

end Xvisor.Vgic
