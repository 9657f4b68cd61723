import Mathlib.Data.Finset.Card
import Xvisor.Lib.System

/-!
# Interrupts of a VCPU

A VCPU keeps one three-state flag per interrupt and one counter,
`execute_pending`, of the attempts that are still owed. A deassert leaves it
alone; the wait-for-interrupt code reads only the counter.
-/

namespace Xvisor.Vcpu

open Function Lib Finset Nat

inductive IrqAssert where
  | deasserted
  | asserted
  | pending
  deriving DecidableEq, Repr

structure VcpuIrq where
  assert : IrqAssert
  reason : Nat
  deriving DecidableEq, Repr

/-- `struct vmm_vcpu_irqs`. The array is a function of every index: the range
check of the operations lets `irq_count` itself through. `wfiTimeout` is the
delay the timeout event was started with, as long as it is active. -/
structure VcpuIrqs where
  irqCount : Nat
  irq : Nat → VcpuIrq
  executePending : Nat
  assertCount : Nat
  executeCount : Nat
  clearCount : Nat
  deassertCount : Nat
  wfiYieldCount : Nat
  wfiState : Bool
  wfiTimeout : Option Nat

/-- What the operations read of the VCPU around its `irqs` record. -/
structure IrqContext where
  isNormal : Bool
  interruptible : Bool
  current : Bool
  resetCount : Nat
  deriving DecidableEq, Repr

namespace VcpuIrqs

variable (irqs : VcpuIrqs)

def writeAssert (irqNo : Nat) (value : IrqAssert) : VcpuIrqs :=
  { irqs with irq := update irqs.irq irqNo { irqs.irq irqNo with assert := value } }

def writeReason (irqNo : Nat) (value : Nat) : VcpuIrqs :=
  { irqs with irq := update irqs.irq irqNo { irqs.irq irqNo with reason := value } }

/-- `arch_atomic_cmpxchg` on the `assert` flag: the value found, and the flag exchanged
when that is the expected one. -/
def cmpxchgAssert (irqNo : Nat) (expected value : IrqAssert) : IrqAssert × VcpuIrqs :=
  ((irqs.irq irqNo).assert,
    if (irqs.irq irqNo).assert = expected then irqs.writeAssert irqNo value else irqs)

end VcpuIrqs

/-- `arch_atomic_dec_if_positive`: the value left, unless it would be negative. -/
def archAtomicDecIfPositive : Nat → Option Nat
  | 0 => none
  | counter + 1 => some counter

/-! ## Processing -/

structure ArchPriority where
  priority : Nat → Nat
  positive : ∀ irqNo, 0 < priority irqNo

variable (arch : ArchPriority)

def findIrqTurn (irqs : VcpuIrqs) (best : Option Nat × Nat) (i : Nat) : Option Nat × Nat :=
  if (irqs.irq i).assert = .asserted then
    if best.2 < arch.priority i then (some i, arch.priority i) else best
  else best

def findIrq (irqs : VcpuIrqs) (count : Nat) : Option Nat × Nat :=
  (List.range count).foldl (findIrqTurn arch irqs) (none, 0)

/-- What one call of `vcpu_irq_process_one` does: the record it leaves, the interrupt and
reason it gave to `arch_vcpu_irq_execute`, and its result. -/
structure ProcessOne where
  irqs : VcpuIrqs
  executed : Option (Nat × Nat)
  more : Bool

/-- The part of `vcpu_irq_process_one` that executes the interrupt found, where `executeOk` is
the answer of `arch_vcpu_irq_execute`. -/
def executeFound (executeOk : Bool) (irqNo : Nat) (irqs : VcpuIrqs) : ProcessOne :=
  match irqs.cmpxchgAssert irqNo .asserted .pending with
  | (.asserted, irqs) =>
    let executed := some (irqNo, (irqs.irq irqNo).reason)
    if executeOk then
      ⟨{ irqs.writeAssert irqNo .deasserted with executeCount := irqs.executeCount + 1 },
        executed, true⟩
    else
      ⟨({ irqs with executePending := irqs.executePending + 1 }).writeAssert irqNo .asserted,
        executed, true⟩
  | (_, irqs) => ⟨irqs, none, true⟩

def vcpuIrqProcessOne (executeOk : Bool) (irqs : VcpuIrqs) : ProcessOne :=
  match archAtomicDecIfPositive irqs.executePending with
  | none => ⟨irqs, none, false⟩
  | some left =>
    let irqs := { irqs with executePending := left }
    match (findIrq arch irqs irqs.irqCount).1 with
    | none => ⟨irqs, none, false⟩
    | some irqNo => executeFound executeOk irqNo irqs

/-- `while (vcpu_irq_process_one(vcpu, regs)) ;` with the given answers of
`arch_vcpu_irq_execute`; it has no result when the loop outlives them. -/
def processAll (arch : ArchPriority) : List Bool → VcpuIrqs → Option VcpuIrqs
  | [], _ => none
  | executeOk :: answers, irqs =>
    let one := vcpuIrqProcessOne arch executeOk irqs
    if one.more then processAll arch answers one.irqs else some one.irqs

variable (context : IrqContext)

def vmmVcpuIrqProcess (arch : ArchPriority) (canExecuteMultiple : Bool)
    (answers : List Bool) (irqs : VcpuIrqs) : Option VcpuIrqs :=
  if !context.isNormal then some irqs
  else if !context.interruptible then some irqs
  else if canExecuteMultiple then processAll arch answers irqs
  else
    match answers with
    | [] => none
    | executeOk :: _ => some (vcpuIrqProcessOne arch executeOk irqs).irqs

/-! ## Asserting and deasserting -/

/-- `vcpu_irq_wfi_resume`; `timeout` tells that it is called from the timeout event. -/
def vcpuIrqWfiResume (timeout : Bool) (irqs : VcpuIrqs) : VcpuIrqs :=
  let irqs := if timeout then irqs else { irqs with wfiYieldCount := 0 }
  if irqs.wfiState then { irqs with wfiState := false, wfiTimeout := none } else irqs

variable (archOk : Bool)

def vmmVcpuIrqAssert (irqNo reason : Nat) (irqs : VcpuIrqs) : VcpuIrqs :=
  if !context.isNormal then irqs
  else if !context.interruptible then irqs
  else if irqNo > irqs.irqCount then irqs
  else
    match irqs.cmpxchgAssert irqNo .deasserted .asserted with
    | (.deasserted, irqs) =>
      if archOk then
        vcpuIrqWfiResume false
          { irqs.writeReason irqNo reason with
            executePending := irqs.executePending + 1
            assertCount := irqs.assertCount + 1 }
      else irqs.writeAssert irqNo .deasserted
    | (_, irqs) => irqs

def vmmVcpuIrqClear (irqNo : Nat) (irqs : VcpuIrqs) : Option VcpuIrqs :=
  if !context.isNormal then some irqs
  else if irqNo > irqs.irqCount then some irqs
  else if !context.current then none
  else
    let irqs := if archOk then { irqs with clearCount := irqs.clearCount + 1 } else irqs
    some ((irqs.writeAssert irqNo .deasserted).writeReason irqNo 0)

def vmmVcpuIrqDeassert (irqNo : Nat) (irqs : VcpuIrqs) : VcpuIrqs :=
  if !context.isNormal then irqs
  else if irqNo > irqs.irqCount then irqs
  else
    let irqs := if archOk then { irqs with deassertCount := irqs.deassertCount + 1 } else irqs
    (irqs.writeAssert irqNo .deasserted).writeReason irqNo 0

/-! ## Waiting -/

def wfiYieldThreshold : Nat := 100

/-- `CONFIG_WFI_TIMEOUT_MSECS * 1000000`, with the default of the option. -/
def wfiTimeoutNsecs : Nat := 100 * 1000000

inductive WaitEffect where
  | stay
  | yield
  | pause
  deriving DecidableEq, Repr

variable (irqs : VcpuIrqs)

def vmmVcpuIrqWaitResume : VcpuIrqs :=
  if !context.isNormal then irqs
  else if context.interruptible then vcpuIrqWfiResume false irqs else irqs

/-- `vcpu_irq_wfi_timeout`, the handler of the timeout event. -/
def vcpuIrqWfiTimeout : VcpuIrqs :=
  let irqs := { irqs with wfiTimeout := none }
  if context.interruptible then vcpuIrqWfiResume true irqs else irqs

/-- `vmm_vcpu_irq_wait_timeout`, where `archPending` and `archPendingAgain` are the two answers of
`arch_vcpu_irq_pending`. No result is the `BUG_ON` of a VCPU that is not the current one. -/
def vmmVcpuIrqWaitTimeout (archPending archPendingAgain : Bool)
    (nsecs : Nat) (irqs : VcpuIrqs) : Option (VcpuIrqs × WaitEffect) :=
  if !context.isNormal then some (irqs, .stay)
  else if !context.current then none
  else if irqs.executePending ≠ 0 ∨ archPending then
    some ({ irqs with wfiYieldCount := 0 }, .stay)
  else if irqs.wfiYieldCount < wfiYieldThreshold then
    some ({ irqs with wfiYieldCount := irqs.wfiYieldCount + 1 }, .yield)
  else if irqs.wfiState then some (irqs, .stay)
  else if irqs.executePending ≠ 0 ∨ archPendingAgain then
    some ({ irqs with wfiYieldCount := 0, wfiState := false, wfiTimeout := none }, .stay)
  else
    let nsecs := if nsecs = 0 then wfiTimeoutNsecs else nsecs
    some ({ irqs with wfiState := true, wfiTimeout := some nsecs }, .pause)

/-! ## Initialisation -/

/-- Outcomes of `vmm_vcpu_irq_init` that leave no usable record. -/
inductive IrqInitError where
  | nomem
  | timerStop
  deriving DecidableEq, Repr

/-- The answers `vmm_vcpu_irq_init` gets from its callees: `arch_vcpu_irq_count`, the two
allocations and `vmm_timer_event_stop`. -/
structure IrqInitAnswers where
  archIrqCount : Nat
  irqAlloc : Bool
  eventAlloc : Bool
  timerStop : Bool
  deriving DecidableEq, Repr

def VcpuIrqs.zeroed : VcpuIrqs where
  irqCount := 0
  irq := fun _ => ⟨.deasserted, 0⟩
  executePending := 0
  assertCount := 0
  executeCount := 0
  clearCount := 0
  deassertCount := 0
  wfiYieldCount := 0
  wfiState := false
  wfiTimeout := none

/-- The part of `vmm_vcpu_irq_init` that every reset runs. -/
def irqReset (irqCount : Nat) (irqs : VcpuIrqs) : VcpuIrqs where
  irqCount := irqCount
  irq := fun i => if i < irqCount then ⟨.deasserted, 0⟩ else irqs.irq i
  executePending := 0
  assertCount := 0
  executeCount := 0
  clearCount := 0
  deassertCount := 0
  wfiYieldCount := 0
  wfiState := false
  wfiTimeout := none

def vmmVcpuIrqInit (answers : IrqInitAnswers) (irqs : VcpuIrqs) : Except IrqInitError VcpuIrqs :=
  if !context.isNormal then .ok irqs
  else if context.resetCount = 0 ∧ !answers.irqAlloc then .error .nomem
  else if context.resetCount = 0 ∧ !answers.eventAlloc then .error .nomem
  else if !answers.timerStop then .error .timerStop
  else
    .ok (irqReset answers.archIrqCount (if context.resetCount = 0 then .zeroed else irqs))

/-! ## Runs -/

/-- A call of one of the operations, with the answers of the code it calls. -/
inductive IrqEvent where
  | assert (context : IrqContext) (archOk : Bool) (irqNo reason : Nat)
  | deassert (context : IrqContext) (archOk : Bool) (irqNo : Nat)
  | clear (context : IrqContext) (archOk : Bool) (irqNo : Nat)
  | process (context : IrqContext) (arch : ArchPriority) (canExecuteMultiple : Bool)
      (answers : List Bool)
  | init (context : IrqContext) (answers : IrqInitAnswers)
  | waitTimeout (context : IrqContext) (archPending archPendingAgain : Bool) (nsecs : Nat)
  | waitResume (context : IrqContext)
  | wfiTimeout (context : IrqContext)

/-- The record an event leaves, when the call returns and the record is still there. -/
def IrqEvent.run : IrqEvent → Option VcpuIrqs
  | .assert context archOk irqNo reason => some (vmmVcpuIrqAssert context archOk irqNo reason irqs)
  | .deassert context archOk irqNo => some (vmmVcpuIrqDeassert context archOk irqNo irqs)
  | .clear context archOk irqNo => vmmVcpuIrqClear context archOk irqNo irqs
  | .process context arch canExecuteMultiple answers =>
    vmmVcpuIrqProcess context arch canExecuteMultiple answers irqs
  | .init context answers => (vmmVcpuIrqInit context answers irqs).toOption
  | .waitTimeout context archPending archPendingAgain nsecs =>
    (vmmVcpuIrqWaitTimeout context archPending archPendingAgain nsecs irqs).map Prod.fst
  | .waitResume context => some (vmmVcpuIrqWaitResume context irqs)
  | .wfiTimeout context => some (vcpuIrqWfiTimeout context irqs)

def irqSystem : System VcpuIrqs IrqEvent where
  init irqs := ∃ irqCount, irqs = irqReset irqCount .zeroed
  step irqs event irqs' := event.run irqs = some irqs'

/-! ## Counting the asserted interrupts -/

namespace VcpuIrqs

def asserted (irqs : VcpuIrqs) : Finset Nat :=
  (range irqs.irqCount).filter fun irqNo => (irqs.irq irqNo).assert = .asserted

theorem mem_asserted (irqNo : Nat) :
    irqNo ∈ irqs.asserted ↔ irqNo < irqs.irqCount ∧ (irqs.irq irqNo).assert = .asserted := by
  simp [asserted]

/-- Every asserted interrupt has an attempt to execute it that is still owed, and none is owed to
a VCPU that waits for one. -/
structure Owed (irqs : VcpuIrqs) : Prop where
  asserted_le : irqs.asserted.card ≤ irqs.executePending
  waiting : irqs.wfiState = true → irqs.executePending = 0

structure SameBut (irqNo : Nat) (irqs irqs' : VcpuIrqs) : Prop where
  irqCount : irqs'.irqCount = irqs.irqCount
  others : ∀ i, i ≠ irqNo → (irqs'.irq i).assert = (irqs.irq i).assert

variable {irqs irqs' : VcpuIrqs} {irqNo : Nat}

section

variable (same : SameBut irqNo irqs irqs')
include same

theorem SameBut.subset_insert : irqs'.asserted ⊆ insert irqNo irqs.asserted := by
  intro i inAsserted
  rw [mem_asserted, same.irqCount] at inAsserted
  rw [mem_insert]
  by_cases isIrqNo : i = irqNo
  · exact .inl isIrqNo
  · refine .inr ((mem_asserted irqs i).mpr ⟨inAsserted.1, ?_⟩)
    rw [← same.others i isIrqNo]
    exact inAsserted.2

theorem SameBut.card_le : irqs'.asserted.card ≤ irqs.asserted.card + 1 :=
  (card_le_card same.subset_insert).trans (card_insert_le _ _)

theorem SameBut.subset_erase (taken : (irqs'.irq irqNo).assert ≠ .asserted) :
    irqs'.asserted ⊆ irqs.asserted.erase irqNo := by
  have gone : irqNo ∉ irqs'.asserted := fun stays => taken ((mem_asserted _ _).mp stays).2
  intro i stays
  have other : i ≠ irqNo := ne_of_mem_of_not_mem stays gone
  have before := mem_insert.mp (same.subset_insert stays)
  exact mem_erase.mpr ⟨other, before.resolve_left other⟩

end

theorem Owed.of_subset (owed : irqs.Owed) (subset : irqs'.asserted ⊆ irqs.asserted)
    (executePending : irqs'.executePending = irqs.executePending)
    (wfiState : irqs'.wfiState = true → irqs.wfiState = true) : irqs'.Owed where
  asserted_le := by
    rw [executePending]
    exact (card_le_card subset).trans owed.asserted_le
  waiting waits := by
    rw [executePending]
    exact owed.waiting (wfiState waits)

theorem Owed.of_irq (owed : irqs.Owed) (irqCount : irqs'.irqCount = irqs.irqCount)
    (irq : irqs'.irq = irqs.irq) (executePending : irqs'.executePending = irqs.executePending)
    (wfiState : irqs'.wfiState = true → irqs.wfiState = true) : irqs'.Owed := by
  have flags : irqs'.asserted = irqs.asserted := by
    unfold asserted
    rw [irqCount, irq]
  exact owed.of_subset flags.subset executePending wfiState

@[simp] theorem writeAssert_assert (irqs : VcpuIrqs) (irqNo : Nat) (value : IrqAssert) :
    ((irqs.writeAssert irqNo value).irq irqNo).assert = value := by
  simp [writeAssert]

theorem writeAssert_sameBut (irqs : VcpuIrqs) (irqNo : Nat) (value : IrqAssert) :
    SameBut irqNo irqs (irqs.writeAssert irqNo value) where
  irqCount := rfl
  others i other := by simp [writeAssert, other]

@[simp] theorem writeReason_assert (irqs : VcpuIrqs) (irqNo i reason : Nat) :
    ((irqs.writeReason irqNo reason).irq i).assert = (irqs.irq i).assert := by
  unfold writeReason
  by_cases same : i = irqNo
  · subst same
    simp
  · simp [same]

theorem SameBut.trans {irqs'' : VcpuIrqs} (first : SameBut irqNo irqs irqs')
    (second : SameBut irqNo irqs' irqs'') : SameBut irqNo irqs irqs'' where
  irqCount := second.irqCount.trans first.irqCount
  others i other := (second.others i other).trans (first.others i other)

theorem SameBut.of_assert {irqs'' : VcpuIrqs} (same : SameBut irqNo irqs irqs')
    (irqCount : irqs''.irqCount = irqs'.irqCount)
    (assert : ∀ i, (irqs''.irq i).assert = (irqs'.irq i).assert) : SameBut irqNo irqs irqs'' where
  irqCount := irqCount.trans same.irqCount
  others i other := (assert i).trans (same.others i other)

end VcpuIrqs

open VcpuIrqs

/-! ## The interrupt of maximal priority -/

def IsHighest (arch : ArchPriority) (irqs : VcpuIrqs) (irqNo : Nat) : Prop :=
  irqNo ∈ irqs.asserted ∧ ∀ other ∈ irqs.asserted, arch.priority other ≤ arch.priority irqNo

structure BestOf (arch : ArchPriority) (irqs : VcpuIrqs) (count : Nat)
    (best : Option Nat × Nat) : Prop where
  bound : ∀ i < count, (irqs.irq i).assert = .asserted → arch.priority i ≤ best.2
  nothing : best.1 = none → best.2 = 0
  found : ∀ irqNo, best.1 = some irqNo →
    irqNo < count ∧ (irqs.irq irqNo).assert = .asserted ∧ best.2 = arch.priority irqNo

variable {arch : ArchPriority} {irqs irqs' : VcpuIrqs}

section

variable {count : Nat} {best : Option Nat × Nat} (sofar : BestOf arch irqs count best)
include sofar

theorem BestOf.skip (lower : (irqs.irq count).assert = .asserted → arch.priority count ≤ best.2) :
    BestOf arch irqs (count + 1) best := by
  refine ⟨?_, sofar.nothing, fun irqNo chosen => ?_⟩
  · intro i below flag
    rcases Nat.lt_succ_iff_lt_or_eq.mp below with earlier | rfl
    · exact sofar.bound i earlier flag
    · exact lower flag
  · obtain ⟨below, flag⟩ := sofar.found irqNo chosen
    exact ⟨lt_succ_of_lt below, flag⟩

theorem BestOf.turn : BestOf arch irqs (count + 1) (findIrqTurn arch irqs best count) := by
  unfold findIrqTurn
  split_ifs with asserted higher
  · refine ⟨?_, nofun, ?_⟩
    · intro i below _
      rcases Nat.lt_succ_iff_lt_or_eq.mp below with earlier | rfl
      · exact (sofar.bound i earlier ‹_›).trans (le_of_lt higher)
      · exact le_rfl
    · rintro irqNo ⟨⟩
      exact ⟨lt_succ_self _, asserted, rfl⟩
  · exact sofar.skip fun _ => Nat.le_of_not_lt higher
  · exact sofar.skip fun flag => absurd flag asserted

end

theorem findIrq_bestOf (arch : ArchPriority) (irqs : VcpuIrqs) (count : Nat) :
    BestOf arch irqs count (findIrq arch irqs count) := by
  induction count with
  | zero => exact ⟨nofun, fun _ => rfl, nofun⟩
  | succ count ih =>
    unfold findIrq at ih ⊢
    rw [List.range_succ, List.foldl_append]
    exact ih.turn

variable {irqNo nsecs : Nat}

theorem findIrq_isHighest
    (chosen : (findIrq arch irqs irqs.irqCount).1 = some irqNo) : IsHighest arch irqs irqNo := by
  have best := findIrq_bestOf arch irqs irqs.irqCount
  obtain ⟨below, flag, priority⟩ := best.found irqNo chosen
  refine ⟨(mem_asserted irqs irqNo).mpr ⟨below, flag⟩, fun other inAsserted => ?_⟩
  obtain ⟨otherBelow, otherFlag⟩ := (mem_asserted irqs other).mp inAsserted
  rw [← priority]
  exact best.bound other otherBelow otherFlag

theorem findIrq_eq_none
    (nothing : (findIrq arch irqs irqs.irqCount).1 = none) : irqs.asserted = ∅ := by
  have best := findIrq_bestOf arch irqs irqs.irqCount
  refine eq_empty_of_forall_notMem fun irqNo inAsserted => ?_
  obtain ⟨below, flag⟩ := (mem_asserted irqs irqNo).mp inAsserted
  have bounded := best.bound irqNo below flag
  rw [best.nothing nothing] at bounded
  exact absurd (arch.positive irqNo) (Nat.not_lt.mpr bounded)

/-! ## What one call of `vcpu_irq_process_one` does -/

/-- The interrupt is given to the architecture and leaves the ASSERTED state, or stays in it with
one more attempt owed. -/
structure Executes (executeOk : Bool) (irqNo : Nat) (irqs : VcpuIrqs) (one : ProcessOne) :
    Prop where
  executed : one.executed = some (irqNo, (irqs.irq irqNo).reason)
  sameBut : SameBut irqNo irqs one.irqs
  wfiState : one.irqs.wfiState = irqs.wfiState
  flag : (one.irqs.irq irqNo).assert = if executeOk then .deasserted else .asserted
  executePending : one.irqs.executePending =
    if executeOk then irqs.executePending else irqs.executePending + 1

theorem executeFound_executes (executeOk : Bool) (flag : (irqs.irq irqNo).assert = .asserted) :
    Executes executeOk irqNo irqs (executeFound executeOk irqNo irqs) := by
  have executing := writeAssert_sameBut irqs irqNo .pending
  have reason : ((irqs.writeAssert irqNo .pending).irq irqNo).reason = (irqs.irq irqNo).reason := by
    simp [writeAssert]
  unfold executeFound cmpxchgAssert
  simp only [flag, if_true]
  cases executeOk
  all_goals
    refine ⟨?_, ?_, rfl, ?_, rfl⟩
    · simp [reason]
    · exact (executing.trans (writeAssert_sameBut _ irqNo _)).of_assert rfl fun _ => rfl
    · exact writeAssert_assert _ irqNo _

/-- The cases of `vcpu_irq_process_one`: nothing is owed, what is owed was deasserted meanwhile,
or an asserted interrupt of maximal priority is executed. -/
theorem vcpuIrqProcessOne_cases (arch : ArchPriority) (executeOk : Bool) (irqs : VcpuIrqs) :
    (irqs.executePending = 0 ∧ vcpuIrqProcessOne arch executeOk irqs = ⟨irqs, none, false⟩) ∨
    (∃ left, irqs.executePending = left + 1 ∧ irqs.asserted = ∅ ∧
      vcpuIrqProcessOne arch executeOk irqs = ⟨{ irqs with executePending := left }, none, false⟩) ∨
    (∃ left irqNo, irqs.executePending = left + 1 ∧ IsHighest arch irqs irqNo ∧
      Executes executeOk irqNo { irqs with executePending := left }
        (vcpuIrqProcessOne arch executeOk irqs)) := by
  cases pending : irqs.executePending with
  | zero =>
    left
    refine ⟨rfl, ?_⟩
    simp only [vcpuIrqProcessOne, pending, archAtomicDecIfPositive]
  | succ left =>
    right
    cases chosen : (findIrq arch irqs irqs.irqCount).1 with
    | none =>
      refine .inl ⟨left, rfl, findIrq_eq_none chosen, ?_⟩
      have found : (findIrq arch { irqs with executePending := left } irqs.irqCount).1 = none :=
        chosen
      simp only [vcpuIrqProcessOne, pending, archAtomicDecIfPositive, found]
    | some irqNo =>
      have found :
          (findIrq arch { irqs with executePending := left } irqs.irqCount).1 = some irqNo := chosen
      have highest := findIrq_isHighest chosen
      refine .inr ⟨left, irqNo, rfl, highest, ?_⟩
      simp only [vcpuIrqProcessOne, pending, archAtomicDecIfPositive, found]
      exact executeFound_executes executeOk ((mem_asserted irqs irqNo).mp highest.1).2

theorem vcpuIrqProcessOne_isSome (arch : ArchPriority) (executeOk : Bool) (owed : irqs.Owed)
    (nonempty : irqs.asserted.Nonempty) :
    (vcpuIrqProcessOne arch executeOk irqs).executed.isSome := by
  rcases vcpuIrqProcessOne_cases arch executeOk irqs with
    ⟨nothing, -⟩ | ⟨left, -, empty, -⟩ | ⟨left, irqNo, -, -, executes⟩
  · have positive := nonempty.card_pos
    have bounded := owed.asserted_le
    omega
  · rw [empty] at nonempty
    exact absurd nonempty not_nonempty_empty
  · rw [executes.executed]
    rfl

theorem vcpuIrqProcessOne_isHighest {executeOk : Bool} {reason : Nat}
    (executed : (vcpuIrqProcessOne arch executeOk irqs).executed = some (irqNo, reason)) :
    IsHighest arch irqs irqNo ∧ reason = (irqs.irq irqNo).reason := by
  rcases vcpuIrqProcessOne_cases arch executeOk irqs with
    ⟨-, result⟩ | ⟨left, -, -, result⟩ | ⟨left, chosen, -, highest, executes⟩
  · rw [result] at executed
    cases executed
  · rw [result] at executed
    cases executed
  · rw [executes.executed] at executed
    cases executed
    exact ⟨highest, rfl⟩

/-! ## Every operation keeps what is owed -/

theorem vcpuIrqProcessOne_owed (arch : ArchPriority) (executeOk : Bool)
    (owed : irqs.Owed) : (vcpuIrqProcessOne arch executeOk irqs).irqs.Owed := by
  rcases vcpuIrqProcessOne_cases arch executeOk irqs with
    ⟨-, result⟩ | ⟨left, pending, empty, result⟩ | ⟨left, irqNo, pending, highest, executes⟩
  · rw [result]
    exact owed
  · rw [result]
    refine ⟨?_, fun waits => ?_⟩
    · show irqs.asserted.card ≤ left
      rw [empty]
      exact zero_le left
    · have nothing := owed.waiting waits
      omega
  · -- an attempt is owed, so the VCPU does not wait
    have notWaiting : (vcpuIrqProcessOne arch executeOk irqs).irqs.wfiState ≠ true := by
      rw [executes.wfiState]
      intro waits
      have nothing := owed.waiting waits
      omega
    refine ⟨?_, fun waits => absurd waits notWaiting⟩
    have bounded := owed.asserted_le
    rw [executes.executePending]
    cases executeOk with
    | true =>
      have fewer := card_le_card (executes.sameBut.subset_erase (by
        rw [executes.flag]
        decide))
      have erased : (irqs.asserted.erase irqNo).card + 1 = irqs.asserted.card :=
        card_erase_add_one highest.1
      exact le_of_succ_le_succ (calc
        _ ≤ (irqs.asserted.erase irqNo).card + 1 := succ_le_succ fewer
        _ = irqs.asserted.card := erased
        _ ≤ left + 1 := pending ▸ bounded)
    | false =>
      have inside : insert irqNo irqs.asserted = irqs.asserted := insert_eq_of_mem highest.1
      have kept := card_le_card (inside ▸ executes.sameBut.subset_insert)
      exact kept.trans (pending ▸ bounded)

theorem processAll_owed (arch : ArchPriority) {answers : List Bool} (owed : irqs.Owed)
    (done : processAll arch answers irqs = some irqs') : irqs'.Owed := by
  induction answers generalizing irqs with
  | nil => cases done
  | cons executeOk answers ih =>
    have one := vcpuIrqProcessOne_owed arch executeOk owed
    unfold processAll at done
    dsimp only at done
    split_ifs at done
    · exact ih one done
    · cases done
      exact one

variable {context : IrqContext}

theorem vmmVcpuIrqProcess_owed {canExecuteMultiple : Bool} {answers : List Bool} (owed : irqs.Owed)
    (done : vmmVcpuIrqProcess context arch canExecuteMultiple answers irqs = some irqs') :
    irqs'.Owed := by
  unfold vmmVcpuIrqProcess at done
  split_ifs at done
  · cases done
    exact owed
  · cases done
    exact owed
  · exact processAll_owed arch owed done
  · cases answers with
    | nil => cases done
    | cons executeOk answers =>
      cases done
      exact vcpuIrqProcessOne_owed arch executeOk owed

variable (timeout : Bool)

theorem vcpuIrqWfiResume_wfiState (irqs : VcpuIrqs) :
    (vcpuIrqWfiResume timeout irqs).wfiState = false := by
  unfold vcpuIrqWfiResume
  cases timeout <;> cases waits : irqs.wfiState <;> simp [waits]

theorem vcpuIrqWfiResume_same (irqs : VcpuIrqs) :
    (vcpuIrqWfiResume timeout irqs).irqCount = irqs.irqCount ∧
      (vcpuIrqWfiResume timeout irqs).irq = irqs.irq ∧
      (vcpuIrqWfiResume timeout irqs).executePending = irqs.executePending := by
  unfold vcpuIrqWfiResume
  dsimp only
  split_ifs <;> exact ⟨rfl, rfl, rfl⟩

theorem vcpuIrqWfiResume_owed (bounded : irqs.asserted.card ≤ irqs.executePending) :
    (vcpuIrqWfiResume timeout irqs).Owed := by
  obtain ⟨irqCount, irq, executePending⟩ := vcpuIrqWfiResume_same timeout irqs
  refine ⟨?_, fun waits => ?_⟩
  · unfold asserted
    rw [irqCount, irq, executePending]
    exact bounded
  · rw [vcpuIrqWfiResume_wfiState] at waits
    cases waits

theorem vmmVcpuIrqAssert_owed (context : IrqContext) (archOk : Bool) (irqNo reason : Nat)
    (owed : irqs.Owed) : (vmmVcpuIrqAssert context archOk irqNo reason irqs).Owed := by
  unfold vmmVcpuIrqAssert
  split
  · exact owed
  split
  · exact owed
  split
  · exact owed
  · cases flag : (irqs.irq irqNo).assert with
    | deasserted =>
      have written := writeAssert_sameBut irqs irqNo .asserted
      simp only [cmpxchgAssert, flag, if_true]
      split
      · apply vcpuIrqWfiResume_owed false
        refine (@SameBut.card_le _ _ irqNo ?_).trans (succ_le_succ owed.asserted_le)
        exact written.of_assert rfl fun i => writeReason_assert _ irqNo i reason
      · have same := written.trans (writeAssert_sameBut _ irqNo .deasserted)
        have dropped := same.subset_erase (by
          rw [writeAssert_assert]
          decide)
        exact owed.of_subset (dropped.trans (erase_subset _ _)) rfl id
    | asserted | pending =>
      simp only [cmpxchgAssert, flag]
      exact owed

theorem VcpuIrqs.Owed.deassert (owed : irqs.Owed) (irqNo : Nat) :
    ((irqs.writeAssert irqNo .deasserted).writeReason irqNo 0).Owed := by
  have same : SameBut irqNo irqs ((irqs.writeAssert irqNo .deasserted).writeReason irqNo 0) :=
    (writeAssert_sameBut irqs irqNo .deasserted).of_assert rfl
      fun i => writeReason_assert _ irqNo i 0
  have dropped := same.subset_erase (by
    rw [writeReason_assert, writeAssert_assert]
    decide)
  exact owed.of_subset (dropped.trans (erase_subset _ _)) rfl id

theorem vmmVcpuIrqDeassert_owed (context : IrqContext) (archOk : Bool) (irqNo : Nat)
    (owed : irqs.Owed) : (vmmVcpuIrqDeassert context archOk irqNo irqs).Owed := by
  unfold vmmVcpuIrqDeassert
  dsimp only
  split_ifs
  · exact owed
  · exact owed
  · apply Owed.deassert
    exact owed.of_irq rfl rfl rfl id
  · exact owed.deassert irqNo

theorem vmmVcpuIrqClear_owed {archOk : Bool} (owed : irqs.Owed)
    (done : vmmVcpuIrqClear context archOk irqNo irqs = some irqs') : irqs'.Owed := by
  unfold vmmVcpuIrqClear at done
  dsimp only at done
  split_ifs at done <;> cases done
  · exact owed
  · exact owed
  · apply Owed.deassert
    exact owed.of_irq rfl rfl rfl id
  · exact owed.deassert irqNo

variable {archPending archPendingAgain : Bool}

theorem vmmVcpuIrqWaitTimeout_cases {effect : WaitEffect}
    (done : vmmVcpuIrqWaitTimeout context archPending archPendingAgain nsecs irqs =
      some (irqs', effect)) :
    irqs'.irqCount = irqs.irqCount ∧ irqs'.irq = irqs.irq ∧
      irqs'.executePending = irqs.executePending ∧
      (effect = .pause ∧ irqs.executePending = 0 ∨
        effect ≠ .pause ∧ (irqs'.wfiState = true → irqs.wfiState = true)) := by
  unfold vmmVcpuIrqWaitTimeout at done
  dsimp only at done
  split_ifs at done with _ _ haveIrq yields waits again <;> cases done
  · exact ⟨rfl, rfl, rfl, .inr ⟨nofun, id⟩⟩
  · exact ⟨rfl, rfl, rfl, .inr ⟨nofun, id⟩⟩
  · exact ⟨rfl, rfl, rfl, .inr ⟨nofun, id⟩⟩
  · exact ⟨rfl, rfl, rfl, .inr ⟨nofun, id⟩⟩
  · exact ⟨rfl, rfl, rfl, .inr ⟨nofun, nofun⟩⟩
  all_goals exact ⟨rfl, rfl, rfl, .inl ⟨rfl, Decidable.not_not.mp fun owes => haveIrq (.inl owes)⟩⟩

theorem vmmVcpuIrqWaitTimeout_owed {effect : WaitEffect} (owed : irqs.Owed)
    (done : vmmVcpuIrqWaitTimeout context archPending archPendingAgain nsecs irqs =
      some (irqs', effect)) : irqs'.Owed := by
  obtain ⟨irqCount, irq, executePending, paused | staying⟩ := vmmVcpuIrqWaitTimeout_cases done
  · refine ⟨?_, fun _ => executePending.trans paused.2⟩
    unfold asserted
    rw [irqCount, irq, executePending]
    exact owed.asserted_le
  · exact owed.of_irq irqCount irq executePending staying.2

theorem irqReset_owed (irqCount : Nat) (irqs : VcpuIrqs) : (irqReset irqCount irqs).Owed := by
  refine ⟨?_, nofun⟩
  have none_asserted : (irqReset irqCount irqs).asserted = ∅ := by
    refine eq_empty_of_forall_notMem fun irqNo inAsserted => ?_
    obtain ⟨below, flag⟩ := (mem_asserted _ irqNo).mp inAsserted
    have deasserted : ((irqReset irqCount irqs).irq irqNo).assert = .deasserted := by
      simp [irqReset, show irqNo < irqCount from below]
    rw [deasserted] at flag
    cases flag
  rw [none_asserted]
  exact zero_le _

theorem vmmVcpuIrqInit_owed {answers : IrqInitAnswers} (owed : irqs.Owed)
    (done : vmmVcpuIrqInit context answers irqs = .ok irqs') : irqs'.Owed := by
  unfold vmmVcpuIrqInit at done
  split_ifs at done <;> cases done
  · exact owed
  · exact irqReset_owed _ _
  · exact irqReset_owed _ _

theorem IrqEvent.run_owed {event : IrqEvent} (owed : irqs.Owed)
    (ran : event.run irqs = some irqs') : irqs'.Owed := by
  cases event with
  | assert context archOk irqNo reason =>
    cases ran
    exact vmmVcpuIrqAssert_owed context archOk irqNo reason owed
  | deassert context archOk irqNo =>
    cases ran
    exact vmmVcpuIrqDeassert_owed context archOk irqNo owed
  | clear context archOk irqNo => exact vmmVcpuIrqClear_owed owed ran
  | process context arch canExecuteMultiple answers => exact vmmVcpuIrqProcess_owed owed ran
  | init context answers =>
    replace ran : (vmmVcpuIrqInit context answers irqs).toOption = some irqs' := ran
    cases done : vmmVcpuIrqInit context answers irqs with
    | error error =>
      rw [done] at ran
      cases ran
    | ok result =>
      rw [done] at ran
      cases ran
      exact vmmVcpuIrqInit_owed owed done
  | waitTimeout context archPending archPendingAgain nsecs =>
    obtain ⟨⟨result, effect⟩, done, rfl⟩ := Option.map_eq_some_iff.mp ran
    exact vmmVcpuIrqWaitTimeout_owed owed done
  | waitResume context =>
    cases ran
    unfold vmmVcpuIrqWaitResume
    split_ifs
    · exact owed
    · exact vcpuIrqWfiResume_owed false owed.asserted_le
    · exact owed
  | wfiTimeout context =>
    cases ran
    unfold vcpuIrqWfiTimeout
    dsimp only
    split_ifs
    · exact vcpuIrqWfiResume_owed true owed.asserted_le
    · exact owed.of_irq rfl rfl rfl id

theorem irqSystem_owed (reached : irqSystem.Reachable irqs) : irqs.Owed := by
  refine reached.invariant Owed ?_ ?_
  · rintro _ ⟨irqCount, rfl⟩
    exact irqReset_owed irqCount .zeroed
  · intro irqs event irqs' owed ran
    exact event.run_owed owed ran

theorem VcpuIrqs.Owed.asserted_eq_empty (owed : irqs.Owed)
    (nothing : irqs.executePending = 0) : irqs.asserted = ∅ := by
  have bounded := owed.asserted_le
  rw [nothing] at bounded
  exact card_eq_zero.mp (Nat.le_zero.mp bounded)

def byNumber : ArchPriority where
  priority irqNo := irqNo + 1
  positive irqNo := Nat.succ_pos irqNo

def runningVcpu : IrqContext := ⟨true, true, true, 0⟩

/-! ## Interrupt numbers out of range -/

inductive IrqOp where
  | assert (reason : Nat)
  | clear
  | deassert

structure IrqCall where
  op : IrqOp
  context : IrqContext
  archOk : Bool
  irqNo : Nat

namespace IrqCall

variable (call : IrqCall) (irqs : VcpuIrqs)

/-- The `BUG_ON` of `vmm_vcpu_irq_clear` leaves the record as it is. -/
def run : VcpuIrqs :=
  match call.op with
  | .assert reason => vmmVcpuIrqAssert call.context call.archOk call.irqNo reason irqs
  | .clear => (vmmVcpuIrqClear call.context call.archOk call.irqNo irqs).getD irqs
  | .deassert => vmmVcpuIrqDeassert call.context call.archOk call.irqNo irqs

/-- The checks that are not about the number. -/
def Passes : Prop :=
  call.context.isNormal = true ∧
    match call.op with
    | .assert _ => call.context.interruptible = true
    | .clear => call.context.current = true
    | .deassert => True

/-- The call reads or writes the entry with its number. -/
def Accesses : Prop := call.Passes ∧ ¬ call.irqNo > irqs.irqCount

/-- No other entry is ever written. A number out of range is not looked up and changes nothing. -/
structure Bounded : Prop where
  inside : call.Accesses irqs → call.irqNo < irqs.irqCount
  others : ∀ i ≠ call.irqNo, (call.run irqs).irq i = irqs.irq i
  refused : irqs.irqCount ≤ call.irqNo → call.run irqs = irqs

def AllBounded : VcpuIrqs → List IrqCall → Prop
  | _, [] => True
  | irqs, call :: calls => call.Bounded irqs ∧ AllBounded (call.run irqs) calls

theorem run_frame : (call.run irqs).irqCount = irqs.irqCount ∧
    ∀ i ≠ call.irqNo, (call.run irqs).irq i = irqs.irq i := by
  obtain ⟨op, context, archOk, irqNo⟩ := call
  have unwritten (value reason) (i : Nat) (other : i ≠ irqNo) :
      ((irqs.writeAssert irqNo value).writeReason irqNo reason).irq i = irqs.irq i := by
    simp [writeAssert, writeReason, other]
  cases op with
  | assert reason =>
    cases flag : (irqs.irq irqNo).assert with
    | deasserted =>
      simp only [run, vmmVcpuIrqAssert, cmpxchgAssert, flag, if_true]
      split_ifs
      · exact ⟨rfl, fun _ _ => rfl⟩
      · exact ⟨rfl, fun _ _ => rfl⟩
      · exact ⟨rfl, fun _ _ => rfl⟩
      · refine ⟨(vcpuIrqWfiResume_same false _).1, fun i other => ?_⟩
        rw [(vcpuIrqWfiResume_same false _).2.1]
        exact unwritten .asserted reason i other
      · exact ⟨rfl, fun i other => by simp [writeAssert, other]⟩
    | asserted | pending =>
      simp only [run, vmmVcpuIrqAssert, cmpxchgAssert, flag, reduceCtorEq, if_false, ite_self,
        implies_true, and_self]
  | clear | deassert =>
    simp only [run, vmmVcpuIrqClear, vmmVcpuIrqDeassert]
    split_ifs <;> first | exact ⟨rfl, fun _ _ => rfl⟩ | exact ⟨rfl, unwritten _ _⟩

theorem run_of_not_accesses (no : ¬ call.Accesses irqs) : call.run irqs = irqs := by
  obtain ⟨op, context, archOk, irqNo⟩ := call
  cases op <;> grind [run, Passes, Accesses, vmmVcpuIrqAssert, vmmVcpuIrqClear, vmmVcpuIrqDeassert]

theorem bounded_iff : call.Bounded irqs ↔ (call.Passes → call.irqNo ≠ irqs.irqCount) := by
  constructor
  · rintro ⟨inside, -, -⟩ passes same
    have := inside ⟨passes, by omega⟩
    omega
  · intro inRange
    have inside : call.Accesses irqs → call.irqNo < irqs.irqCount := by
      rintro ⟨passes, low⟩
      have := inRange passes
      omega
    refine ⟨inside, (call.run_frame irqs).2, fun high => ?_⟩
    exact call.run_of_not_accesses irqs fun accesses => absurd (inside accesses) (by omega)

end IrqCall

open IrqCall

/-- Calls stay within the array unless one with the number `irq_count` passes the other checks. -/
theorem irqCalls_bounded_iff (irqs : VcpuIrqs) (calls : List IrqCall) :
    AllBounded irqs calls ↔ ∀ call ∈ calls, call.Passes → call.irqNo ≠ irqs.irqCount := by
  induction calls generalizing irqs with
  | nil => simp [AllBounded]
  | cons call calls ih =>
    rw [AllBounded, bounded_iff, ih, (call.run_frame irqs).1, List.forall_mem_cons]

/-- The number `irq_count` is accepted, and the entry behind the array is written. -/
theorem irqCalls_overrun : ∃ irqs call, irqs.irqCount = 2 ∧ call.irqNo = 2 ∧
    (call.run irqs).irq 2 ≠ irqs.irq 2 ∧ (call.run irqs).executePending ≠ irqs.executePending ∧
    ¬ AllBounded irqs [call] :=
  ⟨irqReset 2 .zeroed, ⟨.assert 7, runningVcpu, true, 2⟩, rfl, rfl, by decide, by decide,
    fun bounded => absurd (bounded.1.inside ⟨⟨rfl, rfl⟩, by decide⟩) (by decide)⟩

end Xvisor.Vcpu
