import Xvisor.Scheduler.Model
import Xvisor.Vcpu.Irq

/-!
# Waiting for an interrupt, step by step

Asserts on other host CPUs and the timeout event come between the steps of
`vmm_vcpu_irq_wait_timeout`, and their calls of `vcpu_irq_wfi_resume` later still.
-/

namespace Xvisor.Vcpu

open Lib Scheduler

inductive WaitPhase where
  | outside
  | checked (haveIrq : Bool) (nsecs : Nat)
  | waiting
  | pausing
  deriving DecidableEq

/-- The VCPU with the calls under way: asserts and timeouts that have yet to call
`vcpu_irq_wfi_resume`, and calls of this that have yet to resume the VCPU. -/
structure Wfi where
  irqs : VcpuIrqs
  state : VcpuState := .ready
  resumed : Bool := false
  phase : WaitPhase := .outside
  asserting : Nat := 0
  timedOut : Nat := 0
  resuming : Nat := 0

/-- Which interrupt is asserted or processed does not matter, only how many are owed. -/
inductive WfiStep where
  | wait (archPending : Bool) (nsecs : Nat)
  | process
  | preempt
  | dispatch
  | assert
  | timeout
  | wfiResume (timeout : Bool)
  | resume

@[grind] def haveIrq (archPending : Bool) (irqs : VcpuIrqs) : Bool :=
  irqs.executePending ≠ 0 || archPending

/-- The first locked section of `vmm_vcpu_irq_wait_timeout`. -/
@[grind] def waitLocked (haveIrq : Bool) (nsecs : Nat) (irqs : VcpuIrqs) : VcpuIrqs × WaitPhase :=
  if haveIrq then ({ irqs with wfiYieldCount := 0 }, .outside)
  else if irqs.wfiYieldCount < wfiYieldThreshold then
    ({ irqs with wfiYieldCount := irqs.wfiYieldCount + 1 }, .outside)
  else if irqs.wfiState then (irqs, .outside)
  else
    let nsecs := if nsecs = 0 then wfiTimeoutNsecs else nsecs
    ({ irqs with wfiState := true, wfiTimeout := some nsecs }, .waiting)

/-- The second check for interrupts, and the second locked section. -/
@[grind] def waitAgain (archPending : Bool) (irqs : VcpuIrqs) : VcpuIrqs × WaitPhase :=
  if haveIrq archPending irqs then
    ({ irqs with wfiYieldCount := 0, wfiState := false, wfiTimeout := none }, .outside)
  else (irqs, .pausing)

theorem vmmVcpuIrqWaitTimeout_eq {context : IrqContext} {irqs : VcpuIrqs}
    (normal : context.isNormal) (current : context.current) (archPending archPendingAgain : Bool)
    (nsecs : Nat) :
    (vmmVcpuIrqWaitTimeout context archPending archPendingAgain nsecs irqs).map Prod.fst =
      let (irqs, phase) := waitLocked (haveIrq archPending irqs) nsecs irqs
      some (if phase = .waiting then (waitAgain archPendingAgain irqs).1 else irqs) := by
  grind [vmmVcpuIrqWaitTimeout]

namespace Wfi

variable (s : Wfi)

/-- The next step of `vmm_vcpu_irq_wait_timeout`. -/
@[grind] def wait (archPending : Bool) (nsecs : Nat) : Wfi :=
  match s.phase with
  | .outside => { s with phase := .checked (haveIrq archPending s.irqs) nsecs }
  | .checked haveIrq nsecs =>
    let (irqs, phase) := waitLocked haveIrq nsecs s.irqs
    { s with irqs, phase }
  | .waiting =>
    let (irqs, phase) := waitAgain archPending s.irqs
    { s with irqs, phase }
  | .pausing =>
    if s.resumed then { s with resumed := false, phase := .outside }
    else { s with state := .paused, phase := .outside }

@[grind] def Enabled : WfiStep → Prop
  | .wait .. | .process | .preempt => s.state = .running
  | .dispatch => s.state = .ready
  | .assert => True
  | .timeout => s.irqs.wfiTimeout ≠ none
  | .wfiResume timeout => 0 < if timeout then s.timedOut else s.asserting
  | .resume => 0 < s.resuming

@[grind] def next : WfiStep → Wfi
  | .wait archPending nsecs => s.wait archPending nsecs
  | .process => { s with irqs := { s.irqs with executePending := s.irqs.executePending - 1 } }
  | .preempt => { s with state := .ready }
  | .dispatch => { s with state := .running, resumed := false }
  | .assert => { s with
      irqs := { s.irqs with executePending := s.irqs.executePending + 1 }
      asserting := s.asserting + 1 }
  | .timeout => { s with
      irqs := { s.irqs with wfiTimeout := none }
      timedOut := s.timedOut + 1 }
  | .wfiResume timeout => { s with
      irqs := vcpuIrqWfiResume timeout s.irqs
      asserting := if timeout then s.asserting else s.asserting - 1
      timedOut := if timeout then s.timedOut - 1 else s.timedOut
      resuming := if s.irqs.wfiState then s.resuming + 1 else s.resuming }
  | .resume => { s with
      state := if s.state = .paused then .ready else s.state
      resumed := s.resumed || s.state = .running
      resuming := s.resuming - 1 }

/-- A VCPU that has set its wait state is not preempted before it pauses: it would then be READY,
and a resume would do nothing. -/
@[grind] def Undisturbed (label : WfiStep) : Prop :=
  label = .preempt → s.phase ≠ .waiting ∧ s.phase ≠ .pausing

@[grind] structure Woken : Prop where
  owed : s.phase = .pausing ∨ s.state = .paused → s.irqs.executePending ≠ 0 →
    0 < s.asserting ∨ 0 < s.resuming ∨ s.phase = .pausing ∧ s.resumed
  sleeps : s.phase = .waiting ∨ s.phase = .pausing ∨ s.state = .paused →
    s.irqs.wfiState ∨ 0 < s.resuming ∨ s.phase ≠ .outside ∧ s.resumed
  timeout : s.irqs.wfiState → s.irqs.wfiTimeout ≠ none ∨ 0 < s.timedOut
  running : s.phase = .waiting ∨ s.phase = .pausing → s.state = .running
  notPaused : s.phase ≠ .outside → s.state ≠ .paused

variable {s}

theorem Woken.wait (woken : s.Woken) (running : s.state = .running) (archPending : Bool)
    (nsecs : Nat) : (s.wait archPending nsecs).Woken := by
  cases phase : s.phase with
  | outside | checked | waiting | pausing => constructor <;> grind

theorem Woken.next {label : WfiStep} (woken : s.Woken) (allowed : s.Undisturbed label)
    (enabled : s.Enabled label) : (s.next label).Woken := by
  cases label with
  | wait archPending nsecs => exact woken.wait enabled archPending nsecs
  -- the VCPU may no longer wait: then the call that ended this resumes it
  | wfiResume timeout => constructor <;> grind [vcpuIrqWfiResume]
  | process | preempt | dispatch | assert | timeout | resume => constructor <;> grind

end Wfi

def wfiSystem : System Wfi WfiStep where
  init s := ∃ irqs : VcpuIrqs, irqs.wfiState = false ∧ s = { irqs }
  step s label s' := s.Enabled label ∧ s.next label = s'

/-- A VCPU that sleeps with an interrupt owed is about to be resumed, and one that sleeps at all is
about to be resumed or has a timeout. -/
theorem wfi_wakes {s : Wfi} (reached : (wfiSystem.restrict Wfi.Undisturbed).Reachable s)
    (paused : s.state = .paused) :
    (s.irqs.executePending ≠ 0 → 0 < s.asserting ∨ 0 < s.resuming) ∧
      (0 < s.resuming ∨ s.irqs.wfiState ∧ (s.irqs.wfiTimeout ≠ none ∨ 0 < s.timedOut)) := by
  have woken : s.Woken := by
    refine reached.invariant Wfi.Woken ?_ ?_
    · rintro _ ⟨irqs, idle, rfl⟩
      constructor <;> simp_all
    · rintro s label _ woken ⟨allowed, enabled, rfl⟩
      exact woken.next allowed enabled
  grind

theorem wfi_wakes_asserted : ∃ s : Wfi, s.state = .paused ∧ s.irqs.executePending = 1 ∧
    (0 < s.asserting ∨ 0 < s.resuming) := by
  have start : (wfiSystem.restrict Wfi.Undisturbed).Reachable
      { irqs := { VcpuIrqs.zeroed with wfiYieldCount := 100 } } := .start ⟨_, rfl, rfl⟩
  have outside := start.step .dispatch ⟨nofun, rfl, rfl⟩
  have checked := outside.step (.wait false 0) ⟨nofun, rfl, rfl⟩
  have waiting := checked.step (.wait false 0) ⟨nofun, rfl, rfl⟩
  have pausing := waiting.step (.wait false 0) ⟨nofun, rfl, rfl⟩
  have paused := pausing.step (.wait false 0) ⟨nofun, rfl, rfl⟩
  have asserted := paused.step .assert ⟨nofun, trivial, rfl⟩
  exact ⟨_, rfl, rfl, (wfi_wakes asserted rfl).1 (by decide)⟩

end Xvisor.Vcpu
