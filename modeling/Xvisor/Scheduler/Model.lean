import Mathlib.Data.List.FinRange
import Xvisor.Lib.System
import Xvisor.Lib.Word

/-!
# The VCPU scheduler

Every host CPU has a ready queue with one list per priority and a current VCPU.
Critical sections are the atomic steps; the context switch is cut where it
releases and takes locks, so its progress is part of the state. `V` names the
VCPUs and `H` the host CPUs; neither needs to be finite.
-/

namespace Xvisor.Scheduler

open Function

universe u v

inductive VcpuState where
  | unknown
  | reset
  | ready
  | running
  | paused
  | halted
  deriving DecidableEq, Repr

inductive Rc where
  | ok
  | efail
  | einvalid
  deriving DecidableEq, Repr

/-- The scheduling fields of `struct vmm_vcpu`; `schedPriv` tells whether the ready
queue entry is allocated. -/
structure Vcpu (H : Type v) where
  state : VcpuState
  hcpu : H
  priority : Fin 8
  cpuAffinity : H → Bool
  resumed : Bool
  schedPriv : Bool

/-- How far a host CPU is inside `vmm_scheduler_switch`. From `dequeueing` on it holds
the `sched_lock` of its current VCPU. -/
inductive Phase (V : Type u) where
  | idle
  | dequeueing
  | dequeued (next : V)
  deriving DecidableEq

/-- A call of `scheduler_ipi_migrate_vcpu` on its way to `oldHcpu`. -/
structure Migration (V : Type u) (H : Type v) where
  oldHcpu : H
  vcpu : V
  newHcpu : H
  deriving DecidableEq

structure Sched (V : Type u) (H : Type v) where
  vcpu : V → Vcpu H
  rq : H → Fin 8 → List V
  currentVcpu : H → Option V
  phase : H → Phase V
  migrations : List (Migration V H)

namespace Sched

variable {V : Type u} {H : Type v}

section VcpuRecord

variable [DecidableEq V]

def setVcpu (s : Sched V H) (v : V) (record : Vcpu H) : Sched V H :=
  { s with vcpu := update s.vcpu v record }

variable (s : Sched V H) (v : V) (record : Vcpu H)

@[simp] theorem setVcpu_rq : (s.setVcpu v record).rq = s.rq := rfl

@[simp] theorem setVcpu_currentVcpu : (s.setVcpu v record).currentVcpu = s.currentVcpu := rfl

@[simp] theorem setVcpu_phase : (s.setVcpu v record).phase = s.phase := rfl

@[simp] theorem setVcpu_vcpu : (s.setVcpu v record).vcpu v = record := by
  simp [setVcpu]

@[simp] theorem setVcpu_vcpu_of_ne {w v : V} (other : w ≠ v) :
    (s.setVcpu v record).vcpu w = s.vcpu w := by
  simp [setVcpu, other]

theorem setVcpu_field {α : Type*} (field : Vcpu H → α) (same : field record = field (s.vcpu v))
    (w : V) : field ((s.setVcpu v record).vcpu w) = field (s.vcpu w) := by
  by_cases own : w = v
  · rw [own, setVcpu_vcpu, same]
  · rw [setVcpu_vcpu_of_ne _ _ own]

def setState (s : Sched V H) (v : V) (state : VcpuState) : Sched V H :=
  s.setVcpu v { s.vcpu v with state := state }

def setResumed (s : Sched V H) (v : V) (resumed : Bool) : Sched V H :=
  s.setVcpu v { s.vcpu v with resumed := resumed }

@[simp] theorem setResumed_currentVcpu (resumed : Bool) :
    (s.setResumed v resumed).currentVcpu = s.currentVcpu := rfl

end VcpuRecord

variable [DecidableEq H]

section

variable (s : Sched V H) (h : H)

def setPhase (phase : Phase V) : Sched V H :=
  { s with phase := update s.phase h phase }

@[simp] theorem setPhase_phase (phase : Phase V) : (s.setPhase h phase).phase h = phase := by
  simp [setPhase]

@[simp] theorem setPhase_phase_of_ne {h' h : H} (phase : Phase V)
    (other : h' ≠ h) : (s.setPhase h phase).phase h' = s.phase h' := by
  simp [setPhase, other]

variable (p : Fin 8) (list : List V)

def setList : Sched V H :=
  { s with rq := fun h' p' => if h' = h ∧ p' = p then list else s.rq h' p' }

@[simp] theorem setList_vcpu : (s.setList h p list).vcpu = s.vcpu := rfl

@[simp] theorem setList_currentVcpu : (s.setList h p list).currentVcpu = s.currentVcpu := rfl

@[simp] theorem setList_phase : (s.setList h p list).phase = s.phase := rfl

/-! ## The ready queues -/

def rqEnqueue (v : V) : Option (Sched V H) :=
  if (s.vcpu v).schedPriv then
    some (s.setList h (s.vcpu v).priority (s.rq h (s.vcpu v).priority ++ [v]))
  else none

end

variable {s t : Sched V H}

theorem rqEnqueue_frame {h : H} {v : V} (result : s.rqEnqueue h v = some t) :
    t.vcpu = s.vcpu ∧ t.currentVcpu = s.currentVcpu ∧ t.phase = s.phase := by
  unfold rqEnqueue at result
  split at result
  · cases result
    exact ⟨rfl, rfl, rfl⟩
  · cases result

def highestPriority (lists : Fin 8 → List V) : Option (Fin 8) :=
  (List.finRange 8).reverse.find? fun p => !(lists p).isEmpty

def rqDequeue (s : Sched V H) (h : H) : Option (V × Sched V H) :=
  match highestPriority (s.rq h) with
  | none => none
  | some p =>
    match s.rq h p with
    | [] => none
    | next :: rest => some (next, s.setList h p rest)

theorem rqDequeue_some {s' : Sched V H} {h : H} {next : V}
    (result : s.rqDequeue h = some (next, s')) :
    ∃ p rest, s.rq h p = next :: rest ∧ s' = s.setList h p rest := by
  unfold rqDequeue at result
  split at result
  · cases result
  · next p _ =>
    split at result
    · cases result
    · next head rest list =>
      cases result
      exact ⟨p, rest, list, rfl⟩

variable [DecidableEq V]

/-- `list_del_init` unlinks the entry from whatever list it is on. -/
def rqDetach (s : Sched V H) (v : V) : Option (Sched V H) :=
  if (s.vcpu v).schedPriv then
    some { s with rq := fun h p => (s.rq h p).filter (· ≠ v) }
  else none

omit [DecidableEq H] in
theorem rqDetach_frame {v : V} (result : s.rqDetach v = some t) :
    t.vcpu = s.vcpu ∧ t.currentVcpu = s.currentVcpu ∧ t.phase = s.phase := by
  unfold rqDetach at result
  split at result
  · cases result
    exact ⟨rfl, rfl, rfl⟩
  · cases result

section

variable (s : Sched V H)

omit [DecidableEq V] in
@[simp] theorem rqEnqueue_getD_phase (h : H) (v : V) :
    ((s.rqEnqueue h v).getD s).phase = s.phase := by
  cases result : s.rqEnqueue h v with
  | none => rfl
  | some t => exact (rqEnqueue_frame result).2.2

omit [DecidableEq H] in
@[simp] theorem rqDetach_getD_phase (v : V) : ((s.rqDetach v).getD s).phase = s.phase := by
  cases result : s.rqDetach v with
  | none => rfl
  | some t => exact (rqDetach_frame result).2.2

omit [DecidableEq V] in
theorem rqEnqueue_getD_vcpu (h : H) (v : V) : ((s.rqEnqueue h v).getD s).vcpu = s.vcpu := by
  cases result : s.rqEnqueue h v with
  | none => rfl
  | some t => exact (rqEnqueue_frame result).1

omit [DecidableEq H] in
theorem rqDetach_getD_vcpu (v : V) : ((s.rqDetach v).getD s).vcpu = s.vcpu := by
  cases result : s.rqDetach v with
  | none => rfl
  | some t => exact (rqDetach_frame result).1

end

/-! ## State changes -/

/-- The outcomes of the calls a state change makes outside the scheduler: allocating the
ready queue entry, and `arch_vcpu_init` with `vmm_vcpu_irq_init`. -/
structure Hooks where
  malloc : Bool
  vcpuInit : Rc

def changeToReset (hooks : Hooks) (s : Sched V H) (v : V) : Sched V H × Rc :=
  let vcpu := s.vcpu v
  match vcpu.state with
  | .unknown =>
    if hooks.malloc then
      (s.setVcpu v { vcpu with schedPriv := true, state := .reset }, .ok)
    else (s, .efail)
  | .reset => (s, .ok)
  | _ =>
    let s := s.setResumed v false
    let detached :=
      if s.currentVcpu vcpu.hcpu ≠ some v ∧ vcpu.state = .ready then s.rqDetach v else some s
    match detached with
    | none => (s, .efail)
    | some s => if hooks.vcpuInit = .ok then (s.setState v .reset, .ok) else (s, hooks.vcpuInit)

def changeToReady (s : Sched V H) (v : V) : Sched V H × Rc :=
  let vcpu := s.vcpu v
  match vcpu.state with
  | .reset | .paused =>
    match s.rqEnqueue vcpu.hcpu v with
    | some s => (s.setState v .ready, .ok)
    | none => (s, .efail)
  | .running => (s.setResumed v true, .ok)
  | .ready => (s, .ok)
  | _ => (s, .einvalid)

def changeToStopped (s : Sched V H) (v : V) (newState : VcpuState) : Sched V H × Rc :=
  let vcpu := s.vcpu v
  if vcpu.state = .ready ∨ vcpu.state = .running then
    let s := s.setResumed v false
    if vcpu.resumed ∧ newState = .paused then (s, .ok)
    else if s.currentVcpu vcpu.hcpu = some v then (s.setState v newState, .ok)
    else if vcpu.state = .ready then
      match s.rqDetach v with
      | some s => (s.setState v newState, .ok)
      | none => (s, .efail)
    else (s.setState v newState, .ok)
  else (s, .einvalid)

def stateChange (hooks : Hooks) (s : Sched V H) (v : V) (newState : VcpuState) : Sched V H × Rc :=
  match newState with
  | .unknown => (s.setVcpu v { s.vcpu v with schedPriv := false, state := .unknown }, .ok)
  | .reset => changeToReset hooks s v
  | .ready => changeToReady s v
  | .running => (s, .einvalid)
  | .paused => if (s.vcpu v).state = .paused then (s, .ok) else changeToStopped s v .paused
  | .halted => changeToStopped s v .halted

/-! ## Moving a VCPU to another host CPU -/

section

variable (s : Sched V H)

def setHcpu (v : V) (hcpu : H) : Sched V H × Rc :=
  let vcpu := s.vcpu v
  if vcpu.hcpu = hcpu then (s, .ok)
  else if !vcpu.cpuAffinity hcpu then (s, .einvalid)
  else if vcpu.state = .ready ∨ vcpu.state = .running then
    ({ s with migrations := s.migrations ++ [⟨vcpu.hcpu, v, hcpu⟩] }, .ok)
  else (s.setVcpu v { vcpu with hcpu := hcpu }, .ok)

/-- The results of `rq_detach` and `rq_enqueue` are not looked at. -/
def ipiMigrateVcpu (m : Migration V H) : Sched V H :=
  let vcpu := s.vcpu m.vcpu
  if vcpu.state ≠ .ready ∨ vcpu.hcpu ≠ m.oldHcpu ∨ vcpu.hcpu = m.newHcpu then s
  else
    let s := (s.rqDetach m.vcpu).getD s
    let s := s.setVcpu m.vcpu { vcpu with hcpu := m.newHcpu }
    (s.rqEnqueue m.newHcpu m.vcpu).getD s

/-! ## The context switch -/

variable (h : H)

/-- Take the current VCPU's lock and put it back on the ready queue if it was running. -/
def switchEnter : Sched V H :=
  match s.currentVcpu h with
  | none => s.setPhase h .dequeueing
  | some current =>
    let s :=
      if (s.vcpu current).state = .running then
        let s := s.setState current .ready
        (s.rqEnqueue h current).getD s
      else s
    s.setPhase h .dequeueing

/-- Take the next VCPU off the queue; with an empty queue the hypervisor panics. -/
def switchDequeue : Option (Sched V H) :=
  match s.rqDequeue h with
  | none => none
  | some (next, s) => some (s.setPhase h (.dequeued next))

def makeRunning (next : V) : Sched V H :=
  let s := s.setVcpu next { s.vcpu next with state := .running, resumed := false }
  { s with
    currentVcpu := update s.currentVcpu h (some next)
    phase := update s.phase h .idle }

/-- The section under the `sched_lock` of the dequeued VCPU. Without a current VCPU
(`__vmm_scheduler_next1`), or when the current one was dequeued again, its state is not
checked. -/
def switchTake (next : V) : Sched V H :=
  match s.currentVcpu h with
  | none => s.makeRunning h next
  | some current =>
    if next ≠ current ∧ (s.vcpu next).state ≠ .ready then s.setPhase h .dequeueing
    else s.makeRunning h next

def switchNext : Option (Sched V H) :=
  match s.phase h with
  | .dequeued next => some (s.switchTake h next)
  | _ => none

def rqLength : Nat :=
  ((List.finRange 8).map fun p => (s.rq h p).length).sum

end

/-- The `dequeue_again` loop run without interruption. Every round takes a VCPU off the
queue, so as many rounds as the queue is long reach either a READY VCPU or the panic. -/
def dequeueAgain : Nat → Sched V H → H → Option (Sched V H)
  | 0, _, _ => none
  | rounds + 1, s, h =>
    match s.switchDequeue h with
    | none => none
    | some s =>
      match s.switchNext h with
      | none => none
      | some s => if s.phase h = .idle then some s else dequeueAgain rounds s h

/-- `vmm_scheduler_switch` as one step. -/
def schedulerSwitch (s : Sched V H) (h : H) : Option (Sched V H) :=
  let s := s.switchEnter h
  dequeueAgain (s.rqLength h + 1) s h

end Sched

end Xvisor.Scheduler
