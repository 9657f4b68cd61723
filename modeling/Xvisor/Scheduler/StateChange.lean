import Xvisor.Scheduler.Model

/-!
# Failed state changes

`vmm_scheduler_state_change` with everything a failure can leave behind: the
reset counter, the waitqueue of the VCPU and its cleanup callback, and the
preemption at the end, whose result replaces the one of the change.
-/

namespace Xvisor.Scheduler

open Function Sched

universe u v w

structure Waitqueue (V : Type u) where
  vcpuList : List V
  vcpuCount : Nat

/-- The waitqueue fields of `struct vmm_vcpu`: the queue and whether there is a timer event to
wake the VCPU, and whether the callback `waitqueue_cleanup` is set. -/
structure WaitContext (W : Type w) where
  wqPriv : Option (W × Bool)
  wqCleanup : Bool

structure WaitSched (V : Type u) (H : Type v) (W : Type w) extends Sched V H where
  isNormal : V → Bool
  resetCount : V → Nat
  wait : V → WaitContext W
  waitqueue : W → Waitqueue V
  wakeEvent : V → Bool
  yieldOnIrqExit : H → Bool

namespace WaitSched

variable {V : Type u} {H : Type v} {W : Type w} [DecidableEq V] [DecidableEq H] [DecidableEq W]

def vmmOk : Int := 0
def vmmEfail : Int := -1
def vmmEnotavail : Int := -3
def vmmEinvalid : Int := -5

variable (s : WaitSched V H W)

def withSched (sched : Sched V H) : WaitSched V H W :=
  { s with toSched := sched }

/-- `list_del_init` unlinks the VCPU from whatever waitqueue it is on. -/
def waitqueueCleanup (v : V) : WaitSched V H W :=
  match (s.wait v).wqPriv with
  | none => s
  | some (wq, timed) =>
    { s with
      wakeEvent := if timed then update s.wakeEvent v false else s.wakeEvent
      waitqueue := fun q =>
        { vcpuList := (s.waitqueue q).vcpuList.filter (· ≠ v)
          vcpuCount := (s.waitqueue q).vcpuCount - if q = wq then 1 else 0 }
      wait := update s.wait v { s.wait v with wqCleanup := false } }

/-- How a state change ends; `cleaned` tells whether the cleanup callback was called. -/
structure Outcome (V : Type u) (H : Type v) (W : Type w) where
  sched : WaitSched V H W
  rc : Int
  preempt : Bool
  cleaned : Bool

def cleanup (v : V) (rc : Int) (preempt : Bool) : Outcome V H W :=
  if (s.wait v).wqCleanup then ⟨s.waitqueueCleanup v, rc, preempt, true⟩
  else ⟨s, rc, preempt, false⟩

/-- The outcomes of the calls outside the scheduler. -/
structure InitHooks where
  malloc : Bool
  archVcpuInit : Int
  vcpuIrqInit : Int

structure Caller (H : Type v) where
  hcpu : H
  online : H → Bool

def isCurrent (v : V) : Prop := s.currentVcpu (s.vcpu v).hcpu = some v

instance (s : WaitSched V H W) (v : V) : Decidable (s.isCurrent v) :=
  inferInstanceAs (Decidable (_ = _))

def rqPremptNeeded (h : H) : Bool :=
  match s.currentVcpu h with
  | none => false
  | some current => decide (∃ p, (s.vcpu current).priority < p ∧ s.rq h p ≠ [])

variable (hooks : InitHooks) (s : WaitSched V H W) (v : V)

/-- Count the reset of a VCPU that is on no ready queue, and initialise it. -/
def countedInit (preempt : Bool) : Outcome V H W :=
  let s := { s with
    resetCount := update s.resetCount v ((s.resetCount v + 1) % 2 ^ 32) }
  if hooks.archVcpuInit ≠ vmmOk then ⟨s, hooks.archVcpuInit, preempt, false⟩
  else if hooks.vcpuIrqInit ≠ vmmOk then ⟨s, hooks.vcpuIrqInit, preempt, false⟩
  else ⟨s.withSched (s.setState v .reset), vmmOk, preempt, false⟩

def resetExisting : Outcome V H W :=
  let vcpu := s.vcpu v
  let sched := s.setResumed v false
  let detached := if ¬ s.isCurrent v ∧ vcpu.state = .ready then sched.rqDetach v else some sched
  match detached with
  | none => ⟨s.withSched sched, vmmEfail, false, false⟩
  | some sched =>
    (s.withSched sched).countedInit hooks v (decide (s.isCurrent v ∧ vcpu.state = .running))

def toReset : Outcome V H W :=
  match (s.vcpu v).state with
  | .unknown =>
    if hooks.malloc then
      ⟨s.withSched (s.setVcpu v { s.vcpu v with schedPriv := true, state := .reset }),
        vmmOk, false, false⟩
    else ⟨s, vmmEfail, false, false⟩
  | .reset => ⟨s, vmmOk, false, false⟩
  | _ => s.resetExisting hooks v

def toReady : Outcome V H W :=
  match (s.vcpu v).state with
  | .reset | .paused =>
    match s.rqEnqueue (s.vcpu v).hcpu v with
    | none => s.cleanup v vmmEfail false
    | some sched =>
      let preempt := !decide (s.isCurrent v) && (s.withSched sched).rqPremptNeeded (s.vcpu v).hcpu
      (s.withSched (sched.setState v .ready)).cleanup v vmmOk preempt
  | .running => ⟨s.withSched (s.setResumed v true), vmmOk, true, false⟩
  | .ready => ⟨s, vmmOk, false, false⟩
  | _ => ⟨s, vmmEinvalid, false, false⟩

variable (newState : VcpuState)

def toStopped : Outcome V H W :=
  let vcpu := s.vcpu v
  if vcpu.state = .ready ∨ vcpu.state = .running then
    let sched := s.setResumed v false
    if vcpu.resumed ∧ newState = .paused then (s.withSched sched).cleanup v vmmOk false
    else if s.isCurrent v then ⟨s.withSched (sched.setState v newState), vmmOk, true, false⟩
    else if vcpu.state = .ready then
      match sched.rqDetach v with
      | some sched => ⟨s.withSched (sched.setState v newState), vmmOk, false, false⟩
      | none => ⟨s.withSched sched, vmmEfail, false, false⟩
    else ⟨s.withSched (sched.setState v newState), vmmOk, false, false⟩
  else s.cleanup v vmmEinvalid false

/-- The section of `vmm_scheduler_state_change` under the `sched_lock` of the VCPU. -/
def changeState : Outcome V H W :=
  match newState with
  | .unknown =>
    ⟨s.withSched (s.setVcpu v { s.vcpu v with schedPriv := false, state := .unknown }),
      vmmOk, false, false⟩
  | .reset => s.toReset hooks v
  | .ready => s.toReady v
  | .running => ⟨s, vmmEinvalid, false, false⟩
  | .paused =>
    if (s.vcpu v).state = .paused then ⟨s, vmmOk, false, false⟩ else s.toStopped v .paused
  | .halted => s.toStopped v .halted

variable (caller : Caller H)

def forceResched (hcpu : H) : Int :=
  if !caller.online hcpu then vmmEnotavail else vmmOk

/-- The preemption at the end; an Orphan VCPU is switched away at once. `none` when the context
switch finds no VCPU to run and the host panics. -/
def preemptCurrent (vhcpu : H) (o : Outcome V H W) : Option (Outcome V H W) :=
  match o.preempt, o.sched.currentVcpu vhcpu with
  | true, some current =>
    if caller.hcpu = vhcpu then
      if o.sched.isNormal current then
        some { o with sched := { o.sched with
          yieldOnIrqExit := update o.sched.yieldOnIrqExit vhcpu true } }
      else
        (o.sched.schedulerSwitch vhcpu).map fun sched =>
          { o with sched := o.sched.withSched sched }
    else some { o with rc := forceResched caller vhcpu }
  | _, _ => some o

def vmmSchedulerStateChange (hooks : InitHooks) (s : WaitSched V H W) (v : V)
    (newState : VcpuState) : Option (Outcome V H W) :=
  preemptCurrent caller (s.vcpu v).hcpu (s.changeState hooks v newState)

/-! ## The scheduler model, seen without waitqueues -/

/-- The hooks of the scheduler model, where the two initialisations are one. -/
def InitHooks.plain : Sched.Hooks where
  malloc := hooks.malloc
  vcpuInit := if hooks.archVcpuInit = vmmOk ∧ hooks.vcpuIrqInit = vmmOk then .ok else .efail

omit [DecidableEq H] in
@[simp] theorem waitqueueCleanup_toSched : (s.waitqueueCleanup v).toSched = s.toSched := by
  unfold waitqueueCleanup
  split <;> rfl

omit [DecidableEq H] in
@[simp] theorem cleanup_toSched (rc : Int) (preempt : Bool) :
    (s.cleanup v rc preempt).sched.toSched = s.toSched := by
  unfold cleanup
  split_ifs
  · exact s.waitqueueCleanup_toSched v
  · rfl

omit [DecidableEq H] [DecidableEq W] in
theorem resetExisting_toSched (known : (s.vcpu v).state ≠ .unknown)
    (started : (s.vcpu v).state ≠ .reset) :
    (s.resetExisting hooks v).sched.toSched = (s.toSched.changeToReset hooks.plain v).1 := by
  unfold resetExisting changeToReset
  cases state : (s.vcpu v).state with
  | unknown => exact absurd state known
  | reset => exact absurd state started
  | ready | running | paused | halted =>
    simp only [isCurrent, state, Sched.setResumed_currentVcpu, ne_eq]
    split
    · next refused => simp only [refused, withSched]
    · next sched detached =>
      obtain ⟨malloc, arch, irq⟩ := hooks
      simp only [detached, countedInit, withSched, InitHooks.plain]
      split_ifs <;> simp_all

omit [DecidableEq H] [DecidableEq W] in
theorem toReset_toSched :
    (s.toReset hooks v).sched.toSched = (s.toSched.changeToReset hooks.plain v).1 := by
  unfold toReset
  split
  · next state =>
    obtain ⟨malloc, arch, irq⟩ := hooks
    cases malloc <;> simp [changeToReset, state, withSched, InitHooks.plain]
  · next state => simp [changeToReset, state]
  · next known started => exact s.resetExisting_toSched hooks v known started

theorem toReady_toSched : (s.toReady v).sched.toSched = (s.toSched.changeToReady v).1 := by
  unfold toReady changeToReady
  dsimp only
  cases (s.vcpu v).state with
  | reset | paused =>
    dsimp only
    cases s.rqEnqueue (s.vcpu v).hcpu v with
    | none => exact s.cleanup_toSched v _ _
    | some sched => exact cleanup_toSched _ v _ _
  | unknown | ready | running | halted => rfl

omit [DecidableEq H] in
theorem toStopped_toSched :
    (s.toStopped v newState).sched.toSched = (s.toSched.changeToStopped v newState).1 := by
  have sameCurrent : ((s.setResumed v false).currentVcpu (s.vcpu v).hcpu = some v) =
      s.isCurrent v := rfl
  unfold toStopped changeToStopped
  simp only [withSched, sameCurrent]
  split_ifs
  · exact cleanup_toSched _ v _ _
  · rfl
  · cases (s.toSched.setResumed v false).rqDetach v <;> rfl
  · rfl
  · exact cleanup_toSched _ v _ _

/-- Without waitqueues, counters and preemption, a state change is the one of the scheduler
model. -/
theorem changeState_toSched : (s.changeState hooks v newState).sched.toSched =
      (s.toSched.stateChange hooks.plain v newState).1 := by
  unfold changeState stateChange
  cases newState with
  | reset => exact s.toReset_toSched hooks v
  | ready => exact s.toReady_toSched v
  | paused =>
    dsimp only
    split_ifs
    · rfl
    · exact s.toStopped_toSched v .paused
  | halted => exact s.toStopped_toSched v .halted
  | unknown | running => rfl

end WaitSched

/-! ## What a failed state change leaves behind

Four failures come too late to leave no trace: an initialisation fails after the
VCPU was detached, the ready queue refuses a VCPU whose waitqueue is cleaned up
all the same, an invalid request to stop cleans the waitqueue up first, and the
host CPU to preempt is offline when the state is changed already. -/

namespace WaitSched

variable {V : Type u} {H : Type v} {W : Type w} {s s' : WaitSched V H W} {c o : Outcome V H W} {caller : Caller H}
  {hooks : InitHooks} {v : V} {h : H} {newState : VcpuState}

structure Untouched (s s' : WaitSched V H W) (v : V) : Prop where
  state : (s'.vcpu v).state = (s.vcpu v).state
  queued : ∀ h p, v ∈ s'.rq h p ↔ v ∈ s.rq h p
  waiting : ∀ q, v ∈ (s'.waitqueue q).vcpuList ↔ v ∈ (s.waitqueue q).vcpuList
  resetCount : s'.resetCount v = s.resetCount v

theorem Untouched.refl (s : WaitSched V H W) (v : V) : Untouched s s v :=
  ⟨rfl, fun _ _ => Iff.rfl, fun _ => Iff.rfl, rfl⟩

def NoTrace (s : WaitSched V H W) (o : Outcome V H W) (v : V) : Prop :=
  Untouched s o.sched v ∧ o.cleaned = false

/-! ## The condition -/

def InitHooks.rc (hooks : InitHooks) : Int :=
  if hooks.archVcpuInit ≠ vmmOk then hooks.archVcpuInit else hooks.vcpuIrqInit

/-- The preemption would have to reach another host CPU, which is offline. -/
def Caller.cannotReach (caller : Caller H) (h : H) : Prop :=
  caller.hcpu ≠ h ∧ caller.online h = false

/-- Another VCPU is current, and this one, or one that waits already, has a higher priority. -/
def outranks (s : WaitSched V H W) (v : V) : Prop :=
  ∃ current, s.currentVcpu (s.vcpu v).hcpu = some current ∧ current ≠ v ∧
    ((s.vcpu current).priority < (s.vcpu v).priority ∨
      ∃ p, (s.vcpu current).priority < p ∧ s.rq (s.vcpu v).hcpu p ≠ [])

variable [DecidableEq V] [DecidableEq H]

section

variable (caller : Caller H)

/-- The reset of an existing VCPU fails before it counts, or succeeds. -/
def ResetTraceless (hooks : InitHooks) (s : WaitSched V H W) (v : V) : Prop :=
  match (s.vcpu v).state with
  | .unknown | .reset => True
  | .ready => ¬ s.isCurrent v ∧ (s.vcpu v).schedPriv = false ∨ hooks.rc = vmmOk
  | .running =>
    if s.isCurrent v ∧ caller.hcpu ≠ (s.vcpu v).hcpu then caller.online (s.vcpu v).hcpu = true
    else hooks.rc = vmmOk
  | .paused | .halted => hooks.rc = vmmOk

def ReadyTraceless (s : WaitSched V H W) (v : V) : Prop :=
  match (s.vcpu v).state with
  | .reset | .paused =>
    if (s.vcpu v).schedPriv then ¬ (s.outranks v ∧ caller.cannotReach (s.vcpu v).hcpu)
    else (s.wait v).wqCleanup = false
  | _ => True

def StopTraceless (s : WaitSched V H W) (v : V) (newState : VcpuState) : Prop :=
  match (s.vcpu v).state with
  | .ready | .running =>
    (s.vcpu v).resumed = true ∧ newState = .paused ∨
      ¬ (s.isCurrent v ∧ caller.cannotReach (s.vcpu v).hcpu)
  | _ => (s.wait v).wqCleanup = false

def Traceless (hooks : InitHooks) (s : WaitSched V H W) (v : V) : VcpuState → Prop
  | .unknown | .running => True
  | .reset => ResetTraceless caller hooks s v
  | .ready => ReadyTraceless caller s v
  | .paused => (s.vcpu v).state = .paused ∨ StopTraceless caller s v .paused
  | .halted => StopTraceless caller s v .halted

/-! ## The preemption at the end -/

def Outcome.finalRc (h : H) (c : Outcome V H W) : Int :=
  if c.preempt = true ∧ c.sched.currentVcpu h ≠ none ∧ caller.hcpu ≠ h then forceResched caller h
  else c.rc

end

theorem preemptCurrent_spec (returned : preemptCurrent caller h c = some o) :
    o.rc = c.finalRc caller h ∧ o.cleaned = c.cleaned ∧ o.sched.resetCount = c.sched.resetCount ∧
      (c.preempt = false ∨ caller.hcpu ≠ h → o.sched = c.sched) := by
  unfold preemptCurrent at returned
  unfold Outcome.finalRc
  split at returned
  · next current preempt isCurrent =>
    split_ifs at returned with here normal
    · cases returned
      simp [here, preempt]
    · obtain ⟨sched, -, rfl⟩ := Option.map_eq_some_iff.mp returned
      simp [here, preempt, withSched]
    · cases returned
      simp [here, preempt, isCurrent]
  · next notBoth =>
    cases returned
    refine ⟨?_, rfl, rfl, fun _ => rfl⟩
    rw [if_neg]
    rintro ⟨preempt, isSome, -⟩
    obtain ⟨current, isCurrent⟩ := Option.ne_none_iff_exists'.mp isSome
    exact notBoth current preempt isCurrent

/-- A failure that asks for preemption has counted a reset. -/
theorem traceless_iff (returned : preemptCurrent caller h c = some o)
    (counted : c.preempt = true → c.rc ≠ vmmOk → c.sched.resetCount v ≠ s.resetCount v) :
    (o.rc ≠ vmmOk → NoTrace s o v) ↔ c.finalRc caller h = vmmOk ∨ NoTrace s c v := by
  obtain ⟨isRc, isCleaned, sameCount, unswitched⟩ := preemptCurrent_spec returned
  rw [isRc]
  by_cases failed : c.finalRc caller h = vmmOk
  · exact iff_of_true (fun wrong => absurd failed wrong) (.inl failed)
  by_cases stays : c.preempt = false ∨ caller.hcpu ≠ h
  · rw [NoTrace, unswitched stays, isCleaned]
    simp [failed, NoTrace]
  · obtain ⟨preempt, here⟩ := not_or.mp stays
    rw [Bool.not_eq_false] at preempt
    have bad : c.rc ≠ vmmOk := by
      simpa [Outcome.finalRc, not_not.mp here] using failed
    have differs := counted preempt bad
    refine iff_of_false (fun traceless => ?_) (fun either => ?_)
    · have same := (traceless failed).1.resetCount
      rw [sameCount] at same
      exact differs same
    · rcases either with ok | kept
      · exact failed ok
      · exact differs kept.1.resetCount

omit [DecidableEq V] in
theorem finalRc_of_not_preempt (quiet : c.preempt = false) : c.finalRc caller h = c.rc := by
  simp [Outcome.finalRc, quiet]

theorem traceless_of {P : Prop} (returned : preemptCurrent caller h c = some o)
    (quiet : c.preempt = false) (kept : c.rc = vmmOk ∨ NoTrace s c v) (meets : P) :
    (o.rc ≠ vmmOk → NoTrace s o v) ↔ P := by
  rw [traceless_iff returned (by simp [quiet]), finalRc_of_not_preempt quiet]
  exact iff_of_true kept meets

omit [DecidableEq V] in
theorem finalRc_eq_ok_iff (done : c.rc = vmmOk) :
    c.finalRc caller h = vmmOk ↔
      ¬ (c.preempt = true ∧ c.sched.currentVcpu h ≠ none ∧ caller.cannotReach h) := by
  unfold Outcome.finalRc forceResched Caller.cannotReach
  cases online : caller.online h
  · by_cases asked : c.preempt = true ∧ c.sched.currentVcpu h ≠ none ∧ caller.hcpu ≠ h
    · simp [asked, vmmEnotavail, vmmOk]
    · rw [if_neg asked]
      simpa [done] using asked
  · simp [done]

/-! ## Each change -/

omit [DecidableEq H] in
theorem noTrace_setResumed (resumed : Bool) (rc : Int) (preempt : Bool) :
    NoTrace s ⟨s.withSched (s.setResumed v resumed), rc, preempt, false⟩ v :=
  ⟨⟨by simp [withSched, setResumed], fun _ _ => Iff.rfl, fun _ => Iff.rfl, rfl⟩, rfl⟩

omit [DecidableEq H] in
theorem countedInit_spec (hooks : InitHooks) (s : WaitSched V H W) (v : V) (preempt : Bool) :
    (s.countedInit hooks v preempt).rc = hooks.rc ∧
      (s.countedInit hooks v preempt).preempt = preempt ∧
      (s.countedInit hooks v preempt).sched.resetCount v ≠ s.resetCount v ∧
      (s.countedInit hooks v preempt).sched.currentVcpu = s.currentVcpu := by
  unfold countedInit InitHooks.rc
  by_cases arch : hooks.archVcpuInit ≠ vmmOk
  · simp [arch]
    omega
  · by_cases irq : hooks.vcpuIrqInit ≠ vmmOk
    · simp [arch, irq]
      omega
    · simp [not_not.mp arch, not_not.mp irq, withSched, setState]
      omega

omit [DecidableEq H] in
theorem resetExisting_cases (hooks : InitHooks) (s : WaitSched V H W) (v : V) :
    ((¬ s.isCurrent v ∧ (s.vcpu v).state = .ready ∧ (s.vcpu v).schedPriv = false) ∧
        s.resetExisting hooks v = ⟨s.withSched (s.setResumed v false), vmmEfail, false, false⟩) ∨
      (¬ (¬ s.isCurrent v ∧ (s.vcpu v).state = .ready ∧ (s.vcpu v).schedPriv = false) ∧
        (s.resetExisting hooks v).rc = hooks.rc ∧
        (s.resetExisting hooks v).preempt = decide (s.isCurrent v ∧ (s.vcpu v).state = .running) ∧
        (s.resetExisting hooks v).sched.resetCount v ≠ s.resetCount v ∧
        (s.resetExisting hooks v).sched.currentVcpu = s.currentVcpu) := by
  have privKept : ((s.setResumed v false).vcpu v).schedPriv = (s.vcpu v).schedPriv := by
    simp [setResumed]
  unfold resetExisting
  dsimp only
  by_cases queued : ¬ s.isCurrent v ∧ (s.vcpu v).state = .ready
  · rw [if_pos queued]
    cases detached : (s.setResumed v false).rqDetach v with
    | none =>
      refine .inl ⟨⟨queued.1, queued.2, ?_⟩, rfl⟩
      by_contra allocated
      simp [rqDetach, privKept, allocated] at detached
    | some sched =>
      obtain ⟨isRc, isPreempt, counted, current⟩ := countedInit_spec hooks (s.withSched sched) v
        (decide (s.isCurrent v ∧ (s.vcpu v).state = .running))
      refine .inr ⟨?_, isRc, isPreempt, counted, current.trans (rqDetach_frame detached).2.1⟩
      rintro ⟨-, -, noEntry⟩
      simp [rqDetach, privKept, noEntry] at detached
  · rw [if_neg queued]
    exact .inr ⟨fun refused => queued ⟨refused.1, refused.2.1⟩,
      countedInit_spec hooks (s.withSched (s.setResumed v false)) v _⟩

theorem resetExisting_traceless_iff (returned : preemptCurrent caller (s.vcpu v).hcpu
      (s.resetExisting hooks v) = some o) :
    (o.rc ≠ vmmOk → NoTrace s o v) ↔
      (¬ s.isCurrent v ∧ (s.vcpu v).state = .ready ∧ (s.vcpu v).schedPriv = false) ∨
        if s.isCurrent v ∧ (s.vcpu v).state = .running ∧ caller.hcpu ≠ (s.vcpu v).hcpu then
          caller.online (s.vcpu v).hcpu = true
        else hooks.rc = vmmOk := by
  rcases resetExisting_cases hooks s v with ⟨refused, outcome⟩ | ⟨accepted, isRc, preempt, counted, current⟩
  · rw [outcome] at returned
    exact traceless_of returned rfl (.inr (noTrace_setResumed _ _ _)) (.inl refused)
  · rw [traceless_iff returned fun _ _ => counted]
    have touched : ¬ NoTrace s (s.resetExisting hooks v) v := fun kept => counted kept.1.resetCount
    rw [or_iff_left touched, or_iff_right accepted]
    unfold Outcome.finalRc
    rw [preempt, current, isRc]
    by_cases remote : s.isCurrent v ∧ (s.vcpu v).state = .running ∧ caller.hcpu ≠ (s.vcpu v).hcpu
    · have isSome : s.currentVcpu (s.vcpu v).hcpu ≠ none := by
        rw [remote.1]
        simp
      rw [if_pos ⟨decide_eq_true ⟨remote.1, remote.2.1⟩, isSome, remote.2.2⟩, if_pos remote]
      cases online : caller.online (s.vcpu v).hcpu <;>
        simp [forceResched, online, vmmEnotavail, vmmOk]
    · rw [if_neg remote, if_neg]
      rintro ⟨both, -, elsewhere⟩
      obtain ⟨isCurrent, running⟩ := of_decide_eq_true both
      exact remote ⟨isCurrent, running, elsewhere⟩

theorem toReset_traceless_iff (returned : preemptCurrent caller (s.vcpu v).hcpu
      (s.toReset hooks v) = some o) :
    (o.rc ≠ vmmOk → NoTrace s o v) ↔ ResetTraceless caller hooks s v := by
  unfold toReset at returned
  unfold ResetTraceless
  cases state : (s.vcpu v).state with
  | unknown =>
    simp only [state] at returned
    split_ifs at returned with allocated
    · exact traceless_of returned rfl (.inl rfl) trivial
    · exact traceless_of returned rfl (.inr ⟨.refl s v, rfl⟩) trivial
  | reset =>
    simp only [state] at returned
    exact traceless_of returned rfl (.inr ⟨.refl s v, rfl⟩) trivial
  | ready | running | paused | halted =>
    simp only [state] at returned
    rw [resetExisting_traceless_iff returned]
    simp [state]

omit [DecidableEq V] [DecidableEq H] in
theorem rqPremptNeeded_iff : s.rqPremptNeeded h = true ↔ ∃ current,
    s.currentVcpu h = some current ∧ ∃ p, (s.vcpu current).priority < p ∧ s.rq h p ≠ [] := by
  unfold rqPremptNeeded
  cases s.currentVcpu h <;> simp

theorem rqEnqueue_preempts_iff {sched : Sched V H}
    (queued : s.rqEnqueue (s.vcpu v).hcpu v = some sched) :
    (!decide (s.isCurrent v) && (s.withSched sched).rqPremptNeeded (s.vcpu v).hcpu) = true ∧
      s.currentVcpu (s.vcpu v).hcpu ≠ none ↔ s.outranks v := by
  obtain ⟨allocated, rfl⟩ : (s.vcpu v).schedPriv = true ∧ sched = s.setList (s.vcpu v).hcpu
      (s.vcpu v).priority (s.rq (s.vcpu v).hcpu (s.vcpu v).priority ++ [v]) := by
    unfold rqEnqueue at queued
    split_ifs at queued with allocated
    exact ⟨allocated, (Option.some.inj queued).symm⟩
  have nonempty : ∀ p, (s.setList (s.vcpu v).hcpu (s.vcpu v).priority
      (s.rq (s.vcpu v).hcpu (s.vcpu v).priority ++ [v])).rq (s.vcpu v).hcpu p ≠ [] ↔
        p = (s.vcpu v).priority ∨ s.rq (s.vcpu v).hcpu p ≠ [] := by
    intro p
    by_cases same : p = (s.vcpu v).priority <;> simp [setList, same]
  rw [Bool.and_eq_true, rqPremptNeeded_iff]
  simp only [withSched, setList_vcpu, setList_currentVcpu, nonempty, outranks]
  constructor
  · rintro ⟨⟨notCurrent, current, isCurrent, p, above, here | waiting⟩, -⟩
    · refine ⟨current, isCurrent, ?_, .inl (here ▸ above)⟩
      rintro rfl
      simp [WaitSched.isCurrent, isCurrent] at notCurrent
    · refine ⟨current, isCurrent, ?_, .inr ⟨p, above, waiting⟩⟩
      rintro rfl
      simp [WaitSched.isCurrent, isCurrent] at notCurrent
  · rintro ⟨current, isCurrent, other, higher⟩
    refine ⟨⟨?_, current, isCurrent, ?_⟩, by simp [isCurrent]⟩
    · simp [WaitSched.isCurrent, isCurrent, other]
    · rcases higher with above | ⟨p, above, waiting⟩
      · exact ⟨_, above, .inl rfl⟩
      · exact ⟨p, above, .inr waiting⟩

variable [DecidableEq W]

omit [DecidableEq H] in
@[simp] theorem cleanup_rc (rc : Int) (preempt : Bool) : (s.cleanup v rc preempt).rc = rc := by
  unfold cleanup
  split_ifs <;> rfl

omit [DecidableEq H] in
@[simp] theorem cleanup_preempt (rc : Int) (preempt : Bool) :
    (s.cleanup v rc preempt).preempt = preempt := by
  unfold cleanup
  split_ifs <;> rfl

omit [DecidableEq H] in
theorem noTrace_cleanup_iff (rc : Int) (preempt : Bool) :
    NoTrace s (s.cleanup v rc preempt) v ↔ (s.wait v).wqCleanup = false := by
  unfold cleanup NoTrace
  cases (s.wait v).wqCleanup
  · simp [Untouched.refl]
  · simp

theorem toReady_traceless_iff (returned : preemptCurrent caller (s.vcpu v).hcpu
      (s.toReady v) = some o) : (o.rc ≠ vmmOk → NoTrace s o v) ↔ ReadyTraceless caller s v := by
  unfold toReady at returned
  unfold ReadyTraceless
  cases state : (s.vcpu v).state with
  | reset | paused =>
    simp only [state] at returned ⊢
    cases queued : s.rqEnqueue (s.vcpu v).hcpu v with
    | none =>
      have noEntry : (s.vcpu v).schedPriv = false := by
        by_contra allocated
        simp [rqEnqueue, allocated] at queued
      simp only [queued] at returned
      rw [traceless_iff returned (by simp), finalRc_of_not_preempt (cleanup_preempt _ _),
        noTrace_cleanup_iff, noEntry]
      simp [vmmEfail, vmmOk]
    | some sched =>
      have allocated : (s.vcpu v).schedPriv = true := by
        by_contra noEntry
        simp [rqEnqueue, noEntry] at queued
      simp only [queued] at returned
      rw [traceless_iff returned (by simp), finalRc_eq_ok_iff (cleanup_rc _ _), if_pos allocated,
        or_iff_left]
      · have current : sched.currentVcpu = s.currentVcpu := (rqEnqueue_frame queued).2.1
        rw [cleanup_preempt, cleanup_toSched, ← and_assoc, ← rqEnqueue_preempts_iff queued]
        simp only [withSched, setState, setVcpu_currentVcpu, current]
      · intro kept
        have same := kept.1.state
        simp [withSched, setState, state] at same
  | running =>
    simp only [state] at returned
    rw [traceless_iff returned (by simp)]
    exact iff_of_true (.inr (noTrace_setResumed _ _ _)) trivial
  | ready | unknown | halted =>
    simp only [state] at returned
    exact traceless_of returned rfl (.inr ⟨.refl s v, rfl⟩) trivial

theorem toStopped_traceless_iff (stops : newState = .paused ∨ newState = .halted)
    (returned : preemptCurrent caller (s.vcpu v).hcpu (s.toStopped v newState) = some o) :
    (o.rc ≠ vmmOk → NoTrace s o v) ↔ StopTraceless caller s v newState := by
  by_cases active : (s.vcpu v).state = .ready ∨ (s.vcpu v).state = .running
  · have unfolded : StopTraceless caller s v newState ↔
        (s.vcpu v).resumed = true ∧ newState = .paused ∨
          ¬ (s.isCurrent v ∧ caller.cannotReach (s.vcpu v).hcpu) := by
      unfold StopTraceless
      rcases active with state | state <;> simp only [state]
    rw [unfolded]
    unfold toStopped at returned
    simp only [if_pos active] at returned
    split_ifs at returned with resumed current ready
    · exact traceless_of returned (cleanup_preempt _ _) (.inl (cleanup_rc _ _)) (.inl resumed)
    · have touched : ¬ NoTrace s ⟨s.withSched ((s.setResumed v false).setState v newState), vmmOk,
          true, false⟩ v := by
        intro kept
        have same := kept.1.state
        simp only [withSched, setState, setVcpu_vcpu] at same
        rcases stops with rfl | rfl <;> rcases active with state | state <;>
          simp [state] at same
      rw [traceless_iff returned (by simp), finalRc_eq_ok_iff rfl, or_iff_left touched,
        or_iff_right resumed]
      have isSome : s.currentVcpu (s.vcpu v).hcpu ≠ none := by
        rw [current]
        simp
      simp [withSched, setState, isSome, current]
    · cases detached : (s.setResumed v false).rqDetach v with
      | none =>
        simp only [detached] at returned
        exact traceless_of returned rfl (.inr (noTrace_setResumed _ _ _)) (.inr fun both => current both.1)
      | some sched =>
        simp only [detached] at returned
        exact traceless_of returned rfl (.inl rfl) (.inr fun both => current both.1)
    · exact traceless_of returned rfl (.inl rfl) (.inr fun both => current both.1)
  · have unfolded : StopTraceless caller s v newState ↔ (s.wait v).wqCleanup = false := by
      unfold StopTraceless
      cases state : (s.vcpu v).state with
      | ready => exact absurd (.inl state) active
      | running => exact absurd (.inr state) active
      | unknown | reset | paused | halted => exact Iff.rfl
    rw [unfolded]
    unfold toStopped at returned
    simp only [if_neg active] at returned
    rw [traceless_iff returned (by simp), finalRc_of_not_preempt (cleanup_preempt _ _),
      noTrace_cleanup_iff]
    simp [vmmEinvalid, vmmOk]

/-- A state change that returns an error leaves the state of its VCPU, its queues and its reset
counter as they were, and its waitqueue not cleaned up, exactly when no failure can come after
the effects. -/
theorem vmmSchedulerStateChange_traceless_iff (caller : Caller H) (hooks : InitHooks)
    (s : WaitSched V H W) (v : V) (newState : VcpuState) (o : Outcome V H W)
    (returned : vmmSchedulerStateChange caller hooks s v newState = some o) :
    (o.rc ≠ vmmOk → NoTrace s o v) ↔ Traceless caller hooks s v newState := by
  unfold vmmSchedulerStateChange changeState at returned
  cases newState with
  | unknown =>
    exact traceless_of returned rfl (.inl rfl) trivial
  | running =>
    exact traceless_of returned rfl (.inr ⟨.refl s v, rfl⟩) trivial
  | reset => exact toReset_traceless_iff returned
  | ready => exact toReady_traceless_iff returned
  | halted => exact toStopped_traceless_iff (.inr rfl) returned
  | paused =>
    by_cases already : (s.vcpu v).state = .paused
    · simp only [if_pos already] at returned
      exact traceless_of returned rfl (.inl rfl) (.inl already)
    · simp only [if_neg already] at returned
      rw [toStopped_traceless_iff (.inl rfl) returned]
      exact (or_iff_right already).symm

/-- One host CPU, which runs the VCPU `true`; the VCPU `false` is in the given state. -/
def twoVcpus (state : VcpuState) : WaitSched Bool Unit Unit where
  vcpu v := ⟨if v then .running else state, (), 3, fun _ => true, false, true⟩
  rq _ p := if p = 3 ∧ state = .ready then [false] else []
  currentVcpu _ := some true
  phase _ := .idle
  migrations := []
  isNormal _ := true
  resetCount _ := 0
  wait _ := ⟨none, false⟩
  waitqueue _ := ⟨[], 0⟩
  wakeEvent _ := false
  yieldOnIrqExit _ := false

def onlyCpu : Caller Unit := ⟨(), fun _ => true⟩

/-- A halted VCPU cannot be paused, and nothing happens to it. -/
theorem vmmSchedulerStateChange_traceless_halted :
    ∃ o, vmmSchedulerStateChange onlyCpu ⟨true, vmmOk, vmmOk⟩ (twoVcpus .halted) false .paused =
        some o ∧ o.rc = vmmEinvalid ∧ NoTrace (twoVcpus .halted) o false := by
  refine ⟨_, rfl, rfl, ?_⟩
  exact (vmmSchedulerStateChange_traceless_iff onlyCpu ⟨true, vmmOk, vmmOk⟩ (twoVcpus .halted) false
    .paused _ rfl).mpr (.inr rfl) (by decide)

/-- The reset of a READY VCPU fails in `arch_vcpu_init`: it is still READY, but on no ready queue,
and a reset was counted. -/
theorem vmmSchedulerStateChange_loses_vcpu :
    ∃ o, vmmSchedulerStateChange onlyCpu ⟨true, vmmEfail, vmmOk⟩ (twoVcpus .ready) false .reset =
        some o ∧ o.rc = vmmEfail ∧ (o.sched.vcpu false).state = .ready ∧
      false ∈ (twoVcpus .ready).rq () 3 ∧ (∀ p, false ∉ o.sched.rq () p) ∧
      (twoVcpus .ready).resetCount false = 0 ∧ o.sched.resetCount false = 1 :=
  ⟨_, rfl, by decide, by decide, by decide, by decide, by decide, by decide⟩

end WaitSched

end Xvisor.Scheduler
