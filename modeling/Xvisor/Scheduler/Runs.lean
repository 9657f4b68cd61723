import Xvisor.Scheduler.Invariant

/-!
# Runs of the scheduler

Two step models. In `schedSystem` a context switch is cut at its lock
boundaries; in `coarseSystem` it is one step. State changes, host CPU changes
and migrations interleave with the switches of all host CPUs.
-/

namespace Xvisor.Scheduler

open Lib

universe u v

variable {V : Type u} {H : Type v} [DecidableEq V] [DecidableEq H]

inductive Call (V : Type u) (H : Type v) where
  | stateChange (hooks : Sched.Hooks) (v : V) (newState : VcpuState)
  | setHcpu (v : V) (hcpu : H)
  | migrate (m : Migration V H)

variable (s : Sched V H)

def Call.run : Call V H → Sched V H
  | .stateChange hooks v newState => (s.stateChange hooks v newState).1
  | .setHcpu v hcpu => (s.setHcpu v hcpu).1
  | .migrate m => { s.ipiMigrateVcpu m with migrations := s.migrations.erase m }

/-- The host CPU is outside a switch and the VCPU's lock is free; a migration runs on the
host CPU it was sent to. -/
def Call.Enabled (cpu : H) : Call V H → Prop
  | .stateChange _ v _ => s.phase cpu = .idle ∧ LockFree s v
  | .setHcpu v _ => s.phase cpu = .idle ∧ LockFree s v
  | .migrate m => s.phase cpu = .idle ∧ LockFree s m.vcpu ∧ m ∈ s.migrations ∧ m.oldHcpu = cpu

instance [Fintype H] (s : Sched V H) (cpu : H) : (call : Call V H) → Decidable (call.Enabled s cpu)
  | .stateChange _ v _ => inferInstanceAs (Decidable (s.phase cpu = .idle ∧ LockFree s v))
  | .setHcpu v _ => inferInstanceAs (Decidable (s.phase cpu = .idle ∧ LockFree s v))
  | .migrate m => inferInstanceAs (Decidable (s.phase cpu = .idle ∧ LockFree s m.vcpu ∧
      m ∈ s.migrations ∧ m.oldHcpu = cpu))

/-- A READY VCPU is not stopped while it is still its host CPU's current VCPU. -/
def StopsOrderly (v : V) : Prop :=
  (s.vcpu v).state = .ready → s.currentVcpu (s.vcpu v).hcpu ≠ some v

/-- The timing under which the critical sections keep the queues exact. -/
def Call.Orderly : Call V H → Prop
  | .stateChange _ v newState =>
    match newState with
    | .unknown => Unqueued s v
    | .ready => (s.vcpu v).state = .reset ∨ (s.vcpu v).state = .paused →
        ∀ h, s.phase h ≠ .dequeued v
    | .running => True
    | .reset => StopsOrderly s v
    | .paused => StopsOrderly s v
    | .halted => StopsOrderly s v
  | .setHcpu v _ => (s.vcpu v).state ≠ .ready → (s.vcpu v).state ≠ .running →
      ∀ h, s.currentVcpu h ≠ some v
  | .migrate m => (s.vcpu m.vcpu).state = .ready → ∀ h, s.currentVcpu h ≠ some m.vcpu

instance [Fintype H] (s : Sched V H) (v : V) : Decidable (StopsOrderly s v) :=
  inferInstanceAs (Decidable ((s.vcpu v).state = .ready → s.currentVcpu (s.vcpu v).hcpu ≠ some v))

instance [Fintype H] (s : Sched V H) : (call : Call V H) → Decidable (call.Orderly s)
  | .stateChange _ v .unknown => inferInstanceAs (Decidable (∀ h p, v ∉ s.rq h p))
  | .stateChange _ v .ready => inferInstanceAs (Decidable
      ((s.vcpu v).state = .reset ∨ (s.vcpu v).state = .paused → ∀ h, s.phase h ≠ .dequeued v))
  | .stateChange _ _ .running => isTrue trivial
  | .stateChange _ v .reset => inferInstanceAs (Decidable (StopsOrderly s v))
  | .stateChange _ v .paused => inferInstanceAs (Decidable (StopsOrderly s v))
  | .stateChange _ v .halted => inferInstanceAs (Decidable (StopsOrderly s v))
  | .setHcpu v _ => inferInstanceAs (Decidable ((s.vcpu v).state ≠ .ready →
      (s.vcpu v).state ≠ .running → ∀ h, s.currentVcpu h ≠ some v))
  | .migrate m => inferInstanceAs (Decidable ((s.vcpu m.vcpu).state = .ready →
      ∀ h, s.currentVcpu h ≠ some m.vcpu))

structure Boot (s : Sched V H) : Prop where
  unknown : ∀ v, (s.vcpu v).state = .unknown
  empty : ∀ h p, s.rq h p = []
  noCurrent : ∀ h, s.currentVcpu h = none
  idle : ∀ h, s.phase h = .idle
  noMigration : s.migrations = []

variable {s s' : Sched V H}

omit [DecidableEq V] [DecidableEq H] in
theorem Boot.consistent (boot : Boot s) : Consistent s := by
  refine ⟨?_, ?_, ?_, ?_, ?_, ?_, ?_, ?_⟩
  · simp [boot.empty]
  · simp [boot.empty]
  · simp [boot.noCurrent]
  · simp [boot.unknown]
  · simp [boot.idle]
  · simp [boot.idle]
  · simp [boot.idle]
  · simp [boot.idle]

theorem Call.run_consistent {cpu : H} {call : Call V H} (consistent : Consistent s)
    (enabled : call.Enabled s cpu) (orderly : call.Orderly s) : Consistent (call.run s) := by
  cases call with
  | stateChange hooks v newState =>
    obtain ⟨_, lockFree⟩ := enabled
    cases newState with
    | unknown =>
      apply consistent.setVcpu_unqueued orderly
      · simp
      · exact fun h current => consistent.home h v current
      · exact fun h phase => ⟨by simp, lockFree.not_current phase⟩
    | reset => exact consistent.changeToReset lockFree orderly
    | ready => exact consistent.changeToReady orderly
    | running => exact consistent
    | paused =>
      simp only [Call.run, Sched.stateChange]
      split
      · exact consistent
      · exact consistent.changeToStopped lockFree (by simp) (by simp) orderly
    | halted => exact consistent.changeToStopped lockFree (by simp) (by simp) orderly
  | setHcpu v hcpu => exact consistent.setHcpu enabled.2 orderly
  | migrate m =>
    obtain ⟨idle, _, _, rfl⟩ := enabled
    apply (consistent.ipiMigrateVcpu idle orderly).shrink
    · rfl
    · rfl
    · rfl
    · exact fun h p => List.Sublist.refl _

/-! ## Switches cut at their lock boundaries -/

inductive Event (V : Type u) (H : Type v) where
  | critical (cpu : H) (call : Call V H)
  | switchEnter (h : H)
  | switchDequeue (h : H)
  | switchNext (h : H)

def Event.run (s : Sched V H) : Event V H → Option (Sched V H)
  | .critical _ call => some (call.run s)
  | .switchEnter h => some (s.switchEnter h)
  | .switchDequeue h => s.switchDequeue h
  | .switchNext h => s.switchNext h

def Event.Enabled (s : Sched V H) : Event V H → Prop
  | .critical cpu call => call.Enabled s cpu
  | .switchEnter h => s.phase h = .idle ∧ ∀ v, s.currentVcpu h = some v → LockFree s v
  | .switchDequeue h => s.phase h = .dequeueing
  | .switchNext h => ∀ next, s.phase h = .dequeued next →
      s.currentVcpu h = some next ∨ LockFree s next

/-- The first switch of a host CPU must find the VCPU it dequeued still READY. -/
def Event.Orderly (s : Sched V H) : Event V H → Prop
  | .critical _ call => call.Orderly s
  | .switchNext h => s.currentVcpu h = none → ∀ next, s.phase h = .dequeued next →
      (s.vcpu next).state = .ready
  | _ => True

def schedSystem (V : Type u) (H : Type v) [DecidableEq V] [DecidableEq H] :
    System (Sched V H) (Event V H) where
  init := Boot
  step s event s' := event.Enabled s ∧ event.run s = some s'

theorem Event.run_consistent {event : Event V H} (consistent : Consistent s)
    (enabled : event.Enabled s) (orderly : event.Orderly s) (result : event.run s = some s') :
    Consistent s' := by
  cases event with
  | critical cpu call =>
    cases result
    exact Call.run_consistent consistent enabled orderly
  | switchEnter h =>
    cases result
    exact consistent.switchEnter
  | switchDequeue h => exact (consistent.switchDequeue enabled result).1
  | switchNext h =>
    simp only [Event.run, Sched.switchNext] at result
    split at result
    · next next held =>
      cases result
      exact consistent.switchTake held fun noCurrent => orderly noCurrent next held
    · cases result

instance [Fintype H] (s : Sched V H) : (event : Event V H) → Decidable (event.Enabled s)
  | .critical cpu call => inferInstanceAs (Decidable (call.Enabled s cpu))
  | .switchEnter h => inferInstanceAs (Decidable (s.phase h = .idle ∧
      ∀ v ∈ s.currentVcpu h, LockFree s v))
  | .switchDequeue h => inferInstanceAs (Decidable (s.phase h = .dequeueing))
  | .switchNext h =>
    match phase : s.phase h with
    | .dequeued next => decidable_of_iff (s.currentVcpu h = some next ∨ LockFree s next) (by
        simp [Event.Enabled, phase])
    | .idle => isTrue (by simp [Event.Enabled, phase])
    | .dequeueing => isTrue (by simp [Event.Enabled, phase])

instance [Fintype H] (s : Sched V H) : (event : Event V H) → Decidable (event.Orderly s)
  | .critical _ call => inferInstanceAs (Decidable (call.Orderly s))
  | .switchEnter _ => isTrue trivial
  | .switchDequeue _ => isTrue trivial
  | .switchNext h =>
    match phase : s.phase h with
    | .dequeued next => decidable_of_iff
        (s.currentVcpu h = none → (s.vcpu next).state = .ready) (by simp [Event.Orderly, phase])
    | .idle => isTrue (by simp [Event.Orderly, phase])
    | .dequeueing => isTrue (by simp [Event.Orderly, phase])

structure ReadyQueuesExact (s : Sched V H) : Prop where
  once : ∀ v h p, (s.rq h p).count v ≤ 1
  single : ∀ v h p h' p', v ∈ s.rq h p → v ∈ s.rq h' p' → h = h' ∧ p = p'
  home : ∀ v h p, v ∈ s.rq h p → (s.vcpu v).hcpu = h
  ready : ∀ v h p, v ∈ s.rq h p → (s.vcpu v).state = .ready
  running : ∀ v, (s.vcpu v).state = .running → ∀ h p, v ∉ s.rq h p

omit [DecidableEq H] in
theorem Consistent.readyQueuesExact (consistent : Consistent s) : ReadyQueuesExact s where
  once v h p := List.nodup_iff_count_le_one.mp (consistent.nodup h p) v
  single := by
    intro v h p h' p' first second
    obtain ⟨hcpu, priority, _⟩ := consistent.queued h p v first
    obtain ⟨hcpu', priority', _⟩ := consistent.queued h' p' v second
    exact ⟨hcpu.symm.trans hcpu', priority.symm.trans priority'⟩
  home v h p mem := (consistent.queued h p v mem).1
  ready v h p mem := (consistent.queued h p v mem).2.2.1
  running := by
    intro v running
    apply consistent.unqueued_of_state
    simp [running]

/-- In every run of orderly steps the ready queues stay exact. -/
theorem schedRun_readyQueuesExact {s : Sched V H}
    (reached : ((schedSystem V H).restrict fun s event => event.Orderly s).Reachable s) :
    ReadyQueuesExact s := by
  apply Consistent.readyQueuesExact
  apply reached.invariant Consistent
  · exact fun _ boot => boot.consistent
  · rintro s event s' consistent ⟨orderly, enabled, result⟩
    exact Event.run_consistent consistent enabled orderly result

def twoCpus : Sched Unit Bool where
  vcpu _ := ⟨.unknown, false, 1, fun _ => true, false, false⟩
  rq _ _ := []
  currentVcpu _ := none
  phase _ := .idle
  migrations := []

theorem twoCpus_boot : Boot twoCpus := by
  refine ⟨?_, ?_, ?_, ?_, ?_⟩ <;> simp [twoCpus]

def succeed : Sched.Hooks := ⟨true, .ok⟩

theorem schedRun_readyQueuesExact_started :
    ∃ s, (s.vcpu ()).state = .running ∧ ReadyQueuesExact (V := Unit) (H := Bool) s := by
  refine ⟨_, ?_, schedRun_readyQueuesExact (.replay (.start twoCpus_boot)
    (fun s event => event.Enabled s ∧ event.Orderly s) Event.run
    [.critical true (.stateChange succeed () .reset),
      .critical true (.stateChange succeed () .ready), .switchEnter false, .switchDequeue false,
      .switchNext false]
    ?_ (by decide))⟩
  · decide
  · exact fun allowed result => ⟨allowed.2, allowed.1, result⟩

/-- A VCPU paused while it runs and resumed before its host CPU switches is queued while it
is still current; pausing it once more leaves it on the queue. -/
theorem stateChange_leaves_paused_queued :
    ∃ s, (schedSystem Unit Bool).Reachable s ∧ ¬ ReadyQueuesExact s := by
  refine ⟨_, .replay (.start twoCpus_boot)
    (fun s event => event.Enabled s) Event.run
    [.critical true (.stateChange succeed () .reset),
      .critical true (.stateChange succeed () .ready), .switchEnter false, .switchDequeue false,
      .switchNext false, .critical true (.stateChange succeed () .paused),
      .critical true (.stateChange succeed () .ready),
      .critical true (.stateChange succeed () .paused)]
    And.intro (by decide), ?_⟩
  · intro queues
    have ready := queues.ready () false 1
    revert ready
    decide

/-! ## Switches in one step -/

inductive CoarseEvent (V : Type u) (H : Type v) where
  | critical (cpu : H) (call : Call V H)
  | switch (h : H)

def CoarseEvent.run (s : Sched V H) : CoarseEvent V H → Option (Sched V H)
  | .critical _ call => some (call.run s)
  | .switch h => s.schedulerSwitch h

def CoarseEvent.Enabled (s : Sched V H) : CoarseEvent V H → Prop
  | .critical cpu call => call.Enabled s cpu
  | .switch _ => True

instance [Fintype H] (s : Sched V H) : (event : CoarseEvent V H) → Decidable (event.Enabled s)
  | .critical cpu call => inferInstanceAs (Decidable (call.Enabled s cpu))
  | .switch _ => isTrue trivial

def CoarseEvent.Orderly (s : Sched V H) : CoarseEvent V H → Prop
  | .critical _ call => call.Orderly s
  | .switch _ => True

instance [Fintype H] (s : Sched V H) : (event : CoarseEvent V H) → Decidable (event.Orderly s)
  | .critical _ call => inferInstanceAs (Decidable (call.Orderly s))
  | .switch _ => isTrue trivial

def coarseSystem (V : Type u) (H : Type v) [DecidableEq V] [DecidableEq H] :
    System (Sched V H) (CoarseEvent V H) where
  init := Boot
  step s event s' := event.Enabled s ∧ event.run s = some s'

/-- Between coarse steps no host CPU is inside a switch. -/
structure Settled (s : Sched V H) : Prop extends Consistent s where
  idle : ∀ h, s.phase h = .idle

structure SameFrame (s s' : Sched V H) : Prop where
  migrations : s'.migrations = s.migrations
  hcpu : ∀ v, (s'.vcpu v).hcpu = (s.vcpu v).hcpu
  mask : ∀ v, (s'.vcpu v).cpuAffinity = (s.vcpu v).cpuAffinity
  phase : s'.phase = s.phase

namespace SameFrame

variable {s'' : Sched V H}

omit [DecidableEq V] [DecidableEq H] in
theorem refl (s : Sched V H) : SameFrame s s := ⟨rfl, fun _ => rfl, fun _ => rfl, rfl⟩

omit [DecidableEq V] [DecidableEq H] in
theorem trans (first : SameFrame s s') (second : SameFrame s' s'') : SameFrame s s'' where
  migrations := second.migrations.trans first.migrations
  hcpu v := (second.hcpu v).trans (first.hcpu v)
  mask v := (second.mask v).trans (first.mask v)
  phase := second.phase.trans first.phase

omit [DecidableEq H] in
theorem setVcpu (s : Sched V H) {v : V} {record : Vcpu H} (hcpu : record.hcpu = (s.vcpu v).hcpu)
    (mask : record.cpuAffinity = (s.vcpu v).cpuAffinity) : SameFrame s (s.setVcpu v record) :=
  ⟨rfl, s.setVcpu_field v record Vcpu.hcpu hcpu, s.setVcpu_field v record Vcpu.cpuAffinity mask,
    rfl⟩

omit [DecidableEq H] in
theorem setState (s : Sched V H) (v : V) (state : VcpuState) : SameFrame s (s.setState v state) :=
  setVcpu s rfl rfl

end SameFrame

structure SameStates (s s' : Sched V H) : Prop extends SameFrame s s' where
  state : ∀ v, (s'.vcpu v).state = (s.vcpu v).state

namespace SameStates

omit [DecidableEq V] [DecidableEq H] in
theorem refl (s : Sched V H) : SameStates s s := ⟨.refl s, fun _ => rfl⟩

omit [DecidableEq V] [DecidableEq H] in
theorem trans {s'' : Sched V H} (first : SameStates s s') (second : SameStates s' s'') :
    SameStates s s'' :=
  ⟨first.toSameFrame.trans second.toSameFrame, fun v => (second.state v).trans (first.state v)⟩

omit [DecidableEq H] in
theorem setVcpu (s : Sched V H) {v : V} {record : Vcpu H} (hcpu : record.hcpu = (s.vcpu v).hcpu)
    (mask : record.cpuAffinity = (s.vcpu v).cpuAffinity)
    (state : record.state = (s.vcpu v).state) : SameStates s (s.setVcpu v record) :=
  ⟨.setVcpu s hcpu mask, s.setVcpu_field v record Vcpu.state state⟩

omit [DecidableEq H] in
theorem setResumed (s : Sched V H) (v : V) (resumed : Bool) :
    SameStates s (s.setResumed v resumed) := setVcpu s rfl rfl rfl

omit [DecidableEq H] in
theorem rqDetach {v : V} (result : s.rqDetach v = some s') : SameStates s s' := by
  unfold Sched.rqDetach at result
  split at result <;> cases result
  exact ⟨⟨rfl, fun _ => rfl, fun _ => rfl, rfl⟩, fun _ => rfl⟩

omit [DecidableEq V] in
theorem rqEnqueue {h : H} {v : V} (result : s.rqEnqueue h v = some s') : SameStates s s' := by
  unfold Sched.rqEnqueue at result
  split at result <;> cases result
  exact ⟨⟨rfl, fun _ => rfl, fun _ => rfl, rfl⟩, fun _ => rfl⟩

end SameStates

/-! ### State changes -/

namespace Sched

def skips (s : Sched V H) (v : V) (newState : VcpuState) : Bool :=
  let vcpu := s.vcpu v
  match newState with
  | .reset => vcpu.state = .reset
  | .ready => vcpu.state = .running ∨ vcpu.state = .ready
  | .paused => vcpu.state = .paused ∨
      (vcpu.state = .ready ∨ vcpu.state = .running) ∧ vcpu.resumed = true
  | _ => false

/-- A state change writes the new state or, if it fails or has nothing to do, no state at all. -/
inductive Changed (s : Sched V H) (v : V) (newState : VcpuState) (skipped : Bool) :
    Sched V H × Rc → Prop
  | kept {t : Sched V H} {rc : Rc} (same : SameStates s t) (reason : rc = .ok → skipped = true) :
    Changed s v newState skipped (t, rc)
  | written {t : Sched V H} (same : SameStates s t) (notSkipped : skipped = false) :
    Changed s v newState skipped (t.setState v newState, .ok)

omit [DecidableEq H] in
theorem changeToReset_changed (hooks : Hooks) (s : Sched V H) (v : V) :
    Changed s v .reset (s.skips v .reset) (changeToReset hooks s v) := by
  unfold changeToReset
  dsimp only
  split
  · next isUnknown =>
    split
    · have allocated : SameStates s (s.setVcpu v { s.vcpu v with schedPriv := true }) :=
        .setVcpu s rfl rfl rfl
      have written : Changed s v .reset (s.skips v .reset) (_, .ok) :=
        .written allocated (by simp [skips, isUnknown])
      simpa [setState, setVcpu] using written
    · exact .kept (.refl s) (by simp)
  · next isReset => exact .kept (.refl s) fun _ => by simp [skips, isReset]
  · next notUnknown notReset =>
    split
    · exact .kept (.setResumed s v false) (by simp)
    · next t detached =>
      have same : SameStates s t := by
        apply (SameStates.setResumed s v false).trans
        split at detached
        · exact .rqDetach detached
        · cases detached
          exact .refl _
      split
      · exact .written same (decide_eq_false notReset)
      · next failed => exact .kept same fun isOk => absurd isOk failed

theorem changeToReady_changed (s : Sched V H) (v : V) :
    Changed s v .ready (s.skips v .ready) (changeToReady s v) := by
  unfold changeToReady
  dsimp only
  split
  · next isReset =>
    split
    · next result => exact .written (.rqEnqueue result) (by simp [skips, isReset])
    · exact .kept (.refl s) nofun
  · next isPaused =>
    split
    · next result => exact .written (.rqEnqueue result) (by simp [skips, isPaused])
    · exact .kept (.refl s) nofun
  · next isRunning => exact .kept (.setResumed s v true) fun _ => by simp [skips, isRunning]
  · next isReady => exact .kept (.refl s) fun _ => by simp [skips, isReady]
  · exact .kept (.refl s) nofun

omit [DecidableEq H] in
theorem changeToStopped_changed (s : Sched V H) (v : V) (newState : VcpuState) :
    Changed s v newState
      (((s.vcpu v).state = .ready ∨ (s.vcpu v).state = .running) ∧
        (s.vcpu v).resumed = true ∧ newState = .paused)
      (changeToStopped s v newState) := by
  have resumed := SameStates.setResumed s v false
  unfold changeToStopped
  dsimp only
  split
  · next isRunnable =>
    split
    · next isSkip => exact .kept resumed fun _ => decide_eq_true ⟨isRunnable, isSkip⟩
    · next notSkip =>
      split
      · exact .written resumed (decide_eq_false fun both => notSkip both.2)
      split
      · split
        · next detached =>
          apply Changed.written (resumed.trans (.rqDetach detached))
          exact decide_eq_false fun both => notSkip both.2
        · exact .kept resumed nofun
      · exact .written resumed (decide_eq_false fun both => notSkip both.2)
  · exact .kept (.refl s) nofun

theorem stateChange_changed (hooks : Hooks) (s : Sched V H) (v : V) (newState : VcpuState) :
    Changed s v newState (s.skips v newState) (s.stateChange hooks v newState) := by
  cases newState with
  | unknown =>
    have freed : SameStates s (s.setVcpu v { s.vcpu v with schedPriv := false }) :=
      .setVcpu s rfl rfl rfl
    have written : Changed s v .unknown (s.skips v .unknown) (_, .ok) := .written freed rfl
    simpa [stateChange, setState, setVcpu] using written
  | reset => exact changeToReset_changed hooks s v
  | ready => exact changeToReady_changed s v
  | running => exact .kept (.refl s) (by simp)
  | paused =>
    unfold stateChange
    dsimp only
    split
    · next isPaused => exact .kept (.refl s) fun _ => by simp [skips, isPaused]
    · next notPaused =>
      have skipped : s.skips v .paused = decide (((s.vcpu v).state = .ready ∨
          (s.vcpu v).state = .running) ∧ (s.vcpu v).resumed = true ∧
            VcpuState.paused = .paused) := by
        simp [skips, notPaused]
      rw [skipped]
      exact changeToStopped_changed s v .paused
  | halted =>
    have skipped : s.skips v .halted = decide (((s.vcpu v).state = .ready ∨
        (s.vcpu v).state = .running) ∧ (s.vcpu v).resumed = true ∧
          VcpuState.halted = .paused) := by
      simp [skips]
    rw [skipped]
    exact changeToStopped_changed s v .halted

end Sched

theorem SameFrame.stateChange (hooks : Sched.Hooks) (s : Sched V H) (v : V)
    (newState : VcpuState) : SameFrame s (s.stateChange hooks v newState).1 := by
  have changed := s.stateChange_changed hooks v newState
  generalize s.stateChange hooks v newState = outcome at changed ⊢
  cases changed with
  | kept same _ => exact same.toSameFrame
  | written same _ => exact same.toSameFrame.trans (.setState _ v newState)

theorem Call.run_phase (s : Sched V H) (call : Call V H) : (call.run s).phase = s.phase := by
  cases call with
  | stateChange hooks v newState => exact (SameFrame.stateChange hooks s v newState).phase
  | setHcpu v hcpu =>
    simp only [Call.run, Sched.setHcpu]
    split
    · rfl
    split
    · rfl
    split <;> rfl
  | migrate m =>
    simp only [Call.run, Sched.ipiMigrateVcpu]
    split
    · rfl
    · simp

theorem switchEnter_phase (s : Sched V H) (h : H) :
    (s.switchEnter h).phase = Function.update s.phase h .dequeueing := by
  unfold Sched.switchEnter
  split
  · rfl
  · simp only [Sched.setPhase]
    split
    · rw [Sched.rqEnqueue_getD_phase]
      rfl
    · rfl

omit [DecidableEq V] in
theorem switchDequeue_phase {h : H} (result : s.switchDequeue h = some s') :
    ∀ h', h' ≠ h → s'.phase h' = s.phase h' := by
  intro h' other
  unfold Sched.switchDequeue at result
  split at result
  · cases result
  · next next t dequeued =>
    cases result
    obtain ⟨_, _, _, rfl⟩ := Sched.rqDequeue_some dequeued
    simp [other]

namespace Sched

/-- The section of a switch that follows the dequeue takes the VCPU. -/
def takes (s : Sched V H) (h : H) (next : V) : Bool :=
  match s.currentVcpu h with
  | none => true
  | some current => next = current ∨ (s.vcpu next).state = .ready

theorem switchTake_eq (s : Sched V H) (h : H) (next : V) :
    s.switchTake h next =
      if s.takes h next then s.makeRunning h next else s.setPhase h .dequeueing := by
  cases isCurrent : s.currentVcpu h with
  | none => simp [switchTake, takes, isCurrent]
  | some current =>
    simp only [switchTake, takes, isCurrent, decide_eq_true_eq]
    by_cases passed : next ≠ current ∧ (s.vcpu next).state ≠ .ready
    · rw [if_pos passed, if_neg (by tauto)]
    · rw [if_neg passed, if_pos (by tauto)]

end Sched

theorem switchTake_phase (s : Sched V H) (h : H) (next : V) :
    ((s.switchTake h next).phase h = .idle ∨ (s.switchTake h next).phase h = .dequeueing) ∧
      ∀ h', h' ≠ h → (s.switchTake h next).phase h' = s.phase h' := by
  rw [Sched.switchTake_eq]
  split
  · refine ⟨.inl ?_, fun h' other => ?_⟩
    · simp [Sched.makeRunning]
    · simp [Sched.makeRunning, other]
  · refine ⟨.inr ?_, fun h' other => ?_⟩
    · simp
    · simp [other]

theorem dequeueAgain_settled {rounds : Nat} {h : H} (consistent : Consistent s)
    (dequeueing : s.phase h = .dequeueing) (others : ∀ h', h' ≠ h → s.phase h' = .idle)
    (result : s.dequeueAgain rounds h = some s') : Settled s' := by
  induction rounds generalizing s with
  | zero => cases result
  | succ rounds ih =>
    simp only [Sched.dequeueAgain] at result
    split at result
    · cases result
    · next middle dequeued =>
      obtain ⟨kept, next, held, ready⟩ := consistent.switchDequeue dequeueing dequeued
      have settles : Consistent (middle.switchTake h next) := kept.switchTake held fun _ => ready
      obtain ⟨phase, frame⟩ := switchTake_phase middle h next
      have othersIdle : ∀ h', h' ≠ h → (middle.switchTake h next).phase h' = .idle := by
        intro h' other
        rw [frame h' other, switchDequeue_phase dequeued h' other]
        exact others h' other
      simp only [Sched.switchNext, held] at result
      split at result
      · next idle =>
        cases result
        refine ⟨settles, ?_⟩
        intro h'
        by_cases same : h' = h
        · rw [same]
          exact idle
        · exact othersIdle h' same
      · next busy => exact ih settles (phase.resolve_left busy) othersIdle result

theorem schedulerSwitch_settled {h : H} (settled : Settled s)
    (result : s.schedulerSwitch h = some s') : Settled s' := by
  apply dequeueAgain_settled settled.toConsistent.switchEnter _ _ result
  · simp [switchEnter_phase]
  · intro h' other
    simp [switchEnter_phase, other, settled.idle]

theorem CoarseEvent.run_settled {event : CoarseEvent V H} (settled : Settled s)
    (enabled : event.Enabled s) (orderly : event.Orderly s) (result : event.run s = some s') :
    Settled s' := by
  cases event with
  | critical cpu call =>
    cases result
    refine ⟨Call.run_consistent settled.toConsistent enabled orderly, ?_⟩
    rw [Call.run_phase]
    exact settled.idle
  | switch h => exact schedulerSwitch_settled settled result

/-- A VCPU runs on one host CPU only, the one it is assigned to. -/
structure SingleHost (s : Sched V H) : Prop where
  unique : ∀ v h h', s.currentVcpu h = some v → s.currentVcpu h' = some v → h = h'
  running : ∀ v, (s.vcpu v).state = .running → ∀ h, s.currentVcpu h = some v ↔ h = (s.vcpu v).hcpu

omit [DecidableEq V] [DecidableEq H] in
theorem Consistent.singleHost (consistent : Consistent s) : SingleHost s where
  unique := by
    intro v h h' first second
    exact (consistent.home h v first).symm.trans (consistent.home h' v second)
  running := by
    intro v running h
    constructor
    · exact fun current => (consistent.home h v current).symm
    · rintro rfl
      exact consistent.running v running

/-- In every run of orderly steps a VCPU is current on at most one host CPU, and a RUNNING
one is current on its own. -/
theorem coarseRun_singleHost {s : Sched V H}
    (reached : ((coarseSystem V H).restrict fun s event => event.Orderly s).Reachable s) :
    SingleHost s := by
  apply Consistent.singleHost
  apply Settled.toConsistent
  apply reached.invariant Settled
  · exact fun _ boot => ⟨boot.consistent, boot.idle⟩
  · rintro s event s' settled ⟨orderly, enabled, result⟩
    exact CoarseEvent.run_settled settled enabled orderly result

theorem coarseRun_singleHost_started :
    ∃ s, (s.vcpu ()).state = .running ∧ SingleHost (V := Unit) (H := Bool) s := by
  refine ⟨_, ?_, coarseRun_singleHost (.replay (.start twoCpus_boot)
    (fun s event => event.Enabled s ∧ event.Orderly s) CoarseEvent.run
    [.critical true (.stateChange succeed () .reset),
      .critical true (.stateChange succeed () .ready), .switch false]
    ?_ (by decide))⟩
  · decide
  · exact fun allowed result => ⟨allowed.2, allowed.1, result⟩

/-- A VCPU paused while it runs stays current on its host CPU until the next switch there;
moved to another host CPU and resumed in between, it is picked there as well. -/
theorem setHcpu_runs_twice : ∃ s, (coarseSystem Unit Bool).Reachable s ∧ ¬ SingleHost s := by
  refine ⟨_, .replay (.start twoCpus_boot)
    (fun s event => event.Enabled s) CoarseEvent.run
    [.critical true (.stateChange succeed () .reset),
      .critical true (.stateChange succeed () .ready), .switch false,
      .critical true (.stateChange succeed () .paused), .critical true (.setHcpu () true),
      .critical true (.stateChange succeed () .ready), .switch true]
    And.intro (by decide), ?_⟩
  · intro host
    have same := host.unique () false true
    revert same
    decide

end Xvisor.Scheduler
