import Mathlib.Data.Fintype.Basic
import Xvisor.Scheduler.Model

/-!
# The scheduler invariant

`Consistent` ties the ready queues, the current VCPUs and the half-done
context switches together. It is kept by the few primitive updates from which
every critical section is built.
-/

namespace Xvisor.Scheduler

open List

universe u v

variable {V : Type u} {H : Type v}

def Unqueued (s : Sched V H) (v : V) : Prop := ∀ h p, v ∉ s.rq h p

@[simp] theorem unqueued_setVcpu [DecidableEq V] (s : Sched V H) (v w : V) (record : Vcpu H) :
    Unqueued (s.setVcpu v record) w ↔ Unqueued s w := Iff.rfl

structure Consistent (s : Sched V H) : Prop where
  nodup : ∀ h p, (s.rq h p).Nodup
  queued : ∀ h p, ∀ v ∈ s.rq h p,
    (s.vcpu v).hcpu = h ∧ (s.vcpu v).priority = p ∧ (s.vcpu v).state = .ready ∧ (s.vcpu v).schedPriv
  home : ∀ h v, s.currentVcpu h = some v → (s.vcpu v).hcpu = h
  running : ∀ v, (s.vcpu v).state = .running → s.currentVcpu (s.vcpu v).hcpu = some v
  switching : ∀ h v, s.phase h ≠ .idle → s.currentVcpu h = some v → (s.vcpu v).state ≠ .running
  taken : ∀ h v, s.phase h = .dequeued v → (s.vcpu v).state ≠ .running
  reserved : ∀ h v, s.phase h = .dequeued v → (s.vcpu v).state = .ready →
    (s.vcpu v).hcpu = h ∧ Unqueued s v
  again : ∀ h v, s.phase h = .dequeued v → s.currentVcpu h = some v → (s.vcpu v).state = .ready

namespace Consistent

variable {s : Sched V H} {v : V}
variable (consistent : Consistent s)
include consistent

theorem unqueued_of_state (notReady : (s.vcpu v).state ≠ .ready) : Unqueued s v := by
  intro h p mem
  exact notReady (consistent.queued h p v mem).2.2.1

section Records

variable [DecidableEq V]

theorem setVcpu_unqueued {record : Vcpu H}
    (unqueued : Unqueued s v) (notRunning : record.state ≠ .running)
    (home : ∀ h, s.currentVcpu h = some v → record.hcpu = h)
    (notTaken : ∀ h, s.phase h = .dequeued v →
      record.state ≠ .ready ∧ s.currentVcpu h ≠ some v) : Consistent (s.setVcpu v record) where
  nodup := consistent.nodup
  queued := by
    intro h p w mem
    have other : w ≠ v := by
      rintro rfl
      exact unqueued h p mem
    simpa [other] using consistent.queued h p w mem
  home := by
    intro h w current
    by_cases same : w = v
    · subst same
      simpa using home h current
    · simpa [same] using consistent.home h w current
  running := by
    intro w
    by_cases same : w = v
    · subst same
      simp [notRunning]
    · simpa [same] using consistent.running w
  switching := by
    intro h w busy current
    by_cases same : w = v
    · subst same
      simpa using notRunning
    · simpa [same] using consistent.switching h w busy current
  taken := by
    intro h w phase
    by_cases same : w = v
    · subst same
      simpa using notRunning
    · simpa [same] using consistent.taken h w phase
  reserved := by
    intro h w phase
    by_cases same : w = v
    · subst same
      simp [(notTaken h phase).1]
    · simpa [same] using consistent.reserved h w phase
  again := by
    intro h w phase current
    by_cases same : w = v
    · subst same
      exact absurd current (notTaken h phase).2
    · simpa [same] using consistent.again h w phase current

theorem setVcpu_flag {record : Vcpu H}
    (state : record.state = (s.vcpu v).state) (hcpu : record.hcpu = (s.vcpu v).hcpu)
    (priority : record.priority = (s.vcpu v).priority)
    (schedPriv : record.schedPriv = (s.vcpu v).schedPriv) : Consistent (s.setVcpu v record) := by
  have states := s.setVcpu_field v record Vcpu.state state
  have hcpus := s.setVcpu_field v record Vcpu.hcpu hcpu
  have priorities := s.setVcpu_field v record Vcpu.priority priority
  have entries := s.setVcpu_field v record Vcpu.schedPriv schedPriv
  refine ⟨consistent.nodup, ?_, ?_, ?_, ?_, ?_, ?_, ?_⟩
  all_goals simp only [states, hcpus, priorities, entries]
  · exact consistent.queued
  · exact consistent.home
  · exact consistent.running
  · exact consistent.switching
  · exact consistent.taken
  · exact consistent.reserved
  · exact consistent.again

end Records

section Queues

variable {s' : Sched V H}

theorem shrink (vcpu : s'.vcpu = s.vcpu)
    (current : s'.currentVcpu = s.currentVcpu) (phase : s'.phase = s.phase)
    (sublist : ∀ h p, (s'.rq h p).Sublist (s.rq h p)) : Consistent s' := by
  refine ⟨fun h p => (consistent.nodup h p).sublist (sublist h p), ?_, ?_, ?_, ?_, ?_, ?_, ?_⟩
  all_goals simp only [vcpu, current, phase]
  · intro h p v mem
    exact consistent.queued h p v ((sublist h p).subset mem)
  · exact consistent.home
  · exact consistent.running
  · exact consistent.switching
  · exact consistent.taken
  · intro h v taken ready
    obtain ⟨home, unqueued⟩ := consistent.reserved h v taken ready
    refine ⟨home, ?_⟩
    intro h' p mem
    exact unqueued h' p ((sublist h' p).subset mem)
  · exact consistent.again

theorem rqDetach [DecidableEq V]
    (result : s.rqDetach v = some s') : Consistent s' ∧ Unqueued s' v := by
  unfold Sched.rqDetach at result
  split at result
  · cases result
    constructor
    · refine consistent.shrink ?_ ?_ ?_ ?_
      · rfl
      · rfl
      · rfl
      · intro h p
        exact filter_sublist
    · intro h p
      simp
  · cases result

theorem rqDetach_getD [DecidableEq V] (v : V) :
    Consistent ((s.rqDetach v).getD s) ∧ Unqueued ((s.rqDetach v).getD s) v ∧
      ((s.rqDetach v).getD s).vcpu = s.vcpu ∧
      ((s.rqDetach v).getD s).currentVcpu = s.currentVcpu ∧
      ((s.rqDetach v).getD s).phase = s.phase := by
  cases detached : s.rqDetach v with
  | some t =>
    obtain ⟨kept, unqueued⟩ := consistent.rqDetach detached
    obtain ⟨vcpu, current, phase⟩ := Sched.rqDetach_frame detached
    exact ⟨kept, unqueued, vcpu, current, phase⟩
  | none =>
    refine ⟨consistent, ?_, rfl, rfl, rfl⟩
    intro h p mem
    have allocated := (consistent.queued h p v mem).2.2.2
    simp [Sched.rqDetach, allocated] at detached

variable [DecidableEq H]

theorem rqDequeue {h : H} {next : V} (result : s.rqDequeue h = some (next, s')) :
    Consistent s' ∧ Unqueued s' next ∧ (s.vcpu next).hcpu = h ∧ (s.vcpu next).state = .ready := by
  obtain ⟨p, rest, list, rfl⟩ := Sched.rqDequeue_some result
  have first : next ∈ s.rq h p := by
    rw [list]
    apply mem_cons_self
  obtain ⟨hcpu, priority, ready, _⟩ := consistent.queued h p next first
  have distinct : (next :: rest).Nodup := list ▸ consistent.nodup h p
  have sublist : ∀ h' p', ((s.setList h p rest).rq h' p').Sublist (s.rq h' p') := by
    intro h' p'
    simp only [Sched.setList]
    split
    · next same =>
      obtain ⟨rfl, rfl⟩ := same
      rw [list]
      apply sublist_cons_self
    · apply List.Sublist.refl
  refine ⟨consistent.shrink rfl rfl rfl sublist, ?_, hcpu, ready⟩
  intro h' p' mem
  obtain ⟨hcpu', priority', _⟩ := consistent.queued h' p' next ((sublist h' p').subset mem)
  have sameList : h' = h ∧ p' = p := ⟨hcpu'.symm.trans hcpu, priority'.symm.trans priority⟩
  simp only [Sched.setList, sameList, and_self, if_true] at mem
  exact (nodup_cons.mp distinct).1 mem

theorem rqEnqueue (ready : (s.vcpu v).state = .ready)
    (unqueued : Unqueued s v) (notTaken : ∀ h, s.phase h ≠ .dequeued v)
    (result : s.rqEnqueue (s.vcpu v).hcpu v = some s') : Consistent s' := by
  unfold Sched.rqEnqueue at result
  split at result
  · next allocated =>
    cases result
    refine ⟨?_, ?_, consistent.home, consistent.running, consistent.switching,
      consistent.taken, ?_, consistent.again⟩
    · intro h p
      simp only [Sched.setList]
      split
      · apply List.Nodup.append (consistent.nodup _ _) (nodup_singleton v)
        simpa using unqueued _ _
      · exact consistent.nodup h p
    · intro h p w mem
      simp only [Sched.setList] at mem
      split at mem
      · next same =>
        obtain ⟨rfl, rfl⟩ := same
        rcases mem_append.mp mem with old | new
        · exact consistent.queued _ _ w old
        · cases mem_singleton.mp new
          exact ⟨rfl, rfl, ready, allocated⟩
      · exact consistent.queued h p w mem
    · intro h w phase isReady
      obtain ⟨home, free⟩ := consistent.reserved h w phase isReady
      refine ⟨home, ?_⟩
      have other : w ≠ v := by
        rintro rfl
        exact notTaken h phase
      intro h' p mem
      simp only [Sched.setList] at mem
      split at mem
      · simp only [mem_append, mem_singleton, other, or_false] at mem
        exact free _ _ mem
      · exact free _ _ mem
  · cases result

end Queues

section Switching

variable [DecidableEq H]

/-- A host CPU moves on inside its switch: its current VCPU is stopped, and a VCPU it
holds dequeued is READY, its own and on no queue. -/
theorem setPhase {h : H} {phase : Phase V}
    (stopped : ∀ v, s.currentVcpu h = some v → (s.vcpu v).state ≠ .running)
    (holds : ∀ v, phase = .dequeued v →
      (s.vcpu v).state = .ready ∧ (s.vcpu v).hcpu = h ∧ Unqueued s v) :
    Consistent (s.setPhase h phase) where
  nodup := consistent.nodup
  queued := consistent.queued
  home := consistent.home
  running := consistent.running
  switching := by
    intro h' v busy current
    by_cases same : h' = h
    · subst same
      exact stopped v current
    · rw [Sched.setPhase_phase_of_ne s _ same] at busy
      exact consistent.switching h' v busy current
  taken := by
    intro h' v taken
    by_cases same : h' = h
    · subst same
      rw [Sched.setPhase_phase] at taken
      simp [Sched.setPhase, (holds v taken).1]
    · rw [Sched.setPhase_phase_of_ne s _ same] at taken
      exact consistent.taken h' v taken
  reserved := by
    intro h' v taken
    by_cases same : h' = h
    · subst same
      rw [Sched.setPhase_phase] at taken
      exact fun _ => (holds v taken).2
    · rw [Sched.setPhase_phase_of_ne s _ same] at taken
      exact consistent.reserved h' v taken
  again := by
    intro h' v taken
    by_cases same : h' = h
    · subst same
      rw [Sched.setPhase_phase] at taken
      exact fun _ => (holds v taken).1
    · rw [Sched.setPhase_phase_of_ne s _ same] at taken
      exact consistent.again h' v taken

variable [DecidableEq V]

attribute [local simp] Sched.makeRunning

theorem makeRunning {h : H} {next : V}
    (held : s.phase h = .dequeued next) (ready : (s.vcpu next).state = .ready) :
    Consistent (s.makeRunning h next) := by
  obtain ⟨hcpu, unqueued⟩ := consistent.reserved h next held ready
  have notElsewhere : ∀ h', h' ≠ h → s.currentVcpu h' ≠ some next := by
    intro h' other current
    exact other ((consistent.home h' next current).symm.trans hcpu)
  have notTaken : ∀ h', h' ≠ h → s.phase h' ≠ .dequeued next := by
    intro h' other phase
    exact other ((consistent.reserved h' next phase ready).1.symm.trans hcpu)
  have busy : s.phase h ≠ .idle := by simp [held]
  refine ⟨consistent.nodup, ?_, ?_, ?_, ?_, ?_, ?_, ?_⟩
  · intro h' p v mem
    have other : v ≠ next := by
      rintro rfl
      exact unqueued h' p mem
    simpa [other] using consistent.queued h' p v mem
  · intro h' v
    by_cases same : h' = h
    · subst same
      rintro current
      obtain rfl : next = v := by simpa using current
      simpa using hcpu
    · intro current
      have before : s.currentVcpu h' = some v := by simpa [same] using current
      have other : v ≠ next := by
        rintro rfl
        exact notElsewhere h' same before
      simpa [other] using consistent.home h' v before
  · intro v running
    by_cases same : v = next
    · subst same
      simp [hcpu]
    · have before : (s.vcpu v).state = .running := by
        simpa [same] using running
      have current := consistent.running v before
      have away : (s.vcpu v).hcpu ≠ h := by
        intro atH
        rw [atH] at current
        exact consistent.switching h v busy current before
      simpa [same, away] using current
  · intro h' v busy' current
    have away : h' ≠ h := by
      rintro rfl
      simp at busy'
    have before : s.currentVcpu h' = some v := by simpa [away] using current
    have other : v ≠ next := by
      rintro rfl
      exact notElsewhere h' away before
    have busyBefore : s.phase h' ≠ .idle := by simpa [away] using busy'
    simpa [other] using consistent.switching h' v busyBefore before
  all_goals
    intro h' v phase
    have away : h' ≠ h := by
      rintro rfl
      simp at phase
    have before : s.phase h' = .dequeued v := by simpa [away] using phase
    have other : v ≠ next := by
      rintro rfl
      exact notTaken h' away before
  · simpa [other] using consistent.taken h' v before
  · simpa [Unqueued, other] using consistent.reserved h' v before
  · simpa [other, away] using consistent.again h' v before

end Switching

end Consistent

/-! ## The critical sections -/

variable {s s' : Sched V H} {v : V}

/-- No context switch holds the VCPU's `sched_lock`. -/
def LockFree (s : Sched V H) (v : V) : Prop :=
  ∀ h, s.currentVcpu h = some v → s.phase h = .idle

instance [DecidableEq V] [Fintype H] : Decidable (LockFree s v) :=
  inferInstanceAs (Decidable (∀ h, s.currentVcpu h = some v → s.phase h = .idle))

variable {h : H}

theorem LockFree.not_current (lockFree : LockFree s v) (phase : s.phase h = .dequeued v) :
    s.currentVcpu h ≠ some v := by
  intro current
  have idle := lockFree h current
  rw [phase] at idle
  cases idle

variable [DecidableEq V]

theorem LockFree.rqDetach {w : V} (lockFree : LockFree s v) (result : s.rqDetach w = some s') :
    LockFree s' v := by
  obtain ⟨_, current, phase⟩ := Sched.rqDetach_frame result
  unfold LockFree
  rw [current, phase]
  exact lockFree

namespace Consistent

section

variable (consistent : Consistent s)
include consistent

theorem leave {state : VcpuState} (unqueued : Unqueued s v)
    (lockFree : LockFree s v) (notReady : state ≠ .ready) (notRunning : state ≠ .running) :
    Consistent (s.setState v state) := by
  apply consistent.setVcpu_unqueued unqueued notRunning
  · exact fun h current => consistent.home h v current
  · exact fun h phase => ⟨notReady, lockFree.not_current phase⟩

theorem setResumed (v : V) (resumed : Bool) : Consistent (s.setResumed v resumed) := by
  apply consistent.setVcpu_flag
  · rfl
  · rfl
  · rfl
  · rfl

theorem changeToReset {hooks : Sched.Hooks} (lockFree : LockFree s v)
    (notCurrent : (s.vcpu v).state = .ready → s.currentVcpu (s.vcpu v).hcpu ≠ some v) :
    Consistent (Sched.changeToReset hooks s v).1 := by
  have cleared : Consistent (s.setResumed v false) := consistent.setResumed v false
  simp only [Sched.changeToReset, Sched.setResumed_currentVcpu]
  split
  · next unknown =>
    split
    · apply consistent.setVcpu_unqueued
      · apply consistent.unqueued_of_state
        simp [unknown]
      · simp
      · exact fun h current => consistent.home h v current
      · exact fun h phase => ⟨by simp, lockFree.not_current phase⟩
    · exact consistent
  · exact consistent
  · by_cases ready : (s.vcpu v).state = .ready
    · simp only [ready, notCurrent ready, ne_eq, not_false_eq_true, and_self, if_true]
      split
      · exact cleared
      · next detached result =>
        obtain ⟨kept, unqueued⟩ := cleared.rqDetach result
        split
        · exact kept.leave unqueued (LockFree.rqDetach (s := s.setResumed v _) lockFree result)
            (by simp) (by simp)
        · exact kept
    · simp only [ready, and_false, if_false]
      split
      · exact cleared.leave (consistent.unqueued_of_state ready) lockFree (by simp) (by simp)
      · exact cleared

theorem changeToStopped {newState : VcpuState}
    (lockFree : LockFree s v) (notReady : newState ≠ .ready) (notRunning : newState ≠ .running)
    (notCurrent : (s.vcpu v).state = .ready → s.currentVcpu (s.vcpu v).hcpu ≠ some v) :
    Consistent (Sched.changeToStopped s v newState).1 := by
  have cleared : Consistent (s.setResumed v false) := consistent.setResumed v false
  simp only [Sched.changeToStopped, Sched.setResumed_currentVcpu]
  split
  · split
    · exact cleared
    · by_cases ready : (s.vcpu v).state = .ready
      · simp only [ready, notCurrent ready, reduceIte]
        split
        · next detached result =>
          obtain ⟨kept, unqueued⟩ := cleared.rqDetach result
          exact kept.leave unqueued (LockFree.rqDetach (s := s.setResumed v _) lockFree result)
            notReady notRunning
        · exact cleared
      · simp only [ready, if_false, ite_self]
        exact cleared.leave (consistent.unqueued_of_state ready) lockFree notReady notRunning
  · exact consistent

end

variable [DecidableEq H]

section

variable (consistent : Consistent s)
include consistent

theorem changeToReady (notTaken : (s.vcpu v).state = .reset ∨ (s.vcpu v).state = .paused →
      ∀ h, s.phase h ≠ .dequeued v) : Consistent (Sched.changeToReady s v).1 := by
  have enqueued : ∀ s', (s.vcpu v).state = .reset ∨ (s.vcpu v).state = .paused →
      s.rqEnqueue (s.vcpu v).hcpu v = some s' → Consistent (s'.setState v .ready) := by
    intro s' stopped result
    have unqueued : Unqueued s v := by
      apply consistent.unqueued_of_state
      rcases stopped with state | state <;> simp [state]
    have ready : Consistent (s.setState v .ready) := by
      apply consistent.setVcpu_unqueued unqueued (by simp)
      · exact fun h current => consistent.home h v current
      · exact fun h phase => absurd phase (notTaken stopped h)
    unfold Sched.rqEnqueue at result
    split at result
    · next allocated =>
      cases result
      apply ready.rqEnqueue (v := v)
      · simp [Sched.setState]
      · exact unqueued
      · exact notTaken stopped
      · simp [Sched.rqEnqueue, Sched.setState, allocated]
        rfl
    · cases result
  simp only [Sched.changeToReady]
  split
  · next state =>
    split
    · exact enqueued _ (Or.inl state) ‹_›
    · exact consistent
  · next state =>
    split
    · exact enqueued _ (Or.inr state) ‹_›
    · exact consistent
  · exact consistent.setResumed v true
  · exact consistent
  · exact consistent

theorem setHcpu {hcpu : H} (lockFree : LockFree s v)
    (notCurrent : (s.vcpu v).state ≠ .ready → (s.vcpu v).state ≠ .running →
      ∀ h, s.currentVcpu h ≠ some v) : Consistent (Sched.setHcpu s v hcpu).1 := by
  simp only [Sched.setHcpu]
  split
  · exact consistent
  split
  · exact consistent
  split
  · apply consistent.shrink
    · rfl
    · rfl
    · rfl
    · exact fun h p => List.Sublist.refl _
  · next stopped =>
    obtain ⟨notReady, notRunning⟩ := not_or.mp stopped
    apply consistent.setVcpu_unqueued (consistent.unqueued_of_state notReady)
    · exact notRunning
    · exact fun h current => absurd current (notCurrent notReady notRunning h)
    · exact fun h phase => ⟨notReady, lockFree.not_current phase⟩

theorem ipiMigrateVcpu {m : Migration V H} (idle : s.phase m.oldHcpu = .idle)
    (notCurrent : (s.vcpu m.vcpu).state = .ready → ∀ h, s.currentVcpu h ≠ some m.vcpu) :
    Consistent (s.ipiMigrateVcpu m) := by
  simp only [Sched.ipiMigrateVcpu]
  split
  · exact consistent
  · next moves =>
    obtain ⟨ready, atOld, _⟩ : (s.vcpu m.vcpu).state = .ready ∧
        (s.vcpu m.vcpu).hcpu = m.oldHcpu ∧ (s.vcpu m.vcpu).hcpu ≠ m.newHcpu := by
      simpa [not_or] using moves
    have notTaken : ∀ h, s.phase h ≠ .dequeued m.vcpu := by
      intro h phase
      have atHcpu := (consistent.reserved h m.vcpu phase ready).1
      rw [← atHcpu, atOld, idle] at phase
      cases phase
    obtain ⟨kept, unqueued, vcpu, current, phase⟩ := consistent.rqDetach_getD m.vcpu
    generalize (s.rqDetach m.vcpu).getD s = t at kept unqueued vcpu current phase ⊢
    have moved : Consistent (t.setVcpu m.vcpu { s.vcpu m.vcpu with hcpu := m.newHcpu }) := by
      apply kept.setVcpu_unqueued unqueued
      · simp [ready]
      · rw [current]
        exact fun h isCurrent => absurd isCurrent (notCurrent ready h)
      · rw [phase]
        exact fun h taken => absurd taken (notTaken h)
    cases enqueued : (t.setVcpu m.vcpu { s.vcpu m.vcpu with hcpu := m.newHcpu }).rqEnqueue
        m.newHcpu m.vcpu with
    | none => exact moved
    | some final =>
      apply moved.rqEnqueue (v := m.vcpu)
      · simpa using ready
      · exact unqueued
      · rw [Sched.setVcpu_phase, phase]
        exact notTaken
      · simpa using enqueued

theorem switchEnter : Consistent (s.switchEnter h) := by
  unfold Sched.switchEnter
  split
  · next noCurrent =>
    apply consistent.setPhase
    · simp [noCurrent]
    · simp
  · next current isCurrent =>
    simp only
    split
    · next running =>
      have unqueued : Unqueued s current := by
        apply consistent.unqueued_of_state
        simp [running]
      have notTaken : ∀ h, s.phase h ≠ .dequeued current :=
        fun h phase => consistent.taken h current phase running
      have ready : Consistent (s.setState current .ready) := by
        apply consistent.setVcpu_unqueued unqueued
        · simp
        · exact fun h isCurrent => consistent.home h current isCurrent
        · exact fun h phase => absurd phase (notTaken h)
      have isReady : ((s.setState current .ready).vcpu current).state = .ready := by
        simp [Sched.setState]
      have atH : ((s.setState current .ready).vcpu current).hcpu = h :=
        ready.home h current isCurrent
      cases enqueued : (s.setState current .ready).rqEnqueue h current with
      | none =>
        apply ready.setPhase
        · intro v isCurrent'
          obtain rfl : current = v := Option.some.inj (isCurrent.symm.trans isCurrent')
          simp [isReady]
        · simp
      | some t =>
        have kept : Consistent t := by
          apply ready.rqEnqueue isReady unqueued notTaken
          rw [atH]
          exact enqueued
        obtain ⟨sameVcpu, sameCurrent, _⟩ := Sched.rqEnqueue_frame enqueued
        apply kept.setPhase
        · intro v isCurrent'
          rw [sameCurrent] at isCurrent'
          obtain rfl : current = v := Option.some.inj (isCurrent.symm.trans isCurrent')
          simp [sameVcpu, isReady]
        · simp
    · next notRunning =>
      apply consistent.setPhase
      · intro v isCurrent'
        obtain rfl : current = v := Option.some.inj (isCurrent.symm.trans isCurrent')
        exact notRunning
      · simp

end

omit [DecidableEq V] in
theorem switchDequeue (consistent : Consistent s) (dequeueing : s.phase h = .dequeueing)
    (result : s.switchDequeue h = some s') :
    Consistent s' ∧ ∃ next, s'.phase h = .dequeued next ∧ (s'.vcpu next).state = .ready := by
  unfold Sched.switchDequeue at result
  split at result
  · cases result
  · next next t dequeued =>
    cases result
    obtain ⟨kept, unqueued, hcpu, ready⟩ := consistent.rqDequeue dequeued
    obtain ⟨_, _, _, rfl⟩ := Sched.rqDequeue_some dequeued
    refine ⟨?_, next, by simp, ready⟩
    apply kept.setPhase
    · intro v isCurrent
      apply kept.switching h v _ isCurrent
      simp [dequeueing]
    · rintro _ ⟨⟩
      exact ⟨ready, hcpu, unqueued⟩

theorem switchTake {next : V} (consistent : Consistent s) (held : s.phase h = .dequeued next)
    (first : s.currentVcpu h = none → (s.vcpu next).state = .ready) :
    Consistent (s.switchTake h next) := by
  unfold Sched.switchTake
  split
  · next noCurrent => exact consistent.makeRunning held (first noCurrent)
  · next current isCurrent =>
    split
    · apply consistent.setPhase
      · intro v isCurrent'
        apply consistent.switching h v _ isCurrent'
        simp [held]
      · simp
    · next taken =>
      apply consistent.makeRunning held
      by_cases same : next = current
      · subst same
        exact consistent.again h next held isCurrent
      · simpa [same] using taken

end Consistent

end Xvisor.Scheduler
