import Xvisor.Scheduler.Runs

/-!
# Time accounting

A state change reads the clock under the `sched_lock` of its VCPU. A context switch reads it when
it starts, and `vmm_scheduler_stats` before it takes the lock; what they read is part of the state
until they use it.
-/

namespace Xvisor.Scheduler

open Function Lib Nat

universe u v

structure VcpuTimes where
  stateTstamp : Nat
  readyNsecs : Nat
  runningNsecs : Nat
  pausedNsecs : Nat
  haltedNsecs : Nat
  resetTstamp : Nat
  deriving DecidableEq, Repr

namespace VcpuTimes

def zero : VcpuTimes := ⟨0, 0, 0, 0, 0, 0⟩

variable (times : VcpuTimes)

def charge (state : VcpuState) (now : Nat) : VcpuTimes :=
  let spent := Word.sub now times.stateTstamp
  match state with
  | .ready => { times with readyNsecs := Word.add times.readyNsecs spent }
  | .running => { times with runningNsecs := Word.add times.runningNsecs spent }
  | .paused => { times with pausedNsecs := Word.add times.pausedNsecs spent }
  | .halted => { times with haltedNsecs := Word.add times.haltedNsecs spent }
  | .unknown => times
  | .reset => times

def stamp (now : Nat) : VcpuTimes := { times with stateTstamp := now }

def clear (now : Nat) : VcpuTimes :=
  { times with
    readyNsecs := 0
    runningNsecs := 0
    pausedNsecs := 0
    haltedNsecs := 0
    resetTstamp := now }

def total : Nat :=
  times.readyNsecs + times.runningNsecs + times.pausedNsecs + times.haltedNsecs

end VcpuTimes

def VcpuState.Counted (state : VcpuState) : Prop :=
  state ≠ .unknown ∧ state ≠ .reset

instance (state : VcpuState) : Decidable state.Counted := inferInstanceAs (Decidable (_ ∧ _))

/-- `tstamp` is what the context switch in progress on a host CPU read, and `statsCalls` what the
calls of `vmm_scheduler_stats` read that have not yet taken the lock. `leftReset` records when a
VCPU last left RESET. -/
structure TimedSched (V : Type u) (H : Type v) where
  sched : Sched V H
  times : V → VcpuTimes
  clock : Nat
  tstamp : H → Nat
  statsCalls : List (V × Nat)
  leftReset : V → Nat

namespace Sched

variable {V : Type u} {H : Type v} [DecidableEq V] [DecidableEq H]

def changes (hooks : Hooks) (s : Sched V H) (v : V) (newState : VcpuState) : Bool :=
  (s.stateChange hooks v newState).2 = .ok && !s.skips v newState

end Sched

namespace TimedSched

variable {V : Type u} {H : Type v} [DecidableEq V] [DecidableEq H]

section

variable (s : TimedSched V H)

def setTimes (v : V) (times : VcpuTimes) : TimedSched V H :=
  { s with times := update s.times v times }

def leave (v : V) : TimedSched V H :=
  if (s.sched.vcpu v).state = .reset then
    { s with leftReset := update s.leftReset v s.clock }
  else s

def accountChange (v : V) (newState : VcpuState) : TimedSched V H :=
  let times := (s.times v).charge (s.sched.vcpu v).state s.clock
  let times := if newState = .reset then times.clear s.clock else times
  (s.leave v).setTimes v (times.stamp s.clock)

/-- A switch reads the clock, and accounts for the current VCPU if it was running. -/
def accountEnter (h : H) : TimedSched V H :=
  let s := { s with tstamp := update s.tstamp h s.clock }
  match s.sched.currentVcpu h with
  | none => s
  | some current =>
    if (s.sched.vcpu current).state = .running then
      s.setTimes current (((s.times current).charge .running s.clock).stamp s.clock)
    else s

def accountTake (h : H) (next : V) : TimedSched V H :=
  if s.sched.takes h next then
    (s.leave next).setTimes next
      (((s.times next).charge .ready (s.tstamp h)).stamp (s.tstamp h))
  else s

def account : Event V H → TimedSched V H
  | .critical _ (.stateChange hooks v newState) =>
    if s.sched.changes hooks v newState then s.accountChange v newState else s
  | .critical _ (.setHcpu _ _) => s
  | .critical _ (.migrate _) => s
  | .switchEnter h => s.accountEnter h
  | .switchDequeue _ => s
  | .switchNext h =>
    match s.sched.phase h with
    | .dequeued next => s.accountTake h next
    | _ => s

/-- The critical section of `vmm_scheduler_stats`. -/
def syncStats (v : V) (tstamp : Nat) : TimedSched V H :=
  if (s.sched.vcpu v).state.Counted then
    s.setTimes v (((s.times v).charge (s.sched.vcpu v).state tstamp).stamp tstamp)
  else s

end

end TimedSched

inductive TimedEvent (V : Type u) (H : Type v) where
  | tick (now : Nat)
  | sched (event : Event V H)
  | statsRead (v : V)
  | statsSync (v : V) (tstamp : Nat)

namespace TimedEvent

variable {V : Type u} {H : Type v} [DecidableEq V] [DecidableEq H]

def run (s : TimedSched V H) : TimedEvent V H → Option (TimedSched V H)
  | .tick now => some { s with clock := now }
  | .sched event =>
    (event.run s.sched).map fun scheduled => { s.account event with sched := scheduled }
  | .statsRead v => some { s with statsCalls := s.statsCalls ++ [(v, s.clock)] }
  | .statsSync v tstamp =>
    some { s.syncStats v tstamp with statsCalls := s.statsCalls.erase (v, tstamp) }

def Enabled (s : TimedSched V H) : TimedEvent V H → Prop
  | .tick now => s.clock ≤ now ∧ now < 2 ^ 64
  | .sched event => event.Enabled s.sched
  | .statsRead _ => True
  | .statsSync v tstamp => (v, tstamp) ∈ s.statsCalls ∧ LockFree s.sched v

end TimedEvent

def timedSystem (V : Type u) (H : Type v) [DecidableEq V] [DecidableEq H] :
    System (TimedSched V H) (TimedEvent V H) where
  init s := Boot s.sched ∧ (∀ v, s.times v = .zero) ∧ s.clock < 2 ^ 64 ∧
    (∀ h, s.tstamp h = 0) ∧ s.statsCalls = [] ∧ ∀ v, s.leftReset v = 0
  step s event s' := event.Enabled s ∧ event.run s = some s'

/-! ## The states of the VCPUs -/

namespace Sched

variable {V : Type u} {H : Type v} [DecidableEq V] [DecidableEq H] {s : Sched V H}

omit [DecidableEq H] in
theorem setState_state (s : Sched V H) (v w : V) (state : VcpuState) :
    ((s.setState v state).vcpu w).state = if w = v then state else (s.vcpu w).state := by
  by_cases same : w = v
  · rw [same, if_pos rfl, setState, setVcpu_vcpu]
  · rw [if_neg same, setState, setVcpu_vcpu_of_ne _ _ same]

structure Effect (s : Sched V H) (v : V) (newState : VcpuState) (skipped : Bool)
    (outcome : Sched V H × Rc) : Prop where
  kept : outcome.2 ≠ .ok ∨ skipped → ∀ w, (outcome.1.vcpu w).state = (s.vcpu w).state
  written : outcome.2 = .ok → skipped = false → ∀ w,
    (outcome.1.vcpu w).state = if w = v then newState else (s.vcpu w).state

theorem stateChange_effect (hooks : Hooks) (s : Sched V H) (v : V) (newState : VcpuState) :
    Effect s v newState (s.skips v newState) (s.stateChange hooks v newState) := by
  have changed := s.stateChange_changed hooks v newState
  generalize s.stateChange hooks v newState = outcome at changed ⊢
  cases changed with
  | kept same reason =>
    refine ⟨fun _ => same.state, fun isOk notSkipped => ?_⟩
    rw [reason isOk] at notSkipped
    cases notSkipped
  | written same notSkipped =>
    refine ⟨by simp [notSkipped], fun _ _ w => ?_⟩
    rw [setState_state, same.state]

theorem stateChange_state (hooks : Hooks) (s : Sched V H) (v : V) (newState : VcpuState) (w : V) :
    ((s.stateChange hooks v newState).1.vcpu w).state =
      if w = v ∧ s.changes hooks v newState then newState else (s.vcpu w).state := by
  have effect := s.stateChange_effect hooks v newState
  by_cases changed : s.changes hooks v newState
  · have both := changed
    rw [changes, Bool.and_eq_true, decide_eq_true_eq, Bool.not_eq_true'] at both
    rw [effect.written both.1 both.2 w]
    simp [changed]
  · have either := changed
    rw [changes, Bool.and_eq_true, decide_eq_true_eq, Bool.not_eq_true', not_and_or,
      Bool.not_eq_false] at either
    rw [effect.kept either w]
    simp [changed]

theorem changes_of_unknown {hooks : Hooks} {v : V} {newState : VcpuState}
    (isUnknown : (s.vcpu v).state = .unknown) (changed : s.changes hooks v newState) :
    newState = .unknown ∨ newState = .reset := by
  rw [changes, Bool.and_eq_true, decide_eq_true_eq] at changed
  obtain ⟨isOk, -⟩ := changed
  cases newState with
  | unknown => exact .inl rfl
  | reset => exact .inr rfl
  | ready => simp [stateChange, changeToReady, isUnknown] at isOk
  | running => simp [stateChange] at isOk
  | paused | halted => simp [stateChange, changeToStopped, isUnknown] at isOk

/-! ### The other events -/

theorem setHcpu_state (s : Sched V H) (v : V) (hcpu : H) (w : V) :
    ((s.setHcpu v hcpu).1.vcpu w).state = (s.vcpu w).state := by
  unfold setHcpu
  dsimp only
  split_ifs
  · rfl
  · rfl
  · rfl
  · exact s.setVcpu_field v { s.vcpu v with hcpu := hcpu } Vcpu.state rfl w

theorem ipiMigrateVcpu_state (s : Sched V H) (m : Migration V H) (w : V) :
    ((s.ipiMigrateVcpu m).vcpu w).state = (s.vcpu w).state := by
  unfold ipiMigrateVcpu
  dsimp only
  split
  · rfl
  · rw [rqEnqueue_getD_vcpu, setVcpu_field _ _ _ Vcpu.state (by rw [rqDetach_getD_vcpu]),
      rqDetach_getD_vcpu]

theorem switchEnter_state (s : Sched V H) (h : H) (w : V) :
    ((s.switchEnter h).vcpu w).state =
      if s.currentVcpu h = some w ∧ (s.vcpu w).state = .running then .ready
      else (s.vcpu w).state := by
  unfold switchEnter
  cases isCurrent : s.currentVcpu h with
  | none => simp [setPhase]
  | some current =>
    by_cases isRunning : (s.vcpu current).state = .running
    · simp only [isRunning, if_true, Option.some.injEq]
      show (((s.setState current .ready).rqEnqueue h current).getD _ |>.vcpu w).state = _
      rw [rqEnqueue_getD_vcpu, setState_state]
      by_cases same : w = current
      · simp [same, isRunning]
      · simp [same, Ne.symm same]
    · simp only [isRunning, if_false, Option.some.injEq]
      show (s.vcpu w).state = _
      rw [if_neg]
      rintro ⟨rfl, isRunning'⟩
      exact isRunning isRunning'

omit [DecidableEq V] in
theorem switchDequeue_vcpu {s' : Sched V H} {h : H} (result : s.switchDequeue h = some s') :
    s'.vcpu = s.vcpu := by
  unfold switchDequeue at result
  split at result
  · cases result
  · next dequeued =>
    cases result
    obtain ⟨p, rest, -, rfl⟩ := rqDequeue_some dequeued
    rfl

theorem switchTake_state (s : Sched V H) (h : H) (next w : V) :
    ((s.switchTake h next).vcpu w).state =
      if w = next ∧ s.takes h next then .running else (s.vcpu w).state := by
  have running : ((s.makeRunning h next).vcpu w).state =
      if w = next then .running else (s.vcpu w).state := by
    unfold makeRunning
    by_cases same : w = next
    · simp [same, setVcpu]
    · simp [same, setVcpu]
  rw [switchTake_eq]
  by_cases taken : s.takes h next = true
  · rw [if_pos taken, running]
    simp only [taken, and_true]
  · rw [if_neg taken, if_neg (mt And.right taken)]
    rfl

end Sched

/-! ## The times of one VCPU -/

open TimedSched

/-- What holds between the state of a VCPU, its times, the time when it last left RESET and the
clock. -/
structure VcpuTimes.Ok (times : VcpuTimes) (state : VcpuState) (left clock : Nat) : Prop where
  reset : state = .reset → times.total = 0
  total : state.Counted → times.total + left = times.stateTstamp
  since : state.Counted → times.resetTstamp ≤ left
  stamp : times.stateTstamp ≤ clock
  resetStamp : times.resetTstamp ≤ clock

namespace VcpuTimes

variable {times : VcpuTimes} {state newState : VcpuState} {left clock now : Nat}

theorem charge_resetTstamp : (times.charge state now).resetTstamp = times.resetTstamp := by
  cases state <;> rfl

theorem charge_total (counted : state.Counted) (notEarlier : times.stateTstamp ≤ now)
    (small : times.total + (now - times.stateTstamp) < 2 ^ 64) (word : now < 2 ^ 64) :
    (times.charge state now).total = times.total + (now - times.stateTstamp) := by
  have spent : Word.sub now times.stateTstamp = now - times.stateTstamp :=
    Word.sub_of_le notEarlier word
  unfold total at small ⊢
  cases state with
  | unknown => exact absurd rfl counted.1
  | reset => exact absurd rfl counted.2
  | ready | running | paused | halted =>
    simp only [charge, spent]
    rw [Word.add_of_lt (by omega)]
    omega

namespace Ok

theorem later (ok : times.Ok state left clock) {clock' : Nat} (isLater : clock ≤ clock') :
    times.Ok state left clock' :=
  { ok with
    stamp := ok.stamp.trans isLater
    resetStamp := ok.resetStamp.trans isLater }

theorem charge (ok : times.Ok state left clock) (wasCounted : state.Counted)
    {charged : VcpuState} (isCharged : charged.Counted) (counted : newState.Counted)
    (notEarlier : times.stateTstamp ≤ now) (notLater : now ≤ clock) (word : clock < 2 ^ 64) :
    ((times.charge charged now).stamp now).Ok newState left clock := by
  have total := ok.total wasCounted
  have sum := times.charge_total isCharged notEarlier (by omega) (by omega)
  refine ⟨fun isReset => absurd isReset counted.2, ?_, ?_, notLater, ?_⟩
  · intro _
    show (times.charge charged now).total + left = now
    omega
  · intro _
    exact charge_resetTstamp.le.trans (ok.since wasCounted)
  · exact charge_resetTstamp.le.trans ok.resetStamp

theorem change (ok : times.Ok state left clock) (word : clock < 2 ^ 64)
    (fromUnknown : state = .unknown → newState = .unknown ∨ newState = .reset) :
    ((if newState = .reset then (times.charge state clock).clear clock
        else times.charge state clock).stamp clock).Ok newState
      (if state = .reset then clock else left) clock := by
  by_cases toReset : newState = .reset
  · rw [if_pos toReset]
    refine ⟨fun _ => rfl, ?_, ?_, le_refl _, le_refl _⟩
    all_goals exact fun counted => absurd toReset counted.2
  · rw [if_neg toReset]
    by_cases toUnknown : newState = .unknown
    · refine ⟨fun isReset => absurd isReset toReset, ?_, ?_, le_refl _, ?_⟩
      · exact fun counted => absurd toUnknown counted.1
      · exact fun counted => absurd toUnknown counted.1
      · exact charge_resetTstamp.le.trans ok.resetStamp
    · have counted : newState.Counted := ⟨toUnknown, toReset⟩
      by_cases wasReset : state = .reset
      · subst wasReset
        have empty := ok.reset rfl
        rw [if_pos rfl]
        refine ⟨fun isReset => absurd isReset toReset, ?_, ?_, le_refl _, ok.resetStamp⟩
        · intro _
          show times.total + clock = clock
          omega
        · exact fun _ => ok.resetStamp
      · have wasCounted : state.Counted := by
          refine ⟨?_, wasReset⟩
          intro wasUnknown
          rcases fromUnknown wasUnknown with isUnknown | isReset
          · exact toUnknown isUnknown
          · exact toReset isReset
        rw [if_neg wasReset]
        exact ok.charge wasCounted wasCounted counted ok.stamp (le_refl _) word

end Ok

end VcpuTimes

/-! ## Updates -/

namespace TimedSched

variable {V : Type u} {H : Type v} [DecidableEq V] (s : TimedSched V H) (v : V)

@[simp] theorem setTimes_times (times : VcpuTimes) : (s.setTimes v times).times v = times := by
  simp [setTimes]

@[simp] theorem setTimes_times_of_ne {w : V} (times : VcpuTimes) (other : w ≠ v) :
    (s.setTimes v times).times w = s.times w := by
  simp [setTimes, other]

theorem leave_leftReset : (s.leave v).leftReset v =
    if (s.sched.vcpu v).state = .reset then s.clock else s.leftReset v := by
  unfold leave
  split
  · simp
  · rfl

theorem leave_leftReset_of_ne {w : V} (other : w ≠ v) :
    (s.leave v).leftReset w = s.leftReset w := by
  unfold leave
  split
  · simp [other]
  · rfl

theorem leave_frame : (s.leave v).times = s.times ∧ (s.leave v).clock = s.clock ∧
    (s.leave v).tstamp = s.tstamp ∧ (s.leave v).statsCalls = s.statsCalls := by
  unfold leave
  split
  · exact ⟨rfl, rfl, rfl, rfl⟩
  · exact ⟨rfl, rfl, rfl, rfl⟩

end TimedSched

/-! ## Runs -/

variable {V : Type u} {H : Type v}

/-- The counters add up to the time since the VCPU left RESET, and are zero while it is in RESET.
None of them exceeds the time since the reset. -/
structure Accounted (s : TimedSched V H) (v : V) : Prop where
  reset : (s.sched.vcpu v).state = .reset → (s.times v).total = 0
  total : (s.sched.vcpu v).state ≠ .reset →
    (s.times v).total + s.leftReset v = (s.times v).stateTstamp
  ready : (s.times v).readyNsecs + (s.times v).resetTstamp ≤ s.clock
  running : (s.times v).runningNsecs + (s.times v).resetTstamp ≤ s.clock
  paused : (s.times v).pausedNsecs + (s.times v).resetTstamp ≤ s.clock
  halted : (s.times v).haltedNsecs + (s.times v).resetTstamp ≤ s.clock

/-- A context switch takes a VCPU that is not in RESET, and whose last stamp is not younger than
what the switch read. The same holds for the stamp that `vmm_scheduler_stats` replaces. -/
def TimedEvent.InTime [DecidableEq V] (s : TimedSched V H) : TimedEvent V H → Prop
  | .sched (.switchNext h) => ∀ next, s.sched.phase h = .dequeued next → s.sched.takes h next →
    (s.sched.vcpu next).state.Counted ∧ (s.times next).stateTstamp ≤ s.tstamp h
  | .statsSync v tstamp => (s.sched.vcpu v).state.Counted → (s.times v).stateTstamp ≤ tstamp
  | _ => True

structure TimesOk (s : TimedSched V H) : Prop where
  word : s.clock < 2 ^ 64
  vcpu : ∀ v, (s.times v).Ok (s.sched.vcpu v).state (s.leftReset v) s.clock
  tstamp : ∀ h, s.tstamp h ≤ s.clock
  calls : ∀ call ∈ s.statsCalls, call.2 ≤ s.clock

variable {v : V}

theorem TimesOk.accounted {s : TimedSched V H} (ok : TimesOk s)
    (isVcpu : (s.sched.vcpu v).state ≠ .unknown) : Accounted s v := by
  have times := ok.vcpu v
  have sum : (s.times v).total + (s.times v).resetTstamp ≤ s.clock := by
    by_cases isReset : (s.sched.vcpu v).state = .reset
    · rw [times.reset isReset, zero_add]
      exact times.resetStamp
    · have total := times.total ⟨isVcpu, isReset⟩
      have since := times.since ⟨isVcpu, isReset⟩
      have stamp := times.stamp
      omega
  unfold VcpuTimes.total at sum
  refine ⟨times.reset, fun notReset => times.total ⟨isVcpu, notReset⟩, ?_, ?_, ?_, ?_⟩
  · omega
  · omega
  · omega
  · omega

namespace TimesOk

variable [DecidableEq V] {s : TimedSched V H} (ok : TimesOk s)
include ok

theorem update {s' : TimedSched V H}
    (sameClock : s'.clock = s.clock) (tstamp : ∀ h, s'.tstamp h ≤ s.clock)
    (calls : s'.statsCalls = s.statsCalls)
    (here : (s'.times v).Ok (s'.sched.vcpu v).state (s'.leftReset v) s.clock)
    (others : ∀ w, w ≠ v → s'.times w = s.times w ∧ s'.leftReset w = s.leftReset w ∧
      (s'.sched.vcpu w).state = (s.sched.vcpu w).state) : TimesOk s' := by
  refine ⟨sameClock ▸ ok.word, ?_, sameClock ▸ tstamp, ?_⟩
  · intro w
    rw [sameClock]
    by_cases same : w = v
    · rw [same]
      exact here
    · obtain ⟨sameTimes, sameLeft, sameState⟩ := others w same
      rw [sameTimes, sameLeft, sameState]
      exact ok.vcpu w
  · rw [sameClock, calls]
    exact ok.calls

variable {scheduled : Sched V H}

omit [DecidableEq V] in
theorem states (same : ∀ w, (scheduled.vcpu w).state = (s.sched.vcpu w).state) :
    TimesOk { s with sched := scheduled } := by
  refine ⟨ok.word, ?_, ok.tstamp, ok.calls⟩
  intro w
  show (s.times w).Ok (scheduled.vcpu w).state (s.leftReset w) s.clock
  rw [same]
  exact ok.vcpu w

theorem leave_setTimes {times : VcpuTimes} {newState : VcpuState}
    (here : times.Ok newState ((s.leave v).leftReset v) s.clock) (state : ∀ w,
      (scheduled.vcpu w).state = if w = v then newState else (s.sched.vcpu w).state) :
    TimesOk { (s.leave v).setTimes v times with sched := scheduled } := by
  obtain ⟨sameTimes, clock, tstamp, calls⟩ := s.leave_frame v
  refine ok.update (v := v) clock (fun h => ?_) calls ?_ ?_
  · exact (congrFun tstamp h).le.trans (ok.tstamp h)
  · show (((s.leave v).setTimes v times).times v).Ok (scheduled.vcpu v).state _ _
    rw [setTimes_times, state, if_pos rfl]
    exact here
  · intro w other
    refine ⟨?_, s.leave_leftReset_of_ne v other, ?_⟩
    · exact (setTimes_times_of_ne _ _ _ other).trans (congrFun sameTimes w)
    · rw [state, if_neg other]

variable [DecidableEq H]

theorem accountChange {hooks : Sched.Hooks} {newState : VcpuState}
    (changed : s.sched.changes hooks v newState) :
    TimesOk { s.accountChange v newState with
      sched := (s.sched.stateChange hooks v newState).1 } := by
  have state := s.sched.stateChange_state hooks v newState
  simp only [changed, and_true] at state
  refine ok.leave_setTimes ?_ state
  rw [leave_leftReset]
  exact (ok.vcpu v).change ok.word fun isUnknown => Sched.changes_of_unknown isUnknown changed

theorem accountEnter (h : H) :
    TimesOk { s.accountEnter h with sched := s.sched.switchEnter h } := by
  have tstamp : ∀ h', Function.update s.tstamp h s.clock h' ≤ s.clock := by
    intro h'
    by_cases same : h' = h
    · rw [same, update_self]
    · rw [update_of_ne same]
      exact ok.tstamp h'
  have state := s.sched.switchEnter_state h
  unfold TimedSched.accountEnter
  dsimp only
  split
  · next noCurrent =>
    refine ⟨ok.word, ?_, tstamp, ok.calls⟩
    intro w
    show (s.times w).Ok ((s.sched.switchEnter h).vcpu w).state (s.leftReset w) s.clock
    rw [state, if_neg (by simp [noCurrent])]
    exact ok.vcpu w
  · next current isCurrent =>
    split
    · next isRunning =>
      refine ok.update (v := current) rfl tstamp rfl ?_ ?_
      · show ((TimedSched.setTimes _ current _).times current).Ok
          ((s.sched.switchEnter h).vcpu current).state (s.leftReset current) s.clock
        rw [setTimes_times, state, if_pos ⟨isCurrent, isRunning⟩]
        have was : (s.sched.vcpu current).state.Counted := by
          rw [isRunning]
          decide
        exact (ok.vcpu current).charge was (by decide) (by decide) (ok.vcpu current).stamp
          (le_refl _) ok.word
      · intro w other
        refine ⟨?_, rfl, ?_⟩
        · show (TimedSched.setTimes _ current _).times w = _
          rw [setTimes_times_of_ne _ _ _ other]
        · rw [state, if_neg]
          rintro ⟨isW, -⟩
          rw [isCurrent, Option.some.injEq] at isW
          exact other isW.symm
    · next notRunning =>
      refine ⟨ok.word, ?_, tstamp, ok.calls⟩
      intro w
      show (s.times w).Ok ((s.sched.switchEnter h).vcpu w).state (s.leftReset w) s.clock
      rw [state, if_neg]
      · exact ok.vcpu w
      · rintro ⟨isW, isRunning⟩
        rw [isCurrent, Option.some.injEq] at isW
        exact notRunning (isW ▸ isRunning)

theorem accountTake {h : H} {next : V} (inTime : s.sched.takes h next →
      (s.sched.vcpu next).state.Counted ∧ (s.times next).stateTstamp ≤ s.tstamp h) :
    TimesOk { s.accountTake h next with sched := s.sched.switchTake h next } := by
  have state := s.sched.switchTake_state h next
  unfold TimedSched.accountTake
  split
  · next isTaken =>
    obtain ⟨counted, notEarlier⟩ := inTime isTaken
    simp only [isTaken, and_true] at state
    refine ok.leave_setTimes ?_ state
    rw [leave_leftReset, if_neg counted.2]
    exact (ok.vcpu next).charge counted (by decide) (by decide) notEarlier (ok.tstamp h) ok.word
  · next notTaken =>
    simp only [notTaken, Bool.false_eq_true, and_false, if_false] at state
    exact ok.states state

omit [DecidableEq H] in
theorem syncStats {tstamp : Nat} (isCall : (v, tstamp) ∈ s.statsCalls)
    (inTime : (s.sched.vcpu v).state.Counted → (s.times v).stateTstamp ≤ tstamp) :
    TimesOk (s.syncStats v tstamp) := by
  unfold TimedSched.syncStats
  split
  · next counted =>
    refine ok.update (v := v) rfl ok.tstamp rfl ?_ ?_
    · show ((s.setTimes v _).times v).Ok (s.sched.vcpu v).state (s.leftReset v) s.clock
      rw [setTimes_times]
      exact (ok.vcpu v).charge counted counted counted (inTime counted)
        (ok.calls _ isCall) ok.word
    · intro w other
      exact ⟨setTimes_times_of_ne _ _ _ other, rfl, rfl⟩
  · exact ok

theorem schedEvent {event : Event V H}
    (inTime : (TimedEvent.sched event).InTime s) (result : event.run s.sched = some scheduled) :
    TimesOk { s.account event with sched := scheduled } := by
  cases event with
  | critical cpu call =>
    cases result
    cases call with
    | stateChange hooks v newState =>
      simp only [TimedSched.account]
      split
      · next changed => exact ok.accountChange changed
      · next unchanged =>
        apply ok.states
        intro w
        rw [Call.run, Sched.stateChange_state, if_neg fun both => unchanged both.2]
    | setHcpu v hcpu => exact ok.states (s.sched.setHcpu_state v hcpu)
    | migrate m => exact ok.states (s.sched.ipiMigrateVcpu_state m)
  | switchEnter h =>
    cases result
    exact ok.accountEnter h
  | switchDequeue h =>
    apply ok.states
    intro w
    rw [Sched.switchDequeue_vcpu result]
  | switchNext h =>
    simp only [Event.run, Sched.switchNext] at result
    split at result
    · next next isPhase =>
      cases result
      simp only [TimedSched.account, isPhase]
      exact ok.accountTake (inTime next isPhase)
    · cases result

theorem step {event : TimedEvent V H} {s' : TimedSched V H}
    (enabled : event.Enabled s) (inTime : event.InTime s) (result : event.run s = some s') :
    TimesOk s' := by
  cases event with
  | tick now =>
    cases result
    obtain ⟨notBack, word⟩ := enabled
    exact ⟨word, fun v => (ok.vcpu v).later notBack, fun h => (ok.tstamp h).trans notBack,
      fun call isCall => (ok.calls call isCall).trans notBack⟩
  | sched event =>
    obtain ⟨scheduled, ran, rfl⟩ := Option.map_eq_some_iff.mp result
    exact ok.schedEvent inTime ran
  | statsRead v =>
    cases result
    refine ⟨ok.word, ok.vcpu, ok.tstamp, ?_⟩
    intro call isCall
    rcases List.mem_append.mp isCall with old | new
    · exact ok.calls call old
    · rw [List.mem_singleton.mp new]
  | statsSync v tstamp =>
    cases result
    have synced := ok.syncStats enabled.1 inTime
    have clock : (s.syncStats v tstamp).clock = s.clock := by
      unfold TimedSched.syncStats
      split <;> rfl
    refine ⟨synced.word, synced.vcpu, synced.tstamp, ?_⟩
    intro call isCall
    show call.2 ≤ (s.syncStats v tstamp).clock
    rw [clock]
    exact ok.calls call (List.mem_of_mem_erase isCall)

end TimesOk

/-- In every run whose stamps are in time, the counters of every VCPU add up. -/
theorem vcpuTimes_accounted [DecidableEq V] [DecidableEq H] (s : TimedSched V H)
    (reached : ((timedSystem V H).restrict fun s event => event.InTime s).Reachable s) (v : V)
    (isVcpu : (s.sched.vcpu v).state ≠ .unknown) : Accounted s v := by
  have ok : TimesOk s := by
    apply reached.invariant TimesOk
    · rintro s ⟨boot, times, word, tstamp, calls, left⟩
      refine ⟨word, ?_, fun h => by rw [tstamp]; exact zero_le _, by simp [calls]⟩
      intro v
      rw [times, boot.unknown]
      exact ⟨nofun, fun counted => absurd rfl counted.1, fun counted => absurd rfl counted.1,
        zero_le _, zero_le _⟩
    · rintro s event s' ok ⟨inTime, enabled, result⟩
      exact ok.step enabled inTime result
  exact ok.accounted isVcpu

/-! ## Two VCPUs on one host CPU -/

instance [DecidableEq V] [DecidableEq H] [Fintype H] (s : TimedSched V H) :
    (event : TimedEvent V H) → Decidable (event.Enabled s)
  | .tick now => inferInstanceAs (Decidable (s.clock ≤ now ∧ now < 2 ^ 64))
  | .sched event => inferInstanceAs (Decidable (event.Enabled s.sched))
  | .statsRead _ => isTrue trivial
  | .statsSync v tstamp =>
    inferInstanceAs (Decidable ((v, tstamp) ∈ s.statsCalls ∧ LockFree s.sched v))

instance [DecidableEq V] [Fintype V] (s : TimedSched V H) :
    (event : TimedEvent V H) → Decidable (event.InTime s)
  | .tick _ => isTrue trivial
  | .sched (.critical _ _) => isTrue trivial
  | .sched (.switchEnter _) => isTrue trivial
  | .sched (.switchDequeue _) => isTrue trivial
  | .sched (.switchNext h) => inferInstanceAs (Decidable (∀ next,
      s.sched.phase h = .dequeued next → s.sched.takes h next →
        (s.sched.vcpu next).state.Counted ∧ (s.times next).stateTstamp ≤ s.tstamp h))
  | .statsRead _ => isTrue trivial
  | .statsSync v tstamp => inferInstanceAs (Decidable
      ((s.sched.vcpu v).state.Counted → (s.times v).stateTstamp ≤ tstamp))

/-- An idle VCPU `false` of priority 0 and a VCPU `true` of priority 3, both assigned to host CPU
`false` of two. -/
def twoTimed : TimedSched Bool Bool where
  sched :=
    { vcpu v := ⟨.unknown, false, if v then 3 else 0, fun _ => true, false, false⟩
      rq _ _ := []
      currentVcpu _ := none
      phase _ := .idle
      migrations := [] }
  times _ := .zero
  clock := 0
  tstamp _ := 0
  statsCalls := []
  leftReset _ := 0

theorem twoTimed_init : (timedSystem Bool Bool).init twoTimed := by
  refine ⟨⟨?_, ?_, ?_, ?_, ?_⟩, fun _ => rfl, by decide, fun _ => rfl, rfl, fun _ => rfl⟩
  · exact fun _ => rfl
  · exact fun _ _ => rfl
  · exact fun _ => rfl
  · exact fun _ => rfl
  · rfl

/-- Host CPU `true` starts the idle VCPU and resets the other one, and host CPU `false` runs the
idle VCPU. -/
def idleRuns : List (TimedEvent Bool Bool) :=
  [.sched (.critical true (.stateChange succeed false .reset)),
    .sched (.critical true (.stateChange succeed false .ready)),
    .sched (.critical true (.stateChange succeed true .reset)),
    .sched (.switchEnter false), .sched (.switchDequeue false), .sched (.switchNext false)]

/-- The other VCPU becomes READY after 10 ns and is taken after 15 ns. -/
theorem vcpuTimes_accounted_inTime :
    ∃ s : TimedSched Bool Bool, (s.times true).readyNsecs = 5 ∧ Accounted s true := by
  have start : ((timedSystem Bool Bool).restrict fun s event => event.InTime s).Reachable twoTimed :=
    .start twoTimed_init
  refine ⟨_, ?_, vcpuTimes_accounted _ (start.replay
    (fun s event => event.Enabled s ∧ event.InTime s) TimedEvent.run
    (idleRuns ++ [.tick 10, .sched (.critical true (.stateChange succeed true .ready)), .tick 15,
      .sched (.switchEnter false), .sched (.switchDequeue false), .sched (.switchNext false)])
    (fun ⟨enabled, inTime⟩ result => ⟨inTime, enabled, result⟩) (by decide)) true ?_⟩
  · decide
  · decide

/-- The switch starts after 5 ns, the other VCPU becomes READY after 10 ns, and then the switch
takes it: it seems to have been READY for almost 2^64 ns. -/
theorem vcpuTimes_wrap :
    ∃ s : TimedSched Bool Bool, (timedSystem Bool Bool).Reachable s ∧
      (s.sched.vcpu true).state = .running ∧ s.clock = 10 ∧
      (s.times true).readyNsecs = 2 ^ 64 - 5 ∧ ¬ Accounted s true := by
  refine ⟨_, .replay (.start twoTimed_init)
    (fun s event => event.Enabled s) TimedEvent.run
    (idleRuns ++ [.tick 5, .sched (.switchEnter false), .tick 10,
      .sched (.critical true (.stateChange succeed true .ready)),
      .sched (.switchDequeue false), .sched (.switchNext false)])
    And.intro (by decide), ?_, ?_, ?_, ?_⟩
  · decide
  · decide
  · decide
  · intro accounted
    have ready := accounted.ready
    revert ready
    decide

end Xvisor.Scheduler
