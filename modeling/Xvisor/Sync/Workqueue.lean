import Mathlib.Logic.Function.Basic
import Xvisor.Lib.System

/-!
# Work queues

The thread of a queue takes an item off the list under the lock of the queue, and looks at the
flags of the item only afterwards, under the lock of the item. In between the item is on no list
and its flags say that it is scheduled.
-/

namespace Xvisor.Sync

open Function List Lib Relation

universe u v

/-- An item: its flags and its queue, how often its timer is linked and how many handlers of the
timer have not scheduled it yet. The rest is history. -/
structure Work (Q : Type u) where
  scheduled : Bool := false
  inprogress : Bool := false
  wq : Option Q := none
  armed : Nat := 0
  firing : Nat := 0
  /-- The queue whose list the item was put on last. -/
  home : Option Q := none
  /-- How often it was put on a list, was scheduled when it was stopped, and was called. -/
  accepted : Nat := 0
  stopped : Nat := 0
  calls : Nat := 0
  /-- Some schedule call was made since the last stop began. -/
  since : Bool := true
  /-- A stop has returned, and no schedule call was made since it began. -/
  quiet : Bool := false

/-- What the thread of a queue is at. -/
inductive Worker (W : Type v) where
  | idle
  | removed (work : W)
  | running (work : W)
  deriving DecidableEq

structure Workqueues (Q : Type u) (W : Type v) where
  workList : Q → List W
  worker : Q → Worker W
  work : W → Work Q

/-- The locked sections. An item is scheduled by a caller or by its timer, and
`vmm_workqueue_stop_delayed_work` stops the timer before it stops the item. -/
inductive Section (Q : Type u) (W : Type v) where
  | scheduleWork (wq : Q) (work : W) (timer : Bool)
  | scheduleDelayedWork (wq : Q) (work : W)
  | expire (work : W)
  | stopTimer (work : W)
  | stopWork (work : W) (delayed : Bool)
  | removeHead (wq : Q)
  | testFlags (wq : Q)
  | funcDone (wq : Q)

variable {Q : Type u} {W : Type v}

namespace Work

variable (w : Work Q)

/-- Stopping the item deletes its node from a list. -/
@[grind] def deletes : Bool := w.wq.isSome && w.scheduled

@[grind] def called (timer : Bool) : Work Q :=
  if timer then { w with firing := w.firing - 1 } else { w with since := true, quiet := false }

end Work

namespace Workqueues

def boot : Workqueues Q W := ⟨fun _ => [], fun _ => .idle, fun _ => {}⟩

variable [DecidableEq Q] [DecidableEq W]

/-- The handler of the timer passes the queue of the item, or none, which stands for the system
queue of its CPU. `INIT_TIMER_EVENT` forgets a link that the event has. -/
inductive Step (s : Workqueues Q W) : Section Q W → Workqueues Q W → Prop where
  | already {wq work timer w} : s.work work = w →
    (timer = true → 0 < w.firing ∧ (w.wq = some wq ∨ w.wq = none)) → w.scheduled = true →
    Step s (.scheduleWork wq work timer) { s with work := update s.work work (w.called timer) }
  | schedule {wq work timer w} : s.work work = w →
    (timer = true → 0 < w.firing ∧ (w.wq = some wq ∨ w.wq = none)) → w.scheduled = false →
    Step s (.scheduleWork wq work timer) { s with
      workList := update s.workList wq (s.workList wq ++ [work])
      work := update s.work work { w.called timer with
        scheduled := true, wq := some wq, home := some wq, accepted := w.accepted + 1 } }
  | delay {wq work w} : s.work work = w →
    Step s (.scheduleDelayedWork wq work) { s with
      work := update s.work work { w.called false with wq := some wq, armed := w.armed + 1 } }
  | expire {work w} : s.work work = w → 0 < w.armed →
    Step s (.expire work) { s with
      work := update s.work work { w with armed := w.armed - 1, firing := w.firing + 1 } }
  | stopTimer {work w} : s.work work = w →
    Step s (.stopTimer work) { s with
      work := update s.work work { w with armed := w.armed - 1, since := false } }
  | stop {work delayed w} : s.work work = w → w.inprogress = false →
    Step s (.stopWork work delayed) { s with
      workList := if w.deletes then fun wq => (s.workList wq).erase work else s.workList
      work := update s.work work { w with
        scheduled := false, wq := none, stopped := w.stopped + w.scheduled.toNat
        since := delayed && w.since, quiet := w.quiet || !(delayed && w.since) } }
  | remove {wq work rest} : s.worker wq = .idle → s.workList wq = work :: rest →
    Step s (.removeHead wq) { s with
      workList := update s.workList wq rest
      worker := update s.worker wq (.removed work) }
  | call {wq work w} : s.worker wq = .removed work → s.work work = w → w.scheduled = true →
    Step s (.testFlags wq) { s with
      worker := update s.worker wq (.running work)
      work := update s.work work
        { w with scheduled := false, inprogress := true, calls := w.calls + 1 } }
  | skip {wq work} : s.worker wq = .removed work → (s.work work).scheduled = false →
    Step s (.testFlags wq) { s with worker := update s.worker wq .idle }
  | done {wq work w} : s.worker wq = .running work → s.work work = w →
    Step s (.funcDone wq) { s with
      worker := update s.worker wq .idle
      work := update s.work work { w with inprogress := false } }

/-- How often the worker of a queue still has to look at an item. -/
@[grind] def places (s : Workqueues Q W) (work : W) (wq : Q) : Nat :=
  (s.workList wq).count work + if s.worker wq = .removed work then 1 else 0

/-- The worker is not between its two sections with an item that is stopped. -/
def OutsideWindow (s : Workqueues Q W) : Section Q W → Prop
  | .stopWork work _ => ∀ wq, s.worker wq ≠ .removed work
  | _ => True

end Workqueues

open Workqueues

variable [DecidableEq Q] [DecidableEq W]

/-- The item is held once, by the worker of its home, exactly when it is scheduled. -/
structure Work.Tracked (w : Work Q) (places : Q → Nat) : Prop where
  located : ∀ wq, places wq = if w.scheduled = true ∧ w.home = some wq then 1 else 0
  bound : w.scheduled = true → w.wq ≠ none ∧ w.home ≠ none
  counted : w.accepted = w.calls + w.stopped + w.scheduled.toNat

namespace Workqueues

def Tracked (s : Workqueues Q W) : Prop := ∀ work, (s.work work).Tracked (s.places work)

variable {s s' : Workqueues Q W} {wq : Q} {work : W}

theorem Tracked.step {l : Section Q W} (tracked : s.Tracked) (outside : s.OutsideWindow l)
    (taken : s.Step l s') : s'.Tracked := by
  intro w
  obtain ⟨located, bound, counted⟩ := tracked w
  cases taken
  all_goals
    refine ⟨fun q => ?_, by grind, by grind⟩
    have old := located q
  case schedule wq work _ _ _ _ _ =>
    by_cases same : w = work <;> by_cases here : q = wq <;> grind
  case stop work _ item _ _ =>
    have notRemoved := outside q
    cases marked : item.deletes <;> by_cases same : w = work <;>
      grind [Option.isSome_iff_ne_none]
  case call wq work _ _ _ _ =>
    have held := (tracked work).located wq
    by_cases same : w = work <;> by_cases here : q = wq <;> grind
  all_goals grind

/-- The worker of the queue goes on by itself. -/
def Proceeds (wq : Q) (s s' : Workqueues Q W) : Prop :=
  s.Step (.removeHead wq) s' ∨ s.Step (.testFlags wq) s' ∨ s.Step (.funcDone wq) s'

theorem Tracked.calls_removed (tracked : s.Tracked) (removed : s.worker wq = .removed work) :
    (s.work work).scheduled = true := by
  have held := (tracked work).located wq
  grind

theorem Tracked.iterate (tracked : s.Tracked) (idle : s.worker wq = .idle) {head : W}
    {rest : List W}
    (isList : s.workList wq = head :: rest) : ∃ s', ReflTransGen (Proceeds wq) s s' ∧ s'.Tracked ∧
      s'.worker wq = .running head ∧ s'.workList wq = rest ∧
      ∀ w, (s'.work w).calls = (s.work w).calls + if w = head then 1 else 0 := by
  have first := Step.remove idle isList
  have tracked₁ := tracked.step (l := .removeHead wq) trivial first
  have isScheduled := tracked₁.calls_removed (update_self ..)
  have second := Step.call (update_self ..) rfl isScheduled
  refine ⟨_, .tail (.single (.inl first)) (.inr (.inl second)),
    tracked₁.step (l := .testFlags wq) trivial second, update_self .., update_self .., fun w => ?_⟩
  by_cases same : w = head <;> simp [same]

theorem Tracked.served (tracked : s.Tracked) (idle : s.worker wq = .idle) {before after : List W}
    (waits : s.workList wq = before ++ work :: after) :
    ∃ s', ReflTransGen (Proceeds wq) s s' ∧ (s'.work work).calls = (s.work work).calls + 1 := by
  induction before generalizing s with
  | nil =>
    obtain ⟨s', path, -, -, -, calls⟩ := tracked.iterate idle waits
    exact ⟨s', path, by simp [calls]⟩
  | cons head before ih =>
    obtain ⟨s₁, path, tracked₁, running, isList, calls⟩ := tracked.iterate idle waits
    have other : work ≠ head := by
      have once := (tracked work).located wq
      grind
    have done := Step.done running rfl
    obtain ⟨s', rest, called⟩ :=
      ih (tracked₁.step (l := .funcDone wq) trivial done) (update_self ..) isList
    refine ⟨s', path.trans (.head (.inr (.inr done)) rest), ?_⟩
    simpa [calls, other, running] using called

/-- What a queue of work has to be: list nodes on one list once, only such nodes deleted, and one
call for every schedule that was not stopped. -/
structure Consistent (s : Workqueues Q W) : Prop where
  once : ∀ wq, (s.workList wq).Nodup
  single : ∀ work wq wq', work ∈ s.workList wq → work ∈ s.workList wq' → wq = wq'
  linked : ∀ work delayed, s.OutsideWindow (.stopWork work delayed) →
    (s.work work).deletes = true → ∃ wq, work ∈ s.workList wq
  counted : ∀ work, (s.work work).accepted =
    (s.work work).calls + (s.work work).stopped + (s.work work).scheduled.toNat
  waits : ∀ work, (s.work work).scheduled = true →
    ∃ wq, work ∈ s.workList wq ∨ s.worker wq = .removed work
  called : ∀ work wq, s.worker wq = .removed work → (s.work work).scheduled = true
  served : ∀ work wq, s.worker wq = .idle → work ∈ s.workList wq →
    ∃ s', ReflTransGen (Proceeds wq) s s' ∧ (s'.work work).calls = (s.work work).calls + 1

theorem Tracked.waits (tracked : s.Tracked) (isScheduled : (s.work work).scheduled = true) :
    ∃ wq, work ∈ s.workList wq ∨ s.worker wq = .removed work := by
  obtain ⟨wq, isHome⟩ := Option.ne_none_iff_exists'.mp ((tracked work).bound isScheduled).2
  have held := (tracked work).located wq
  exact ⟨wq, by grind⟩

theorem Tracked.consistent (tracked : s.Tracked) : s.Consistent where
  once wq := nodup_iff_count.mpr fun work => by
    have held := (tracked work).located wq
    grind
  single work wq wq' here there := by
    have held := (tracked work).located wq
    have held' := (tracked work).located wq'
    grind
  linked work _ outside deletes := by
    obtain ⟨wq, here | removed⟩ := tracked.waits (Bool.and_eq_true_iff.mp deletes).2
    · exact ⟨wq, here⟩
    · exact absurd removed (outside wq)
  counted work := (tracked work).counted
  waits _ := tracked.waits
  called _ _ := tracked.calls_removed
  served work wq idle here := by
    obtain ⟨before, after, isList⟩ := append_of_mem here
    exact tracked.served idle isList

/-- The condition under which a stop is a barrier: an item that runs is scheduled on the queue that
runs it only, the timer is not armed twice and not stopped while its handler is on the way to
schedule the item, and `vmm_workqueue_stop_work` is for items without a timer that is armed. -/
def Ordered (s : Workqueues Q W) (l : Section Q W) : Prop :=
  s.OutsideWindow l ∧
    match l with
    | .scheduleWork wq work _ => ∀ wq', s.worker wq' = .running work → wq' = wq
    | .scheduleDelayedWork _ work => (s.work work).armed = 0
    | .stopTimer work => (s.work work).firing = 0
    | .stopWork work delayed =>
      delayed = false → (s.work work).armed = 0 ∧ (s.work work).firing = 0
    | _ => True

structure Barrier (s : Workqueues Q W) (work : W) : Prop where
  runs : ∀ wq, s.worker wq = .running work →
    (s.work work).inprogress = true ∧ (s.work work).home = some wq
  linkedOnce : (s.work work).armed ≤ 1
  disarmed : (s.work work).since = false → (s.work work).armed = 0 ∧ (s.work work).firing = 0
  quiet : (s.work work).quiet = true → (s.work work).since = false ∧
    (s.work work).scheduled = false ∧ (s.work work).inprogress = false

theorem Barrier.step {l : Section Q W} (tracked : s.Tracked) (barrier : s.Barrier work)
    (ordered : s.Ordered l) (taken : s.Step l s') : s'.Barrier work := by
  obtain ⟨runs, linkedOnce, disarmed, quiet⟩ := barrier
  have condition := ordered.2
  cases taken
  case call wq work' _ _ _ _ =>
    have held := (tracked work').located wq
    constructor <;> grind
  all_goals constructor <;> grind

end Workqueues

def workSystem (Q : Type u) (W : Type v) [DecidableEq Q] [DecidableEq W] :
    System (Workqueues Q W) (Section Q W) := ⟨(· = boot), Step⟩

theorem boot_tracked : (boot : Workqueues Q W).Tracked :=
  fun _ => ⟨fun _ => by simp [boot, places], by simp [boot], rfl⟩

variable {s : Workqueues Q W}

/-- Unless an item is stopped while a worker has removed it and not looked at its flags yet, the
lists are consistent and every schedule leads to one call. -/
theorem workqueue_consistent (reached : ((workSystem Q W).restrict OutsideWindow).Reachable s) :
    s.Consistent := by
  apply Tracked.consistent
  apply reached.invariant
  · rintro s rfl
    exact boot_tracked
  · rintro s l s' tracked ⟨outside, taken⟩
    exact tracked.step outside taken

theorem workqueue_consistent_queued :
    ∃ s : Workqueues Unit Unit, s.workList () = [()] ∧ s.Consistent := by
  have start : ((workSystem Unit Unit).restrict OutsideWindow).Reachable boot := .start rfl
  have queued := start.step (.scheduleWork () () false) ⟨trivial, .schedule rfl nofun rfl⟩
  exact ⟨_, rfl, workqueue_consistent queued⟩

/-- A worker has removed an item and not looked at its flags: to stop the item now deletes a node
that is on no list. -/
theorem workqueue_deletes_unlinked : ∃ s, (workSystem Unit Unit).Reachable s ∧
    (s.work ()).inprogress = false ∧ (s.work ()).deletes = true ∧ s.workList () = [] := by
  have start : (workSystem Unit Unit).Reachable boot := .start rfl
  have queued := start.step (.scheduleWork () () false) (.schedule rfl nofun rfl)
  exact ⟨_, queued.step (.removeHead ()) (.remove rfl rfl), rfl, rfl, rfl⟩

/-- A stop that returns has waited for the function, and the function is not called again before
the next schedule. -/
theorem workqueue_barrier (reached : ((workSystem Q W).restrict Ordered).Reachable s) (wq : Q)
    (work : W) (running : s.worker wq = .running work) :
    (s.work work).inprogress = true ∧ (s.work work).quiet = false := by
  have kept : s.Tracked ∧ ∀ work, s.Barrier work := by
    apply reached.invariant fun s => s.Tracked ∧ ∀ work, s.Barrier work
    · rintro s rfl
      exact ⟨boot_tracked, fun _ => ⟨nofun, Nat.zero_le _, nofun, nofun⟩⟩
    · rintro s l s' ⟨tracked, barrier⟩ ⟨ordered, taken⟩
      exact ⟨tracked.step ordered.1 taken, fun work => (barrier work).step tracked ordered taken⟩
  obtain ⟨inprogress, -⟩ := (kept.2 work).runs wq running
  refine ⟨inprogress, Bool.eq_false_iff.mpr fun quiet => ?_⟩
  cases inprogress.symm.trans ((kept.2 work).quiet quiet).2.2

theorem workqueue_barrier_running : ∃ s : Workqueues Unit Unit, s.worker () = .running () ∧
    (s.work ()).inprogress = true ∧ (s.work ()).quiet = false := by
  have start : ((workSystem Unit Unit).restrict Ordered).Reachable boot := .start rfl
  have queued := start.step (.scheduleWork () () false)
    ⟨⟨trivial, nofun⟩, .schedule rfl nofun rfl⟩
  have removed := queued.step (.removeHead ()) ⟨⟨trivial, trivial⟩, .remove rfl rfl⟩
  have running := removed.step (.testFlags ()) ⟨⟨trivial, trivial⟩, .call rfl rfl rfl⟩
  exact ⟨_, rfl, workqueue_barrier running () () rfl⟩

/-- The item is scheduled on a second queue while the first one runs it. When the first worker is
done the flag is clear, and a stop returns while the second worker still runs the item. -/
theorem workqueue_stop_overtakes : ∃ s, (workSystem Bool Unit).Reachable s ∧
    (s.work ()).quiet = true ∧ s.worker true = .running () := by
  have start : (workSystem Bool Unit).Reachable boot := .start rfl
  have queued := start.step (.scheduleWork false () false) (.schedule rfl nofun rfl)
  have removed := queued.step (.removeHead false) (.remove rfl rfl)
  have running := removed.step (.testFlags false) (.call rfl rfl rfl)
  have again := running.step (.scheduleWork true () false) (.schedule rfl nofun rfl)
  have both := (again.step (.removeHead true) (.remove rfl rfl)).step (.testFlags true)
    (.call rfl rfl rfl)
  have cleared := both.step (.funcDone false) (.done rfl rfl)
  exact ⟨_, cleared.step (.stopWork () false) (.stop rfl rfl), rfl, rfl⟩

end Xvisor.Sync
