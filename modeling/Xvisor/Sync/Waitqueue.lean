import Mathlib.Data.List.Nodup
import Xvisor.Lib.System
import Xvisor.Lib.Word

/-!
# Sleeping on a waitqueue

A wakeup takes a VCPU off its waitqueue at once; when the VCPU runs again it looks
at the clock first and at the lock only if its timeout has not passed.
-/

namespace Xvisor.Sync

open Function List Lib

universe u v

inductive ReturnCode where
  | ok
  | timedOut
  | invalid
  | notTaken
  deriving DecidableEq, Repr

/-- What a lock does under `wq.lock`. `units` is how many VCPUs could still take it; no VCPU goes
to sleep while there is one, and a release that adds one wakes the first sleeper. -/
structure Gate (V : Type u) (R : Type v) where
  units : R → Nat
  available : R → V → Bool
  take : R → V → R
  release : R → V → R × ReturnCode × Bool
  trylock : Bool
  units_unavailable : ∀ r v, available r v = false → units r = 0
  units_take : ∀ r v, units (take r v) ≤ units r - 1
  units_release : ∀ r v, units (release r v).1 ≤ units r + if (release r v).2.2 then 1 else 0

/-- A VCPU outside, paused on the queue with the expiry of its timeout, or taken off the queue by a
release or by its timer and not yet run. -/
inductive Phase where
  | running
  | asleep (expiry : Option Nat)
  | woken (released : Bool) (expiry : Option Nat)
  deriving DecidableEq, Repr

structure WaitState (V : Type u) (R : Type v) where
  now : Nat
  resource : R
  vcpuList : List V
  phase : V → Phase
  rc : V → ReturnCode

variable {V : Type u} {R : Type v} [DecidableEq V]

namespace WaitState

variable (s : WaitState V R)

def setPhase (v : V) (phase : Phase) : WaitState V R :=
  { s with phase := update s.phase v phase }

def finish (v : V) (rc : ReturnCode) : WaitState V R :=
  { s with phase := update s.phase v .running, rc := update s.rc v rc }

/-- `__vmm_waitqueue_sleep` until the VCPU is paused. -/
def sleep (v : V) (timeout : Option Nat) : WaitState V R :=
  if timeout = some 0 then s.finish v .timedOut
  else
    { s with
      vcpuList := s.vcpuList ++ [v]
      phase := update s.phase v (.asleep (timeout.map (s.now + ·))) }

variable (gate : Gate V R) (s : WaitState V R) (v : V)

def acquire (timeout : Option Nat) : WaitState V R :=
  if gate.available s.resource v then
    { s with resource := gate.take s.resource v }.finish v .ok
  else s.sleep v timeout

/-- The time left, as `__vmm_waitqueue_sleep` computes it after the pause. -/
def timeLeft (expiry : Nat) : Nat :=
  if expiry < s.now then 0 else expiry - s.now

/-- A VCPU that was woken runs again, with `wq.lock` held. -/
def resume : Option Nat → WaitState V R
  | none => s.acquire gate v none
  | some expiry =>
    if s.timeLeft expiry = 0 then s.finish v .timedOut
    else s.acquire gate v (some (s.timeLeft expiry))

def wake (released : Bool) : WaitState V R :=
  match s.phase v with
  | .asleep expiry =>
    { s with
      vcpuList := s.vcpuList.erase v
      phase := update s.phase v (.woken released expiry) }
  | _ => s

def wakefirst : WaitState V R :=
  match s.vcpuList with
  | [] => s
  | v :: _ => s.wake v true

def unlock : WaitState V R :=
  let result := gate.release s.resource v
  let s' := { s with resource := result.1 }.finish v result.2.1
  if result.2.2 then s'.wakefirst else s'

def trylock : WaitState V R :=
  if gate.available s.resource v then
    { s with resource := gate.take s.resource v }.finish v .ok
  else s.finish v .notTaken

@[simp] theorem sleep_resource (timeout : Option Nat) :
    (s.sleep v timeout).resource = s.resource := by
  unfold sleep
  split <;> rfl

@[simp] theorem wake_resource (released : Bool) :
    (s.wake v released).resource = s.resource := by
  unfold wake
  split <;> rfl

end WaitState

/-- The sections that hold `wq.lock`, the clock and the timers of the sleepers. -/
inductive Action (V : Type u) where
  | tick (delta : Nat)
  | lock (v : V) (timeout : Option Nat)
  | trylock (v : V)
  | unlock (v : V)
  | timer (v : V)
  | resume (v : V)
  deriving DecidableEq, Repr

namespace Action

def run (gate : Gate V R) (s : WaitState V R) : Action V → Option (WaitState V R)
  | .tick delta => some { s with now := s.now + delta }
  | .lock v timeout =>
    match s.phase v with
    | .running => some (s.acquire gate v timeout)
    | _ => none
  | .trylock v =>
    match s.phase v with
    | .running => if gate.trylock then some (s.trylock gate v) else none
    | _ => none
  | .unlock v =>
    match s.phase v with
    | .running => some (s.unlock gate v)
    | _ => none
  | .timer v =>
    match s.phase v with
    | .asleep (some expiry) => if expiry ≤ s.now then some (s.wake v false) else none
    | _ => none
  | .resume v =>
    match s.phase v with
    | .woken _ expiry => some (s.resume gate v expiry)
    | _ => none

/-- A VCPU that a release woke and that then finds its time over leaves nobody on the queue. -/
def Prompt (s : WaitState V R) : Phase → Prop
  | .woken true (some expiry) => expiry ≤ s.now → s.vcpuList = []
  | _ => True

def Orderly (s : WaitState V R) : Action V → Prop
  | .resume v => Prompt s (s.phase v)
  | _ => True

end Action

structure Boot (s : WaitState V R) : Prop where
  empty : s.vcpuList = []
  running : ∀ v, s.phase v = .running

section Runs

variable (gate : Gate V R)

def waitSystem : System (WaitState V R) (Action V) where
  init := Boot
  step s action s' := action.run gate s = some s'

/-- If the lock can be taken and a VCPU is asleep, then a VCPU that a release woke has not yet
returned. -/
def NoLostWakeup (s : WaitState V R) : Prop :=
  gate.units s.resource ≠ 0 → ∀ u expiry, s.phase u = .asleep expiry →
    ∃ v expiry, s.phase v = .woken true expiry

/-! ## Invariant -/

/-- The queue holds the sleepers, and `pending` the VCPUs that a release woke. -/
structure Listed (s : WaitState V R) (pending : List V) : Prop where
  asleep : ∀ v, v ∈ s.vcpuList ↔ ∃ expiry, s.phase v = .asleep expiry
  nodup : s.vcpuList.Nodup
  released : ∀ v, v ∈ pending ↔ ∃ expiry, s.phase v = .woken true expiry
  pendingNodup : pending.Nodup

/-- While there are sleepers, a VCPU that a release woke is on its way for every unit of the
lock. -/
def Enough (s : WaitState V R) (pending : List V) : Prop :=
  s.vcpuList ≠ [] → gate.units s.resource ≤ pending.length

variable {gate : Gate V R} {s s' : WaitState V R} {pending : List V} {v : V}

namespace Listed

omit [DecidableEq V] in
theorem awake (listed : Listed s pending) {phase : Phase} (current : s.phase v = phase)
    (other : ∀ expiry, phase ≠ .asleep expiry) : v ∉ s.vcpuList := fun member => by
  obtain ⟨expiry, asleep⟩ := (listed.asleep v).mp member
  exact other expiry (current.symm.trans asleep)

omit [DecidableEq V] in
theorem unpending (listed : Listed s pending) {phase : Phase} (current : s.phase v = phase)
    (other : ∀ expiry, phase ≠ .woken true expiry) : v ∉ pending := fun member => by
  obtain ⟨expiry, woken⟩ := (listed.released v).mp member
  exact other expiry (current.symm.trans woken)

theorem erase (listed : Listed s pending) {phase : Phase}
    (other : ∀ expiry, phase ≠ .woken true expiry) (v' : V) :
    v' ∈ pending.erase v ↔ ∃ expiry, update s.phase v phase v' = .woken true expiry := by
  rw [listed.pendingNodup.mem_erase_iff]
  by_cases own : v' = v
  · subst own
    simp [other]
  · rw [update_of_ne own, listed.released v', and_iff_right own]

theorem finish (listed : Listed s pending) (awake : v ∉ s.vcpuList) (rc : ReturnCode) (r : R) :
    Listed ({ s with resource := r }.finish v rc) (pending.erase v) := by
  refine ⟨fun v' => ?_, listed.nodup, listed.erase nofun, listed.pendingNodup.erase v⟩
  by_cases own : v' = v
  · subst own
    simp [WaitState.finish, awake]
  · simp only [WaitState.finish, update_of_ne own]
    exact listed.asleep v'

theorem sleep (listed : Listed s pending) (awake : v ∉ s.vcpuList) (timeout : Option Nat) :
    Listed (s.sleep v timeout) (pending.erase v) := by
  unfold WaitState.sleep
  split
  · exact listed.finish awake .timedOut s.resource
  · refine ⟨fun v' => ?_, ?_, listed.erase nofun, listed.pendingNodup.erase v⟩
    · by_cases own : v' = v
      · subst own
        simp
      · simp only [update_of_ne own, mem_append, mem_singleton, own, or_false]
        exact listed.asleep v'
    · refine nodup_append.mpr ⟨listed.nodup, nodup_singleton v, ?_⟩
      intro a before b new same
      rw [mem_singleton.mp new] at same
      exact awake (same ▸ before)

theorem wake (listed : Listed s pending) {expiry : Option Nat}
    (asleep : s.phase v = .asleep expiry) (released : Bool) :
    Listed (s.wake v released) (if released then v :: pending else pending) ∧
      (s.wake v released).vcpuList = s.vcpuList.erase v := by
  have unpending := listed.unpending asleep nofun
  unfold WaitState.wake
  rw [asleep]
  refine ⟨⟨fun v' => ?_, listed.nodup.erase v, fun v' => ?_, ?_⟩, rfl⟩
  · dsimp only
    rw [listed.nodup.mem_erase_iff]
    by_cases own : v' = v
    · subst own
      simp
    · rw [update_of_ne own, and_iff_right own]
      exact listed.asleep v'
  · dsimp only
    by_cases own : v' = v
    · subst own
      cases released <;> simp [unpending]
    · rw [update_of_ne own]
      cases released <;> simp [own, listed.released v']
  · cases released
    · exact listed.pendingNodup
    · exact nodup_cons.mpr ⟨unpending, listed.pendingNodup⟩

end Listed

def Waiting (gate : Gate V R) (s : WaitState V R) : Prop :=
  ∃ pending, Listed s pending ∧ Enough gate s pending

namespace Waiting

omit [DecidableEq V] in
theorem noLostWakeup (waiting : Waiting gate s) : NoLostWakeup gate s := by
  intro free u expiry asleep
  obtain ⟨pending, listed, enough⟩ := waiting
  have member := (listed.asleep u).mpr ⟨expiry, asleep⟩
  obtain ⟨v, rest, rfl⟩ := exists_cons_of_length_pos
    (Nat.lt_of_lt_of_le (Nat.pos_of_ne_zero free) (enough (ne_nil_of_mem member)))
  exact ⟨v, (listed.released v).mp (mem_cons_self ..)⟩

theorem take (listed : Listed s pending) (enough : Enough gate s pending)
    (awake : v ∉ s.vcpuList) (rc : ReturnCode) :
    Waiting gate ({ s with resource := gate.take s.resource v }.finish v rc) := by
  refine ⟨pending.erase v, listed.finish awake rc _, fun nonempty => ?_⟩
  calc
    gate.units (gate.take s.resource v) ≤ gate.units s.resource - 1 := gate.units_take ..
    _ ≤ pending.length - 1 := Nat.sub_le_sub_right (enough nonempty) 1
    _ ≤ (pending.erase v).length := by
      rw [length_erase]
      split <;> omega

theorem acquire (listed : Listed s pending) (enough : Enough gate s pending)
    (awake : v ∉ s.vcpuList) (timeout : Option Nat) : Waiting gate (s.acquire gate v timeout) := by
  unfold WaitState.acquire
  split
  · exact take listed enough awake .ok
  next unavailable =>
    refine ⟨pending.erase v, listed.sleep awake timeout, fun _ => ?_⟩
    rw [WaitState.sleep_resource, gate.units_unavailable _ _ (by simpa using unavailable)]
    exact Nat.zero_le _

theorem trylock (waiting : Waiting gate s) (running : s.phase v = .running) :
    Waiting gate (s.trylock gate v) := by
  obtain ⟨pending, listed, enough⟩ := waiting
  have awake := listed.awake running nofun
  unfold WaitState.trylock
  split
  · exact take listed enough awake .ok
  · refine ⟨pending.erase v, listed.finish awake .notTaken s.resource, ?_⟩
    rw [erase_of_not_mem (listed.unpending running nofun)]
    exact enough

theorem wakefirst (listed : Listed s pending)
    (nearly : s.vcpuList ≠ [] → gate.units s.resource ≤ pending.length + 1) :
    Waiting gate s.wakefirst := by
  unfold WaitState.wakefirst
  split
  next empty => exact ⟨pending, listed, fun nonempty => absurd empty nonempty⟩
  next first rest list =>
    rw [list] at nearly
    obtain ⟨expiry, asleep⟩ := (listed.asleep first).mp (list ▸ mem_cons_self)
    refine ⟨first :: pending, (listed.wake asleep true).1, fun _ => ?_⟩
    rw [WaitState.wake_resource]
    exact nearly (cons_ne_nil _ _)

theorem unlock (waiting : Waiting gate s) (running : s.phase v = .running) :
    Waiting gate (s.unlock gate v) := by
  obtain ⟨pending, listed, enough⟩ := waiting
  have units := gate.units_release s.resource v
  have outside := listed.finish (listed.awake running nofun) (gate.release s.resource v).2.1
    (gate.release s.resource v).1
  rw [erase_of_not_mem (listed.unpending running nofun)] at outside
  unfold WaitState.unlock
  dsimp only
  split
  next wakes =>
    rw [if_pos wakes] at units
    exact wakefirst outside fun nonempty =>
      Nat.le_trans units (Nat.succ_le_succ (enough nonempty))
  next keeps =>
    rw [if_neg keeps] at units
    exact ⟨pending, outside, fun nonempty => Nat.le_trans units (enough nonempty)⟩

theorem timer (waiting : Waiting gate s) {expiry : Option Nat}
    (asleep : s.phase v = .asleep expiry) : Waiting gate (s.wake v false) := by
  obtain ⟨pending, listed, enough⟩ := waiting
  obtain ⟨after, list⟩ := listed.wake asleep false
  refine ⟨pending, after, fun nonempty => ?_⟩
  rw [WaitState.wake_resource]
  refine enough fun empty => nonempty ?_
  rw [list, empty]
  rfl

theorem resume (waiting : Waiting gate s) {released : Bool} {expiry : Option Nat}
    (woken : s.phase v = .woken released expiry)
    (orderly : Action.Prompt s (.woken released expiry)) :
    Waiting gate (s.resume gate v expiry) := by
  obtain ⟨pending, listed, enough⟩ := waiting
  have awake := listed.awake woken nofun
  cases expiry with
  | none => exact acquire listed enough awake none
  | some expiry =>
    simp only [WaitState.resume]
    split
    next isOver =>
      refine ⟨pending.erase v, listed.finish awake .timedOut s.resource, fun nonempty => ?_⟩
      cases released with
      | false =>
        rw [erase_of_not_mem (listed.unpending woken nofun)]
        exact enough nonempty
      | true =>
        have passed : expiry ≤ s.now := by
          unfold WaitState.timeLeft at isOver
          split at isOver <;> omega
        exact absurd (orderly passed) nonempty
    next => exact acquire listed enough awake _

end Waiting

omit [DecidableEq V] in
theorem Boot.waiting (boot : Boot s) : Waiting gate s := by
  refine ⟨[], ⟨?_, ?_, ?_, nodup_nil⟩, fun nonempty => absurd boot.empty nonempty⟩
  · simp [boot.empty, boot.running]
  · rw [boot.empty]
    exact nodup_nil
  · simp [boot.running]

theorem Action.run_waiting {action : Action V} (waiting : Waiting gate s)
    (orderly : action.Orderly s) (result : action.run gate s = some s') : Waiting gate s' := by
  cases action <;> simp only [Action.run] at result
  case tick delta =>
    cases result
    obtain ⟨pending, ⟨asleep, nodup, released, pendingNodup⟩, enough⟩ := waiting
    exact ⟨pending, ⟨asleep, nodup, released, pendingNodup⟩, enough⟩
  case lock v timeout =>
    split at result
    · next running =>
      cases result
      obtain ⟨pending, listed, enough⟩ := waiting
      exact Waiting.acquire listed enough (listed.awake running nofun) timeout
    · cases result
  case trylock v =>
    split at result
    · next running =>
      split at result
      · cases result
        exact waiting.trylock running
      · cases result
    · cases result
  case unlock v =>
    split at result
    · next running =>
      cases result
      exact waiting.unlock running
    · cases result
  case timer v =>
    split at result
    · next expiry asleep =>
      split at result
      · cases result
        exact waiting.timer asleep
      · cases result
    · cases result
  case resume v =>
    split at result
    · next released expiry woken =>
      cases result
      simp only [Action.Orderly, woken] at orderly
      exact waiting.resume woken orderly
    · cases result

theorem resume_retests {released : Bool} {expiry : Option Nat}
    (woken : s.phase v = .woken released expiry) (intime : ∀ e, expiry = some e → s.now < e)
    (result : Action.run gate s (.resume v) = some s') :
    ∃ timeout, timeout ≠ some 0 ∧ s' = s.acquire gate v timeout := by
  simp only [Action.run, woken] at result
  cases result
  cases expiry with
  | none => exact ⟨none, by simp, rfl⟩
  | some e =>
    have left : s.timeLeft e ≠ 0 := by
      have := intime e rfl
      unfold WaitState.timeLeft
      split <;> omega
    refine ⟨some (s.timeLeft e), fun zero => left (Option.some.inj zero), ?_⟩
    simp only [WaitState.resume, left, if_false]

/-- No wakeup is lost, and what a release woke tests the lock again while others sleep. -/
def Handover (gate : Gate V R) (s : WaitState V R) : Prop :=
  NoLostWakeup gate s ∧ ∀ v expiry s', s.phase v = .woken true expiry → s.vcpuList ≠ [] →
    (Action.resume v).Orderly s → Action.run gate s (.resume v) = some s' →
    ∃ timeout, timeout ≠ some 0 ∧ s' = s.acquire gate v timeout

/-- In every run in which a VCPU that a release woke and that ran out of time leaves no sleeper
behind, wakeups are handed over. -/
theorem waitSystem_handover
    (reached : ((waitSystem gate).restrict fun s action => action.Orderly s).Reachable s) :
    Handover gate s := by
  have waiting : Waiting gate s := by
    apply reached.invariant (Waiting gate)
    · exact fun _ boot => boot.waiting
    · rintro s action s' waiting ⟨orderly, result⟩
      exact Action.run_waiting waiting orderly result
  refine ⟨waiting.noLostWakeup, fun v expiry s' woken sleepers orderly result => ?_⟩
  refine resume_retests woken (fun e some => ?_) result
  subst some
  simp only [Action.Orderly, woken] at orderly
  exact Nat.lt_of_not_le fun passed => sleepers (orderly passed)

end Runs

/-! ## Mutexes and semaphores -/

structure Mutex (V : Type u) where
  lock : Nat
  owner : Option V
  deriving DecidableEq, Repr

namespace Mutex

variable (m : Mutex V)

def available (v : V) : Bool := m.lock = 0 || m.owner = some v

/-- How `mutex_lock_common` and `vmm_mutex_trylock` take a mutex that is free or their own. -/
def take (v : V) : Mutex V :=
  if m.lock = 0 then ⟨1, some v⟩ else ⟨m.lock + 1, m.owner⟩

def unlock (v : V) : Mutex V × ReturnCode × Bool :=
  if m.lock ≠ 0 ∧ m.owner = some v then
    if m.lock - 1 = 0 then (⟨0, none⟩, .ok, true) else (⟨m.lock - 1, m.owner⟩, .ok, false)
  else (m, .invalid, false)

def units : Nat := if m.lock = 0 then 1 else 0

def gate (V : Type u) [DecidableEq V] : Gate V (Mutex V) where
  units := units
  available := available
  take := take
  release := unlock
  trylock := true
  units_unavailable m v unavailable := by
    simp only [available, Bool.or_eq_false_iff, decide_eq_false_iff_not] at unavailable
    simp [units, unavailable.1]
  units_take m v := by
    unfold units take
    split <;> simp
  units_release m v := by
    unfold unlock
    split
    · split
      · simp [units]
      · next more => simp [units, more]
    · simp

end Mutex

structure Semaphore (V : Type u) where
  limit : Nat
  value : Nat
  resList : List (V × Nat)
  deriving DecidableEq, Repr

namespace Semaphore

/-- One more for a VCPU, at the end of the list if it has no entry. -/
def countDown (v : V) : List (V × Nat) → List (V × Nat)
  | [] => [(v, 1)]
  | (v', count) :: rest =>
    if v' = v then (v', count + 1) :: rest else (v', count) :: countDown v rest

def countUp (v : V) : List (V × Nat) → List (V × Nat)
  | [] => []
  | (v', count) :: rest =>
    if v' = v then if count - 1 = 0 then rest else (v', count - 1) :: rest
    else (v', count) :: countUp v rest

def take (sem : Semaphore V) (v : V) : Semaphore V :=
  ⟨sem.limit, sem.value - 1, countDown v sem.resList⟩

def up (sem : Semaphore V) (v : V) : Semaphore V × ReturnCode × Bool :=
  if sem.value < sem.limit then
    let resList := if sem.resList.any fun entry => entry.1 = v then countUp v sem.resList
      else
        match sem.resList with
        | [] => []
        | first :: rest => countUp first.1 (first :: rest)
    (⟨sem.limit, sem.value + 1, resList⟩, .ok, true)
  else (sem, .invalid, false)

def gate (V : Type u) [DecidableEq V] : Gate V (Semaphore V) where
  units := Semaphore.value
  available sem _ := sem.value ≠ 0
  take := take
  release := up
  trylock := false
  units_unavailable sem v unavailable := by simpa using unavailable
  units_take sem v := Nat.le_refl _
  units_release sem v := by
    unfold up
    split <;> simp

end Semaphore

def threeVcpus : WaitState (Fin 3) (Mutex (Fin 3)) where
  now := 0
  resource := ⟨0, none⟩
  vcpuList := []
  phase _ := .running
  rc _ := .ok

theorem threeVcpus_boot : Boot threeVcpus := ⟨rfl, fun _ => rfl⟩

instance (s : WaitState V (Mutex V)) : (phase : Phase) → Decidable (Action.Prompt s phase)
  | .woken true (some expiry) => inferInstanceAs (Decidable (expiry ≤ s.now → s.vcpuList = []))
  | .woken true none => isTrue trivial
  | .woken false _ => isTrue trivial
  | .running => isTrue trivial
  | .asleep _ => isTrue trivial

instance (s : WaitState V (Mutex V)) : (action : Action V) → Decidable (action.Orderly s)
  | .resume v => inferInstanceAs (Decidable (Action.Prompt s (s.phase v)))
  | .tick _ => isTrue trivial
  | .lock .. => isTrue trivial
  | .trylock _ => isTrue trivial
  | .unlock _ => isTrue trivial
  | .timer _ => isTrue trivial

def Phase.owed : Phase → Bool
  | .woken released _ => released
  | _ => false

/-! ## Ownership of a mutex

The owner of a mutex, how often it was locked and the resource list of its owner.
Who waits and when it is woken changes none of these. -/

/-- A mutex, the resource lists that its `res` is on, the VCPUs whose resource flush has taken
`res` off and not yet cleaned up, and the acquisitions that each VCPU has not released. -/
structure OwnedMutex (V : Type u) where
  mutex : Mutex V
  resHead : V → Bool
  flushing : V → Bool
  held : V → Nat

namespace OwnedMutex

def idle : OwnedMutex V := ⟨⟨0, none⟩, fun _ => false, fun _ => false, fun _ => 0⟩

variable (s : OwnedMutex V)

/-- `vmm_mutex_trylock`, and a pass of `mutex_lock_common`; `lock` has 32 bits. -/
def acquire (v : V) : OwnedMutex V :=
  if s.mutex.available v then
    { s with
      mutex := ⟨Word.toU32 (s.mutex.take v).lock, (s.mutex.take v).owner⟩
      resHead := if s.mutex.lock = 0 then update s.resHead v true else s.resHead
      held := update s.held v (s.held v + 1) }
  else s

def unlock (s : OwnedMutex V) (v : V) : OwnedMutex V :=
  match s.mutex.unlock v with
  | (mutex, .ok, freed) =>
    { s with
      mutex
      resHead := if freed then update s.resHead v false else s.resHead
      held := update s.held v (s.held v - 1) }
  | _ => s

def pop (v : V) : OwnedMutex V :=
  { s with resHead := update s.resHead v false
           flushing := update s.flushing v true }

/-- `__vmm_mutex_cleanup`, which drops what the VCPU held. -/
def cleanup (v : V) : OwnedMutex V :=
  let s := { s with flushing := update s.flushing v false }
  if s.mutex.lock ≠ 0 ∧ s.mutex.owner = some v then
    { s with mutex := ⟨0, none⟩, held := update s.held v 0 }
  else s

end OwnedMutex

inductive OwnerAction (V : Type u) where
  | acquire (v : V)
  | unlock (v : V)
  | pop (v : V)
  | cleanup (v : V)

/-- Any interleaving of the locked sections; a VCPU whose resources are flushed does not run. -/
def ownerSystem (V : Type u) [DecidableEq V] : System (OwnedMutex V) (OwnerAction V) where
  init s := s = .idle
  step s action s' :=
    match action with
    | .acquire v => s.flushing v = false ∧ s' = s.acquire v
    | .unlock v => s.flushing v = false ∧ s' = s.unlock v
    | .pop v => s.resHead v = true ∧ s' = s.pop v
    | .cleanup v => s.flushing v = true ∧ s' = s.cleanup v

/-- An acquisition does not wrap the count. -/
def OwnerAction.Counts (s : OwnedMutex V) : OwnerAction V → Prop
  | .acquire v => s.held v + 1 < 2 ^ 32
  | _ => True

/-- Only the owner holds the mutex, `lock` times, and `res` is on its list and no other until a
flush takes it off. -/
structure OwnedMutex.Exclusive (s : OwnedMutex V) : Prop where
  locked : s.mutex.lock ≠ 0 ↔ s.mutex.owner.isSome
  held : ∀ v, s.held v = if s.mutex.owner = some v then s.mutex.lock else 0
  listed : ∀ v, s.resHead v = true ↔ s.mutex.owner = some v ∧ s.flushing v = false
  flushed : ∀ v, s.flushing v = true → s.mutex.owner = some v

namespace OwnedMutex

def ownedBy (v : V) (n : Nat) (flushing : Bool) : OwnedMutex V where
  mutex := ⟨n, some v⟩
  resHead := update (fun _ => false) v !flushing
  flushing := update (fun _ => false) v flushing
  held := update (fun _ => 0) v n

/-- The states of a mutex whose count does not wrap. -/
inductive Regular : OwnedMutex V → Prop
  | free : Regular idle
  | owned (v : V) (n : Nat) (flushing : Bool) : Regular (ownedBy v (n + 1) flushing)

variable {s s' : OwnedMutex V} {v w : V} {n : Nat} {flushing : Bool}

attribute [local simp] ownedBy

theorem Regular.exclusive (regular : s.Regular) : s.Exclusive := by
  cases regular with
  | free => exact ⟨by simp [idle], by simp [idle], by simp [idle], by simp [idle]⟩
  | owned v n flushing =>
    refine ⟨by simp, fun w => ?_, fun w => ?_, fun w => ?_⟩
    · by_cases own : w = v
      · simp [own]
      · simp [own, Ne.symm own]
    · by_cases own : w = v
      · simp [own]
      · simp [own, Ne.symm own]
    · by_cases own : w = v
      · simp [own]
      · simp [own]

theorem acquire_idle (v : V) : idle.acquire v = ownedBy v 1 false := by
  simp [acquire, idle, Mutex.available, Mutex.take, Word.toU32]

theorem acquire_ownedBy (v : V) (n : Nat) :
    (ownedBy v (n + 1) false).acquire v =
      { ownedBy v (n + 2) false with mutex := ⟨Word.toU32 (n + 2), some v⟩ } := by
  simp [acquire, Mutex.available, Mutex.take]

theorem unlock_ownedBy (v : V) (n : Nat) : (ownedBy v (n + 1) false).unlock v =
    if n = 0 then idle else ownedBy v n false := by
  cases n with
  | zero =>
    simp only [unlock, ownedBy, idle, Mutex.unlock]
    simp
  | succ n => simp [unlock, Mutex.unlock]

theorem ownedBy_of_ne (other : w ≠ v) : (ownedBy v (n + 1) flushing).acquire w =
      ownedBy v (n + 1) flushing ∧
    (ownedBy v (n + 1) flushing).unlock w = ownedBy v (n + 1) flushing := by
  simp [acquire, unlock, Mutex.available, Mutex.unlock, other.symm]

theorem Regular.step {action : OwnerAction V} (regular : s.Regular) (counts : action.Counts s)
    (taken : (ownerSystem V).step s action s') : s'.Regular := by
  cases regular with
  | free =>
    cases action with
    | acquire v => exact taken.2 ▸ acquire_idle v ▸ .owned v 0 false
    | unlock v => exact taken.2 ▸ .free
    | pop v => cases taken.1
    | cleanup v => cases taken.1
  | owned v n flushing =>
    cases action with
    | acquire w =>
      obtain ⟨runs, rfl⟩ := taken
      by_cases own : w = v
      · subst own
        obtain rfl : flushing = false := by simpa using runs
        have small : n + 2 < 2 ^ 32 := by
          simpa [OwnerAction.Counts] using counts
        rw [acquire_ownedBy, Word.toU32_of_lt small]
        exact .owned w (n + 1) false
      · rw [(ownedBy_of_ne own).1]
        exact .owned v n flushing
    | unlock w =>
      obtain ⟨runs, rfl⟩ := taken
      by_cases own : w = v
      · subst own
        obtain rfl : flushing = false := by simpa using runs
        rw [unlock_ownedBy]
        cases n with
        | zero => exact .free
        | succ n => exact .owned w n false
      · rw [(ownedBy_of_ne own).2]
        exact .owned v n flushing
    | pop w =>
      obtain ⟨listed, rfl⟩ := taken
      obtain rfl : w = v := by
        by_contra other
        simp [other] at listed
      have popped : (ownedBy w (n + 1) flushing).pop w =
          ownedBy w (n + 1) true := by
        simp [pop]
      exact popped ▸ .owned w n true
    | cleanup w =>
      obtain ⟨flushed, rfl⟩ := taken
      obtain rfl : w = v := by
        by_contra other
        simp [other] at flushed
      obtain rfl : flushing = true := by simpa using flushed
      have cleaned : (ownedBy w (n + 1) true).cleanup w = idle := by
        simp [cleanup, idle]
      exact cleaned ▸ .free

end OwnedMutex

/-- As long as no count wraps, a mutex is held by its owner only. -/
theorem mutex_exclusive {s : OwnedMutex V}
    (reached : ((ownerSystem V).restrict fun s action => action.Counts s).Reachable s) :
    s.Exclusive ∧ ∀ v w, 0 < s.held v → 0 < s.held w → v = w := by
  have exclusive : s.Exclusive := by
    apply OwnedMutex.Regular.exclusive
    apply reached.invariant OwnedMutex.Regular
    · rintro s rfl
      exact .free
    · rintro s action s' regular ⟨counts, taken⟩
      exact regular.step counts taken
  refine ⟨exclusive, fun v w first second => ?_⟩
  have owner : ∀ v, 0 < s.held v → s.mutex.owner = some v := fun v positive => by
    rw [exclusive.held v] at positive
    by_contra other
    rw [if_neg other] at positive
    cases positive
  exact Option.some.inj ((owner v first).symm.trans (owner w second))

theorem mutex_exclusive_locked : ∃ s : OwnedMutex Bool, s.mutex = ⟨1, some true⟩ ∧
    s.resHead true = true ∧ s.Exclusive :=
  ⟨OwnedMutex.idle.acquire true, by decide, by decide,
    (mutex_exclusive ((System.Reachable.start rfl).step (.acquire true)
      ⟨Nat.one_lt_two_pow (by decide), rfl, rfl⟩)).1⟩

theorem ownedBy_reached (v : V) (n : Nat) (small : n + 1 < 2 ^ 32) :
    (ownerSystem V).Reachable (.ownedBy v (n + 1) false) := by
  induction n with
  | zero =>
    exact OwnedMutex.acquire_idle v ▸ (System.Reachable.start rfl).step (.acquire v) ⟨rfl, rfl⟩
  | succ n ih =>
    have next := (ih (by omega)).step (.acquire v)
      ⟨by simp [OwnedMutex.ownedBy], rfl⟩
    rwa [OwnedMutex.acquire_ownedBy, Word.toU32_of_lt small] at next

/-- After `2 ^ 32` acquisitions a mutex has an owner and looks unlocked, so that another VCPU
takes it; and a flush takes `res` off while the mutex is still locked. -/
theorem mutex_count_wraps :
    (∃ s, (ownerSystem Bool).Reachable s ∧ s.mutex = ⟨0, some true⟩ ∧ s.held true = 2 ^ 32 ∧
      (s.acquire false).mutex = ⟨1, some false⟩) ∧
    ∃ s, (ownerSystem Bool).Reachable s ∧ s.mutex = ⟨1, some true⟩ ∧ ∀ v, s.resHead v = false := by
  constructor
  · have full := ownedBy_reached true (2 ^ 32 - 2) (by omega)
    refine ⟨_, full.step (.acquire true) ⟨by simp [OwnedMutex.ownedBy], rfl⟩, ?_⟩
    rw [OwnedMutex.acquire_ownedBy]
    exact ⟨rfl, by simp [OwnedMutex.ownedBy], rfl⟩
  · exact ⟨_, (ownedBy_reached true 0 (by decide)).step (.pop true) ⟨rfl, rfl⟩, rfl, by decide⟩

end Xvisor.Sync
