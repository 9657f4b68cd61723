import Xvisor.Lib.Word
import Xvisor.Sync.Waitqueue

/-!
# Semaphores and completions

A semaphore keeps the units that are left in `value` and an entry for every VCPU
that took some. An up by a VCPU without an entry is charged to the first one,
and the entry of a VCPU that is destroyed returns its units.
-/

namespace Xvisor.Sync

open List Lib WaitState Prod

universe u v

variable {V : Type u} [DecidableEq V]

namespace Semaphore

/-- `__vmm_semaphore_cleanup` for the entry of a VCPU, if it has one; the last component says
whether all sleepers are woken. -/
def cleanup (sem : Semaphore V) (v : V) : Semaphore V × Bool :=
  match sem.resList.find? fun entry => entry.1 = v with
  | none => (sem, false)
  | some (_, count) =>
    let returned := Word.toU32 (sem.value + count)
    let value :=
      if count ≠ 0 then if returned > sem.limit then sem.limit else returned else sem.value
    (⟨sem.limit, value, sem.resList.eraseP fun entry => entry.1 = v⟩, count ≠ 0)

end Semaphore

namespace WaitState

def wakeall {R : Type v} (s : WaitState V R) : WaitState V R :=
  s.vcpuList.foldl (fun s v => s.wake v true) s

/-- `vmm_manager_vcpu_orphan_destroy`: the VCPU is forced out of the waitqueue and what it holds
is cleaned up. Its place may be taken by a new VCPU. -/
def destroy (s : WaitState V (Semaphore V)) (v : V) : WaitState V (Semaphore V) :=
  let cleaned := s.resource.cleanup v
  let s :=
    { s with
      vcpuList := s.vcpuList.erase v
      phase := Function.update s.phase v .running
      resource := cleaned.1 }
  if cleaned.2 then s.wakeall else s

end WaitState

/-- The sections of downs and ups, and the destruction of VCPUs. -/
inductive SemaphoreAction (V : Type u) where
  | locked (action : Action V)
  | destroy (v : V)
  deriving DecidableEq, Repr

def SemaphoreAction.run (s : WaitState V (Semaphore V)) :
    SemaphoreAction V → Option (WaitState V (Semaphore V))
  | .locked action => action.run (Semaphore.gate V) s
  | .destroy v => some (s.destroy v)

def semaphoreSystem (V : Type u) [DecidableEq V] :
    System (WaitState V (Semaphore V)) (SemaphoreAction V) where
  init s := Boot s ∧ s.resource.limit < 2 ^ 32 ∧ s.resource.value ≤ s.resource.limit ∧
    s.resource.resList = []
  step s action s' := action.run s = some s'

/-! ## What a section does to a lock -/

section Resource

variable {R : Type v} {gate : Gate V R} {s s' : WaitState V R}

section

variable (s : WaitState V R)

@[simp] theorem WaitState.wakefirst_resource : s.wakefirst.resource = s.resource := by
  unfold WaitState.wakefirst
  split
  · rfl
  · exact s.wake_resource _ true

@[simp] theorem WaitState.wakeall_resource : s.wakeall.resource = s.resource := by
  unfold WaitState.wakeall
  generalize s.vcpuList = list
  induction list generalizing s with
  | nil => rfl
  | cons v list ih =>
    rw [foldl_cons, ih, wake_resource]

end

/-- A lock is left alone, taken by a VCPU to which it is available, or released. -/
inductive Changes (gate : Gate V R) (r : R) : R → Prop where
  | same : Changes gate r r
  | take (v : V) : gate.available r v = true → Changes gate r (gate.take r v)
  | release (v : V) : Changes gate r (gate.release r v).1

section

variable (s : WaitState V R)

theorem WaitState.acquire_changes (v : V) (timeout : Option Nat) :
    Changes gate s.resource (s.acquire gate v timeout).resource := by
  unfold WaitState.acquire
  split
  · next available => exact .take v available
  · rw [sleep_resource]
    exact .same

theorem WaitState.unlock_changes (v : V) : Changes gate s.resource (s.unlock gate v).resource := by
  unfold WaitState.unlock
  dsimp only
  split
  · rw [wakefirst_resource]
    exact .release v
  · exact .release v

theorem WaitState.trylock_changes (v : V) :
    Changes gate s.resource (s.trylock gate v).resource := by
  unfold WaitState.trylock
  split
  · next available => exact .take v available
  · exact .same

theorem WaitState.resume_changes (v : V) (expiry : Option Nat) :
    Changes gate s.resource (s.resume gate v expiry).resource := by
  unfold WaitState.resume
  split
  · exact s.acquire_changes v none
  · split
    · exact .same
    · exact s.acquire_changes v _

end

theorem Action.run_changes {action : Action V} (result : action.run gate s = some s') :
    Changes gate s.resource s'.resource := by
  cases action <;> simp only [Action.run] at result
  case tick delta =>
    cases result
    exact .same
  case lock v timeout =>
    split at result
    · cases result
      exact s.acquire_changes v timeout
    · cases result
  case trylock v =>
    split at result
    · split at result
      · cases result
        exact s.trylock_changes v
      · cases result
    · cases result
  case unlock v =>
    split at result
    · cases result
      exact s.unlock_changes v
    · cases result
  case timer v =>
    split at result
    · split at result
      · cases result
        rw [wake_resource]
        exact .same
      · cases result
    · cases result
  case resume v =>
    split at result
    · cases result
      exact s.resume_changes v _
    · cases result

theorem WaitState.acquire_ok {v : V} {timeout : Option Nat}
    (returned : (s.acquire gate v timeout).phase v = .running)
    (ok : (s.acquire gate v timeout).rc v = .ok) :
    gate.available s.resource v = true ∧
      (s.acquire gate v timeout).resource = gate.take s.resource v := by
  unfold WaitState.acquire at returned ok ⊢
  by_cases available : gate.available s.resource v = true
  · rw [if_pos available]
    exact ⟨available, rfl⟩
  · rw [if_neg available] at returned ok
    unfold WaitState.sleep at returned ok
    split at returned
    · next isOver => simp [isOver, WaitState.finish] at ok
    · simp at returned

/-- A VCPU asks for a lock, or asks again after it was woken. -/
inductive Action.Asks (v : V) : Action V → Prop where
  | lock (timeout : Option Nat) : Asks v (.lock v timeout)
  | resume : Asks v (.resume v)

theorem Action.run_ok {action : Action V} {v : V} (asks : action.Asks v)
    (result : action.run gate s = some s') (returned : s'.phase v = .running) (ok : s'.rc v = .ok) :
    gate.available s.resource v = true ∧ s'.resource = gate.take s.resource v := by
  cases asks with
  | lock timeout =>
    simp only [Action.run] at result
    split at result
    · cases result
      exact acquire_ok returned ok
    · cases result
  | resume =>
    simp only [Action.run] at result
    split at result
    · next released expiry woken =>
      cases result
      cases expiry with
      | none => exact acquire_ok returned ok
      | some expiry =>
        unfold WaitState.resume at returned ok ⊢
        dsimp only at returned ok ⊢
        by_cases isOver : s.timeLeft expiry = 0
        · simp [isOver, WaitState.finish] at ok
        · rw [if_neg isOver] at returned ok ⊢
          exact acquire_ok returned ok
    · cases result

end Resource

/-! ## The entries -/

namespace Semaphore

def held (resList : List (V × Nat)) : Nat := (resList.map snd).sum

variable {v : V} {count : Nat} {resList : List (V × Nat)}

omit [DecidableEq V] in
@[simp] theorem held_cons (entry : V × Nat) (resList : List (V × Nat)) :
    held (entry :: resList) = entry.2 + held resList := by
  simp [held]

/-- Every entry holds something, and no VCPU has two. -/
structure Entries (resList : List (V × Nat)) : Prop where
  positive : ∀ entry ∈ resList, 1 ≤ entry.2
  distinct : (resList.map fst).Nodup

omit [DecidableEq V] in
theorem Entries.cons_iff {entry : V × Nat} : Entries (entry :: resList) ↔
    1 ≤ entry.2 ∧ entry.1 ∉ resList.map fst ∧ Entries resList := by
  constructor
  · intro entries
    obtain ⟨fresh, distinct⟩ := nodup_cons.mp entries.distinct
    exact ⟨entries.positive entry mem_cons_self, fresh,
      fun e member => entries.positive e (mem_cons_of_mem _ member), distinct⟩
  · rintro ⟨positive, fresh, entries⟩
    refine ⟨fun e member => ?_, nodup_cons.mpr ⟨fresh, entries.distinct⟩⟩
    rcases mem_cons.mp member with rfl | member
    · exact positive
    · exact entries.positive e member

theorem held_countDown (v : V) (resList : List (V × Nat)) :
    held (countDown v resList) = held resList + 1 := by
  induction resList with
  | nil => simp [countDown, held]
  | cons entry resList ih =>
    unfold countDown
    split
    · simp only [held_cons]
      omega
    · simp only [held_cons, ih]
      omega

theorem mem_countDown_fst {v' : V} :
    v' ∈ (countDown v resList).map fst ↔ v' = v ∨ v' ∈ resList.map Prod.fst := by
  induction resList with
  | nil => simp [countDown]
  | cons entry resList ih =>
    unfold countDown
    split
    · next own =>
      subst own
      simp
    · rw [map_cons, map_cons, mem_cons, mem_cons, ih]
      tauto

theorem Entries.countDown (entries : Entries resList) (v : V) :
    Entries (Semaphore.countDown v resList) := by
  induction resList with
  | nil => exact ⟨by simp [Semaphore.countDown], by simp [Semaphore.countDown]⟩
  | cons entry resList ih =>
    obtain ⟨positive, fresh, others⟩ := Entries.cons_iff.mp entries
    unfold Semaphore.countDown
    split
    · exact Entries.cons_iff.mpr ⟨Nat.le_add_left 1 _, fresh, others⟩
    · next other =>
      refine Entries.cons_iff.mpr ⟨positive, ?_, ih others⟩
      rw [mem_countDown_fst, not_or]
      exact ⟨other, fresh⟩

theorem held_countUp (entries : Entries resList) (member : v ∈ resList.map fst) :
    held (countUp v resList) + 1 = held resList := by
  induction resList with
  | nil => cases member
  | cons entry resList ih =>
    obtain ⟨positive, fresh, others⟩ := Entries.cons_iff.mp entries
    unfold countUp
    split
    · split
      · rw [held_cons]
        omega
      · simp only [held_cons]
        omega
    · next other =>
      have rest : v ∈ resList.map Prod.fst := (mem_cons.mp member).resolve_left (Ne.symm other)
      rw [held_cons, held_cons, add_assoc, ih others rest]

theorem mem_countUp_fst {v' : V} (member : v' ∈ (countUp v resList).map fst) :
    v' ∈ resList.map Prod.fst := by
  induction resList with
  | nil => cases member
  | cons entry resList ih =>
    unfold countUp at member
    split at member
    · split at member
      · exact mem_cons_of_mem _ member
      · exact member
    · rcases mem_cons.mp member with same | member
      · exact mem_cons.mpr (.inl same)
      · exact mem_cons_of_mem _ (ih member)

theorem Entries.countUp (entries : Entries resList) (v : V) :
    Entries (Semaphore.countUp v resList) := by
  induction resList with
  | nil => exact entries
  | cons entry resList ih =>
    obtain ⟨positive, fresh, others⟩ := Entries.cons_iff.mp entries
    unfold Semaphore.countUp
    split
    · split
      · exact others
      · next some_left => exact Entries.cons_iff.mpr ⟨pos_of_ne_zero some_left, fresh, others⟩
    · exact Entries.cons_iff.mpr
        ⟨positive, fun member => fresh (mem_countUp_fst member), ih others⟩

theorem held_eraseP (found : resList.find? (fun entry => entry.1 = v) = some (v, count)) :
    held (resList.eraseP fun entry => entry.1 = v) + count = held resList := by
  induction resList with
  | nil => cases found
  | cons entry resList ih =>
    by_cases own : entry.1 = v
    · rw [List.find?_cons_of_pos (by simpa using own)] at found
      cases found
      rw [eraseP_cons_of_pos (by simp), held_cons, add_comm]
    · rw [List.find?_cons_of_neg (by simpa using own)] at found
      rw [eraseP_cons_of_neg (by simpa using own), held_cons, held_cons, add_assoc, ih found]

theorem Entries.find?_eq (entries : Entries resList) (member : (v, count) ∈ resList) :
    resList.find? (fun entry => entry.1 = v) = some (v, count) := by
  induction resList with
  | nil => cases member
  | cons entry resList ih =>
    obtain ⟨-, fresh, others⟩ := Entries.cons_iff.mp entries
    rcases mem_cons.mp member with rfl | inRest
    · exact List.find?_cons_of_pos (by simp)
    · have other : entry.1 ≠ v := by
        rintro rfl
        exact fresh (mem_map.mpr ⟨_, inRest, rfl⟩)
      rw [List.find?_cons_of_neg (by simpa using other)]
      exact ih others inRest

theorem Entries.eraseP (entries : Entries resList) (v : V) :
    Entries (resList.eraseP fun entry => entry.1 = v) where
  positive entry member := entries.positive entry (mem_of_mem_eraseP member)
  distinct := entries.distinct.sublist (eraseP_sublist.map fst)

/-! ## Every operation keeps the accounts -/

/-- What is left and what is held do not exceed the limit together. -/
structure Accounted (sem : Semaphore V) : Prop where
  limit_lt : sem.limit < 2 ^ 32
  total : sem.value + held sem.resList ≤ sem.limit
  entries : Entries sem.resList

variable {sem : Semaphore V}

section

variable (accounted : Accounted sem)
include accounted

theorem Accounted.take (positive : 0 < sem.value) (v : V) : Accounted (sem.take v) := by
  refine ⟨accounted.limit_lt, ?_, accounted.entries.countDown v⟩
  have total := accounted.total
  show sem.value - 1 + held (countDown v sem.resList) ≤ sem.limit
  rw [held_countDown]
  omega

theorem Accounted.charge (member : v ∈ sem.resList.map fst) :
    Accounted ⟨sem.limit, sem.value + 1, countUp v sem.resList⟩ := by
  refine ⟨accounted.limit_lt, ?_, accounted.entries.countUp v⟩
  have total := accounted.total
  have charged := held_countUp accounted.entries member
  show sem.value + 1 + held (countUp v sem.resList) ≤ sem.limit
  omega

theorem Accounted.up (v : V) : Accounted (sem.up v).1 := by
  unfold Semaphore.up
  split
  · next below =>
    dsimp only
    split
    · next own =>
      refine accounted.charge ?_
      simpa using own
    · split
      · refine ⟨accounted.limit_lt, ?_, ⟨nofun, nodup_nil⟩⟩
        exact below
      · next first rest list =>
        rw [← list]
        refine accounted.charge ?_
        rw [list]
        exact mem_cons_self
  · exact accounted

section

variable (found : sem.resList.find? (fun entry => entry.1 = v) = some (v, count))
include found

theorem Accounted.fits : sem.value + count ≤ sem.limit := by
  have total := accounted.total
  have parts := held_eraseP found
  omega

theorem Accounted.cleanup_eq : sem.cleanup v =
      (⟨sem.limit, sem.value + count, sem.resList.eraseP fun entry => entry.1 = v⟩,
        decide (count ≠ 0)) := by
  have fits := accounted.fits found
  have word : Word.toU32 (sem.value + count) = sem.value + count :=
    Word.toU32_of_lt (fits.trans_lt accounted.limit_lt)
  unfold Semaphore.cleanup
  rw [found]
  dsimp only
  rw [word, if_neg (Nat.not_lt.mpr fits)]
  by_cases none_held : count = 0
  · subst none_held
    simp
  · rw [if_pos none_held]

end

theorem Accounted.cleanup (v : V) : Accounted (sem.cleanup v).1 := by
  cases found : sem.resList.find? fun entry => entry.1 = v with
  | none =>
    unfold Semaphore.cleanup
    rw [found]
    exact accounted
  | some entry =>
    obtain ⟨v', count⟩ := entry
    obtain rfl : v' = v := by simpa using List.find?_some found
    rw [accounted.cleanup_eq found]
    refine ⟨accounted.limit_lt, ?_, accounted.entries.eraseP v'⟩
    have total := accounted.total
    have parts := held_eraseP found
    dsimp only
    omega

end

end Semaphore

open Semaphore

theorem Changes.accounted {sem sem' : Semaphore V} (accounted : Accounted sem)
    (changes : Changes (Semaphore.gate V) sem sem') : Accounted sem' := by
  cases changes with
  | same => exact accounted
  | take v available => exact accounted.take (pos_of_ne_zero (of_decide_eq_true available)) v
  | release v => exact accounted.up v

theorem WaitState.destroy_resource (s : WaitState V (Semaphore V)) (v : V) :
    (s.destroy v).resource = (s.resource.cleanup v).1 := by
  unfold WaitState.destroy
  dsimp only
  split
  · rw [wakeall_resource]
  · rfl

variable {s : WaitState V (Semaphore V)}

theorem semaphoreSystem_accounted
    (reached : (semaphoreSystem V).Reachable s) : Accounted s.resource := by
  refine reached.invariant (fun s => Accounted s.resource) ?_ ?_
  · rintro s ⟨-, limit_lt, value_le, empty⟩
    refine ⟨limit_lt, ?_, ?_⟩
    · rw [empty]
      exact value_le
    · rw [empty]
      exact ⟨nofun, nodup_nil⟩
  · intro s action s' accounted result
    cases action with
    | locked action => exact (Action.run_changes result).accounted accounted
    | destroy v =>
      cases result
      show Accounted (s.destroy v).resource
      rw [destroy_resource]
      exact accounted.cleanup v

def twoUnits : WaitState (Fin 3) (Semaphore (Fin 3)) where
  now := 0
  resource := ⟨2, 2, []⟩
  vcpuList := []
  phase _ := .running
  rc _ := .ok

/-! ## Completions

A completion counts in `done` the tokens that were posted and not yet taken. A
waiter that was woken takes a token if there is one, but does not test again
whether there is, nor does it ask whether its time is over. -/

open Nat

/-- A completion as a lock whose units are the tokens in `done`. -/
def completionGate (V : Type u) : Gate V Nat where
  units done := done
  available done _ := done ≠ 0
  take done _ := done - 1
  release done _ := ((done + 1) % 2 ^ 32, .ok, true)
  trylock := false
  units_unavailable done _ none := by simpa using none
  units_take _ _ := le_rfl
  units_release _ _ := Nat.mod_le ..

/-- The waiters, with `done` as their resource, the tokens that were posted or dropped by a
`REINIT_COMPLETION` so far, and the waits that returned `VMM_OK`. -/
structure Completion (V : Type u) where
  wait : WaitState V Nat
  posted : Nat
  dropped : Nat
  granted : Nat

namespace Completion

section

variable (c : Completion V)

def post (n : Nat) (wake : WaitState V Nat → WaitState V Nat) : Completion V :=
  { c with
    wait := wake { c.wait with resource := (c.wait.resource + n) % 2 ^ 32 }
    posted := c.posted + n }

def complete : Completion V := c.post 1 WaitState.wakefirst

def completeOnce : Completion V :=
  if c.wait.resource = 0 then c.complete else c

def completeAll : Completion V := c.post (0xFFFFFFFF / 2) WaitState.wakeall

def reinit : Completion V :=
  { c with wait := { c.wait with resource := 0 }, dropped := c.dropped + c.wait.resource }

/-- What `__vmm_waitqueue_sleep` returns after the pause. -/
def sleepResult : Option Nat → ReturnCode
  | none => .ok
  | some expiry => if c.wait.timeLeft expiry = 0 then .timedOut else .ok

/-- The rest of `completion_wait_common`, `if (cmpl->done) cmpl->done--`. -/
def resume (v : V) (expiry : Option Nat) : Completion V :=
  { c with
    wait := { c.wait with resource := c.wait.resource - 1 }.finish v (c.sleepResult expiry)
    granted := c.granted + if c.sleepResult expiry = .ok then 1 else 0 }

end

end Completion

inductive CompletionAction (V : Type u) where
  | tick (delta : Nat)
  | wait (v : V) (timeout : Option Nat)
  | timer (v : V)
  | resume (v : V)
  | complete
  | completeOnce
  | completeAll
  | reinit
  deriving DecidableEq, Repr

namespace CompletionAction

def run (c : Completion V) : CompletionAction V → Option (Completion V)
  | .tick delta => ((Action.tick delta).run (completionGate V) c.wait).map ({ c with wait := · })
  | .wait v timeout =>
    ((Action.lock v timeout).run (completionGate V) c.wait).map fun wait =>
      { c with wait := wait, granted := c.granted + if c.wait.resource = 0 then 0 else 1 }
  | .timer v => ((Action.timer v).run (completionGate V) c.wait).map ({ c with wait := · })
  | .resume v =>
    match c.wait.phase v with
    | .woken _ expiry => some (c.resume v expiry)
    | _ => none
  | .complete => some c.complete
  | .completeOnce => some c.completeOnce
  | .completeAll => some c.completeAll
  | .reinit => some c.reinit

/-- A waiter that was woken finds a token if and only if it has time left, and `done` does not
wrap. -/
def Orderly (c : Completion V) : CompletionAction V → Prop
  | .resume v => ∀ released expiry, c.wait.phase v = .woken released expiry →
      (c.sleepResult expiry = .ok ↔ c.wait.resource ≠ 0)
  | .complete => c.wait.resource + 1 < 2 ^ 32
  | .completeAll => c.wait.resource + 0xFFFFFFFF / 2 < 2 ^ 32
  | _ => True

end CompletionAction

def completionSystem (V : Type u) [DecidableEq V] : System (Completion V) (CompletionAction V) where
  init c := Boot c.wait ∧ c.wait.resource = 0 ∧ c.posted = 0 ∧ c.dropped = 0 ∧ c.granted = 0
  step c action c' := action.run c = some c'

/-- Each token that was posted is still there, was dropped, or was taken by a wait that returned
`VMM_OK`; while there is one, nobody sleeps unless a waiter that was woken has not yet run. -/
structure Completion.Exact (c : Completion V) : Prop where
  counted : c.granted + c.dropped + c.wait.resource = c.posted
  noLostWakeup : NoLostWakeup (completionGate V) c.wait

/-! ## Invariant -/

section Waiting

variable {R : Type*} {gate : Gate V R} {s : WaitState V R} {pending : List V}

omit [DecidableEq V] in
theorem Listed.setResource (listed : Listed s pending) (r : R) :
    Listed { s with resource := r } pending :=
  ⟨listed.asleep, listed.nodup, listed.released, listed.pendingNodup⟩

theorem Waiting.wakeall (listed : Listed s pending) : Waiting gate s.wakeall := by
  suffices ∀ list, s.vcpuList = list → ∃ pending,
      Listed (list.foldl (fun s v => s.wake v true) s) pending ∧
        (list.foldl (fun s v => s.wake v true) s).vcpuList = [] by
    obtain ⟨pending, listed, empty⟩ := this _ rfl
    exact ⟨pending, listed, fun nonempty => absurd empty nonempty⟩
  intro list isList
  induction list generalizing s pending with
  | nil => exact ⟨pending, listed, isList⟩
  | cons v list ih =>
    obtain ⟨expiry, asleep⟩ := (listed.asleep v).mp (isList ▸ List.mem_cons_self)
    obtain ⟨after, erased⟩ := listed.wake asleep true
    refine ih after ?_
    rw [erased, isList, List.erase_cons_head]

end Waiting

theorem acquire_done (s : WaitState V Nat) (v : V) (timeout : Option Nat) :
    (s.acquire (completionGate V) v timeout).resource = s.resource - 1 := by
  unfold WaitState.acquire
  by_cases none : s.resource = 0
  · rw [if_neg (by simp [completionGate, none]), WaitState.sleep_resource, none]
  · rw [if_pos (by simp [completionGate, none])]
    rfl

structure Completion.Kept (c : Completion V) : Prop where
  counted : c.granted + c.dropped + c.wait.resource = c.posted
  waiting : Waiting (completionGate V) c.wait

variable {c c' : Completion V}

namespace Completion.Kept

theorem complete (kept : c.Kept) (fits : c.wait.resource + 1 < 2 ^ 32) : c.complete.Kept := by
  obtain ⟨pending, listed, enough⟩ := kept.waiting
  have counted := kept.counted
  refine ⟨?_, Waiting.wakefirst (listed.setResource _) fun nonempty => ?_⟩
  · simp only [Completion.complete, Completion.post, WaitState.wakefirst_resource,
      mod_eq_of_lt fits]
    omega
  · exact (mod_le ..).trans (succ_le_succ (enough nonempty))

theorem completeAll (kept : c.Kept) (fits : c.wait.resource + 0xFFFFFFFF / 2 < 2 ^ 32) :
    c.completeAll.Kept := by
  obtain ⟨pending, listed, -⟩ := kept.waiting
  have counted := kept.counted
  refine ⟨?_, Waiting.wakeall (listed.setResource _)⟩
  simp only [Completion.completeAll, Completion.post, WaitState.wakeall_resource,
    mod_eq_of_lt fits]
  omega

theorem resume (kept : c.Kept) {v : V} {released : Bool} {expiry : Option Nat}
    (woken : c.wait.phase v = .woken released expiry)
    (orderly : c.sleepResult expiry = .ok ↔ c.wait.resource ≠ 0) : (c.resume v expiry).Kept := by
  obtain ⟨pending, listed, enough⟩ := kept.waiting
  have counted := kept.counted
  refine ⟨?_, Waiting.take listed enough (listed.awake woken nofun) _⟩
  simp only [Completion.resume, WaitState.finish, orderly]
  split <;> omega

end Completion.Kept

theorem CompletionAction.run_kept {action : CompletionAction V} (kept : c.Kept)
    (orderly : action.Orderly c) (result : action.run c = some c') : c'.Kept := by
  have counted := kept.counted
  cases action with
  | tick delta =>
    simp only [run, Option.map_eq_some_iff] at result
    obtain ⟨wait, taken, rfl⟩ := result
    refine ⟨?_, Action.run_waiting kept.waiting (by trivial) taken⟩
    cases taken
    exact counted
  | wait v timeout =>
    simp only [run, Option.map_eq_some_iff] at result
    obtain ⟨wait, taken, rfl⟩ := result
    refine ⟨?_, Action.run_waiting kept.waiting (by trivial) taken⟩
    simp only [Action.run] at taken
    split at taken <;> cases taken
    simp only [acquire_done]
    split <;> omega
  | timer v =>
    simp only [run, Option.map_eq_some_iff] at result
    obtain ⟨wait, taken, rfl⟩ := result
    refine ⟨?_, Action.run_waiting kept.waiting (by trivial) taken⟩
    simp only [Action.run] at taken
    split at taken
    · split at taken <;> cases taken
      rw [WaitState.wake_resource]
      exact counted
    · cases taken
  | resume v =>
    simp only [run] at result
    split at result
    · next woken =>
      cases result
      exact kept.resume woken (orderly _ _ woken)
    · cases result
  | complete =>
    cases result
    exact kept.complete orderly
  | completeOnce =>
    cases result
    unfold Completion.completeOnce
    split
    · next none => exact kept.complete (by omega)
    · exact kept
  | completeAll =>
    cases result
    exact kept.completeAll orderly
  | reinit =>
    cases result
    obtain ⟨pending, listed, -⟩ := kept.waiting
    refine ⟨?_, pending, listed.setResource 0, fun _ => zero_le _⟩
    simp only [Completion.reinit]
    omega

/-- In every orderly run, tokens are counted exactly. -/
theorem completion_exact (reached :
    ((completionSystem V).restrict fun c action => action.Orderly c).Reachable c) : c.Exact := by
  have kept : c.Kept := by
    apply reached.invariant Completion.Kept
    · rintro c ⟨boot, done, posted, dropped, granted⟩
      exact ⟨by omega, boot.waiting⟩
    · rintro c action c' kept ⟨orderly, result⟩
      exact CompletionAction.run_kept kept orderly result
  exact ⟨kept.counted, kept.waiting.noLostWakeup⟩

def freshCompletion : Completion Bool := ⟨⟨0, 0, [], fun _ => .running, fun _ => .ok⟩, 0, 0, 0⟩

theorem freshCompletion_init : (completionSystem Bool).init freshCompletion :=
  ⟨⟨rfl, fun _ => rfl⟩, rfl, rfl, rfl, rfl⟩

theorem completion_exact_woken :
    ∃ c : Completion Bool, c.posted = 1 ∧ c.granted = 1 ∧ c.wait.resource = 0 ∧ c.Exact := by
  have start : ((completionSystem Bool).restrict fun c action => action.Orderly c).Reachable
      freshCompletion := .start freshCompletion_init
  have posted := (start.step (.wait false none) ⟨trivial, rfl⟩).step .complete
    ⟨(by decide : 0 + 1 < 2 ^ 32), rfl⟩
  refine ⟨_, ?_, ?_, ?_, completion_exact (posted.step (.resume false) ⟨?_, rfl⟩)⟩
  · rfl
  · rfl
  · rfl
  · rintro released expiry ⟨⟩
    decide

/-- A waiter takes the token for which another one was woken, and both return `VMM_OK`; and a
waiter whose time is over takes a token. -/
theorem completion_not_exact :
    (∃ c, (completionSystem Bool).Reachable c ∧ c.posted = 1 ∧ c.granted = 2) ∧
    ∃ c, (completionSystem Bool).Reachable c ∧ c.posted = 1 ∧ c.granted + c.dropped = 0 ∧
      c.wait.resource = 0 ∧ c.wait.rc false = .timedOut := by
  refine ⟨⟨_, .replay (.start freshCompletion_init) (fun _ _ => True) (fun c label => label.run c)
    [.wait false none, .complete, .wait true none, .resume false] (fun _ taken => taken) rfl,
    rfl, rfl⟩, ⟨_, .replay (.start freshCompletion_init) (fun _ _ => True)
      (fun c label => label.run c) [.wait false (some 5), .tick 10, .timer false, .complete,
        .resume false] (fun _ taken => taken) rfl, rfl, rfl, rfl, rfl⟩⟩

end Xvisor.Sync
