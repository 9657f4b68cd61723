import Mathlib.Data.Fintype.Pi
import Xvisor.Lib.Lists
import Xvisor.Scheduler.Runs

/-!
# CPU affinity

`vmm_manager_vcpu_set_affinity` checks the new mask under the `sched_lock` of the VCPU and may drop
the lock to move the VCPU before it installs the mask. A call that has dropped the lock is part of
the state.
-/

namespace Xvisor.Scheduler

open List Lib

variable {k n : Nat}

def maskWeight (mask : Fin n → Bool) : Nat := (List.finRange n).countP mask

theorem maskWeight_pos_iff {mask : Fin n → Bool} : 0 < maskWeight mask ↔ ∃ cpu, mask cpu := by
  simp [maskWeight, List.countP_pos_iff]

namespace Sched

variable (s : Sched (Fin k) (Fin n))

/-- The VCPUs of a priority on each host CPU of a mask; `avail` tells which VCPUs do not exist. -/
def hcpuCount (avail : Fin k → Bool) (priority : Fin 8)
    (affinity : Fin n → Bool) (cpu : Fin n) : Nat :=
  (List.finRange k).countP fun v =>
    !avail v && (s.vcpu v).priority = priority && affinity (s.vcpu v).hcpu && (s.vcpu v).hcpu = cpu

/-- `__vmm_manager_good_hcpu`: the host CPU of the mask with the fewest VCPUs, called on `cpu`. -/
def goodHcpu (cpu : Fin n) (timerStarted : Bool)
    (avail : Fin k → Bool) (priority : Fin 8) (affinity : Fin n → Bool) : Fin n :=
  let first := ((List.finRange n).find? affinity).getD cpu
  if !timerStarted || maskWeight affinity < 1 then cpu
  else
    let count := s.hcpuCount avail priority affinity
    ((List.finRange n).foldl (fun (min, hcpu) c =>
      if !affinity c then (min, hcpu)
      else if count c < min then (count c, c)
      else (min, hcpu)) (count first, first)).2

theorem goodHcpu_mem (cpu : Fin n) (avail : Fin k → Bool)
    (priority : Fin 8) {affinity : Fin n → Bool} (nonempty : ∃ c, affinity c) :
    affinity (s.goodHcpu cpu true avail priority affinity) := by
  have weight : ¬ maskWeight affinity < 1 := Nat.not_lt.mpr (maskWeight_pos_iff.mpr nonempty)
  have first : affinity (((List.finRange n).find? affinity).getD cpu) := by
    obtain ⟨c, isMember⟩ := nonempty
    have found : ((List.finRange n).find? affinity).isSome :=
      List.find?_isSome.mpr ⟨c, List.mem_finRange c, isMember⟩
    obtain ⟨f, isFirst⟩ := Option.isSome_iff_exists.mp found
    rw [isFirst]
    exact List.find?_some isFirst
  simp only [goodHcpu, Bool.not_true, Bool.false_or, decide_eq_true_eq, if_neg weight]
  -- the loop only ever moves to another host CPU of the mask
  refine foldlRecOn (motive := fun acc : Nat × Fin n => affinity acc.2) _ _ first ?_
  intro acc inMask c _
  split
  · exact inMask
  · next isMember =>
    split
    · simpa using isMember
    · exact inMask

end Sched

/-- A call that has dropped the lock: it looks for a host CPU in the common part of both masks, or
is about to install its mask. -/
inductive AffinityStage (n : Nat) where
  | seeking (andMask : Fin n → Bool)
  | installing
  deriving DecidableEq

structure AffinityCall (k n : Nat) where
  vcpu : Fin k
  cpuMask : Fin n → Bool
  stage : AffinityStage n
  deriving DecidableEq

structure AffinitySched (k n : Nat) where
  sched : Sched (Fin k) (Fin n)
  calls : List (AffinityCall k n)

inductive AffinityEvent (k n : Nat) where
  | sched (event : Event (Fin k) (Fin n))
  | start (v : Fin k) (cpuMask : Fin n → Bool)
  | seek (call : AffinityCall k n) (cpu : Fin n) (timerStarted : Bool) (avail : Fin k → Bool)
  | install (call : AffinityCall k n)

namespace AffinitySched

section

variable (s : AffinitySched k n)

def setMask (v : Fin k) (cpuMask : Fin n → Bool) : AffinitySched k n :=
  { s with sched := s.sched.setVcpu v { s.sched.vcpu v with cpuAffinity := cpuMask } }

def startAffinity (v : Fin k) (cpuMask : Fin n → Bool) : AffinitySched k n :=
  let vcpu := s.sched.vcpu v
  let andMask := fun cpu => vcpu.cpuAffinity cpu && cpuMask cpu
  if maskWeight andMask = 0 then s
  else if andMask vcpu.hcpu then s.setMask v cpuMask
  else { s with calls := s.calls ++ [⟨v, cpuMask, .seeking andMask⟩] }

def seekHcpu (call : AffinityCall k n) (cpu : Fin n) (timerStarted : Bool)
    (avail : Fin k → Bool) : AffinitySched k n :=
  match call.stage with
  | .seeking andMask =>
    let newHcpu := s.sched.goodHcpu cpu timerStarted avail (s.sched.vcpu call.vcpu).priority andMask
    match s.sched.setHcpu call.vcpu newHcpu with
    | (sched, .ok) => ⟨sched, s.calls.erase call ++ [{ call with stage := .installing }]⟩
    | (sched, _) => ⟨sched, s.calls.erase call⟩
  | .installing => s

def installMask (call : AffinityCall k n) : AffinitySched k n :=
  { s.setMask call.vcpu call.cpuMask with calls := s.calls.erase call }

end

end AffinitySched

namespace AffinityEvent

def run (s : AffinitySched k n) : AffinityEvent k n → Option (AffinitySched k n)
  | .sched event => (event.run s.sched).map fun scheduled => { s with sched := scheduled }
  | .start v cpuMask => some (s.startAffinity v cpuMask)
  | .seek call cpu timerStarted avail => some (s.seekHcpu call cpu timerStarted avail)
  | .install call => some (s.installMask call)

def Enabled (s : AffinitySched k n) : AffinityEvent k n → Prop
  | .sched event => event.Enabled s.sched
  | .start v _ => LockFree s.sched v
  | .seek call _ _ _ => call ∈ s.calls ∧ call.stage ≠ .installing ∧ LockFree s.sched call.vcpu
  | .install call => call ∈ s.calls ∧ call.stage = .installing ∧ LockFree s.sched call.vcpu

end AffinityEvent

def affinitySystem (k n : Nat) : System (AffinitySched k n) (AffinityEvent k n) where
  init s := Boot s.sched ∧ s.calls = [] ∧ ∀ v, (s.sched.vcpu v).cpuAffinity (s.sched.vcpu v).hcpu
  step s event s' := event.Enabled s ∧ event.run s = some s'

/-! ## What keeps a VCPU where it is -/

/-- Host CPUs, masks and migrations are the same. -/
structure SamePlacement (s s' : Sched (Fin k) (Fin n)) : Prop where
  migrations : s'.migrations = s.migrations
  hcpu : ∀ v, (s'.vcpu v).hcpu = (s.vcpu v).hcpu
  mask : ∀ v, (s'.vcpu v).cpuAffinity = (s.vcpu v).cpuAffinity

namespace SamePlacement

variable {s s' : Sched (Fin k) (Fin n)}

theorem stateChange (hooks : Sched.Hooks) (s : Sched (Fin k) (Fin n)) (v : Fin k)
    (newState : VcpuState) : SamePlacement s (s.stateChange hooks v newState).1 := by
  have frame := SameFrame.stateChange hooks s v newState
  exact ⟨frame.migrations, frame.hcpu, frame.mask⟩

theorem switchEnter (s : Sched (Fin k) (Fin n)) (h : Fin n) :
    SamePlacement s (s.switchEnter h) := by
  unfold Sched.switchEnter
  split
  · exact ⟨rfl, fun _ => rfl, fun _ => rfl⟩
  · next current _ =>
    have inner : SameFrame s (if (s.vcpu current).state = .running then
        ((s.setState current .ready).rqEnqueue h current).getD (s.setState current .ready)
      else s) := by
      split
      · apply (SameFrame.setState s current .ready).trans
        cases result : (s.setState current .ready).rqEnqueue h current with
        | none => exact .refl _
        | some t => exact (SameStates.rqEnqueue result).toSameFrame
      · exact .refl s
    exact ⟨inner.migrations, inner.hcpu, inner.mask⟩

theorem switchDequeue {h : Fin n} (result : s.switchDequeue h = some s') : SamePlacement s s' := by
  unfold Sched.switchDequeue at result
  split at result
  · cases result
  · next dequeued =>
    cases result
    obtain ⟨p, rest, -, rfl⟩ := Sched.rqDequeue_some dequeued
    exact ⟨rfl, fun _ => rfl, fun _ => rfl⟩

theorem switchNext {h : Fin n} (result : s.switchNext h = some s') : SamePlacement s s' := by
  have running : ∀ next, SamePlacement s (s.makeRunning h next) := by
    intro next
    have record : SameFrame s (s.setVcpu next
        { s.vcpu next with state := .running, resumed := false }) := .setVcpu s rfl rfl
    exact ⟨record.migrations, record.hcpu, record.mask⟩
  unfold Sched.switchNext at result
  split at result
  · next next _ =>
    cases result
    rw [Sched.switchTake_eq]
    split
    · exact running next
    · exact ⟨rfl, fun _ => rfl, fun _ => rfl⟩
  · cases result

end SamePlacement

/-! ## Placement -/

/-- No call for the VCPU is in progress and no migration of it is in flight. -/
def Quiet (s : AffinitySched k n) (v : Fin k) : Prop :=
  (∀ call ∈ s.calls, call.vcpu ≠ v) ∧ ∀ m ∈ s.sched.migrations, m.vcpu ≠ v

instance (s : AffinitySched k n) (v : Fin k) : Decidable (Quiet s v) :=
  inferInstanceAs (Decidable (_ ∧ _))

/-- `vmm_manager_vcpu_set_affinity` and `vmm_manager_vcpu_set_hcpu` start when nothing else moves
the VCPU, a migration finds its VCPU READY, and a host CPU is chosen where the timer has
started. -/
def AffinityEvent.Undisturbed (s : AffinitySched k n) : AffinityEvent k n → Prop
  | .start v _ => Quiet s v
  | .sched (.critical _ (.setHcpu v _)) => Quiet s v
  | .sched (.critical _ (.migrate m)) => (s.sched.vcpu m.vcpu).state = .ready
  | .seek _ _ timerStarted _ => timerStarted = true
  | _ => True

/-- Where the VCPUs are and where they are going. -/
structure Placed (s : AffinitySched k n) : Prop where
  migrating : ∀ m ∈ s.sched.migrations, m.oldHcpu = (s.sched.vcpu m.vcpu).hcpu ∧
    (s.sched.vcpu m.vcpu).cpuAffinity m.newHcpu
  single : (s.sched.migrations.map Migration.vcpu).Nodup
  placed : ∀ v, (s.sched.vcpu v).cpuAffinity (s.sched.vcpu v).hcpu ∨
    ∃ m ∈ s.sched.migrations, m.vcpu = v
  seeking : ∀ call ∈ s.calls, ∀ andMask, call.stage = .seeking andMask →
    (∃ cpu, andMask cpu) ∧
      (∀ cpu, andMask cpu → (s.sched.vcpu call.vcpu).cpuAffinity cpu ∧ call.cpuMask cpu) ∧
      ∀ m ∈ s.sched.migrations, m.vcpu ≠ call.vcpu
  installing : ∀ call ∈ s.calls, call.stage = .installing →
    (∀ m ∈ s.sched.migrations, m.vcpu = call.vcpu → call.cpuMask m.newHcpu) ∧
      (call.cpuMask (s.sched.vcpu call.vcpu).hcpu ∨ ∃ m ∈ s.sched.migrations, m.vcpu = call.vcpu)
  oneCall : (s.calls.map AffinityCall.vcpu).Nodup

theorem setHcpu_cases (s : Sched (Fin k) (Fin n)) (v : Fin k) (cpu : Fin n) :
    (s.setHcpu v cpu = (s, .ok) ∧ (s.vcpu v).hcpu = cpu) ∨
    (s.setHcpu v cpu = (s, .einvalid) ∧ ¬ (s.vcpu v).cpuAffinity cpu) ∨
    (s.vcpu v).cpuAffinity cpu ∧
      (s.setHcpu v cpu =
          ({ s with migrations := s.migrations ++ [⟨(s.vcpu v).hcpu, v, cpu⟩] }, .ok) ∨
        s.setHcpu v cpu = (s.setVcpu v { s.vcpu v with hcpu := cpu }, .ok)) := by
  unfold Sched.setHcpu
  dsimp only
  split
  · next same => exact .inl ⟨rfl, same⟩
  · split
    · next outside => exact .inr (.inl ⟨rfl, by simpa using outside⟩)
    · next inside =>
      have inMask : (s.vcpu v).cpuAffinity cpu := by simpa using inside
      split
      · exact .inr (.inr ⟨inMask, .inl rfl⟩)
      · exact .inr (.inr ⟨inMask, .inr rfl⟩)

namespace Placed

variable {s : AffinitySched k n} {v : Fin k}
variable (placed : Placed s)
include placed

variable {scheduled : Sched (Fin k) (Fin n)}

theorem same (same : SamePlacement s.sched scheduled) : Placed { s with sched := scheduled } := by
  obtain ⟨migrations, hcpu, mask⟩ := same
  refine ⟨?_, ?_, ?_, ?_, ?_, placed.oneCall⟩
  · simp only [migrations, hcpu, mask]
    exact placed.migrating
  · simp only [migrations]
    exact placed.single
  · simp only [migrations, hcpu, mask]
    exact placed.placed
  · simp only [migrations, mask]
    exact placed.seeking
  · simp only [migrations, hcpu]
    exact placed.installing

/-! ### Calls -/

theorem eraseCall (call : AffinityCall k n) :
    Placed { s with calls := s.calls.erase call } := by
  refine ⟨placed.migrating, placed.single, placed.placed, ?_, ?_, ?_⟩
  · exact fun other isCall => placed.seeking other (mem_of_mem_erase isCall)
  · exact fun other isCall => placed.installing other (mem_of_mem_erase isCall)
  · exact placed.oneCall.sublist (erase_sublist.map _)

variable {call : AffinityCall k n}

theorem pushCall (alone : ∀ other ∈ s.calls, other.vcpu ≠ call.vcpu)
    (seeking : ∀ andMask, call.stage = .seeking andMask → (∃ cpu, andMask cpu) ∧
      (∀ cpu, andMask cpu → (s.sched.vcpu call.vcpu).cpuAffinity cpu ∧ call.cpuMask cpu) ∧
      ∀ m ∈ s.sched.migrations, m.vcpu ≠ call.vcpu) (installing : call.stage = .installing →
      (∀ m ∈ s.sched.migrations, m.vcpu = call.vcpu → call.cpuMask m.newHcpu) ∧
      (call.cpuMask (s.sched.vcpu call.vcpu).hcpu ∨
        ∃ m ∈ s.sched.migrations, m.vcpu = call.vcpu)) :
    Placed { s with calls := s.calls ++ [call] } := by
  refine ⟨placed.migrating, placed.single, placed.placed, ?_, ?_, ?_⟩
  · exact forall_mem_append.mpr ⟨placed.seeking, forall_mem_singleton.mpr seeking⟩
  · exact forall_mem_append.mpr ⟨placed.installing, forall_mem_singleton.mpr installing⟩
  · exact nodup_map_append_singleton placed.oneCall alone

/-! ### Masks -/

theorem setMask {cpuMask : Fin n → Bool} (noCall : ∀ call ∈ s.calls, call.vcpu ≠ v)
    (targets : ∀ m ∈ s.sched.migrations, m.vcpu = v → cpuMask m.newHcpu)
    (here : cpuMask (s.sched.vcpu v).hcpu ∨ ∃ m ∈ s.sched.migrations, m.vcpu = v) :
    Placed (s.setMask v cpuMask) := by
  have other : ∀ w, w ≠ v → (s.setMask v cpuMask).sched.vcpu w = s.sched.vcpu w :=
    fun w different => Sched.setVcpu_vcpu_of_ne _ _ different
  have self : (s.setMask v cpuMask).sched.vcpu v =
      { s.sched.vcpu v with cpuAffinity := cpuMask } := Sched.setVcpu_vcpu _ _ _
  refine ⟨?_, placed.single, ?_, ?_, ?_, placed.oneCall⟩
  · intro m isMigration
    obtain ⟨old, inMask⟩ := placed.migrating m isMigration
    by_cases isV : m.vcpu = v
    · rw [isV, self]
      exact ⟨isV ▸ old, targets m isMigration isV⟩
    · rw [other _ isV]
      exact ⟨old, inMask⟩
  · intro w
    by_cases isV : w = v
    · rw [isV, self]
      exact here
    · rw [other w isV]
      exact placed.placed w
  · intro call isCall
    rw [other _ (noCall call isCall)]
    exact placed.seeking call isCall
  · intro call isCall
    rw [other _ (noCall call isCall)]
    exact placed.installing call isCall

/-! ### Host CPUs -/

theorem send {cpu : Fin n} (quiet : Quiet s v)
    (inMask : (s.sched.vcpu v).cpuAffinity cpu) : Placed { s with sched := { s.sched with
      migrations := s.sched.migrations ++ [⟨(s.sched.vcpu v).hcpu, v, cpu⟩] } } := by
  obtain ⟨noCall, noMigration⟩ := quiet
  refine ⟨?_, ?_, ?_, ?_, ?_, placed.oneCall⟩
  · exact forall_mem_append.mpr
      ⟨placed.migrating, forall_mem_singleton.mpr ⟨rfl, inMask⟩⟩
  · exact nodup_map_append_singleton placed.single noMigration
  · intro w
    exact (placed.placed w).imp_right
      fun ⟨m, isMigration, isW⟩ => ⟨m, mem_append_left _ isMigration, isW⟩
  · intro call isCall andMask isSeeking
    obtain ⟨nonempty, common, none⟩ := placed.seeking call isCall andMask isSeeking
    refine ⟨nonempty, common, forall_mem_append.mpr ⟨none, ?_⟩⟩
    exact forall_mem_singleton.mpr (noCall call isCall).symm
  · intro call isCall isInstalling
    obtain ⟨targets, here⟩ := placed.installing call isCall isInstalling
    refine ⟨forall_mem_append.mpr ⟨targets, forall_mem_singleton.mpr ?_⟩, ?_⟩
    · exact fun same => absurd same.symm (noCall call isCall)
    · exact here.imp_right
        fun ⟨m, isMigration, same⟩ => ⟨m, mem_append_left _ isMigration, same⟩

theorem arrive {cpu : Fin n}
    (hcpu : ∀ w, (scheduled.vcpu w).hcpu = if w = v then cpu else (s.sched.vcpu w).hcpu)
    (mask : ∀ w, (scheduled.vcpu w).cpuAffinity = (s.sched.vcpu w).cpuAffinity)
    (kept : scheduled.migrations.Sublist s.sched.migrations)
    (others : ∀ m ∈ s.sched.migrations, m.vcpu ≠ v → m ∈ scheduled.migrations)
    (done : ∀ m ∈ scheduled.migrations, m.vcpu ≠ v) (inMask : (s.sched.vcpu v).cpuAffinity cpu)
    (installing : ∀ call ∈ s.calls, call.vcpu = v → call.stage = .installing →
      call.cpuMask cpu) : Placed { s with sched := scheduled } := by
  refine ⟨?_, placed.single.sublist (kept.map _), ?_, ?_, ?_, placed.oneCall⟩
  · intro m isMigration
    show m.oldHcpu = (scheduled.vcpu m.vcpu).hcpu ∧ (scheduled.vcpu m.vcpu).cpuAffinity m.newHcpu
    rw [hcpu, mask, if_neg (done m isMigration)]
    exact placed.migrating m (kept.subset isMigration)
  · intro w
    show (scheduled.vcpu w).cpuAffinity (scheduled.vcpu w).hcpu ∨ _
    rw [hcpu, mask]
    by_cases isV : w = v
    · rw [if_pos isV, isV]
      exact .inl inMask
    · rw [if_neg isV]
      refine (placed.placed w).imp_right ?_
      exact fun ⟨m, isMigration, isW⟩ => ⟨m, others m isMigration (isW.trans_ne isV), isW⟩
  · intro call isCall andMask isSeeking
    obtain ⟨nonempty, common, none⟩ := placed.seeking call isCall andMask isSeeking
    refine ⟨nonempty, ?_, fun m isMigration => none m (kept.subset isMigration)⟩
    show ∀ cpu, andMask cpu → (scheduled.vcpu call.vcpu).cpuAffinity cpu ∧ _
    rw [mask]
    exact common
  · intro call isCall isInstalling
    obtain ⟨targets, here⟩ := placed.installing call isCall isInstalling
    refine ⟨fun m isMigration => targets m (kept.subset isMigration), ?_⟩
    show call.cpuMask (scheduled.vcpu call.vcpu).hcpu ∨ _
    rw [hcpu]
    by_cases isV : call.vcpu = v
    · rw [if_pos isV]
      exact .inl (installing call isCall isV isInstalling)
    · rw [if_neg isV]
      refine here.imp_right ?_
      exact fun ⟨m, isMigration, same⟩ => ⟨m, others m isMigration (same.trans_ne isV), same⟩

theorem setHcpu (quiet : Quiet s v) (cpu : Fin n) :
    Placed { s with sched := (s.sched.setHcpu v cpu).1 } := by
  rcases setHcpu_cases s.sched v cpu with ⟨result, -⟩ | ⟨result, -⟩ | ⟨inMask, result | result⟩
  · rw [result]
    exact placed
  · rw [result]
    exact placed
  · rw [result]
    exact placed.send quiet inMask
  · rw [result]
    obtain ⟨noCall, noMigration⟩ := quiet
    refine placed.arrive (v := v) ?_ ?_ (List.Sublist.refl _) (fun m isMigration _ => isMigration)
      noMigration inMask fun call isCall isV => absurd isV (noCall call isCall)
    · intro w
      by_cases isV : w = v
      · rw [isV, if_pos rfl, Sched.setVcpu_vcpu]
      · rw [if_neg isV, Sched.setVcpu_vcpu_of_ne _ _ isV]
    · exact s.sched.setVcpu_field v _ Vcpu.cpuAffinity rfl

variable {m : Migration (Fin k) (Fin n)}

theorem migrate (isMigration : m ∈ s.sched.migrations)
    (isReady : (s.sched.vcpu m.vcpu).state = .ready) :
    Placed { s with sched := Call.run s.sched (.migrate m) } := by
  obtain ⟨isOld, inMask⟩ := placed.migrating m isMigration
  have moved : ∀ w, (s.sched.ipiMigrateVcpu m).vcpu w =
      if w = m.vcpu then { s.sched.vcpu w with hcpu := m.newHcpu } else s.sched.vcpu w := by
    intro w
    unfold Sched.ipiMigrateVcpu
    dsimp only
    split
    · next dropped =>
      have isNew : (s.sched.vcpu m.vcpu).hcpu = m.newHcpu := by
        rcases dropped with notReady | notOld | isNew
        · exact absurd isReady notReady
        · exact absurd isOld.symm notOld
        · exact isNew
      by_cases isV : w = m.vcpu
      · rw [if_pos isV, isV, ← isNew]
      · rw [if_neg isV]
    · rw [Sched.rqEnqueue_getD_vcpu]
      by_cases isV : w = m.vcpu
      · rw [if_pos isV, isV, Sched.setVcpu_vcpu]
      · rw [if_neg isV, Sched.setVcpu_vcpu_of_ne _ _ isV, Sched.rqDetach_getD_vcpu]
  refine placed.arrive (v := m.vcpu) ?_ ?_ erase_sublist ?_
    (key_ne_of_mem_erase placed.single isMigration) inMask ?_
  · intro w
    show ((s.sched.ipiMigrateVcpu m).vcpu w).hcpu = _
    rw [moved]
    split <;> rfl
  · intro w
    show ((s.sched.ipiMigrateVcpu m).vcpu w).cpuAffinity = _
    rw [moved]
    split <;> rfl
  · intro other isOther notV
    apply (mem_erase_of_ne _).mpr isOther
    rintro rfl
    exact notV rfl
  · intro call isCall isV isInstalling
    exact (placed.installing call isCall isInstalling).1 m isMigration isV.symm

/-! ### Events -/

theorem startAffinity (quiet : Quiet s v) (cpuMask : Fin n → Bool) :
    Placed (s.startAffinity v cpuMask) := by
  obtain ⟨noCall, noMigration⟩ := quiet
  unfold AffinitySched.startAffinity
  dsimp only
  split
  · exact placed
  · next nonempty =>
    have nonempty := maskWeight_pos_iff.mp (Nat.pos_of_ne_zero nonempty)
    split
    · next inBoth =>
      rw [Bool.and_eq_true] at inBoth
      exact placed.setMask noCall (fun m isMigration isV => absurd isV (noMigration m isMigration))
        (.inl inBoth.2)
    · apply placed.pushCall noCall
      · rintro andMask ⟨⟩
        refine ⟨nonempty, ?_, noMigration⟩
        intro cpu inBoth
        rw [Bool.and_eq_true] at inBoth
        exact inBoth
      · exact nofun

theorem seekHcpu (isCall : call ∈ s.calls) (cpu : Fin n)
    (avail : Fin k → Bool) : Placed (s.seekHcpu call cpu true avail) := by
  unfold AffinitySched.seekHcpu
  split
  · next andMask isSeeking =>
    obtain ⟨nonempty, common, noMigration⟩ := placed.seeking call isCall andMask isSeeking
    have alone := key_ne_of_mem_erase placed.oneCall isCall
    have waiting := placed.eraseCall call
    have quiet : Quiet { s with calls := s.calls.erase call } call.vcpu := ⟨alone, noMigration⟩
    have inBoth := common _ (s.sched.goodHcpu_mem cpu avail
      (s.sched.vcpu call.vcpu).priority nonempty)
    generalize s.sched.goodHcpu cpu true avail (s.sched.vcpu call.vcpu).priority andMask =
      newHcpu at inBoth ⊢
    have moved := waiting.setHcpu quiet newHcpu
    rcases setHcpu_cases s.sched call.vcpu newHcpu with
      ⟨result, isNew⟩ | ⟨-, outside⟩ | ⟨-, result | result⟩
    · simp only [result] at moved ⊢
      refine moved.pushCall alone nofun ?_
      intro _
      exact ⟨fun m isMigration isV => absurd isV (noMigration m isMigration),
        .inl (isNew ▸ inBoth.2)⟩
    · exact absurd inBoth.1 outside
    · simp only [result] at moved ⊢
      refine moved.pushCall alone nofun ?_
      intro _
      refine ⟨?_, .inr ⟨_, mem_append_right _ mem_cons_self, rfl⟩⟩
      intro m isMigration isV
      rcases mem_append.mp isMigration with old | new
      · exact absurd isV (noMigration m old)
      · rw [mem_singleton.mp new]
        exact inBoth.2
    · simp only [result] at moved ⊢
      refine moved.pushCall alone nofun ?_
      intro _
      refine ⟨fun m isMigration isV => absurd isV (noMigration m isMigration), .inl ?_⟩
      show call.cpuMask ((s.sched.setVcpu call.vcpu _).vcpu call.vcpu).hcpu
      rw [Sched.setVcpu_vcpu]
      exact inBoth.2
  · exact placed

theorem installMask (isCall : call ∈ s.calls)
    (isInstalling : call.stage = .installing) : Placed (s.installMask call) := by
  obtain ⟨targets, here⟩ := placed.installing call isCall isInstalling
  exact (placed.eraseCall call).setMask (key_ne_of_mem_erase placed.oneCall isCall) targets here

theorem step {event : AffinityEvent k n} {s' : AffinitySched k n}
    (enabled : event.Enabled s) (undisturbed : event.Undisturbed s)
    (result : event.run s = some s') : Placed s' := by
  cases event with
  | sched event =>
    obtain ⟨scheduled, ran, rfl⟩ := Option.map_eq_some_iff.mp result
    cases event with
    | critical cpu call =>
      cases ran
      cases call with
      | stateChange hooks v newState => exact placed.same (.stateChange hooks s.sched v newState)
      | setHcpu v hcpu => exact placed.setHcpu undisturbed hcpu
      | migrate m => exact placed.migrate enabled.2.2.1 undisturbed
    | switchEnter h =>
      cases ran
      exact placed.same (.switchEnter s.sched h)
    | switchDequeue h => exact placed.same (.switchDequeue ran)
    | switchNext h => exact placed.same (.switchNext ran)
  | start v cpuMask =>
    cases result
    exact placed.startAffinity undisturbed cpuMask
  | seek call cpu timerStarted avail =>
    cases result
    rw [show timerStarted = true from undisturbed]
    exact placed.seekHcpu enabled.1 cpu avail
  | install call =>
    cases result
    exact placed.installMask enabled.1 enabled.2.1

end Placed

/-- In every undisturbed run, a VCPU is on a host CPU of its mask whenever no migration is in
flight. -/
theorem affinity_respected (s : AffinitySched k n)
    (reached : ((affinitySystem k n).restrict fun s event => event.Undisturbed s).Reachable s)
    (noMigration : s.sched.migrations = []) (v : Fin k) :
    (s.sched.vcpu v).cpuAffinity (s.sched.vcpu v).hcpu := by
  have placed : Placed s := by
    apply reached.invariant Placed
    · rintro s ⟨boot, noCall, inMask⟩
      refine ⟨?_, ?_, fun v => .inl (inMask v), ?_, ?_, ?_⟩
      · simp [boot.noMigration]
      · simp [boot.noMigration]
      · simp [noCall]
      · simp [noCall]
      · simp [noCall]
    · rintro s event s' placed ⟨undisturbed, enabled, result⟩
      exact placed.step enabled undisturbed result
  rcases placed.placed v with inside | ⟨m, isMigration, -⟩
  · exact inside
  · rw [noMigration] at isMigration
    cases isMigration

/-! ## A VCPU that may run on two host CPUs -/

instance (s : AffinitySched k n) : (event : AffinityEvent k n) → Decidable (event.Enabled s)
  | .sched event => inferInstanceAs (Decidable (event.Enabled s.sched))
  | .start v _ => inferInstanceAs (Decidable (LockFree s.sched v))
  | .seek call _ _ _ => inferInstanceAs (Decidable (call ∈ s.calls ∧ call.stage ≠ .installing ∧
      LockFree s.sched call.vcpu))
  | .install call => inferInstanceAs (Decidable (call ∈ s.calls ∧ call.stage = .installing ∧
      LockFree s.sched call.vcpu))

instance (s : AffinitySched k n) : (event : AffinityEvent k n) → Decidable (event.Undisturbed s)
  | .sched (.critical _ (.stateChange _ _ _)) => isTrue trivial
  | .sched (.critical _ (.setHcpu v _)) => inferInstanceAs (Decidable (Quiet s v))
  | .sched (.critical _ (.migrate m)) =>
    inferInstanceAs (Decidable ((s.sched.vcpu m.vcpu).state = .ready))
  | .sched (.switchEnter _) => isTrue trivial
  | .sched (.switchDequeue _) => isTrue trivial
  | .sched (.switchNext _) => isTrue trivial
  | .start v _ => inferInstanceAs (Decidable (Quiet s v))
  | .seek _ _ timerStarted _ => inferInstanceAs (Decidable (timerStarted = true))
  | .install _ => isTrue trivial

def oneVcpu : AffinitySched 1 2 where
  sched :=
    { vcpu _ := ⟨.unknown, 0, 1, fun _ => true, false, false⟩
      rq _ _ := []
      currentVcpu _ := none
      phase _ := .idle
      migrations := [] }
  calls := []

theorem oneVcpu_init : (affinitySystem 1 2).init oneVcpu := by
  refine ⟨⟨?_, ?_, ?_, ?_, ?_⟩, rfl, fun _ => rfl⟩
  · exact fun _ => rfl
  · exact fun _ _ => rfl
  · exact fun _ => rfl
  · exact fun _ => rfl
  · rfl

def onlyOne : Fin 2 → Bool := fun cpu => cpu = 1

/-- The VCPU is made READY on host CPU 0, and then may only run on host CPU 1. -/
def restrictToOne : List (AffinityEvent 1 2) :=
  [.sched (.critical 0 (.stateChange succeed 0 .reset)),
    .sched (.critical 0 (.stateChange succeed 0 .ready)), .start 0 onlyOne,
    .seek ⟨0, onlyOne, .seeking onlyOne⟩ 0 true fun _ => false, .install ⟨0, onlyOne, .installing⟩]

/-- The migration is delivered while the VCPU is READY. -/
theorem affinity_respected_ready :
    ∃ s : AffinitySched 1 2, s.sched.migrations = [] ∧ (s.sched.vcpu 0).cpuAffinity = onlyOne ∧
      (s.sched.vcpu 0).cpuAffinity (s.sched.vcpu 0).hcpu := by
  have start : ((affinitySystem 1 2).restrict fun s event => event.Undisturbed s).Reachable
      oneVcpu := .start oneVcpu_init
  refine ⟨_, ?_, ?_, affinity_respected _ (start.replay
    (fun s event => event.Enabled s ∧ event.Undisturbed s) AffinityEvent.run
    (restrictToOne ++ [.sched (.critical 0 (.migrate ⟨0, 0, 1⟩))])
    (fun ⟨enabled, undisturbed⟩ result => ⟨undisturbed, enabled, result⟩) (by decide)) ?_ 0⟩
  · decide
  · decide
  · decide

/-- The VCPU is paused before the migration is delivered, and stays on host CPU 0. -/
theorem affinity_migration_dropped :
    ∃ s : AffinitySched 1 2, (affinitySystem 1 2).Reachable s ∧ s.sched.migrations = [] ∧
      (s.sched.vcpu 0).hcpu = 0 ∧ (s.sched.vcpu 0).cpuAffinity = onlyOne ∧
      ¬ (s.sched.vcpu 0).cpuAffinity (s.sched.vcpu 0).hcpu := by
  refine ⟨_, .replay (.start oneVcpu_init)
    (fun s event => event.Enabled s) AffinityEvent.run
    (restrictToOne ++ [.sched (.critical 0 (.stateChange succeed 0 .paused)),
      .sched (.critical 0 (.migrate ⟨0, 0, 1⟩))])
    And.intro (by decide), ?_, ?_, ?_, ?_⟩
  · decide
  · decide
  · decide
  · decide

end Xvisor.Scheduler
