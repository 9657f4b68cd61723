import Xvisor.Lib.SearchTree
import Xvisor.Lib.System
import Xvisor.Lib.Word

/-!
# Scheduling algorithms

`vmm_schedalgo_prr` keeps one list per priority, `vmm_schedalgo_prm` one tree
and one counter per priority. Both are built behind the same interface.
-/

namespace Xvisor.Scheduler

open Function Lib Nat

def maxPriority : Nat := 7

/-- The fields of `struct vmm_vcpu` that a scheduling algorithm reads; `schedPriv` tells whether
the queue entry is allocated. -/
structure VcpuInfo where
  priority : Nat
  periodicity : Nat
  timeSlice : Nat
  schedPriv : Bool
  priority_le : priority ≤ maxPriority

/-- The array of VCPUs, which is indexed by a 32-bit number. -/
structure VcpuArray where
  size : Nat
  size_lt : size < 2 ^ 32
  info : Fin size → VcpuInfo

inductive RqStatus where
  | ok
  | efail
  deriving DecidableEq, Repr

/-- The interface of `vmm_schedalgo.h`. A dequeue without result returns `VMM_ENOTAVAIL`. -/
structure Schedalgo (V R : Type) where
  rqCreate : R
  rqLength : R → Nat → Nat
  rqEnqueue : R → V → R × RqStatus
  rqDequeue : R → Option (V × Nat × R)
  rqDetach : R → V → R × RqStatus
  rqPremptNeeded : R → V → Bool

/-! ## The loops over the priorities -/

/-- The first loop of a dequeue: one more than the highest busy priority below `p`, or zero. -/
def busyPriority (busy : Nat → Bool) : Nat → Nat
  | 0 => 0
  | p + 1 => if busy p then p + 1 else busyPriority busy p

/-- The loop of `vmm_schedalgo_rq_prempt_needed` from priority `p` down. -/
def busyAbove (busy : Nat → Bool) (priority : Nat) : Nat → Bool
  | 0 => false
  | p + 1 =>
    if priority < p + 1 then
      if busy (p + 1) then true else busyAbove busy priority p
    else false

variable {busy : Nat → Bool} {bound : Nat}

theorem busyPriority_eq_zero_iff : busyPriority busy bound = 0 ↔ ∀ p < bound, busy p = false := by
  induction bound with
  | zero => simp [busyPriority]
  | succ bound ih =>
    unfold busyPriority
    split
    · next isBusy =>
      refine iff_of_false (succ_ne_zero _) ?_
      intro none
      rw [none bound bound.lt_succ_self] at isBusy
      cases isBusy
    · next notBusy =>
      rw [ih]
      constructor
      · intro none p inRange
        rcases Nat.lt_succ_iff_lt_or_eq.mp inRange with below | rfl
        · exact none p below
        · exact Bool.eq_false_iff.mpr notBusy
      · intro none p inRange
        exact none p (lt_succ_of_lt inRange)

theorem busyPriority_eq_succ {p : Nat} (found : busyPriority busy bound = p + 1) :
    p < bound ∧ busy p ∧ ∀ q, p < q → q < bound → busy q = false := by
  induction bound with
  | zero => cases found
  | succ bound ih =>
    unfold busyPriority at found
    split at found
    · next isBusy =>
      obtain rfl : bound = p := Nat.succ.inj found
      exact ⟨bound.lt_succ_self, isBusy, fun q above below => by omega⟩
    · next notBusy =>
      obtain ⟨inRange, isBusy, above⟩ := ih found
      refine ⟨lt_succ_of_lt inRange, isBusy, ?_⟩
      intro q isAbove below
      rcases Nat.lt_succ_iff_lt_or_eq.mp below with lower | rfl
      · exact above q isAbove lower
      · exact Bool.eq_false_iff.mpr notBusy

theorem busyAbove_iff {priority : Nat} :
    busyAbove busy priority bound ↔ ∃ p, priority < p ∧ p ≤ bound ∧ busy p := by
  induction bound with
  | zero =>
    refine iff_of_false (by simp [busyAbove]) ?_
    rintro ⟨p, above, below, -⟩
    omega
  | succ bound ih =>
    unfold busyAbove
    split
    · next above =>
      split
      · next isBusy => exact iff_of_true rfl ⟨bound + 1, above, le_refl _, isBusy⟩
      · next notBusy =>
        rw [ih]
        constructor
        · rintro ⟨p, isAbove, below, isBusy⟩
          exact ⟨p, isAbove, le_succ_of_le below, isBusy⟩
        · rintro ⟨p, isAbove, below, isBusy⟩
          refine ⟨p, isAbove, le_of_lt_succ (lt_of_le_of_ne below ?_), isBusy⟩
          rintro rfl
          exact notBusy isBusy
    · next notAbove =>
      refine iff_of_false (by simp) ?_
      rintro ⟨p, isAbove, below, -⟩
      omega

/-! ## `vmm_schedalgo_prr` -/

section Algorithms

variable (vcpus : VcpuArray)

abbrev PrrRq (vcpus : VcpuArray) := Nat → List (Fin vcpus.size)

/-- A detach does not look at the queue: `list_del_init` unlinks the entry from whatever list it
is on, and an entry on no list is linked to itself. -/
def prr : Schedalgo (Fin vcpus.size) (PrrRq vcpus) where
  rqCreate _ := []
  rqLength rq priority := (rq priority).length
  rqEnqueue rq vcpu :=
    let info := vcpus.info vcpu
    if !info.schedPriv then (rq, .efail)
    else (update rq info.priority (rq info.priority ++ [vcpu]), .ok)
  rqDequeue rq :=
    match busyPriority (fun p => !(rq p).isEmpty) (maxPriority + 1) with
    | 0 => none
    | p + 1 =>
      match rq p with
      | [] => none
      | next :: rest => some (next, (vcpus.info next).timeSlice, update rq p rest)
  rqDetach rq vcpu := if !(vcpus.info vcpu).schedPriv then (rq, .efail)
    else (fun p => (rq p).filter (· ≠ vcpu), .ok)
  rqPremptNeeded rq current :=
    busyAbove (fun p => !(rq p).isEmpty) (vcpus.info current).priority maxPriority

/-! ## `vmm_schedalgo_prm` -/

/-- The counters and trees of a queue, and the periodicity stored in each queue entry. -/
structure PrmRq (vcpus : VcpuArray) where
  count : Nat → Nat
  root : Nat → SearchTree (Fin vcpus.size)
  periodicity : Fin vcpus.size → Nat

/-- Red-black tree operations. `rb_erase` of an entry that is not in the tree follows the links
that the entry was left with, so nothing is assumed about its result. -/
structure RbOps (V : Type) [DecidableEq V] extends Rebalance V where
  eraseUnlinked : SearchTree V → V → SearchTree V

variable {vcpus} in
def RbOps.rbErase (rb : RbOps (Fin vcpus.size)) (tree : SearchTree (Fin vcpus.size))
    (vcpu : Fin vcpus.size) : SearchTree (Fin vcpus.size) :=
  if vcpu ∈ tree.toList then rb.erase tree vcpu else rb.eraseUnlinked tree vcpu

/-- Where the descent of an enqueued VCPU goes from the entry of another one. -/
def prmDirection (rq : PrmRq vcpus) (vcpu entry : Fin vcpus.size) : Ordering :=
  if (vcpus.info vcpu).periodicity < rq.periodicity entry then .lt
  else if rq.periodicity entry ≤ (vcpus.info vcpu).periodicity then .gt
  else .eq

def prmRemove (rb : RbOps (Fin vcpus.size)) (rq : PrmRq vcpus) (p : Nat)
    (vcpu : Fin vcpus.size) : PrmRq vcpus where
  count := update rq.count p (Word.toU32 (rq.count p + (2 ^ 32 - 1)))
  root := update rq.root p (rb.rbErase (rq.root p) vcpu)
  periodicity := update rq.periodicity vcpu 0

/-- A detach takes the entry out of the tree and counts down without looking whether it is
queued. -/
def prm (rb : RbOps (Fin vcpus.size)) : Schedalgo (Fin vcpus.size) (PrmRq vcpus) where
  rqCreate := ⟨fun _ => 0, fun _ => .leaf, fun _ => 0⟩
  rqLength rq priority := rq.count priority
  rqEnqueue rq vcpu :=
    let info := vcpus.info vcpu
    if !info.schedPriv then (rq, .efail)
    else
      match (rq.root info.priority).link (prmDirection vcpus rq vcpu) vcpu with
      | none => (rq, .efail)
      | some tree =>
        ({ count := update rq.count info.priority
              (Word.toU32 (rq.count info.priority + 1))
           root := update rq.root info.priority (rb.insertColor tree)
           periodicity := update rq.periodicity vcpu info.periodicity }, .ok)
  rqDequeue rq :=
    match busyPriority (fun p => rq.count p ≠ 0) (maxPriority + 1) with
    | 0 => none
    | p + 1 =>
      match (rq.root p).leftmost with
      | none => none
      | some next => some (next, (vcpus.info next).timeSlice, prmRemove vcpus rb rq p next)
  rqDetach rq vcpu :=
    let info := vcpus.info vcpu
    if !info.schedPriv then (rq, .efail)
    else (prmRemove vcpus rb rq info.priority vcpu, .ok)
  rqPremptNeeded rq current :=
    busyAbove (fun p => rq.count p ≠ 0) (vcpus.info current).priority maxPriority

end Algorithms

/-! ## Runs -/

inductive RqCall (V : Type) where
  | enqueue (vcpu : V)
  | dequeue
  | detach (vcpu : V)
  deriving DecidableEq, Repr

/-- A run queue, and the VCPUs that were enqueued and not taken out since, in that order. -/
structure RqState (V R : Type) where
  rq : R
  queued : List V

namespace Schedalgo

variable {V R : Type} [DecidableEq V]

def next (algo : Schedalgo V R) (state : RqState V R) : RqCall V → RqState V R
  | .enqueue vcpu =>
    match algo.rqEnqueue state.rq vcpu with
    | (rq, .ok) => ⟨rq, state.queued ++ [vcpu]⟩
    | (rq, .efail) => ⟨rq, state.queued⟩
  | .dequeue =>
    match algo.rqDequeue state.rq with
    | none => state
    | some (vcpu, _, rq) => ⟨rq, state.queued.filter (· ≠ vcpu)⟩
  | .detach vcpu =>
    match algo.rqDetach state.rq vcpu with
    | (rq, .ok) => ⟨rq, state.queued.filter (· ≠ vcpu)⟩
    | (rq, .efail) => ⟨rq, state.queued⟩

def system (algo : Schedalgo V R) : System (RqState V R) (RqCall V) where
  init state := state = ⟨algo.rqCreate, []⟩
  step state call state' :=
    (∀ vcpu, call = .enqueue vcpu → vcpu ∉ state.queued) ∧ state' = algo.next state call

end Schedalgo

end Xvisor.Scheduler
