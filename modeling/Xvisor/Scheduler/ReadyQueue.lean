import Mathlib.Data.Fintype.Card
import Mathlib.Data.Prod.Lex
import Xvisor.Lib.PriorityQueue
import Xvisor.Scheduler.Schedalgo

/-!
# Ready queues are priority queues

Both scheduling algorithms answer as a stable priority queue of the queued VCPUs would.
-/

namespace Xvisor.Scheduler

open Function List Lib

variable {vcpus : VcpuArray} {R : Type}

structure Conforms {κ : Type} [LinearOrder κ] (algo : Schedalgo (Fin vcpus.size) R)
    (key : Fin vcpus.size → κ) (state : RqState (Fin vcpus.size) R) : Prop where
  dequeue :
    match algo.rqDequeue state.rq with
    | none => state.queued = []
    | some (next, slice, _) => FirstMax key state.queued next ∧
      slice = (vcpus.info next).timeSlice
  length : ∀ priority, algo.rqLength state.rq priority =
    state.queued.countP fun vcpu => (vcpus.info vcpu).priority = priority
  prempt : ∀ current, algo.rqPremptNeeded state.rq current ↔
    ∃ vcpu ∈ state.queued, (vcpus.info current).priority < (vcpus.info vcpu).priority

def prrKey (vcpus : VcpuArray) (vcpu : Fin vcpus.size) : Nat := (vcpus.info vcpu).priority

def prmKey (vcpus : VcpuArray) (vcpu : Fin vcpus.size) : Nat ×ₗ Natᵒᵈ :=
  toLex ((vcpus.info vcpu).priority, OrderDual.toDual (vcpus.info vcpu).periodicity)

def atPriority (vcpus : VcpuArray) (p : Nat) (vcpu : Fin vcpus.size) : Bool :=
  (vcpus.info vcpu).priority = p

variable {vcpu : Fin vcpus.size} {p : Nat}

@[simp] theorem atPriority_iff : atPriority vcpus p vcpu ↔ (vcpus.info vcpu).priority = p := by
  simp [atPriority]

variable {queued : List (Fin vcpus.size)}

theorem nodup_append_singleton (nodup : queued.Nodup)
    (fresh : vcpu ∉ queued) : (queued ++ [vcpu]).Nodup := by
  rw [← concat_eq_append]
  exact nodup.concat fresh

theorem erase_eq_filter_ne (nodup : queued.Nodup)
    (vcpu : Fin vcpus.size) : queued.erase vcpu = queued.filter (· ≠ vcpu) := by
  rw [nodup.erase_eq_filter]
  apply filter_congr
  intro other _
  grind

theorem filter_here : [vcpu].filter (atPriority vcpus (vcpus.info vcpu).priority) = [vcpu] :=
  filter_cons_of_pos (atPriority_iff.mpr rfl)

theorem filter_notHere (other : p ≠ (vcpus.info vcpu).priority) :
    [vcpu].filter (atPriority vcpus p) = [] :=
  filter_cons_of_neg fun here => other (atPriority_iff.mp here).symm

theorem filter_ne_elsewhere {q : Nat} (other : q ≠ p) (isPriority : atPriority vcpus p vcpu) :
    (queued.filter (atPriority vcpus q)).filter (· ≠ vcpu) =
      queued.filter (atPriority vcpus q) := by
  apply filter_eq_self.mpr
  intro w inList
  apply decide_eq_true
  rintro rfl
  exact other ((atPriority_iff.mp (mem_filter.mp inList).2).symm.trans
    (atPriority_iff.mp isPriority))

/-! ## Busy priorities -/

def Busy (vcpus : VcpuArray) (queued : List (Fin vcpus.size)) (busy : Nat → Bool) : Prop :=
  ∀ p, busy p ↔ ∃ vcpu ∈ queued, (vcpus.info vcpu).priority = p

section Busy

variable {queued : List (Fin vcpus.size)} {busy : Nat → Bool}

section

variable (isBusy : Busy vcpus queued busy)
include isBusy

theorem Busy.queued_eq_nil (none : busyPriority busy (maxPriority + 1) = 0) : queued = [] := by
  apply eq_nil_iff_forall_not_mem.mpr
  intro vcpu isQueued
  have bounded := Nat.lt_succ_of_le (vcpus.info vcpu).priority_le
  have idle := busyPriority_eq_zero_iff.mp none _ bounded
  rw [(isBusy _).mpr ⟨vcpu, isQueued, rfl⟩] at idle
  cases idle

theorem Busy.highest (found : busyPriority busy (maxPriority + 1) = p + 1) :
    (∃ vcpu ∈ queued, (vcpus.info vcpu).priority = p) ∧
      ∀ vcpu ∈ queued, (vcpus.info vcpu).priority ≤ p := by
  obtain ⟨-, busyHere, above⟩ := busyPriority_eq_succ found
  refine ⟨(isBusy p).mp busyHere, ?_⟩
  intro vcpu isQueued
  by_contra higher
  have bounded := Nat.lt_succ_of_le (vcpus.info vcpu).priority_le
  have idle := above _ (Nat.lt_of_not_le higher) bounded
  rw [(isBusy _).mpr ⟨vcpu, isQueued, rfl⟩] at idle
  cases idle

theorem Busy.prempt (current : Fin vcpus.size) :
    busyAbove busy (vcpus.info current).priority maxPriority ↔
      ∃ vcpu ∈ queued, (vcpus.info current).priority < (vcpus.info vcpu).priority := by
  rw [busyAbove_iff]
  constructor
  · rintro ⟨p, above, -, busyHere⟩
    obtain ⟨vcpu, isQueued, rfl⟩ := (isBusy p).mp busyHere
    exact ⟨vcpu, isQueued, above⟩
  · rintro ⟨vcpu, isQueued, above⟩
    exact ⟨_, above, (vcpus.info vcpu).priority_le, (isBusy _).mpr ⟨vcpu, isQueued, rfl⟩⟩

end

theorem filter_atPriority_ne_nil_iff :
    queued.filter (atPriority vcpus p) ≠ [] ↔
      ∃ vcpu ∈ queued, (vcpus.info vcpu).priority = p := by
  simp [filter_eq_nil_iff]

end Busy

/-! ## `vmm_schedalgo_prr` -/

/-- Every list holds the queued VCPUs of its priority in the order of their arrival. -/
structure PrrRefines (state : RqState (Fin vcpus.size) (PrrRq vcpus)) : Prop where
  nodup : state.queued.Nodup
  list : ∀ p, state.rq p = state.queued.filter (atPriority vcpus p)

namespace PrrRefines

variable {state : RqState (Fin vcpus.size) (PrrRq vcpus)}

theorem busy (refines : PrrRefines state) :
    Busy vcpus state.queued fun p => !(state.rq p).isEmpty := by
  intro p
  rw [← filter_atPriority_ne_nil_iff, ← refines.list]
  simp

variable {rest : List (Fin vcpus.size)}

section

variable (refines : PrrRefines state)
include refines

theorem remove {next : Fin vcpus.size} (isList : state.rq p = next :: rest) :
    PrrRefines (⟨update state.rq p rest, state.queued.filter (· ≠ next)⟩ :
      RqState (Fin vcpus.size) (PrrRq vcpus)) := by
  refine ⟨refines.nodup.filter _, ?_⟩
  intro q
  have isPriority : atPriority vcpus p next := by
    have inList : next ∈ state.rq p := isList ▸ mem_cons_self
    rw [refines.list] at inList
    exact (mem_filter.mp inList).2
  show update state.rq p rest q = _
  rw [filter_comm]
  by_cases same : q = p
  · rw [same, update_self, ← erase_eq_filter_ne (refines.nodup.filter _), ← refines.list, isList,
      erase_cons_head]
  · rw [update_of_ne same, filter_ne_elsewhere same isPriority, refines.list]

theorem next (call : RqCall (Fin vcpus.size))
    (fresh : ∀ vcpu, call = .enqueue vcpu → vcpu ∉ state.queued) :
    PrrRefines ((prr vcpus).next state call) := by
  cases call with
  | enqueue vcpu =>
    simp only [Schedalgo.next, prr]
    by_cases entry : (vcpus.info vcpu).schedPriv
    · simp only [entry, Bool.not_true]
      refine ⟨nodup_append_singleton refines.nodup (fresh vcpu rfl), ?_⟩
      intro p
      show update state.rq _ _ p = (state.queued ++ [vcpu]).filter _
      rw [filter_append, ← refines.list]
      by_cases same : p = (vcpus.info vcpu).priority
      · rw [same, update_self, filter_here]
      · rw [update_of_ne same, filter_notHere same, append_nil]
    · simp only [entry, Bool.not_false]
      exact refines
  | dequeue =>
    simp only [Schedalgo.next, prr]
    split
    · exact refines
    · next isDequeued =>
      split at isDequeued
      · cases isDequeued
      · split at isDequeued
        · cases isDequeued
        · next isList =>
          cases isDequeued
          exact refines.remove isList
  | detach vcpu =>
    simp only [Schedalgo.next, prr]
    by_cases entry : (vcpus.info vcpu).schedPriv
    · simp only [entry, Bool.not_true]
      refine ⟨refines.nodup.filter _, ?_⟩
      intro p
      show (state.rq p).filter _ = (state.queued.filter _).filter _
      rw [filter_comm, ← refines.list]
    · simp only [entry, Bool.not_false]
      exact refines

theorem firstMax {next : Fin vcpus.size}
    (highest : ∀ vcpu ∈ state.queued, (vcpus.info vcpu).priority ≤ p)
    (isList : state.rq p = next :: rest) : FirstMax (prrKey vcpus) state.queued next := by
  rw [refines.list] at isList
  have isPriority : (vcpus.info next).priority = p := by
    have inList : next ∈ state.queued.filter (atPriority vcpus p) := isList ▸ mem_cons_self
    exact atPriority_iff.mp (mem_filter.mp inList).2
  apply firstMax_of_bucket (atPriority vcpus p) isList
  · intro other _ inBucket
    exact (atPriority_iff.mp inBucket).trans isPriority.symm
  · intro other isQueued notInBucket
    rw [prrKey, prrKey, isPriority]
    exact lt_of_le_of_ne (highest other isQueued) fun same =>
      notInBucket (atPriority_iff.mpr same)

theorem conforms : Conforms (prr vcpus) (prrKey vcpus) state where
  dequeue := by
    simp only [prr]
    split
    · next isNone =>
      split at isNone
      · next idle => exact refines.busy.queued_eq_nil idle
      · next p found =>
        split at isNone
        · next isEmpty =>
          obtain ⟨busy, -⟩ := refines.busy.highest found
          rw [← filter_atPriority_ne_nil_iff, ← refines.list] at busy
          exact absurd isEmpty busy
        · cases isNone
    · next isSome =>
      split at isSome
      · cases isSome
      · next p found =>
        split at isSome
        · cases isSome
        · next isList =>
          cases isSome
          exact ⟨refines.firstMax (refines.busy.highest found).2 isList, rfl⟩
  length priority := by
    rw [countP_eq_length_filter]
    exact congrArg List.length (refines.list priority)
  prempt current := refines.busy.prempt current

theorem detach_unqueued {vcpu : Fin vcpus.size}
    (notQueued : vcpu ∉ state.queued) : ((prr vcpus).rqDetach state.rq vcpu).1 = state.rq := by
  simp only [prr]
  split
  · rfl
  · funext p
    apply filter_eq_self.mpr
    intro other inList
    rw [refines.list] at inList
    apply decide_eq_true
    rintro rfl
    exact notQueued (mem_filter.mp inList).1

end

end PrrRefines

/-! ## `vmm_schedalgo_prm` -/

def hasPeriodicity (vcpus : VcpuArray) (k : Nat) (vcpu : Fin vcpus.size) : Bool :=
  (vcpus.info vcpu).periodicity = k

@[simp] theorem hasPeriodicity_iff {k : Nat} :
    hasPeriodicity vcpus k vcpu ↔ (vcpus.info vcpu).periodicity = k := by
  simp [hasPeriodicity]

/-- Every tree holds the queued VCPUs of its priority, ordered by periodicity and then by
arrival, and every counter counts them. -/
structure PrmRefines (state : RqState (Fin vcpus.size) (PrmRq vcpus)) : Prop where
  nodup : state.queued.Nodup
  stored : ∀ vcpu ∈ state.queued, state.rq.periodicity vcpu = (vcpus.info vcpu).periodicity
  count : ∀ p, state.rq.count p = (state.queued.filter (atPriority vcpus p)).length
  sorted : ∀ p, (state.rq.root p).toList.Pairwise fun low high =>
    (vcpus.info low).periodicity ≤ (vcpus.info high).periodicity
  order : ∀ p k, (state.rq.root p).toList.filter (hasPeriodicity vcpus k) =
    (state.queued.filter (atPriority vcpus p)).filter (hasPeriodicity vcpus k)

namespace PrmRefines

variable {state : RqState (Fin vcpus.size) (PrmRq vcpus)} {rb : RbOps (Fin vcpus.size)}
  (refines : PrmRefines state)
include refines

theorem perm (p : Nat) :
    (state.rq.root p).toList.Perm (state.queued.filter (atPriority vcpus p)) := by
  apply perm_iff_count.mpr
  intro vcpu
  have same := congrArg (List.count vcpu) (refines.order p (vcpus.info vcpu).periodicity)
  rw [count_filter (hasPeriodicity_iff.mpr rfl), count_filter (hasPeriodicity_iff.mpr rfl)] at same
  exact same

variable {p : Nat} {vcpu : Fin vcpus.size}

theorem mem_root_iff :
    vcpu ∈ (state.rq.root p).toList ↔
      vcpu ∈ state.queued ∧ (vcpus.info vcpu).priority = p := by
  rw [(refines.perm p).mem_iff, mem_filter, atPriority_iff]

theorem nodup_root (p : Nat) : (state.rq.root p).toList.Nodup :=
  (refines.perm p).nodup_iff.mpr (refines.nodup.filter _)

theorem count_lt (p : Nat) : (state.queued.filter (atPriority vcpus p)).length < 2 ^ 32 := by
  have short := (refines.nodup.filter (atPriority vcpus p)).length_le_card
  rw [Fintype.card_fin] at short
  exact short.trans_lt vcpus.size_lt

theorem busy : Busy vcpus state.queued fun p => state.rq.count p ≠ 0 := by
  intro p
  show decide (state.rq.count p ≠ 0) = true ↔ _
  rw [← filter_atPriority_ne_nil_iff, refines.count]
  simp

/-! ### Linking -/

theorem direction_of_mem (vcpu : Fin vcpus.size)
    {entry : Fin vcpus.size} (inTree : entry ∈ (state.rq.root p).toList) :
    prmDirection vcpus state.rq vcpu entry =
      if (vcpus.info vcpu).periodicity < (vcpus.info entry).periodicity then .lt else .gt := by
  rw [prmDirection, refines.stored entry (refines.mem_root_iff.mp inTree).1]
  split
  · rfl
  · next notLess => rw [if_pos (Nat.le_of_not_lt notLess)]

theorem directed (vcpu : Fin vcpus.size) (p : Nat) :
    SearchTree.Directed (prmDirection vcpus state.rq vcpu) (state.rq.root p).toList := by
  apply (refines.sorted p).imp_of_mem
  intro low high isLow isHigh ordered
  rw [refines.direction_of_mem vcpu isLow, refines.direction_of_mem vcpu isHigh]
  constructor
  all_goals split_ifs <;> first | omega | simp

theorem link_isSome (vcpu : Fin vcpus.size) (p : Nat) :
    ∃ tree, (state.rq.root p).link (prmDirection vcpus state.rq vcpu) vcpu = some tree := by
  apply SearchTree.link_isSome
  intro entry inTree
  rw [refines.direction_of_mem vcpu inTree]
  split <;> simp

variable {tree : SearchTree (Fin vcpus.size)}

theorem link_filter
    (linked : (state.rq.root p).link (prmDirection vcpus state.rq vcpu) vcpu = some tree) :
    (tree.toList.Pairwise fun low high =>
        (vcpus.info low).periodicity ≤ (vcpus.info high).periodicity) ∧
      ∀ k, tree.toList.filter (hasPeriodicity vcpus k) =
        (state.rq.root p).toList.filter (hasPeriodicity vcpus k) ++
          [vcpu].filter (hasPeriodicity vcpus k) := by
  obtain ⟨before, after, same, grown, turns⟩ := SearchTree.link_some linked
  obtain ⟨goRight, goLeft⟩ := turns (refines.directed vcpu p)
  have low : ∀ entry ∈ before,
      (vcpus.info entry).periodicity ≤ (vcpus.info vcpu).periodicity := by
    intro entry inBefore
    have turned := goRight entry inBefore
    rw [refines.direction_of_mem vcpu (same ▸ mem_append_left _ inBefore)] at turned
    split at turned
    · cases turned
    · next notLess => exact Nat.le_of_not_lt notLess
  have high : ∀ entry ∈ after,
      (vcpus.info vcpu).periodicity < (vcpus.info entry).periodicity := by
    intro entry inAfter
    have turned := goLeft entry inAfter
    rw [refines.direction_of_mem vcpu (same ▸ mem_append_right _ inAfter)] at turned
    split at turned
    · next less => exact less
    · cases turned
  have sorted := refines.sorted p
  rw [same, pairwise_append] at sorted
  obtain ⟨sortedBefore, sortedAfter, across⟩ := sorted
  rw [grown, same]
  constructor
  · refine pairwise_append.mpr ⟨sortedBefore, pairwise_cons.mpr ⟨?_, sortedAfter⟩, ?_⟩
    · intro entry inAfter
      exact (high entry inAfter).le
    · intro entry inBefore
      exact forall_mem_cons.mpr ⟨low entry inBefore, across entry inBefore⟩
  · intro k
    rw [filter_append, filter_append]
    by_cases isPeriodicity : hasPeriodicity vcpus k vcpu
    · have noneAfter : after.filter (hasPeriodicity vcpus k) = [] := by
        apply filter_eq_nil_iff.mpr
        intro entry inAfter has
        have := high entry inAfter
        rw [hasPeriodicity_iff.mp has, hasPeriodicity_iff.mp isPeriodicity] at this
        exact absurd this (lt_irrefl k)
      rw [filter_cons_of_pos isPeriodicity, filter_cons_of_pos isPeriodicity, noneAfter,
        append_nil, filter_nil]
    · rw [filter_cons_of_neg isPeriodicity, filter_cons_of_neg isPeriodicity,
        filter_nil, append_nil]

theorem enqueue (fresh : vcpu ∉ state.queued)
    (linked : (state.rq.root (vcpus.info vcpu).priority).link
      (prmDirection vcpus state.rq vcpu) vcpu = some tree) :
    PrmRefines (⟨{
        count := update state.rq.count (vcpus.info vcpu).priority
          (Word.toU32 (state.rq.count (vcpus.info vcpu).priority + 1))
        root := update state.rq.root (vcpus.info vcpu).priority (rb.insertColor tree)
        periodicity := update state.rq.periodicity vcpu (vcpus.info vcpu).periodicity },
      state.queued ++ [vcpu]⟩ : RqState (Fin vcpus.size) (PrmRq vcpus)) := by
  obtain ⟨sorted, filtered⟩ := refines.link_filter linked
  have nodup := nodup_append_singleton refines.nodup fresh
  refine ⟨nodup, ?_, ?_, ?_, ?_⟩
  · intro other isQueued
    show update state.rq.periodicity _ _ other = _
    by_cases same : other = vcpu
    · rw [same, update_self]
    · rw [update_of_ne same]
      apply refines.stored
      simpa [same] using isQueued
  · intro p
    show update state.rq.count _ _ p = _
    rw [filter_append, length_append]
    by_cases same : p = (vcpus.info vcpu).priority
    · have short := (nodup.filter (atPriority vcpus p)).length_le_card
      have size := vcpus.size_lt
      rw [Fintype.card_fin, filter_append, length_append, same, filter_here] at short
      rw [same, update_self, filter_here, refines.count]
      exact Word.toU32_of_lt (short.trans_lt size)
    · rw [update_of_ne same, filter_notHere same, refines.count, length_nil, add_zero]
  · refine (forall_update_iff _ fun _ (tree : SearchTree _) => tree.toList.Pairwise _).mpr
      ⟨?_, fun p _ => refines.sorted p⟩
    rw [Rebalance.toList_insertColor]
    exact sorted
  · intro p k
    show ((update state.rq.root _ _ p : SearchTree _)).toList.filter _ = _
    rw [filter_append]
    by_cases same : p = (vcpus.info vcpu).priority
    · rw [same, update_self, Rebalance.toList_insertColor, filter_here, filtered,
        filter_append, refines.order]
    · rw [update_of_ne same, filter_notHere same, append_nil, refines.order]

/-! ### Removing -/

theorem remove (isQueued : vcpu ∈ state.queued) (isPriority : (vcpus.info vcpu).priority = p) :
    PrmRefines (⟨prmRemove vcpus rb state.rq p vcpu, state.queued.filter (· ≠ vcpu)⟩ :
      RqState (Fin vcpus.size) (PrmRq vcpus)) := by
  have inTree := refines.mem_root_iff.mpr ⟨isQueued, isPriority⟩
  have erased : (rb.rbErase (state.rq.root p) vcpu).toList =
      (state.rq.root p).toList.filter (· ≠ vcpu) := by
    rw [RbOps.rbErase, if_pos inTree, Rebalance.toList_erase,
      erase_eq_filter_ne (refines.nodup_root p)]
  have atHere := atPriority_iff.mpr isPriority
  refine ⟨refines.nodup.filter _, ?_, ?_, ?_, ?_⟩
  · intro other isLeft
    obtain ⟨wasQueued, different⟩ := mem_filter.mp isLeft
    show update state.rq.periodicity vcpu 0 other = _
    rw [update_of_ne (of_decide_eq_true different)]
    exact refines.stored other wasQueued
  · intro q
    show update state.rq.count p _ q = _
    rw [filter_comm]
    by_cases same : q = p
    · have nodup := refines.nodup.filter (atPriority vcpus p)
      have inList : vcpu ∈ state.queued.filter (atPriority vcpus p) :=
        mem_filter.mpr ⟨isQueued, atHere⟩
      have shorter : ((state.queued.filter (atPriority vcpus p)).filter (· ≠ vcpu)).length =
          (state.queued.filter (atPriority vcpus p)).length - 1 := by
        rw [← length_erase_of_mem inList, erase_eq_filter_ne nodup]
      have pos := length_pos_of_mem inList
      have bounded := refines.count_lt p
      rw [same, update_self, shorter, refines.count]
      unfold Word.toU32
      omega
    · rw [update_of_ne same, filter_ne_elsewhere same atHere, refines.count]
  · refine (forall_update_iff _ fun _ (tree : SearchTree _) => tree.toList.Pairwise _).mpr
      ⟨?_, fun q _ => refines.sorted q⟩
    rw [erased]
    exact (refines.sorted p).sublist filter_sublist
  · intro q k
    show ((update state.rq.root p _ q : SearchTree _)).toList.filter _ =
      ((state.queued.filter (· ≠ vcpu)).filter (atPriority vcpus q)).filter _
    rw [filter_comm (atPriority vcpus q) (· ≠ vcpu)]
    by_cases same : q = p
    · subst same
      rw [update_self, erased, filter_comm, refines.order]
      exact filter_comm _ _ _
    · rw [update_of_ne same, filter_ne_elsewhere same atHere, refines.order]

theorem next_queued {next : Fin vcpus.size} (isLeftmost : (state.rq.root p).leftmost = some next) :
    next ∈ state.queued ∧ (vcpus.info next).priority = p := by
  rw [SearchTree.leftmost_eq_head?] at isLeftmost
  exact refines.mem_root_iff.mp (mem_of_head? isLeftmost)

theorem next (call : RqCall (Fin vcpus.size))
    (fresh : ∀ vcpu, call = .enqueue vcpu → vcpu ∉ state.queued)
    (isQueued : ∀ vcpu, call = .detach vcpu → vcpu ∈ state.queued) :
    PrmRefines ((prm vcpus rb).next state call) := by
  cases call with
  | enqueue vcpu =>
    obtain ⟨tree, linked⟩ := refines.link_isSome vcpu (vcpus.info vcpu).priority
    simp only [Schedalgo.next, prm, linked]
    by_cases entry : (vcpus.info vcpu).schedPriv
    · simp only [entry, Bool.not_true]
      exact refines.enqueue (fresh vcpu rfl) linked
    · simp only [entry, Bool.not_false]
      exact refines
  | dequeue =>
    simp only [Schedalgo.next, prm]
    split
    · exact refines
    · next isDequeued =>
      split at isDequeued
      · cases isDequeued
      · split at isDequeued
        · cases isDequeued
        · next isLeftmost =>
          cases isDequeued
          obtain ⟨wasQueued, isPriority⟩ := refines.next_queued isLeftmost
          exact refines.remove wasQueued isPriority
  | detach vcpu =>
    simp only [Schedalgo.next, prm]
    by_cases entry : (vcpus.info vcpu).schedPriv
    · simp only [entry, Bool.not_true]
      exact refines.remove (isQueued vcpu rfl) rfl
    · simp only [entry, Bool.not_false]
      exact refines

theorem firstMax {next : Fin vcpus.size}
    (highest : ∀ vcpu ∈ state.queued, (vcpus.info vcpu).priority ≤ p)
    (isLeftmost : (state.rq.root p).leftmost = some next) :
    FirstMax (prmKey vcpus) state.queued next := by
  obtain ⟨-, isPriority⟩ := refines.next_queued isLeftmost
  rw [SearchTree.leftmost_eq_head?] at isLeftmost
  obtain ⟨rest, isList⟩ := List.head?_eq_some_iff.mp isLeftmost
  have least := refines.sorted p
  rw [isList, pairwise_cons] at least
  have isHead := refines.order p (vcpus.info next).periodicity
  rw [isList, filter_cons_of_pos (hasPeriodicity_iff.mpr rfl), filter_filter] at isHead
  apply firstMax_of_bucket _ isHead.symm
  · intro other _ inBucket
    rw [Bool.and_eq_true, hasPeriodicity_iff, atPriority_iff] at inBucket
    rw [prmKey, prmKey, inBucket.1, inBucket.2, isPriority]
  · intro other isQueued notInBucket
    rw [Bool.and_eq_true, hasPeriodicity_iff, atPriority_iff, not_and] at notInBucket
    rw [prmKey, prmKey, Prod.Lex.toLex_lt_toLex]
    rcases lt_or_eq_of_le (highest other isQueued) with lower | same
    · exact .inl (isPriority ▸ lower)
    · refine .inr ⟨same.trans isPriority.symm, ?_⟩
      have inTree : other ∈ next :: rest := isList ▸ refines.mem_root_iff.mpr ⟨isQueued, same⟩
      rcases mem_cons.mp inTree with rfl | inRest
      · exact absurd same (notInBucket rfl)
      · apply OrderDual.toDual_lt_toDual.mpr
        exact lt_of_le_of_ne (least.1 other inRest) fun equal =>
          notInBucket equal.symm same

theorem conforms : Conforms (prm vcpus rb) (prmKey vcpus) state where
  dequeue := by
    simp only [prm]
    split
    · next isNone =>
      split at isNone
      · next idle => exact refines.busy.queued_eq_nil idle
      · next p found =>
        split at isNone
        · next isEmpty =>
          obtain ⟨⟨vcpu, isQueued, isPriority⟩, -⟩ := refines.busy.highest found
          have inTree := refines.mem_root_iff.mpr ⟨isQueued, isPriority⟩
          rw [SearchTree.leftmost_eq_head?, List.head?_eq_none_iff] at isEmpty
          rw [isEmpty] at inTree
          cases inTree
        · cases isNone
    · next isSome =>
      split at isSome
      · cases isSome
      · next p found =>
        split at isSome
        · cases isSome
        · next isLeftmost =>
          cases isSome
          exact ⟨refines.firstMax (refines.busy.highest found).2 isLeftmost, rfl⟩
  length priority := by
    rw [countP_eq_length_filter]
    exact refines.count priority
  prempt current := refines.busy.prempt current

end PrmRefines

/-! ## Runs -/

def DetachesQueued {V R : Type} (state : RqState V R) (call : RqCall V) : Prop :=
  ∀ vcpu, call = .detach vcpu → vcpu ∈ state.queued

/-- Both scheduling algorithms are stable priority queues in every run: `vmm_schedalgo_prr` in any,
and then a detach of a VCPU that is not queued changes nothing; `vmm_schedalgo_prm` in those that
detach only queued VCPUs. -/
theorem schedalgo_conforms (vcpus : VcpuArray) (rb : RbOps (Fin vcpus.size)) :
    (∀ state, (prr vcpus).system.Reachable state → Conforms (prr vcpus) (prrKey vcpus) state ∧
      ∀ vcpu, vcpu ∉ state.queued → ((prr vcpus).rqDetach state.rq vcpu).1 = state.rq) ∧
    ∀ state, ((prm vcpus rb).system.restrict DetachesQueued).Reachable state →
      Conforms (prm vcpus rb) (prmKey vcpus) state := by
  constructor
  · intro state reached
    have refines : PrrRefines state := by
      apply reached.invariant PrrRefines
      · rintro state rfl
        exact ⟨.nil, fun _ => rfl⟩
      · rintro state call state' refines ⟨fresh, rfl⟩
        exact refines.next call fresh
    exact ⟨refines.conforms, fun _ notQueued => refines.detach_unqueued notQueued⟩
  · intro state reached
    have refines : PrmRefines state := by
      apply reached.invariant PrmRefines
      · rintro state rfl
        exact ⟨.nil, by simp, fun _ => rfl, fun _ => .nil, fun _ _ => rfl⟩
      · rintro state call state' refines ⟨isQueued, fresh, rfl⟩
        exact refines.next call fresh isQueued
    exact refines.conforms

/-! ## An idle VCPU and one of the default priority -/

def twoVcpus : VcpuArray where
  size := 2
  size_lt := by decide
  info vcpu := if vcpu = 0 then ⟨0, 100, 10, true, by decide⟩ else ⟨3, 100, 10, true, by decide⟩

def idleVcpu : Fin twoVcpus.size := ⟨0, by decide⟩

def guestVcpu : Fin twoVcpus.size := ⟨1, by decide⟩

/-- Trees that are never rebalanced. An entry that was alone in its tree is left with no links,
and erasing it once more empties the tree. -/
def plainOps (V : Type) [DecidableEq V] : RbOps V where
  toRebalance := .plain V
  eraseUnlinked _ _ := .leaf

def twoPrm : Schedalgo (Fin twoVcpus.size) (PrmRq twoVcpus) := prm twoVcpus (plainOps _)

def bothQueued : RqState (Fin twoVcpus.size) (PrmRq twoVcpus) :=
  [RqCall.enqueue idleVcpu, .enqueue guestVcpu].foldl twoPrm.next ⟨twoPrm.rqCreate, []⟩

theorem bothQueued_reached : (twoPrm.system.restrict DetachesQueued).Reachable bothQueued := by
  have start : (twoPrm.system.restrict DetachesQueued).Reachable ⟨twoPrm.rqCreate, []⟩ := .start rfl
  have idle := start.step (.enqueue idleVcpu) ⟨nofun, fun _ _ => not_mem_nil, rfl⟩
  refine idle.step (.enqueue guestVcpu) ⟨nofun, ?_, rfl⟩
  rintro vcpu ⟨⟩
  decide

/-- The VCPU of the higher priority is dequeued first. -/
theorem schedalgo_conforms_twoVcpus : FirstMax (prmKey twoVcpus) [idleVcpu, guestVcpu] guestVcpu :=
  ((schedalgo_conforms twoVcpus (plainOps _)).2 bothQueued bothQueued_reached).dequeue.1

/-- VCPU 1 is dequeued, and then detached although it is not queued. -/
def detachedTwice : RqState (Fin twoVcpus.size) (PrmRq twoVcpus) :=
  twoPrm.next (twoPrm.next bothQueued .dequeue) (.detach guestVcpu)

/-- Its priority then counts 2^32 - 1 VCPUs, and nothing can be dequeued any more although VCPU 0
is queued. -/
theorem schedalgo_prm_detach_unqueued :
    twoPrm.system.Reachable detachedTwice ∧
    (twoPrm.next bothQueued .dequeue).queued = [idleVcpu] ∧
    detachedTwice.queued = [idleVcpu] ∧ twoPrm.rqLength detachedTwice.rq 3 = 2 ^ 32 - 1 ∧
    (twoPrm.rqDequeue detachedTwice.rq).isNone ∧
    ¬ Conforms twoPrm (prmKey twoVcpus) detachedTwice := by
  have dequeued := bothQueued_reached.of_restrict.step .dequeue ⟨nofun, rfl⟩
  have detached := dequeued.step (.detach guestVcpu) ⟨nofun, rfl⟩
  refine ⟨detached, by decide, by decide, by decide, by decide, ?_⟩
  intro conforms
  have counted := conforms.length 3
  revert counted
  decide

end Xvisor.Scheduler
