import Xvisor.Lib.System
import Xvisor.Lib.Word

/-!
# Guest requests

Requests to a guest wait on its list until the work item of its slot runs. The
work function is given the address of the work item and recovers the slot from
it.
-/

namespace Xvisor.Manager

open Function Lib

/-- `mngr.guest_work_array`: `CONFIG_MAX_GUEST_COUNT` work items of `size` bytes, on a heap
smaller than 4 GiB. -/
structure WorkArray where
  start : Nat
  size : Nat
  count : Nat
  positive : 0 < size
  small : count * size ≤ 2 ^ 32

namespace WorkArray

variable (works : WorkArray)

def item (i : Nat) : Nat := works.start + i * works.size

/-- The slot of a work item, as `manager_req_work` recovers it. -/
def slotOf (ptr : Nat) : Option Nat :=
  if ptr < works.item 0 ∨ works.item (works.count - 1) ≤ ptr then none
  else some (Word.toU32 (ptr - works.item 0) / works.size)

/-- The last work item is taken for the end of the array. -/
theorem slotOf_item {i : Nat} (inside : i < works.count) :
    works.slotOf (works.item i) = if i + 1 < works.count then some i else none := by
  have offset : works.item i - works.item 0 = i * works.size := by
    simp only [item, Nat.zero_mul, Nat.add_zero, Nat.add_sub_cancel_left]
  have low : ¬ works.item i < works.item 0 := by
    simp only [item]
    omega
  have high : works.item (works.count - 1) ≤ works.item i ↔ ¬ i + 1 < works.count := by
    rw [item, item, Nat.add_le_add_iff_left, Nat.mul_le_mul_right_iff works.positive]
    omega
  have word : i * works.size < 2 ^ 32 :=
    (Nat.mul_lt_mul_of_pos_right inside works.positive).trans_le works.small
  simp only [slotOf, or_iff_right low, high, offset, Word.toU32_of_lt word,
    Nat.mul_div_cancel _ works.positive, ite_not]

end WorkArray

structure GuestRequest where
  func : Nat
  data : Nat
  deriving DecidableEq

/-- The requests to a guest and its work item: what was requested, what was taken to be carried
out, the list, whether the work item is scheduled, and how many callers have yet to schedule it
(`enqueuing`) or to look for more requests (`inProgress`). -/
structure GuestReqs where
  requested : List GuestRequest
  executed : List GuestRequest
  reqList : List GuestRequest
  scheduled : Bool
  enqueuing : Nat
  inProgress : Nat

namespace GuestReqs

variable (g : GuestReqs)

/-- `manager_enqueue_req` up to the end of its locked section. -/
def managerEnqueueReq (req : GuestRequest) : GuestReqs :=
  { g with requested := g.requested ++ [req], reqList := g.reqList ++ [req],
           enqueuing := g.enqueuing + 1 }

/-- The end of `manager_enqueue_req`; a work item that is scheduled already stays so. -/
def schedule : GuestReqs :=
  { g with scheduled := true, enqueuing := g.enqueuing - 1 }

def execute (req : GuestRequest) (rest : List GuestRequest) : GuestReqs :=
  { g with executed := g.executed ++ [req], reqList := rest, inProgress := g.inProgress + 1 }

/-- The end of `manager_req_work`. -/
def reschedule : GuestReqs :=
  { g with scheduled := g.scheduled || !g.reqList.isEmpty, inProgress := g.inProgress - 1 }

/-- Requests were carried out once each in the order they came, and those that wait will be
looked at. -/
structure Served (g : GuestReqs) : Prop where
  fifo : g.requested = g.executed ++ g.reqList
  awaited : g.reqList ≠ [] → g.scheduled = true ∨ 0 < g.enqueuing ∨ 0 < g.inProgress

end GuestReqs

section Runs

variable (works : WorkArray) (live : Nat → Bool)

/-- `manager_req_work` up to the end of the request. -/
def managerReqWork (s : Nat → GuestReqs) (ptr : Nat) : Nat → GuestReqs :=
  match works.slotOf ptr with
  | none => s
  | some id =>
    if id < works.count ∧ live id then
      match (s id).reqList with
      | [] => s
      | req :: rest => update s id ((s id).execute req rest)
    else s

inductive RequestLabel where
  | enqueue (id : Nat) (req : GuestRequest)
  | schedule (id : Nat)
  | work (id : Nat)
  | reschedule (id : Nat)

/-- Requests to live guests, and runs of the work items that are scheduled. -/
def requestSystem : System (Nat → GuestReqs) RequestLabel where
  init s := s = fun _ => ⟨[], [], [], false, 0, 0⟩
  step s label s' :=
    match label with
    | .enqueue id req => (id < works.count ∧ live id) ∧
        s' = update s id ((s id).managerEnqueueReq req)
    | .schedule id => 0 < (s id).enqueuing ∧ s' = update s id (s id).schedule
    | .work id => (id < works.count ∧ (s id).scheduled) ∧
        s' = managerReqWork works live
          (update s id { s id with scheduled := false }) (works.item id)
    | .reschedule id => 0 < (s id).inProgress ∧ s' = update s id (s id).reschedule

/-- Requests to the guest of a slot are served in order along every run, and a run of its work
item takes the oldest one. -/
def RequestsServed (id : Nat) : Prop :=
  ∀ s, (requestSystem works live).Reachable s → (s id).Served ∧
    ∀ req rest, (s id).reqList = req :: rest → managerReqWork works live s (works.item id) =
        update s id ((s id).execute req rest)

variable {works live} {s s' : Nat → GuestReqs} {id : Nat}

theorem managerReqWork_item (below : id + 1 < works.count) (isLive : live id)
    {req : GuestRequest} {rest : List GuestRequest} (waits : (s id).reqList = req :: rest) :
    managerReqWork works live s (works.item id) =
      update s id ((s id).execute req rest) := by
  have inside : id < works.count := by omega
  simp only [managerReqWork, works.slotOf_item inside, if_pos below, inside, isLive, and_self,
    if_true, waits]

theorem managerReqWork_item_nil (inside : id < works.count) (none : (s id).reqList = []) :
    managerReqWork works live s (works.item id) = s := by
  rw [managerReqWork, works.slotOf_item inside]
  split_ifs <;> simp only [none, ite_self]

theorem managerReqWork_of_ne {other : Nat} (inside : other < works.count) (differ : id ≠ other) :
    managerReqWork works live s (works.item other) id = s id := by
  rw [managerReqWork, works.slotOf_item inside]
  by_cases below : other + 1 < works.count
  · simp only [if_pos below]
    split
    · cases (s other).reqList with
      | nil => rfl
      | cons req rest => exact update_of_ne differ _ _
    · rfl
  · simp only [if_neg below]

theorem served_step {label : RequestLabel} (below : id + 1 < works.count) (isLive : live id)
    (served : (s id).Served) (taken : (requestSystem works live).step s label s') :
    (s' id).Served := by
  cases label with
  | enqueue other req =>
    obtain ⟨-, rfl⟩ := taken
    by_cases same : id = other
    · subst same
      rw [update_self]
      refine ⟨?_, fun _ => .inr (.inl (Nat.succ_pos _))⟩
      simp only [GuestReqs.managerEnqueueReq, served.fifo, List.append_assoc]
    · rwa [update_of_ne same]
  | schedule other =>
    obtain ⟨-, rfl⟩ := taken
    by_cases same : id = other
    · subst same
      rw [update_self]
      exact ⟨served.fifo, fun _ => .inl rfl⟩
    · rwa [update_of_ne same]
  | work other =>
    obtain ⟨⟨inside, -⟩, rfl⟩ := taken
    by_cases same : id = other
    · subst same
      cases waits : (s id).reqList with
      | nil =>
        rw [managerReqWork_item_nil inside (by rwa [update_self]), update_self]
        exact ⟨served.fifo, fun some => absurd waits some⟩
      | cons req rest =>
        rw [managerReqWork_item below isLive (by rwa [update_self]), update_self, update_self]
        refine ⟨?_, fun _ => .inr (.inr (Nat.succ_pos _))⟩
        rw [GuestReqs.execute, List.append_assoc, served.fifo, waits]
        rfl
    · rwa [managerReqWork_of_ne inside same, update_of_ne same]
  | reschedule other =>
    obtain ⟨-, rfl⟩ := taken
    by_cases same : id = other
    · subst same
      rw [update_self]
      refine ⟨served.fifo, fun some => .inl ?_⟩
      have waits : (s id).reqList ≠ [] := some
      simp [GuestReqs.reschedule, waits]
    · rwa [update_of_ne same]

/-- The work item of the last slot returns at once: a request stays on the list, and nothing
will look at it again. -/
theorem lastSlot_lost (inside : id < works.count) (isLive : live id)
    (last : ¬ id + 1 < works.count) (req : GuestRequest) :
    ∃ s, (requestSystem works live).Reachable s ∧ s id = ⟨[req], [], [req], false, 0, 0⟩ := by
  have start : (requestSystem works live).Reachable fun _ => ⟨[], [], [], false, 0, 0⟩ := .start rfl
  have enqueued := start.step (.enqueue id req) ⟨⟨inside, isLive⟩, rfl⟩
  have scheduled := enqueued.step (.schedule id) ⟨by rw [update_self]; exact Nat.one_pos, rfl⟩
  have worked := scheduled.step (.work id) ⟨⟨inside, by rw [update_self]; rfl⟩, rfl⟩
  refine ⟨_, worked, ?_⟩
  rw [managerReqWork, works.slotOf_item inside, if_neg last]
  simp [GuestReqs.managerEnqueueReq, GuestReqs.schedule]

end Runs

def twoWorks : WorkArray := ⟨0x1000, 64, 2, by decide, by decide⟩

end Xvisor.Manager
