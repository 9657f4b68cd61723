import Xvisor.Guest.Memory
import Xvisor.Lib.System

/-!
# VirtIO queues

A queue lies in guest memory: the descriptor table, the ring of available heads
and the ring of used ones. `vmm_virtio_queue_get_head_iovec` collects the
chain of descriptors of a head.
-/

namespace Xvisor.Virtio

open Lib Word Guest

/-! ## The ring -/

structure VringDesc where
  addr : Nat
  len : Nat
  flags : Nat
  next : Nat
  deriving DecidableEq, Repr

namespace VringDesc

def size : Nat := 16

variable (desc : VringDesc)

def hasNext : Bool := desc.flags.testBit 0

def isWrite : Bool := desc.flags.testBit 1

def isIndirect : Bool := desc.flags.testBit 2

end VringDesc

structure Vring where
  num : Nat
  descPa : Nat
  availPa : Nat
  usedPa : Nat
  deriving DecidableEq, Repr

def alignMask (a align : Nat) : Nat :=
  sub (add a align) 1 &&& (2 ^ 64 - 1 - sub align 1)

def availRing (i : Nat) : Nat := 4 + 2 * i

def usedRing (i : Nat) : Nat := 4 + 8 * i

def vringInit (num basePa align : Nat) : Vring :=
  let availPa := add basePa (num * VringDesc.size)
  ⟨num, basePa, availPa, alignMask (add availPa (availRing num)) align⟩

def vringSize (num align : Nat) : Nat :=
  toU32 (alignMask (VringDesc.size * num + availRing num) align + usedRing num)

/-! ## Queues -/

inductive Rc where
  | ok
  | efail
  | einvalid
  | eio
  | enotsupp
  deriving DecidableEq, Repr

/-- The queue is `ready` when it belongs to a guest. -/
structure Queue where
  ready : Bool
  lastAvailIdx : Nat
  vring : Vring
  descCount : Nat
  deriving DecidableEq, Repr

/-- `vmm_guest_memory_read`: the bytes of an address range that could be read. -/
abbrev GuestRead := Nat → Nat → List UInt8

def guestRead (aspace : Aspace) (fuel : Nat) (mem : HostMemory) : GuestRead := fun pa len =>
  (aspace.vmmGuestMemoryRead fuel mem pa len).getD []

def ofBytes : List UInt8 → Nat
  | [] => 0
  | byte :: rest => byte.toNat + 256 * ofBytes rest

namespace Queue

variable (vq : Queue)

def maxDesc : Nat := if vq.ready then vq.descCount else 0

def cleanup : Queue :=
  if vq.ready then { vq with ready := false, lastAvailIdx := 0, descCount := 0 } else vq

/-- `vmm_virtio_queue_setup`: the whole ring lies in one mapping of guest RAM. -/
def setup (aspace : Aspace) (fuel guestPfn guestPageSize descCount align : Nat) : Queue × Rc :=
  let vq := vq.cleanup
  let gphys := mul guestPfn guestPageSize
  let size := vringSize descCount align
  match aspace.physicalMap fuel gphys size with
  | .found mapping =>
    if !mapping.regFlags.any .isram then (vq, .einvalid)
    else if mapping.physSize < size then (vq, .einvalid)
    else
      ({ vq with ready := true, vring := vringInit descCount gphys align, descCount := descCount },
        .ok)
  | _ => (vq, .efail)

def getDesc (read : GuestRead) (indx : Nat) : Except Rc VringDesc :=
  if !vq.ready then .error .einvalid
  else
    let bytes := read (add vq.vring.descPa (indx * VringDesc.size)) VringDesc.size
    if bytes.length ≠ VringDesc.size then .error .eio
    else .ok ⟨ofBytes (bytes.take 8), ofBytes ((bytes.drop 8).take 4),
      ofBytes ((bytes.drop 12).take 2), ofBytes (bytes.drop 14)⟩

def pop (read : GuestRead) : Queue × Nat :=
  if !vq.ready then (vq, 0)
  else
    let bytes := read
      (add vq.vring.availPa (availRing (vq.lastAvailIdx % vq.descCount))) 2
    ({ vq with lastAvailIdx := (vq.lastAvailIdx + 1) % 2 ^ 16 },
      if bytes.length ≠ 2 then 0 else ofBytes bytes)

end Queue

/-! ## The walk along a chain -/

structure IoVec where
  addr : Nat
  len : Nat
  flags : Nat
  deriving DecidableEq, Repr

/-- What the walk has done so far: the elements written to the caller's array, in that order, their
total length, and the indices of the descriptors that were read. -/
structure Walk where
  iov : List IoVec
  totalLen : Nat
  reads : List Nat
  deriving DecidableEq, Repr

namespace Walk

def write (walk : Walk) (desc : VringDesc) : Walk :=
  { walk with
    iov := walk.iov ++ [⟨desc.addr, desc.len, if desc.isWrite then 1 else 0⟩]
    totalLen := toU32 (walk.totalLen + desc.len) }

def reading (walk : Walk) (indx : Nat) : Walk := { walk with reads := walk.reads ++ [indx] }

end Walk

namespace Queue

/-- `next_desc`: the index of the next descriptor with its contents, or `max` at the end. -/
def nextDesc (vq : Queue) (read : GuestRead) (desc : VringDesc) (max : Nat) (walk : Walk) :
    Nat × VringDesc × Walk :=
  if !desc.hasNext then (max, desc, walk)
  else
    match vq.getDesc read desc.next with
    | .error _ => (max, desc, walk.reading desc.next)
    | .ok desc' => (desc.next, desc', walk.reading desc.next)

/-- The loop of `vmm_virtio_queue_get_head_iovec`, with 16-bit indices. Nothing but the fuel
counts its rounds. -/
def collect (vq : Queue) (read : GuestRead) (max : Nat) : Nat → VringDesc → Walk → Option Walk
  | 0, _, _ => none
  | fuel + 1, desc, walk =>
    let (idx, desc, walk) := vq.nextDesc read desc max (walk.write desc)
    if idx % 2 ^ 16 = max then some walk else collect vq read max fuel desc walk

/-- What the caller gets, and the guest memory written by `vmm_virtio_queue_set_avail_event`. -/
structure Outcome where
  rc : Rc
  walk : Walk
  iovCnt : Nat
  totalLen : Nat
  head : Nat
  availEvent : Option (Nat × Nat)
  deriving DecidableEq, Repr

def Outcome.failed (rc : Rc) (reads : List Nat) : Outcome := ⟨rc, ⟨[], 0, reads⟩, 0, 0, 0, none⟩

/-- `vmm_virtio_queue_get_head_iovec`; `none` while the walk goes on. -/
def getHeadIovec (vq : Queue) (read : GuestRead) (fuel head : Nat) : Option Outcome :=
  if !vq.ready then some (.failed .ok [])
  else
    match vq.getDesc read head with
    | .error rc => some (.failed rc [head])
    | .ok desc =>
      if desc.isIndirect then some (.failed .enotsupp [head])
      else
        (vq.collect read (vq.maxDesc % 2 ^ 16) fuel desc ⟨[], 0, [head]⟩).map fun walk =>
          ⟨.ok, walk, walk.iov.length, walk.totalLen, head,
            some (add vq.vring.usedPa (usedRing vq.vring.num), vq.lastAvailIdx)⟩

def getIovec (vq : Queue) (read : GuestRead) (fuel : Nat) : Queue × Option Outcome :=
  let (vq, head) := vq.pop read
  (vq, vq.getHeadIovec read fuel head)

end Queue

/-! ## Used-buffer notifications

With event indices the guest says at which used index it wants an interrupt. The
device compares three 16-bit indices: the used one, that of the guest, and the used
one at the last interrupt. -/

/-- The differences are cast to `u16`. -/
def vringNeedEvent (eventIdx newIdx old : Nat) : Bool :=
  ((newIdx : Int) - eventIdx - 1) % 2 ^ 16 < ((newIdx : Int) - old) % 2 ^ 16

/-- The decision, and `last_used_signalled` after it. -/
def signalAt (newIdx eventIdx lastUsedSignalled : Nat) : Bool × Nat :=
  if vringNeedEvent eventIdx newIdx lastUsedSignalled then (true, newIdx)
  else (false, lastUsedSignalled)

def Queue.shouldSignal (vq : Queue) (read : GuestRead) (lastUsedSignalled : Nat) : Bool × Nat :=
  let newIdx := read (add vq.vring.usedPa 2) 2
  let eventIdx := read (add vq.vring.availPa (availRing vq.vring.num)) 2
  if !vq.ready || newIdx.length != 2 || eventIdx.length != 2 then (false, lastUsedSignalled)
  else signalAt (ofBytes newIdx) (ofBytes eventIdx) lastUsedSignalled

/-- The three indices, and what they count: the elements used so far, the element that the guest
waits for, the elements used at the last interrupt, and those that the guest has consumed. -/
structure Signals where
  usedIdx : Nat
  usedEvent : Nat
  lastUsedSignalled : Nat
  used : Nat
  event : Nat
  signalled : Nat
  consumed : Nat
  deriving DecidableEq

namespace Signals

/-- `vmm_virtio_queue_set_used_elem` and then `vmm_virtio_queue_should_signal`. -/
def addUsed (s : Signals) : Bool × Signals :=
  let usedIdx := (s.usedIdx + 1) % 2 ^ 16
  let decision := signalAt usedIdx s.usedEvent s.lastUsedSignalled
  (decision.1,
    { s with
      usedIdx
      lastUsedSignalled := decision.2
      used := s.used + 1
      signalled := if decision.1 then s.used + 1 else s.signalled })

end Signals

inductive SignalLabel where
  | addUsed
  | moveEvent (event consumed : Nat)

/-- The guest consumes what was used, and moves its index forward to what it has not consumed. -/
def signalSystem : System Signals SignalLabel where
  init s := s = ⟨0, 0, 0, 0, 0, 0, 0⟩
  step s label s' :=
    match label with
    | .addUsed => s' = s.addUsed.2
    | .moveEvent event consumed =>
      (s.consumed ≤ consumed ∧ consumed ≤ s.used ∧ s.event ≤ event ∧ consumed ≤ event) ∧
        s' = { s with usedEvent := event % 2 ^ 16, event, consumed }

/-- The indices are the counters modulo `2 ^ 16`. -/
structure Signals.Counted (s : Signals) : Prop where
  used : s.usedIdx = s.used % 2 ^ 16
  event : s.usedEvent = s.event % 2 ^ 16
  signalled : s.lastUsedSignalled = s.signalled % 2 ^ 16
  order : s.signalled ≤ s.used

variable {s : Signals}

theorem Signals.Counted.addUsed (counted : s.Counted) : s.addUsed.2.Counted := by
  have next : (s.usedIdx + 1) % 2 ^ 16 = (s.used + 1) % 2 ^ 16 := by
    rw [counted.used, Nat.mod_add_mod]
  simp only [Signals.addUsed, signalAt]
  split
  · exact ⟨next, counted.event, next, le_refl _⟩
  · exact ⟨next, counted.event, counted.signalled, Nat.le_succ_of_le counted.order⟩

theorem signalSystem_counted (reached : signalSystem.Reachable s) : s.Counted := by
  apply reached.invariant Signals.Counted
  · rintro s rfl
    exact ⟨rfl, rfl, rfl, le_refl _⟩
  · rintro s (_ | ⟨event, consumed⟩) s' counted taken
    · cases taken
      exact counted.addUsed
    · obtain ⟨-, rfl⟩ := taken
      exact ⟨counted.used, rfl, counted.signalled, counted.order⟩

/-- The element that the guest waits for is signalled unless a multiple of `2 ^ 16` elements were
used since the last interrupt. -/
theorem usedEvent_signalled_iff (reached : signalSystem.Reachable s) (passes : s.event = s.used) :
    s.addUsed.1 = true ↔ (s.used + 1 - s.signalled) % 2 ^ 16 ≠ 0 := by
  obtain ⟨used, event, signalled, order⟩ := signalSystem_counted reached
  have decision : s.addUsed.1 =
      vringNeedEvent s.usedEvent ((s.usedIdx + 1) % 2 ^ 16) s.lastUsedSignalled := by
    simp only [Signals.addUsed, signalAt]
    split
    · next needed => exact needed.symm
    · next spared => exact (Bool.eq_false_iff.mpr spared).symm
  rw [decision, vringNeedEvent, decide_eq_true_iff, used, event, signalled, passes]
  omega

theorem usedEvent_signalled_first : (⟨0, 0, 0, 0, 0, 0, 0⟩ : Signals).addUsed.1 = true :=
  (usedEvent_signalled_iff (.start rfl) rfl).mpr (by decide)

/-- The first element is signalled, and the guest then polls. -/
theorem polling_reached (n : Nat) :
    signalSystem.Reachable ⟨(n + 1) % 2 ^ 16, 0, 1, n + 1, 0, 1, 0⟩ := by
  induction n with
  | zero =>
    have start : signalSystem.Reachable ⟨0, 0, 0, 0, 0, 0, 0⟩ := .start rfl
    exact start.step .addUsed rfl
  | succ n ih =>
    refine ih.step .addUsed ?_
    have spared : vringNeedEvent 0 ((n + 1 + 1) % 2 ^ 16) 1 = false := by simp [vringNeedEvent]
    change _ = (Signals.addUsed _).2
    simp only [Signals.addUsed, signalAt, Nat.mod_add_mod, spared]
    rfl

/-- After `2 ^ 16` elements the guest waits for the next one, and is not interrupted. -/
theorem usedEvent_missed : ∃ s, signalSystem.Reachable s ∧ s.event = s.used ∧
    s.used = 2 ^ 16 ∧ s.addUsed.1 = false :=
  ⟨_, (polling_reached (2 ^ 16 - 1)).step (.moveEvent (2 ^ 16) (2 ^ 16)) ⟨by decide, rfl⟩,
    rfl, rfl, by decide⟩

/-! ## Descriptor chains

The chain of a head ends at a descriptor without a next link or at one that cannot
be read. The walk follows it and has no bound of its own. -/

open List Option Walk

namespace Queue

variable {vq : Queue} {read : GuestRead}

/-- The indices along the chain of a head, if it ends within the given number of descriptors. -/
def chain (vq : Queue) (read : GuestRead) : Nat → Nat → Option (List Nat)
  | 0, _ => none
  | count + 1, indx =>
    match vq.getDesc read indx with
    | .error _ => some [indx]
    | .ok desc =>
      if desc.hasNext then (chain vq read count desc.next).map (indx :: ·) else some [indx]

/-- The chain of a head ends within `desc_count` descriptors, all of which lie in the table. -/
def Bounded (vq : Queue) (read : GuestRead) (head : Nat) : Prop :=
  ∃ indices, vq.chain read vq.descCount head = some indices ∧ ∀ indx ∈ indices, indx < vq.descCount

def IndirectHead (vq : Queue) (read : GuestRead) (head : Nat) : Prop :=
  ∃ desc, vq.getDesc read head = .ok desc ∧ desc.isIndirect = true

/-- What the device emulators rely on: the walk returns, it reads descriptors of the table only,
it writes at most `desc_count` elements, and it reports a chain that is not bounded. -/
def SafeWalk (vq : Queue) (read : GuestRead) (head : Nat) : Prop :=
  ∃ fuel outcome, vq.getHeadIovec read fuel head = some outcome ∧
    (∀ indx ∈ outcome.walk.reads, indx < vq.descCount) ∧
    outcome.walk.iov.length ≤ vq.descCount ∧
    (¬ vq.Bounded read head → outcome.rc ≠ .ok)

variable {count indx max fuel : Nat}

theorem chain_mem {indices : List Nat} (isChain : vq.chain read count indx = some indices) :
    indices.length ≤ count ∧ indx ∈ indices := by
  induction count generalizing indx indices with
  | zero => cases isChain
  | succ count ih =>
    unfold chain at isChain
    split at isChain
    · cases isChain
      simp
    · split at isChain
      · obtain ⟨rest, isRest, rfl⟩ := map_eq_some_iff.mp isChain
        obtain ⟨short, _⟩ := ih isRest
        simpa using short
      · cases isChain
        simp

/-! ## One round of the walk -/

section Round

variable {desc : VringDesc} {max : Nat} {walk : Walk}

theorem nextDesc_last (isLast : desc.hasNext = false) :
    vq.nextDesc read desc max walk = (max, desc, walk) := by
  simp [nextDesc, isLast]

theorem nextDesc_error {rc : Rc} (hasNext : desc.hasNext = true)
    (failed : vq.getDesc read desc.next = .error rc) :
    vq.nextDesc read desc max walk = (max, desc, walk.reading desc.next) := by
  simp [nextDesc, hasNext, failed]

variable {desc' : VringDesc}

theorem nextDesc_ok (hasNext : desc.hasNext = true)
    (isDesc : vq.getDesc read desc.next = .ok desc') :
    vq.nextDesc read desc max walk = (desc.next, desc', walk.reading desc.next) := by
  simp [nextDesc, hasNext, isDesc]

theorem collect_stop {fuel idx : Nat} {walk' : Walk}
    (next : vq.nextDesc read desc max (walk.write desc) = (idx, desc', walk'))
    (isMax : idx % 2 ^ 16 = max) : vq.collect read max (fuel + 1) desc walk = some walk' := by
  rw [collect, next]
  exact if_pos isMax

theorem collect_continue {fuel idx : Nat} {walk' : Walk}
    (next : vq.nextDesc read desc max (walk.write desc) = (idx, desc', walk'))
    (notMax : idx % 2 ^ 16 ≠ max) :
    vq.collect read max (fuel + 1) desc walk = vq.collect read max fuel desc' walk' := by
  rw [collect, next]
  exact if_neg notMax

end Round

/-! ## Whole walks -/

variable {desc : VringDesc}

/-- The walk of a chain returns after at most as many rounds as it has descriptors, and reads only
these. -/
theorem collect_of_chain {indices : List Nat} (isU16 : max % 2 ^ 16 = max)
    (isChain : vq.chain read count indx = some indices) (isDesc : vq.getDesc read indx = .ok desc)
    (walk : Walk) :
    ∃ walk', vq.collect read max count desc walk = some walk' ∧
      walk'.iov.length ≤ walk.iov.length + indices.length ∧
      ∀ i ∈ walk'.reads, i ∈ walk.reads ∨ i ∈ indices := by
  induction count generalizing indx indices desc walk with
  | zero => cases isChain
  | succ count ih =>
    simp only [chain, isDesc] at isChain
    cases hasNext : desc.hasNext with
    | false =>
      simp only [hasNext, Bool.false_eq_true, if_false, some.injEq] at isChain
      subst isChain
      exact ⟨_, collect_stop (nextDesc_last hasNext) isU16, by simp [write],
        fun i isRead => .inl isRead⟩
    | true =>
      simp only [hasNext, if_true, map_eq_some_iff] at isChain
      obtain ⟨rest, isRest, rfl⟩ := isChain
      obtain ⟨_, nextInRest⟩ := chain_mem isRest
      have readNext : ∀ i ∈ ((walk.write desc).reading desc.next).reads,
          i ∈ walk.reads ∨ i ∈ indx :: rest := by
        intro i isRead
        rcases mem_append.mp isRead with before | now
        · exact .inl before
        · rw [mem_singleton.mp now]
          exact .inr (mem_cons_of_mem _ nextInRest)
      cases next : vq.getDesc read desc.next with
      | error rc =>
        exact ⟨_, collect_stop (nextDesc_error hasNext next) isU16,
          by simp [write, reading], readNext⟩
      | ok desc' =>
        by_cases stops : desc.next % 2 ^ 16 = max
        · exact ⟨_, collect_stop (nextDesc_ok hasNext next) stops,
            by simp [write, reading], readNext⟩
        · rw [collect_continue (nextDesc_ok hasNext next) stops]
          obtain ⟨walk', done, short, reads⟩ := ih isRest next ((walk.write desc).reading desc.next)
          refine ⟨walk', done, ?_, ?_⟩
          · simp only [write, reading, length_append, length_cons, length_nil] at short ⊢
            omega
          · intro i isRead
            rcases reads i isRead with before | inRest
            · exact readNext i before
            · exact .inr (mem_cons_of_mem _ inRest)

theorem collect_cycle (desc : VringDesc) (hasNext : desc.hasNext = true)
    (isDesc : vq.getDesc read desc.next = .ok desc) (notMax : desc.next % 2 ^ 16 ≠ max) (fuel : Nat)
    (walk : Walk) : vq.collect read max fuel desc walk = none := by
  induction fuel generalizing walk with
  | zero => rfl
  | succ fuel ih =>
    rw [collect_continue (nextDesc_ok hasNext isDesc) notMax]
    exact ih _

section Head

variable {head : Nat}

theorem getHeadIovec_direct (ready : vq.ready = true)
    (isDesc : vq.getDesc read head = .ok desc) (direct : desc.isIndirect = false) (fuel : Nat) :
    vq.getHeadIovec read fuel head =
      (vq.collect read (vq.maxDesc % 2 ^ 16) fuel desc ⟨[], 0, [head]⟩).map fun walk =>
        ⟨.ok, walk, walk.iov.length, walk.totalLen, head,
          some (Word.add vq.vring.usedPa (usedRing vq.vring.num), vq.lastAvailIdx)⟩ := by
  simp only [getHeadIovec, ready, isDesc, direct, Bool.not_true, Bool.false_eq_true, if_false]

theorem safeWalk_of_failed {fuel : Nat} {rc : Rc}
    (failed : vq.getHeadIovec read fuel head = some (.failed rc [head])) (notOk : rc ≠ .ok)
    (inTable : head < vq.descCount) : vq.SafeWalk read head := by
  refine ⟨fuel, _, failed, ?_, Nat.zero_le _, fun _ => notOk⟩
  intro indx isRead
  rw [mem_singleton.mp isRead]
  exact inTable

theorem getDesc_error_ne_ok {rc : Rc} (failed : vq.getDesc read head = .error rc) : rc ≠ .ok := by
  simp only [getDesc] at failed
  split at failed
  · cases failed
    decide
  · split at failed
    · cases failed
      decide
    · cases failed

/-- The walk is safe exactly on a head inside the table that is indirect, and so refused, or has
a bounded chain. -/
theorem getHeadIovec_safe_iff (vq : Queue) (ready : vq.ready = true) (read : GuestRead)
    (head : Nat) :
    vq.SafeWalk read head ↔
      head < vq.descCount ∧ (vq.IndirectHead read head ∨ vq.Bounded read head) := by
  cases isDesc : vq.getDesc read head with
  | error rc =>
    have failed : ∀ fuel, vq.getHeadIovec read fuel head = some (.failed rc [head]) := by
      simp [getHeadIovec, ready, isDesc]
    constructor
    · rintro ⟨fuel, outcome, result, reads, _, _⟩
      cases (failed fuel).symm.trans result
      have inTable : head < vq.descCount := reads head (mem_singleton_self _)
      refine ⟨inTable, .inr ⟨[head], ?_, ?_⟩⟩
      · obtain ⟨count, isCount⟩ := Nat.exists_eq_succ_of_ne_zero (Nat.ne_zero_of_lt inTable)
        rw [isCount, chain, isDesc]
      · intro indx isHead
        rw [mem_singleton.mp isHead]
        exact inTable
    · rintro ⟨inTable, _⟩
      exact safeWalk_of_failed (failed 0) (getDesc_error_ne_ok isDesc) inTable
  | ok desc =>
    cases isIndirect : desc.isIndirect with
    | true =>
      have failed : ∀ fuel, vq.getHeadIovec read fuel head = some (.failed .enotsupp [head]) := by
        simp [getHeadIovec, ready, isDesc, isIndirect]
      constructor
      · rintro ⟨fuel, outcome, result, reads, _, _⟩
        cases (failed fuel).symm.trans result
        exact ⟨reads head (mem_singleton_self _), .inl ⟨desc, isDesc, isIndirect⟩⟩
      · rintro ⟨inTable, _⟩
        exact safeWalk_of_failed (failed 0) (by decide) inTable
    | false =>
      have collected := getHeadIovec_direct ready isDesc isIndirect
      constructor
      · rintro ⟨fuel, outcome, result, reads, short, reported⟩
        have bounded : vq.Bounded read head := by
          by_contra unbounded
          rw [collected fuel] at result
          obtain ⟨walk, _, rfl⟩ := map_eq_some_iff.mp result
          exact reported unbounded rfl
        obtain ⟨indices, isChain, inTable⟩ := bounded
        exact ⟨inTable head (chain_mem isChain).2, .inr ⟨indices, isChain, inTable⟩⟩
      · rintro ⟨inTable, ⟨desc', isDesc', indirect⟩ | bounded⟩
        · cases isDesc.symm.trans isDesc'
          cases isIndirect.symm.trans indirect
        · have isBounded := bounded
          obtain ⟨indices, isChain, allInTable⟩ := bounded
          obtain ⟨walk, done, short, reads⟩ :=
            collect_of_chain (Nat.mod_mod vq.maxDesc (2 ^ 16)) isChain isDesc ⟨[], 0, [head]⟩
          refine ⟨vq.descCount, _, by rw [collected, done]; rfl, ?_, ?_, ?_⟩
          · intro indx isRead
            rcases reads indx isRead with isHead | inChain
            · rw [mem_singleton.mp isHead]
              exact inTable
            · exact allInTable indx inChain
          · simp only [length_nil, Nat.zero_add] at short
            exact short.trans (chain_mem isChain).1
          · intro unbounded
            exact absurd isBounded unbounded

end Head

/-! ## What a walk returns -/

theorem pop_ready (ready : vq.ready = true) (read : GuestRead) :
    (vq.pop read).1 = { vq with lastAvailIdx := (vq.lastAvailIdx + 1) % 2 ^ 16 } := by
  simp [pop, ready]

theorem nextDesc_iov (vq : Queue) (read : GuestRead) (desc : VringDesc) (max : Nat) (walk : Walk) :
    (vq.nextDesc read desc max walk).2.2.iov = walk.iov := by
  unfold nextDesc
  split
  · rfl
  · split <;> rfl

theorem collect_iov {walk walk' : Walk}
    (collected : vq.collect read max fuel desc walk = some walk') :
    walk.iov.length < walk'.iov.length := by
  induction fuel generalizing desc walk with
  | zero => cases collected
  | succ fuel ih =>
    have written := nextDesc_iov vq read desc max (walk.write desc)
    have grows : (walk.write desc).iov.length = walk.iov.length + 1 := by simp [write]
    rw [collect] at collected
    generalize vq.nextDesc read desc max (walk.write desc) = step at written collected
    obtain ⟨idx, desc', walk₁⟩ := step
    dsimp only at written collected
    split at collected
    · cases collected
      rw [written]
      omega
    · have later := ih collected
      rw [written] at later
      omega

theorem getHeadIovec_ok {head : Nat} {outcome : Outcome} (ready : vq.ready = true)
    (walked : vq.getHeadIovec read fuel head = some outcome) (ok : outcome.rc = .ok) :
    outcome.head = head ∧ outcome.walk.iov ≠ [] ∧ outcome.availEvent =
        some (Word.add vq.vring.usedPa (usedRing vq.vring.num), vq.lastAvailIdx) := by
  unfold getHeadIovec at walked
  rw [ready] at walked
  simp only [Bool.not_true, Bool.false_eq_true, if_false] at walked
  split at walked
  · next rc failed =>
    cases walked
    exact absurd ok (getDesc_error_ne_ok failed)
  · split at walked
    · cases walked
      cases ok
    · obtain ⟨walk, collected, rfl⟩ := map_eq_some_iff.mp walked
      refine ⟨rfl, ?_, rfl⟩
      intro empty
      have grows := collect_iov collected
      rw [show walk.iov = [] from empty] at grows
      cases grows

end Queue

/-! ## A queue in guest RAM -/

def blkQueue : Queue := ⟨true, 0, ⟨128, 0x1000, 0x1800, 0x2000⟩, 128⟩

/-- Guest memory that is zero except for the flags and the link of descriptor 0. -/
def descriptorZero (flags next : UInt8) : GuestRead :=
  guestRead aliasedGuest 1 fun pa =>
    if pa = 0x9000100C then flags else if pa = 0x9000100E then next else 0

/-- Descriptor 0 links to descriptor 5, which is the last one. -/
theorem getHeadIovec_safe_two : blkQueue.SafeWalk (descriptorZero 1 5) 0 := by
  have first : blkQueue.getDesc (descriptorZero 1 5) 0 = .ok ⟨0, 0, 1, 5⟩ := by decide
  have second : blkQueue.getDesc (descriptorZero 1 5) 5 = .ok ⟨0, 0, 0, 0⟩ := by decide
  have isChain : blkQueue.chain (descriptorZero 1 5) blkQueue.descCount 0 = some [0, 5] := by
    rw [show blkQueue.descCount = 126 + 1 + 1 from rfl]
    simp [Queue.chain, first, second, VringDesc.hasNext]
  exact (Queue.getHeadIovec_safe_iff blkQueue rfl (descriptorZero 1 5) 0).mpr
    ⟨by decide, .inr ⟨[0, 5], isChain, by decide⟩⟩

/-- Descriptor 0 links to itself: the walk never returns. -/
theorem getHeadIovec_never_returns :
    Queue.setup ⟨false, 0, ⟨0, 0, 0, 0⟩, 0⟩ aliasedGuest 1 1 4096 128 4096 = (blkQueue, .ok) ∧
    ∀ fuel, blkQueue.getHeadIovec (descriptorZero 1 0) fuel 0 = none := by
  refine ⟨by decide, ?_⟩
  intro fuel
  have isDesc : blkQueue.getDesc (descriptorZero 1 0) 0 = .ok ⟨0, 0, 1, 0⟩ := by decide
  rw [Queue.getHeadIovec_direct rfl isDesc rfl,
    Queue.collect_cycle ⟨0, 0, 1, 0⟩ rfl isDesc (by decide), map_none]

end Xvisor.Virtio
