import Mathlib.Data.Fintype.Basic
import Xvisor.Lib.System

/-!
# Synchronous IPIs

`vmm_smp_ipi_sync_call` writes a call into the sync fifo of every target and
then polls until each of these fifos has been seen empty. A target takes a call
out of its fifo, runs the function and looks at the fifo again.
-/

namespace Xvisor.Smp

open Function List Lib

universe u v

/-! ## Ring buffers

A fifo stands for the list of its available elements, oldest first. -/

def slot (count i : Nat) : Nat := if i < count then i else i - count

def advance (count pos : Nat) : Nat := if count ≤ pos + 1 then 0 else pos + 1

theorem advance_lt {count pos : Nat} (positive : 0 < count) : advance count pos < count := by
  unfold advance
  split <;> omega

structure Fifo (α : Type u) where
  elements : Nat → α
  elementCount : Nat
  readPos : Nat
  writePos : Nat
  availCount : Nat
  readPos_lt : readPos < elementCount
  availCount_le : availCount ≤ elementCount
  writePos_eq : writePos = slot elementCount (readPos + availCount)

namespace Fifo

variable {α : Type u}

def alloc (zero : α) (count : Nat) (positive : 0 < count) : Fifo α where
  elements _ := zero
  elementCount := count
  readPos := 0
  writePos := 0
  availCount := 0
  readPos_lt := positive
  availCount_le := Nat.zero_le count
  writePos_eq := by simp [slot, positive]

section

variable (f : Fifo α)

def isEmpty : Bool := f.availCount = 0

def isFull : Bool := f.elementCount ≤ f.availCount

def skip (nonempty : f.availCount ≠ 0) : Fifo α where
  elements := f.elements
  elementCount := f.elementCount
  readPos := advance f.elementCount f.readPos
  writePos := f.writePos
  availCount := f.availCount - 1
  readPos_lt := advance_lt (Nat.zero_lt_of_lt f.readPos_lt)
  availCount_le := Nat.le_trans (Nat.sub_le ..) f.availCount_le
  writePos_eq := by
    have bound := f.readPos_lt
    have count := f.availCount_le
    rw [f.writePos_eq]
    unfold slot advance
    split_ifs <;> omega

def push (src : α) (room : f.availCount < f.elementCount) : Fifo α where
  elements := update f.elements f.writePos src
  elementCount := f.elementCount
  readPos := f.readPos
  writePos := advance f.elementCount f.writePos
  availCount := f.availCount + 1
  readPos_lt := f.readPos_lt
  availCount_le := room
  writePos_eq := by
    have bound := f.readPos_lt
    rw [f.writePos_eq]
    unfold slot advance
    split_ifs <;> omega

/-- `fifo_enqueue`; a full fifo gives up its oldest element if it may be overwritten. -/
def enqueue (src : α) (overwrite : Bool) : Fifo α × Bool :=
  let f := if h : overwrite = true ∧ f.elementCount ≤ f.availCount then
    f.skip (Nat.ne_of_gt (Nat.lt_of_lt_of_le (Nat.zero_lt_of_lt f.readPos_lt) h.2)) else f
  if room : f.availCount < f.elementCount then (f.push src room, true) else (f, false)

def dequeue : Option (α × Fifo α) :=
  if nonempty : f.availCount ≠ 0 then some (f.elements f.readPos, f.skip nonempty) else none

def toList : List α :=
  (List.range f.availCount).map fun i => f.elements (slot f.elementCount (f.readPos + i))

@[simp] theorem length_toList : f.toList.length = f.availCount := by
  simp [toList]

end

variable {f : Fifo α}

theorem isEmpty_iff : f.isEmpty = true ↔ f.toList = [] := by
  rw [← length_eq_zero_iff, length_toList]
  simp [isEmpty]

theorem toList_push (f : Fifo α) (src : α) (room : f.availCount < f.elementCount) :
    (f.push src room).toList = f.toList ++ [src] := by
  have newest : slot f.elementCount (f.readPos + f.availCount) = f.writePos := f.writePos_eq.symm
  unfold toList
  simp only [push, range_succ, map_append, map_cons, map_nil]
  congr 1
  · refine map_congr_left fun i member => update_of_ne ?_ ..
    have := mem_range.mp member
    rw [← newest]
    unfold slot
    split_ifs <;> omega
  · rw [newest, update_self]

theorem toList_eq_cons (f : Fifo α) (nonempty : f.availCount ≠ 0) :
    f.toList = f.elements f.readPos :: (f.skip nonempty).toList := by
  have bound := f.readPos_lt
  have count := f.availCount_le
  obtain ⟨n, size⟩ := Nat.exists_eq_succ_of_ne_zero nonempty
  unfold toList
  simp only [skip, size, Nat.succ_sub_one, range_succ_eq_map, map_cons, map_map]
  congr 1
  · congr 1
    unfold slot
    rw [if_pos (by omega), Nat.add_zero]
  · refine map_congr_left fun i member => congrArg f.elements ?_
    have := mem_range.mp member
    simp only [slot, advance, Nat.succ_eq_add_one]
    split_ifs <;> omega

theorem enqueue_full (full : f.isFull = true) (src : α) : f.enqueue src false = (f, false) := by
  have : ¬f.availCount < f.elementCount := by simpa [isFull] using full
  simp [enqueue, this]

theorem enqueue_room (room : f.isFull = false) (src : α) :
    ∃ f' : Fifo α, f.enqueue src false = (f', true) ∧ f'.toList = f.toList ++ [src] ∧
      f'.elementCount = f.elementCount := by
  have free : f.availCount < f.elementCount := by simpa [isFull] using room
  exact ⟨f.push src free, by simp [enqueue, free], toList_push f src free, rfl⟩

theorem elementCount_of_dequeue {f' : Fifo α} {x : α} (taken : f.dequeue = some (x, f')) :
    f'.elementCount = f.elementCount := by
  unfold dequeue at taken
  split at taken <;> cases taken
  rfl

theorem toList_of_dequeue {f' : Fifo α} {x : α} (taken : f.dequeue = some (x, f')) :
    f.toList = x :: f'.toList := by
  unfold dequeue at taken
  split at taken
  next nonempty =>
    cases taken
    exact toList_eq_cons f nonempty
  next => cases taken

end Fifo

/-! ## Calls -/

/-- Callers on host CPUs; `capacity` is `SMP_IPI_MAX_SYNC_PER_CPU`. -/
structure Config (K : Type u) (P : Type v) where
  home : K → P
  online : P → Bool
  capacity : Nat
  capacity_pos : 0 < capacity

/-- `smp_ipi_call`; the function and its arguments are those of a numbered call of the caller. -/
structure IpiCall (K : Type u) (P : Type v) where
  caller : K
  number : Nat
  dst : P
  deriving DecidableEq, Repr

inductive ReturnCode where
  | ok
  | timedOut
  deriving DecidableEq, Repr

/-- Where a caller stands: in the loop over the targets, before an attempt to enqueue, at the head
of the waiting loop, in its inner loop, or after the call. -/
inductive Phase (P : Type v) where
  | idle
  | targets (rest : List P)
  | submitting (c : P) (tries : Nat) (rest : List P)
  | waiting
  | polling (rest : List P)
  | returned (rc : ReturnCode)
  | panicked (enqueued : Bool)
  deriving DecidableEq, Repr

def Phase.remaining {P : Type v} : Phase P → List P
  | .targets rest => rest
  | .submitting c _ rest => c :: rest
  | _ => []

structure Caller (P : Type v) where
  phase : Phase P
  number : Nat
  dest : List P
  timeout : Nat
  trigMask : List P

/-- The fifos and what the host CPUs are running, with the calls submitted to and finished on each
host CPU, oldest first, and those that callers ran themselves. -/
structure IpiState (K : Type u) (P : Type v) where
  fifo : P → Fifo (IpiCall K P)
  executing : P → Option (IpiCall K P)
  caller : K → Caller P
  submitted : P → List (IpiCall K P)
  finished : P → List (IpiCall K P)
  inline : List (IpiCall K P)

def waitTryCount : Nat := 100

variable {K : Type u} {P : Type v} [DecidableEq K] [DecidableEq P]

namespace IpiState

variable (s : IpiState K P) (k : K)

def job (c : P) : IpiCall K P := ⟨k, (s.caller k).number, c⟩

def setCaller (caller : Caller P) : IpiState K P :=
  { s with caller := update s.caller k caller }

def setPhase (phase : Phase P) : IpiState K P :=
  s.setCaller k { s.caller k with phase := phase }

/-- One round of the loop over `dest` in `vmm_smp_ipi_sync_call`, up to a submit. -/
def nextTarget (config : Config K P) (s : IpiState K P) (k : K) : List P → IpiState K P
  | [] =>
    if (s.caller k).trigMask ≠ [] ∧ (s.caller k).timeout ≠ 0 then s.setPhase k .waiting
    else s.setPhase k (.returned .ok)
  | c :: rest =>
    if c = config.home k then
      { s.setPhase k (.targets rest) with inline := s.inline ++ [s.job k c] }
    else if !config.online c then s.setPhase k (.targets rest)
    else s.setPhase k (.submitting c waitTryCount rest)

def attempt (c : P) (tries : Nat) (rest : List P) : IpiState K P :=
  match (s.fifo c).enqueue (s.job k c) false with
  | (f, true) =>
    let s' := { s with
      fifo := update s.fifo c f
      submitted := update s.submitted c (s.submitted c ++ [s.job k c]) }
    if tries = 0 then s'.setPhase k (.panicked true)
    else s'.setCaller k
      { s.caller k with phase := .targets rest, trigMask := (s.caller k).trigMask ++ [c] }
  | (_, false) =>
    if tries = 0 then s.setPhase k (.panicked false)
    else s.setPhase k (.submitting c (tries - 1) rest)

def poll : List P → IpiState K P
  | c :: rest =>
    if (s.fifo c).isEmpty then
      s.setCaller k
        { s.caller k with phase := .polling rest, trigMask := (s.caller k).trigMask.erase c }
    else s.setPhase k (.polling rest)
  | [] =>
    if (s.caller k).trigMask = [] then s.setPhase k (.returned .ok) else s.setPhase k .waiting

def dequeue (s : IpiState K P) (p : P) : Option (IpiState K P) :=
  match (s.fifo p).dequeue with
  | some (ipic, f) => some { s with
      fifo := update s.fifo p f
      executing := update s.executing p (some ipic) }
  | none => none

def finish (p : P) (ipic : IpiCall K P) : IpiState K P :=
  { s with
    executing := update s.executing p none
    finished := update s.finished p (s.finished p ++ [ipic]) }

end IpiState

/-- The atomic steps; `expire` and `scan` are the two outcomes of the test of the clock. -/
inductive Action (K : Type u) (P : Type v) where
  | call (k : K) (dest : List P) (timeout : Nat)
  | nextTarget (k : K)
  | attempt (k : K)
  | expire (k : K)
  | scan (k : K)
  | poll (k : K)
  | dequeue (p : P)
  | finish (p : P)
  deriving DecidableEq, Repr

namespace Action

def run (config : Config K P) (s : IpiState K P) : Action K P → Option (IpiState K P)
  | .call k dest timeout =>
    let start := some (s.setCaller k ⟨.targets dest, (s.caller k).number + 1, dest, timeout, []⟩)
    match (s.caller k).phase with
    | .idle => start
    | .returned _ => start
    | _ => none
  | .nextTarget k =>
    match (s.caller k).phase with
    | .targets rest => some (s.nextTarget config k rest)
    | _ => none
  | .attempt k =>
    match (s.caller k).phase with
    | .submitting c tries rest => some (s.attempt k c tries rest)
    | _ => none
  | .expire k =>
    match (s.caller k).phase with
    | .waiting => some (s.setPhase k (.returned .timedOut))
    | _ => none
  | .scan k =>
    match (s.caller k).phase with
    | .waiting => some (s.setPhase k (.polling (s.caller k).trigMask))
    | _ => none
  | .poll k =>
    match (s.caller k).phase with
    | .polling rest => some (s.poll k rest)
    | _ => none
  | .dequeue p =>
    match s.executing p with
    | none => s.dequeue p
    | some _ => none
  | .finish p =>
    match s.executing p with
    | some ipic => some (s.finish p ipic)
    | none => none

def Enabled : Action K P → Prop
  | .call _ dest _ => dest.Nodup
  | _ => True

variable (s : IpiState K P)

/-- No fifo is seen empty while its host CPU still runs a function of the caller. -/
def PollsIdle (k : K) : Phase P → Prop
  | .polling (c :: _) => (s.fifo c).isEmpty = true → ∀ ipic ∈ s.executing c, ipic.caller ≠ k
  | _ => True

def LastTryFull : Phase P → Prop
  | .submitting c 0 _ => (s.fifo c).isFull = true
  | _ => True

def Orderly : Action K P → Prop
  | .poll k => PollsIdle s k (s.caller k).phase
  | .attempt k => LastTryFull s (s.caller k).phase
  | _ => True

end Action

structure Boot (config : Config K P) (s : IpiState K P) : Prop where
  empty : ∀ p, (s.fifo p).toList = []
  capacity : ∀ p, (s.fifo p).elementCount = config.capacity
  still : ∀ p, s.executing p = none
  idle : ∀ k, (s.caller k).phase = .idle ∧ (s.caller k).dest = [] ∧ (s.caller k).trigMask = []
  noneSubmitted : ∀ p, s.submitted p = []
  noneFinished : ∀ p, s.finished p = []

def ipiSystem (config : Config K P) : System (IpiState K P) (Action K P) where
  init := Boot config
  step s action s' := action.Enabled ∧ action.run config s = some s'

def Done (s : IpiState K P) (k : K) (c : P) : Prop :=
  s.job k c ∈ s.finished c ∨ s.job k c ∈ s.inline

/-- A call with a timeout that returns `VMM_OK` has finished on every online target; every host CPU
has finished what was submitted to it, in that order, up to the call it runs and those in its fifo;
and nobody panics over a call that was enqueued. -/
structure Synchronous (config : Config K P) (s : IpiState K P) : Prop where
  finished : ∀ k, (s.caller k).phase = .returned .ok → (s.caller k).timeout ≠ 0 →
    ∀ c ∈ (s.caller k).dest, config.online c = true → Done s k c
  once : ∀ p, s.submitted p = s.finished p ++ (s.executing p).toList ++ (s.fifo p).toList
  panics : ∀ k, (s.caller k).phase ≠ .panicked true

/-! ## Invariant -/

structure CallerOk (config : Config K P) (s : IpiState K P) (k : K) (caller : Caller P) : Prop where
  awaited : ∀ c ∈ caller.trigMask, ⟨k, caller.number, c⟩ ∈ s.submitted c
  covered : caller.phase ≠ .panicked false → ∀ c ∈ caller.dest, config.online c = true →
    c ∈ caller.phase.remaining ∨ c ∈ caller.trigMask ∨
      (⟨k, caller.number, c⟩ ∈ s.finished c ∨ ⟨k, caller.number, c⟩ ∈ s.inline)
  masked : caller.phase = .returned .ok → caller.timeout ≠ 0 → caller.trigMask = []
  panics : caller.phase ≠ .panicked true

/-- Every host CPU has each call submitted to it once, and every caller still waits for those that
have not finished. -/
structure Tracked (config : Config K P) (s : IpiState K P) : Prop where
  once : ∀ p, s.submitted p = s.finished p ++ (s.executing p).toList ++ (s.fifo p).toList
  callers : ∀ k, CallerOk config s k (s.caller k)

variable {config : Config K P} {s s' : IpiState K P} {caller : Caller P}

omit [DecidableEq K] [DecidableEq P] in
theorem CallerOk.mono {k : K} (ok : CallerOk config s k caller)
    (submitted : ∀ p, s.submitted p ⊆ s'.submitted p)
    (finished : ∀ p, s.finished p ⊆ s'.finished p) (inline : s.inline ⊆ s'.inline) :
    CallerOk config s' k caller where
  awaited c member := submitted c (ok.awaited c member)
  covered running c member online := by
    rcases ok.covered running c member online with remaining | masked | done | done
    · exact .inl remaining
    · exact .inr (.inl masked)
    · exact .inr (.inr (.inl (finished c done)))
    · exact .inr (.inr (.inr (inline done)))
  masked := ok.masked
  panics := ok.panics

omit [DecidableEq K] [DecidableEq P] in
theorem CallerOk.withPhase {k : K} (ok : CallerOk config s k caller)
    {phase : Phase P} (running : caller.phase ≠ .panicked false)
    (remaining : ∀ c ∈ caller.phase.remaining, config.online c = true →
      c ∈ phase.remaining ∨ ⟨k, caller.number, c⟩ ∈ s.inline)
    (masked : phase = .returned .ok → caller.timeout ≠ 0 → caller.trigMask = [])
    (panics : phase ≠ .panicked true) : CallerOk config s k { caller with phase := phase } where
  awaited := ok.awaited
  covered _ c member online := by
    rcases ok.covered running c member online with before | covered
    · rcases remaining c before online with after | done
      · exact .inl after
      · exact .inr (.inr (.inr done))
    · exact .inr covered
  masked := masked
  panics := panics

attribute [local simp] Phase.remaining

namespace Tracked

variable {k : K} (tracked : Tracked config s)
include tracked

omit [DecidableEq P] in
theorem setCaller (ok : CallerOk config s k caller) : Tracked config (s.setCaller k caller) where
  once := tracked.once
  callers k' := by
    have after : CallerOk config s k' ((s.setCaller k caller).caller k') := by
      by_cases own : k' = k
      · subst own
        simp only [IpiState.setCaller, update_self]
        exact ok
      · simp only [IpiState.setCaller, update_of_ne own]
        exact tracked.callers k'
    exact after.mono (fun _ => List.Subset.refl _) (fun _ => List.Subset.refl _)
      (List.Subset.refl _)

omit [DecidableEq P] in
theorem setPhase {before phase : Phase P}
    (current : (s.caller k).phase = before) (running : before ≠ .panicked false)
    (remaining : ∀ c ∈ before.remaining, config.online c = true →
      c ∈ phase.remaining ∨ s.job k c ∈ s.inline)
    (masked : phase = .returned .ok → (s.caller k).timeout ≠ 0 → (s.caller k).trigMask = [])
    (panics : phase ≠ .panicked true) : Tracked config (s.setPhase k phase) := by
  subst current
  exact tracked.setCaller ((tracked.callers k).withPhase running remaining masked panics)

omit [DecidableEq P] in
theorem call (k : K) (dest : List P) (timeout : Nat) :
    Tracked config (s.setCaller k ⟨.targets dest, (s.caller k).number + 1, dest, timeout, []⟩) :=
  tracked.setCaller ⟨by simp, fun _ c member _ => .inl member, by simp, by simp⟩

variable {rest : List P}

theorem nextTarget
    (phase : (s.caller k).phase = .targets rest) : Tracked config (s.nextTarget config k rest) := by
  cases rest with
  | nil =>
    simp only [IpiState.nextTarget]
    split
    · exact tracked.setPhase phase (by simp) (by simp) (by simp) (by simp)
    next done =>
      refine tracked.setPhase phase (by simp) (by simp) (fun _ timeout => ?_)
        (by simp)
      by_contra waiting
      exact done ⟨waiting, timeout⟩
  | cons c rest =>
    simp only [IpiState.nextTarget]
    split
    next own =>
      have ran : Tracked config { s with inline := s.inline ++ [s.job k c] } :=
        ⟨tracked.once, fun k' => (tracked.callers k').mono (fun _ => List.Subset.refl _)
          (fun _ => List.Subset.refl _) (subset_append_left ..)⟩
      refine ran.setPhase (k := k) phase (by simp) ?_ (by simp) (by simp)
      intro c' member _
      rcases mem_cons.mp member with rfl | later
      · exact .inr (mem_append_right _ (mem_singleton.mpr rfl))
      · exact .inl later
    next =>
      split
      next offline =>
        refine tracked.setPhase phase (by simp) ?_ (by simp) (by simp)
        intro c' member online
        rcases mem_cons.mp member with rfl | later
        · simp [online] at offline
        · exact .inl later
      next =>
        exact tracked.setPhase phase (by simp) (fun _ member _ => .inl member) (by simp) (by simp)

variable {ipic : IpiCall K P}

omit [DecidableEq K] in
theorem submit {c : P} {f : Fifo (IpiCall K P)}
    (accepted : f.toList = (s.fifo c).toList ++ [ipic]) :
    Tracked config { s with
      fifo := update s.fifo c f
      submitted := update s.submitted c (s.submitted c ++ [ipic]) } where
  once p := by
    by_cases own : p = c
    · subst own
      simp only [update_self]
      rw [tracked.once p, accepted]
      simp only [append_assoc]
    · simp only [update_of_ne own]
      exact tracked.once p
  callers k := (tracked.callers k).mono
    (fun p => by
      by_cases own : p = c
      · subst own
        simp only [update_self]
        exact subset_append_left ..
      · simp only [update_of_ne own]
        exact List.Subset.refl _)
    (fun _ => List.Subset.refl _) (List.Subset.refl _)

theorem attempt {c : P} {tries : Nat} (phase : (s.caller k).phase = .submitting c tries rest)
    (orderly : tries = 0 → (s.fifo c).isFull = true) :
    Tracked config (s.attempt k c tries rest) := by
  have ok := tracked.callers k
  unfold IpiState.attempt
  cases full : (s.fifo c).isFull with
  | true =>
    rw [Fifo.enqueue_full full]
    dsimp only
    split
    · exact tracked.setCaller ⟨ok.awaited, by simp, by simp, by simp⟩
    · exact tracked.setPhase phase (by simp) (fun _ member _ => .inl member) (by simp) (by simp)
  | false =>
    obtain ⟨f, enqueued, accepted, -⟩ := Fifo.enqueue_room full (s.job k c)
    rw [enqueued]
    dsimp only
    split
    next last => simp [orderly last] at full
    next =>
      have submitted := tracked.submit accepted
      have ok := submitted.callers k
      refine submitted.setCaller ⟨?_, ?_, by simp, by simp⟩
      · intro c' member
        rcases mem_append.mp member with before | new
        · exact ok.awaited c' before
        · rw [mem_singleton.mp new]
          simp [IpiState.job]
      · intro _ c' member online
        rcases ok.covered (by simp [phase]) c' member online with remaining | masked | done
        · simp only [phase, Phase.remaining, mem_cons] at remaining
          rcases remaining with rfl | later
          · exact .inr (.inl (by simp))
          · exact .inl later
        · exact .inr (.inl (mem_append_left _ masked))
        · exact .inr (.inr done)

omit [DecidableEq K] [DecidableEq P] in
theorem finished_of_isEmpty {c : P} (submitted : ipic ∈ s.submitted c)
    (empty : (s.fifo c).isEmpty = true)
    (still : ∀ running, s.executing c = some running → running.caller ≠ ipic.caller) :
    ipic ∈ s.finished c := by
  rw [tracked.once c, Fifo.isEmpty_iff.mp empty, append_nil] at submitted
  rcases mem_append.mp submitted with done | running
  · exact done
  · exact absurd rfl (still ipic (Option.mem_toList.mp running))

theorem poll (phase : (s.caller k).phase = .polling rest)
    (orderly : ∀ c rest', rest = c :: rest' → (s.fifo c).isEmpty = true →
      ∀ ipic, s.executing c = some ipic → ipic.caller ≠ k) : Tracked config (s.poll k rest) := by
  cases rest with
  | nil =>
    simp only [IpiState.poll]
    split
    next none =>
      exact tracked.setPhase phase (by simp) (by simp) (fun _ _ => none) (by simp)
    next => exact tracked.setPhase phase (by simp) (by simp) (by simp) (by simp)
  | cons c rest =>
    simp only [IpiState.poll]
    split
    next empty =>
      have ok := tracked.callers k
      refine tracked.setCaller ⟨?_, ?_, by simp, by simp⟩
      · exact fun c' member => ok.awaited c' (mem_of_mem_erase member)
      · intro _ c' member online
        rcases ok.covered (by simp [phase]) c' member online with remaining | masked | done
        · simp [phase] at remaining
        · by_cases own : c' = c
          · subst own
            exact .inr (.inr (.inl (tracked.finished_of_isEmpty (ok.awaited c' masked) empty
              (orderly c' rest rfl empty))))
          · exact .inr (.inl ((mem_erase_of_ne own).mpr masked))
        · exact .inr (.inr done)
    next => exact tracked.setPhase phase (by simp) (by simp) (by simp) (by simp)

omit [DecidableEq K] in
theorem dequeue {p : P} (still : s.executing p = none)
    (result : s.dequeue p = some s') : Tracked config s' := by
  unfold IpiState.dequeue at result
  split at result
  next ipic f taken =>
    cases result
    have oldest := Fifo.toList_of_dequeue taken
    refine ⟨fun p' => ?_, fun k => (tracked.callers k).mono (fun _ => List.Subset.refl _)
      (fun _ => List.Subset.refl _) (List.Subset.refl _)⟩
    by_cases own : p' = p
    · subst own
      simp only [update_self]
      rw [tracked.once p', still, oldest]
      simp
    · simp only [update_of_ne own]
      exact tracked.once p'
  next => cases result

omit [DecidableEq K] in
theorem finish {p : P}
    (running : s.executing p = some ipic) : Tracked config (s.finish p ipic) := by
  refine ⟨fun p' => ?_, fun k => (tracked.callers k).mono (fun _ => List.Subset.refl _) ?_
    (List.Subset.refl _)⟩
  · by_cases own : p' = p
    · subst own
      simp only [IpiState.finish, update_self]
      rw [tracked.once p', running]
      simp
    · simp only [IpiState.finish, update_of_ne own]
      exact tracked.once p'
  · intro p'
    by_cases own : p' = p
    · subst own
      simp only [IpiState.finish, update_self]
      exact subset_append_left ..
    · simp only [IpiState.finish, update_of_ne own]
      exact List.Subset.refl _

omit [DecidableEq K] [DecidableEq P] in
theorem synchronous : Synchronous config s where
  finished k returned timeout c member online := by
    have ok := tracked.callers k
    rcases ok.covered (by simp [returned]) c member online with remaining | masked | done
    · simp [returned] at remaining
    · simp [ok.masked returned timeout] at masked
    · exact done
  once := tracked.once
  panics k := (tracked.callers k).panics

end Tracked

omit [DecidableEq K] [DecidableEq P] in
theorem Boot.tracked (boot : Boot config s) : Tracked config s := by
  refine ⟨fun p => ?_, fun k => ?_⟩
  · simp [boot.noneSubmitted, boot.noneFinished, boot.still, boot.empty]
  · obtain ⟨phase, dest, mask⟩ := boot.idle k
    exact ⟨by simp [mask], by simp [dest], by simp [phase], by simp [phase]⟩

theorem Action.run_tracked {action : Action K P} (tracked : Tracked config s)
    (orderly : action.Orderly s) (result : action.run config s = some s') : Tracked config s' := by
  cases action <;> simp only [Action.run] at result
  case call k dest timeout =>
    split at result
    · cases result
      exact tracked.call k dest timeout
    · cases result
      exact tracked.call k dest timeout
    · cases result
  case nextTarget k =>
    split at result
    · next phase =>
      cases result
      exact tracked.nextTarget phase
    · cases result
  case attempt k =>
    split at result
    · next c tries rest phase =>
      cases result
      refine tracked.attempt phase fun last => ?_
      subst last
      simp only [Action.Orderly, phase] at orderly
      exact orderly
    · cases result
  case expire k =>
    split at result
    · next phase =>
      cases result
      exact tracked.setPhase phase (by simp) (by simp) (by simp) (by simp)
    · cases result
  case scan k =>
    split at result
    · next phase =>
      cases result
      exact tracked.setPhase phase (by simp) (by simp) (by simp) (by simp)
    · cases result
  case poll k =>
    split at result
    · next rest phase =>
      cases result
      refine tracked.poll phase fun c rest' tail => ?_
      subst tail
      simp only [Action.Orderly, phase] at orderly
      exact orderly
    · cases result
  case dequeue p =>
    split at result
    · next still => exact tracked.dequeue still result
    · cases result
  case finish p =>
    split at result
    · next running =>
      cases result
      exact tracked.finish running
    · cases result

/-- In every run in which no caller sees a fifo empty while its own call still runs on that host
CPU, and no submit finds room at the attempt after its last delay, synchronous IPIs are
synchronous. -/
theorem ipiSystem_synchronous
    (reached : ((ipiSystem config).restrict fun s action => action.Orderly s).Reachable s) :
    Synchronous config s := by
  apply Tracked.synchronous
  apply reached.invariant (Tracked config)
  · exact fun _ boot => Boot.tracked boot
  · rintro s action s' tracked ⟨orderly, -, result⟩
    exact Action.run_tracked tracked orderly result

instance : (action : Action K P) → Decidable action.Enabled
  | .call _ dest _ => inferInstanceAs (Decidable dest.Nodup)
  | .nextTarget _ => isTrue trivial
  | .attempt _ => isTrue trivial
  | .expire _ => isTrue trivial
  | .scan _ => isTrue trivial
  | .poll _ => isTrue trivial
  | .dequeue _ => isTrue trivial
  | .finish _ => isTrue trivial

instance (s : IpiState K P) (k : K) : (phase : Phase P) → Decidable (Action.PollsIdle s k phase)
  | .polling (c :: _) => inferInstanceAs (Decidable ((s.fifo c).isEmpty = true →
      ∀ ipic ∈ s.executing c, ipic.caller ≠ k))
  | .polling [] => isTrue trivial
  | .idle => isTrue trivial
  | .targets _ => isTrue trivial
  | .submitting .. => isTrue trivial
  | .waiting => isTrue trivial
  | .returned _ => isTrue trivial
  | .panicked _ => isTrue trivial

instance (s : IpiState K P) : (phase : Phase P) → Decidable (Action.LastTryFull s phase)
  | .submitting c 0 _ => inferInstanceAs (Decidable ((s.fifo c).isFull = true))
  | .submitting _ (_ + 1) _ => isTrue trivial
  | .polling _ => isTrue trivial
  | .idle => isTrue trivial
  | .targets _ => isTrue trivial
  | .waiting => isTrue trivial
  | .returned _ => isTrue trivial
  | .panicked _ => isTrue trivial

instance (s : IpiState K P) : (action : Action K P) → Decidable (action.Orderly s)
  | .poll k => inferInstanceAs (Decidable (Action.PollsIdle s k (s.caller k).phase))
  | .attempt k => inferInstanceAs (Decidable (Action.LastTryFull s (s.caller k).phase))
  | .call .. => isTrue trivial
  | .nextTarget _ => isTrue trivial
  | .expire _ => isTrue trivial
  | .scan _ => isTrue trivial
  | .dequeue _ => isTrue trivial
  | .finish _ => isTrue trivial

instance (s : IpiState K P) (k : K) (c : P) : Decidable (Done s k c) :=
  inferInstanceAs (Decidable (_ ∨ _))

/-- One caller on host CPU `false`, with host CPU `true` online. -/
def twoCpus : Config Unit Bool := ⟨fun _ => false, fun _ => true, 1, Nat.one_pos⟩

def twoCpusStart : IpiState Unit Bool where
  fifo _ := .alloc ⟨(), 0, false⟩ 1 Nat.one_pos
  executing _ := none
  caller _ := ⟨.idle, 0, [], 0, []⟩
  submitted _ := []
  finished _ := []
  inline := []

theorem twoCpusStart_boot : Boot twoCpus twoCpusStart :=
  ⟨fun _ => rfl, fun _ => rfl, fun _ => rfl, fun _ => ⟨rfl, rfl, rfl⟩, fun _ => rfl, fun _ => rfl⟩

theorem ipiSystem_synchronous_returned :
    ∃ s, (s.caller ()).phase = .returned .ok ∧ s.finished true = [⟨(), 1, true⟩] ∧
      Synchronous twoCpus s := by
  refine ⟨_, ?_, ?_, ipiSystem_synchronous (.replay (.start twoCpusStart_boot)
    (fun s action => action.Enabled ∧ action.Orderly s) (Action.run twoCpus)
    [.call () [false, true] 1, .nextTarget (), .nextTarget (), .attempt (), .nextTarget (),
      .scan (), .poll (), .poll (), .dequeue true, .finish true, .scan (), .poll (), .poll ()]
    ?_ (by decide))⟩
  · decide
  · decide
  · exact fun allowed result => ⟨allowed.2, allowed.1, result⟩

set_option maxRecDepth 4096 in
/-- A caller polls after the target has taken the call out of its fifo and before the function has
run; and a submit that gets its call into the fifo at the last attempt panics. -/
theorem syncCall_returns_early_and_submit_panics :
    (∃ s, (ipiSystem twoCpus).Reachable s ∧ (s.caller ()).phase = .returned .ok ∧
      s.executing true = some ⟨(), 1, true⟩ ∧ ¬Synchronous twoCpus s) ∧
    ∃ s, (ipiSystem twoCpus).Reachable s ∧ (s.caller ()).phase = .panicked true := by
  refine ⟨⟨_, .replay (.start twoCpusStart_boot)
    (fun _ action => action.Enabled) (Action.run twoCpus)
    [.call () [true] 1, .nextTarget (), .attempt (), .nextTarget (), .scan (), .dequeue true,
      .poll (), .poll ()]
    And.intro (by decide), by decide, by decide, ?_⟩,
    ⟨_, .replay (.start twoCpusStart_boot)
      (fun _ action => action.Enabled) (Action.run twoCpus)
      ([.call () [true] 0, .nextTarget (), .attempt (), .nextTarget (), .call () [true] 0,
        .nextTarget ()] ++ List.replicate 100 (.attempt ()) ++ [.dequeue true, .attempt ()])
      And.intro (by decide), by decide⟩⟩
  intro synchronous
  have done := synchronous.finished () (by decide) (by decide) true (by decide) rfl
  revert done
  decide

end Xvisor.Smp
