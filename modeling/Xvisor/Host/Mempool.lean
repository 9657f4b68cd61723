import Mathlib.Algebra.Group.Nat.Defs
import Xvisor.Smp.Ipi

/-!
# Memory pools

The free entities of a pool are the addresses in a fifo. What is freed goes back into the fifo if
it lies anywhere in the pool.
-/

namespace Xvisor.Host

open List Lib Smp

/-- The memory of a raw, RAM or heap pool. No address in it wraps. -/
structure Mempool where
  entitySize : Nat
  entityCount : Nat
  entityBase : Nat
  nonempty : 0 < entityCount
  small : entityCount * entitySize < 2 ^ 32
  inside : entityBase + entityCount * entitySize ≤ 2 ^ 64

inductive FreeRc where
  | ok
  | einvalid
  | enospc
  deriving DecidableEq

inductive MempoolCall where
  | malloc
  | free (entity : Nat)

/-- The fifo of a pool and the entities handed out. -/
structure MempoolRun where
  f : Fifo Nat
  out : List Nat := []

namespace Mempool

variable (mp : Mempool)

def entities : List Nat := (range mp.entityCount).map (mp.entityBase + · * mp.entitySize)

def create : Fifo Nat :=
  mp.entities.foldl (fun f va => (f.enqueue va false).1) (.alloc 0 mp.entityCount mp.nonempty)

def checkPtr (entity : Nat) : Bool :=
  entity ≠ 0 ∧ mp.entityBase ≤ entity ∧
    entity ≤ (mp.entityBase + mp.entityCount * mp.entitySize) % 2 ^ 64

def free (f : Fifo Nat) (entity : Nat) : Fifo Nat × FreeRc :=
  if mp.checkPtr entity then
    match f.enqueue entity false with
    | (f, true) => (f, .ok)
    | (f, false) => (f, .enospc)
  else (f, .einvalid)

inductive Step (s : MempoolRun) : MempoolCall → MempoolRun → Prop where
  | empty : s.f.dequeue = none → Step s .malloc s
  | malloc {entity f} : s.f.dequeue = some (entity, f) → Step s .malloc ⟨f, entity :: s.out⟩
  | free {entity f rc} : mp.free s.f entity = (f, rc) →
      Step s (.free entity) ⟨f, if rc = .ok then s.out.erase entity else s.out⟩

/-- What lies outside the pool is turned down, and everything while nothing is handed out. -/
def Refuses (s : MempoolRun) (entity : Nat) : Prop := mp.checkPtr entity = false ∨ s.out = []

def FreesHeld (s : MempoolRun) : MempoolCall → Prop
  | .malloc => True
  | .free entity => entity ∈ s.out ∨ mp.Refuses s entity

/-- Every entity is free or handed out, once, and the fifo has room for all. -/
structure Accounted (s : MempoolRun) : Prop where
  once : (s.f.toList ++ s.out).Perm mp.entities
  room : s.f.elementCount = mp.entityCount

variable {mp} {s s' : MempoolRun} {call : MempoolCall}

namespace Accounted

variable (accounted : mp.Accounted s)
include accounted

theorem total : s.f.availCount + s.out.length = mp.entityCount := by
  simpa [entities] using accounted.once.length_eq

theorem isFull_iff : s.f.isFull = true ↔ s.out = [] := by
  have total := accounted.total
  have room := accounted.room
  rw [Fifo.isFull, decide_eq_true_iff, ← length_eq_zero_iff]
  omega

theorem free_cases (entity : Nat) :
    (mp.Refuses s entity ∧ ∃ rc ≠ .ok, mp.free s.f entity = (s.f, rc)) ∨
      ¬ mp.Refuses s entity ∧ ∃ f, mp.free s.f entity = (f, .ok) ∧
        f.toList = s.f.toList ++ [entity] ∧ f.elementCount = s.f.elementCount := by
  unfold Mempool.free Refuses
  cases mp.checkPtr entity with
  | false => exact .inl ⟨.inl rfl, .einvalid, by simp, rfl⟩
  | true =>
    cases full : s.f.isFull with
    | true =>
      rw [Fifo.enqueue_full full]
      exact .inl ⟨.inr (accounted.isFull_iff.mp full), .enospc, by simp, rfl⟩
    | false =>
      obtain ⟨f, enqueued, pushed, same⟩ := Fifo.enqueue_room full entity
      rw [enqueued]
      exact .inr ⟨by simp [← accounted.isFull_iff, full], f, rfl, pushed, same⟩

theorem step (held : mp.FreesHeld s call) (taken : mp.Step s call s') : mp.Accounted s' := by
  cases taken with
  | empty => exact accounted
  | malloc dequeued =>
    refine ⟨?_, (Fifo.elementCount_of_dequeue dequeued).trans accounted.room⟩
    have once := accounted.once
    rw [Fifo.toList_of_dequeue dequeued] at once
    exact perm_middle.trans once
  | @free entity _ _ freed =>
    rcases accounted.free_cases entity with
      ⟨-, rc, notOk, refused⟩ | ⟨taken, f, accepted, pushed, same⟩
    · cases freed.symm.trans refused
      rw [if_neg notOk]
      exact accounted
    · cases freed.symm.trans accepted
      refine ⟨?_, same.trans accounted.room⟩
      rw [pushed, append_assoc]
      exact ((perm_cons_erase (held.resolve_right taken)).symm.append_left _).trans accounted.once

end Accounted

theorem accounted_create : mp.Accounted { f := mp.create } := by
  have filled : ∀ (vas : List Nat) (f : Fifo Nat), f.availCount + vas.length ≤ f.elementCount →
      ∃ f', vas.foldl (fun f va => (f.enqueue va false).1) f = f' ∧ f'.toList = f.toList ++ vas ∧
        f'.elementCount = f.elementCount := by
    intro vas
    induction vas with
    | nil => simp
    | cons va vas ih =>
      intro f room
      rw [length_cons] at room
      have free : f.isFull = false := by
        simp [Fifo.isFull]
        omega
      obtain ⟨f', enqueued, pushed, same⟩ := Fifo.enqueue_room free va
      have count : f'.availCount = f.availCount + 1 := by
        simpa using congrArg length pushed
      obtain ⟨last, all, list, sameCount⟩ := ih f' (by omega)
      rw [foldl_cons, enqueued]
      exact ⟨last, all, by simp [list, pushed], sameCount.trans same⟩
  obtain ⟨f, isFilled, list, room⟩ := filled mp.entities (.alloc 0 mp.entityCount mp.nonempty)
    (by simp [Fifo.alloc, entities])
  rw [create, isFilled]
  exact ⟨.of_eq ((append_nil _).trans list), room⟩

end Mempool

open Mempool

def mempoolSystem (mp : Mempool) : System MempoolRun MempoolCall :=
  ⟨(· = { f := mp.create }), mp.Step⟩

/-- Two entities of 16 bytes. -/
def twoEntities : Mempool := ⟨16, 2, 0x1000, by decide, by decide, by decide⟩

end Xvisor.Host
