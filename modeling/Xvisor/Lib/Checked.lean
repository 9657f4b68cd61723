import Mathlib.Logic.Function.Basic

/-!
# Checked array accesses

A computation over fixed-size arrays ends with a value, stops at an assertion of
the program, or makes an access outside an array. `InBounds` says that the last
does not happen.
-/

namespace Xvisor.Lib

open List

universe u v

inductive Fault where
  | outOfBounds
  | bug
  deriving DecidableEq, Repr

abbrev Checked := Except Fault

abbrev Table (n : Nat) (α : Type u) := Fin n → α

namespace Table

variable {n : Nat} {α : Type u} (table : Table n α)

def read (i : Nat) : Checked α :=
  if inside : i < n then .ok (table ⟨i, inside⟩) else .error .outOfBounds

def write (i : Nat) (value : α) : Checked (Table n α) :=
  if inside : i < n then .ok (Function.update table ⟨i, inside⟩ value) else .error .outOfBounds

def modify (i : Nat) (f : α → α) : Checked (Table n α) := do
  let value ← table.read i
  table.write i (f value)

end Table

def InBounds {α : Type u} (computation : Checked α) : Prop :=
  computation ≠ .error .outOfBounds

section

variable {n : Nat} {α β : Type u}

@[simp] theorem inBounds_ok (value : α) : InBounds (.ok value) := by
  simp [InBounds]

@[simp] theorem inBounds_pure (value : α) : InBounds (pure value) :=
  inBounds_ok value

@[simp] theorem inBounds_bug : InBounds (throw .bug : Checked α) := by
  simp [InBounds, throw, throwThe, MonadExceptOf.throw]

@[simp] theorem inBounds_bind (first : Checked α) (next : α → Checked β) :
    InBounds (first >>= next) ↔
      InBounds first ∧ ∀ value, first = .ok value → InBounds (next value) := by
  cases first with
  | ok value => simp [bind, Except.bind]
  | error fault => simp [InBounds, bind, Except.bind]

@[simp] theorem inBounds_map (f : α → β) (computation : Checked α) :
    InBounds (f <$> computation) ↔ InBounds computation := by
  cases computation with
  | ok value => simp [Functor.map, Except.map]
  | error fault => simp [InBounds, Functor.map, Except.map]

@[simp] theorem inBounds_ite (condition : Prop) [Decidable condition] (yes no : Checked α) :
    InBounds (if condition then yes else no) ↔
      (condition → InBounds yes) ∧ (¬ condition → InBounds no) := by
  split <;> simp_all

variable (table : Table n α)

@[simp] theorem inBounds_read (i : Nat) : InBounds (table.read i) ↔ i < n := by
  by_cases inside : i < n <;> simp [InBounds, Table.read, inside]

@[simp] theorem inBounds_write (i : Nat) (value : α) : InBounds (table.write i value) ↔ i < n := by
  by_cases inside : i < n <;> simp [InBounds, Table.write, inside]

@[simp] theorem inBounds_modify (i : Nat) (f : α → α) : InBounds (table.modify i f) ↔ i < n := by
  by_cases inside : i < n <;> simp [Table.modify, inside]

theorem inBounds_foldlM {ι : Type v} {body : α → ι → Checked α} {indices : List ι}
    (inside : ∀ i ∈ indices, ∀ state, InBounds (body state i)) (state : α) :
    InBounds (indices.foldlM body state) := by
  induction indices generalizing state with
  | nil => exact inBounds_pure state
  | cons i indices ih =>
    rw [foldlM_cons, inBounds_bind]
    refine ⟨inside i mem_cons_self state, ?_⟩
    intro next _
    apply ih
    exact fun j mem => inside j (mem_cons_of_mem i mem)

theorem inBounds_foldlM_range {body : α → Nat → Checked α} {count : Nat}
    (inside : ∀ i < count, ∀ state, InBounds (body state i)) (state : α) :
    InBounds ((List.range count).foldlM body state) :=
  inBounds_foldlM (fun i mem => inside i (mem_range.mp mem)) state

theorem inBounds_anyM {ι : Type} {test : ι → Checked Bool} {indices : List ι}
    (inside : ∀ i ∈ indices, InBounds (test i)) : InBounds (indices.anyM test) := by
  induction indices with
  | nil => exact inBounds_pure false
  | cons i indices ih =>
    rw [List.anyM, inBounds_bind]
    refine ⟨inside i mem_cons_self, ?_⟩
    intro hit _
    cases hit with
    | true => exact inBounds_pure true
    | false =>
      apply ih
      exact fun j mem => inside j (mem_cons_of_mem i mem)

theorem inBounds_mapM {ι : Type v} {body : ι → Checked α} {indices : List ι}
    (inside : ∀ i ∈ indices, InBounds (body i)) : InBounds (indices.mapM body) := by
  induction indices with
  | nil => exact inBounds_pure []
  | cons i indices ih =>
    rw [mapM_cons, inBounds_bind]
    refine ⟨inside i mem_cons_self, ?_⟩
    intro value _
    rw [inBounds_bind]
    refine ⟨?_, fun _ _ => inBounds_pure _⟩
    apply ih
    exact fun j mem => inside j (mem_cons_of_mem i mem)

end

end Xvisor.Lib
