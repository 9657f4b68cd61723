import Mathlib.Order.BooleanAlgebra.Set

/-!
# Ledgers of taken slots

A ledger says which slots are taken and how many slots each account has left.
Taking slots and giving them back are relations between ledgers, and what was
taken in several steps can be given back in several steps.
-/

namespace Xvisor.Lib

universe u v

@[ext]
structure Ledger (Slot : Type u) (Account : Type v) where
  used : Set Slot
  free : Account → Nat

namespace Ledger

/-- Some slots, and how many of them each account pays for. -/
structure Entry (Slot : Type u) (Account : Type v) where
  slots : Set Slot
  count : Account → Nat

variable {Slot : Type u} {Account : Type v} {entry first second : Entry Slot Account}
  {before middle after : Ledger Slot Account}

namespace Entry

def empty : Entry Slot Account := ⟨∅, fun _ => 0⟩

def append (first second : Entry Slot Account) : Entry Slot Account :=
  ⟨first.slots ∪ second.slots, fun account => first.count account + second.count account⟩

end Entry

structure Takes (entry : Entry Slot Account) (before after : Ledger Slot Account) : Prop where
  fresh : ∀ slot ∈ entry.slots, slot ∉ before.used
  used : after.used = before.used ∪ entry.slots
  free : ∀ account, after.free account + entry.count account = before.free account

structure Gives (entry : Entry Slot Account) (before after : Ledger Slot Account) : Prop where
  used : after.used = before.used \ entry.slots
  free : ∀ account, after.free account = before.free account + entry.count account

namespace Takes

theorem refl (ledger : Ledger Slot Account) : Takes .empty ledger ledger :=
  ⟨fun _ none => none.elim, (Set.union_empty _).symm, fun _ => rfl⟩

theorem trans (one : Takes first before middle) (two : Takes second middle after) :
    Takes (first.append second) before after := by
  refine ⟨?_, ?_, ?_⟩
  · rintro slot (inFirst | inSecond) taken
    · exact one.fresh slot inFirst taken
    · apply two.fresh slot inSecond
      rw [one.used]
      exact Or.inl taken
  · rw [two.used, one.used, Set.union_assoc]
    rfl
  · intro account
    have := one.free account
    have := two.free account
    simp only [Entry.append]
    omega

theorem mem_used (taken : Takes entry before after) {slot : Slot} (used : slot ∈ before.used) :
    slot ∈ after.used := by
  rw [taken.used]
  exact Or.inl used

theorem mem_slots_iff (taken : Takes entry before after) (slot : Slot) :
    slot ∈ entry.slots ↔ slot ∈ after.used ∧ slot ∉ before.used := by
  rw [taken.used]
  constructor
  · intro inEntry
    exact ⟨Or.inr inEntry, taken.fresh slot inEntry⟩
  · rintro ⟨old | new, unused⟩
    · exact absurd old unused
    · exact new

theorem undo (taken : Takes entry before middle) (given : Gives entry middle after) :
    after = before := by
  ext account
  · rw [given.used, taken.used]
    constructor
    · rintro ⟨old | new, kept⟩
      · exact old
      · exact absurd new kept
    · intro old
      exact ⟨Or.inl old, fun new => taken.fresh account new old⟩
  · have := taken.free account
    have := given.free account
    omega

end Takes

namespace Gives

theorem refl (ledger : Ledger Slot Account) : Gives .empty ledger ledger :=
  ⟨Set.sdiff_empty.symm, fun _ => rfl⟩

theorem trans (one : Gives first before middle) (two : Gives second middle after) :
    Gives (first.append second) before after := by
  refine ⟨?_, ?_⟩
  · rw [two.used, one.used, Set.sdiff_sdiff]
    rfl
  · intro account
    have := one.free account
    have := two.free account
    simp only [Entry.append]
    omega

end Gives

end Ledger

end Xvisor.Lib
