import Mathlib.Data.List.Basic

/-!
# Lists cut at one element

A `list_for_each_entry` loop that breaks at its first hit leaves the list cut
in three: the elements passed over, the hit, and the rest. An index cuts a
list in the same way.
-/

namespace Xvisor.Lib

open Function List

universe u v

variable {α : Type u}

def splitAtFirst (test : α → Bool) : List α → Option (List α × α × List α)
  | [] => none
  | a :: rest =>
    if test a then some ([], a, rest)
    else (splitAtFirst test rest).map fun (before, found, after) => (a :: before, found, after)

variable {values : List α}

theorem splitAtFirst_some {test : α → Bool} {before after : List α} {a : α}
    (found : splitAtFirst test values = some (before, a, after)) :
    values = before ++ a :: after ∧ test a = true ∧ ∀ b ∈ before, test b = false := by
  induction values generalizing before with
  | nil => simp [splitAtFirst] at found
  | cons b values ih =>
    unfold splitAtFirst at found
    split_ifs at found with passes
    · simp only [Option.some.injEq, Prod.mk.injEq] at found
      obtain ⟨rfl, rfl, rfl⟩ := found
      exact ⟨rfl, passes, by simp⟩
    · obtain ⟨⟨front, c, back⟩, foundRest, result⟩ := Option.map_eq_some_iff.mp found
      simp only [Prod.mk.injEq] at result
      obtain ⟨rfl, rfl, rfl⟩ := result
      obtain ⟨rfl, passesC, none⟩ := ih foundRest
      exact ⟨rfl, passesC, forall_mem_cons.mpr ⟨by simpa using passes, none⟩⟩

theorem splitAtFirst_none {test : α → Bool}
    (missed : splitAtFirst test values = none) : ∀ b ∈ values, test b = false := by
  induction values with
  | nil => simp
  | cons a values ih =>
    unfold splitAtFirst at missed
    split_ifs at missed with passes
    rw [Option.map_eq_none_iff] at missed
    exact forall_mem_cons.mpr ⟨by simpa using passes, ih missed⟩

theorem getElem?_split {i : Nat} {a : α} (found : values[i]? = some a) :
    ∃ before after, values = before ++ a :: after ∧ before.length = i ∧
      (∀ b, values.set i b = before ++ b :: after) ∧ values.eraseIdx i = before ++ after := by
  induction values generalizing i with
  | nil => cases found
  | cons first rest ih =>
    cases i with
    | zero =>
      cases found
      exact ⟨[], rest, rfl, rfl, fun _ => rfl, rfl⟩
    | succ i =>
      obtain ⟨before, after, rfl, length, replaced, erased⟩ := ih found
      refine ⟨first :: before, after, rfl, congrArg Nat.succ length, ?_, ?_⟩
      · intro b
        rw [set_cons_succ, replaced]
        rfl
      · rw [eraseIdx_cons_succ, erased]
        rfl

/-! Lists whose elements have different keys. -/

section Keys

variable {κ : Type v} {key : α → κ} {a : α}

theorem nodup_map_append_singleton (distinct : (values.map key).Nodup)
    (unused : ∀ b ∈ values, key b ≠ key a) : ((values ++ [a]).map key).Nodup := by
  rw [map_append, nodup_append]
  refine ⟨distinct, by simp, ?_⟩
  simpa using unused

theorem key_ne_of_mem_erase [BEq α] [LawfulBEq α] (distinct : (values.map key).Nodup)
    (mem : a ∈ values) : ∀ b ∈ values.erase a, key b ≠ key a := by
  have nodup := ((perm_cons_erase mem).map key).nodup_iff.mp distinct
  rw [map_cons, nodup_cons] at nodup
  exact fun b isOther same => nodup.1 (same ▸ mem_map_of_mem isOther)

end Keys

/-! A function that is changed at an element in front of a list. -/

section Update

variable {β : Type u} [DecidableEq α] {f : α → β} {a : α} {b : β} {values : List α}
  {P : α → β → Prop}

theorem forall_mem_cons_update (unused : a ∉ values) :
    (∀ x ∈ a :: values, P x (update f a b x)) ↔ P a b ∧ ∀ x ∈ values, P x (f x) := by
  rw [forall_mem_cons, update_self]
  refine and_congr_right' (forall₂_congr fun x mem => ?_)
  rw [update_of_ne (ne_of_mem_of_not_mem mem unused)]

theorem exists_mem_cons_update (unused : a ∉ values) :
    (∃ x ∈ a :: values, P x (update f a b x)) ↔ P a b ∨ ∃ x ∈ values, P x (f x) := by
  rw [exists_mem_cons_iff, update_self]
  refine or_congr_right (exists_congr fun x => and_congr_right fun mem => ?_)
  rw [update_of_ne (ne_of_mem_of_not_mem mem unused)]

end Update

/-! ## Lists of records with a key -/

variable {α : Type u} {κ : Type v} [DecidableEq κ] (key : α → κ)

def findKey (k : κ) (records : List α) : Option α :=
  records.find? fun record => key record = k

def replaceKey (k : κ) (new : α) (records : List α) : List α :=
  records.map fun record => if key record = k then new else record

def dropKey (k : κ) (records : List α) : List α :=
  records.filter fun record => key record ≠ k

variable {key} {k j : κ} {record new : α} {records : List α}

theorem findKey_cons :
    findKey key j (record :: records) =
      if key record = j then some record else findKey key j records := by
  by_cases same : key record = j <;> simp [findKey, same]

theorem replaceKey_cons :
    replaceKey key k new (record :: records) =
      (if key record = k then new else record) :: replaceKey key k new records := by
  simp [replaceKey]

attribute [local simp] findKey_cons replaceKey_cons

theorem dropKey_cons :
    dropKey key k (record :: records) =
      if key record = k then dropKey key k records else record :: dropKey key k records := by
  by_cases same : key record = k <;> simp [dropKey, same]

theorem findKey_some (found : findKey key k records = some record) :
    record ∈ records ∧ key record = k := by
  constructor
  · exact mem_of_find?_eq_some found
  · simpa using List.find?_some found

theorem findKey_of_nodup (distinct : (records.map key).Nodup) (mem : record ∈ records) :
    findKey key (key record) records = some record := by
  induction records with
  | nil => cases mem
  | cons first rest ih =>
    rw [map_cons, nodup_cons] at distinct
    rcases mem_cons.mp mem with rfl | later
    · simp
    · have other : key first ≠ key record := by
        intro same
        apply distinct.1
        rw [same]
        exact mem_map_of_mem later
      simpa [other] using ih distinct.2 later

theorem findKey_replaceKey_self (newKey : key new = k)
    (found : findKey key k records = some record) :
    findKey key k (replaceKey key k new records) = some new := by
  induction records with
  | nil => cases found
  | cons first rest ih =>
    by_cases same : key first = k
    · simp [same, newKey]
    · rw [findKey_cons, if_neg same] at found
      simpa [same] using ih found

theorem findKey_replaceKey_of_ne (newKey : key new = k) (other : j ≠ k) :
    findKey key j (replaceKey key k new records) = findKey key j records := by
  induction records with
  | nil => rfl
  | cons first rest ih =>
    by_cases same : key first = k
    · simp [same, newKey, other.symm, ih]
    · simp [same, ih]

theorem findKey_dropKey_of_ne (other : j ≠ k) :
    findKey key j (dropKey key k records) = findKey key j records := by
  induction records with
  | nil => rfl
  | cons first rest ih =>
    by_cases same : key first = k
    · simp [dropKey_cons, same, other.symm, ih]
    · simp [dropKey_cons, same, ih]

theorem mem_replaceKey (mem : record ∈ replaceKey key k new records) :
    record = new ∨ record ∈ records ∧ key record ≠ k := by
  obtain ⟨old, isOld, rfl⟩ := mem_map.mp mem
  by_cases same : key old = k
  · simp [same]
  · simp [same, isOld]

theorem replaceKey_of_absent (absent : ∀ a ∈ records, key a ≠ k) :
    replaceKey key k new records = records := by
  induction records with
  | nil => rfl
  | cons first rest ih =>
    rw [replaceKey_cons, if_neg (absent first mem_cons_self),
      ih fun a mem => absent a (mem_cons_of_mem _ mem)]

theorem dropKey_of_absent (absent : ∀ a ∈ records, key a ≠ k) :
    dropKey key k records = records := by
  apply filter_eq_self.mpr
  intro a mem
  simpa using absent a mem

theorem findKey_split (distinct : (records.map key).Nodup)
    (found : findKey key k records = some record) :
    ∃ before after, records = before ++ record :: after ∧
      (∀ new, replaceKey key k new records = before ++ new :: after) ∧
      dropKey key k records = before ++ after := by
  induction records with
  | nil => cases found
  | cons first rest ih =>
    rw [map_cons, nodup_cons] at distinct
    by_cases same : key first = k
    · rw [findKey_cons, if_pos same] at found
      cases found
      have absent : ∀ a ∈ rest, key a ≠ k := by
        intro a mem sameKey
        apply distinct.1
        rw [same, ← sameKey]
        exact mem_map_of_mem mem
      refine ⟨[], rest, rfl, ?_, ?_⟩
      · intro new
        simp [same, replaceKey_of_absent absent]
      · simp [dropKey_cons, same, dropKey_of_absent absent]
    · rw [findKey_cons, if_neg same] at found
      obtain ⟨before, after, rfl, replaced, dropped⟩ := ih distinct.2 found
      refine ⟨first :: before, after, rfl, ?_, ?_⟩
      · intro new
        rw [replaceKey_cons, if_neg same, replaced]
        rfl
      · rw [dropKey_cons, if_neg same, dropped]
        rfl

end Xvisor.Lib
