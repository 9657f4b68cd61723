import Xvisor.Nested.Shadow

/-!
# The software TLB and its shadow page table

Each entry of the array is on exactly one list of its half, the shadow page table
is the shadow pages of the entries in use, and each of these is what a miss
installs.
-/

namespace Xvisor.Nested

open Function List Lib Mmu Swtlb

def slotsOf (itlb : Bool) : List Nat :=
  if itlb then List.range xtlbMaxEntry else List.range' xtlbMaxEntry xtlbMaxEntry

def Xtlb.slots (x : Xtlb) : List Nat := x.activeList ++ x.freeList

structure Sound {config : Config} (world : World) (s : Npriv config) : Prop where
  lists : ∀ itlb, (s.swtlb.xtlb itlb).slots.Perm (slotsOf itlb)
  shadowed : Shadowed s.swtlb.entries s.swtlb.active s.pgtbl
  filled : ∀ slot ∈ s.swtlb.active, Filled world (s.swtlb.entries slot)

/-! ## Lists -/

section Lists

variable {t : Swtlb} {itlb : Bool} {slot : Nat}

@[simp] theorem Swtlb.xtlb_setXtlb (t : Swtlb) (itlb : Bool) (x : Xtlb) :
    (t.setXtlb itlb x).xtlb itlb = x := by
  cases itlb <;> rfl

theorem Swtlb.xtlb_setXtlb_of_ne {other : Bool} (different : other ≠ itlb) (x : Xtlb) :
    (t.setXtlb itlb x).xtlb other = t.xtlb other := by
  cases itlb <;> cases other <;> first | rfl | exact absurd rfl different

@[simp] theorem Swtlb.entries_setXtlb (t : Swtlb) (itlb : Bool) (x : Xtlb) :
    (t.setXtlb itlb x).entries = t.entries := by
  cases itlb <;> rfl

theorem slotsOf_unique {other : Bool} (here : slot ∈ slotsOf itlb) (there : slot ∈ slotsOf other) :
    other = itlb := by
  cases itlb <;> cases other <;> simp [slotsOf] at here there ⊢ <;> omega

theorem slotsOf_nodup (itlb : Bool) : (slotsOf itlb).Nodup := by
  cases itlb with
  | false =>
    simp only [slotsOf, reduceCtorEq, reduceIte]
    exact nodup_range'
  | true =>
    simp only [slotsOf, if_true]
    exact nodup_range

theorem slotsOf_ne_nil (itlb : Bool) : slotsOf itlb ≠ [] := by
  cases itlb <;> simp [slotsOf, xtlbMaxEntry]

theorem Swtlb.mem_active_half (itlb : Bool) :
    slot ∈ t.active ↔
      slot ∈ (t.xtlb itlb).activeList ∨ ∃ other ≠ itlb, slot ∈ (t.xtlb other).activeList := by
  rw [mem_active]
  constructor
  · rintro ⟨other, mem⟩
    by_cases same : other = itlb
    · exact .inl (same ▸ mem)
    · exact .inr ⟨other, same, mem⟩
  · rintro (mem | ⟨other, _, mem⟩)
    · exact ⟨itlb, mem⟩
    · exact ⟨other, mem⟩

theorem mem_active_setXtlb {x : Xtlb} :
    slot ∈ (t.setXtlb itlb x).active ↔
      slot ∈ x.activeList ∨ ∃ other ≠ itlb, slot ∈ (t.xtlb other).activeList := by
  rw [mem_active_half itlb, xtlb_setXtlb]
  refine or_congr_right (exists_congr fun other => and_congr_right fun different => ?_)
  rw [xtlb_setXtlb_of_ne different]

theorem lists_setXtlb {x : Xtlb} (lists : ∀ itlb, (t.xtlb itlb).slots.Perm (slotsOf itlb))
    (changed : x.slots.Perm (slotsOf itlb)) (other : Bool) :
    ((t.setXtlb itlb x).xtlb other).slots.Perm (slotsOf other) := by
  by_cases same : other = itlb
  · subst same
    rw [xtlb_setXtlb]
    exact changed
  · rw [xtlb_setXtlb_of_ne same]
    exact lists other

end Lists

/-! ## Lookup -/

section Lookup

variable {config : Config} {world : World} {s : Npriv config} {gpa : Nat}

theorem nestedSwtlbLookup_cases (t : Swtlb) (gpa : Nat) :
    (∃ itlb slot, slot ∈ (t.xtlb itlb).activeList ∧ (t.entries slot).shadows gpa ∧
      nestedSwtlbLookup t gpa =
        (some (t.entries slot), t.setXtlb itlb ((t.xtlb itlb).touch slot))) ∨
    ((∀ slot ∈ t.active, ¬ (t.entries slot).shadows gpa) ∧ nestedSwtlbLookup t gpa = (none, t)) := by
  have found : ∀ {itlb slot}, t.find itlb gpa = some slot →
      slot ∈ (t.xtlb itlb).activeList ∧ (t.entries slot).shadows gpa := by
    intro itlb slot isFound
    have test := List.find?_some isFound
    exact ⟨mem_of_find?_eq_some isFound, of_decide_eq_true test⟩
  have missing : ∀ {itlb}, t.find itlb gpa = none →
      ∀ slot ∈ (t.xtlb itlb).activeList, ¬ (t.entries slot).shadows gpa := by
    intro itlb isMissing slot mem
    exact of_decide_eq_false
      (Bool.eq_false_iff.mpr (List.find?_eq_none.mp isMissing slot mem))
  unfold nestedSwtlbLookup
  cases inItlb : t.find true gpa with
  | some slot => exact .inl ⟨true, slot, (found inItlb).1, (found inItlb).2, rfl⟩
  | none =>
    cases inDtlb : t.find false gpa with
    | some slot => exact .inl ⟨false, slot, (found inDtlb).1, (found inDtlb).2, rfl⟩
    | none =>
      refine .inr ⟨?_, rfl⟩
      intro slot mem
      obtain ⟨itlb, mem⟩ := mem_active.mp mem
      cases itlb with
      | true => exact missing inItlb slot mem
      | false => exact missing inDtlb slot mem

variable {slot : Nat}

theorem Xtlb.touch_perm {x : Xtlb} (mem : slot ∈ x.activeList) :
    (x.touch slot).activeList.Perm x.activeList :=
  (perm_cons_erase mem).symm

variable {itlb : Bool}

theorem mem_active_touch {t : Swtlb} {other : Nat} (mem : slot ∈ (t.xtlb itlb).activeList) :
    other ∈ (t.setXtlb itlb ((t.xtlb itlb).touch slot)).active ↔ other ∈ t.active := by
  rw [mem_active_setXtlb, (Xtlb.touch_perm mem).mem_iff, mem_active_half itlb]

def Npriv.touch (s : Npriv config) (itlb : Bool) (slot : Nat) : Npriv config :=
  { s with swtlb := s.swtlb.setXtlb itlb ((s.swtlb.xtlb itlb).touch slot) }

theorem Sound.touch (sound : Sound world s) (mem : slot ∈ (s.swtlb.xtlb itlb).activeList) :
    Sound world (s.touch itlb slot) where
  lists := lists_setXtlb sound.lists
    (((Xtlb.touch_perm mem).append_right _).trans (sound.lists itlb))
  shadowed := by
    rw [Npriv.touch, entries_setXtlb]
    exact sound.shadowed.perm fun _ => mem_active_touch mem
  filled := by
    intro other isActive
    rw [Npriv.touch, entries_setXtlb]
    exact sound.filled other ((mem_active_touch mem).mp isActive)

def Remembers (s : Npriv config) (gpa : Nat) : Prop :=
  ∃ slot ∈ s.swtlb.active, (s.swtlb.entries slot).shadows gpa

theorem remembers_touch (mem : slot ∈ (s.swtlb.xtlb itlb).activeList) :
    Remembers (s.touch itlb slot) gpa ↔ Remembers s gpa := by
  simp only [Remembers, Npriv.touch, entries_setXtlb, mem_active_touch mem]

theorem freeList_touch (s : Npriv config) (itlb half : Bool) (slot : Nat) :
    ((s.touch itlb slot).swtlb.xtlb half).freeList = (s.swtlb.xtlb half).freeList := by
  cases itlb <;> cases half <;> rfl

end Lookup

/-! ## Update -/

section Update

variable {config : Config} {world : World} {s : Npriv config} {gpa : Nat}

theorem takeSlot_cases (lists : ∀ itlb, (s.swtlb.xtlb itlb).slots.Perm (slotsOf itlb))
    (itlb : Bool) :
    ∃ slot x, (slot :: x.slots).Perm (slotsOf itlb) ∧
      (∀ other ∈ x.activeList, other ∈ (s.swtlb.xtlb itlb).activeList) ∧
      (takeSlot s (s.swtlb.xtlb itlb) = some (slot, x, s.pgtbl) ∧
          (∀ other, other ∈ (s.swtlb.setXtlb itlb x).active ↔ other ∈ s.swtlb.active) ∨
        slot ∈ s.swtlb.active ∧
          (∀ pgtbl, s.pgtbl.unmapPage (s.swtlb.entries slot).shadowPage = (pgtbl, .ok) →
            takeSlot s (s.swtlb.xtlb itlb) = some (slot, x, pgtbl)) ∧
          ∀ other, other ∈ (s.swtlb.setXtlb itlb x).active ↔
            other ∈ s.swtlb.active.filter (· ≠ slot)) := by
  have half := lists itlb
  unfold takeSlot
  cases isFree : (s.swtlb.xtlb itlb).freeList with
  | cons slot rest =>
    refine ⟨slot, { s.swtlb.xtlb itlb with freeList := rest }, ?_, fun _ mem => mem, .inl ⟨rfl, ?_⟩⟩
    · rw [Xtlb.slots, isFree] at half
      exact (perm_middle.symm).trans half
    · intro other
      rw [mem_active_setXtlb, mem_active_half itlb]
  | nil =>
    rw [Xtlb.slots, isFree, append_nil] at half
    cases isLast : (s.swtlb.xtlb itlb).activeList.getLast? with
    | none =>
      rw [List.getLast?_eq_none_iff.mp isLast] at half
      exact absurd half.symm.eq_nil (slotsOf_ne_nil itlb)
    | some slot =>
      obtain ⟨before, isActive⟩ := List.getLast?_eq_some_iff.mp isLast
      rw [isActive] at half
      have nodup := (half.nodup_iff).mpr (slotsOf_nodup itlb)
      have last : slot ∉ before := by
        intro isBefore
        exact (nodup_append.mp nodup).2.2 slot isBefore slot mem_cons_self rfl
      refine ⟨slot, ⟨(s.swtlb.xtlb itlb).activeList.dropLast, []⟩, ?_, ?_, .inr ⟨?_, ?_, ?_⟩⟩
      · simp only [Xtlb.slots, append_nil, isActive, dropLast_concat]
        exact (perm_append_singleton slot before).symm.trans half
      · intro other isOther
        exact dropLast_subset _ isOther
      · rw [mem_active]
        refine ⟨itlb, ?_⟩
        rw [isActive]
        exact mem_append_right _ mem_cons_self
      · intro pgtbl unmapped
        simp only [unmapped]
      · intro other
        rw [mem_active_setXtlb, mem_filter, decide_eq_true_eq, mem_active_half itlb]
        simp only [isActive, dropLast_concat, mem_append, mem_singleton]
        constructor
        · rintro (isHere | ⟨other, different, isThere⟩)
          · refine ⟨.inl (.inl isHere), ?_⟩
            rintro rfl
            exact last isHere
          · refine ⟨.inr ⟨other, different, isThere⟩, ?_⟩
            rintro rfl
            have inOther := (lists other).mem_iff.mp (mem_append_left _ isThere)
            have inItlb := half.mem_iff.mp (mem_append_right _ mem_cons_self)
            exact different (slotsOf_unique inItlb inOther)
        · rintro ⟨(isBefore | isSlot) | isThere, different⟩
          · exact .inl isBefore
          · exact absurd isSlot different
          · exact .inr isThere

theorem Sound.takeSlot (isStage2 : config.stage = .stage2) (sound : Sound world s) (itlb : Bool) :
    ∃ slot x pgtbl, takeSlot s (s.swtlb.xtlb itlb) = some (slot, x, pgtbl) ∧
      (slot :: x.slots).Perm (slotsOf itlb) ∧
      (∀ other ∈ x.activeList, other ∈ (s.swtlb.xtlb itlb).activeList) ∧
      Shadowed s.swtlb.entries (s.swtlb.setXtlb itlb x).active pgtbl ∧
      s.pgtbl.alloc.Returns pgtbl.alloc := by
  obtain ⟨slot, x, lists, kept, ⟨taken, same⟩ | ⟨inUse, taken, rest⟩⟩ :=
    takeSlot_cases sound.lists itlb
  · exact ⟨slot, x, s.pgtbl, taken, lists, kept, sound.shadowed.perm same, .refl _⟩
  · obtain ⟨pgtbl, unmapped, shadowed, returns⟩ := sound.shadowed.unmapPage isStage2 inUse
    exact ⟨slot, x, pgtbl, taken pgtbl unmapped, lists, kept, shadowed.perm rest, returns⟩

variable {itlb : Bool} {slot : Nat}

theorem taken_unused (lists : ∀ itlb, (s.swtlb.xtlb itlb).slots.Perm (slotsOf itlb)) {x : Xtlb}
    (taken : (slot :: x.slots).Perm (slotsOf itlb)) : slot ∉ (s.swtlb.setXtlb itlb x).active := by
  intro mem
  rcases mem_active_setXtlb.mp mem with here | ⟨half, different, there⟩
  · have nodup := taken.nodup_iff.mpr (slotsOf_nodup itlb)
    exact (nodup_cons.mp nodup).1 (mem_append_left _ here)
  · have inHalf := (lists half).mem_iff.mp (mem_append_left _ there)
    exact different (slotsOf_unique (taken.mem_iff.mp mem_cons_self) inHalf)

theorem mem_active_push {x : Xtlb} {entries : Nat → SwtlbEntry} (other : Nat) :
    other ∈ ({ s.swtlb with entries := entries }.setXtlb itlb
        { x with activeList := slot :: x.activeList }).active ↔
      other ∈ slot :: (s.swtlb.setXtlb itlb x).active := by
  rw [mem_active_setXtlb, mem_cons, mem_cons, mem_active_setXtlb, or_assoc]
  rfl

theorem mem_active_of_taken {x : Xtlb}
    (kept : ∀ other ∈ x.activeList, other ∈ (s.swtlb.xtlb itlb).activeList) {other : Nat}
    (mem : other ∈ (s.swtlb.setXtlb itlb x).active) : other ∈ s.swtlb.active := by
  rw [mem_active_half itlb]
  exact (mem_active_setXtlb.mp mem).imp_left (kept other)

variable {e : SwtlbEntry}

theorem Sound.nestedSwtlbUpdate (isStage2 : config.stage = .stage2) (isStart : 2 ≤ config.start)
    (sound : Sound world s) (itlb : Bool) (placed : Placed config e.shadowPage)
    (filled : Filled world e)
    (apart : ∀ other ∈ s.swtlb.active, ∀ gpa, e.shadows gpa → ¬ (s.swtlb.entries other).shadows gpa)
    (supplied : s.pgtbl.alloc.Supplied config.start) :
    ∃ s', Nested.nestedSwtlbUpdate s itlb e.page e.shadowPage e.shadowRegFlags = some s' ∧
      Sound world s' ∧ (∀ slot ∈ s'.swtlb.active, s'.swtlb.entries slot = e ∨
        slot ∈ s.swtlb.active ∧ s'.swtlb.entries slot = s.swtlb.entries slot) ∧
      ∀ n, s.pgtbl.alloc.Supplied (config.start + n) → s'.pgtbl.alloc.Supplied n := by
  obtain ⟨slot, x, pgtbl, taken, lists, kept, shadowed, returns⟩ := sound.takeSlot isStage2 itlb
  have wasActive : ∀ other ∈ (s.swtlb.setXtlb itlb x).active, other ∈ s.swtlb.active :=
    fun _ => mem_active_of_taken kept
  have unused := taken_unused sound.lists lists
  obtain ⟨pgtbl', mapped, shadowed', left⟩ := shadowed.mapPage isStage2 isStart placed unused
    (fun other mem => apart other (wasActive other mem)) (returns.supplied supplied)
  have entriesOf : ∀ other ∈ slot :: (s.swtlb.setXtlb itlb x).active,
      update s.swtlb.entries slot e other = e ∨ other ∈ s.swtlb.active ∧
        update s.swtlb.entries slot e other = s.swtlb.entries other := by
    refine (forall_mem_cons_update unused (P := fun other now => now = e ∨
      other ∈ s.swtlb.active ∧ now = s.swtlb.entries other)).mpr ⟨.inl rfl, ?_⟩
    exact fun other mem => .inr ⟨wasActive other mem, rfl⟩
  have updated : Nested.nestedSwtlbUpdate s itlb e.page e.shadowPage e.shadowRegFlags = some
      ⟨{ s.swtlb with entries := update s.swtlb.entries slot e }.setXtlb itlb
        { x with activeList := slot :: x.activeList }, pgtbl'⟩ := by
    simp only [Nested.nestedSwtlbUpdate, taken, mapped]
  refine ⟨_, updated, ⟨?_, ?_, ?_⟩, ?_, fun n supplied => left n (returns.supplied supplied)⟩
  · apply lists_setXtlb
    · exact sound.lists
    · exact lists
  · rw [entries_setXtlb]
    exact shadowed'.perm mem_active_push
  · intro other mem
    rw [entries_setXtlb]
    show Filled world (update s.swtlb.entries slot e other)
    rcases entriesOf other ((mem_active_push other).mp mem) with isNew | ⟨wasActive, isOld⟩
    · rw [isNew]
      exact filled
    · rw [isOld]
      exact sound.filled other wasActive
  · intro other mem
    rw [entries_setXtlb]
    exact entriesOf other ((mem_active_push other).mp mem)

theorem nestedSwtlbUpdate_of_free {s' : Npriv config} {rest : List Nat}
    (isFree : (s.swtlb.xtlb itlb).freeList = slot :: rest)
    (updated : nestedSwtlbUpdate s itlb e.page e.shadowPage e.shadowRegFlags = some s') :
    s'.swtlb = { s.swtlb with entries := update s.swtlb.entries slot e }.setXtlb itlb
      ⟨slot :: (s.swtlb.xtlb itlb).activeList, rest⟩ := by
  simp only [nestedSwtlbUpdate, takeSlot, isFree] at updated
  split at updated
  · exact congrArg Npriv.swtlb (Option.some.inj updated).symm
  · cases updated

theorem Sound.remembers_update {s' : Npriv config} {rest : List Nat} (sound : Sound world s)
    (isFree : (s.swtlb.xtlb itlb).freeList = slot :: rest)
    (updated : Nested.nestedSwtlbUpdate s itlb e.page e.shadowPage e.shadowRegFlags = some s') :
    Remembers s' gpa ↔ Remembers s gpa ∨ e.shadows gpa := by
  have half := sound.lists itlb
  rw [Xtlb.slots, isFree] at half
  have unused := taken_unused sound.lists
    (x := ⟨(s.swtlb.xtlb itlb).activeList, rest⟩) (perm_middle.symm.trans half)
  unfold Remembers
  rw [nestedSwtlbUpdate_of_free isFree updated, entries_setXtlb]
  refine (exists_congr fun other => and_congr_left' (mem_active_push
    (x := ⟨(s.swtlb.xtlb itlb).activeList, rest⟩) other)).trans ?_
  refine (exists_mem_cons_update unused (P := fun _ (e : SwtlbEntry) => e.shadows gpa)).trans ?_
  simp only [mem_active_setXtlb, ← mem_active_half]
  exact or_comm

end Update

/-! ## Flush -/

section Flush

variable {config : Config} {world : World} {s : Npriv config}

theorem unmapShadows_keeps {entries : Nat → SwtlbEntry} (P : List Nat → MmuState config → Prop)
    (sameSlots : ∀ {slots slots' pgtbl}, P slots pgtbl → (∀ slot, slot ∈ slots' ↔ slot ∈ slots) →
      P slots' pgtbl) (unmapOne : ∀ {slots pgtbl slot}, P slots pgtbl → slot ∈ slots →
      ∃ pgtbl', pgtbl.unmapPage (entries slot).shadowPage = (pgtbl', .ok) ∧
        P (slots.filter (· ≠ slot)) pgtbl')
    {slots flushed : List Nat} {pgtbl : MmuState config} (holds : P slots pgtbl)
    (nodup : flushed.Nodup) (inUse : ∀ slot ∈ flushed, slot ∈ slots) :
    ∃ pgtbl', unmapShadows entries flushed pgtbl = some pgtbl' ∧
      P (slots.filter (· ∉ flushed)) pgtbl' := by
  induction flushed generalizing slots pgtbl with
  | nil =>
    refine ⟨pgtbl, rfl, sameSlots holds ?_⟩
    simp
  | cons slot flushed ih =>
    obtain ⟨isFirst, nodup⟩ := nodup_cons.mp nodup
    obtain ⟨pgtbl₁, unmapped, holds₁⟩ := unmapOne holds (inUse slot mem_cons_self)
    have stillInUse : ∀ other ∈ flushed, other ∈ slots.filter (· ≠ slot) := by
      intro other mem
      refine mem_filter.mpr ⟨inUse other (mem_cons_of_mem _ mem), ?_⟩
      rw [decide_eq_true_eq]
      rintro rfl
      exact isFirst mem
    obtain ⟨pgtbl₂, rest, holds₂⟩ := ih holds₁ nodup stillInUse
    refine ⟨pgtbl₂, ?_, sameSlots holds₂ ?_⟩
    · rw [unmapShadows, unmapped]
      exact rest
    · intro other
      simp only [mem_filter, mem_cons, decide_eq_true_eq, not_or, and_assoc]

theorem active_nodup (lists : ∀ itlb, (s.swtlb.xtlb itlb).slots.Perm (slotsOf itlb))
    (itlb : Bool) : (s.swtlb.xtlb itlb).activeList.Nodup :=
  (nodup_append.mp ((lists itlb).nodup_iff.mpr (slotsOf_nodup itlb))).1

theorem flushXtlb_slots (t : Swtlb) (itlb : Bool) (gpa size : Nat) :
    (t.flushXtlb itlb gpa size).slots.Perm (t.xtlb itlb).slots := by
  unfold Xtlb.slots flushXtlb flushed
  generalize (t.xtlb itlb).activeList = active
  generalize (t.xtlb itlb).freeList = free
  have parts := filter_append_perm (fun slot => decide ((t.entries slot).flushedBy gpa size))
    active
  refine (perm_append_comm.append_left _).trans ?_
  rw [← append_assoc]
  refine Perm.append_right _ (perm_append_comm.trans ?_)
  simpa using parts

theorem flush_keeps (P : List Nat → MmuState config → Prop)
    (lists : ∀ itlb, (s.swtlb.xtlb itlb).slots.Perm (slotsOf itlb))
    (sameSlots : ∀ {slots slots' pgtbl}, P slots pgtbl → (∀ slot, slot ∈ slots' ↔ slot ∈ slots) →
      P slots' pgtbl) (unmapOne : ∀ {slots pgtbl slot}, P slots pgtbl → slot ∈ slots →
      ∃ pgtbl', pgtbl.unmapPage (s.swtlb.entries slot).shadowPage = (pgtbl', .ok) ∧
        P (slots.filter (· ≠ slot)) pgtbl') (holds : P s.swtlb.active s.pgtbl) (gpa size : Nat) :
    ∃ s', cpuVcpuNestedSwtlbFlush s gpa size = some s' ∧
      (∀ itlb, (s'.swtlb.xtlb itlb).slots.Perm (slotsOf itlb)) ∧
      P s'.swtlb.active s'.pgtbl := by
  have inUse : ∀ itlb, ∀ slot ∈ s.swtlb.flushed itlb gpa size,
      slot ∈ (s.swtlb.xtlb itlb).activeList := fun _ _ => mem_of_mem_filter
  have nodup : ∀ itlb, (s.swtlb.flushed itlb gpa size).Nodup := fun itlb =>
    (active_nodup lists itlb).filter _
  obtain ⟨pgtbl₁, first, holds₁⟩ := unmapShadows_keeps P sameSlots unmapOne holds (nodup true)
    fun slot mem => mem_active.mpr ⟨true, inUse true slot mem⟩
  have stillInUse : ∀ slot ∈ s.swtlb.flushed false gpa size,
      slot ∈ s.swtlb.active.filter (· ∉ s.swtlb.flushed true gpa size) := by
    intro slot mem
    refine mem_filter.mpr ⟨mem_active.mpr ⟨false, inUse false slot mem⟩, ?_⟩
    rw [decide_eq_true_eq]
    intro isItlb
    have here := (lists false).mem_iff.mp (mem_append_left _ (inUse false slot mem))
    have there := (lists true).mem_iff.mp (mem_append_left _ (inUse true slot isItlb))
    cases slotsOf_unique here there
  obtain ⟨pgtbl₂, second, holds₂⟩ := unmapShadows_keeps P sameSlots unmapOne holds₁ (nodup false)
    stillInUse
  have flushed : cpuVcpuNestedSwtlbFlush s gpa size = some
      ⟨{ s.swtlb with
        itlb := s.swtlb.flushXtlb true gpa size, dtlb := s.swtlb.flushXtlb false gpa size },
        pgtbl₂⟩ := by
    simp only [cpuVcpuNestedSwtlbFlush, first, second, Option.map_some]
  refine ⟨_, flushed, ?_, sameSlots holds₂ ?_⟩
  · intro itlb
    cases itlb with
    | true => exact (flushXtlb_slots s.swtlb true gpa size).trans (lists true)
    | false => exact (flushXtlb_slots s.swtlb false gpa size).trans (lists false)
  · intro slot
    rw [mem_active_flush flushed, mem_filter, mem_filter, decide_eq_true_eq,
      decide_eq_true_eq, and_assoc, ← not_or, ← mem_append, mem_flushed]
    refine and_congr_right fun isActive => ?_
    rw [not_and, imp_iff_right isActive]

theorem Sound.cpuVcpuNestedSwtlbFlush (isStage2 : config.stage = .stage2) (sound : Sound world s)
    (gpa size : Nat) :
    ∃ s', Nested.cpuVcpuNestedSwtlbFlush s gpa size = some s' ∧ Sound world s' := by
  obtain ⟨s', flushed, lists, shadowed⟩ := flush_keeps (Shadowed s.swtlb.entries) sound.lists
    (fun shadowed same => Shadowed.perm shadowed same)
    (fun shadowed inUse => by
      obtain ⟨pgtbl, unmapped, shadowed, _⟩ := Shadowed.unmapPage isStage2 shadowed inUse
      exact ⟨pgtbl, unmapped, shadowed⟩)
    sound.shadowed gpa size
  have entries : s'.swtlb.entries = s.swtlb.entries := by
    rw [cpuVcpuNestedSwtlbFlush_some flushed]
  refine ⟨s', flushed, lists, entries ▸ shadowed, ?_⟩
  intro slot mem
  rw [entries]
  exact sound.filled slot ((mem_active_flush flushed).mp mem).1

end Flush

end Xvisor.Nested
