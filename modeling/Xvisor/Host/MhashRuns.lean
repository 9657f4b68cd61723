import Xvisor.Host.Mhash

/-!
# The memmap hash as a map

In runs of `host_mhash_add` and `host_mhash_del` the memmap hash is the map of
what was added and not deleted since, as long as no range reaches the end of the
physical addresses: the end of such a range is computed as 0.
-/

namespace Xvisor.Host

open Lib Word Rebalance MappedRange Option

variable {h h' : Mhash} {e : MhashEntry} {rb : Rebalance MhashEntry} {pa va sz memFlags x : Nat}
  {target : Nat × Nat}

def hostMhashPa2va (h : Mhash) (pa : Nat) : Option (Nat × Nat × Nat) :=
  (hostMhashFind h pa).map fun e =>
    (add e.va (sub pa e.pa), sub e.sz (sub pa e.pa), e.memFlags)

namespace MappedRange

def Has (range : MappedRange) (x : Nat) : Prop := range.pa ≤ x ∧ x < range.pa + range.sz

instance (range : MappedRange) (x : Nat) : Decidable (range.Has x) :=
  inferInstanceAs (Decidable (_ ∧ _))

def vaOf (range : MappedRange) (x : Nat) : Nat := add range.va (sub x range.pa)

end MappedRange

namespace Mhash

def resolve (h : Mhash) (x : Nat) : Option (Nat × Nat) :=
  (hostMhashPa2va h x).map fun (va, _, memFlags) => (va, memFlags)

def Maps (h : Mhash) (x : Nat) (target : Nat × Nat) : Prop :=
  ∃ e ∈ h.root.toList, e.Has x ∧ (e.vaOf x, e.memFlags) = target

namespace InOrder

section

variable (inOrder : h.InOrder)
include inOrder

theorem apart : h.root.toList.Pairwise fun a b => ∀ x, a.Has x → ¬ b.Has x := by
  refine inOrder.sorted.imp ?_
  intro a b ordered x inA inB
  unfold MappedRange.Has at inA inB
  omega

theorem unique {a b : MhashEntry} (inTreeA : a ∈ h.root.toList)
    (inTreeB : b ∈ h.root.toList) (hasA : a.Has x) (hasB : b.Has x) : a = b := by
  by_contra differ
  have symmetric : Std.Symm fun a b : MhashEntry => ∀ x, a.Has x → ¬ b.Has x :=
    ⟨fun a b apart x inB inA => apart x inA inB⟩
  exact inOrder.apart.forall inTreeA inTreeB differ x hasA hasB

theorem find_some_iff : hostMhashFind h x = some e ↔ e ∈ h.root.toList ∧ e.Has x := by
  refine ⟨inOrder.found, ?_⟩
  rintro ⟨inTree, has⟩
  have directed : SearchTree.Directed (mhashDirection x) h.root.toList := by
    refine inOrder.sorted.imp_of_mem ?_
    intro a b inA inB ordered
    simp only [mhashDirection, MhashEntry.paEnd_eq (inOrder.bounded a inA),
      MhashEntry.paEnd_eq (inOrder.bounded b inB)]
    split_ifs <;> simp <;> omega
  cases found : hostMhashFind h x with
  | none =>
    have stops := (mhashDirection_eq_iff (inOrder.bounded e inTree)).mpr has
    exact absurd stops (SearchTree.search_none directed found e inTree)
  | some other =>
    obtain ⟨inTree', has'⟩ := inOrder.found found
    rw [inOrder.unique inTree inTree' has has']

theorem resolve_iff : h.resolve x = some target ↔ h.Maps x target := by
  simp only [resolve, hostMhashPa2va, map_map, map_eq_some_iff,
    inOrder.find_some_iff, Maps, and_assoc]
  rfl

theorem setRefCount (e : MhashEntry) (refCount : Nat) : (h.setRefCount e refCount).InOrder := by
  refine ⟨?_, Mhash.sorted_setRefCount e refCount inOrder.sorted⟩
  intro new inTree
  obtain ⟨old, wasInTree, rfl⟩ := Mhash.mem_setRefCount.mp inTree
  rw [MhashEntry.recount_range]
  exact inOrder.bounded old wasInTree

end

end InOrder

theorem maps_setRefCount {refCount : Nat} :
    (h.setRefCount e refCount).Maps x target ↔ h.Maps x target := by
  simp only [Maps, mem_setRefCount, exists_exists_and_eq_and, MhashEntry.recount_range]
  refine exists_congr fun old => and_congr_right fun _ => and_congr_right fun _ => ?_
  split_ifs <;> rfl

end Mhash

/-! ## The two operations -/

/-- A range that is known to the memmap hash is given with the address it is mapped to. -/
def Consistent (h : Mhash) (range : MappedRange) : Prop :=
  ∀ e, hostMhashFind h range.pa = some e → range.va = e.vaOf range.pa

theorem hostMhashAdd_maps (range : MappedRange) (inOrder : h.InOrder)
    (consistent : Consistent h range) (fits : range.pa + range.sz < 2 ^ 64)
    (added : hostMhashAdd rb h range.pa range.va range.sz memFlags = some (h', .ok)) :
    h'.InOrder ∧ ∀ x target, h'.Maps x target ↔
      h.Maps x target ∨ range.Has x ∧ (range.vaOf x, memFlags) = target := by
  unfold hostMhashAdd at added
  cases found : hostMhashFind h range.pa with
  | some e =>
    simp only [found] at added
    split_ifs at added with refused
    · cases added
    cases added
    obtain ⟨inTree, has⟩ := inOrder.found found
    refine ⟨inOrder.setRefCount e _, ?_⟩
    intro x target
    rw [Mhash.maps_setRefCount, iff_self_or]
    -- the range is a part of the entry
    rintro ⟨inside, rfl⟩
    simp only [MhashEntry.rejects, MhashEntry.paEnd_eq (inOrder.bounded e inTree),
      add_of_lt fits, not_or, not_lt, not_not] at refused
    unfold MappedRange.Has at inside
    refine ⟨e, inTree, ⟨by omega, by omega⟩, ?_⟩
    rw [refused.2, vaOf, vaOf, consistent e found, vaOf,
      sub_of_le (by omega) (by omega), sub_of_le (by omega) (by omega),
      sub_of_le (by omega) (by omega), add, add, add, Nat.mod_add_mod]
    congr 2
    omega
  | none =>
    simp only [found] at added
    split_ifs at added with full
    · cases added
    obtain ⟨root, linked, result⟩ := map_eq_some_iff.mp added
    cases result
    refine ⟨inOrder.link fits linked, ?_⟩
    intro x target
    simp only [Mhash.Maps, toList_insertColor,
      (SearchTree.link_perm linked).mem_iff, List.mem_cons, or_and_right, exists_or,
      exists_eq_left]
    exact or_comm

theorem addResidue_maps (range : MappedRange) (inOrder : h.InOrder)
    (fresh : range.sz ≠ 0 → ∀ target, ¬ h.Maps range.pa target)
    (fits : range.pa + range.sz < 2 ^ 64)
    (added : addResidue rb h range.pa range.va range.sz memFlags = some h') :
    h'.InOrder ∧ ∀ x target, h'.Maps x target ↔
      h.Maps x target ∨ range.Has x ∧ (range.vaOf x, memFlags) = target := by
  unfold addResidue at added
  split_ifs at added with empty
  · cases added
    refine ⟨inOrder, fun x target => ?_⟩
    rw [iff_self_or]
    rintro ⟨inside, -⟩
    unfold MappedRange.Has at inside
    omega
  · split at added
    · next result =>
      cases added
      refine hostMhashAdd_maps range inOrder ?_ fits result
      intro e found
      obtain ⟨inTree, has⟩ := inOrder.found found
      exact absurd ⟨e, inTree, has, rfl⟩ (fresh empty _)
    · cases added

theorem Mhash.InOrder.without (rb : Rebalance MhashEntry) (inOrder : h.InOrder)
    (inTree : e ∈ h.root.toList) : Mhash.InOrder { h with root := rb.erase h.root e } ∧ ∀ x target,
      Mhash.Maps { h with root := rb.erase h.root e } x target ↔
        h.Maps x target ∧ ¬ e.Has x := by
  refine ⟨⟨?_, ?_⟩, ?_⟩
  · rw [toList_erase]
    exact fun other remains => inOrder.bounded other (inOrder.erase inTree remains).1
  · rw [toList_erase]
    exact inOrder.sorted.sublist List.erase_sublist
  · intro x target
    simp only [Mhash.Maps, toList_erase]
    constructor
    · rintro ⟨other, remains, has, isTarget⟩
      obtain ⟨inTree', apart⟩ := inOrder.erase inTree remains
      refine ⟨⟨other, inTree', has, isTarget⟩, fun inside => ?_⟩
      unfold MappedRange.Has at has inside
      omega
    · rintro ⟨⟨other, inTree', has, isTarget⟩, outside⟩
      have differ : other ≠ e := by
        rintro rfl
        exact outside has
      exact ⟨other, (List.mem_erase_of_ne differ).mpr inTree', has, isTarget⟩

theorem hostMhashDel_maps (range : MappedRange) (inOrder : h.InOrder)
    (consistent : Consistent h range) (fits : range.pa + range.sz < 2 ^ 64)
    (deleted : hostMhashDel rb h range.pa range.va range.sz = some (h', .ok)) :
    h'.InOrder ∧ ∀ x target, h'.Maps x target ↔ h.Maps x target ∧ ¬ range.Has x := by
  obtain ⟨e, h₁, inTree, low, inside, below, isVa, addedLeft, addedRight⟩ :=
    hostMhashDel_cases inOrder (fun e found _ => ⟨fits, by
      obtain ⟨-, low, -⟩ := inOrder.found found
      rw [consistent e found, vaOf, sub_of_le low (by omega)]⟩) deleted
  have bounded := inOrder.bounded e inTree
  generalize restIs : e.pa + e.sz - (range.pa + range.sz) = rest at addedRight
  obtain ⟨inOrder₀, maps₀⟩ := inOrder.without rb inTree
  obtain ⟨inOrder₁, maps₁⟩ := addResidue_maps ⟨e.pa, e.va, range.pa - e.pa⟩ inOrder₀ (by
    intro some target mapped
    exact ((maps₀ _ _).mp mapped).2 ⟨le_refl _, by dsimp only; omega⟩) (by
    dsimp only
    omega) addedLeft
  obtain ⟨inOrder₂, maps₂⟩ := addResidue_maps ⟨range.pa + range.sz, range.va + range.sz, rest⟩
    inOrder₁ (by
    intro some target mapped
    dsimp only at some mapped
    rcases (maps₁ _ _).mp mapped with old | ⟨⟨-, inLeft⟩, -⟩
    · exact ((maps₀ _ _).mp old).2 ⟨by omega, by omega⟩
    · dsimp only at inLeft
      omega) (by
    dsimp only
    omega) addedRight
  refine ⟨inOrder₂, ?_⟩
  intro x target
  rw [maps₂, maps₁, maps₀]
  by_cases inEntry : e.Has x
  · have mapped : h.Maps x target ↔ (e.vaOf x, e.memFlags) = target := by
      refine ⟨?_, fun isTarget => ⟨e, inTree, inEntry, isTarget⟩⟩
      rintro ⟨other, inTree', has, isTarget⟩
      rwa [inOrder.unique inTree inTree' inEntry has]
    have rightVa : range.pa + range.sz ≤ x →
        vaOf ⟨range.pa + range.sz, range.va + range.sz, rest⟩ x = e.vaOf x := by
      intro after
      have high := inEntry.2
      simp only [vaOf, add, sub_of_le after (by omega),
        sub_of_le inEntry.1 (by omega), isVa]
      congr 1
      omega
    simp only [mapped, inEntry, not_true_eq_false, and_false, false_or]
    constructor
    · rintro (⟨⟨-, inLeft⟩, isTarget⟩ | ⟨⟨after, -⟩, isTarget⟩)
      · exact ⟨isTarget, fun inRange => by have := inRange.1; dsimp only at inLeft; omega⟩
      · rw [rightVa after] at isTarget
        exact ⟨isTarget, fun inRange => Nat.not_lt.mpr after inRange.2⟩
    · rintro ⟨isTarget, outside⟩
      rcases lt_or_ge x range.pa with before | after
      · exact .inl ⟨⟨inEntry.1, by dsimp only; omega⟩, isTarget⟩
      · have behind : range.pa + range.sz ≤ x := Nat.not_lt.mp fun below => outside ⟨after, below⟩
        rw [rightVa behind]
        exact .inr ⟨⟨behind, by have := inEntry.2; dsimp only; omega⟩, isTarget⟩
  · have outside : ∀ part : MappedRange, e.pa ≤ part.pa → part.pa + part.sz ≤ e.pa + e.sz →
        ¬ part.Has x :=
      fun part low high has => inEntry ⟨low.trans has.1, has.2.trans_le high⟩
    simp only [inEntry, outside ⟨e.pa, e.va, range.pa - e.pa⟩ (le_refl _) (by
      dsimp only; omega), outside range low inside, outside ⟨range.pa + range.sz, _, rest⟩ (by
      dsimp only; omega) (by dsimp only; omega), not_false_eq_true, and_true, false_and, or_false]

/-! ## Runs -/

inductive MhashCall where
  | add (range : MappedRange) (memFlags : Nat)
  | del (range : MappedRange)

namespace MhashCall

def range : MhashCall → MappedRange
  | add range _ => range
  | del range => range

def records : MhashCall → Nat → Option (Nat × Nat)
  | add range memFlags, x => some (range.vaOf x, memFlags)
  | del _, _ => none

def run (rb : Rebalance MhashEntry) (h : Mhash) : MhashCall → Option (Mhash × MhashStatus)
  | add range memFlags => hostMhashAdd rb h range.pa range.va range.sz memFlags
  | del range => hostMhashDel rb h range.pa range.va range.sz

end MhashCall

/-- The memmap hash, and what the calls that succeeded have said last about each address. -/
structure MhashRun where
  mhash : Mhash
  recorded : Nat → Option (Nat × Nat)

def MhashRun.after (s : MhashRun) (call : MhashCall) (mhash : Mhash) (status : MhashStatus) :
    MhashRun where
  mhash := mhash
  recorded x := if status = .ok ∧ call.range.Has x then call.records x else s.recorded x

/-- Runs of calls that return, from a memmap hash without entries in use. -/
def mhashSystem (rb : Rebalance MhashEntry) : System MhashRun MhashCall where
  init s := s.mhash.root = .leaf ∧ s.recorded = fun _ => none
  step s call s' := ∃ mhash status, call.run rb s.mhash = some (mhash, status) ∧
    s' = s.after call mhash status

/-- The offset is the one on record, the range ends below `2 ^ 64`, and the reference count,
which has 32 bits, does not wrap around. -/
def MhashCall.Fits (h : Mhash) : MhashCall → Prop
  | add range _ => Consistent h range ∧ range.pa + range.sz < 2 ^ 64 ∧
      ∀ e, hostMhashFind h range.pa = some e → e.refCount + 1 < 2 ^ 32
  | del range => Consistent h range ∧ range.pa + range.sz < 2 ^ 64

theorem MhashCall.run_failed (call : MhashCall) {status : MhashStatus}
    (returned : call.run rb h = some (h', status)) (failed : status ≠ .ok) :
    status ≠ .busy ∧ h' = h ∨
      ∃ e, hostMhashFind h call.range.pa = some e ∧ h' = h.setRefCount e (e.refCount - 1) := by
  cases call with
  | add range memFlags =>
    simp only [run, hostMhashAdd] at returned
    split at returned
    · split_ifs at returned
      · cases returned
        exact .inl ⟨by decide, rfl⟩
      · cases returned
        exact absurd rfl failed
    · split_ifs at returned
      · cases returned
        exact .inl ⟨by decide, rfl⟩
      · obtain ⟨root, -, result⟩ := map_eq_some_iff.mp returned
        exact absurd (Prod.mk.inj result).2.symm failed
  | del range =>
    simp only [run, hostMhashDel] at returned
    split at returned
    · cases returned
      exact .inl ⟨by decide, rfl⟩
    · next e found =>
      split_ifs at returned
      · cases returned
        exact .inl ⟨by decide, rfl⟩
      · cases returned
        exact .inr ⟨e, found, rfl⟩
      · split at returned
        · cases returned
        · obtain ⟨h₂, -, result⟩ := map_eq_some_iff.mp returned
          exact absurd (Prod.mk.inj result).2.symm failed

/-- The memmap hash is in order and agrees with what is on record. -/
structure MhashRun.Faithful (s : MhashRun) : Prop where
  inOrder : s.mhash.InOrder
  maps : ∀ x target, s.mhash.Maps x target ↔ s.recorded x = some target

theorem MhashRun.Faithful.step {s s' : MhashRun} {call : MhashCall} (faithful : s.Faithful)
    (fits : call.Fits s.mhash) (taken : (mhashSystem rb).step s call s') : s'.Faithful := by
  obtain ⟨mhash, status, returned, rfl⟩ := taken
  by_cases succeeded : status = .ok
  · subst succeeded
    cases call with
    | add range memFlags =>
      obtain ⟨inOrder, maps⟩ := hostMhashAdd_maps range faithful.inOrder fits.1 fits.2.1 returned
      refine ⟨inOrder, fun x target => ?_⟩
      simp only [after, MhashCall.range, MhashCall.records, true_and]
      split_ifs with inside
      · rw [← inOrder.resolve_iff, inOrder.resolve_iff.mpr ((maps x _).mpr (.inr ⟨inside, rfl⟩))]
      · rw [maps, faithful.maps]
        simp only [inside, false_and, or_false]
    | del range =>
      obtain ⟨inOrder, maps⟩ := hostMhashDel_maps range faithful.inOrder fits.1 fits.2 returned
      refine ⟨inOrder, fun x target => (maps x target).trans ?_⟩
      rw [faithful.maps]
      simp only [after, MhashCall.range, MhashCall.records, true_and]
      split_ifs with inside <;> simp [inside]
  · have unchanged : ∀ x, (s.after call mhash status).recorded x = s.recorded x := by
      intro x
      simp only [after, succeeded, false_and, if_false]
    rcases call.run_failed returned succeeded with ⟨-, same⟩ | ⟨e, -, same⟩
    · subst same
      exact ⟨faithful.inOrder, fun x target => by rw [unchanged]; exact faithful.maps x target⟩
    · subst same
      refine ⟨faithful.inOrder.setRefCount e _, fun x target => ?_⟩
      rw [unchanged, ← faithful.maps]
      exact Mhash.maps_setRefCount

theorem MhashRun.Faithful.resolve {s : MhashRun} (faithful : s.Faithful) (x : Nat) :
    s.mhash.resolve x = s.recorded x := by
  refine ext fun target => ?_
  rw [faithful.inOrder.resolve_iff]
  exact faithful.maps x target

/-- In every run of calls that fit, the entries do not overlap and every address resolves to
what was recorded for it; a deletion that is busy changes one reference count, and one that
succeeds takes away its own range and nothing else. -/
theorem mhash_faithful {s : MhashRun}
    (reached : ((mhashSystem rb).restrict fun s call => call.Fits s.mhash).Reachable s) :
    s.mhash.root.toList.Pairwise (fun a b => ∀ x, a.Has x → ¬ b.Has x) ∧
      (∀ x, s.mhash.resolve x = s.recorded x) ∧
      ∀ range, (MhashCall.del range).Fits s.mhash → ∀ h',
        (hostMhashDel rb s.mhash range.pa range.va range.sz = some (h', .busy) →
          ∃ e, hostMhashFind s.mhash range.pa = some e ∧
            h' = s.mhash.setRefCount e (e.refCount - 1)) ∧
        (hostMhashDel rb s.mhash range.pa range.va range.sz = some (h', .ok) →
          ∀ x, h'.resolve x = if range.Has x then none else s.mhash.resolve x) := by
  have faithful : s.Faithful := by
    refine reached.invariant MhashRun.Faithful ?_ ?_
    · rintro s ⟨empty, nothing⟩
      refine ⟨⟨?_, ?_⟩, ?_⟩ <;> simp [empty, nothing, Mhash.Maps]
    · rintro s call s' faithful ⟨fits, taken⟩
      exact faithful.step fits taken
  refine ⟨faithful.inOrder.apart, faithful.resolve, ?_⟩
  intro range fits h'
  constructor
  · intro busy
    have failed := MhashCall.run_failed (.del range) busy (by decide)
    exact failed.resolve_left fun unchanged => unchanged.1 rfl
  · intro deleted x
    have after := (faithful.step fits ⟨h', .ok, deleted, rfl⟩).resolve x
    rw [faithful.resolve]
    exact after.trans (by simp only [MhashRun.after, MhashCall.range, MhashCall.records, true_and])

def pageRange (first count : Nat) : MappedRange :=
  ⟨first * 4096, 2 ^ 20 + first * 4096, count * 4096⟩

def emptyRun : MhashRun := ⟨⟨4, .leaf⟩, fun _ => none⟩

def splitRun : MhashRun :=
  (emptyRun.after (.add (pageRange 1 3) 7) ⟨4, .node .leaf ⟨pageRange 1 3, 7, 1⟩ .leaf⟩ .ok).after
    (.del (pageRange 2 1))
    ⟨4, .node .leaf ⟨pageRange 1 1, 7, 1⟩ (.node .leaf ⟨pageRange 3 1, 7, 1⟩ .leaf)⟩ .ok

theorem mhash_faithful_split : splitRun.mhash.resolve 0x3000 = some (0x103000, 7) ∧
    splitRun.mhash.resolve 0x2000 = none := by
  have start : ((mhashSystem (.plain _)).restrict fun s call => call.Fits s.mhash).Reachable
      emptyRun := .start ⟨rfl, rfl⟩
  have reached : ((mhashSystem (.plain _)).restrict fun s call => call.Fits s.mhash).Reachable
      splitRun := by
    refine (start.step (.add (pageRange 1 3) 7) ⟨⟨?_, by decide, ?_⟩, _, _, rfl, rfl⟩).step
      (.del (pageRange 2 1)) ⟨⟨?_, by decide⟩, _, _, rfl, rfl⟩
    · rintro e ⟨⟩
    · rintro e ⟨⟩
    · intro e found
      cases some.inj found
      rfl
  have resolves := (mhash_faithful reached).2.1
  exact ⟨resolves 0x3000, resolves 0x2000⟩

def topRange : MappedRange := ⟨2 ^ 64 - 4096, 2 ^ 20, 4096⟩

/-- The last page is added twice, and cannot be found. -/
theorem mhash_forgets_top :
    ∃ s, ((mhashSystem (.plain _)).restrict fun s call =>
        Consistent s.mhash call.range).Reachable s ∧
      s.recorded topRange.pa = some (2 ^ 20, 7) ∧ s.mhash.resolve topRange.pa = none ∧
      s.mhash.root.toList = [⟨topRange, 7, 1⟩, ⟨topRange, 7, 1⟩] := by
  have start : ((mhashSystem (.plain _)).restrict fun s call =>
      Consistent s.mhash call.range).Reachable emptyRun := .start ⟨rfl, rfl⟩
  refine ⟨_, (start.step (.add topRange 7) ⟨?_, _, _, rfl, rfl⟩).step (.add topRange 7)
    ⟨?_, _, _, rfl, rfl⟩, rfl, rfl, rfl⟩
  · rintro e ⟨⟩
  · rintro e ⟨⟩

end Xvisor.Host
