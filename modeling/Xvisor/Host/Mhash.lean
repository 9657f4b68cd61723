import Xvisor.Host.Aspace

/-!
# Mapped ranges and the memmap hash

Mapping the pages of a range translates every address of it, unmapping a range
leaves all others alone, and the entries of the memmap hash are disjoint, each
mapped where it says.
-/

namespace Xvisor.Host

open List Lib Word Mmu Rebalance SearchTree Nat

variable {config : Mmu.Config} {mmu mmu' : MmuState config} {va pa sz order memFlags : Nat}

abbrev space (config : Mmu.Config) : Nat := config.span config.start

theorem space_dvd_word (config : Mmu.Config) : space config ∣ 2 ^ 64 := by
  have isPower : ∃ k ≤ 64, space config = 2 ^ k := by
    have := config.start_le
    unfold space Mmu.Config.span Mmu.Config.entries Mmu.blockSize Mmu.blockShift
    split_ifs
    · exact ⟨12 + 9 * config.start + 11, by omega, by rw [pow_add _ _ 11]; rfl⟩
    · exact ⟨12 + 9 * config.start + 9, by omega, by rw [pow_add _ _ 9]; rfl⟩
  obtain ⟨k, small, isPower⟩ := isPower
  rw [isPower]
  exact pow_dvd_pow 2 small

theorem add_mod_space (config : Mmu.Config) (a b : Nat) :
    add a b % space config = (a + b) % space config :=
  mod_mod_of_dvd _ (space_dvd_word config)

/-- Every address of the range, and every address that the page table confuses with one,
translates into the physical range. -/
def Translates (mmu : MmuState config) (range : MappedRange) : Prop :=
  ∀ i < range.sz, ∀ ia, ia % space config = (range.va + i) % space config →
    archCpuAspaceVa2pa mmu ia = some (range.pa + i)

def Extends (mmu mmu' : MmuState config) : Prop :=
  ∀ ia x, archCpuAspaceVa2pa mmu ia = some x → archCpuAspaceVa2pa mmu' ia = some x

variable {range : MappedRange}

theorem Translates.part (translates : Translates mmu range) {offset : Nat}
    (inside : offset + sz ≤ range.sz) :
    Translates mmu ⟨range.pa + offset, range.va + offset, sz⟩ := by
  intro i below ia same
  change i < sz at below
  have here := translates (offset + i) (by omega) ia (by rw [same, add_assoc])
  rw [here, add_assoc]

theorem Translates.congr {va' : Nat} (translates : Translates mmu ⟨pa, va, sz⟩)
    (same : va' % space config = va % space config) : Translates mmu ⟨pa, va', sz⟩ := by
  intro i below ia here
  refine translates i below ia (here.trans ?_)
  rw [add_mod, same, ← add_mod]

theorem Translates.mono (translates : Translates mmu range)
    (extends' : Extends mmu mmu') : Translates mmu' range :=
  fun i inside ia same => extends' ia _ (translates i inside ia same)

/-! ## Mapping pages -/

theorem archCpuAspaceMap_ok (refines : mmu.Refines) (leaf : (stage1Pgflags memFlags).leaf)
    (vaAligned : sz ∣ va) (paAligned : sz ∣ pa) (top : pa + sz ≤ 2 ^ 56)
    (done : archCpuAspaceMap mmu va sz pa memFlags = (mmu', .ok)) :
    mmu'.Refines ∧ Extends mmu mmu' ∧ Translates mmu' ⟨pa, va, sz⟩ := by
  unfold archCpuAspaceMap at done
  by_cases refused : sz ≠ Mmu.blockSize 0 ∧ sz ≠ Mmu.blockSize 1
  · rw [if_pos refused] at done
    cases done
  rw [if_neg refused] at done
  have isOk : (mmu.mapPage ⟨va, pa, sz, stage1Pgflags memFlags⟩).2 = .ok := by rw [done]
  have isMmu : (mmu.mapPage ⟨va, pa, sz, stage1Pgflags memFlags⟩).1 = mmu' := by rw [done]
  have kept : (mmu.mapPage ⟨va, pa, sz, stage1Pgflags memFlags⟩).1.Refines := refines.mapPage leaf
  have pages := refines.getPage_mapPage_ok leaf isOk
  rw [isMmu] at kept pages
  have divides : sz ∣ space config := MmuState.dvd_span_of_mapPage_ok isOk
  refine ⟨kept, ?_, ?_⟩
  · intro ia x translated
    obtain ⟨page, found, -⟩ := Option.map_eq_some_iff.mp translated
    have outside : ¬ SameBlock (space config) sz ia va := by
      intro inside
      rw [refines.getPage_of_mapPage_ok isOk inside] at found
      cases found
    rw [archCpuAspaceVa2pa, pages, if_neg outside]
    exact translated
  · intro i inside ia same
    change i < sz at inside
    obtain ⟨inBlock, offset⟩ := SameBlock.of_offset divides vaAligned inside same
    rw [archCpuAspaceVa2pa, pages, if_pos inBlock]
    have address : pa / sz * sz % 2 ^ 56 = pa := by
      rw [Nat.div_mul_cancel paAligned]
      exact mod_eq_of_lt (by omega)
    simp only [Page.stored, Option.map_some, address, offset]
    exact congrArg some (add_of_lt (by omega))

theorem mapPages_ok (n : Nat) (refines : mmu.Refines) (leaf : (stage1Pgflags memFlags).leaf)
    (vaAligned : 2 ^ order ∣ va) (paAligned : 2 ^ order ∣ pa) (small : order ≤ 64)
    (top : pa + n * 2 ^ order ≤ 2 ^ 56) (done : mapPages mmu va pa order memFlags n = some mmu') :
    mmu'.Refines ∧ Extends mmu mmu' ∧ Translates mmu' ⟨pa, va, n * 2 ^ order⟩ := by
  induction n generalizing mmu' with
  | zero =>
    cases done
    refine ⟨refines, fun _ _ translated => translated, ?_⟩
    intro i inside
    rw [Nat.zero_mul] at inside
    exact absurd inside (not_lt_zero i)
  | succ n ih =>
    rw [add_mul, one_mul] at top
    unfold mapPages at done
    cases before : mapPages mmu va pa order memFlags n with
    | none => simp [before] at done
    | some mmu₁ =>
      obtain ⟨refines₁, extends₁, translates₁⟩ := ih (by omega) before
      simp only [before] at done
      split at done
      · next mmu₂ mapped =>
        obtain rfl : mmu₂ = mmu' := Option.some.inj done
        have paHere : add pa (n * 2 ^ order) = pa + n * 2 ^ order := add_of_lt (by omega)
        rw [paHere] at mapped
        have vaHere : 2 ^ order ∣ add va (n * 2 ^ order) := by
          refine (dvd_mod_iff (pow_dvd_pow 2 small)).mpr ?_
          exact dvd_add vaAligned (dvd_mul_left _ _)
        obtain ⟨refines₂, extends₂, translates₂⟩ := archCpuAspaceMap_ok refines₁ leaf vaHere
          (dvd_add paAligned (dvd_mul_left _ _)) (by omega) mapped
        refine ⟨refines₂, fun ia x old => extends₂ ia x (extends₁ ia x old), ?_⟩
        intro i inside ia same
        change i < (n + 1) * 2 ^ order at inside
        rw [add_mul, one_mul] at inside
        by_cases early : i < n * 2 ^ order
        · exact extends₂ ia _ (translates₁ i early ia same)
        · have last := translates₂ (i - n * 2 ^ order) (by dsimp only; omega) ia (by
            rw [same, add_mod (add _ _), add_mod_space, ← add_mod]
            congr 1
            dsimp only
            omega)
          rw [last]
          congr 1
          dsimp only
          omega
      · cases done

/-! ## Unmapping pages -/

/-- The addresses of a range, and those that the page table confuses with them. -/
def InRange (config : Mmu.Config) (va sz ia : Nat) : Prop :=
  ∃ j < sz, ia % space config = (va + j) % space config

def BlockClosed (mmu : MmuState config) (va sz : Nat) : Prop :=
  ∀ i < sz, ∀ p, mmu.getPage (add va i) = some p →
    ∀ ia, SameBlock (space config) p.sz ia p.ia → InRange config va sz ia

/-- Pages inside the range may be gone; everything else is mapped as before. -/
structure UnmapsWithin (mmu mmu' : MmuState config) (va sz : Nat) : Prop where
  refines : mmu'.Refines
  pages : ∀ ia, mmu'.getPage ia = mmu.getPage ia ∨ InRange config va sz ia ∧ mmu'.getPage ia = none

theorem archCpuAspaceUnmap_within {mmu₀ : MmuState config} {i : Nat}
    (closed : BlockClosed mmu₀ va sz) (inside : i < sz) (before : UnmapsWithin mmu₀ mmu va sz) :
    UnmapsWithin mmu₀ (archCpuAspaceUnmap mmu (add va i)).1 va sz := by
  unfold archCpuAspaceUnmap
  cases found : mmu.getPage (add va i) with
  | none => exact before
  | some p =>
    have original : mmu₀.getPage (add va i) = some p := by
      rcases before.pages (add va i) with same | ⟨-, gone⟩
      · rw [← same, found]
      · rw [found] at gone
        cases gone
    refine ⟨before.refines.unmapPage, ?_⟩
    intro ia
    dsimp only
    rw [before.refines.getPage_unmapPage found]
    split_ifs with inBlock
    · exact .inr ⟨closed i inside p original ia inBlock, rfl⟩
    · exact before.pages ia

theorem unmapPages_within (n m : Nat) (le : n ≤ m) (refines : mmu.Refines)
    (closed : BlockClosed mmu va (m * 2 ^ order)) :
    UnmapsWithin mmu (unmapPages mmu va order n).1 va (m * 2 ^ order) := by
  induction n with
  | zero => exact ⟨refines, fun _ => .inl rfl⟩
  | succ n ih =>
    have before := ih (by omega)
    have inside : n * 2 ^ order < m * 2 ^ order :=
      mul_lt_mul_of_pos_right le (Nat.two_pow_pos order)
    unfold unmapPages
    generalize unmapPages mmu va order n = result at before ⊢
    obtain ⟨mmu₁, rc⟩ := result
    cases rc with
    | ok => exact archCpuAspaceUnmap_within closed inside before
    | efail => exact before
    | einvalid => exact before

theorem Translates.survives (translates : Translates mmu range)
    (unmapped : Translates mmu ⟨pa, va, sz⟩) (within : UnmapsWithin mmu mmu' va sz)
    (apart : ∀ i < range.sz, range.pa + i < pa ∨ pa + sz ≤ range.pa + i) :
    Translates mmu' range := by
  intro i inside ia same
  have here := translates i inside ia same
  rcases within.pages ia with unchanged | ⟨⟨j, below, confused⟩, -⟩
  · rw [archCpuAspaceVa2pa, unchanged]
    exact here
  · have there := unmapped j below ia confused
    rw [here] at there
    have equal : range.pa + i = pa + j := Option.some.inj there
    have := apart i inside
    change j < sz at below
    omega

/-! ## The memmap hash -/

/-- Ranges of whole pages, below the largest physical address. -/
structure MappedRange.Placed (range : MappedRange) : Prop where
  positive : 0 < range.sz
  top : range.pa + range.sz ≤ 2 ^ 56
  paAligned : pageSize ∣ range.pa
  vaAligned : pageSize ∣ range.va
  szAligned : pageSize ∣ range.sz

structure MhashOk (Good : MappedRange → Prop) (h : Mhash) : Prop where
  placed : ∀ e ∈ h.root.toList, e.Placed
  good : ∀ e ∈ h.root.toList, Good e.toMappedRange
  sorted : h.root.toList.Pairwise fun a b => a.pa + a.sz ≤ b.pa

variable {Good : MappedRange → Prop} {h h' : Mhash} {e : MhashEntry}
  {rb : Rebalance MhashEntry} {status : MhashStatus}

theorem MhashEntry.paEnd_eq (bounded : e.pa + e.sz < 2 ^ 64) : e.paEnd = e.pa + e.sz :=
  add_of_lt bounded

/-- The entries in use end below `2 ^ 64`, one before the other. -/
structure Mhash.InOrder (h : Mhash) : Prop where
  bounded : ∀ e ∈ h.root.toList, e.pa + e.sz < 2 ^ 64
  sorted : h.root.toList.Pairwise fun a b => a.pa + a.sz ≤ b.pa

theorem MhashOk.inOrder (ok : MhashOk Good h) : h.InOrder := by
  refine ⟨?_, ok.sorted⟩
  intro e inTree
  have := (ok.placed e inTree).top
  omega

open MhashEntry

theorem mhashDirection_eq_iff (bounded : e.pa + e.sz < 2 ^ 64) :
    mhashDirection pa e = .eq ↔ e.pa ≤ pa ∧ pa < e.pa + e.sz := by
  unfold mhashDirection
  rw [paEnd_eq bounded]
  split_ifs with inside <;> simp [inside]

namespace Mhash.InOrder

theorem found (inOrder : h.InOrder) (found : hostMhashFind h pa = some e) :
    e ∈ h.root.toList ∧ e.pa ≤ pa ∧ pa < e.pa + e.sz := by
  obtain ⟨mem, stops⟩ := search_some found
  exact ⟨mem, (mhashDirection_eq_iff (inOrder.bounded e mem)).mp stops⟩

theorem directed (inOrder : h.InOrder) (bounded : e.pa + e.sz < 2 ^ 64) :
    SearchTree.Directed (mhashAddDirection e) h.root.toList := by
  refine inOrder.sorted.imp_of_mem ?_
  intro a b inA inB ordered
  simp only [mhashAddDirection, paEnd_eq bounded,
    paEnd_eq (inOrder.bounded a inA), paEnd_eq (inOrder.bounded b inB)]
  constructor
  · intro left
    split_ifs at left with before
    rw [if_pos (by omega)]
  · intro right
    split_ifs at right with before after
    rw [if_neg (by omega), if_pos (by omega)]

theorem link {root : SearchTree MhashEntry} (inOrder : h.InOrder) (bounded : e.pa + e.sz < 2 ^ 64)
    (linked : h.root.link (mhashAddDirection e) e = some root) :
    Mhash.InOrder { h with root := rb.insertColor root } := by
  obtain ⟨before, after, split, grown, turns⟩ := link_some linked
  obtain ⟨goRight, goLeft⟩ := turns (inOrder.directed bounded)
  have isBounded := inOrder.bounded
  have sorted := inOrder.sorted
  rw [split] at sorted isBounded
  obtain ⟨sortedBefore, sortedAfter, across⟩ := pairwise_append.mp sorted
  refine ⟨?_, ?_⟩
  · rw [toList_insertColor]
    intro other mem
    rcases mem_cons.mp ((link_perm linked).mem_iff.mp mem) with rfl | old
    · exact bounded
    · exact inOrder.bounded other old
  · rw [toList_insertColor, grown]
    refine pairwise_append.mpr ⟨sortedBefore, pairwise_cons.mpr ⟨?_, sortedAfter⟩, ?_⟩
    · intro b inAfter
      have left := goLeft b inAfter
      unfold mhashAddDirection at left
      rw [paEnd_eq bounded] at left
      split_ifs at left with before
      exact before
    · intro a inBefore b mem
      rcases mem_cons.mp mem with rfl | inAfter
      · have right := goRight a inBefore
        unfold mhashAddDirection at right
        split_ifs at right with before after
        rwa [paEnd_eq (isBounded a (mem_append_left _ inBefore))] at after
      · exact across a inBefore b inAfter

theorem erase {other : MhashEntry} (inOrder : h.InOrder) (inTree : e ∈ h.root.toList)
    (remains : other ∈ h.root.toList.erase e) :
    other ∈ h.root.toList ∧ (other.pa + other.sz ≤ e.pa ∨ e.pa + e.sz ≤ other.pa) := by
  obtain ⟨before, after, -, split, erased⟩ := exists_erase_eq inTree
  have sorted := inOrder.sorted
  rw [split, pairwise_append, pairwise_cons] at sorted
  refine ⟨mem_of_mem_erase remains, ?_⟩
  rw [erased] at remains
  rcases mem_append.mp remains with inBefore | inAfter
  · exact .inl (sorted.2.2 other inBefore e mem_cons_self)
  · exact .inr (sorted.2.1.1 other inAfter)

end Mhash.InOrder

theorem Mhash.mem_setRefCount {refCount : Nat} {new : MhashEntry} :
    new ∈ (h.setRefCount e refCount).root.toList ↔ ∃ old ∈ h.root.toList,
      (if old = e then { old with refCount } else old) = new := by
  simp only [Mhash.setRefCount, toList_map, mem_map]

theorem MhashEntry.recount_range (old e : MhashEntry) (refCount : Nat) :
    (if old = e then { old with refCount } else old).toMappedRange = old.toMappedRange := by
  split_ifs <;> rfl

theorem Mhash.sorted_setRefCount (e : MhashEntry) (refCount : Nat)
    (sorted : h.root.toList.Pairwise fun a b => a.pa + a.sz ≤ b.pa) :
    (h.setRefCount e refCount).root.toList.Pairwise fun a b => a.pa + a.sz ≤ b.pa := by
  simp only [Mhash.setRefCount, toList_map, pairwise_map, recount_range]
  exact sorted

theorem MhashOk.setRefCount (ok : MhashOk Good h) (e : MhashEntry) (refCount : Nat) :
    MhashOk Good (h.setRefCount e refCount) := by
  refine ⟨?_, ?_, Mhash.sorted_setRefCount e refCount ok.sorted⟩
  all_goals
    intro new inTree
    obtain ⟨old, wasInTree, rfl⟩ := Mhash.mem_setRefCount.mp inTree
    rw [recount_range]
  · exact ok.placed old wasInTree
  · exact ok.good old wasInTree

theorem MhashOk.link {root : SearchTree MhashEntry} (ok : MhashOk Good h) (placed : e.Placed)
    (good : Good e.toMappedRange) (linked : h.root.link (mhashAddDirection e) e = some root) :
    MhashOk Good { h with root := rb.insertColor root } := by
  have top := placed.top
  refine ⟨?_, ?_, (ok.inOrder.link (by omega) linked).sorted⟩
  all_goals
    rw [toList_insertColor]
    intro other mem
    rcases mem_cons.mp ((link_perm linked).mem_iff.mp mem) with rfl | old
  · exact placed
  · exact ok.placed other old
  · exact good
  · exact ok.good other old

theorem hostMhashAdd_ok (range : MappedRange) (ok : MhashOk Good h)
    (new : hostMhashFind h range.pa = none → range.Placed ∧ Good range)
    (added : hostMhashAdd rb h range.pa range.va range.sz memFlags = some (h', status)) :
    MhashOk Good h' := by
  unfold hostMhashAdd at added
  cases found : hostMhashFind h range.pa with
  | some e =>
    simp only [found] at added
    split_ifs at added with refused
    · cases added
      exact ok
    · cases added
      exact ok.setRefCount e _
  | none =>
    simp only [found] at added
    split_ifs at added with full
    · cases added
      exact ok
    · obtain ⟨root, linked, result⟩ := Option.map_eq_some_iff.mp added
      cases result
      obtain ⟨placed, good⟩ := new found
      exact ok.link placed good linked

theorem addResidue_ok (range : MappedRange) (ok : MhashOk Good h)
    (new : range.sz ≠ 0 → range.Placed ∧ Good range)
    (added : addResidue rb h range.pa range.va range.sz memFlags = some h') : MhashOk Good h' := by
  unfold addResidue at added
  split_ifs at added with none
  · cases added
    exact ok
  · split at added
    · next result =>
      cases added
      exact hostMhashAdd_ok range ok (fun _ => new none) result
    · cases added

theorem hostMhashDel_cases (inOrder : h.InOrder)
    (consistent : ∀ e, hostMhashFind h pa = some e → ¬ e.rejects pa va sz →
      pa + sz < 2 ^ 64 ∧ va = add e.va (pa - e.pa))
    (deleted : hostMhashDel rb h pa va sz = some (h', .ok)) :
    ∃ e h₁, e ∈ h.root.toList ∧ e.pa ≤ pa ∧ pa + sz ≤ e.pa + e.sz ∧ pa < e.pa + e.sz ∧
      va = e.va + (pa - e.pa) ∧
      addResidue rb { h with root := rb.erase h.root e } e.pa e.va (pa - e.pa) e.memFlags =
        some h₁ ∧
      addResidue rb h₁ (pa + sz) (va + sz) (e.pa + e.sz - (pa + sz)) e.memFlags = some h' := by
  unfold hostMhashDel at deleted
  cases found : hostMhashFind h pa with
  | none => simp [found] at deleted
  | some e =>
    simp only [found] at deleted
    split_ifs at deleted with refused shared
    · simp at deleted
    · simp at deleted
    obtain ⟨inTree, low, high⟩ := inOrder.found found
    have bounded := inOrder.bounded e inTree
    obtain ⟨fits, isVa⟩ := consistent e found refused
    simp only [MhashEntry.rejects, MhashEntry.vaEnd, paEnd_eq bounded,
      add_of_lt fits, not_or, not_lt, not_le] at refused
    -- neither the virtual range of the entry nor the one that is deleted wraps around
    have vaEnd : add e.va e.sz = e.va + e.sz := by
      unfold add at refused isVa ⊢
      omega
    have bound := add_lt e.va e.sz
    rw [vaEnd] at refused bound
    rw [add_of_lt (by omega)] at isVa
    have sum : add va sz = va + sz := by
      unfold add at refused ⊢
      omega
    rw [MhashEntry.vaEnd, vaEnd, sum, add_of_lt fits, sub_of_le (by omega) (by omega),
      sub_of_le (by omega) (by omega), show va - e.va = pa - e.pa by omega,
      show e.va + e.sz - (va + sz) = e.pa + e.sz - (pa + sz) by omega] at deleted
    split at deleted
    · cases deleted
    · next h₁ addedLeft =>
      obtain ⟨h₂, addedRight, result⟩ := Option.map_eq_some_iff.mp deleted
      obtain rfl : h₂ = h' := (Prod.mk.inj result).1
      exact ⟨e, h₁, inTree, low, refused.2.2.2.2, high, isVa, addedLeft, addedRight⟩

theorem hostMhashDel_busy (ok : MhashOk Good h)
    (deleted : hostMhashDel rb h pa va sz = some (h', .busy)) : MhashOk Good h' := by
  unfold hostMhashDel at deleted
  split at deleted
  · simp at deleted
  · next e found =>
    split_ifs at deleted with refused shared
    · simp at deleted
    · cases deleted
      exact ok.setRefCount e _
    · dsimp only at deleted
      split at deleted
      · cases deleted
      · simp at deleted

theorem hostMhashDel_ok (ok : MhashOk (Translates mmu) h)
    (translated : archCpuAspaceVa2pa mmu va = some pa) (word : va < 2 ^ 64) (small : sz ≤ 2 ^ 56)
    (vaAligned : pageSize ∣ va) (szAligned : pageSize ∣ sz) (within : UnmapsWithin mmu mmu' va sz)
    (deleted : hostMhashDel rb h pa va sz = some (h', .ok)) : MhashOk (Translates mmu') h' := by
  have consistent : ∀ e, hostMhashFind h pa = some e → ¬ e.rejects pa va sz →
      pa + sz < 2 ^ 64 ∧ va = add e.va (pa - e.pa) := by
    intro e found refused
    obtain ⟨inTree, -, below⟩ := ok.inOrder.found found
    have top := (ok.placed e inTree).top
    simp only [MhashEntry.rejects, not_or, not_lt, not_le] at refused
    have high : va < e.va + e.sz := refused.2.1.trans_le (mod_le _ _)
    have here := ok.good e inTree (va - e.va) (by omega) va (by
      rw [Nat.add_sub_cancel' refused.1])
    cases translated.symm.trans here
    refine ⟨by omega, ?_⟩
    rw [Nat.add_sub_cancel_left, add_of_lt (by omega), Nat.add_sub_cancel' refused.1]
  obtain ⟨e, h₁, inTree, low, inside, -, isVa, addedLeft, addedRight⟩ :=
    hostMhashDel_cases ok.inOrder consistent deleted
  have placed := ok.placed e inTree
  have top := placed.top
  have whole := ok.good e inTree
  have unmapped : Translates mmu ⟨pa, va, sz⟩ := by
    have part : Translates mmu ⟨e.pa + (pa - e.pa), e.va + (pa - e.pa), sz⟩ := whole.part (by omega)
    rwa [← isVa, Nat.add_sub_cancel' low] at part
  have erased : MhashOk (Translates mmu') { h with root := rb.erase h.root e } := by
    refine ⟨?_, ?_, ?_⟩
    all_goals rw [toList_erase]
    · intro other remains
      exact ok.placed other (ok.inOrder.erase inTree remains).1
    · intro other remains
      obtain ⟨inTree', apart⟩ := ok.inOrder.erase inTree remains
      refine (ok.good other inTree').survives unmapped within ?_
      intro i inside
      omega
    · exact ok.sorted.sublist erase_sublist
  have offset : pageSize ∣ pa - e.pa := by
    rw [show pa - e.pa = va - e.va by omega]
    exact dvd_sub vaAligned placed.vaAligned
  have paAligned : pageSize ∣ pa := by
    rw [← Nat.add_sub_cancel' low]
    exact dvd_add placed.paAligned offset
  have kept : MhashOk (Translates mmu') h₁ := by
    refine addResidue_ok ⟨e.pa, e.va, pa - e.pa⟩ erased (fun some => ⟨⟨pos_of_ne_zero some, ?_,
      placed.paAligned, placed.vaAligned, offset⟩, ?_⟩) addedLeft
    · dsimp only
      omega
    · have part : Translates mmu ⟨e.pa + 0, e.va + 0, pa - e.pa⟩ := whole.part (by omega)
      refine Translates.survives part unmapped within ?_
      intro i inside
      dsimp only at inside ⊢
      omega
  refine addResidue_ok ⟨pa + sz, va + sz, e.pa + e.sz - (pa + sz)⟩ kept (fun some =>
    ⟨⟨pos_of_ne_zero some, ?_, dvd_add paAligned szAligned,
      dvd_add vaAligned szAligned, dvd_sub (dvd_add placed.paAligned placed.szAligned)
        (dvd_add paAligned szAligned)⟩, ?_⟩) addedRight
  · dsimp only
    omega
  · have part : Translates mmu ⟨e.pa + (pa - e.pa + sz), e.va + (pa - e.pa + sz),
        e.pa + e.sz - (pa + sz)⟩ := whole.part (by omega)
    rw [show e.pa + (pa - e.pa + sz) = pa + sz by omega,
      show e.va + (pa - e.pa + sz) = va + sz by omega] at part
    refine Translates.survives part unmapped within ?_
    intro i inside
    dsimp only at inside ⊢
    omega

end Xvisor.Host
