import Xvisor.Host.Mhash
import Xvisor.Host.RamLedger

/-!
# Host memory mappings cover the request

Every entry of the memmap hash is mapped where it says.
-/

namespace Xvisor.Host

open Lib Word Mmu Buddy Option Nat

variable {config : Mmu.Config} {mmu : MmuState config} {h : Mhash} {e : MhashEntry}
  {va pa sz order memFlags : Nat}

/-! ## The host address space -/

/-- The page table is well formed, and every entry in use is mapped where it says. -/
structure AspaceOk (s : HostAspace config) : Prop where
  refines : s.mmu.Refines
  mhash : MhashOk (Translates s.mmu) s.mhash

variable {trees : Trees} {s s' : HostAspace config}

theorem pageOrder_bounds (useHugepage : Bool) :
    12 ≤ pageOrder useHugepage ∧ pageOrder useHugepage ≤ 21 := by
  cases useHugepage <;> decide

theorem roundup_top (small : order ≤ 21) (fits : pa + sz ≤ 2 ^ 56) :
    sz ≤ roundup2OrderSize sz order ∧
      alignDown pa order + roundup2OrderSize sz order ≤ 2 ^ 56 := by
  have down := alignDown_le pa order
  have whole : 2 ^ order ∣ 2 ^ 56 - alignDown pa order :=
    dvd_sub (pow_dvd_pow 2 (by omega)) (dvd_alignDown pa order)
  have bounds := roundup2OrderSize_bounds whole (show sz ≤ _ by omega) (by omega)
  omega

variable {tpa : Nat}

theorem finishMemmap_ok {va' : Nat} (ok : AspaceOk s) (new : hostMhashFind s.mhash tpa = none →
      MappedRange.Placed ⟨tpa, va, sz⟩ ∧ Translates s.mmu ⟨tpa, va, sz⟩)
    (done : finishMemmap trees s tpa va sz memFlags = some (s', va')) :
    AspaceOk s' ∧ s'.mmu = s.mmu ∧ va' = va := by
  unfold finishMemmap at done
  split at done
  · next mhash added =>
    cases done
    exact ⟨⟨ok.refines, hostMhashAdd_ok ⟨tpa, va, sz⟩ ok.mhash new added⟩, rfl, rfl⟩
  · cases done

theorem memmapPages_found (ok : AspaceOk s) (found : hostMhashFind s.mhash tpa = some e)
    (done : memmapPages trees s tpa sz memFlags order = some (s', va)) :
    AspaceOk s' ∧ s'.mmu = s.mmu ∧ sz ≤ e.sz - (tpa - e.pa) ∧
      va = alignDown (add e.va (tpa - e.pa)) order := by
  unfold memmapPages at done
  simp only [found] at done
  split_ifs at done with refused
  obtain ⟨kept, same, isVa⟩ := finishMemmap_ok ok (fun fresh => by simp [found] at fresh) done
  exact ⟨kept, same, by omega, isVa⟩

theorem memmapPages_fresh (ok : AspaceOk s) (leaf : (stage1Pgflags memFlags).leaf)
    (low : 12 ≤ order) (high : order ≤ 21) (paAligned : 2 ^ order ∣ tpa)
    (szAligned : 2 ^ order ∣ sz) (top : tpa + sz ≤ 2 ^ 56)
    (fresh : hostMhashFind s.mhash tpa = none)
    (done : memmapPages trees s tpa sz memFlags order = some (s', va)) :
    AspaceOk s' ∧ Translates s'.mmu ⟨tpa, va, sz⟩ := by
  unfold memmapPages at done
  simp only [fresh] at done
  split at done
  · cases done
  · next vapool va₀ allocated =>
    split_ifs at done with ragged
    split at done
    · cases done
    · next mmu mapped =>
      have pos : 0 < sz := by
        refine pos_of_ne_zero fun empty => ?_
        simp [vmmHostVapoolAlloc, Buddy.buddyMemAlloc, empty] at allocated
      have vaAligned : 2 ^ order ∣ va₀ := dvd_of_mod_eq_zero (not_not.mp ragged)
      have blocks : sz / 2 ^ order * 2 ^ order = sz := Nat.div_mul_cancel szAligned
      obtain ⟨refines, extends', translates⟩ := mapPages_ok (sz / 2 ^ order) ok.refines leaf
        vaAligned paAligned (by omega) (by omega) mapped
      rw [blocks] at translates
      have pages : pageSize ∣ 2 ^ order := pow_dvd_pow 2 low
      have placed : MappedRange.Placed ⟨tpa, va₀, sz⟩ :=
        ⟨pos, top, pages.trans paAligned, pages.trans vaAligned, pages.trans szAligned⟩
      have mapped : AspaceOk { s with vapool, mmu } :=
        ⟨refines, ⟨ok.mhash.placed, fun e inTree => (ok.mhash.good e inTree).mono extends',
          ok.mhash.sorted⟩⟩
      obtain ⟨kept, same, rfl⟩ := finishMemmap_ok mapped (fun _ => ⟨placed, translates⟩) done
      rw [same]
      exact ⟨kept, translates⟩

def Covered (h : Mhash) (pa sz : Nat) : Prop :=
  ∃ e, hostMhashFind h (alignDown pa pageShift) = some e ∧ pa + sz ≤ e.pa + e.sz

theorem hostMemmap_ok {useHugepage : Bool} (ok : AspaceOk s)
    (leaf : (stage1Pgflags memFlags).leaf) (top : pa + sz ≤ 2 ^ 56)
    (done : hostMemmap trees s pa sz memFlags useHugepage = some (s', va)) : AspaceOk s' := by
  obtain ⟨⟨s₁, va₁⟩, pages, result⟩ := map_eq_some_iff.mp done
  obtain rfl : s₁ = s' := (Prod.mk.inj result).1
  obtain ⟨low, high⟩ := pageOrder_bounds useHugepage
  cases found : hostMhashFind s.mhash (alignDown pa (pageOrder useHugepage)) with
  | some e => exact (memmapPages_found ok found pages).1
  | none =>
    exact (memmapPages_fresh ok leaf low high (dvd_alignDown _ _)
      (roundup2OrderSize_dvd (by omega)) (roundup_top high top).2 found pages).1

theorem OffsetFits.reaches (fits : OffsetFits pa sz) (pos : 0 < sz) (top : sz ≤ 2 ^ 56) :
    pa % 2 ^ 12 + sz ≤ roundup2OrderSize sz 12 := by
  have offset := fits.resolve_left pos.ne'
  simp only [roundup2OrderSize, alignDown, add, pageSize, pageShift] at offset ⊢
  split_ifs with ragged
  · omega
  · omega

theorem MhashOk.translates_found (ok : MhashOk (Translates mmu) h)
    (found : hostMhashFind h tpa = some e) (aligned : pageSize ∣ tpa) :
    Translates mmu ⟨tpa, alignDown (add e.va (tpa - e.pa)) 12, e.sz - (tpa - e.pa)⟩ := by
  obtain ⟨inTree, low, high⟩ := ok.inOrder.found found
  have placed := ok.placed e inTree
  have part : Translates mmu ⟨e.pa + (tpa - e.pa), e.va + (tpa - e.pa), e.sz - (tpa - e.pa)⟩ :=
    (ok.good e inTree).part (by omega)
  rw [Nat.add_sub_cancel' low] at part
  have whole : 2 ^ 12 ∣ add e.va (tpa - e.pa) := by
    refine (dvd_mod_iff (pow_dvd_pow 2 (by decide))).mpr ?_
    exact dvd_add placed.vaAligned (dvd_sub aligned placed.paAligned)
  rw [alignDown_of_dvd whole]
  exact part.congr (add_mod_space config _ _)

theorem vmmHostMemmap_translates (ok : AspaceOk s) (leaf : (stage1Pgflags memFlags).leaf)
    (pos : 0 < sz) (top : pa + sz ≤ 2 ^ 56) (fits : OffsetFits pa sz ∨ Covered s.mhash pa sz)
    (done : vmmHostMemmap trees s pa sz memFlags = some (s', va)) :
    Translates s'.mmu ⟨pa, va, sz⟩ := by
  obtain ⟨⟨s₁, va₁⟩, pages, result⟩ := map_eq_some_iff.mp done
  obtain ⟨rfl, rfl⟩ := Prod.mk.inj result
  change memmapPages trees s (alignDown pa 12) (roundup2OrderSize sz 12) memFlags 12 =
    some (s₁, va₁) at pages
  have paEq : alignDown pa 12 + pa % 2 ^ 12 = pa := Nat.sub_add_cancel (Nat.mod_le _ _)
  obtain ⟨total, translates, reaches⟩ : ∃ total,
      Translates s₁.mmu ⟨alignDown pa 12, va₁, total⟩ ∧ pa % 2 ^ 12 + sz ≤ total := by
    cases found : hostMhashFind s.mhash (alignDown pa 12) with
    | some e =>
      obtain ⟨-, low, -⟩ := ok.mhash.inOrder.found found
      obtain ⟨-, sameMmu, enough, rfl⟩ := memmapPages_found ok found pages
      rw [sameMmu]
      refine ⟨_, ok.mhash.translates_found found (dvd_alignDown pa 12), ?_⟩
      rcases fits with fits | ⟨e', found', covered⟩
      · exact (fits.reaches pos (by omega)).trans enough
      · obtain rfl : e = e' := some.inj (found.symm.trans found')
        omega
    | none =>
      obtain ⟨-, translates⟩ := memmapPages_fresh ok leaf le_rfl (by decide)
        (dvd_alignDown _ _) (roundup2OrderSize_dvd (by decide))
        (roundup_top (by decide) top).2 found pages
      refine ⟨_, translates, ?_⟩
      rcases fits with fits | ⟨e', found', -⟩
      · exact fits.reaches pos (by omega)
      · rw [pageShift, found] at found'
        cases found'
  have part : Translates s₁.mmu ⟨alignDown pa 12 + pa % 2 ^ 12, va₁ + pa % 2 ^ 12, sz⟩ :=
    translates.part reaches
  rw [paEq] at part
  exact part.congr (add_mod_space config _ _)

theorem hostMemunmap_ok {useHugepage : Bool} {rc : Rc} (ok : AspaceOk s) (word : va < 2 ^ 64)
    (small : sz ≤ 2 ^ 56) (closed : BlockClosed s.mmu (alignDown va (pageOrder useHugepage))
      (roundup2OrderSize sz (pageOrder useHugepage)))
    (done : hostMemunmap trees s va sz useHugepage = some (s', rc)) : AspaceOk s' := by
  obtain ⟨low, high⟩ := pageOrder_bounds useHugepage
  unfold hostMemunmap at done
  dsimp only at done
  generalize pageOrder useHugepage = order at closed done low high
  have pages : pageSize ∣ 2 ^ order := pow_dvd_pow 2 low
  have szAligned : 2 ^ order ∣ roundup2OrderSize sz order := roundup2OrderSize_dvd (by omega)
  have vaAligned := dvd_alignDown va order
  have szSmall : roundup2OrderSize sz order ≤ 2 ^ 56 :=
    (roundup2OrderSize_bounds (pow_dvd_pow 2 (by omega)) small (by decide)).2
  have vaSmall := (alignDown_le va order).trans_lt word
  generalize roundup2OrderSize sz order = size at closed done szAligned szSmall
  generalize alignDown va order = page at closed done vaAligned vaSmall
  have within : UnmapsWithin s.mmu (unmapPages s.mmu page order (size / 2 ^ order)).1 page size := by
    have blocks : size / 2 ^ order * 2 ^ order = size := Nat.div_mul_cancel szAligned
    have := unmapPages_within (size / 2 ^ order) _ le_rfl ok.refines (blocks.symm ▸ closed)
    rwa [blocks] at this
  cases translated : archCpuAspaceVa2pa s.mmu page with
  | none =>
    simp only [translated] at done
    cases done
    exact ok
  | some pa =>
    simp only [translated] at done
    split at done
    · next mhash busy =>
      cases done
      exact ⟨ok.refines, hostMhashDel_busy ok.mhash busy⟩
    · next mhash deleted =>
      have kept := hostMhashDel_ok ok.mhash translated vaSmall szSmall (pages.trans vaAligned)
        (pages.trans szAligned) within deleted
      split at done
      · next mmu unmapped =>
        rw [unmapped] at within kept
        obtain ⟨vapool, -, result⟩ := map_eq_some_iff.mp done
        cases result
        exact ⟨within.refines, kept⟩
      · next mmu rc' _ unmapped =>
        rw [unmapped] at within kept
        cases done
        exact ⟨within.refines, kept⟩
    · cases done

/-! ## Runs -/

inductive AspaceCall where
  | memmap (pa sz memFlags : Nat) (useHugepage : Bool)
  | memunmap (va sz : Nat) (useHugepage : Bool)
  | others (alloc : Mmu.Alloc) (vapool : Vapool)

/-- Mappings from any state where the page table is well formed and the memmap hash is right
about it, as it is after boot. Between the calls the two allocators serve others. -/
def aspaceSystem (config : Mmu.Config) (trees : Trees) : System (HostAspace config) AspaceCall where
  init := AspaceOk
  step s call s' :=
    match call with
    | .memmap pa sz memFlags useHugepage => pa < 2 ^ 64 ∧ sz < 2 ^ 64 ∧
      ∃ va, hostMemmap trees s pa sz memFlags useHugepage = some (s', va)
    | .memunmap va sz useHugepage => va < 2 ^ 64 ∧ sz < 2 ^ 64 ∧
      ∃ rc, hostMemunmap trees s va sz useHugepage = some (s', rc)
    | .others alloc vapool => Mmu.AllocOk config alloc s.mmu.root.descendants ∧
      s' = { s with vapool := vapool, mmu := { s.mmu with alloc := alloc } }

/-- Mappings are readable, writable or executable and lie below the largest physical address;
an unmapped range does not cut through a larger block. -/
def AspaceCall.Fits (s : HostAspace config) : AspaceCall → Prop
  | .memmap pa sz memFlags _ => (stage1Pgflags memFlags).leaf ∧ pa + sz ≤ 2 ^ 56
  | .memunmap va sz useHugepage => sz ≤ 2 ^ 56 ∧
    BlockClosed s.mmu (alignDown va (pageOrder useHugepage))
      (roundup2OrderSize sz (pageOrder useHugepage))
  | .others _ _ => True

theorem aspaceRun_ok
    (reached : ((aspaceSystem config trees).restrict AspaceCall.Fits).Reachable s) :
    AspaceOk s := by
  apply reached.invariant AspaceOk
  · intro s initially
    exact initially
  · rintro s call s' ok ⟨fits, taken⟩
    cases call with
    | memmap pa sz memFlags useHugepage =>
      obtain ⟨-, -, va, done⟩ := taken
      exact hostMemmap_ok ok fits.1 fits.2 done
    | memunmap va sz useHugepage =>
      obtain ⟨word, -, rc, done⟩ := taken
      exact hostMemunmap_ok ok word fits.1 fits.2 done
    | others alloc vapool =>
      obtain ⟨allocOk, rfl⟩ := taken
      have refines : MmuState.Refines { s.mmu with alloc := alloc } :=
        ⟨ok.refines.sound, allocOk, ok.refines.lookup⟩
      have same : Extends s.mmu { s.mmu with alloc := alloc } := by
        intro ia x translated
        rw [archCpuAspaceVa2pa, refines.getPage]
        rw [archCpuAspaceVa2pa, ok.refines.getPage] at translated
        exact translated
      exact ⟨refines, ⟨ok.mhash.placed, fun e inTree => (ok.mhash.good e inTree).mono same,
        ok.mhash.sorted⟩⟩

/-- The page table of the hypervisor: Sv39, with a pool of two tables. -/
def sv39 : Mmu.Config := ⟨.stage1, 2, 0x10000, 0x20000, 2, Mmu.Config.threeLevels_le⟩

def emptyAspace (ba : BuddyAllocator) : HostAspace sv39 where
  mhash := ⟨16, .leaf⟩
  vapool := ⟨0x10000000, 0x100000, ba⟩
  mmu := ⟨.fresh 0x10000 2, ⟨[0x20000, 0x21000], 0, [], []⟩, .empty⟩

theorem emptyAspace_ok (ba : BuddyAllocator) : AspaceOk (emptyAspace ba) := by
  have allocOk : Mmu.AllocOk sv39 ⟨[0x20000, 0x21000], 0, [], []⟩ [] := by
    refine ⟨by decide, by decide, by decide, by decide, fun _ => ⟨⟨by decide, by decide, by decide,
      by decide, by decide⟩, by decide, ?_, fun _ none => by cases none⟩, by decide⟩
    intro tblPa free
    rcases List.mem_pair.mp free with rfl | rfl
    · exact ⟨.inr ⟨0, by decide, rfl⟩, List.not_mem_nil⟩
    · exact ⟨.inr ⟨1, by decide, rfl⟩, List.not_mem_nil⟩
  refine ⟨Mmu.mmuSystem_refines (.start ⟨⟨_, rfl⟩, allocOk, rfl⟩), ⟨?_, ?_, List.Pairwise.nil⟩⟩
  · intro e inTree
    cases inTree
  · intro e inTree
    cases inTree

def plainTrees : Trees := ⟨Rebalance.plain _, Rebalance.plain _⟩

end Xvisor.Host
