import Xvisor.Guest.Memory
import Xvisor.Lib.Walk

/-!
# Alias resolution

The alias loops of `vmm_guest_find_region` and `vmm_guest_physical_map` walk from one address to
the next and have no bound of their own.
-/

namespace Xvisor.Guest

open Lib RegionFlags Option

namespace Aspace

variable {aspace : Aspace}

def aliasStep (aspace : Aspace) (regFlags : RegionFlags) (gphys : Nat) : Option Nat :=
  ((aspace.descend regFlags gphys).filter Region.isAlias).map fun reg => reg.gphysToAphys gphys

variable {regFlags : RegionFlags} {gphys : Nat} {reg : Region}

theorem aliasStep_of_alias (found : aspace.descend regFlags gphys = some reg)
    (isAlias : reg.isAlias) : aspace.aliasStep regFlags gphys = some (reg.gphysToAphys gphys) := by
  simp [aliasStep, found, isAlias]

theorem aliasStep_of_not_alias (found : aspace.descend regFlags gphys = some reg)
    (notAlias : ¬ reg.isAlias) : aspace.aliasStep regFlags gphys = none := by
  simp [aliasStep, found, notAlias]

theorem aliasStep_of_none
    (missed : aspace.descend regFlags gphys = none) : aspace.aliasStep regFlags gphys = none := by
  simp [aliasStep, missed]

theorem resolve_hangs_iff {fuel : Nat} (found : aspace.descend regFlags gphys = some reg) :
    aspace.resolve regFlags fuel reg gphys = .hangs ↔
      (walk (aspace.aliasStep regFlags) (fuel + 1) gphys).isSome := by
  induction fuel generalizing gphys reg with
  | zero =>
    by_cases isAlias : reg.isAlias
    · simp [resolve, walk, isAlias, aliasStep_of_alias found isAlias]
    · simp [resolve, walk, isAlias, aliasStep_of_not_alias found isAlias]
  | succ fuel ih =>
    by_cases isAlias : reg.isAlias
    · rw [walk, aliasStep_of_alias found isAlias, bind_some]
      simp only [resolve, isAlias, if_true]
      cases next : aspace.descend regFlags (reg.gphysToAphys gphys) with
      | none => simp [walk, aliasStep_of_none next]
      | some target => exact ih next
    · simp [resolve, walk, isAlias, aliasStep_of_not_alias found isAlias]

theorem findRegion_hangs_iff (aspace : Aspace) (fuel gphys : Nat) (regFlags : RegionFlags) :
    aspace.findRegion fuel gphys regFlags true = .hangs ↔
      (walk (aspace.aliasStep regFlags) (fuel + 1) gphys).isSome := by
  unfold findRegion
  cases found : aspace.descend regFlags gphys with
  | none => simp [walk, aliasStep_of_none found]
  | some reg =>
    rw [← resolve_hangs_iff found]
    simp only [if_true]
    cases aspace.resolve regFlags fuel reg gphys with
    | found target =>
      dsimp only
      split <;> simp
    | missing => simp
    | hangs => simp

theorem locate_hangs_iff (aspace : Aspace) (fuel gphys : Nat) :
    aspace.locate fuel gphys = .hangs ↔
      (walk (aspace.aliasStep .memory) (fuel + 1) gphys).isSome := by
  have same : aspace.aliasStep .memory = aspace.aliasStep (.real ||| .memory) := rfl
  rw [same, ← findRegion_hangs_iff, findRegion_real]
  cases aspace.locate fuel gphys with
  | found place =>
    dsimp only
    split <;> simp
  | missing => simp
  | hangs => simp

theorem physicalMap_hangs_iff (aspace : Aspace) (fuel gphys gphysSize : Nat) :
    aspace.physicalMap fuel gphys gphysSize = .hangs ↔
      (walk (aspace.aliasStep .memory) (fuel + 1) gphys).isSome := by
  rw [← locate_hangs_iff, physicalMap]
  cases aspace.locate fuel gphys with
  | found place =>
    obtain ⟨reg, target⟩ := place
    simp
  | missing => simp
  | hangs => simp

theorem aliasStep_finite (aspace : Aspace) (regFlags : RegionFlags) :
    {next | ∃ gphys, aspace.aliasStep regFlags gphys = some next}.Finite := by
  refine (Set.finite_lt_nat (2 ^ 64)).subset ?_
  rintro next ⟨gphys, isNext⟩
  obtain ⟨reg, -, rfl⟩ := map_eq_some_iff.mp isNext
  exact Word.add_lt _ _

/-- The widest question that `vmm_guest_find_region` asks of the tree it searches. -/
def treeFlags (regFlags : RegionFlags) : RegionFlags := if regFlags.any .io then .io else 0

theorem any_io_iff (flags : RegionFlags) : flags.any .io ↔ flags.getLsbD 4 := by
  have bit : io = BitVec.twoPow 32 4 := by decide
  rw [any, bit, BitVec.and_twoPow, decide_eq_true_eq]
  cases flags.getLsbD 4
  · simp
  · simp only [if_true, iff_true]
    decide

theorem all_treeFlags {flags : RegionFlags} (carries : flags.all (regFlags &&& ~~~manifestMask)) :
    flags.all (treeFlags regFlags &&& ~~~manifestMask) := by
  unfold treeFlags
  split
  · next isIo =>
    rw [all_iff] at carries ⊢
    intro i isAsked
    apply carries i
    -- the only bit asked for is the I/O bit
    have only : io &&& ~~~manifestMask = BitVec.twoPow 32 4 := by decide
    have other : (~~~manifestMask).getLsbD 4 = true := by decide
    rw [only, BitVec.getLsbD_twoPow] at isAsked
    obtain rfl : 4 = i := by simpa using isAsked
    rw [BitVec.getLsbD_and, (any_io_iff regFlags).mp isIo, other]
    rfl
  · simp [all]

theorem aliasStep_treeFlags {next : Nat} (isNext : aspace.aliasStep regFlags gphys = some next) :
    aspace.aliasStep (treeFlags regFlags) gphys = some next := by
  obtain ⟨reg, isAlias, rfl⟩ := map_eq_some_iff.mp isNext
  obtain ⟨found, isAlias⟩ := filter_eq_some_iff.mp isAlias
  refine aliasStep_of_alias ?_ isAlias
  unfold descend at found ⊢
  obtain ⟨isFound, carries⟩ := filter_eq_some_iff.mp found
  refine filter_eq_some_iff.mpr ⟨?_, all_treeFlags carries⟩
  rw [← isFound]
  unfold tree treeFlags
  by_cases isIo : regFlags.any .io
  · rw [if_pos isIo, if_pos isIo, if_pos (by decide)]
  · rw [if_neg isIo, if_neg isIo, if_neg (by decide)]

/-- Alias resolution ends for every address and all flags if and only if no address comes back to
itself along the aliases of the memory tree or along those of the I/O tree. -/
theorem aliasResolution_ends_iff (aspace : Aspace) :
    ((∀ gphys regFlags, ∃ fuel, aspace.findRegion fuel gphys regFlags true ≠ .hangs) ∧
        ∀ gphys gphysSize, ∃ fuel, aspace.physicalMap fuel gphys gphysSize ≠ .hangs) ↔
      NoCycle (aspace.aliasStep 0) ∧ NoCycle (aspace.aliasStep .io) := by
  have ends : ∀ regFlags, (∀ gphys, ∃ fuel, aspace.findRegion fuel gphys regFlags true ≠ .hangs) ↔
      NoCycle (aspace.aliasStep regFlags) := by
    intro regFlags
    rw [← walks_end_iff (aspace.aliasStep_finite regFlags)]
    constructor
    · intro ends gphys
      obtain ⟨fuel, returned⟩ := ends gphys
      rw [Ne, findRegion_hangs_iff, not_isSome_iff_eq_none] at returned
      exact ⟨fuel + 1, returned⟩
    · intro ends gphys
      obtain ⟨n, ended⟩ := ends gphys
      refine ⟨n, ?_⟩
      rw [Ne, findRegion_hangs_iff]
      intro goesOn
      have shorter := walk_isSome_of_le n.le_succ goesOn
      rw [ended] at shorter
      cases shorter
  constructor
  · rintro ⟨find, -⟩
    exact ⟨(ends 0).mp fun gphys => find gphys 0, (ends .io).mp fun gphys => find gphys .io⟩
  · rintro ⟨memory, io⟩
    have noCycle : ∀ regFlags, NoCycle (aspace.aliasStep regFlags) := by
      intro regFlags
      have tree : NoCycle (aspace.aliasStep (treeFlags regFlags)) := by
        unfold treeFlags
        split
        · exact io
        · exact memory
      exact tree.mono fun _ _ => aliasStep_treeFlags
    refine ⟨fun gphys regFlags => (ends regFlags).mpr (noCycle regFlags) gphys, ?_⟩
    intro gphys gphysSize
    obtain ⟨fuel, returned⟩ := (ends .memory).mpr (noCycle .memory) gphys
    refine ⟨fuel, ?_⟩
    rw [Ne, physicalMap_hangs_iff, ← findRegion_hangs_iff]
    exact returned

end Aspace

/-! ## An alias of itself -/

def selfAlias : AddCall where
  env := twoPages.env
  ram := twoPages.ram
  node := { aliasPage.node with aliasPhys := some 0x5000 }

def selfAliasedGuest : Aspace :=
  ⟨.node .leaf { aliasRegion with aphysAddr := 0x5000 } .leaf, .leaf⟩

theorem selfAliasedGuest_built : (aspaceSystem (.plain _)).Reachable selfAliasedGuest :=
  (System.Reachable.start rfl).next
    (show (aspaceSystem (.plain _)).step .empty selfAlias _ from
      ⟨{ aliasRegion with aphysAddr := 0x5000 }, _, rfl⟩)

/-- `region_add` accepts the page, and no lookup of its address returns. -/
theorem aliasResolution_hangs :
    (aspaceSystem (.plain _)).Reachable selfAliasedGuest ∧
    (∀ fuel, selfAliasedGuest.findRegion fuel 0x5000 .memory true = .hangs) ∧
    ∀ fuel, selfAliasedGuest.physicalMap fuel 0x5000 1 = .hangs := by
  have again : selfAliasedGuest.aliasStep .memory 0x5000 = some 0x5000 := by decide
  have goesOn : ∀ n, walk (selfAliasedGuest.aliasStep .memory) n 0x5000 = some 0x5000 := by
    intro n
    induction n with
    | zero => rfl
    | succ n ih => rw [walk, again, bind_some, ih]
  refine ⟨selfAliasedGuest_built, ?_, ?_⟩
  · intro fuel
    rw [Aspace.findRegion_hangs_iff, goesOn, isSome_some]
  · intro fuel
    rw [Aspace.physicalMap_hangs_iff, goesOn, isSome_some]

end Xvisor.Guest
