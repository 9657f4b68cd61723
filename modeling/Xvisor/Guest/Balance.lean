import Xvisor.Guest.RegionClaims

/-!
# Adding and deleting regions keeps the host RAM in balance

`region_add` takes host RAM in the loop over the mappings and gives it back when
it fails; `region_del` gives it back with the same loop.
-/

namespace Xvisor.Guest

open List Lib Host Region HostRam

/-! ## The balance -/

variable (reg : Region)

theorem releaseMaps_ram (indices : List Nat) (ram : HostRam) (rc : RamStatus) :
    (reg.releaseMaps indices ram rc).1 = reg.freeMaps indices ram reg.maps := by
  induction indices generalizing ram rc with
  | nil => rfl
  | cons i indices ih =>
    simp only [releaseMaps, freeMaps]
    split
    · exact ih _ _
    · exact ih _ _

/-- The host RAM after the mappings of a region have been given back. -/
def Region.release (ram : HostRam) : HostRam :=
  if reg.ownsMemory then reg.freeMaps (List.range reg.mapsCount) ram reg.maps else ram

def Region.withMaps (maps : List RegionMapping) : Region := { reg with maps := maps }

theorem freeMaps_withMaps (maps claimed : List RegionMapping) (indices : List Nat) (ram : HostRam) :
    (reg.withMaps maps).freeMaps indices ram claimed = reg.freeMaps indices ram claimed := by
  induction indices generalizing ram with
  | nil => rfl
  | cons i indices ih =>
    simp only [freeMaps, ih]
    rfl

theorem release_withMaps {reg : Region} (owns : reg.ownsMemory = true)
    (maps : List RegionMapping) (ram : HostRam) :
    (reg.withMaps maps).release ram = reg.freeMaps (List.range reg.mapsCount) ram maps := by
  have owns' : (reg.withMaps maps).ownsMemory = true := owns
  rw [release, if_pos owns']
  exact freeMaps_withMaps reg maps maps (List.range reg.mapsCount) ram

section

variable (rb : Rebalance Region)

theorem RegionSpace.unlink_ram (space : RegionSpace) (reg : Region)
    (delRegTree delProbeList : Bool) :
    (space.unlink rb reg delRegTree delProbeList).ram = space.ram := by
  simp only [RegionSpace.unlink]
  split_ifs <;> rfl

open RegionSpace

theorem RegionSpace.del_ram (space : RegionSpace) (reg : Region) (delRegTree delProbeList : Bool) :
    (space.del rb reg delRegTree delProbeList).1.ram = reg.release space.ram := by
  simp only [RegionSpace.del, release]
  split
  · rw [releaseMaps_ram, unlink_ram]
  · exact unlink_ram rb space reg delRegTree delProbeList

theorem balanced_iff (env : AddEnv) (space : RegionSpace) (node : RegionNode) :
    Balanced rb env space node ↔
      match regionAdd rb env space.aspace space.ram node with
      | .added reg _ ram => reg.release ram = space.ram ∧
        ∀ later : HostRam, later.layout = space.ram.layout →
          (∀ k, later.freeAt k + (space.ram.freeAt k - ram.freeAt k) < 2 ^ 32) →
          GivesBack space.ram ram later (reg.release later)
      | .failed _ ram => ram = space.ram
      | .hangs => True := by
  -- the probe lists a region is put on hold no host RAM
  have probed := @apply_ite RegionSpace HostRam RegionSpace.ram
  unfold Balanced RegionSpace.add
  cases regionAdd rb env space.aspace space.ram node with
  | added reg aspace ram =>
    simp only [Option.some.injEq, Prod.mk.injEq, and_imp]
    constructor
    · intro balanced
      obtain ⟨restored, returned⟩ := balanced false _ _ rfl rfl false false
      simp only [del_ram, probed, ite_self] at restored returned
      refine ⟨restored, ?_⟩
      intro later same room
      exact returned { space with ram := later } same room
    · rintro ⟨restored, returned⟩ addProbeList _ _ rfl rfl delRegTree delProbeList
      simp only [del_ram, probed, ite_self]
      refine ⟨restored, ?_⟩
      exact fun later same room => returned later.ram same room
  | failed error ram =>
    simp only [Option.some.injEq, Prod.mk.injEq, and_imp]
    constructor
    · intro balanced
      exact congrArg RegionSpace.ram (balanced false _ _ rfl rfl)
    · rintro rfl _ _ _ rfl rfl
      rfl
  | hangs => simp

theorem finishAdd_cases (env : AddEnv) (aspace : Aspace) (reg : Region) (ram : HostRam) :
    (∃ error, finishAdd rb env aspace reg ram = .failed error (reg.release ram)) ∨
      ∃ aspace', finishAdd rb env aspace reg ram = .added reg aspace' ram := by
  simp only [finishAdd, release]
  split
  · exact Or.inl ⟨_, rfl⟩
  · split
    · exact Or.inr ⟨_, rfl⟩
    · exact Or.inl ⟨_, rfl⟩

end

section Ends

variable {rb : Rebalance Region} {env : AddEnv} {space : RegionSpace} {node : RegionNode}
  {reg : Region} {firstColor numColors : Nat} {claim : HostRam → Nat → RegionMapping → Claim}
  {ram' : HostRam} {maps' : List RegionMapping}

/-- `region_add` has reached the loop that claims host memory for the region. -/
structure Claims (env : AddEnv) (space : RegionSpace) (node : RegionNode) (reg : Region)
    (firstColor numColors : Nat) (claim : HostRam → Nat → RegionMapping → Claim) : Prop where
  valid : isRegionNodeValid env.ops node = true
  read : readRegion env node = .ok (reg, firstColor, numColors)
  apart : space.aspace.isRegionOverlapping reg = false
  claims : (reg.placeFirst node).claim env firstColor numColors = some claim

def claimLoop (space : RegionSpace) (node : RegionNode) (reg : Region)
    (claim : HostRam → Nat → RegionMapping → Claim) : Claimed :=
  claimMaps claim (List.range (reg.placeFirst node).mapsCount) space.ram (reg.placeFirst node).maps

theorem Claims.planned (claims : Claims env space node reg firstColor numColors claim)
    (word : node.physSize.getD 0 < 2 ^ 64) : (reg.placeFirst node).Planned env node :=
  (readRegion_ok claims.read).1.planned claims.valid word (readRegion_ok claims.read).2.2

theorem Claims.regionAdd_eq (claims : Claims env space node reg firstColor numColors claim)
    (ends : (claimLoop space node reg claim).Ends ram' maps') (rb : Rebalance Region) :
    (∃ error, regionAdd rb env space.aspace space.ram node = .failed error
      (((reg.placeFirst node).withMaps maps').release ram')) ∨
    ∃ aspace', regionAdd rb env space.aspace space.ram node =
      .added ((reg.placeFirst node).withMaps maps') aspace' ram' := by
  have owns := claim_ownsMemory claims.claims
  simp only [regionAdd, claims.valid, claims.read, claims.apart, claims.claims, Bool.not_true,
    Bool.false_eq_true, if_false]
  unfold claimLoop at ends
  rcases ends with all | some
  · simp only [all]
    exact finishAdd_cases rb env space.aspace ((reg.placeFirst node).withMaps maps') ram'
  · simp only [some, release_withMaps owns]
    exact Or.inl ⟨_, rfl⟩

theorem regionAdd_end (rb : Rebalance Region) (env : AddEnv) (space : RegionSpace)
    (node : RegionNode) (word : node.physSize.getD 0 < 2 ^ 64) :
    (∃ error, regionAdd rb env space.aspace space.ram node = .failed error space.ram) ∨
    (∃ reg aspace', regionAdd rb env space.aspace space.ram node = .added reg aspace' space.ram ∧
      ∀ later, reg.release later = later) ∨
    regionAdd rb env space.aspace space.ram node = .hangs ∨
    ∃ reg firstColor numColors claim ram' maps',
      Claims env space node reg firstColor numColors claim ∧
      (claimLoop space node reg claim).Ends ram' maps' := by
  cases valid : isRegionNodeValid env.ops node with
  | false => exact Or.inl ⟨.einvalid, by simp [regionAdd, valid]⟩
  | true =>
    cases read : readRegion env node with
    | error error => exact Or.inl ⟨error, by simp [regionAdd, valid, read]⟩
    | ok result =>
      obtain ⟨reg, firstColor, numColors⟩ := result
      cases apart : space.aspace.isRegionOverlapping reg with
      | true => exact Or.inl ⟨.einvalid, by simp [regionAdd, valid, read, apart]⟩
      | false =>
        cases claims : (reg.placeFirst node).claim env firstColor numColors with
        | none =>
          have planned := (readRegion_ok read).1.planned valid word (readRegion_ok read).2.2
          have kept : ∀ later, (reg.placeFirst node).release later = later := by
            intro later
            unfold release
            split
            · exact freeMaps_unclaimed _ planned.pending.unclaimed later
            · rfl
          simp only [regionAdd, valid, read, apart, claims, Bool.not_true, Bool.false_eq_true,
            if_false]
          rcases finishAdd_cases rb env space.aspace (reg.placeFirst node) space.ram with
            ⟨error, failed⟩ | ⟨aspace', added⟩
          · exact Or.inl ⟨error, by rw [failed, kept]⟩
          · exact Or.inr (Or.inl ⟨_, aspace', added, kept⟩)
        | some claim =>
          right; right
          cases looped : claimLoop space node reg claim with
          | all ram' maps' =>
            exact Or.inr ⟨reg, firstColor, numColors, claim, ram', maps',
              ⟨valid, read, apart, claims⟩, Or.inl looped⟩
          | some ram' maps' =>
            exact Or.inr ⟨reg, firstColor, numColors, claim, ram', maps',
              ⟨valid, read, apart, claims⟩, Or.inr looped⟩
          | hangs =>
            rw [claimLoop] at looped
            exact Or.inl (by simp [regionAdd, valid, read, apart, claims, looped])

end Ends

theorem givesBack_of_ledger {entry : Ledger.Entry Int Nat} {before after later freed : HostRam}
    (taken : Ledger.Takes entry before.ledger after.ledger)
    (given : Ledger.Gives entry later.ledger freed.ledger) (layout : freed.layout = later.layout) :
    GivesBack before after later freed := by
  refine ⟨layout, ?_, ?_⟩
  · intro x
    have slot := taken.mem_slots_iff x
    have freedBit : freed.bits x = true ↔ later.bits x = true ∧ x ∉ entry.slots := by
      change x ∈ freed.ledger.used ↔ _
      rw [given.used]
      rfl
    have kept : before.bits x = true → after.bits x = true := by
      intro isSet
      change x ∈ after.ledger.used
      exact taken.mem_used isSet
    change x ∈ entry.slots ↔ after.bits x = true ∧ ¬ before.bits x = true at slot
    rw [slot] at freedBit
    rw [Bool.eq_iff_iff]
    cases isBefore : before.bits x with
    | true => simp [freedBit, isBefore, kept isBefore]
    | false =>
      cases isAfter : after.bits x with
      | true => simp [freedBit, isBefore, isAfter]
      | false => simp [freedBit, isAfter]
  · intro k
    have paid := taken.free k
    have back := given.free k
    simp only [ledger] at paid back
    omega

theorem freeAt_lt {ram : HostRam} (counters : ∀ bank ∈ ram.banks, bank.bmapFree < 2 ^ 32)
    (k : Nat) :
    ram.freeAt k < 2 ^ 32 := by
  unfold freeAt
  rw [List.getElem?_map]
  cases atK : ram.banks[k]? with
  | none => exact Nat.two_pow_pos 32
  | some bank => exact counters bank (mem_of_getElem? atK)

section Main

variable {rb : Rebalance Region} {env : AddEnv} {space : RegionSpace} {node : RegionNode}

theorem balanced_of_addFits (valid : LayoutValid space.ram.layout)
    (counters : ∀ bank ∈ space.ram.banks, bank.bmapFree < 2 ^ 32)
    (word : node.physSize.getD 0 < 2 ^ 64) (fits : AddFits env space node) :
    Balanced rb env space node := by
  rw [balanced_iff]
  rcases regionAdd_end rb env space node word with ⟨error, failed⟩ | ⟨reg, aspace', added, kept⟩ |
    hangs | ⟨reg, firstColor, numColors, claim, ram', maps', claims, ends⟩
  · simp only [failed]
  · simp only [added, kept]
    refine ⟨trivial, ?_⟩
    intro later same _
    exact ⟨rfl, by simp, by simp⟩
  · simp only [hangs]
  · have planned := claims.planned word
    have owns := claim_ownsMemory claims.claims
    have fit := fits claims.valid reg firstColor numColors claim claims.read claims.apart
      claims.claims
    obtain ⟨entry, layout, taken, given⟩ := claimMaps_repays
      (fun inCount same got fitsHere => planned.claim_repays claims.claims (same ▸ valid) inCount
        got fitsHere) ends planned.pending fit rfl
    have restored : ((reg.placeFirst node).withMaps maps').release ram' = space.ram := by
      rw [release_withMaps owns]
      obtain ⟨sameLayout, back⟩ := given ram' layout fun k => by
        have paid := taken.free k
        have := freeAt_lt counters k
        simp only [ledger] at paid
        omega
      exact eq_of_ledger sameLayout (taken.undo back)
    rcases claims.regionAdd_eq ends rb with ⟨error, failed⟩ | ⟨aspace', added⟩
    · simp only [failed]
      exact restored
    · simp only [added]
      refine ⟨restored, ?_⟩
      intro later same room
      rw [release_withMaps owns]
      obtain ⟨sameLayout, back⟩ := given later same fun k => by
        have paid := taken.free k
        have := room k
        simp only [ledger] at paid
        omega
      exact givesBack_of_ledger taken back (sameLayout.trans same.symm)

theorem Claims.fit_of_reserved {reg : Region} {firstColor numColors : Nat}
    {claim : HostRam → Nat → RegionMapping → Claim}
    (claims : Claims env space node reg firstColor numColors claim)
    (bounded : AddBounded space.ram node)
    (reserved : (reg.placeFirst node).flags.any .isreserved = true) :
    ClaimsFit claim ((reg.placeFirst node).Fits env firstColor numColors)
      (List.range (reg.placeFirst node).mapsCount) space.ram (reg.placeFirst node).maps := by
  have planned := claims.planned (bounded.size.trans (by decide))
  have owns := claim_ownsMemory claims.claims
  obtain ⟨-, covers, place⟩ := planned.reserved owns reserved
  have single : (reg.placeFirst node).mapsCount ≤ 1 := by
    by_contra several
    have second := (planned.mappingPhysSize_eq (Nat.lt_of_not_le several)).2
    omega
  have range : List.range (reg.placeFirst node).mapsCount = [0] := by
    have nonempty := (readRegion_ok claims.read).2.2
    rw [← (placeFirst_fields reg node).1] at nonempty
    rw [show (reg.placeFirst node).mapsCount = 1 by omega]
    rfl
  rw [range]
  simp only [ClaimsFit]
  split
  · refine ⟨?_, trivial⟩
    rw [Region.Fits, if_pos reserved, place]
    have inCount : 0 < (reg.placeFirst node).mapsCount := by
      rw [← mem_range, range]
      exact mem_singleton_self 0
    have size := (planned.mappingPhysSize_eq inCount).1
    have host := bounded.host
    have isSize := planned.size
    omega
  · trivial

theorem addFits_of_balanced (valid : LayoutValid space.ram.layout)
    (bounded : AddBounded space.ram node) (balanced : Balanced rb env space node) :
    AddFits env space node := by
  intro isValid reg firstColor numColors claim read apart isClaim
  have claims : Claims env space node reg firstColor numColors claim :=
    ⟨isValid, read, apart, isClaim⟩
  have planned := claims.planned (bounded.size.trans (by decide))
  have owns := claim_ownsMemory isClaim
  have size : (reg.placeFirst node).physSize < 2 ^ 44 := planned.size ▸ bounded.size
  cases reserved : (reg.placeFirst node).flags.any .isreserved with
  | true => exact claims.fit_of_reserved bounded reserved
  | false =>
    by_contra misfit
    have each : ∀ {ram i map ram' pa}, i < (reg.placeFirst node).mapsCount →
        ram.layout = space.ram.layout → ram.Short → claim ram i map = .got ram' pa →
        ∃ entry back, RepaysPart entry back ram ram' pa ((reg.placeFirst node).mappingPhysSize i) ∧
          (¬ (reg.placeFirst node).Fits env firstColor numColors ram i map →
            ∃ x ∈ entry.slots, x ∉ back) := by
      intro ram i map ram' pa inCount same short got
      exact planned.claim_repaysPart isClaim reserved size inCount (same ▸ valid) short
        (same ▸ bounded.top) got
    obtain ⟨ram', maps', ends, layout⟩ := claimMaps_ends each
      (fun inCount same => planned.claim_ne_hangs isClaim reserved size inCount (same ▸ valid))
      planned.pending rfl bounded.short
    obtain ⟨x, clear, isSet, stays⟩ :=
      claimMaps_leaks each ends planned.pending rfl bounded.short misfit
    have leaked : ((reg.placeFirst node).withMaps maps').release ram' ≠ space.ram := by
      intro restored
      have kept := stays ram' layout isSet
      rw [← release_withMaps owns, restored, clear] at kept
      exact Bool.false_ne_true kept
    rw [balanced_iff] at balanced
    rcases claims.regionAdd_eq ends rb with ⟨error, failed⟩ | ⟨aspace', added⟩
    · rw [failed] at balanced
      exact leaked balanced
    · rw [added] at balanced
      exact leaked balanced.1

end Main

/-- Adding and deleting a region are in balance when every mapping that is claimed fits and,
where sizes and addresses do not wrap, only then. -/
theorem region_balanced (rb : Rebalance Region) (env : AddEnv) (space : RegionSpace)
    (node : RegionNode) (valid : LayoutValid space.ram.layout)
    (counters : ∀ bank ∈ space.ram.banks, bank.bmapFree < 2 ^ 32)
    (word : node.physSize.getD 0 < 2 ^ 64) :
    (AddFits env space node → Balanced rb env space node) ∧ (AddBounded space.ram node →
        (Balanced rb env space node ↔ AddFits env space node)) := by
  refine ⟨balanced_of_addFits valid counters word, ?_⟩
  intro bounded
  exact ⟨addFits_of_balanced valid bounded, balanced_of_addFits valid counters word⟩

theorem claimsFit_of_forall {claim : HostRam → Nat → RegionMapping → Claim}
    {fits : HostRam → Nat → RegionMapping → Prop} {indices : List Nat}
    (all : ∀ i ∈ indices, ∀ ram map, fits ram i map) (ram : HostRam) (maps : List RegionMapping) :
    ClaimsFit claim fits indices ram maps := by
  induction indices generalizing ram maps with
  | nil => trivial
  | cons i indices ih =>
    simp only [ClaimsFit]
    split
    · refine ⟨all i (by simp) _ _, ih ?_ _ _⟩
      exact fun j member => all j (by simp [member])
    · trivial

def oneBank (frames : Nat) : RegionSpace :=
  ⟨.empty, [], [], ⟨[⟨⟨0x90000000, frames * pageSize, frames, 0⟩, frames⟩], fun _ => false⟩⟩

def fourPages (alignOrder : Nat) : RegionNode where
  manifestType := some .real
  addressType := some .memory
  deviceType := some (.ram .alloced)
  guestPhys := some 0x80000000
  hostPhys := none
  aliasPhys := none
  physSize := some 0x4000
  firstColor := none
  numColors := none
  alignOrder := some alignOrder
  mapOrder := some 12
  sharedMem := none

def plainEnv : AddEnv := ⟨⟨1, 12, fun _ _ _ => true⟩, true, true⟩

theorem oneBank_layoutValid : LayoutValid (oneBank 32).ram.layout := by
  refine ⟨?_, pairwise_singleton _ _, pairwise_singleton _ _⟩
  intro bank member
  rw [mem_singleton.mp member]
  exact ⟨by decide, by decide, by decide, by decide, by decide⟩

theorem contained_of_onePage {request : Request} (onePage : request.bcnt = 1) (ram : HostRam) :
    request.Contained ram := by
  rintro before bank after - - bpos ⟨k, -, inside⟩ - beyond
  omega

def fourPagesRegion : Region where
  flags := .real ||| .memory ||| .isram ||| .isalloced ||| .cacheable ||| .bufferable
  gphysAddr := 0x80000000
  aphysAddr := 0x80000000
  physSize := 0x4000
  alignOrder := 12
  mapOrder := 12
  mapsCount := 4
  maps := (List.range 4).map fun i => ⟨0x80000000 + i * 0x1000, false⟩

theorem fourPages_fits : AddFits plainEnv (oneBank 32) (fourPages 12) := by
  have isRead : readRegion plainEnv (fourPages 12) = .ok (fourPagesRegion, 0, 0) := rfl
  have placed : fourPagesRegion.placeFirst (fourPages 12) = fourPagesRegion := by decide
  have onePage : ∀ i ∈ List.range 4, fourPagesRegion.mappingPhysSize i < 2 ^ 44 ∧
      (fourPagesRegion.request plainEnv 0 0 i).bcnt = 1 := by decide
  intro _ reg firstColor numColors claim read _ _
  cases isRead.symm.trans read
  rw [placed]
  refine claimsFit_of_forall ?_ _ _
  intro i member ram map
  obtain ⟨small, single⟩ := onePage i member
  rw [Region.Fits, if_neg (by decide)]
  exact ⟨le_rfl, small, contained_of_onePage single ram⟩

theorem region_balanced_fourPages :
    (∃ reg aspace ram, regionAdd (.plain Region) plainEnv (oneBank 32).aspace (oneBank 32).ram
      (fourPages 12) = .added reg aspace ram ∧ ram.freeAt 0 = 28) ∧
    Balanced (.plain Region) plainEnv (oneBank 32) (fourPages 12) := by
  refine ⟨⟨_, _, _, rfl, by decide⟩, ?_⟩
  refine (region_balanced (.plain Region) plainEnv (oneBank 32) (fourPages 12) oneBank_layoutValid
    ?_ (by decide)).1 fourPages_fits
  intro bank member
  rw [mem_singleton.mp member]
  decide

/-- With an alignment of two pages each of the four mappings takes two frames and gives one
back, whether the region is added and deleted or, on a small host, the call fails. -/
theorem regionAdd_leaks_frames :
    ¬ Balanced (.plain Region) plainEnv (oneBank 32) (fourPages 13) ∧
    ¬ Balanced (.plain Region) plainEnv (oneBank 4) (fourPages 13) := by
  constructor
  · intro balanced
    have restored := (balanced false _ _ rfl false false).1
    have count := congrArg (freeAt · 0) restored
    revert count
    decide
  · intro balanced
    have restored := balanced false _ _ rfl
    have count := congrArg (fun space => space.ram.freeAt 0) restored
    revert count
    decide

end Xvisor.Guest
