import Xvisor.Guest.RegionAdd

/-!
# Claiming and releasing the host memory of a region

The loop over the mappings takes one entry of the host RAM ledger per mapping.
The release loops give these entries back; a mapping that does not fit leaves a
bit behind that no other release clears.
-/

namespace Xvisor.Guest

open List Lib Host Nat

/-! ## The loops over the mappings -/

def Claimed.Ends (claimed : Claimed) (ram : HostRam) (maps : List RegionMapping) : Prop :=
  claimed = .all ram maps ∨ claimed = .some ram maps

section Loops

variable {reg : Region} {claim : HostRam → Nat → RegionMapping → Claim}
  {fits : HostRam → Nat → RegionMapping → Prop} {indices : List Nat} {ram ram' : HostRam}
  {maps maps' : List RegionMapping} {layout : List BankLayout}

variable {i j pa : Nat}

theorem claimMaps_cons (ends : (claimMaps claim (i :: indices) ram maps).Ends ram' maps') :
    (∃ next pa, claim ram i (maps.getD i ⟨0, false⟩) = .got next pa ∧
      (claimMaps claim indices next (maps.set i ⟨pa, true⟩)).Ends ram' maps') ∨
    claim ram i (maps.getD i ⟨0, false⟩) = .failed ∧ ram' = ram ∧ maps' = maps := by
  simp only [claimMaps] at ends
  split at ends
  · next next pa got => exact Or.inl ⟨next, pa, got, ends⟩
  · next failed =>
    rcases ends with ends | ends
    · cases ends
    · cases ends
      exact Or.inr ⟨failed, rfl, rfl⟩
  · rcases ends with ends | ends <;> cases ends

theorem getD_set_self {map : RegionMapping} (inRange : i < maps.length) :
    (maps.set i map).getD i ⟨0, false⟩ = map := by
  simp [getD_eq_getElem?_getD, inRange]

theorem getD_set_ne {map : RegionMapping} (ne : i ≠ j) :
    (maps.set i map).getD j ⟨0, false⟩ = maps.getD j ⟨0, false⟩ := by
  simp [getD_eq_getElem?_getD, ne]

theorem claimMaps_frame (ends : (claimMaps claim indices ram maps).Ends ram' maps')
    (outside : j ∉ indices) : maps'.getD j ⟨0, false⟩ = maps.getD j ⟨0, false⟩ := by
  induction indices generalizing ram maps with
  | nil =>
    rcases ends with ends | ends
    · cases ends
      rfl
    · cases ends
  | cons i indices ih =>
    rw [mem_cons, not_or] at outside
    rcases claimMaps_cons ends with ⟨next, pa, -, onward⟩ | ⟨-, -, rfl⟩
    · rw [ih onward outside.2, getD_set_ne (Ne.symm outside.1)]
    · rfl

theorem freeMaps_unclaimed (reg : Region)
    (unclaimed : ∀ i ∈ indices, (maps.getD i ⟨0, false⟩).ishostram = false) (ram : HostRam) :
    reg.freeMaps indices ram maps = ram := by
  induction indices with
  | nil => rfl
  | cons i indices ih =>
    simp only [Region.freeMaps, unclaimed i (by simp), reduceCtorEq, reduceIte]
    exact ih fun j member => unclaimed j (by simp [member])

theorem freeMaps_claimed (inRange : i < maps.length) (fresh : i ∉ indices)
    (ends : (claimMaps claim indices ram (maps.set i ⟨pa, true⟩)).Ends ram' maps')
    (later : HostRam) :
    reg.freeMaps (i :: indices) later maps' =
      reg.freeMaps indices (vmmHostRamFree later pa (reg.mappingPhysSize i)).1 maps' := by
  have kept := claimMaps_frame ends fresh
  rw [getD_set_self inRange] at kept
  simp only [Region.freeMaps, kept, if_true]

structure Pending (reg : Region) (indices : List Nat) (maps : List RegionMapping) : Prop where
  distinct : indices.Nodup
  bounded : ∀ i ∈ indices, i < reg.mapsCount ∧ i < maps.length
  unclaimed : ∀ i ∈ indices, (maps.getD i ⟨0, false⟩).ishostram = false

theorem Pending.tail (pending : Pending reg (i :: indices) maps) :
    Pending reg indices (maps.set i ⟨pa, true⟩) := by
  obtain ⟨fresh, distinct⟩ := nodup_cons.mp pending.distinct
  refine ⟨distinct, ?_, ?_⟩
  · intro j member
    rw [length_set]
    exact pending.bounded j (by simp [member])
  · intro j member
    rw [getD_set_ne (fun same : i = j => fresh (same ▸ member))]
    exact pending.unclaimed j (by simp [member])

theorem claimMaps_repays (each : ∀ {ram i map ram' pa}, i < reg.mapsCount → ram.layout = layout →
      claim ram i map = .got ram' pa → fits ram i map →
      ∃ entry, Repays entry ram ram' pa (reg.mappingPhysSize i))
    (ends : (claimMaps claim indices ram maps).Ends ram' maps')
    (pending : Pending reg indices maps) (fit : ClaimsFit claim fits indices ram maps)
    (same : ram.layout = layout) :
    ∃ entry, ram'.layout = layout ∧ Ledger.Takes entry ram.ledger ram'.ledger ∧
      ∀ later : HostRam, later.layout = layout → (∀ k, later.freeAt k + entry.count k < 2 ^ 32) →
        (reg.freeMaps indices later maps').layout = layout ∧
        Ledger.Gives entry later.ledger (reg.freeMaps indices later maps').ledger := by
  induction indices generalizing ram maps with
  | nil =>
    rcases ends with ends | ends
    · cases ends
      exact ⟨.empty, same, .refl _, fun later sameLater _ => ⟨sameLater, .refl _⟩⟩
    · cases ends
  | cons i indices ih =>
    rcases claimMaps_cons ends with ⟨next, pa, got, onward⟩ | ⟨-, rfl, rfl⟩
    · obtain ⟨inCount, inMaps⟩ := pending.bounded i (by simp)
      have fresh := (nodup_cons.mp pending.distinct).1
      simp only [ClaimsFit, got] at fit
      obtain ⟨first, repays⟩ := each inCount same got fit.1
      obtain ⟨rest, layout', takenRest, givenRest⟩ :=
        ih onward pending.tail fit.2 (repays.layout.trans same)
      refine ⟨first.append rest, layout', repays.taken.trans takenRest, ?_⟩
      intro later sameLater room
      simp only [Ledger.Entry.append] at room
      have given := repays.given later (sameLater.trans same.symm) fun k => by
        have := room k
        omega
      have sameFreed : (vmmHostRamFree later pa (reg.mappingPhysSize i)).1.layout = layout := by
        rw [vmmHostRamFree_layout, sameLater]
      rw [freeMaps_claimed inMaps fresh onward]
      obtain ⟨kept, givenLater⟩ := givenRest _ sameFreed fun k => by
        have freed : HostRam.freeAt _ k = _ := given.free k
        have := room k
        rw [freed]
        change later.freeAt k + first.count k + rest.count k < 2 ^ 32
        omega
      exact ⟨kept, given.trans givenLater⟩
    · refine ⟨.empty, same, .refl _, ?_⟩
      intro later sameLater _
      rw [freeMaps_unclaimed reg pending.unclaimed]
      exact ⟨sameLater, .refl _⟩

section Leaks

variable (each : ∀ {ram i map ram' pa}, i < reg.mapsCount → ram.layout = layout → ram.Short →
  claim ram i map = .got ram' pa →
  ∃ entry back, RepaysPart entry back ram ram' pa (reg.mappingPhysSize i) ∧
    (¬ fits ram i map → ∃ x ∈ entry.slots, x ∉ back))
include each

theorem claimMaps_keeps (ends : (claimMaps claim indices ram maps).Ends ram' maps')
    (pending : Pending reg indices maps) (same : ram.layout = layout) (short : ram.Short) {x : Int}
    (isSet : ram.bits x = true) :
    ram'.bits x = true ∧ ∀ later : HostRam, later.layout = layout → later.bits x = true →
      (reg.freeMaps indices later maps').bits x = true := by
  induction indices generalizing ram maps with
  | nil =>
    rcases ends with ends | ends
    · cases ends
      exact ⟨isSet, fun _ _ stays => stays⟩
    · cases ends
  | cons i indices ih =>
    rcases claimMaps_cons ends with ⟨next, pa, got, onward⟩ | ⟨-, rfl, rfl⟩
    · obtain ⟨inCount, inMaps⟩ := pending.bounded i (by simp)
      have fresh := (nodup_cons.mp pending.distinct).1
      obtain ⟨entry, back, repays, -⟩ := each inCount same short got
      obtain ⟨stays, kept⟩ := ih onward pending.tail
        (repays.layout.trans same) (short.of_takes repays.layout repays.taken)
        (repays.taken.mem_used isSet)
      refine ⟨stays, ?_⟩
      intro later sameLater isSetLater
      rw [freeMaps_claimed inMaps fresh onward]
      refine kept _ (by rw [vmmHostRamFree_layout, sameLater]) ?_
      rw [repays.cleared later (sameLater.trans same.symm)]
      exact ⟨isSetLater, fun inBack => repays.taken.fresh x (repays.part inBack) isSet⟩
    · refine ⟨isSet, ?_⟩
      intro later _ isSetLater
      rw [freeMaps_unclaimed reg pending.unclaimed]
      exact isSetLater

theorem claimMaps_leaks (ends : (claimMaps claim indices ram maps).Ends ram' maps')
    (pending : Pending reg indices maps) (same : ram.layout = layout) (short : ram.Short)
    (misfit : ¬ ClaimsFit claim fits indices ram maps) :
    ∃ x, ram.bits x = false ∧ ram'.bits x = true ∧ ∀ later : HostRam, later.layout = layout →
      later.bits x = true → (reg.freeMaps indices later maps').bits x = true := by
  induction indices generalizing ram maps with
  | nil => exact absurd trivial misfit
  | cons i indices ih =>
    rcases claimMaps_cons ends with ⟨next, pa, got, onward⟩ | ⟨failed, -, -⟩
    · obtain ⟨inCount, inMaps⟩ := pending.bounded i (by simp)
      have fresh := (nodup_cons.mp pending.distinct).1
      obtain ⟨entry, back, repays, leaves⟩ := each inCount same short got
      have sameNext := repays.layout.trans same
      have shortNext := short.of_takes repays.layout repays.taken
      simp only [ClaimsFit, got, not_and_or] at misfit
      rcases misfit with here | there
      · -- this mapping leaves a bit behind, and the others do not clear it
        obtain ⟨x, taken, stays⟩ := leaves here
        have changed := (repays.taken.mem_slots_iff x).mp taken
        obtain ⟨isSet, kept⟩ :=
          claimMaps_keeps each onward pending.tail sameNext shortNext changed.1
        refine ⟨x, Bool.eq_false_iff.mpr changed.2, isSet, ?_⟩
        intro later sameLater isSetLater
        rw [freeMaps_claimed inMaps fresh onward]
        refine kept _ (by rw [vmmHostRamFree_layout, sameLater]) ?_
        rw [repays.cleared later (sameLater.trans same.symm)]
        exact ⟨isSetLater, stays⟩
      · -- a later mapping leaves one behind, which this one has not taken
        obtain ⟨x, clear, isSet, kept⟩ := ih onward pending.tail sameNext shortNext there
        have unused : x ∉ next.ledger.used := by
          change ¬ next.bits x = true
          rw [clear]
          exact Bool.false_ne_true
        refine ⟨x, ?_, isSet, ?_⟩
        · exact Bool.eq_false_iff.mpr fun used => unused (repays.taken.mem_used used)
        · intro later sameLater isSetLater
          rw [freeMaps_claimed inMaps fresh onward]
          refine kept _ (by rw [vmmHostRamFree_layout, sameLater]) ?_
          rw [repays.cleared later (sameLater.trans same.symm)]
          refine ⟨isSetLater, fun inBack => unused ?_⟩
          exact ((repays.taken.mem_slots_iff x).mp (repays.part inBack)).1
    · simp only [ClaimsFit, failed] at misfit
      exact absurd trivial misfit

theorem claimMaps_ends
    (returns : ∀ {ram i map}, i < reg.mapsCount → ram.layout = layout → claim ram i map ≠ .hangs)
    (pending : Pending reg indices maps) (same : ram.layout = layout) (short : ram.Short) :
    ∃ ram' maps', (claimMaps claim indices ram maps).Ends ram' maps' ∧ ram'.layout = layout := by
  induction indices generalizing ram maps with
  | nil => exact ⟨ram, maps, Or.inl rfl, same⟩
  | cons i indices ih =>
    have inCount := (pending.bounded i (by simp)).1
    simp only [claimMaps]
    cases claimed : claim ram i (maps.getD i ⟨0, false⟩) with
    | got next pa =>
      obtain ⟨entry, back, repays, -⟩ := each inCount same short claimed
      exact ih pending.tail (repays.layout.trans same)
        (short.of_takes repays.layout repays.taken)
    | failed => exact ⟨ram, maps, Or.inr rfl, same⟩
    | hangs => exact absurd claimed (returns inCount same)

end Leaks

end Loops

/-! ## Regions as they are read -/

theorem regionFlags_provision (manifest : ManifestType) (address : AddressType) (kind : DeviceType)
    (provision : Provision) :
    (regionFlags manifest address kind).any (provisionFlags provision) =
      decide (kind.provision = some provision) := by
  rcases kind with own | own | _
  · cases manifest <;> cases address <;> cases own <;> cases provision <;> rfl
  · cases manifest <;> cases address <;> cases own <;> cases provision <;> rfl
  · cases manifest <;> cases address <;> cases provision <;> rfl

theorem regionFlags_real (manifest : ManifestType) (address : AddressType) (kind : DeviceType) :
    (regionFlags manifest address kind).any (.aliased ||| .virtual) =
      !(regionFlags manifest address kind).any .real := by
  rcases kind with own | own | _
  · cases manifest <;> cases address <;> cases own <;> rfl
  · cases manifest <;> cases address <;> cases own <;> rfl
  · cases manifest <;> cases address <;> rfl

variable {reg : Region} {env : AddEnv} {node : RegionNode}

theorem Region.Read.aligned (read : reg.Read env node)
    (valid : isRegionNodeValid env.ops node = true) :
    reg.alignOrder < 64 ∧ 2 ^ reg.alignOrder ∣ reg.physSize := by
  obtain ⟨manifest, address, kind, isManifest, isAddress, isKind, flags⟩ := read.flags
  have colored := regionFlags_provision manifest address kind .colored
  have shared := regionFlags_provision manifest address kind .shared
  rw [← flags] at colored shared
  have order := read.align
  simp only [readAlignOrder] at order
  unfold isRegionNodeValid at valid
  rw [isManifest, isAddress, isKind, read.size] at valid
  cases isGphys : node.guestPhys with
  | none => simp [isGphys] at valid
  | some gphys =>
    have isOrder : reg.alignOrder = if kind.provision = some .colored then env.ops.colorOrder
        else if kind.provision = some .shared then (node.sharedMem.map Shmem.alignOrder).getD 0
        else node.alignOrder.getD 0 := by
      rw [order]
      simp only [provisionFlags] at colored shared
      simp only [colored, shared, decide_eq_true_eq]
    simp only [isGphys, ← isOrder] at valid
    split at valid
    · cases valid
    split at valid
    · cases valid
    split at valid
    · cases valid
    split at valid
    · cases valid
    obtain ⟨small, whole, -⟩ := of_decide_eq_true valid
    exact ⟨small, dvd_of_mod_eq_zero whole⟩

theorem defaultMapOrder_some {physSize order : Nat}
    (found : defaultMapOrder physSize = some order) :
    pageShift ≤ order ∧ order < 64 ∧ physSize ≤ 2 ^ order := by
  have holds := List.find?_some found
  obtain ⟨i, inRange, rfl⟩ := mem_map.mp (mem_of_find?_eq_some found)
  have := mem_range.mp inRange
  refine ⟨le_add_right _ _, ?_, of_decide_eq_true holds⟩
  simp only [pageShift]
  omega

theorem placeFirst_eq (reg : Region) (node : RegionNode) :
    ∃ maps, reg.placeFirst node = { reg with maps := maps } ∧ maps.length = reg.maps.length ∧
      ((∀ i, (reg.maps.getD i ⟨0, false⟩).ishostram = false) →
        ∀ i, (maps.getD i ⟨0, false⟩).ishostram = false) := by
  have set : ∀ (maps : List RegionMapping) (hphys : Nat),
      (∀ i, (maps.getD i ⟨0, false⟩).ishostram = false) →
      ∀ i, ((maps.set 0 ⟨hphys, false⟩).getD i ⟨0, false⟩).ishostram = false := by
    intro maps hphys unclaimed i
    by_cases first : i = 0
    · subst first
      cases maps <;> rfl
    · rw [getD_set_ne (Ne.symm first)]
      exact unclaimed i
  simp only [Region.placeFirst]
  split_ifs
  · exact ⟨_, rfl, by simp, fun unclaimed => set _ _ (set _ _ unclaimed)⟩
  · exact ⟨_, rfl, by simp, set _ _⟩
  · exact ⟨_, rfl, by simp, set _ _⟩
  · exact ⟨_, rfl, rfl, id⟩

/-- A region whose host memory is about to be claimed. -/
structure Region.Planned (reg : Region) (env : AddEnv) (node : RegionNode) : Prop where
  size : node.physSize.getD 0 = reg.physSize
  word : reg.physSize < 2 ^ 64
  count : reg.mapsCount = countMaps reg.physSize reg.mapOrder
  small : reg.alignOrder < 64
  aligned : 2 ^ reg.alignOrder ∣ reg.physSize
  colored : reg.ownsMemory = true → reg.flags.any .iscolored = true →
    reg.alignOrder = env.ops.colorOrder ∧ reg.mapOrder = reg.alignOrder
  alloced : reg.ownsMemory = true → reg.flags.any .isalloced = true →
    reg.flags.any .iscolored = false ∧ pageShift ≤ reg.mapOrder
  reserved : reg.ownsMemory = true → reg.flags.any .isreserved = true →
    reg.mapOrder < 64 ∧ reg.physSize ≤ 2 ^ reg.mapOrder ∧
      (reg.maps.getD 0 ⟨0, false⟩).hphysAddr = node.hostPhys.getD 0
  pending : Pending reg (List.range reg.mapsCount) reg.maps

theorem chooseMapOrder_alloced {mapOrder : Option Nat} {default : Nat}
    (owns : reg.ownsMemory = true) (colored : reg.flags.any .iscolored = false)
    (alloced : reg.flags.any .isalloced = true) (low : pageShift ≤ default) :
    pageShift ≤ reg.chooseMapOrder mapOrder default := by
  simp only [Region.chooseMapOrder, owns, colored, alloced, Bool.and_false, Bool.false_eq_true,
    if_false, Bool.and_self, if_true]
  have order : pageShift ≤ if pageShift ≤ reg.alignOrder ∧ reg.alignOrder < default
      then reg.alignOrder else default := by
    split
    · next small => exact small.1
    · exact low
  split
  · split
    · assumption
    · exact order
  · exact order

theorem Region.Read.planned (read : reg.Read env node)
    (valid : isRegionNodeValid env.ops node = true) (word : node.physSize.getD 0 < 2 ^ 64)
    (nonempty : reg.mapsCount ≠ 0) : (reg.placeFirst node).Planned env node := by
  obtain ⟨small, aligned⟩ := read.aligned valid
  obtain ⟨maps, placed, length, unclaimed⟩ := placeFirst_eq reg node
  obtain ⟨default, isDefault, order⟩ := read.order
  obtain ⟨lowDefault, highDefault, covers⟩ := defaultMapOrder_some isDefault
  obtain ⟨manifest, address, kind, -, -, -, flags⟩ := read.flags
  have provisions := regionFlags_provision manifest address kind
  have isReal := regionFlags_real manifest address kind
  rw [← flags] at provisions isReal
  have isColored := provisions .colored
  have isShared := provisions .shared
  have isAlloced := provisions .alloced
  have isReserved := provisions .reserved
  simp only [provisionFlags] at isColored isShared isAlloced isReserved
  have size : node.physSize.getD 0 = reg.physSize := by
    rw [read.size]
    rfl
  have identity : ∀ i, (reg.maps.getD i ⟨0, false⟩).ishostram = false := by
    intro i
    rw [read.maps, getD_eq_getElem?_getD, Region.identityMaps, List.getElem?_map]
    cases (List.range reg.mapsCount)[i]? <;> rfl
  have count : reg.maps.length = reg.mapsCount := by
    rw [read.maps, Region.identityMaps, length_map, length_range]
  have reserved : reg.ownsMemory = true → reg.flags.any .isreserved = true →
      reg.mapOrder = default ∧ maps = reg.maps.set 0 ⟨node.hostPhys.getD 0, false⟩ := by
    intro owns hasReserved
    have real : reg.flags.any .real = true := by
      simp only [Region.ownsMemory, isReal, Bool.not_not, Bool.and_eq_true] at owns
      exact owns.1
    rw [hasReserved, eq_comm, decide_eq_true_iff] at isReserved
    simp only [isReserved, Option.some.injEq, reduceCtorEq, decide_false] at isColored isShared isAlloced
    have others : reg.flags.any (.isalloced ||| .iscolored ||| .isshared) = false := by
      rw [RegionFlags.any_or, RegionFlags.any_or, isAlloced, isColored, isShared]
      rfl
    refine ⟨?_, ?_⟩
    · simp [order, Region.chooseMapOrder, isColored, isAlloced]
    · simp only [Region.placeFirst, real, others, isShared, Bool.not_false, Bool.and_self, if_true,
        Bool.and_false, Bool.false_eq_true, if_false] at placed
      exact (congrArg Region.maps placed).symm
  rw [placed]
  refine ⟨size, by rw [← size]; exact word, read.count, small, aligned, ?_, ?_, ?_, ?_⟩
  · intro owns hasColored
    refine ⟨?_, ?_⟩
    · simp only [read.align, readAlignOrder]
      exact if_pos hasColored
    · change reg.mapOrder = reg.alignOrder
      rw [order, Region.chooseMapOrder, if_pos]
      exact Bool.and_eq_true_iff.mpr ⟨owns, hasColored⟩
  · intro owns hasAlloced
    have notColored : reg.flags.any .iscolored = false := by
      change reg.flags.any .isalloced = true at hasAlloced
      rw [hasAlloced, eq_comm, decide_eq_true_iff] at isAlloced
      simpa [isAlloced] using isColored
    refine ⟨notColored, ?_⟩
    change pageShift ≤ reg.mapOrder
    rw [order]
    exact chooseMapOrder_alloced owns notColored hasAlloced lowDefault
  · intro owns hasReserved
    obtain ⟨isDefaultOrder, isMaps⟩ := reserved owns hasReserved
    simp only [isDefaultOrder, isMaps]
    refine ⟨highDefault, covers, ?_⟩
    rw [getD_set_self (by omega)]
  · refine ⟨nodup_range, ?_, fun i _ => unclaimed identity i⟩
    intro i member
    have := mem_range.mp member
    simp only at this ⊢
    omega

/-! ## Sizes of the mappings -/

theorem countMaps_offset_lt {physSize mapOrder i : Nat} (word : physSize < 2 ^ 64)
    (inCount : i < countMaps physSize mapOrder) : i * 2 ^ mapOrder < physSize := by
  have below : Word.toU32 (physSize / 2 ^ mapOrder) * 2 ^ mapOrder ≤ physSize :=
    (mul_le_mul_right _ (mod_le _ _)).trans (div_mul_le_self _ _)
  simp only [countMaps] at inCount
  rw [mod_eq_of_lt (below.trans_lt word)] at inCount
  split at inCount
  · next room =>
    have atMost : i ≤ Word.toU32 (physSize / 2 ^ mapOrder) := by
      unfold Word.toU32 at *
      omega
    exact (mul_le_mul_right _ atMost).trans_lt room
  · exact (mul_lt_mul_of_pos_right inCount (Nat.two_pow_pos _)).trans_le below

section Sizes

variable {reg : Region} {env : AddEnv} {node : RegionNode}

variable {i : Nat}

section

variable (planned : reg.Planned env node)
include planned

section

variable (inCount : i < reg.mapsCount)
include inCount

theorem Region.Planned.mappingPhysSize_eq :
    reg.mappingPhysSize i = min (reg.physSize - i * 2 ^ reg.mapOrder) (2 ^ reg.mapOrder % 2 ^ 64) ∧
      i * 2 ^ reg.mapOrder < reg.physSize := by
  have offset := countMaps_offset_lt planned.word (planned.count ▸ inCount)
  have word := planned.word
  refine ⟨?_, offset⟩
  simp only [Region.mappingPhysSize, Region.mappingGphysOffset, if_neg (Nat.not_le.mpr inCount)]
  rw [mod_eq_of_lt (offset.trans word), Word.sub_of_le offset.le word, min_def]
  split_ifs <;> omega

theorem Region.Planned.dvd_mappingPhysSize (order : reg.alignOrder ≤ reg.mapOrder) :
    2 ^ reg.alignOrder ∣ reg.mappingPhysSize i := by
  have whole : 2 ^ reg.alignOrder ∣ 2 ^ reg.mapOrder := pow_dvd_pow 2 order
  have word : 2 ^ reg.alignOrder ∣ 2 ^ 64 := pow_dvd_pow 2 planned.small.le
  rw [(planned.mappingPhysSize_eq inCount).1, min_def]
  split_ifs
  · exact dvd_sub planned.aligned (Dvd.dvd.mul_left whole _)
  · exact (dvd_mod_iff word).mpr whole

theorem Region.Planned.mappingPhysSize_pos (order : reg.mapOrder < 64) :
    0 < reg.mappingPhysSize i := by
  obtain ⟨size, offset⟩ := planned.mappingPhysSize_eq inCount
  have fits : 2 ^ reg.mapOrder < 2 ^ 64 := Nat.pow_lt_pow_right (by omega) order
  rw [size, mod_eq_of_lt fits]
  exact Nat.lt_min.mpr ⟨by omega, Nat.two_pow_pos _⟩

theorem Region.Planned.mappingPhysSize_colored (order : reg.mapOrder = reg.alignOrder) :
    reg.mappingPhysSize i = 2 ^ reg.alignOrder % 2 ^ 64 := by
  obtain ⟨size, offset⟩ := planned.mappingPhysSize_eq inCount
  rw [order] at size offset
  have rest : 2 ^ reg.alignOrder ∣ reg.physSize - i * 2 ^ reg.alignOrder :=
    dvd_sub planned.aligned (dvd_mul_left _ _)
  have atLeast := le_of_dvd (by omega) rest
  rw [size]
  exact min_eq_right ((mod_le _ _).trans atLeast)

end

end

end Sizes

/-! ## Each claim -/

section Claims

variable {reg : Region} {env : AddEnv} {node : RegionNode} {firstColor numColors : Nat}
  {claim : HostRam → Nat → RegionMapping → Claim} {ram ram' : HostRam} {i pa : Nat}
  {map : RegionMapping}

theorem hostRamAllocColored_ne_zero {size order returned : Nat} {colorMatch : Nat → Nat → Bool}
    (allocated : hostRamAllocColored ram size order colorMatch = .allocated ram' pa returned) :
    0 < size ∧ pageShift ≤ order := by
  unfold hostRamAllocColored at allocated
  split_ifs at allocated
  omega

variable (isClaim : reg.claim env firstColor numColors = some claim)
include isClaim

theorem Region.claim_ownsMemory :
    reg.ownsMemory = true := by
  unfold Region.claim at isClaim
  split at isClaim
  · cases isClaim
  · next owns => simpa using owns

theorem Region.claim_reserved
    (reserved : reg.flags.any .isreserved = true) : claim = reg.reserve := by
  have owns := Region.claim_ownsMemory isClaim
  simpa [Region.claim, owns, reserved, eq_comm] using isClaim

theorem Region.Planned.claim_alloc (planned : reg.Planned env node)
    (notReserved : reg.flags.any .isreserved = false) (inCount : i < reg.mapsCount)
    (ram : HostRam) (map : RegionMapping) :
    claim ram i map = .failed ∨
      claim ram i map = claimOfAlloc (hostRamAllocColored ram (reg.mappingPhysSize i)
        reg.alignOrder (reg.request env firstColor numColors i).colorMatch) := by
  have owns := Region.claim_ownsMemory isClaim
  simp only [Region.claim, owns, notReserved, Bool.not_true, reduceCtorEq, reduceIte]
    at isClaim
  split at isClaim
  · next alloced =>
    cases isClaim
    right
    simp [Region.alloc, vmmHostRamAlloc, Region.request, alloced]
  · next notAlloced =>
    split at isClaim
    · next colored =>
      cases isClaim
      obtain ⟨align, order⟩ := planned.colored owns colored
      simp only [Region.colorAlloc, vmmHostRamColorAlloc]
      split
      · exact Or.inl rfl
      · right
        rw [planned.mappingPhysSize_colored inCount order, ← align]
        simp [Region.request, notAlloced]
    · cases isClaim

theorem Region.Planned.claim_got (planned : reg.Planned env node)
    (notReserved : reg.flags.any .isreserved = false) (inCount : i < reg.mapsCount)
    (got : claim ram i map = .got ram' pa) :
    ∃ returned, hostRamAllocColored ram (reg.mappingPhysSize i) reg.alignOrder
      (reg.request env firstColor numColors i).colorMatch = .allocated ram' pa returned := by
  rcases planned.claim_alloc isClaim notReserved inCount ram map with failed | alloc
  · rw [failed] at got
    cases got
  · rw [alloc] at got
    unfold claimOfAlloc at got
    split at got
    · next next address returned allocated =>
      cases got
      exact ⟨returned, allocated⟩
    · cases got
    · cases got

theorem Region.Planned.claim_repays (planned : reg.Planned env node)
    (valid : LayoutValid ram.layout)
    (inCount : i < reg.mapsCount) (got : claim ram i map = .got ram' pa)
    (fits : reg.Fits env firstColor numColors ram i map) :
    ∃ entry, Repays entry ram ram' pa (reg.mappingPhysSize i) := by
  have owns := Region.claim_ownsMemory isClaim
  cases reserved : reg.flags.any .isreserved with
  | true =>
    rw [Region.Fits, if_pos reserved] at fits
    rw [Region.claim_reserved isClaim reserved, Region.reserve] at got
    split at got
    · next next isReserved =>
      cases got
      have pos := planned.mappingPhysSize_pos inCount (planned.reserved owns reserved).1
      exact vmmHostRamReserve_repays valid pos fits isReserved
    · cases got
  | false =>
    rw [Region.Fits, reserved, if_neg Bool.false_ne_true] at fits
    obtain ⟨order, pages, contained⟩ := fits
    obtain ⟨returned, allocated⟩ := planned.claim_got isClaim reserved inCount got
    have pos := (hostRamAllocColored_ne_zero allocated).1
    have exact := roundup2OrderSize_of_dvd (planned.dvd_mappingPhysSize inCount order)
    exact hostRamAllocColored_repays valid pos exact pages contained allocated

section Bounded

variable (planned : reg.Planned env node)
  (notReserved : reg.flags.any .isreserved = false) (size : reg.physSize < 2 ^ 44)
  (inCount : i < reg.mapsCount)
include planned notReserved size inCount

omit isClaim notReserved in
theorem Region.Planned.rounded_bounds :
    reg.mappingPhysSize i ≤ roundup2OrderSize (reg.mappingPhysSize i) reg.alignOrder ∧
      roundup2OrderSize (reg.mappingPhysSize i) reg.alignOrder < 2 ^ 44 := by
  have below : reg.mappingPhysSize i ≤ reg.physSize := by
    rw [(planned.mappingPhysSize_eq inCount).1]
    exact (min_le_left _ _).trans (sub_le _ _)
  obtain ⟨up, down⟩ := roundup2OrderSize_bounds planned.aligned below planned.word
  exact ⟨up, by omega⟩

/-- A mapping that is smaller than its alignment gives fewer pages back than it takes. -/
theorem Region.Planned.sizeToPage_lt (small : reg.mapOrder < reg.alignOrder) :
    sizeToPage (reg.mappingPhysSize i) <
      sizeToPage (roundup2OrderSize (reg.mappingPhysSize i) reg.alignOrder) := by
  have owns := Region.claim_ownsMemory isClaim
  have page : pageShift ≤ reg.mapOrder := by
    cases alloced : reg.flags.any .isalloced with
    | true => exact (planned.alloced owns alloced).2
    | false =>
      cases colored : reg.flags.any .iscolored with
      | true =>
        have := (planned.colored owns colored).2
        omega
      | false => simp [Region.claim, owns, notReserved, alloced, colored] at isClaim
  have inWord : reg.mapOrder < 64 := small.trans planned.small
  have pos := planned.mappingPhysSize_pos inCount inWord
  have below : reg.mappingPhysSize i ≤ 2 ^ reg.mapOrder := by
    rw [(planned.mappingPhysSize_eq inCount).1]
    exact (min_le_right _ _).trans (mod_le _ _)
  have above : 2 ^ reg.alignOrder ≤ roundup2OrderSize (reg.mappingPhysSize i) reg.alignOrder := by
    refine le_of_dvd ?_ (roundup2OrderSize_dvd planned.small.le)
    exact pos.trans_le (planned.rounded_bounds size inCount).1
  have pages : ∀ order, pageShift ≤ order → sizeToPage (2 ^ order) = 2 ^ (order - pageShift) := by
    intro order low
    rw [sizeToPage_of_dvd (pow_dvd_pow 2 low), pageSize, Nat.pow_div low (by omega)]
  calc sizeToPage (reg.mappingPhysSize i)
      ≤ sizeToPage (2 ^ reg.mapOrder) := sizeToPage_mono below
    _ = 2 ^ (reg.mapOrder - pageShift) := pages _ page
    _ < 2 ^ (reg.alignOrder - pageShift) := Nat.pow_lt_pow_right (by omega) (by omega)
    _ = sizeToPage (2 ^ reg.alignOrder) := (pages _ (page.trans small.le)).symm
    _ ≤ _ := sizeToPage_mono above

theorem Region.Planned.claim_repaysPart (valid : LayoutValid ram.layout) (short : ram.Short)
    (top : ∀ bank ∈ ram.layout, bank.start + bank.size ≤ 2 ^ 63)
    (got : claim ram i map = .got ram' pa) :
    ∃ entry back, RepaysPart entry back ram ram' pa (reg.mappingPhysSize i) ∧
      (¬ reg.Fits env firstColor numColors ram i map → ∃ x ∈ entry.slots, x ∉ back) := by
  obtain ⟨returned, allocated⟩ := planned.claim_got isClaim notReserved inCount got
  obtain ⟨pos, page⟩ := hostRamAllocColored_ne_zero allocated
  obtain ⟨rounded, pages⟩ := planned.rounded_bounds size inCount
  obtain ⟨entry, back, repays, leaves⟩ :=
    hostRamAllocColored_repaysPart valid short top pos rounded pages allocated
  refine ⟨entry, back, repays, ?_⟩
  intro misfit
  rw [Region.Fits, notReserved, if_neg Bool.false_ne_true] at misfit
  apply leaves
  by_cases order : reg.alignOrder ≤ reg.mapOrder
  · right
    refine ⟨roundup2OrderSize_of_dvd (planned.dvd_mappingPhysSize inCount order), ?_⟩
    intro contained
    exact misfit ⟨order, by omega, contained⟩
  · left
    exact planned.sizeToPage_lt isClaim notReserved size inCount (Nat.lt_of_not_le order)

theorem Region.Planned.claim_ne_hangs (valid : LayoutValid ram.layout) :
    claim ram i map ≠ .hangs := by
  rcases planned.claim_alloc isClaim notReserved inCount ram map with failed | alloc
  · rw [failed]
    exact Claim.noConfusion
  · rw [alloc]
    intro hangs
    unfold claimOfAlloc at hangs
    split at hangs
    · cases hangs
    · cases hangs
    · next stuck =>
      obtain ⟨rounded, pages⟩ := planned.rounded_bounds size inCount
      exact hostRamAllocColored_ne_hangs valid rounded pages stuck

end Bounded

end Claims

end Xvisor.Guest
