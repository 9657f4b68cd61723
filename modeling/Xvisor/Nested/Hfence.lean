import Xvisor.Nested.Runs

/-!
# Fences of a guest hypervisor

A guest hypervisor asks for a flush of its G-stage translations with HFENCE.GVMA
or with an entry in the memory that it shares with the host.
-/

namespace Xvisor.Nested

open Function List Lib Word Mmu Guest Option Nat

variable {config : Config}

/-! ## The instruction -/

def currentVmid (hgatp : BitVec 64) : Nat := Bits.field hgatp.toNat 44 14

variable (s : NestedState config)

def cpuVcpuNestedHfenceGvma (gaddr vmid : Option Nat) : Option (NestedState config) :=
  if vmid.any (· ≠ currentVmid s.world.hgatp) then some s
  else
    let flushed :=
      match gaddr with
      | some gaddr => cpuVcpuNestedSwtlbFlush s.npriv gaddr 1
      | none => cpuVcpuNestedSwtlbFlush s.npriv 0 0
    flushed.map fun npriv => { s with npriv := npriv }

/-! ## Entries of the shared memory -/

/-- `SBI_NACL_SHMEM_HFENCE_TYPE_*`. -/
inductive HfenceType where
  | gvma
  | gvmaAll
  | gvmaVmid
  | gvmaVmidAll
  | vvma
  | vvmaAll
  | vvmaAsid
  | vvmaAsidAll
  | unknown
  deriving DecidableEq, Repr

def HfenceType.decode : Nat → HfenceType
  | 0 => .gvma
  | 1 => .gvmaAll
  | 2 => .gvmaVmid
  | 3 => .gvmaVmidAll
  | 4 => .vvma
  | 5 => .vvmaAll
  | 6 => .vvmaAsid
  | 7 => .vvmaAsidAll
  | _ => .unknown

structure HfenceEntry where
  ctrl : Nat
  pnum : Nat
  pcount : Nat

namespace HfenceEntry

variable (e : HfenceEntry)

def pending : Bool := Bits.field e.ctrl 63 1 = 1

def type : HfenceType := .decode (Bits.field e.ctrl 56 4)

def order : Nat := Bits.field e.ctrl 48 7 + 12

def vmid : Nat := Bits.field e.ctrl 16 14

def clearPending : HfenceEntry := { e with ctrl := e.ctrl % 2 ^ 63 }

/-- The arguments of the flush that the entry asks for. The fences of the VS-stage leave the
software TLB alone. -/
def flushArgs (current : Nat) : Option (Nat × Nat) :=
  match e.type with
  | .gvma => some (shl e.pnum e.order, shl e.pcount e.order)
  | .gvmaAll => some (0, 0)
  | .gvmaVmid =>
    if current = e.vmid then some (shl e.pnum e.order, shl e.pcount e.order) else none
  | .gvmaVmidAll => if current = e.vmid then some (0, 0) else none
  | _ => none

end HfenceEntry

variable (e : HfenceEntry)

/-- One round of the loop of `cpu_vcpu_nested_sync_hfence`. -/
def syncHfenceEntry : Option (NestedState config × HfenceEntry) :=
  if e.pending then
    match e.clearPending.flushArgs (currentVmid s.world.hgatp) with
    | none => some (s, e.clearPending)
    | some (gpa, size) => (cpuVcpuNestedSwtlbFlush s.npriv gpa size).map fun npriv =>
        ({ s with npriv := npriv }, e.clearPending)
  else some (s, e)

def syncHfenceEntries : List Nat → NestedState config → (Nat → HfenceEntry) →
    Option (NestedState config × (Nat → HfenceEntry))
  | [], s, shmem => some (s, shmem)
  | i :: rest, s, shmem =>
    match syncHfenceEntry s (shmem i) with
    | none => none
    | some (s, e) => syncHfenceEntries rest s (update shmem i e)

def hfenceEntryMax : Nat := 60

/-- The entries that a call looks at; `-1UL` stands for all of them. -/
def hfenceIndices (entryNum : Nat) : List Nat :=
  if entryNum = 2 ^ 64 - 1 then List.range hfenceEntryMax else [entryNum]

inductive HfenceCode where
  | einvalid
  | enosys
  deriving DecidableEq, Repr

def cpuVcpuNestedSyncHfence (shmem : Option (Nat → HfenceEntry)) (entryNum : Nat) :
    Option (NestedState config × Option (Nat → HfenceEntry) × Except HfenceCode Unit) :=
  if entryNum ≠ 2 ^ 64 - 1 ∧ hfenceEntryMax ≤ entryNum then some (s, shmem, .error .einvalid)
  else
    match shmem with
    | none => some (s, shmem, .error .enosys)
    | some table => (syncHfenceEntries (hfenceIndices entryNum) s table).map
        fun (s, table) => (s, some table, .ok ())

/-! ## What a fence asks for -/

inductive HfenceCall where
  | gvma (gaddr vmid : Option Nat)
  | sync (shmem : Option (Nat → HfenceEntry)) (entryNum : Nat)

def HfenceCall.run : HfenceCall → Option (NestedState config)
  | .gvma gaddr vmid => cpuVcpuNestedHfenceGvma s gaddr vmid
  | .sync shmem entryNum => (cpuVcpuNestedSyncHfence s shmem entryNum).map fun result => result.1

namespace HfenceEntry

def InPages (addr : Nat) : Prop :=
  e.pnum * 2 ^ e.order ≤ addr ∧ addr < (e.pnum + e.pcount) * 2 ^ e.order

def Requests (current addr : Nat) : Prop :=
  match e.type with
  | .gvma => e.InPages addr
  | .gvmaAll => True
  | .gvmaVmid => current = e.vmid ∧ e.InPages addr
  | .gvmaVmidAll => current = e.vmid
  | _ => False

/-- The pages of an entry are some, and end within 64-bit addresses. -/
def InRange : Prop :=
  e.type = .gvma ∨ e.type = .gvmaVmid →
    e.order < 64 ∧ 0 < e.pcount ∧ (e.pnum + e.pcount) * 2 ^ e.order ≤ 2 ^ 64

end HfenceEntry

/-- The addresses that a fence names. A fence for another VMID names none: a change of the VMID
has emptied the software TLB. -/
def HfenceCall.Requests (hgatp : BitVec 64) (call : HfenceCall) (addr : Nat) : Prop :=
  match call with
  | .gvma gaddr vmid =>
    (∀ v, vmid = some v → v = currentVmid hgatp) ∧ ∀ g, gaddr = some g → addr = g
  | .sync shmem entryNum =>
    ¬ (entryNum ≠ 2 ^ 64 - 1 ∧ hfenceEntryMax ≤ entryNum) ∧ ∃ table, shmem = some table ∧
      ∃ i ∈ hfenceIndices entryNum, (table i).pending ∧ (table i).Requests (currentVmid hgatp) addr

def HfenceCall.InRange : HfenceCall → Prop
  | .gvma gaddr _ => ∀ g, gaddr = some g → g < 2 ^ 64
  | .sync shmem entryNum => ∀ table, shmem = some table →
      ∀ i ∈ hfenceIndices entryNum, (table i).pending → (table i).InRange

def SwtlbEntry.Meets (e : SwtlbEntry) (requested : Nat → Prop) : Prop :=
  ∃ addr, requested addr ∧ e.page.ia ≤ addr ∧ addr < e.page.ia + e.page.sz

/-- A flush takes away the entries that meet the request and their leaves, and no others. -/
structure FlushesExactly (requested : Nat → Prop) (s s' : Npriv config) : Prop where
  gone : ∀ slot ∈ s'.swtlb.active, ¬ (s'.swtlb.entries slot).Meets requested
  unmapped : ∀ slot ∈ s.swtlb.active, (s.swtlb.entries slot).Meets requested →
    ∀ ia, (s.swtlb.entries slot).Holds config ia → s'.pgtbl.getPage ia = none
  kept : ∀ slot ∈ s.swtlb.active, ¬ (s.swtlb.entries slot).Meets requested →
    slot ∈ s'.swtlb.active ∧ s'.swtlb.entries slot = s.swtlb.entries slot ∧
      ∀ ia, (s.swtlb.entries slot).Holds config ia → s'.pgtbl.getPage ia = s.pgtbl.getPage ia

/-! ## Ranges -/

theorem IsBlock.fits {page : Page} (isBlock : IsBlock page) :
    0 < page.sz ∧ page.ia + page.sz ≤ 2 ^ 64 := by
  obtain ⟨level, isLevel, addr, isAddr, size, base⟩ := isBlock
  rw [size, base]
  refine ⟨Mmu.blockSize_pos level, ?_⟩
  obtain ⟨blocks, isBlocks⟩ : blockSize level ∣ 2 ^ 64 := by
    apply pow_dvd_pow
    unfold Mmu.blockShift
    omega
  rw [isBlocks] at isAddr ⊢
  have last : addr / blockSize level + 1 ≤ blocks := Nat.div_lt_of_lt_mul isAddr
  calc mapMask level addr + blockSize level
      = blockSize level * (addr / blockSize level + 1) := by rw [mapMask]; ring
    _ ≤ blockSize level * blocks := mul_le_mul_left _ last

theorem flushBounds_range {first last : Nat} (nonempty : first < last) (inRange : last ≤ 2 ^ 64) :
    flushBounds first ((last - first) % 2 ^ 64) = (first, last - 1) := by
  unfold flushBounds sub add
  split_ifs with whole
  · refine Prod.ext ?_ ?_ <;> dsimp only <;> omega
  · refine Prod.ext rfl ?_
    dsimp only
    omega

theorem flushedBy_range_iff {e : SwtlbEntry} (isBlock : IsBlock e.page) {first last : Nat}
    (nonempty : first < last) (inRange : last ≤ 2 ^ 64) :
    e.flushedBy first ((last - first) % 2 ^ 64) ↔
      e.Meets fun addr => first ≤ addr ∧ addr < last := by
  obtain ⟨pos, fits⟩ := isBlock.fits
  have lastOfPage : sub (add e.page.ia e.page.sz) 1 = e.page.ia + e.page.sz - 1 := by
    unfold sub add
    omega
  unfold SwtlbEntry.flushedBy SwtlbEntry.Meets
  rw [flushBounds_range nonempty inRange, lastOfPage]
  constructor
  · intro overlaps
    exact ⟨max first e.page.ia, by omega⟩
  · rintro ⟨addr, requested, inPage⟩
    omega

theorem flushedBy_all {e : SwtlbEntry} (isBlock : IsBlock e.page) (requested : Nat → Prop)
    (all : ∀ addr, requested addr) : e.flushedBy 0 0 ↔ e.Meets requested := by
  obtain ⟨pos, fits⟩ := isBlock.fits
  have range := flushedBy_range_iff isBlock (Nat.two_pow_pos 64) (le_refl (2 ^ 64))
  rw [Nat.sub_zero, Nat.mod_self] at range
  rw [range]
  constructor
  · rintro ⟨addr, _, inPage⟩
    exact ⟨addr, all addr, inPage⟩
  · rintro ⟨addr, _, inPage⟩
    exact ⟨addr, by omega, inPage⟩

namespace HfenceEntry

variable {e : HfenceEntry}

theorem clearPending_fields (e : HfenceEntry) :
    e.clearPending.type = e.type ∧ e.clearPending.order = e.order ∧
      e.clearPending.vmid = e.vmid := by
  refine ⟨?_, ?_, ?_⟩
  · rw [type, clearPending, Bits.field_mod _ (by omega)]
    rfl
  · rw [order, clearPending, Bits.field_mod _ (by omega)]
    rfl
  · rw [vmid, clearPending, Bits.field_mod _ (by omega)]
    rfl

theorem clearPending_flushArgs (e : HfenceEntry) (current : Nat) :
    e.clearPending.flushArgs current = e.flushArgs current := by
  obtain ⟨type, order, vmid⟩ := e.clearPending_fields
  simp only [flushArgs, type, order, vmid]
  rfl

theorem flushedBy_pages (inRange : e.order < 64 ∧ 0 < e.pcount ∧
      (e.pnum + e.pcount) * 2 ^ e.order ≤ 2 ^ 64) {t : SwtlbEntry} (isBlock : IsBlock t.page) :
    t.flushedBy (shl e.pnum e.order) (shl e.pcount e.order) ↔ t.Meets e.InPages := by
  obtain ⟨small, some, within⟩ := inRange
  have pos := Nat.two_pow_pos e.order
  rw [add_mul] at within
  have nonempty : 0 < e.pcount * 2 ^ e.order := mul_pos some pos
  have range := flushedBy_range_iff isBlock (Nat.lt_add_of_pos_right nonempty) within
  rw [Nat.add_sub_cancel_left] at range
  have first : shl e.pnum e.order = e.pnum * 2 ^ e.order := by
    rw [shl, mod_eq_of_lt small, mod_eq_of_lt (by omega)]
  have size : shl e.pcount e.order = e.pcount * 2 ^ e.order % 2 ^ 64 := by
    rw [shl, mod_eq_of_lt small]
  rw [first, size, range]
  unfold InPages
  rw [add_mul]

theorem not_requests {current : Nat} (isNone : e.flushArgs current = none) (addr : Nat) :
    ¬ e.Requests current addr := by
  unfold flushArgs at isNone
  unfold Requests
  cases isType : e.type with
  | gvma | gvmaAll => simp [isType] at isNone
  | gvmaVmid | gvmaVmidAll =>
    simp only [isType, ite_eq_right_iff, reduceCtorEq, imp_false] at isNone
    simp [isNone]
  | _ => simp

theorem flushedBy_iff {current gpa size : Nat} (inRange : e.InRange)
    (isArgs : e.flushArgs current = some (gpa, size)) {t : SwtlbEntry} (isBlock : IsBlock t.page) :
    t.flushedBy gpa size ↔ t.Meets (e.Requests current) := by
  unfold InRange at inRange
  unfold flushArgs at isArgs
  unfold Requests
  cases isType : e.type with
  | gvma =>
    simp only [isType, some.injEq, Prod.mk.injEq] at isArgs
    obtain ⟨rfl, rfl⟩ := isArgs
    exact flushedBy_pages (inRange (.inl isType)) isBlock
  | gvmaAll =>
    simp only [isType, some.injEq, Prod.mk.injEq] at isArgs
    obtain ⟨rfl, rfl⟩ := isArgs
    exact flushedBy_all isBlock _ fun _ => trivial
  | gvmaVmid =>
    simp only [isType, ite_none_right_eq_some, some.injEq, Prod.mk.injEq] at isArgs
    obtain ⟨isCurrent, rfl, rfl⟩ := isArgs
    simp only [isCurrent, true_and]
    exact flushedBy_pages (inRange (.inr isType)) isBlock
  | gvmaVmidAll =>
    simp only [isType, ite_none_right_eq_some, some.injEq, Prod.mk.injEq] at isArgs
    obtain ⟨isCurrent, rfl, rfl⟩ := isArgs
    exact flushedBy_all isBlock _ fun _ => isCurrent
  | _ => simp [isType] at isArgs

end HfenceEntry

/-! ## Fences are exact -/

/-- The entries in use after a fence are those that do not meet its request. -/
structure Kept (requested : Nat → Prop) (s s' : Npriv config) : Prop where
  entries : s'.swtlb.entries = s.swtlb.entries
  active : ∀ slot, slot ∈ s'.swtlb.active ↔
    slot ∈ s.swtlb.active ∧ ¬ (s.swtlb.entries slot).Meets requested

section Kept

variable {s s' s'' : Npriv config} {requested other : Nat → Prop}

theorem Kept.congr (kept : Kept requested s s') (same : ∀ addr, requested addr ↔ other addr) :
    Kept other s s' := by
  have : requested = other := funext fun addr => propext (same addr)
  exact this ▸ kept

theorem Kept.nothing (none : ∀ addr, ¬ requested addr) : Kept requested s s := by
  refine ⟨rfl, fun slot => ⟨fun isActive => ⟨isActive, ?_⟩, fun ⟨isActive, _⟩ => isActive⟩⟩
  rintro ⟨addr, isRequested, _⟩
  exact none addr isRequested

theorem Kept.trans (first : Kept requested s s') (second : Kept other s' s'') :
    Kept (fun addr => requested addr ∨ other addr) s s'' where
  entries := second.entries.trans first.entries
  active := by
    intro slot
    rw [second.active, first.active, first.entries, and_assoc, ← not_or]
    simp only [SwtlbEntry.Meets, or_and_right, exists_or]

theorem Kept.flushesExactly (kept : Kept requested s s') (tidy : Tidy s) (tidy' : Tidy s') :
    FlushesExactly requested s s' where
  gone := by
    intro slot isActive
    rw [kept.entries]
    exact ((kept.active slot).mp isActive).2
  unmapped := by
    intro slot wasActive meets ia holds
    rw [tidy'.installed.refines.getPage, eq_none_iff_forall_ne_some]
    intro pg isLeaf
    obtain ⟨other, isActive, alsoHolds, _⟩ := (tidy'.installed.leaves ia pg).mp isLeaf
    rw [kept.entries] at alsoHolds
    obtain ⟨alsoActive, notMeets⟩ := (kept.active other).mp isActive
    cases tidy.installed.disjoint slot wasActive other alsoActive ia holds alsoHolds
    exact notMeets meets
  kept := by
    intro slot wasActive notMeets
    have isActive := (kept.active slot).mpr ⟨wasActive, notMeets⟩
    refine ⟨isActive, congrFun kept.entries slot, ?_⟩
    intro ia holds
    rw [tidy'.installed.refines.getPage, tidy.installed.refines.getPage,
      (tidy.installed.leaves ia _).mpr ⟨slot, wasActive, holds, rfl⟩,
      (tidy'.installed.leaves ia _).mpr ⟨slot, isActive, kept.entries ▸ holds, rfl⟩, kept.entries]

theorem Tidy.flush_kept (tidy : Tidy s) {gpa size : Nat}
    (exact : ∀ {e : SwtlbEntry}, IsBlock e.page → (e.flushedBy gpa size ↔ e.Meets requested)) :
    ∃ s', cpuVcpuNestedSwtlbFlush s gpa size = some s' ∧ Tidy s' ∧ Kept requested s s' := by
  obtain ⟨s', flushed, tidy'⟩ := tidy.flush gpa size
  refine ⟨s', flushed, tidy', ?_, ?_⟩
  · rw [cpuVcpuNestedSwtlbFlush_some flushed]
  · intro slot
    rw [mem_active_flush flushed]
    exact and_congr_right fun isActive => not_congr (exact (tidy.pages slot isActive))

end Kept

section Calls

variable {s : NestedState config}

theorem cpuVcpuNestedHfenceGvma_kept (tidy : Tidy s.npriv) {gaddr vmid : Option Nat}
    (inRange : ∀ g, gaddr = some g → g < 2 ^ 64) :
    ∃ s', cpuVcpuNestedHfenceGvma s gaddr vmid = some s' ∧ Tidy s'.npriv ∧
      Kept ((HfenceCall.gvma gaddr vmid).Requests s.world.hgatp) s.npriv s'.npriv := by
  unfold cpuVcpuNestedHfenceGvma
  split_ifs with isOther
  · refine ⟨s, rfl, tidy, .nothing ?_⟩
    rintro addr ⟨isCurrent, _⟩
    cases vmid with
    | none => simp at isOther
    | some v => simp [isCurrent v rfl] at isOther
  · have isCurrent : ∀ v, vmid = some v → v = currentVmid s.world.hgatp := by
      rintro v rfl
      simpa using isOther
    cases gaddr with
    | none =>
      obtain ⟨npriv, flushed, tidy', kept⟩ := tidy.flush_kept
        (flushedBy_all · ((HfenceCall.gvma none vmid).Requests s.world.hgatp)
          fun _ => ⟨isCurrent, by rintro _ ⟨⟩⟩)
      exact ⟨_, by rw [flushed]; rfl, tidy', kept⟩
    | some g =>
      have isWord := inRange g rfl
      obtain ⟨npriv, flushed, tidy', kept⟩ := tidy.flush_kept
        (flushedBy_range_iff · (lt_succ_self g) isWord)
      rw [Nat.succ_sub (le_refl g), Nat.sub_self] at flushed
      have flushed : cpuVcpuNestedSwtlbFlush s.npriv g 1 = some npriv := flushed
      refine ⟨{ s with npriv := npriv }, by simp only [flushed, map_some], tidy',
        kept.congr ?_⟩
      intro addr
      constructor
      · rintro ⟨low, high⟩
        refine ⟨isCurrent, ?_⟩
        rintro _ ⟨⟩
        omega
      · rintro ⟨_, isAddr⟩
        have := isAddr g rfl
        omega

theorem syncHfenceEntry_kept (tidy : Tidy s.npriv) {e : HfenceEntry}
    (inRange : e.pending → e.InRange) :
    ∃ s' e', syncHfenceEntry s e = some (s', e') ∧ s'.world = s.world ∧ Tidy s'.npriv ∧
      Kept (fun addr => e.pending ∧ e.Requests (currentVmid s.world.hgatp) addr) s.npriv
        s'.npriv := by
  unfold syncHfenceEntry
  split_ifs with isPending
  · have inRange := inRange isPending
    rw [e.clearPending_flushArgs]
    cases isArgs : e.flushArgs (currentVmid s.world.hgatp) with
    | none =>
      refine ⟨s, _, rfl, rfl, tidy, .nothing ?_⟩
      rintro addr ⟨_, requested⟩
      exact HfenceEntry.not_requests isArgs addr requested
    | some args =>
      obtain ⟨npriv, flushed, tidy', kept⟩ :=
        tidy.flush_kept (HfenceEntry.flushedBy_iff inRange isArgs)
      dsimp only
      rw [flushed]
      refine ⟨_, _, rfl, rfl, tidy', kept.congr ?_⟩
      simp [isPending]
  · refine ⟨s, e, rfl, rfl, tidy, .nothing ?_⟩
    rintro addr ⟨isPending', _⟩
    exact isPending isPending'

theorem syncHfenceEntries_kept (tidy : Tidy s.npriv) {indices : List Nat}
    {shmem : Nat → HfenceEntry} (nodup : indices.Nodup)
    (inRange : ∀ i ∈ indices, (shmem i).pending → (shmem i).InRange) :
    ∃ s' shmem', syncHfenceEntries indices s shmem = some (s', shmem') ∧ Tidy s'.npriv ∧
      Kept (fun addr => ∃ i ∈ indices, (shmem i).pending ∧
        (shmem i).Requests (currentVmid s.world.hgatp) addr) s.npriv s'.npriv := by
  induction indices generalizing s shmem with
  | nil => exact ⟨s, shmem, rfl, tidy, .nothing (by simp)⟩
  | cons i rest ih =>
    obtain ⟨isFirst, nodup⟩ := nodup_cons.mp nodup
    obtain ⟨s₁, e, first, sameWorld, tidy₁, kept₁⟩ :=
      syncHfenceEntry_kept tidy (inRange i mem_cons_self)
    have untouched : ∀ j ∈ rest, update shmem i e j = shmem j := by
      intro j isRest
      apply update_of_ne
      rintro rfl
      exact isFirst isRest
    have stillInRange : ∀ j ∈ rest, (update shmem i e j).pending →
        (update shmem i e j).InRange := by
      intro j isRest
      rw [untouched j isRest]
      exact inRange j (mem_cons_of_mem _ isRest)
    obtain ⟨s₂, shmem₂, later, tidy₂, kept₂⟩ := ih tidy₁ nodup stillInRange
    refine ⟨s₂, shmem₂, ?_, tidy₂, (kept₁.trans kept₂).congr ?_⟩
    · rw [syncHfenceEntries, first]
      exact later
    · intro addr
      rw [sameWorld, exists_mem_cons_iff]
      refine or_congr_right (exists_congr fun j => and_congr_right fun isRest => ?_)
      rw [untouched j isRest]

theorem hfenceIndices_nodup (entryNum : Nat) : (hfenceIndices entryNum).Nodup := by
  unfold hfenceIndices
  split_ifs
  · exact nodup_range
  · exact nodup_singleton entryNum

theorem HfenceCall.run_kept (tidy : Tidy s.npriv) {call : HfenceCall} (inRange : call.InRange) :
    ∃ s', call.run s = some s' ∧ Tidy s'.npriv ∧
      Kept (call.Requests s.world.hgatp) s.npriv s'.npriv := by
  cases call with
  | gvma gaddr vmid => exact cpuVcpuNestedHfenceGvma_kept tidy inRange
  | sync shmem entryNum =>
    unfold HfenceCall.run cpuVcpuNestedSyncHfence
    dsimp only
    split_ifs with noEntry
    · refine ⟨s, rfl, tidy, .nothing ?_⟩
      rintro addr ⟨isEntry, _⟩
      exact isEntry noEntry
    · cases shmem with
      | none =>
        refine ⟨s, rfl, tidy, .nothing ?_⟩
        rintro addr ⟨_, table, isTable, _⟩
        cases isTable
      | some table =>
        obtain ⟨s', table', synced, tidy', kept⟩ := syncHfenceEntries_kept tidy
          (hfenceIndices_nodup entryNum) (inRange table rfl)
        refine ⟨s', by simp only [synced, map_some], tidy', kept.congr ?_⟩
        intro addr
        refine ⟨fun requested => ⟨noEntry, table, rfl, requested⟩, ?_⟩
        rintro ⟨_, _, ⟨⟩, requested⟩
        exact requested

end Calls

/-- In every run, a fence whose pages are some and end within 64-bit addresses takes away exactly
the entries whose guest page it names, together with their leaves. -/
theorem hfence_flushesExactly {aspace : Aspace} {fuel : Nat} {s : NestedState config}
    (reached : ((nestedSystem config aspace fuel).restrict fun _ call => call.IsWord).Reachable
      (.running s)) {call : HfenceCall} (inRange : call.InRange) :
    ∃ s', call.run s = some s' ∧
      FlushesExactly (call.Requests s.world.hgatp) s.npriv s'.npriv := by
  have tidy := nestedRun_tidy reached s rfl
  obtain ⟨s', ran, tidy', kept⟩ := HfenceCall.run_kept tidy inRange
  exact ⟨s', ran, kept.flushesExactly tidy tidy'⟩

/-! ## Fences out of range -/

/-- The guest hypervisor after a load from the page at 0x1000, which its tables map alone. -/
def onePageState : NestedState Mmu.sv39x4 :=
  ⟨firstNpriv { oneLeafWorld 0 with memory := threeLevelMemory } (sload false) .load,
    { oneLeafWorld 0 with memory := threeLevelMemory }⟩

theorem onePageState_reached :
    ((nestedSystem Mmu.sv39x4 (oneLeafWorld 0).aspace 0).restrict
      fun _ call => call.IsWord).Reachable (.running onePageState) := by
  have start : ((nestedSystem Mmu.sv39x4 (oneLeafWorld 0).aspace 0).restrict
      fun _ call => call.IsWord).Reachable (.running (resetMachine threeLevelMemory)) :=
    .start (resetMachine_init _)
  have active := start.step gstageOn ⟨trivial, resetMachine_gstageOn _⟩
  have isWord : (0x1000 : Nat) < 2 ^ 64 := by decide
  exact active.step (.translate smodeLoad 0x1000 .load) ⟨isWord, nestedStep_translate
    (firstNpriv_some (by decide +kernel))⟩

/-- The page at 0x1000 is fenced. -/
theorem hfence_flushesExactly_onePage :
    ∃ s', HfenceCall.run onePageState (.gvma (some 0x1000) none) = some s' ∧
      FlushesExactly ((HfenceCall.gvma (some 0x1000) none).Requests onePageState.world.hgatp)
        onePageState.npriv s'.npriv :=
  hfence_flushesExactly onePageState_reached (by rintro g ⟨⟩; decide)

def gvmaEntry (pnum pcount : Nat) : HfenceEntry := ⟨2 ^ 63, pnum, pcount⟩

def gvmaSync (pnum pcount : Nat) : HfenceCall := .sync (some fun _ => gvmaEntry pnum pcount) 0

theorem gvmaSync_requests (hgatp : BitVec 64) (pnum pcount addr : Nat) :
    (gvmaSync pnum pcount).Requests hgatp addr ↔
      pnum * 2 ^ 12 ≤ addr ∧ addr < (pnum + pcount) * 2 ^ 12 := by
  have isType : (gvmaEntry pnum pcount).type = .gvma := by
    simp [gvmaEntry, HfenceEntry.type, Bits.field, HfenceType.decode]
  have isOrder : (gvmaEntry pnum pcount).order = 12 := by
    simp [gvmaEntry, HfenceEntry.order, Bits.field]
  have isPending : (gvmaEntry pnum pcount).pending := by
    simp [gvmaEntry, HfenceEntry.pending, Bits.field]
  have entry : (gvmaEntry pnum pcount).Requests (currentVmid hgatp) addr ↔
      pnum * 2 ^ 12 ≤ addr ∧ addr < (pnum + pcount) * 2 ^ 12 := by
    simp only [HfenceEntry.Requests, isType, HfenceEntry.InPages, isOrder]
    rfl
  constructor
  · rintro ⟨_, _, ⟨⟩, _, _, _, requested⟩
    exact entry.mp requested
  · intro inPages
    exact ⟨by decide, _, rfl, 0, mem_singleton_self 0, isPending, entry.mpr inPages⟩

theorem onePageState_page : (onePageState.npriv.swtlb.entries 1024).page.ia = 0x1000 ∧
    (onePageState.npriv.swtlb.entries 1024).page.sz = 0x1000 := by
  decide +kernel

def activeAfter (call : HfenceCall) (s : NestedState config) : Option (List Nat) :=
  (call.run s).map fun s => s.npriv.swtlb.active

/-- The entries for 2^52 pages from page 1 on give an empty range, and the page at 0x1000 stays.
The entry for no pages at address 0 empties the software TLB. -/
theorem hfence_inexact :
    ((nestedSystem Mmu.sv39x4 (oneLeafWorld 0).aspace 0).restrict
      fun _ call => call.IsWord).Reachable (.running onePageState) ∧
    (onePageState.npriv.swtlb.active = [1024] ∧
      activeAfter (gvmaSync 1 (2 ^ 52)) onePageState = some [1024] ∧
      (onePageState.npriv.swtlb.entries 1024).Meets
        ((gvmaSync 1 (2 ^ 52)).Requests onePageState.world.hgatp)) ∧
    (activeAfter (gvmaSync 0 0) onePageState = some [] ∧
      ¬ (onePageState.npriv.swtlb.entries 1024).Meets
        ((gvmaSync 0 0).Requests onePageState.world.hgatp)) := by
  refine ⟨onePageState_reached, ⟨by decide +kernel, by decide +kernel, ?_⟩, by decide +kernel, ?_⟩
  · refine ⟨0x1000, (gvmaSync_requests _ _ _ _).mpr (by decide), ?_⟩
    rw [onePageState_page.1, onePageState_page.2]
    decide
  · rintro ⟨addr, requested, _⟩
    rw [gvmaSync_requests] at requested
    omega

end Xvisor.Nested
