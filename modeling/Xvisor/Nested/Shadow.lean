import Xvisor.Nested.Current

/-!
# The shadow page table

The shadow page table holds the shadow pages of the entries in use and nothing
else. A page of an entry can be unmapped, and a page that overlaps none of them
can be mapped while the host has pages for tables.
-/

namespace Xvisor.Nested

open Function List Lib Mmu Nat

variable {config : Config}

def SwtlbEntry.Holds (config : Config) (e : SwtlbEntry) (ia : Nat) : Prop :=
  SameBlock (config.span config.start) e.shadowPage.sz ia e.shadowPage.ia

instance (e : SwtlbEntry) (ia : Nat) : Decidable (e.Holds config ia) :=
  inferInstanceAs (Decidable (SameBlock _ _ _ _))

/-- The leaves of the page table are the shadow pages of the given entries. -/
structure Installed (entries : Nat → SwtlbEntry) (slots : List Nat) (pgtbl : MmuState config) :
    Prop where
  refines : pgtbl.Refines
  aligned : ∀ slot ∈ slots, (entries slot).shadowPage.sz ∣ (entries slot).shadowPage.ia
  disjoint : ∀ a ∈ slots, ∀ b ∈ slots, ∀ ia, (entries a).Holds config ia →
    (entries b).Holds config ia → a = b
  leaves : ∀ ia pg, pgtbl.mapping ia = some pg ↔
    ∃ slot ∈ slots, (entries slot).Holds config ia ∧ pg = (entries slot).shadowPage.stored ia

section Installed

variable {entries : Nat → SwtlbEntry} {slots : List Nat} {pgtbl : MmuState config} {slot : Nat}

section

variable (installed : Installed entries slots pgtbl)
include installed

theorem Installed.perm {slots' : List Nat}
    (same : ∀ slot, slot ∈ slots' ↔ slot ∈ slots) : Installed entries slots' pgtbl where
  refines := installed.refines
  aligned := by
    intro slot mem
    exact installed.aligned slot ((same slot).mp mem)
  disjoint := by
    intro a isA b isB
    exact installed.disjoint a ((same a).mp isA) b ((same b).mp isB)
  leaves := by
    intro ia pg
    simp only [installed.leaves, same]

theorem Installed.unmapPage (inUse : slot ∈ slots) :
    (pgtbl.unmapPage (entries slot).shadowPage).2 = .ok ∧
      Installed entries (slots.filter (· ≠ slot))
        (pgtbl.unmapPage (entries slot).shadowPage).1 := by
  have found : pgtbl.mapping (entries slot).shadowPage.ia =
      some ((entries slot).shadowPage.stored (entries slot).shadowPage.ia) :=
    (installed.leaves _ _).mpr ⟨slot, inUse, rfl, rfl⟩
  have done : (pgtbl.unmapPage (entries slot).shadowPage).2 = .ok := by
    rw [← installed.refines.getPage] at found
    have ok := installed.refines.unmapPage_ok found
    simp only [MmuState.unmapPage] at ok ⊢
    -- The tree has the page as its entry holds it; address and size are the same.
    rw [@Pgtbl.unmapPage_congr config _ _ ((entries slot).shadowPage.stored _)
      (Nat.div_mul_cancel (installed.aligned slot inUse)).symm (by rfl)]
    exact ok
  have unmapped : ∀ ia, (pgtbl.unmapPage (entries slot).shadowPage).1.mapping ia =
      if (entries slot).Holds config ia then none else pgtbl.mapping ia := by
    intro ia
    simp only [MmuState.unmapPage] at done ⊢
    rw [if_pos done]
    rfl
  refine ⟨done, installed.refines.unmapPage, ?_, ?_, ?_⟩
  · intro other isOther
    exact installed.aligned other (mem_of_mem_filter isOther)
  · intro a isA b isB
    exact installed.disjoint a (mem_of_mem_filter isA) b (mem_of_mem_filter isB)
  · intro ia pg
    rw [unmapped]
    split_ifs with inside
    · refine iff_of_false id ?_
      rintro ⟨other, isOther, holds, -⟩
      obtain ⟨isOther, different⟩ := mem_filter.mp isOther
      exact of_decide_eq_true different (installed.disjoint _ isOther _ inUse _ holds inside)
    · rw [installed.leaves]
      refine exists_congr fun other => ?_
      rw [mem_filter, and_assoc]
      refine and_congr_right fun _ => (and_iff_right_of_imp ?_).symm
      rintro ⟨holds, -⟩
      exact decide_eq_true fun same => inside (same ▸ holds)

theorem Installed.mapPage {pgtbl' : MmuState config} {e : SwtlbEntry}
    (leaf : e.shadowPage.flags.leaf)
    (aligned : e.shadowPage.sz ∣ e.shadowPage.ia) (unused : slot ∉ slots)
    (mapped : pgtbl.mapPage e.shadowPage = (pgtbl', .ok)) :
    Installed (update entries slot e) (slot :: slots) pgtbl' := by
  have done : (pgtbl.mapPage e.shadowPage).2 = .ok := by rw [mapped]
  have isNew : pgtbl' = (pgtbl.mapPage e.shadowPage).1 := by rw [mapped]
  have apart : ∀ other ∈ slots, ∀ ia, e.Holds config ia → ¬ (entries other).Holds config ia := by
    intro other isOther ia isNew isOld
    have free := installed.refines.getPage_of_mapPage_ok done isNew
    rw [installed.refines.getPage, (installed.leaves ia _).mpr ⟨other, isOther, isOld, rfl⟩] at free
    cases free
  refine ⟨isNew ▸ installed.refines.mapPage leaf, ?_, ?_, ?_⟩
  · exact (forall_mem_cons_update unused (P := fun _ (e : SwtlbEntry) =>
      e.shadowPage.sz ∣ e.shadowPage.ia)).mpr ⟨aligned, installed.aligned⟩
  · refine (forall_mem_cons_update unused (P := fun a (e : SwtlbEntry) => ∀ b ∈ slot :: slots, ∀ ia,
      e.Holds config ia → (update entries slot _ b).Holds config ia → a = b)).mpr ⟨?_, ?_⟩
    · refine (forall_mem_cons_update unused (P := fun b (other : SwtlbEntry) => ∀ ia,
        e.Holds config ia → other.Holds config ia → slot = b)).mpr ⟨fun _ _ _ => rfl, ?_⟩
      intro b isB ia isNew isOld
      exact absurd isOld (apart b isB ia isNew)
    · intro a isA
      refine (forall_mem_cons_update unused (P := fun b (other : SwtlbEntry) => ∀ ia,
        (entries a).Holds config ia → other.Holds config ia → a = b)).mpr
        ⟨?_, installed.disjoint a isA⟩
      intro ia isOld isNew
      exact absurd isOld (apart a isA ia isNew)
  · intro ia pg
    have after : pgtbl'.mapping ia =
        if e.Holds config ia then some (e.shadowPage.stored ia) else pgtbl.mapping ia := by
      rw [isNew]
      simp only [MmuState.mapPage] at done ⊢
      rw [if_pos done]
      rfl
    rw [after, exists_mem_cons_update unused
      (P := fun _ (e : SwtlbEntry) => e.Holds config ia ∧ pg = e.shadowPage.stored ia)]
    split_ifs with inside
    · constructor
      · rintro ⟨⟩
        exact .inl ⟨inside, rfl⟩
      · rintro (⟨-, rfl⟩ | ⟨other, isOther, holds, -⟩)
        · rfl
        · exact absurd holds (apart other isOther ia inside)
    · rw [installed.leaves, or_iff_right fun new => inside new.1]

end

end Installed

/-- The page table is the shadow pages of the given entries, which do not overlap. -/
structure Shadowed {config : Config} (entries : Nat → SwtlbEntry) (slots : List Nat)
    (pgtbl : MmuState config) : Prop where
  refines : pgtbl.Refines
  dense : Pgtbl.Dense pgtbl.root
  placed : ∀ slot ∈ slots, Placed config (entries slot).shadowPage
  disjoint : ∀ a ∈ slots, ∀ b ∈ slots, ∀ gpa, (entries a).shadows gpa → (entries b).shadows gpa →
    a = b
  leaves : ∀ ia pg, pgtbl.mapping ia = some pg ↔ ∃ slot ∈ slots,
    (entries slot).shadows (ia % config.span config.start) ∧
      pg = (entries slot).shadowPage.stored ia

section Placed

variable {e : SwtlbEntry}

theorem span_lt (isStage2 : config.stage = .stage2) : config.span config.start < 2 ^ 64 := by
  have := config.start_le
  have small : blockSize config.start ≤ 2 ^ 48 := by
    apply Nat.pow_le_pow_right (by omega)
    unfold Mmu.blockShift
    omega
  simp only [Config.span, Config.entries, isStage2]
  simp only [ne_eq, reduceCtorEq, not_false_eq_true, and_self, if_true]
  omega

theorem Placed.size_pos (placed : Placed config e.shadowPage) : 0 < e.shadowPage.sz := by
  obtain ⟨level, _, size⟩ := placed.block
  rw [size]
  exact Mmu.blockSize_pos level

section

variable (isStage2 : config.stage = .stage2) (placed : Placed config e.shadowPage)
include isStage2 placed

theorem Placed.shadows_iff (gpa : Nat) :
    e.shadows gpa ↔ gpa / e.shadowPage.sz = e.shadowPage.ia / e.shadowPage.sz := by
  refine ⟨SwtlbEntry.shadows.same_block placed.aligned, ?_⟩
  intro same
  have top := span_lt isStage2
  have inside := placed.inside
  have pos := placed.size_pos
  obtain ⟨q, base⟩ := placed.aligned
  rw [base, Nat.mul_div_cancel_left _ pos, Nat.div_eq_iff pos] at same
  unfold SwtlbEntry.shadows
  rw [Word.add_of_lt (by omega)]
  have order : e.shadowPage.sz * q = q * e.shadowPage.sz := mul_comm _ _
  omega

theorem Placed.holds_iff (ia : Nat) :
    e.Holds config ia ↔ e.shadows (ia % config.span config.start) := by
  have pos := placed.size_pos
  have inside := placed.inside
  rw [placed.shadows_iff isStage2, SwtlbEntry.Holds, SameBlock,
    mod_eq_of_lt (by omega : e.shadowPage.ia < _)]

theorem Placed.holds_of_shadows {gpa : Nat} (shadows : e.shadows gpa) : e.Holds config gpa := by
  have inside := placed.inside
  have below : gpa < config.span config.start :=
    (shadows.2.trans_le (mod_le _ _)).trans_le inside
  rw [placed.holds_iff isStage2, mod_eq_of_lt below]
  exact shadows

end

end Placed

section Operations

variable {entries : Nat → SwtlbEntry} {slots : List Nat} {pgtbl : MmuState config} {slot : Nat}

theorem shadowed_iff (isStage2 : config.stage = .stage2) : Shadowed entries slots pgtbl ↔
    Installed entries slots pgtbl ∧ Pgtbl.Dense pgtbl.root ∧
      ∀ slot ∈ slots, Placed config (entries slot).shadowPage := by
  constructor
  · intro shadowed
    have holds := fun slot isSlot => (shadowed.placed slot isSlot).holds_iff isStage2
    refine ⟨⟨shadowed.refines, fun slot isSlot => (shadowed.placed slot isSlot).aligned, ?_, ?_⟩,
      shadowed.dense, shadowed.placed⟩
    · intro a isA b isB ia holdsA holdsB
      exact shadowed.disjoint a isA b isB _ ((holds a isA ia).mp holdsA)
        ((holds b isB ia).mp holdsB)
    · intro ia pg
      rw [shadowed.leaves]
      exact exists_congr fun slot => and_congr_right fun isSlot =>
        and_congr_left' (holds slot isSlot ia).symm
  · rintro ⟨installed, dense, placed⟩
    have holds := fun slot isSlot => (placed slot isSlot).holds_iff isStage2
    refine ⟨installed.refines, dense, placed, ?_, ?_⟩
    · intro a isA b isB gpa shadowsA shadowsB
      exact installed.disjoint a isA b isB gpa ((placed a isA).holds_of_shadows isStage2 shadowsA)
        ((placed b isB).holds_of_shadows isStage2 shadowsB)
    · intro ia pg
      rw [installed.leaves]
      exact exists_congr fun slot => and_congr_right fun isSlot =>
        and_congr_left' (holds slot isSlot ia)

theorem Shadowed.perm {slots' : List Nat} (shadowed : Shadowed entries slots pgtbl)
    (same : ∀ slot, slot ∈ slots' ↔ slot ∈ slots) : Shadowed entries slots' pgtbl where
  refines := shadowed.refines
  dense := shadowed.dense
  placed := by
    intro slot mem
    exact shadowed.placed slot ((same slot).mp mem)
  disjoint := by
    intro a isA b isB
    exact shadowed.disjoint a ((same a).mp isA) b ((same b).mp isB)
  leaves := by
    intro ia pg
    simp only [shadowed.leaves, same]

theorem Shadowed.unmapPage (isStage2 : config.stage = .stage2)
    (shadowed : Shadowed entries slots pgtbl) (mem : slot ∈ slots) :
    ∃ pgtbl', pgtbl.unmapPage (entries slot).shadowPage = (pgtbl', .ok) ∧
      Shadowed entries (slots.filter (· ≠ slot)) pgtbl' ∧ pgtbl.alloc.Returns pgtbl'.alloc := by
  obtain ⟨installed, isDense, placed⟩ := (shadowed_iff isStage2).mp shadowed
  obtain ⟨done, installed⟩ := installed.unmapPage mem
  have result : Pgtbl.unmapPage config pgtbl.root (entries slot).shadowPage pgtbl.alloc = _ := rfl
  obtain ⟨dense, returns, _⟩ := Pgtbl.unmapPage_dense (le_refl _) shadowed.refines.intact
    isDense result
  exact ⟨_, Prod.ext rfl done, (shadowed_iff isStage2).mpr ⟨installed, dense, fun other isOther =>
    placed other (mem_of_mem_filter isOther)⟩, returns⟩

theorem Shadowed.mapPage (isStage2 : config.stage = .stage2) (isStart : 2 ≤ config.start)
    (shadowed : Shadowed entries slots pgtbl) {e : SwtlbEntry} (placed : Placed config e.shadowPage)
    (unused : slot ∉ slots)
    (apart : ∀ other ∈ slots, ∀ gpa, e.shadows gpa → ¬ (entries other).shadows gpa)
    (supplied : pgtbl.alloc.Supplied config.start) :
    ∃ pgtbl', pgtbl.mapPage e.shadowPage = (pgtbl', .ok) ∧
      Shadowed (update entries slot e) (slot :: slots) pgtbl' ∧
      ∀ n, pgtbl.alloc.Supplied (config.start + n) → pgtbl'.alloc.Supplied n := by
  obtain ⟨level, isLevel, size⟩ := placed.block
  have unmapped : ∀ ia, ia / e.shadowPage.sz = e.shadowPage.ia / e.shadowPage.sz →
      Pgtbl.lookup config pgtbl.root ia = none := by
    intro ia same
    rw [shadowed.refines.lookup, Option.eq_none_iff_forall_ne_some]
    intro pg isLeaf
    obtain ⟨other, isOther, shadows, _⟩ := (shadowed.leaves ia pg).mp isLeaf
    refine apart other isOther _ ((placed.holds_iff isStage2 ia).mp ?_) shadows
    apply SameBlock.of_div_eq _ same
    rw [size]
    exact (Mmu.blockSize_dvd (isLevel.trans isStart)).trans (dvd_mul_right _ _)
  generalize result : Pgtbl.mapPage config pgtbl.root e.shadowPage pgtbl.alloc = mapped
  obtain ⟨root, alloc, rc⟩ := mapped
  have mapped : ∀ n, pgtbl.alloc.Supplied (config.start + n) →
      rc = .ok ∧ Pgtbl.Dense root ∧ 0 < root.pteCnt ∧ alloc.Supplied n := fun n supplied =>
    Pgtbl.mapPage_dense (le_refl _) isStage2 shadowed.refines.intact
      shadowed.dense placed.leaf ⟨level, isLevel.trans isStart, size⟩ unmapped supplied result
  obtain ⟨rfl, dense, _⟩ := mapped 0 supplied
  obtain ⟨installed, -, allPlaced⟩ := (shadowed_iff isStage2).mp shadowed
  obtain ⟨pgtbl', done, rfl, rfl⟩ : ∃ pgtbl', pgtbl.mapPage e.shadowPage = (pgtbl', .ok) ∧
      pgtbl'.root = root ∧ pgtbl'.alloc = alloc :=
    ⟨_, Prod.ext rfl (by simp only [MmuState.mapPage, result]),
      by simp only [MmuState.mapPage, result], by simp only [MmuState.mapPage, result]⟩
  refine ⟨pgtbl', done, (shadowed_iff isStage2).mpr ⟨installed.mapPage placed.leaf placed.aligned
    unused done, dense, ?_⟩, fun n supplied => (mapped n supplied).2.2.2⟩
  exact (forall_mem_cons_update unused (P := fun _ (e : SwtlbEntry) =>
    Placed config e.shadowPage)).mpr ⟨placed, allPlaced⟩

end Operations

end Xvisor.Nested
