import Xvisor.Lib.Word
import Xvisor.Mmu.Dense

/-!
# Walking the page tables of a guest

`mmu_get_guest_page` reads page tables that a guest wrote into its own memory.
For the tables of the G-stage an address is translated by the guest address space
alone, and the walk is a function of the table entries.
-/

namespace Xvisor.Mmu

open Lib Nat

/-- Why a call does not return: a panic of the host, or an alias loop without end. -/
inductive Stop where
  | panics
  | hangs
  deriving DecidableEq, Repr

inductive Code where
  | efail
  | efault
  | einvalid
  deriving DecidableEq, Repr

abbrev Call (σ α : Type) := Except Stop (σ × Except Code α)

structure GuestPageOps (σ : Type) where
  gpa2hpa : σ → Nat → Call σ Nat
  setfault : σ → Nat → Nat → Except Stop σ

namespace GuestPageOps

variable {σ : Type}

def fault (ops : GuestPageOps σ) (st : σ) (level guestIa : Nat) : Call σ Page :=
  (ops.setfault st level guestIa).map fun st => (st, .error .efault)

end GuestPageOps

/-- `mmu_get_guest_page`; `memory` gives the words of host memory that can be read. -/
def mmuGetGuestPage {σ : Type} (config : Config) (memory : Nat → Option Nat)
    (ops : GuestPageOps σ) (level : Nat) (st : σ) (pgtblGuestPa guestIa : Nat) : Call σ Page :=
  if config.start < level then .ok (st, .error .einvalid)
  else
    match ops.gpa2hpa st pgtblGuestPa with
    | .error stop => .error stop
    | .ok (st, .error .efault) => ops.fault st level guestIa
    | .ok (st, .error code) => .ok (st, .error code)
    | .ok (st, .ok ptePa) =>
      match memory (Word.add ptePa (config.levelIndex level guestIa * 8)) with
      | none => ops.fault st level guestIa
      | some pte =>
        if !pteValid pte then ops.fault st level guestIa
        else if pteIsTable pte then
          match level with
          | 0 => ops.fault st 0 guestIa
          | level + 1 => mmuGetGuestPage config memory ops level st (pteAddr pte) guestIa
        else .ok (st, .ok (pageAt level guestIa pte))

section Levels

variable {σ : Type} {config : Config} {memory : Nat → Option Nat} {ops : GuestPageOps σ}
  {guestIa root table₀ level table : Nat} {st₀ st : σ}

/-- The levels that a walk gets to, each with the state and the table it starts from. -/
inductive Visits (config : Config) (memory : Nat → Option Nat) (ops : GuestPageOps σ)
    (guestIa root : Nat) (st₀ : σ) (table₀ : Nat) : Nat → σ → Nat → Prop
  | start : Visits config memory ops guestIa root st₀ table₀ root st₀ table₀
  | next {low : Nat} {st st₁ : σ} {table pa pte : Nat}
      (before : Visits config memory ops guestIa root st₀ table₀ (low + 1) st table)
      (isLevel : low + 1 ≤ config.start) (translates : ops.gpa2hpa st table = .ok (st₁, .ok pa))
      (isPte : memory (Word.add pa (config.levelIndex (low + 1) guestIa * 8)) = some pte)
      (valid : pteValid pte) (isTable : pteIsTable pte) :
      Visits config memory ops guestIa root st₀ table₀ low st₁ (pteAddr pte)

theorem Visits.resumes (visits : Visits config memory ops guestIa root st₀ table₀ level st table) :
    mmuGetGuestPage config memory ops root st₀ table₀ guestIa =
      mmuGetGuestPage config memory ops level st table guestIa := by
  induction visits with
  | start => rfl
  | next before isLevel translates isPte valid isTable ih =>
    rw [ih, mmuGetGuestPage, if_neg (Nat.not_lt.mpr isLevel), translates]
    simp only [isPte, valid, isTable, Bool.not_true, Bool.false_eq_true, if_false, if_true]

/-- How a walk can end at a level. -/
inductive EndsAt (config : Config) (ops : GuestPageOps σ) (guestIa level : Nat) (st : σ)
    (table : Nat) : Call σ Page → Prop
  | tooDeep (isDeep : config.start < level) :
      EndsAt config ops guestIa level st table (.ok (st, .error .einvalid))
  | stops {stop : Stop} (isLevel : level ≤ config.start)
      (isStop : ops.gpa2hpa st table = .error stop) :
      EndsAt config ops guestIa level st table (.error stop)
  | fails {st₁ : σ} {code : Code} (isLevel : level ≤ config.start) (notFault : code ≠ .efault)
      (isCode : ops.gpa2hpa st table = .ok (st₁, .error code)) :
      EndsAt config ops guestIa level st table (.ok (st₁, .error code))
  | faults {st₁ : σ} (isLevel : level ≤ config.start)
      (isFault : ops.gpa2hpa st table = .ok (st₁, .error .efault)) :
      EndsAt config ops guestIa level st table (ops.fault st₁ level guestIa)
  | notes {st₁ : σ} {pa : Nat} (isLevel : level ≤ config.start)
      (isPa : ops.gpa2hpa st table = .ok (st₁, .ok pa)) :
      EndsAt config ops guestIa level st table (ops.fault st₁ level guestIa)
  | leaf {st₁ : σ} {pa pte : Nat} (isLevel : level ≤ config.start)
      (isPa : ops.gpa2hpa st table = .ok (st₁, .ok pa)) :
      EndsAt config ops guestIa level st table (.ok (st₁, .ok (pageAt level guestIa pte)))

theorem mmuGetGuestPage_ends
    (visits : Visits config memory ops guestIa root st₀ table₀ level st table) :
    ∃ level st table, Visits config memory ops guestIa root st₀ table₀ level st table ∧
      EndsAt config ops guestIa level st table
        (mmuGetGuestPage config memory ops root st₀ table₀ guestIa) := by
  rw [visits.resumes]
  induction level using Nat.strongRecOn generalizing st table with
  | ind level ih =>
    unfold mmuGetGuestPage
    split
    · next isDeep => exact ⟨level, st, table, visits, .tooDeep isDeep⟩
    · next notDeep =>
      have isLevel := Nat.not_lt.mp notDeep
      split
      · next isStop => exact ⟨level, st, table, visits, .stops isLevel isStop⟩
      · next isFault => exact ⟨level, st, table, visits, .faults isLevel isFault⟩
      · next notFault isCode => exact ⟨level, st, table, visits, .fails isLevel notFault isCode⟩
      · next isPa =>
        split
        · exact ⟨level, st, table, visits, .notes isLevel isPa⟩
        · next pte isPte =>
          split
          · exact ⟨level, st, table, visits, .notes isLevel isPa⟩
          · next valid =>
            split
            · next isTable =>
              cases level with
              | zero => exact ⟨0, st, table, visits, .notes isLevel isPa⟩
              | succ low =>
                exact ih low (lt_succ_self low)
                  (visits.next isLevel isPa isPte (by simpa using valid) isTable)
            · exact ⟨level, st, table, visits, .leaf isLevel isPa⟩

theorem GuestPageOps.fault_ok {st' : σ} {result : Except Code Page}
    (faulted : ops.fault st level guestIa = .ok (st', result)) :
    ops.setfault st level guestIa = .ok st' ∧ result = .error .efault := by
  unfold GuestPageOps.fault at faulted
  cases noted : ops.setfault st level guestIa with
  | error stop =>
    rw [noted] at faulted
    cases faulted
  | ok st₁ =>
    rw [noted] at faulted
    cases faulted
    exact ⟨rfl, rfl⟩

theorem mmuGetGuestPage_page {st' : σ} {page : Page}
    (found : mmuGetGuestPage config memory ops root st₀ table₀ guestIa = .ok (st', .ok page)) :
    ∃ low ≤ config.start, page.sz = blockSize low ∧ page.ia = mapMask low guestIa := by
  obtain ⟨level, st, table, _, ends⟩ :=
    mmuGetGuestPage_ends (.start : Visits config memory ops guestIa root st₀ table₀ _ _ _)
  generalize mmuGetGuestPage config memory ops root st₀ table₀ guestIa = result at ends found
  cases ends with
  | tooDeep => cases found
  | stops => cases found
  | fails => cases found
  | faults isLevel isFault => cases (GuestPageOps.fault_ok found).2
  | notes isLevel isPa => cases (GuestPageOps.fault_ok found).2
  | leaf isLevel isPa =>
    cases found
    exact ⟨level, isLevel, rfl, rfl⟩

end Levels

/-! ## The walk as a function of the table entries -/

/-- The leaf that the tables have for an address, or the level at which there is none. -/
def walk (config : Config) (entry : Nat → Nat → Option Nat) (level table ia : Nat) :
    Except Nat Page :=
  match entry table (config.levelIndex level ia) with
  | none => .error level
  | some pte =>
    if !pteValid pte then .error level
    else if pteIsTable pte then
      match level with
      | 0 => .error 0
      | level + 1 => walk config entry level (pteAddr pte) ia
    else .ok (pageAt level ia pte)

section Walk

variable {config : Config} {entry : Nat → Nat → Option Nat} {level table ia : Nat} {page : Page}

/-- The tables lead to a page: by a leaf, or by a table of the level below. -/
inductive WalksTo (config : Config) (entry : Nat → Nat → Option Nat) (ia : Nat) (page : Page) :
    Nat → Nat → Prop
  | leaf {level table pte : Nat} (isEntry : entry table (config.levelIndex level ia) = some pte)
      (valid : pteValid pte) (isLeaf : pteIsTable pte = false)
      (isPage : page = pageAt level ia pte) : WalksTo config entry ia page level table
  | child {low table pte : Nat}
      (isEntry : entry table (config.levelIndex (low + 1) ia) = some pte) (valid : pteValid pte)
      (isTable : pteIsTable pte) (next : WalksTo config entry ia page low (pteAddr pte)) :
      WalksTo config entry ia page (low + 1) table

theorem WalksTo.walk (walks : WalksTo config entry ia page level table) :
    walk config entry level table ia = .ok page := by
  induction walks with
  | leaf isEntry valid isLeaf isPage =>
    rw [Mmu.walk, isEntry]
    simp only [valid, isLeaf, isPage]
    rfl
  | child isEntry valid isTable next ih =>
    rw [Mmu.walk, isEntry]
    simp only [valid, isTable]
    exact ih

theorem walk_walksTo (found : walk config entry level table ia = .ok page) :
    WalksTo config entry ia page level table := by
  induction level using Nat.strongRecOn generalizing table with
  | ind level ih =>
    unfold walk at found
    split at found
    · cases found
    · next pte isEntry =>
      split at found
      · cases found
      · next valid =>
        have valid : pteValid pte := by simpa using valid
        split at found
        · next isTable =>
          cases level with
          | zero => cases found
          | succ low =>
            exact .child isEntry valid isTable (ih low (lt_succ_self low) found)
        · next isLeaf =>
          cases found
          exact .leaf isEntry valid (Bool.eq_false_iff.mpr isLeaf) rfl

theorem WalksTo.block (walks : WalksTo config entry ia page level table) :
    ∃ low ≤ level, page.sz = blockSize low ∧ page.ia = mapMask low ia := by
  induction walks with
  | leaf _ _ _ isPage =>
    subst isPage
    exact ⟨_, le_refl _, rfl, rfl⟩
  | child _ _ _ _ ih =>
    obtain ⟨low, isLow, size, base⟩ := ih
    exact ⟨low, le_succ_of_le isLow, size, base⟩

theorem div_blockSize_of_le {low high a b : Nat} (le : low ≤ high)
    (same : a / blockSize low = b / blockSize low) : a / blockSize high = b / blockSize high := by
  obtain ⟨factor, isFactor⟩ := blockSize_dvd le
  rw [isFactor, ← Nat.div_div_eq_div_mul, same, Nat.div_div_eq_div_mul]

theorem walk_same_page {other : Nat} (found : walk config entry level table ia = .ok page)
    (same : other / page.sz = ia / page.sz) : walk config entry level table other = .ok page := by
  apply WalksTo.walk
  have walks := walk_walksTo found
  clear found
  induction walks with
  | leaf isEntry valid isLeaf isPage =>
    subst isPage
    rw [← Pgtbl.levelIndex_of_div_eq same] at isEntry
    refine .leaf isEntry valid isLeaf ?_
    simp only [pageAt, mapMask]
    rw [show other / blockSize _ = ia / blockSize _ from same]
  | child isEntry valid isTable next ih =>
    obtain ⟨low, isLow, size, _⟩ := next.block
    rw [size] at same
    rw [← Pgtbl.levelIndex_of_div_eq (div_blockSize_of_le (le_succ_of_le isLow) same)]
      at isEntry
    exact .child isEntry valid isTable ih

/-- Operations that translate the address of a table without a look at the state. -/
structure GuestPageOps.Reads {σ : Type} (ops : GuestPageOps σ) (memory : Nat → Option Nat)
    (host : Nat → Option Nat) (entry : Nat → Nat → Option Nat) : Prop where
  gpa2hpa : ∀ st table, ops.gpa2hpa st table =
    .ok (st, match host table with | some pa => .ok pa | none => .error .efault)
  entry : ∀ table index, entry table index =
    (host table).bind fun pa => memory (Word.add pa (index * 8))

theorem GuestPageOps.Reads.mmuGetGuestPage {σ : Type} {ops : GuestPageOps σ}
    {memory : Nat → Option Nat} {host : Nat → Option Nat}
    (reads : ops.Reads memory host entry) (isLevel : level ≤ config.start) (st : σ) :
    Mmu.mmuGetGuestPage config memory ops level st table ia =
      match walk config entry level table ia with
      | .ok page => .ok (st, .ok page)
      | .error low => ops.fault st low ia := by
  induction level using Nat.strongRecOn generalizing table with
  | ind level ih =>
    unfold Mmu.mmuGetGuestPage walk
    rw [if_neg (Nat.not_lt.mpr isLevel), reads.gpa2hpa, reads.entry]
    cases host table with
    | none => rfl
    | some pa =>
      dsimp only [Option.bind_some]
      cases memory (Word.add pa (config.levelIndex level ia * 8)) with
      | none => rfl
      | some pte =>
        dsimp only
        split_ifs
        · rfl
        · cases level with
          | zero => rfl
          | succ low =>
            exact ih low (lt_succ_self low) (le_of_succ_le isLevel)
        · rfl

end Walk

end Xvisor.Mmu
