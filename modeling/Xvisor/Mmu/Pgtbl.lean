import Xvisor.Lib.Lists
import Xvisor.Lib.Radix

/-!
# Page tables

The page table format of the 64-bit RISC-V MMU (`cpu_mmu.c`, `arch_mmu.h`) and the generic MMU
code (`generic_mmu.c`). An entry is the 64-bit word; its fields are read by division and written
as a sum of disjoint bits. A page table is its record together with the list of its children, and
a table entry refers to its child by the physical address of the child's memory.
-/

namespace Xvisor.Mmu

open Lib

inductive Stage where
  | stage1
  | stage2
  deriving DecidableEq, Repr

section Format

variable (level : Nat)

def blockShift : Nat := 12 + 9 * level

def blockSize : Nat := 2 ^ blockShift level

/-- `x & arch_mmu_level_map_mask(stage, level)`. -/
def mapMask (level x : Nat) : Nat := x / blockSize level * blockSize level

def validBlockSize (sz : Nat) : Bool := (List.range 5).any fun level => sz = blockSize level

theorem blockSize_pos : 0 < blockSize level := Nat.two_pow_pos _

theorem blockSize_succ : blockSize (level + 1) = blockSize level * 512 := by
  simp only [blockSize, blockShift]
  ring

theorem blockSize_dvd {low high : Nat} (le : low ≤ high) : blockSize low ∣ blockSize high := by
  apply Nat.pow_dvd_pow
  simp only [blockShift]
  omega

theorem blockSize_lt {low high : Nat} (lt : low < high) : blockSize low < blockSize high := by
  apply Nat.pow_lt_pow_right (by omega)
  simp only [blockShift]
  omega

theorem validBlockSize_iff {sz : Nat} : validBlockSize sz ↔ ∃ level ≤ 4, sz = blockSize level := by
  simp [validBlockSize, Nat.lt_succ_iff]

theorem exists_level_of_le {sz level : Nat} (valid : validBlockSize sz)
    (le : sz ≤ blockSize level) : ∃ low ≤ level, sz = blockSize low := by
  obtain ⟨low, _, rfl⟩ := validBlockSize_iff.mp valid
  refine ⟨low, ?_, rfl⟩
  by_contra higher
  have := blockSize_lt (Nat.lt_of_not_le higher)
  omega

/-! ## Page table entries -/

structure PgFlags where
  rsw : BitVec 2
  dirty : Bool
  accessed : Bool
  global : Bool
  user : Bool
  execute : Bool
  write : Bool
  read : Bool
  valid : Bool
  deriving DecidableEq

variable (pte : Nat)

def pteValid : Bool := pte % 2 = 1

/-- An entry without read, write and execute permission points to a table. -/
def pteIsTable : Bool := pte / 2 % 8 = 0

def pteAddr : Nat := pte / 2 ^ 10 % 2 ^ 44 * 2 ^ 12

def pteFlags : PgFlags where
  rsw := BitVec.ofNat 2 (pte / 2 ^ 8)
  dirty := pte / 2 ^ 7 % 2 = 1
  accessed := pte / 2 ^ 6 % 2 = 1
  global := pte / 2 ^ 5 % 2 = 1
  user := pte / 2 ^ 4 % 2 = 1
  execute := pte / 2 ^ 3 % 2 = 1
  write := pte / 2 ^ 2 % 2 = 1
  read := pte / 2 % 2 = 1
  valid := pte % 2 = 1

variable (flags : PgFlags)

/-- The low ten bits of an entry; the valid bit is set whatever the flags say. -/
def PgFlags.bits : Nat :=
  flags.rsw.toNat * 2 ^ 8 + flags.dirty.toNat * 2 ^ 7 + flags.accessed.toNat * 2 ^ 6 +
    flags.global.toNat * 2 ^ 5 + flags.user.toNat * 2 ^ 4 + flags.execute.toNat * 2 ^ 3 +
    flags.write.toNat * 2 ^ 2 + flags.read.toNat * 2 + 1

def pteSet (level pa : Nat) (flags : PgFlags) : Nat :=
  mapMask level pa / 2 ^ 12 * 2 ^ 10 % 2 ^ 64 + flags.bits

def pteSetTable (tblPa : Nat) : Nat := tblPa / 2 ^ 12 * 2 ^ 10 % 2 ^ 64 + 1

def PgFlags.leaf : Bool := flags.read || flags.write || flags.execute

theorem PgFlags.bits_lt : flags.bits < 2 ^ 10 := by
  have := flags.dirty.toNat_le
  have := flags.accessed.toNat_le
  have := flags.global.toNat_le
  have := flags.user.toNat_le
  have := flags.execute.toNat_le
  have := flags.write.toNat_le
  have := flags.read.toNat_le
  unfold PgFlags.bits
  omega

theorem pteFlags_add_bits (high : Nat) (flags : PgFlags) :
    pteFlags (high * 2 ^ 10 + flags.bits) = { flags with valid := true } := by
  have := flags.dirty.toNat_le
  have := flags.accessed.toNat_le
  have := flags.global.toNat_le
  have := flags.user.toNat_le
  have := flags.execute.toNat_le
  have := flags.write.toNat_le
  have := flags.read.toNat_le
  have field : ∀ (word : Nat) (flag : Bool), word = flag.toNat → decide (word = 1) = flag := by
    rintro word flag rfl
    cases flag <;> rfl
  have bits := PgFlags.bits.eq_def flags
  generalize flags.bits = low at bits
  unfold pteFlags
  congr 1
  · apply BitVec.eq_of_toNat_eq
    rw [BitVec.toNat_ofNat]
    omega
  all_goals apply field
  all_goals first | omega | simp only [Bool.toNat_true]; omega

theorem shifted_mod (frame : Nat) : frame * 2 ^ 10 % 2 ^ 64 = frame % 2 ^ 54 * 2 ^ 10 := by
  omega

section

variable (level pa : Nat) (flags : PgFlags)

theorem pteSet_eq :
    pteSet level pa flags = mapMask level pa / 2 ^ 12 % 2 ^ 54 * 2 ^ 10 + flags.bits := by
  rw [pteSet, shifted_mod]

@[simp] theorem pteValid_pteSet : pteValid (pteSet level pa flags) = true := by
  have fields := pteFlags_add_bits (mapMask level pa / 2 ^ 12 % 2 ^ 54) flags
  rw [← pteSet_eq] at fields
  exact congrArg PgFlags.valid fields

@[simp] theorem pteFlags_pteSet :
    pteFlags (pteSet level pa flags) = { flags with valid := true } := by
  rw [pteSet_eq]
  exact pteFlags_add_bits _ flags

theorem pteIsTable_pteSet : pteIsTable (pteSet level pa flags) = !flags.leaf := by
  have fields := pteFlags_add_bits (mapMask level pa / 2 ^ 12 % 2 ^ 54) flags
  rw [← pteSet_eq] at fields
  have read := congrArg PgFlags.read fields
  have write := congrArg PgFlags.write fields
  have execute := congrArg PgFlags.execute fields
  simp only [pteFlags] at read write execute
  rw [PgFlags.leaf, ← read, ← write, ← execute, pteIsTable, Bool.eq_iff_iff]
  simp
  omega

theorem mapMask_dvd : 2 ^ 12 ∣ mapMask level pa :=
  (blockSize_dvd (Nat.zero_le level)).trans (Nat.dvd_mul_left _ _)

@[simp] theorem pteAddr_pteSet : pteAddr (pteSet level pa flags) = mapMask level pa % 2 ^ 56 := by
  obtain ⟨frame, isFrame⟩ := mapMask_dvd level pa
  have low := flags.bits_lt
  rw [pteSet_eq, pteAddr, isFrame]
  omega

end

@[simp] theorem pteValid_pteSetTable (tblPa : Nat) : pteValid (pteSetTable tblPa) = true := by
  unfold pteValid pteSetTable
  apply decide_eq_true
  omega

@[simp] theorem pteIsTable_pteSetTable (tblPa : Nat) : pteIsTable (pteSetTable tblPa) = true := by
  unfold pteIsTable pteSetTable
  apply decide_eq_true
  omega

theorem pteAddr_pteSetTable {tblPa : Nat} (aligned : 2 ^ 12 ∣ tblPa) (small : tblPa < 2 ^ 56) :
    pteAddr (pteSetTable tblPa) = tblPa := by
  simp only [pteAddr, pteSetTable]
  omega

@[simp] theorem pteValid_zero : pteValid 0 = false := rfl

/-! ## Pages -/

structure Page where
  ia : Nat
  oa : Nat
  sz : Nat
  flags : PgFlags
  deriving DecidableEq

def pageAt (level ia pte : Nat) : Page :=
  ⟨mapMask level ia, pteAddr pte, blockSize level, pteFlags pte⟩

end Format

/-! ## Trees -/

inductive Rc where
  | ok
  | efail
  | einvalid
  deriving DecidableEq, Repr

/-- Stage and start level of a tree, and the static table pools of stage 1: eight initial
tables and `poolCount` more. -/
structure Config where
  stage : Stage
  start : Nat
  ipgtblBase : Nat
  pgtblBase : Nat
  poolCount : Nat
  start_le : start ≤ 4

theorem Config.threeLevels_le : 2 ≤ 4 := by decide

variable (config : Config)

/-- Entries of a table; stage 2 roots have two more index bits. -/
def Config.entries (level : Nat) : Nat :=
  if config.stage ≠ .stage1 ∧ level = config.start then 2048 else 512

def Config.levelIndex (level ia : Nat) : Nat :=
  ia / blockSize level % config.entries level

def Config.span (level : Nat) : Nat := blockSize level * config.entries level

/-! ## Allocation of tables -/

instance neZero_pages : NeZero (2 ^ 44) := ⟨by decide⟩

/-- Stage 1 tables come from a free list and are counted. Stage 2 tables come from the host page
allocator, whose coming answers (page numbers, or a failure) are in `supply`, and are registered by
address. -/
structure Alloc where
  poolFree : List Nat
  poolAllocCount : Nat
  nonpool : List Nat
  supply : List (Option (Fin (2 ^ 44)))

variable (alloc : Alloc)

def pgtblPoolAlloc : Option Nat × Alloc :=
  match alloc.poolFree with
  | [] => (none, alloc)
  | tblPa :: rest =>
    (some tblPa, { alloc with
      poolFree := rest, poolAllocCount := (alloc.poolAllocCount + 1) % 2 ^ 64 })

def pgtblPoolFree (tblPa : Nat) : Alloc :=
  { alloc with
    poolFree := alloc.poolFree ++ [tblPa],
    poolAllocCount := (alloc.poolAllocCount + (2 ^ 64 - 1)) % 2 ^ 64 }

/-- The offset computed for the first pool replaces the address when its index is out of
range. -/
def pgtblPoolFind (tblPa : Nat) : Option Nat :=
  let tblPa := tblPa / 4096 * 4096
  let inFirst := config.ipgtblBase ≤ tblPa ∧ tblPa ≤ config.ipgtblBase + 8 * 4096
  let first := (tblPa - config.ipgtblBase) / 4096
  if inFirst ∧ first < 8 then some (config.ipgtblBase + first * 4096)
  else
    let tblPa := if inFirst then tblPa - config.ipgtblBase else tblPa
    if config.pgtblBase ≤ tblPa ∧ tblPa ≤ config.pgtblBase + config.poolCount * 4096 then
      let second := (tblPa - config.pgtblBase) / 4096
      if second < config.poolCount then some (config.pgtblBase + second * 4096) else none
    else none

def pgtblNonpoolAlloc : Option Nat × Alloc :=
  match alloc.supply with
  | [] => (none, alloc)
  | none :: rest => (none, { alloc with supply := rest })
  | some page :: rest =>
    let tblPa : Nat := page * 4096
    if alloc.nonpool.any (· / 4096 = tblPa / 4096) then (none, { alloc with supply := rest })
    else (some tblPa, { alloc with supply := rest, nonpool := alloc.nonpool ++ [tblPa] })

def pgtblNonpoolFree (tblPa : Nat) : Alloc :=
  { alloc with nonpool := alloc.nonpool.filter (· / 4096 ≠ tblPa / 4096) }

def pgtblNonpoolFind (tblPa : Nat) : Option Nat :=
  alloc.nonpool.find? (· / 4096 = tblPa / 4096)

def pgtblAlloc : Option Nat × Alloc :=
  match config.stage with
  | .stage1 => pgtblPoolAlloc alloc
  | .stage2 => pgtblNonpoolAlloc alloc

def pgtblFind (tblPa : Nat) : Option Nat :=
  match config.stage with
  | .stage1 => pgtblPoolFind config tblPa
  | .stage2 => pgtblNonpoolFind alloc tblPa

def pgtblRelease (tblPa : Nat) : Alloc :=
  match config.stage with
  | .stage1 => pgtblPoolFree alloc tblPa
  | .stage2 => pgtblNonpoolFree alloc tblPa

/-! ## Tables -/

structure Table where
  tblPa : Nat
  mapIa : Nat
  pte : Nat → Nat
  pteCnt : Nat
  childCnt : Nat

def Pgtbl : Nat → Type
  | 0 => Table
  | level + 1 => Table × List (Pgtbl level)

namespace Pgtbl

def table : {level : Nat} → Pgtbl level → Table
  | 0, t => t
  | _ + 1, t => t.1

def tblPa {level : Nat} (t : Pgtbl level) : Nat := t.table.tblPa

def mapIa {level : Nat} (t : Pgtbl level) : Nat := t.table.mapIa

def pte {level : Nat} (t : Pgtbl level) (i : Nat) : Nat := t.table.pte i

def pteCnt {level : Nat} (t : Pgtbl level) : Nat := t.table.pteCnt

def childCnt {level : Nat} (t : Pgtbl level) : Nat := t.table.childCnt

def children {level : Nat} (t : Pgtbl (level + 1)) : List (Pgtbl level) := t.2

def update (f : Table → Table) : {level : Nat} → Pgtbl level → Pgtbl level
  | 0, t => f t
  | _ + 1, t => (f t.1, t.2)

def setChildren {level : Nat} (t : Pgtbl (level + 1)) (children : List (Pgtbl level)) :
    Pgtbl (level + 1) := (t.1, children)

def fresh (tblPa : Nat) : (level : Nat) → Pgtbl level
  | 0 => ⟨tblPa, 0, fun _ => 0, 0, 0⟩
  | _ + 1 => (⟨tblPa, 0, fun _ => 0, 0, 0⟩, [])

def setPte {level : Nat} (t : Pgtbl level) (i pte count : Nat) : Pgtbl level :=
  t.update fun table =>
    { table with pte := Function.update table.pte i pte, pteCnt := count }

/-! ## Children -/

section Children

variable (config : Config) {level : Nat}

section

variable (parent : Pgtbl (level + 1)) (child : Pgtbl level)

def addChild : Pgtbl (level + 1) :=
  (parent.update fun t => { t with childCnt := t.childCnt + 1 }).setChildren
    (child :: parent.children)

def removeChild : Pgtbl (level + 1) :=
  (parent.update fun t => { t with childCnt := t.childCnt - 1 }).setChildren
    (dropKey tblPa child.tblPa parent.children)

/-- Link a fresh table into an empty entry; an entry in use is refused. -/
def attach (mapIa : Nat) (child : Pgtbl level) : Option (Pgtbl (level + 1) × Pgtbl level) :=
  let index := config.levelIndex (level + 1) mapIa
  if pteValid (parent.pte index) then none
  else
    let child := child.update fun t => { t with mapIa := mapMask (level + 1) mapIa }
    let parent := parent.setPte index (pteSetTable child.tblPa) (parent.pteCnt + 1)
    some (parent.addChild child, child)

def deattach : Option (Pgtbl (level + 1)) :=
  let index := config.levelIndex (level + 1) child.mapIa
  if pteValid (parent.pte index) then
    let parent := parent.setPte index 0 (parent.pteCnt - 1)
    some (parent.removeChild child)
  else none

end

def entryChild (alloc : Alloc) (parent : Pgtbl (level + 1)) (pte : Nat) : Option (Pgtbl level) :=
  match pgtblFind config alloc (pteAddr pte) with
  | none => none
  | some found => findKey tblPa found parent.children

/-- `mmu_pgtbl_get_child` without creation. -/
def getChild (alloc : Alloc) (parent : Pgtbl (level + 1)) (mapIa : Nat) : Option (Pgtbl level) :=
  let pte := parent.pte (config.levelIndex (level + 1) mapIa)
  if pteValid pte ∧ pteIsTable pte then entryChild config alloc parent pte else none

/-- `mmu_pgtbl_get_child` with creation: an empty entry gets a new table. -/
def getOrCreateChild (alloc : Alloc) (parent : Pgtbl (level + 1)) (mapIa : Nat) :
    Pgtbl (level + 1) × Option (Pgtbl level) × Alloc :=
  if pteValid (parent.pte (config.levelIndex (level + 1) mapIa)) then
    (parent, getChild config alloc parent mapIa, alloc)
  else
    match pgtblAlloc config alloc with
    | (none, alloc) => (parent, none, alloc)
    | (some newPa, alloc) =>
      match attach config parent mapIa (fresh newPa level) with
      | some (parent, child) => (parent, some child, alloc)
      | none => (parent, none, pgtblRelease config alloc newPa)

def putChild (parent : Pgtbl (level + 1)) (child : Pgtbl level) : Pgtbl (level + 1) :=
  parent.setChildren (replaceKey tblPa child.tblPa child parent.children)

end Children

/-! ## Freeing -/

section Freeing

variable (config : Config)

/-- The loop of `mmu_pgtbl_free`: unlink and free the children one by one. -/
def freeChildren {level : Nat} (free : Pgtbl level → Alloc → Alloc × Rc) :
    List (Pgtbl level) → Table → Alloc → Alloc × Rc
  | [], t, alloc => (pgtblRelease config alloc t.tblPa, .ok)
  | child :: rest, t, alloc =>
    let index := config.levelIndex (level + 1) child.mapIa
    if pteValid (t.pte index) then
      match free child alloc with
      | (alloc, .ok) =>
        freeChildren free rest { t with pte := Function.update t.pte index 0 } alloc
      | (alloc, rc) => (alloc, rc)
    else (alloc, .efail)

/-- `mmu_pgtbl_free` of a table that is not attached any more. -/
def freeDetached : {level : Nat} → Pgtbl level → Alloc → Alloc × Rc
  | 0, t, alloc => (pgtblRelease config alloc (tblPa t), .ok)
  | _ + 1, t, alloc => freeChildren config freeDetached t.2 t.1 alloc

/-- `mmu_pgtbl_free` of a child: its memory is given back only if it could be unlinked. -/
def freeChild {level : Nat} (parent : Pgtbl (level + 1)) (child : Pgtbl level) (alloc : Alloc) :
    Pgtbl (level + 1) × Alloc :=
  match deattach config parent child with
  | some parent => (parent, (freeDetached config child alloc).1)
  | none => (parent.putChild child, alloc)

end Freeing

/-! ## Pages -/

section Pages

variable (config : Config)

def getPage (alloc : Alloc) : {level : Nat} → Pgtbl level → Nat → Option Page
  | 0, t, ia =>
    let pte := pte t (config.levelIndex 0 ia)
    if !pteValid pte then none
    else if pteIsTable pte then none
    else some (pageAt 0 ia pte)
  | level + 1, t, ia =>
    let pte := pte t (config.levelIndex (level + 1) ia)
    if !pteValid pte then none
    else if pteIsTable pte then
      match getChild config alloc t ia with
      | none => none
      | some child => getPage alloc child ia
    else some (pageAt (level + 1) ia pte)

/-- The last part of `mmu_map_page`: write the entry of the table that maps blocks of the
page's size. -/
def mapHere {level : Nat} (t : Pgtbl level) (pg : Page) : Pgtbl level × Rc :=
  let index := config.levelIndex level pg.ia
  if pteValid (t.pte index) then (t, .efail)
  else (t.setPte index (pteSet level pg.oa pg.flags) (t.pteCnt + 1), .ok)

def mapPage : {level : Nat} → Pgtbl level → Page → Alloc → Pgtbl level × Alloc × Rc
  | level, t, pg, alloc =>
    if !validBlockSize pg.sz then (t, alloc, .einvalid)
    else if blockSize level < pg.sz then (t, alloc, .efail)
    else if pg.sz < blockSize level then
      match level, t with
      | 0, t => (t, alloc, .efail)
      | _ + 1, t =>
        match getOrCreateChild config alloc t pg.ia with
        | (t, none, alloc) => (t, alloc, .efail)
        | (t, some child, alloc) =>
          let (child, alloc, rc) := mapPage child pg alloc
          (t.putChild child, alloc, rc)
    else
      let (t, rc) := mapHere config t pg
      (t, alloc, rc)

/-- The last part of `mmu_unmap_page`. -/
def unmapHere {level : Nat} (t : Pgtbl level) (pg : Page) : Pgtbl level × Rc :=
  let index := config.levelIndex level pg.ia
  if !pteValid (t.pte index) then (t, .efail)
  else if level = 0 ∧ pteIsTable (t.pte index) then (t, .efail)
  else (t.setPte index 0 (t.pteCnt - 1), .ok)

def emptied {level : Nat} (t : Pgtbl level) : Bool := t.pteCnt = 0 ∧ level < config.start

/-- `mmu_unmap_page`; the flag tells that `mmu_pgtbl_free` is called for the table itself,
which unlinks it from its parent. -/
def unmapPage : {level : Nat} → Pgtbl level → Page → Alloc → Pgtbl level × Bool × Alloc × Rc
  | level, t, pg, alloc =>
    if !validBlockSize pg.sz then (t, false, alloc, .efail)
    else if blockSize level < pg.sz then (t, false, alloc, .efail)
    else if pg.sz < blockSize level then
      match level, t with
      | 0, t => (t, false, alloc, .efail)
      | _ + 1, t =>
        match getChild config alloc t pg.ia with
        | none => (t, false, alloc, .efail)
        | some child =>
          let (child, freed, alloc, rc) := unmapPage child pg alloc
          let (t, alloc) :=
            if freed then freeChild config t child alloc else (t.putChild child, alloc)
          (t, emptied config t, alloc, rc)
    else
      match unmapHere config t pg with
      | (t, .ok) => (t, emptied config t, alloc, .ok)
      | (t, rc) => (t, false, alloc, rc)

end Pages

end Pgtbl

end Xvisor.Mmu
