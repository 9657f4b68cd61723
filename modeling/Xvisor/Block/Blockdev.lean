import Xvisor.Lib.Word

/-!
# Byte access to block devices

`vmm_blockdev_rw` cuts a byte range into a part of a first block, whole blocks
and a part of a last block. Partial blocks are read, changed and written back.
-/

namespace Xvisor.Block

open Lib Word Nat

inductive RequestType where
  | read
  | write
  deriving DecidableEq, Repr

/-- The blocks of a device are those of a disk from `startLba` on. -/
structure Blockdev where
  writable : Bool
  startLba : Nat
  numBlocks : Nat
  blockSize : Nat
  blockSize_pos : 0 < blockSize
  lba_lt : startLba + numBlocks < 2 ^ 64

namespace Blockdev

theorem sectorSize_pos : 0 < 512 := by decide

def size (dev : Blockdev) : Nat := dev.numBlocks * dev.blockSize

def base (dev : Blockdev) : Nat := dev.startLba * dev.blockSize

end Blockdev

/-- The bytes of a disk and the number of requests it was given. -/
structure Disk where
  bytes : Nat → UInt8
  requests : Nat

abbrev Buffer := Nat → UInt8

/-- `memcpy` of `n` bytes. -/
def patch (target : Nat → UInt8) (start n : Nat) (source : Nat → UInt8) (i : Nat) : UInt8 :=
  if start ≤ i ∧ i < start + n then source (i - start) else target i

variable (dev : Blockdev)

/-- The tests of `vmm_blockdev_submit_request`. -/
def submitOk (type : RequestType) (lba bcnt : Nat) : Bool :=
  !(type = .write && !dev.writable) && !(dev.numBlocks < bcnt) &&
    !(lba < dev.startLba || dev.startLba + dev.numBlocks ≤ lba) &&
    !(dev.startLba + dev.numBlocks < add lba bcnt)

variable (fails : Nat → Bool) (type : RequestType)

/-- `blockdev_rw_blocks` with the buffer from `pos` on. A request that the disk fails moves
nothing. -/
def rwBlocks (buf : Buffer) (pos lba bcnt : Nat) (disk : Disk) : Disk × Buffer × Bool :=
  let lba := add dev.startLba lba
  if !submitOk dev type lba bcnt then (disk, buf, false)
  else
    let start := lba * dev.blockSize
    let n := bcnt * dev.blockSize
    let count := disk.requests + 1
    if fails disk.requests then (⟨disk.bytes, count⟩, buf, false)
    else
      match type with
      | .read => (⟨disk.bytes, count⟩, patch buf pos n fun i => disk.bytes (start + i), true)
      | .write => (⟨patch disk.bytes start n fun i => buf (pos + i), count⟩, buf, true)

structure Transfer where
  disk : Disk
  buf : Buffer
  done : Nat
  failed : Bool

/-- The first and the last part: `n` bytes of a block, through the temporary buffer. -/
def rwPartial (tbuf : Buffer) (lba blockOff n : Nat) (t : Transfer) : Transfer :=
  if n = 0 then t
  else
    match rwBlocks dev fails .read tbuf 0 lba 1 t.disk with
    | (disk, _, false) => { t with disk := disk, failed := true }
    | (disk, tbuf, true) =>
      match type with
      | .read =>
        { t with
          disk := disk
          buf := patch t.buf t.done n fun i => tbuf (blockOff + i)
          done := t.done + n }
      | .write =>
        let tbuf := patch tbuf blockOff n fun i => t.buf (t.done + i)
        match rwBlocks dev fails .write tbuf 0 lba 1 disk with
        | (disk, _, false) => { t with disk := disk, failed := true }
        | (disk, _, true) => { t with disk := disk, done := t.done + n }

def rwMiddle (lba n : Nat) (t : Transfer) : Transfer :=
  if n = 0 then t
  else
    match rwBlocks dev fails type t.buf t.done lba (n / dev.blockSize) t.disk with
    | (disk, buf, false) => { t with disk := disk, buf := buf, failed := true }
    | (disk, buf, true) => { t with disk := disk, buf := buf, done := t.done + n }

structure Plan where
  firstLba : Nat
  firstOff : Nat
  firstLen : Nat
  middleLba : Nat
  middleLen : Nat
  lastLba : Nat
  lastLen : Nat
  deriving DecidableEq, Repr

/-- How a range is cut; the sums are 64-bit ones. -/
def plan (off len : Nat) : Plan :=
  let bs := dev.blockSize
  let firstLba := off / bs
  let firstOff := off - firstLba * bs
  let firstLen := if firstOff ≠ 0 then if bs - firstOff < len then bs - firstOff else len
    else if len < bs then len else 0
  let middleOff := add off firstLen
  let middleLen := (len - firstLen) / bs * bs
  let lastOff := add middleOff middleLen
  ⟨firstLba, firstOff, firstLen, middleOff / bs, middleLen, lastOff / bs,
    len - firstLen - middleLen⟩

/-- The test of a range against the size of the device, with 64-bit sums and products. -/
def inRange (off len : Nat) : Bool :=
  let size := mul dev.numBlocks dev.blockSize
  off < size && add off len ≤ size

def rwParts (tbuf : Buffer) (p : Plan) (t : Transfer) : Transfer :=
  let t := rwPartial dev fails type tbuf p.firstLba p.firstOff p.firstLen t
  if t.failed then t
  else
    let t := rwMiddle dev fails type p.middleLba p.middleLen t
    if t.failed then t
    else rwPartial dev fails type tbuf p.lastLba 0 p.lastLen t

/-- `vmm_blockdev_rw`; `heap` is the temporary buffer, if there is memory for it. -/
def blockdevRw (heap : Option Buffer) (type : RequestType)
    (disk : Disk) (buf : Buffer) (off len : Nat) : Transfer :=
  let t : Transfer := ⟨disk, buf, 0, false⟩
  if len = 0 then t
  else if type = .write && !dev.writable then t
  else if !inRange dev off len then t
  else
    let p := plan dev off len
    match heap with
    | none =>
      if p.firstLen ≠ 0 ∨ p.lastLen ≠ 0 then t
      else rwMiddle dev fails type p.middleLba p.middleLen t
    | some tbuf => rwParts dev fails type tbuf p t

def move (pos lo n : Nat) (contents : (Nat → UInt8) × Buffer) : (Nat → UInt8) × Buffer :=
  match type with
  | .read => (contents.1, patch contents.2 lo n fun i => contents.1 (pos + i))
  | .write => (patch contents.1 pos n fun i => contents.2 (lo + i), contents.2)

variable (target : Nat → UInt8)

theorem patch_zero (start : Nat) (source : Nat → UInt8) : patch target start 0 source = target := by
  funext i
  simp only [patch]
  rw [if_neg (by omega)]

theorem patch_append (start n m : Nat) (source : Nat → UInt8) :
    patch (patch target start n source) (start + n) m (fun i => source (n + i)) =
      patch target start (n + m) source := by
  funext i
  simp only [patch]
  split_ifs <;> first | rfl | omega | (congr 1; omega)

theorem move_zero (pos lo : Nat) (contents : (Nat → UInt8) × Buffer) :
    move type pos lo 0 contents = contents := by
  cases type <;> simp only [move, patch_zero]

theorem move_move (pos lo n m : Nat) (contents : (Nat → UInt8) × Buffer) :
    move type (pos + n) (lo + n) m (move type pos lo n contents) =
      move type pos lo (n + m) contents := by
  cases type with
  | read =>
    simp only [move]
    rw [← patch_append contents.2 lo n m]
    simp only [add_assoc]
  | write =>
    simp only [move]
    rw [← patch_append contents.1 pos n m]
    simp only [add_assoc]

theorem move_move_zero (pos n m : Nat) (contents : (Nat → UInt8) × Buffer) :
    move type (pos + n) n m (move type pos 0 n contents) = move type pos 0 (n + m) contents := by
  have joined := move_move type pos 0 n m contents
  rwa [zero_add] at joined

theorem patch_block (target tbuf source : Nat → UInt8) {start size blockOff n : Nat}
    (fits : blockOff + n ≤ size) :
    patch target start size (fun i =>
        patch (patch tbuf 0 size fun i => target (start + i)) blockOff n source (0 + i)) =
      patch target (start + blockOff) n source := by
  funext i
  simp only [patch]
  split_ifs <;> first | rfl | omega | (congr 1; omega)

theorem patch_congr (start n : Nat) {source source' : Nat → UInt8}
    (same : ∀ i < n, source i = source' i) :
    patch target start n source = patch target start n source' := by
  funext i
  simp only [patch]
  split_ifs
  · exact same _ (by omega)
  · rfl

namespace Transfer

def contents (t : Transfer) : (Nat → UInt8) × Buffer := (t.disk.bytes, t.buf)

structure Moved (fails : Nat → Bool) (type : RequestType) (pos n : Nat) (t t' : Transfer) :
    Prop where
  complete : t'.failed = false →
    t'.contents = move type pos t.done n t.contents ∧ t'.done = t.done + n
  stopped : t'.failed = true → t'.contents = t.contents ∧ t'.done = t.done
  served : (∀ k, fails k = false) → t'.failed = false

variable {t t' : Transfer}

theorem Moved.zero (running : t.failed = false) (fails : Nat → Bool) (type : RequestType)
    (pos : Nat) : Moved fails type pos 0 t t where
  complete _ := ⟨(move_zero ..).symm, rfl⟩
  stopped failed := by simp [running] at failed
  served _ := running

theorem Moved.of_fails {fails : Nat → Bool} {k : Nat} (failing : fails k = true)
    (type : RequestType) (pos n : Nat) (failed : t'.failed = true)
    (same : t'.contents = t.contents ∧ t'.done = t.done) : Moved fails type pos n t t' where
  complete running := by simp [failed] at running
  stopped _ := same
  served none := by simp [none] at failing

theorem Moved.of_running {type : RequestType} {pos n : Nat} (fails : Nat → Bool)
    (moved : t'.contents = move type pos t.done n t.contents) (count : t'.done = t.done + n)
    (running : t'.failed = false) : Moved fails type pos n t t' where
  complete _ := ⟨moved, count⟩
  stopped failed := by simp [running] at failed
  served _ := running

end Transfer

section Parts

variable {dev fails type} {lba bcnt n pos : Nat}

/-- The sum of the last test may wrap. -/
theorem submitOk_iff (lba_lt : lba < 2 ^ 64) (bcnt_lt : bcnt < 2 ^ 64) :
    submitOk dev type (add dev.startLba lba) bcnt = true ↔
      (type = .write → dev.writable = true) ∧ bcnt ≤ dev.numBlocks ∧ lba < dev.numBlocks ∧
        (lba + bcnt ≤ dev.numBlocks ∨ 2 ^ 64 ≤ dev.startLba + lba + bcnt) := by
  have bound := dev.lba_lt
  have allowed : (!(type = .write && !dev.writable)) = true ↔
      (type = .write → dev.writable = true) := by
    cases type <;> simp
  simp only [submitOk, Bool.and_eq_true, allowed, and_assoc, Bool.not_eq_true',
    Bool.or_eq_false_iff, decide_eq_false_iff_not]
  refine and_congr_right fun _ => ?_
  simp only [add]
  omega

variable (allowed : type = .write → dev.writable = true)
include allowed

theorem submitOk_of_le (positive : 0 < bcnt) (inside : lba + bcnt ≤ dev.numBlocks) :
    submitOk dev type (add dev.startLba lba) bcnt = true := by
  have bound := dev.lba_lt
  rw [submitOk_iff (by omega) (by omega)]
  exact ⟨allowed, by omega, by omega, .inl inside⟩

theorem rwBlocks_inside (positive : 0 < bcnt)
    (inside : lba + bcnt ≤ dev.numBlocks) (buf : Buffer) (pos : Nat) (disk : Disk) :
    rwBlocks dev fails type buf pos lba bcnt disk =
      let contents := move type ((dev.startLba + lba) * dev.blockSize) pos (bcnt * dev.blockSize)
        (disk.bytes, buf)
      if fails disk.requests then (⟨disk.bytes, disk.requests + 1⟩, buf, false)
      else (⟨contents.1, disk.requests + 1⟩, contents.2, true) := by
  have bound := dev.lba_lt
  simp only [rwBlocks, submitOk_of_le allowed positive inside]
  rw [add_of_lt (by omega)]
  cases type <;> simp [move]

variable {t : Transfer} (fails)

theorem rwPartial_moved (tbuf : Buffer) {blockOff : Nat} (running : t.failed = false)
    (inside : n ≠ 0 → lba < dev.numBlocks ∧ blockOff + n ≤ dev.blockSize ∧
      pos = (dev.startLba + lba) * dev.blockSize + blockOff) :
    Transfer.Moved fails type pos n t (rwPartial dev fails type tbuf lba blockOff n t) := by
  unfold rwPartial
  split
  next empty => rw [empty]; exact .zero running fails type pos
  next nonempty =>
    obtain ⟨block, fits, rfl⟩ := inside nonempty
    rw [rwBlocks_inside (by simp) one_pos block, one_mul]
    dsimp only
    by_cases firstFails : fails t.disk.requests = true
    · rw [if_pos firstFails]
      exact .of_fails firstFails type _ n rfl ⟨rfl, rfl⟩
    · rw [if_neg firstFails]
      cases type with
      | read =>
        refine .of_running fails (Prod.ext rfl ?_) rfl running
        simp only [move, Transfer.contents]
        -- The bytes taken from the temporary buffer are those of the block on the disk.
        refine patch_congr _ _ _ fun i small => ?_
        simp only [patch]
        rw [if_pos (by omega)]
        congr 1
        omega
      | write =>
        dsimp only
        rw [rwBlocks_inside allowed one_pos block, one_mul]
        dsimp only [move]
        by_cases secondFails : fails (t.disk.requests + 1) = true
        · rw [if_pos secondFails]
          exact .of_fails secondFails .write _ n rfl ⟨rfl, rfl⟩
        · rw [if_neg secondFails]
          exact .of_running fails (Prod.ext (patch_block _ _ _ fits) rfl) rfl running

theorem rwMiddle_moved (running : t.failed = false)
    (inside : n ≠ 0 → dev.blockSize ∣ n ∧ lba + n / dev.blockSize ≤ dev.numBlocks ∧
      pos = (dev.startLba + lba) * dev.blockSize) :
    Transfer.Moved fails type pos n t (rwMiddle dev fails type lba n t) := by
  unfold rwMiddle
  split
  next empty => rw [empty]; exact .zero running fails type pos
  next nonempty =>
    obtain ⟨whole, blocks, rfl⟩ := inside nonempty
    have positive : 0 < n / dev.blockSize :=
      div_pos (le_of_dvd (pos_of_ne_zero nonempty) whole) dev.blockSize_pos
    rw [rwBlocks_inside allowed positive blocks, Nat.div_mul_cancel whole]
    dsimp only
    by_cases requestFails : fails t.disk.requests = true
    · rw [if_pos requestFails]
      exact .of_fails requestFails type _ n rfl ⟨rfl, rfl⟩
    · rw [if_neg requestFails]
      exact .of_running fails rfl rfl running

structure Plan.Lies (dev : Blockdev) (p : Plan) (first middle last : Nat) : Prop where
  first : p.firstLen ≠ 0 → p.firstLba < dev.numBlocks ∧ p.firstOff + p.firstLen ≤ dev.blockSize ∧
    first = (dev.startLba + p.firstLba) * dev.blockSize + p.firstOff
  middle : p.middleLen ≠ 0 → dev.blockSize ∣ p.middleLen ∧
    p.middleLba + p.middleLen / dev.blockSize ≤ dev.numBlocks ∧
    middle = (dev.startLba + p.middleLba) * dev.blockSize
  last : p.lastLen ≠ 0 → p.lastLba < dev.numBlocks ∧ 0 + p.lastLen ≤ dev.blockSize ∧
    last = (dev.startLba + p.lastLba) * dev.blockSize + 0

theorem rwParts_moved
    (tbuf : Buffer) {p : Plan} {first middle last : Nat} (lies : p.Lies dev first middle last)
    (running : t.failed = false) (start : t.done = 0) :
    let t' := rwParts dev fails type tbuf p t
    let afterFirst := move type first 0 p.firstLen t.contents
    let afterMiddle := move type middle p.firstLen p.middleLen afterFirst
    (t'.failed = false →
      t'.contents = move type last (p.firstLen + p.middleLen) p.lastLen afterMiddle ∧
        t'.done = p.firstLen + p.middleLen + p.lastLen) ∧
    (t'.failed = true → t'.contents = t.contents ∧ t'.done = 0 ∨
      t'.contents = afterFirst ∧ t'.done = p.firstLen ∨
      t'.contents = afterMiddle ∧ t'.done = p.firstLen + p.middleLen) ∧
    ((∀ k, fails k = false) → t'.failed = false) := by
  unfold rwParts
  have firstMoved := rwPartial_moved fails allowed tbuf running lies.first
  generalize rwPartial dev fails type tbuf p.firstLba p.firstOff p.firstLen t = t₁
    at firstMoved ⊢
  dsimp only
  cases failed₁ : t₁.failed with
  | true =>
    rw [if_pos rfl]
    obtain ⟨same, count⟩ := firstMoved.stopped failed₁
    have served := firstMoved.served
    simp_all
  | false =>
    rw [if_neg Bool.false_ne_true]
    obtain ⟨contents₁, count₁⟩ := firstMoved.complete failed₁
    rw [start, zero_add] at count₁
    rw [start] at contents₁
    have middleMoved := rwMiddle_moved fails allowed failed₁ lies.middle
    generalize rwMiddle dev fails type p.middleLba p.middleLen t₁ = t₂ at middleMoved ⊢
    cases failed₂ : t₂.failed with
    | true =>
      rw [if_pos rfl]
      obtain ⟨same, count⟩ := middleMoved.stopped failed₂
      have served := middleMoved.served
      simp_all
    | false =>
      rw [if_neg Bool.false_ne_true]
      obtain ⟨contents₂, count₂⟩ := middleMoved.complete failed₂
      rw [count₁, contents₁] at contents₂
      rw [count₁] at count₂
      have lastMoved := rwPartial_moved fails allowed tbuf failed₂ lies.last
      rw [← contents₂, ← count₂]
      refine ⟨lastMoved.complete, fun failed => .inr (.inr ?_), lastMoved.served⟩
      exact lastMoved.stopped failed

theorem rwParts_adjoining (tbuf : Buffer) {p : Plan}
    (lies : p.Lies dev pos (pos + p.firstLen) (pos + (p.firstLen + p.middleLen)))
    (running : t.failed = false) (start : t.done = 0) :
    let t' := rwParts dev fails type tbuf p t
    t'.done ≤ p.firstLen + p.middleLen + p.lastLen ∧
      t'.contents = move type pos 0 t'.done t.contents ∧
      (t'.failed = false → t'.done = p.firstLen + p.middleLen + p.lastLen) := by
  have outcome := rwParts_moved fails allowed tbuf lies running start
  dsimp only at outcome ⊢
  rw [move_move_zero, move_move_zero] at outcome
  generalize rwParts dev fails type tbuf p t = t' at outcome ⊢
  obtain ⟨complete, stopped, -⟩ := outcome
  cases failed : t'.failed with
  | false =>
    obtain ⟨contents, count⟩ := complete failed
    rw [count]
    exact ⟨le_refl _, contents, fun _ => rfl⟩
  | true =>
    rcases stopped failed with ⟨contents, count⟩ | ⟨contents, count⟩ | ⟨contents, count⟩
    · rw [count, move_zero]
      exact ⟨zero_le _, contents, by simp⟩
    all_goals
      rw [count]
      exact ⟨by omega, contents, by simp⟩

end Parts

/-! ## Virtual disks

A virtual disk has blocks of its own size, a multiple of the block size of the device attached to
it, and hands its requests on in blocks of that device. -/

/-- A virtual disk with a device that passed the tests of `vdisk_attach_iter`. -/
structure Vdisk where
  blk : Blockdev
  blockSize : Nat
  blockSize_pos : 0 < blockSize
  multiple : blk.blockSize ∣ blockSize

namespace Vdisk

structure Request (vdisk : Vdisk) where
  type : RequestType
  lba : Nat
  dataLen : Nat
  lba_lt : lba < 2 ^ 64
  dataLen_lt : dataLen < 2 ^ 32
  whole : vdisk.blockSize ∣ dataLen

variable (vdisk : Vdisk) (r : vdisk.Request)

def blkFactor : Nat := vdisk.blockSize / vdisk.blk.blockSize

/-- The quotient by the factor is overwritten. -/
def capacity : Nat := vdisk.blk.numBlocks

/-- The first block and the number of blocks that an accepted request moves. -/
def submitRequest : Option (Nat × Nat) :=
  if r.dataLen < vdisk.blockSize then none
  else
    let lba := mul (add r.lba vdisk.blk.startLba) vdisk.blkFactor
    let bcnt := toU32 (r.dataLen / vdisk.blockSize * vdisk.blkFactor)
    if submitOk vdisk.blk r.type lba bcnt then some (lba, bcnt) else none

variable {vdisk}

def Request.count : Nat := r.dataLen / vdisk.blockSize

/-- The capacity is exact, and so are the bytes the request moves. -/
structure Exact : Prop where
  capacity : vdisk.capacity = vdisk.blk.size / vdisk.blockSize
  inside : r.lba + r.count ≤ vdisk.capacity → ∃ lba bcnt, vdisk.submitRequest r = some (lba, bcnt) ∧
      lba * vdisk.blk.blockSize = vdisk.blk.base + r.lba * vdisk.blockSize ∧
      bcnt * vdisk.blk.blockSize = r.dataLen
  beyond : vdisk.capacity < r.lba + r.count → vdisk.submitRequest r = none

theorem blkFactor_mul (vdisk : Vdisk) : vdisk.blkFactor * vdisk.blk.blockSize = vdisk.blockSize :=
  Nat.div_mul_cancel vdisk.multiple

theorem capacity_eq_iff (vdisk : Vdisk) :
    vdisk.capacity = vdisk.blk.size / vdisk.blockSize ↔
      vdisk.blkFactor = 1 ∨ vdisk.blk.numBlocks = 0 := by
  have positive : 0 < vdisk.blkFactor := by
    apply Nat.pos_of_mul_pos_right
    rw [blkFactor_mul]
    exact vdisk.blockSize_pos
  rw [← blkFactor_mul, Blockdev.size, Nat.mul_div_mul_right _ _ vdisk.blk.blockSize_pos, capacity,
    eq_comm, Nat.div_eq_self]
  omega

theorem submitRequest_eq (plain : vdisk.blkFactor = 1 ∨ vdisk.blk.numBlocks = 0) :
    vdisk.submitRequest r =
      if 1 ≤ r.count ∧ submitOk vdisk.blk r.type (add vdisk.blk.startLba r.lba) r.count then
        some (add vdisk.blk.startLba r.lba, r.count)
      else none := by
  have sum : mul (add r.lba vdisk.blk.startLba) 1 =
      add vdisk.blk.startLba r.lba := by
    simp [mul, add, add_comm]
  have count_lt : r.count < 2 ^ 32 := (div_le_self _ _).trans_lt r.dataLen_lt
  have short : r.dataLen < vdisk.blockSize ↔ ¬1 ≤ r.count := by
    rw [Request.count, le_div_iff_mul_le vdisk.blockSize_pos, one_mul, not_le]
  unfold submitRequest
  rcases plain with one | empty
  · dsimp only
    rw [one, sum, mul_one, ← Request.count, toU32_of_lt count_lt]
    simp only [short, ite_not, ite_and]
  · have refused (lba bcnt : Nat) : submitOk vdisk.blk r.type lba bcnt = false := by
      simp only [submitOk, empty, Bool.and_eq_false_iff, Bool.not_eq_false', Bool.or_eq_true,
        decide_eq_true_eq]
      omega
    simp [refused]

/-- The block sizes are the same, the device allows a request within its capacity, and the end of a
request beyond it does not wrap. -/
theorem exact_iff (vdisk : Vdisk) (r : vdisk.Request) :
    Exact r ↔ (vdisk.blkFactor = 1 ∨ vdisk.blk.numBlocks = 0) ∧
      (r.lba + r.count ≤ vdisk.blk.numBlocks →
        1 ≤ r.count ∧ (r.type = .write → vdisk.blk.writable = true)) ∧
      ¬((r.type = .write → vdisk.blk.writable = true) ∧ r.count ≤ vdisk.blk.numBlocks ∧
        r.lba < vdisk.blk.numBlocks ∧ vdisk.blk.numBlocks < r.lba + r.count ∧
        2 ^ 64 ≤ vdisk.blk.startLba + r.lba + r.count) := by
  have count_lt : r.count < 2 ^ 64 :=
    (div_le_self _ _).trans_lt (r.dataLen_lt.trans (by decide))
  have tests := @submitOk_iff vdisk.blk r.type _ _ r.lba_lt count_lt
  by_cases plain : vdisk.blkFactor = 1 ∨ vdisk.blk.numBlocks = 0
  · have capacity := (capacity_eq_iff vdisk).mpr plain
    have result := submitRequest_eq r plain
    split_ifs at result with passed
    · have inside : Exact r ↔ r.lba + r.count ≤ vdisk.blk.numBlocks := by
        refine ⟨fun exact => ?_, fun inside => ⟨capacity, fun _ => ⟨_, _, result, ?_, ?_⟩, ?_⟩⟩
        · by_contra beyond
          simp [exact.beyond (not_le.mp beyond)] at result
        all_goals have sameSize := blkFactor_mul vdisk
        all_goals rw [plain.resolve_right (by omega), one_mul] at sameSize
        · rw [add_of_lt (by have := vdisk.blk.lba_lt; omega), Blockdev.base, add_mul,
            sameSize]
        · rw [Request.count, sameSize, Nat.div_mul_cancel r.whole]
        · exact fun beyond => absurd inside (not_le.mpr beyond)
      rw [inside]
      grind
    · have beyond : Exact r ↔ vdisk.blk.numBlocks < r.lba + r.count := by
        refine ⟨fun exact => ?_, fun beyond => ⟨capacity, fun inside => ?_, fun _ => result⟩⟩
        · by_contra inside
          simpa [result] using exact.inside (not_lt.mp inside)
        · exact absurd inside (not_le.mpr beyond)
      rw [beyond]
      grind
  · simp only [plain, false_and, iff_false]
    exact fun exact => plain ((capacity_eq_iff vdisk).mp exact.capacity)

/-- With virtual blocks of two device blocks the capacity is twice too large, and the first block
is looked for at twice the start of the partition. -/
theorem exact_fails_two_blocks :
    ∃ (vdisk : Vdisk) (r : vdisk.Request), vdisk.blkFactor = 2 ∧ r.lba = 0 ∧ r.count = 1 ∧
      vdisk.submitRequest r = none ∧ ¬Exact r := by
  refine ⟨⟨⟨true, 8, 8, 512, by decide, by decide⟩, 1024, by decide, by decide⟩,
    ⟨.read, 0, 1024, by decide, by decide, by decide⟩, by decide, rfl, by decide, by decide, ?_⟩
  intro exact
  have capacity := exact.capacity
  revert capacity
  decide

end Vdisk

end Xvisor.Block
