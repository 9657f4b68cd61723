import Xvisor.Block.Blockdev

/-!
# Which ranges are transferred exactly

The range test and the offsets of the later parts are 64-bit sums. A transfer
is exact unless one of them wraps for a range that is then served.
-/

namespace Xvisor.Block

open Lib Word

variable (dev : Blockdev)

/-- What `vmm_blockdev_rw` is for: a range inside the device is moved up to the count returned, all
of it if no request fails; any other range is left alone. -/
def Exact (type : RequestType) (disk : Disk) (buf : Buffer) (off len : Nat) (t : Transfer) : Prop :=
  if off + len ≤ dev.size then
    t.done ≤ len ∧ t.contents = move type (dev.base + off) 0 t.done (disk.bytes, buf) ∧
      (t.failed = false → t.done = len)
  else t.done = 0 ∧ t.contents = (disk.bytes, buf)

/-- The device can be written and there is memory for parts of blocks, where these are needed. -/
def Permitted (heap : Option Buffer) (type : RequestType) (off len : Nat) : Prop :=
  (type = .write → dev.writable = true) ∧ (heap = none → dev.blockSize ∣ off ∧ dev.blockSize ∣ len)

variable (off len : Nat)

/-- The first block boundary in a range and the one before an incomplete last block have 64-bit
offsets. -/
def StartsBelow : Prop :=
  ∀ k, off ≤ k * dev.blockSize → k * dev.blockSize < off + len →
    k * dev.blockSize < off + dev.blockSize ∨ off + len < k * dev.blockSize + dev.blockSize →
    k * dev.blockSize < 2 ^ 64

def Refused (type : RequestType) (off len : Nat) : Prop :=
  dev.blockSize ∣ off ∧ dev.blockSize ≤ len ∧
    submitOk dev type (dev.startLba + off / dev.blockSize) (len / dev.blockSize) = false

structure Plan.Cuts (dev : Blockdev) (off len : Nat) (p : Plan) : Prop where
  fits : off % dev.blockSize + p.firstLen ≤ dev.blockSize
  firstLen_lt : p.firstLen < dev.blockSize
  boundary : p.firstLen < len → dev.blockSize ∣ off + p.firstLen
  whole : dev.blockSize ∣ p.middleLen
  total : p.firstLen + p.middleLen + p.lastLen = len
  lastLen_lt : p.lastLen < dev.blockSize

section Plans

theorem firstOff_eq (off : Nat) :
    off - off / dev.blockSize * dev.blockSize = off % dev.blockSize := by
  have := Nat.div_add_mod' off dev.blockSize
  omega

theorem plan_firstLen : (plan dev off len).firstLen =
    if off % dev.blockSize ≠ 0 then min (dev.blockSize - off % dev.blockSize) len
    else if len < dev.blockSize then len else 0 := by
  simp only [plan, firstOff_eq]
  split_ifs <;> omega

theorem plan_middleLen : (plan dev off len).middleLen =
    (len - (plan dev off len).firstLen) / dev.blockSize * dev.blockSize := rfl

theorem plan_cuts : (plan dev off len).Cuts dev off len := by
  have positive := dev.blockSize_pos
  have remainder := Nat.mod_lt off positive
  have firstLen := plan_firstLen dev off len
  have middleLen := plan_middleLen dev off len
  have lastLen : (plan dev off len).lastLen =
      len - (plan dev off len).firstLen - (plan dev off len).middleLen := rfl
  generalize plan dev off len = p at *
  have rest := Nat.div_add_mod' (len - p.firstLen) dev.blockSize
  have rest_lt := Nat.mod_lt (len - p.firstLen) positive
  have firstLen_le : p.firstLen ≤ len := by
    rw [firstLen]
    split_ifs <;> omega
  refine ⟨?_, ?_, fun more => ?_, ?_, by omega, by omega⟩
  · rw [firstLen]
    split_ifs <;> omega
  · rw [firstLen]
    split_ifs <;> omega
  · have below := Nat.div_add_mod' off dev.blockSize
    rw [firstLen] at more ⊢
    split_ifs at more ⊢ with unaligned short
    · refine ⟨off / dev.blockSize + 1, ?_⟩
      rw [mul_add, mul_comm]
      omega
    · omega
    · exact Nat.dvd_of_mod_eq_zero (Decidable.not_not.mp unaligned)
  · exact ⟨_, middleLen.trans (mul_comm ..)⟩

variable {dev} {off len : Nat} {p : Plan}

theorem base_add_of_dvd {n : Nat} (aligned : dev.blockSize ∣ n) :
    dev.base + n = (dev.startLba + n / dev.blockSize) * dev.blockSize := by
  rw [Nat.add_mul, Nat.div_mul_cancel aligned, Blockdev.base]

theorem add_div_le (n m : Nat) : add n m / dev.blockSize ≤ (n + m) / dev.blockSize :=
  Nat.div_le_div_right (Nat.mod_le _ _)

theorem plan_middleLba : (plan dev off len).middleLba =
    add off (plan dev off len).firstLen / dev.blockSize := rfl

theorem plan_lastLba : (plan dev off len).lastLba =
    add off ((plan dev off len).firstLen + (plan dev off len).middleLen) / dev.blockSize :=
  congrArg (· / dev.blockSize) (add_add ..)

section

variable (isPlan : plan dev off len = p)
include isPlan

theorem first_lies (inside : off < dev.size) :
    p.firstLba < dev.numBlocks ∧ p.firstOff + p.firstLen ≤ dev.blockSize ∧
      dev.base + off = (dev.startLba + p.firstLba) * dev.blockSize + p.firstOff := by
  subst isPlan
  rw [show (plan dev off len).firstOff = off % dev.blockSize from firstOff_eq dev off]
  refine ⟨Nat.div_lt_of_lt_mul (by rwa [mul_comm]), (plan_cuts dev off len).fits, ?_⟩
  rw [add_mul, add_assoc]
  exact congrArg (dev.base + ·) (Nat.div_add_mod' off dev.blockSize).symm

/-- They are blocks of the device, though not always the right ones. -/
theorem plan_lies (inside : off + len ≤ dev.size) :
    p.Lies dev (dev.base + off) ((dev.startLba + p.middleLba) * dev.blockSize)
      ((dev.startLba + p.lastLba) * dev.blockSize) := by
  have positive := dev.blockSize_pos
  have cuts := isPlan ▸ plan_cuts dev off len
  have total := cuts.total
  refine ⟨fun nonempty => first_lies isPlan (by omega), fun nonempty => ⟨cuts.whole, ?_, rfl⟩,
    fun nonempty => ⟨?_, ?_, rfl⟩⟩
  · rw [← isPlan, plan_middleLba, isPlan]
    calc
      _ ≤ (off + p.firstLen) / dev.blockSize + p.middleLen / dev.blockSize :=
        Nat.add_le_add_right (add_div_le ..) _
      _ = (off + p.firstLen + p.middleLen) / dev.blockSize :=
        (Nat.add_div_of_dvd_left cuts.whole).symm
      _ ≤ dev.size / dev.blockSize := Nat.div_le_div_right (by omega)
      _ = dev.numBlocks := Nat.mul_div_cancel _ positive
  · rw [← isPlan, plan_lastLba, isPlan]
    refine lt_of_le_of_lt (add_div_le ..) (Nat.div_lt_of_lt_mul ?_)
    rw [mul_comm]
    unfold Blockdev.size at inside
    omega
  · have := cuts.lastLen_lt
    omega

theorem plan_lies_adjoining (inside : off + len ≤ dev.size)
    (middleBelow : p.middleLen ≠ 0 → off + p.firstLen < 2 ^ 64)
    (lastBelow : p.lastLen ≠ 0 → off + (p.firstLen + p.middleLen) < 2 ^ 64) :
    p.Lies dev (dev.base + off) (dev.base + off + p.firstLen)
      (dev.base + off + (p.firstLen + p.middleLen)) := by
  have cuts := isPlan ▸ plan_cuts dev off len
  have total := cuts.total
  obtain ⟨first, middle, last⟩ := plan_lies isPlan inside
  refine ⟨first, fun nonempty => ?_, fun nonempty => ?_⟩
  · obtain ⟨whole, blocks, -⟩ := middle nonempty
    refine ⟨whole, blocks, ?_⟩
    rw [add_assoc, base_add_of_dvd (cuts.boundary (by omega))]
    rw [← isPlan, plan_middleLba, isPlan, add_of_lt (middleBelow nonempty)]
  · obtain ⟨block, fits, -⟩ := last nonempty
    refine ⟨block, fits, ?_⟩
    have aligned := Nat.dvd_add (cuts.boundary (by omega)) cuts.whole
    rw [add_assoc] at aligned
    rw [add_assoc, base_add_of_dvd aligned, ← isPlan, plan_lastLba, isPlan,
      add_of_lt (lastBelow nonempty)]
    rfl

end

theorem boundary_unique {k n : Nat} (aligned : dev.blockSize ∣ n)
    (lower : k * dev.blockSize < n + dev.blockSize)
    (upper : n < k * dev.blockSize + dev.blockSize) : k * dev.blockSize = n := by
  obtain ⟨j, rfl⟩ := aligned
  have : k < j + 1 := by
    apply Nat.lt_of_mul_lt_mul_right (a := dev.blockSize)
    rw [Nat.add_mul, Nat.one_mul, Nat.mul_comm j]
    exact lower
  have : j < k + 1 := by
    apply Nat.lt_of_mul_lt_mul_right (a := dev.blockSize)
    rw [Nat.add_mul, Nat.one_mul, Nat.mul_comm j]
    exact upper
  rw [Nat.mul_comm, show k = j by omega]

section

variable (cuts : p.Cuts dev off len)
include cuts

theorem StartsBelow.middle (below : StartsBelow dev off len) (nonempty : p.middleLen ≠ 0) :
    off + p.firstLen < 2 ^ 64 := by
  have total := cuts.total
  have firstLen_lt := cuts.firstLen_lt
  obtain ⟨k, boundary⟩ := cuts.boundary (by omega)
  rw [mul_comm] at boundary
  rw [boundary]
  exact below k (by omega) (by omega) (.inl (by omega))

theorem StartsBelow.last (below : StartsBelow dev off len) (nonempty : p.lastLen ≠ 0) :
    off + (p.firstLen + p.middleLen) < 2 ^ 64 := by
  have total := cuts.total
  have lastLen_lt := cuts.lastLen_lt
  obtain ⟨k, boundary⟩ := Nat.dvd_add (cuts.boundary (by omega)) cuts.whole
  rw [mul_comm, add_assoc] at boundary
  rw [boundary]
  exact below k (by omega) (by omega) (.inr (by omega))

theorem startsBelow_of_parts (off_lt : off < 2 ^ 64)
    (middleBelow : p.middleLen ≠ 0 → off + p.firstLen < 2 ^ 64)
    (lastBelow : p.lastLen ≠ 0 → off + (p.firstLen + p.middleLen) < 2 ^ 64) :
    StartsBelow dev off len := by
  intro k lower upper start
  have total := cuts.total
  have firstLen_lt := cuts.firstLen_lt
  have lastLen_lt := cuts.lastLen_lt
  by_cases more : p.firstLen < len
  · have firstEnd := cuts.boundary more
    rcases start with early | late
    · have first := boundary_unique firstEnd (k := k) (by omega) (by omega)
      by_cases middle : p.middleLen = 0
      · omega
      · omega
    · have last := boundary_unique (Nat.dvd_add firstEnd cuts.whole) (k := k) (by omega) (by omega)
      omega
  · -- The range lies in one block, which can only start with it.
    have below := Nat.div_add_mod' off dev.blockSize
    have fits := cuts.fits
    have := boundary_unique (dvd_mul_left dev.blockSize (off / dev.blockSize)) (k := k)
      (by omega) (by omega)
    omega

end

theorem plan_whole_iff (positive : 0 < len) :
    ((plan dev off len).firstLen = 0 ∧ (plan dev off len).lastLen = 0) ↔
      dev.blockSize ∣ off ∧ dev.blockSize ∣ len := by
  have cuts := plan_cuts dev off len
  have total := cuts.total
  constructor
  · rintro ⟨first, last⟩
    have boundary := cuts.boundary (by omega)
    rw [first] at boundary total
    rw [last] at total
    refine ⟨boundary, ?_⟩
    rw [← total, zero_add]
    exact cuts.whole
  · rintro ⟨aligned, whole⟩
    have first : (plan dev off len).firstLen = 0 := by
      rw [plan_firstLen, if_neg (not_not.mpr (Nat.mod_eq_zero_of_dvd aligned)),
        if_neg (Nat.not_lt.mpr (Nat.le_of_dvd positive whole))]
    rw [first, zero_add] at total
    have last : dev.blockSize ∣ (plan dev off len).lastLen :=
      (Nat.dvd_add_right cuts.whole).mp (by rw [total]; exact whole)
    exact ⟨first, Nat.eq_zero_of_dvd_of_lt last cuts.lastLen_lt⟩

theorem plan_firstLen_eq_zero_iff (positive : 0 < len) :
    (plan dev off len).firstLen = 0 ↔ dev.blockSize ∣ off ∧ dev.blockSize ≤ len := by
  have remainder := Nat.mod_lt off dev.blockSize_pos
  rw [plan_firstLen, Nat.dvd_iff_mod_eq_zero]
  split_ifs <;> omega

end Plans

section Transfers

variable {dev} {fails : Nat → Bool} {type : RequestType} {disk : Disk} {buf : Buffer}
  {off len : Nat}

theorem rwParts_whole {p : Plan} (first : p.firstLen = 0) (last : p.lastLen = 0) (tbuf : Buffer)
    {t : Transfer} (running : t.failed = false) :
    rwParts dev fails type tbuf p t = rwMiddle dev fails type p.middleLba p.middleLen t := by
  simp only [rwParts, rwPartial, first, last, if_true, running, Bool.false_eq_true, if_false,
    ite_self]

theorem blockdevRw_served {heap : Option Buffer} (positive : 0 < len)
    (permitted : Permitted dev heap type off len) (ranged : inRange dev off len = true) :
    ∃ tbuf, ∀ fails disk buf, blockdevRw dev fails heap type disk buf off len =
      rwParts dev fails type tbuf (plan dev off len) ⟨disk, buf, 0, false⟩ := by
  have writable : (type = .write && !dev.writable) = false := by
    cases type with
    | read => rfl
    | write => simp [permitted.1 rfl]
  unfold blockdevRw
  dsimp only
  simp only [ne_of_gt positive, writable, ranged, reduceIte]
  cases heap with
  | some tbuf => exact ⟨tbuf, fun _ _ _ => rfl⟩
  | none =>
    obtain ⟨first, last⟩ := (plan_whole_iff positive).mpr (permitted.2 rfl)
    refine ⟨fun _ => 0, fun fails disk buf => ?_⟩
    rw [rwParts_whole first last _ rfl]
    simp [first, last]

theorem blockdevRw_refused {heap : Option Buffer} (positive : 0 < len)
    (refused : Permitted dev heap type off len → inRange dev off len = false) :
    blockdevRw dev fails heap type disk buf off len = ⟨disk, buf, 0, false⟩ := by
  unfold blockdevRw
  dsimp only
  rw [if_neg (by omega)]
  split
  · rfl
  next writable =>
  split
  · rfl
  next ranged =>
  cases heap with
  | some tbuf =>
    exfalso
    rw [refused ⟨?_, ?_⟩] at ranged
    · simp at ranged
    · simpa using writable
    · simp
  | none =>
    dsimp only
    split
    · rfl
    next whole =>
    exfalso
    rw [not_or, not_not, not_not, plan_whole_iff positive] at whole
    rw [refused ⟨?_, fun _ => whole⟩] at ranged
    · simp at ranged
    · simpa using writable

theorem rwParts_exact (allowed : type = .write → dev.writable = true)
    (tbuf : Buffer) (inside : off + len ≤ dev.size) (below : StartsBelow dev off len) :
    Exact dev type disk buf off len
      (rwParts dev fails type tbuf (plan dev off len) ⟨disk, buf, 0, false⟩) := by
  have cuts := plan_cuts dev off len
  have lies := plan_lies_adjoining rfl inside (below.middle cuts) (below.last cuts)
  have moved := rwParts_adjoining fails allowed tbuf lies (t := ⟨disk, buf, 0, false⟩) rfl rfl
  rw [cuts.total] at moved
  unfold Exact
  rw [if_pos inside]
  exact moved

theorem move_parts_ne (type : RequestType) {pos middle last first whole rest : Nat}
    (small : first + whole + rest < 2 ^ 64) (wraps : whole ≠ 0 ∧ middle + 2 ^ 64 ≤ pos + first ∧
        (rest ≠ 0 → last + 2 ^ 64 ≤ pos + (first + whole)) ∨
      rest ≠ 0 ∧ last + 2 ^ 64 ≤ pos + (first + whole) ∧ (whole ≠ 0 → middle = pos + first)) :
    ∃ contents, move type last (first + whole) rest
        (move type middle first whole (move type pos 0 first contents)) ≠
      move type pos 0 (first + whole + rest) contents := by
  cases type with
  | read =>
    -- The byte that the first wrong part should have read is the only one that is set.
    rcases wraps with ⟨nonempty, low, -⟩ | ⟨nonempty, low, -⟩
    · refine ⟨(fun x => if x = pos + first then 1 else 0, fun _ => 0), fun same => ?_⟩
      have byte := congrFun (congrArg Prod.snd same) first
      simp only [move, patch] at byte
      split_ifs at byte <;> first | omega | simp at byte
    · refine ⟨(fun x => if x = pos + (first + whole) then 1 else 0, fun _ => 0), fun same => ?_⟩
      have byte := congrFun (congrArg Prod.snd same) (first + whole)
      simp only [move, patch] at byte
      split_ifs at byte <;> first | omega | simp at byte
  | write =>
    rcases wraps with ⟨nonempty, low, restLow⟩ | ⟨nonempty, low, adjoining⟩
    · refine ⟨(fun _ => 0, fun i => if i = first then 1 else 0), fun same => ?_⟩
      have byte := congrFun (congrArg Prod.fst same) (pos + first)
      simp only [move, patch] at byte
      split_ifs at byte <;> first | omega | simp at byte
    · refine ⟨(fun _ => 0, fun i => if i = first + whole then 1 else 0), fun same => ?_⟩
      have byte := congrFun (congrArg Prod.fst same) (pos + (first + whole))
      simp only [move, patch] at byte
      split_ifs at byte <;> first | omega | simp at byte

theorem base_add_wrapped (off_lt : off < 2 ^ 64) {n : Nat} (small : n < 2 ^ 64)
    (large : 2 ^ 64 ≤ off + n) :
    (dev.startLba + add off n / dev.blockSize) * dev.blockSize + 2 ^ 64 ≤
      dev.base + off + n := by
  have block := Nat.div_mul_le_self (add off n) dev.blockSize
  have wrapped : add off n = off + n - 2 ^ 64 := by
    unfold add
    omega
  rw [add_mul, Blockdev.base]
  omega

theorem plan_wraps {p : Plan} (isPlan : plan dev off len = p) (off_lt : off < 2 ^ 64)
    (len_lt : len < 2 ^ 64) (wraps : ¬StartsBelow dev off len) :
    p.middleLen ≠ 0 ∧ (dev.startLba + p.middleLba) * dev.blockSize + 2 ^ 64 ≤
          dev.base + off + p.firstLen ∧
        (p.lastLen ≠ 0 → (dev.startLba + p.lastLba) * dev.blockSize + 2 ^ 64 ≤
          dev.base + off + (p.firstLen + p.middleLen)) ∨
      p.lastLen ≠ 0 ∧ (dev.startLba + p.lastLba) * dev.blockSize + 2 ^ 64 ≤
          dev.base + off + (p.firstLen + p.middleLen) ∧
        (p.middleLen ≠ 0 →
          (dev.startLba + p.middleLba) * dev.blockSize = dev.base + off + p.firstLen) := by
  have cuts := isPlan ▸ plan_cuts dev off len
  have total := cuts.total
  rw [← isPlan, plan_middleLba, plan_lastLba, isPlan]
  by_cases middleWraps : p.middleLen ≠ 0 ∧ 2 ^ 64 ≤ off + p.firstLen
  · obtain ⟨nonempty, large⟩ := middleWraps
    refine .inl ⟨nonempty, base_add_wrapped off_lt (by omega) large, fun _ => ?_⟩
    exact base_add_wrapped off_lt (by omega) (by omega)
  · have middleBelow : p.middleLen ≠ 0 → off + p.firstLen < 2 ^ 64 := fun nonempty => by
      by_contra large
      exact middleWraps ⟨nonempty, Nat.le_of_not_lt large⟩
    by_cases lastWraps : p.lastLen ≠ 0 ∧ 2 ^ 64 ≤ off + (p.firstLen + p.middleLen)
    · obtain ⟨nonempty, large⟩ := lastWraps
      refine .inr ⟨nonempty, base_add_wrapped off_lt (by omega) large, fun middle => ?_⟩
      rw [add_of_lt (middleBelow middle), add_assoc,
        base_add_of_dvd (cuts.boundary (by omega))]
    · refine absurd (startsBelow_of_parts cuts off_lt middleBelow fun nonempty => ?_) wraps
      by_contra large
      exact lastWraps ⟨nonempty, Nat.le_of_not_lt large⟩

/-- Inside the device, a part that starts at `2 ^ 64` or later is taken from the wrong block. -/
theorem rwParts_wraps (off_lt : off < 2 ^ 64) (len_lt : len < 2 ^ 64)
    (allowed : type = .write → dev.writable = true) (tbuf : Buffer)
    (inside : off + len ≤ dev.size) (wraps : ¬StartsBelow dev off len) :
    ∃ disk buf, ¬Exact dev type disk buf off len
      (rwParts dev (fun _ => false) type tbuf (plan dev off len) ⟨disk, buf, 0, false⟩) := by
  have total := (plan_cuts dev off len).total
  obtain ⟨⟨bytes, buf⟩, differ⟩ :=
    move_parts_ne type (by omega) (plan_wraps rfl off_lt len_lt wraps)
  refine ⟨⟨bytes, 0⟩, buf, fun exact => ?_⟩
  obtain ⟨complete, -, served⟩ := rwParts_moved (fun _ => false) allowed tbuf (plan_lies rfl inside)
    (t := ⟨⟨bytes, 0⟩, buf, 0, false⟩) rfl rfl
  obtain ⟨contents, count⟩ := complete (served fun _ => rfl)
  unfold Exact at exact
  rw [if_pos inside, count, contents] at exact
  exact differ exact.2.1

theorem rwPartial_done_le (tbuf : Buffer) (lba blockOff n : Nat) (t : Transfer) :
    t.done ≤ (rwPartial dev fails type tbuf lba blockOff n t).done := by
  unfold rwPartial
  split
  · exact le_refl _
  · split
    · exact le_refl _
    · cases type with
      | read => exact Nat.le_add_right ..
      | write =>
        dsimp only
        split
        · exact le_refl _
        · exact Nat.le_add_right ..

theorem rwMiddle_done_le (lba n : Nat) (t : Transfer) :
    t.done ≤ (rwMiddle dev fails type lba n t).done := by
  unfold rwMiddle
  split
  · exact le_refl _
  · split
    · exact le_refl _
    · exact Nat.le_add_right ..

theorem lt_size_of_inRange (ranged : inRange dev off len = true) : off < dev.size := by
  simp only [inRange, Bool.and_eq_true, decide_eq_true_eq] at ranged
  exact lt_of_lt_of_le ranged.1 (Nat.mod_le _ _)

theorem middle_request (off_lt : off < 2 ^ 64) (ranged : inRange dev off len = true)
    (first : (plan dev off len).firstLen = 0) :
    add dev.startLba (plan dev off len).middleLba = dev.startLba + off / dev.blockSize ∧
      (plan dev off len).middleLen / dev.blockSize = len / dev.blockSize := by
  have block : off / dev.blockSize < dev.numBlocks :=
    Nat.div_lt_of_lt_mul (by rw [mul_comm]; exact lt_size_of_inRange ranged)
  have bound := dev.lba_lt
  have sum : add off 0 = off := add_of_lt off_lt
  rw [plan_middleLba, plan_middleLen, first, Nat.sub_zero, Nat.mul_div_cancel _ dev.blockSize_pos, sum,
    add_of_lt (Nat.lt_trans (Nat.add_lt_add_left block _) bound)]
  exact ⟨rfl, rfl⟩

theorem middleLen_ne_zero (whole : dev.blockSize ≤ len)
    (first : (plan dev off len).firstLen = 0) : (plan dev off len).middleLen ≠ 0 := by
  rw [plan_middleLen, first, Nat.sub_zero]
  exact Nat.mul_ne_zero (Nat.div_pos whole dev.blockSize_pos).ne' dev.blockSize_pos.ne'

/-- A range that passes the test moves bytes unless whole blocks at its start are refused. -/
theorem rwParts_moves (off_lt : off < 2 ^ 64) (positive : 0 < len)
    (allowed : type = .write → dev.writable = true) (tbuf : Buffer)
    (ranged : inRange dev off len = true) (accepted : ¬Refused dev type off len) :
    (rwParts dev (fun _ => false) type tbuf (plan dev off len) ⟨disk, buf, 0, false⟩).done ≠ 0 := by
  have lies (_ : (plan dev off len).firstLen ≠ 0) :=
    first_lies (rfl : plan dev off len = _) (lt_size_of_inRange ranged)
  have firstMoved := rwPartial_moved (fun _ => false) allowed tbuf
    (t := ⟨disk, buf, 0, false⟩) rfl lies
  unfold rwParts
  generalize rwPartial _ _ _ _ _ _ _ _ = t₁ at firstMoved ⊢
  have running := firstMoved.served fun _ => rfl
  have count := (firstMoved.complete running).2
  rw [zero_add] at count
  dsimp only
  rw [running, if_neg Bool.false_ne_true]
  have middleMoves : (rwMiddle dev (fun _ => false) type (plan dev off len).middleLba
      (plan dev off len).middleLen t₁).done ≠ 0 := by
    by_cases first : (plan dev off len).firstLen = 0
    · obtain ⟨aligned, whole⟩ := (plan_firstLen_eq_zero_iff positive).mp first
      obtain ⟨lba, bcnt⟩ := middle_request off_lt ranged first
      have nonempty := middleLen_ne_zero whole first
      have request : submitOk dev type (add dev.startLba (plan dev off len).middleLba)
          ((plan dev off len).middleLen / dev.blockSize) = true := by
        rw [lba, bcnt]
        by_contra refused
        exact accepted ⟨aligned, whole, Bool.eq_false_of_not_eq_true refused⟩
      unfold rwMiddle
      rw [if_neg nonempty]
      cases type <;> simp [rwBlocks, request, nonempty]
    · exact (lt_of_lt_of_le (by omega) (rwMiddle_done_le ..)).ne'
  split
  · exact middleMoves
  · exact (lt_of_lt_of_le (pos_of_ne_zero middleMoves) (rwPartial_done_le ..)).ne'

theorem rwParts_refused (off_lt : off < 2 ^ 64) (positive : 0 < len) (tbuf : Buffer)
    (ranged : inRange dev off len = true) (refused : Refused dev type off len) :
    rwParts dev fails type tbuf (plan dev off len) ⟨disk, buf, 0, false⟩ =
      ⟨disk, buf, 0, true⟩ := by
  obtain ⟨aligned, whole, request⟩ := refused
  have first := (plan_firstLen_eq_zero_iff positive).mpr ⟨aligned, whole⟩
  obtain ⟨lba, bcnt⟩ := middle_request off_lt ranged first
  rw [← lba, ← bcnt] at request
  simp only [rwParts, rwPartial, first, if_true, rwMiddle, middleLen_ne_zero whole first, if_false,
    rwBlocks, request, Bool.not_false, Bool.false_eq_true]

theorem blockdevRw_empty (heap : Option Buffer) :
    blockdevRw dev fails heap type disk buf off 0 = ⟨disk, buf, 0, false⟩ := rfl

theorem exact_unmoved_iff (failed : Bool) :
    Exact dev type disk buf off len ⟨disk, buf, 0, failed⟩ ↔
      (off + len ≤ dev.size → failed = false → len = 0) := by
  unfold Exact
  split_ifs with inside
  · simp [Transfer.contents, move_zero, inside, eq_comm]
  · simp [Transfer.contents, inside]

end Transfers

/-- Where the 64-bit sums of `vmm_blockdev_rw` do no harm. -/
def WrapSafe (heap : Option Buffer) (type : RequestType) (off len : Nat) : Prop :=
  if off + len ≤ dev.size then
    Permitted dev heap type off len ∧ inRange dev off len = true ∧ StartsBelow dev off len
  else
    ¬Permitted dev heap type off len ∨ inRange dev off len = false ∨ Refused dev type off len

def twoBlocks : Blockdev := ⟨true, 0, 2, 512, Blockdev.sectorSize_pos, by decide⟩

end Xvisor.Block
