import Mathlib.Data.List.TakeWhile
import Mathlib.Tactic
import Xvisor.Lib.Coverage
import Xvisor.Lib.Lists
import Xvisor.Lib.Word

/-!
# The host RAM allocator

The bitmaps of all banks lie one after the other in the house-keeping memory, so
that a bit position beyond the bitmap of a bank belongs to padding or to the next
bank.
-/

namespace Xvisor.Host

open Lib Word

def pageShift : Nat := 12

def pageSize : Nat := 2 ^ pageShift

def roundup2OrderSize (size order : Nat) : Nat :=
  if size % 2 ^ order ≠ 0 then add (alignDown size order) (2 ^ order) else size

def sizeToPage (size : Nat) : Nat :=
  size / pageSize + if size % pageSize ≠ 0 then 1 else 0

/-! ## Bitmaps -/

/-- The `int` a 32-bit bit position becomes when it is passed to a bitmap function. -/
def toInt (bit : Nat) : Int := if bit < 2 ^ 31 then bit else (bit : Int) - 2 ^ 32

/-- Where a bit lives: `BIT_WORD` divides an `int`, `BIT_WORD_OFFSET` masks it. -/
def bitAddress (bmap : Nat) (bit : Int) : Int := bmap + (64 * bit.tdiv 64 + bit % 64)

variable (bits : Int → Bool)

def bitmapIsset (bmap bit : Nat) : Bool := bits (bitAddress bmap (toInt bit))

/-- The loop of `bitmap_set` and of `bitmap_clear`. -/
def bitmapAssign (value : Bool) (bmap : Nat) (start : Int) : Nat → (Int → Bool) → Int → Bool
  | 0, bits => bits
  | len + 1, bits =>
    Function.update (bitmapAssign value bmap start len bits) (bitAddress bmap (start + len)) value

def bitmapSet (bmap start len : Nat) : Int → Bool :=
  bitmapAssign true bmap (toInt start) (toInt len).toNat bits

def bitmapClear (bmap start len : Nat) : Int → Bool :=
  bitmapAssign false bmap (toInt start) (toInt len).toNat bits

def bitmapEstimateSize (nbits : Nat) : Nat := (nbits + 63) / 64 * 8

/-! ## Banks -/

/-- What initialisation fixes about a bank; `bmap` is the bit offset of its bitmap from
`hkbase`. -/
structure BankLayout where
  start : Nat
  size : Nat
  frameCount : Nat
  bmap : Nat
  deriving DecidableEq, Repr

structure HostRamBank extends BankLayout where
  bmapFree : Nat
  deriving DecidableEq, Repr

structure HostRam where
  banks : List HostRamBank
  bits : Int → Bool

variable (ram : HostRam)

def HostRam.layout : List BankLayout := ram.banks.map HostRamBank.toBankLayout

/-! ## Allocation -/

/-- The counter `bfree` after the loop over the window. -/
def windowFree (bits : Int → Bool) (bank : HostRamBank) (bpos bcnt : Nat) : Nat :=
  ((List.range (toU32 (bpos + bcnt) - bpos)).takeWhile
    fun i => !bitmapIsset bits bank.bmap (bpos + i)).length

structure Request where
  size : Nat
  order : Nat
  colorMatch : Nat → Nat → Bool

namespace Request

variable (request : Request)

def bcnt : Nat := toU32 (sizeToPage request.size)

def binc : Nat := toU32 (2 ^ request.order / pageSize)

def firstPos (bank : HostRamBank) : Nat :=
  let bpos := toU32 (bank.start % 2 ^ request.order)
  if bpos ≠ 0 then toU32 (sizeToPage (2 ^ request.order - bpos)) else 0

def address (bank : HostRamBank) (bpos : Nat) : Nat := add bank.start (bpos * pageSize)

def accepts (bits : Int → Bool) (bank : HostRamBank) (bpos : Nat) : Bool :=
  decide (windowFree bits bank bpos request.bcnt = request.bcnt) &&
    request.colorMatch (address bank bpos) request.size

end Request

inductive Scan where
  | found (bpos : Nat)
  | missed
  | hangs
  deriving DecidableEq, Repr

/-- The loop over the positions of a bank. A step of zero never leaves it. -/
def scanBank (accepts : Nat → Bool) (frames binc : Nat) : Nat → Nat → Scan
  | 0, bpos => if bpos < frames then .hangs else .missed
  | fuel + 1, bpos =>
    if bpos < frames then
      if accepts bpos then .found bpos else scanBank accepts frames binc fuel (toU32 (bpos + binc))
    else .missed

inductive AllocOutcome where
  | allocated (ram : HostRam) (pa : Nat) (size : Nat)
  | failed
  | hangs

def allocFromBanks (request : Request) (bits : Int → Bool) (passed : List HostRamBank) :
    List HostRamBank → AllocOutcome
  | [] => .failed
  | bank :: rest =>
    if bank.bmapFree < request.bcnt then allocFromBanks request bits (passed ++ [bank]) rest
    else
      match scanBank (request.accepts bits bank) (bank.size / pageSize) request.binc
          (bank.size / pageSize) (request.firstPos bank) with
      | .found bpos =>
        .allocated
          { banks := passed ++ { bank with bmapFree := bank.bmapFree - request.bcnt } :: rest
            bits := bitmapSet bits bank.bmap bpos request.bcnt }
          (Request.address bank bpos) request.size
      | .missed => allocFromBanks request bits (passed ++ [bank]) rest
      | .hangs => .hangs

/-- `__host_ram_alloc`; a null `ops` accepts every colour. -/
def hostRamAllocColored (size order : Nat) (colorMatch : Nat → Nat → Bool) : AllocOutcome :=
  if size = 0 ∨ order < pageShift ∨ 64 ≤ order then .failed
  else allocFromBanks ⟨roundup2OrderSize size order, order, colorMatch⟩ ram.bits [] ram.banks

def vmmHostRamAlloc (size order : Nat) : AllocOutcome :=
  hostRamAllocColored ram size order fun _ _ => true

structure ColorOps where
  numColors : Nat
  colorOrder : Nat
  colorMatch : Nat → Nat → Nat → Bool

def vmmHostRamColorAlloc (ops : ColorOps) (color : Nat) : AllocOutcome :=
  if ops.numColors ≤ color then .failed
  else
    hostRamAllocColored ram (2 ^ ops.colorOrder % 2 ^ 64) ops.colorOrder
      fun pa size => ops.colorMatch pa size color

/-! ## Reservation and free -/

inductive RamStatus where
  | ok
  | invalid
  | noSpace
  deriving DecidableEq, Repr

variable (pa size : Nat)

/-- The bank test shared by `vmm_host_ram_reserve` and `vmm_host_ram_free`. -/
def holdsRange (bank : HostRamBank) : Bool :=
  decide (¬ (pa < bank.start ∨ add bank.start bank.size < add pa size))

def framePos (pa : Nat) (bank : HostRamBank) : Nat := toU32 ((pa - bank.start) / pageSize)

def vmmHostRamReserve : HostRam × RamStatus :=
  match splitAtFirst (holdsRange pa size) ram.banks with
  | none => (ram, .invalid)
  | some (before, bank, after) =>
    let bcnt := toU32 (sizeToPage size)
    if bank.bmapFree < bcnt then (ram, .noSpace)
    else if windowFree ram.bits bank (framePos pa bank) bcnt ≠ bcnt then (ram, .noSpace)
    else
      ({ banks := before ++ { bank with bmapFree := bank.bmapFree - bcnt } :: after
         bits := bitmapSet ram.bits bank.bmap (framePos pa bank) bcnt }, .ok)

def vmmHostRamFree : HostRam × RamStatus :=
  match splitAtFirst (holdsRange pa size) ram.banks with
  | none => (ram, .invalid)
  | some (before, bank, after) =>
    let bcnt := toU32 (sizeToPage size)
    ({ banks := before ++ { bank with bmapFree := toU32 (bank.bmapFree + bcnt) } :: after
       bits := bitmapClear ram.bits bank.bmap (framePos pa bank) bcnt }, .ok)

/-- The bank test of `vmm_host_ram_frame_isfree`. -/
def holdsFrame (pa : Nat) (bank : HostRamBank) : Bool :=
  decide (¬ (pa < bank.start ∨ add bank.start bank.size ≤ pa))

def vmmHostRamFrameIsfree (pa : Nat) : Bool :=
  match splitAtFirst (holdsFrame pa) ram.banks with
  | none => false
  | some (_, bank, _) => !bitmapIsset ram.bits bank.bmap (framePos pa bank)

/-! ## Initialisation -/

/-- The loop of `vmm_host_ram_init` over the banks of the device tree, with the bit
offset of the next bitmap. `none` when a bank is not page aligned. -/
def initBanks (bits : Int → Bool) (hkbase : Nat) :
    List (Nat × Nat) → Option (List HostRamBank × (Int → Bool))
  | [] => some ([], bits)
  | (start, size) :: rest =>
    if start % pageSize ≠ 0 ∨ size % pageSize ≠ 0 then none
    else
      let frameCount := toU32 (size / pageSize)
      let bmapSize := bitmapEstimateSize frameCount
      (initBanks (bitmapAssign false hkbase 0 (bmapSize * 8) bits) (hkbase + bmapSize * 8) rest).map
        fun (banks, bits) => (⟨⟨start, size, frameCount, hkbase⟩, frameCount⟩ :: banks, bits)

def vmmHostRamInit (bits : Int → Bool) (banks : List (Nat × Nat)) : Option HostRam :=
  (initBanks bits 0 banks).map fun (banks, bits) => ⟨banks, bits⟩

/-! ## The invariant of the host RAM allocator

A bit of a bank's bitmap is set exactly when one of the live ranges, those
allocated or reserved and not freed yet, covers the frame. -/

open Function List HostRamBank Nat

/-! ## Bitmap windows -/

theorem toInt_of_lt {bit : Nat} (small : bit < 2 ^ 31) : toInt bit = bit := if_pos small

theorem bitAddress_natCast (bmap bit : Nat) : bitAddress bmap (bit : Int) = bmap + bit := by
  unfold bitAddress
  rw [Int.tdiv_eq_ediv_of_nonneg (Int.natCast_nonneg bit)]
  omega

theorem bitmapIsset_of_lt {bits : Int → Bool} {bmap bit : Nat} (small : bit < 2 ^ 31) :
    bitmapIsset bits bmap bit = bits (bmap + bit) := by
  rw [bitmapIsset, toInt_of_lt small, bitAddress_natCast]

theorem bitmapAssign_apply (value : Bool) (bmap start len : Nat) (bits : Int → Bool) (x : Int) :
    bitmapAssign value bmap start len bits x =
      if (bmap + start : Int) ≤ x ∧ x < bmap + start + len then value else bits x := by
  induction len with
  | zero =>
    rw [if_neg (by omega)]
    rfl
  | succ len ih =>
    have address : bitAddress bmap ((start : Int) + len) = bmap + start + len := by
      have := bitAddress_natCast bmap (start + len)
      push_cast at this
      omega
    unfold bitmapAssign
    rw [address]
    by_cases last : x = bmap + start + len
    · subst last
      rw [update_self, if_pos (by omega)]
    · rw [update_of_ne last, ih]
      by_cases inside : (bmap + start : Int) ≤ x ∧ x < bmap + start + len
      · rw [if_pos inside, if_pos (by omega)]
      · rw [if_neg inside, if_neg (by omega)]

theorem windowFree_eq_iff {bits : Int → Bool} {bank : HostRamBank} {bpos bcnt : Nat}
    (small : bpos + bcnt < 2 ^ 31) :
    windowFree bits bank bpos bcnt = bcnt ↔
      ∀ i, bpos ≤ i → i < bpos + bcnt → bits (bank.bmap + i) = false := by
  have window : Word.toU32 (bpos + bcnt) - bpos = bcnt := by
    rw [Word.toU32_of_lt (by omega)]
    omega
  unfold windowFree
  rw [window]
  constructor
  · intro full
    have whole := takeWhile_eq_self_iff.mp
      ((takeWhile_sublist fun i => !bitmapIsset bits bank.bmap (bpos + i)).eq_of_length
        (by rw [full, length_range]))
    intro i low high
    have clear := whole (i - bpos) (mem_range.mpr (by omega))
    rw [Nat.add_sub_cancel' low, bitmapIsset_of_lt (by omega)] at clear
    simpa using clear
  · intro clear
    rw [takeWhile_eq_self_iff.mpr ?_, length_range]
    intro i inRange
    have := mem_range.mp inRange
    rw [bitmapIsset_of_lt (by omega)]
    have := clear (bpos + i) (by omega) (by omega)
    push_cast at this
    simp [this]

def clearFrames (bits : Int → Bool) (bank : BankLayout) : Finset Nat :=
  (Finset.range bank.frameCount).filter fun i => bits (bank.bmap + i) = false

theorem card_clearFrames_set (bits bits' : Int → Bool) (bank : BankLayout) {start len : Nat}
    (inside : start + len ≤ bank.frameCount)
    (clear : ∀ i, start ≤ i → i < start + len → bits (bank.bmap + i) = false)
    (assigned : ∀ i, i < bank.frameCount → bits' (bank.bmap + i) =
      if start ≤ i ∧ i < start + len then true else bits (bank.bmap + i)) :
    (clearFrames bits' bank).card + len = (clearFrames bits bank).card := by
  have split : clearFrames bits bank =
      clearFrames bits' bank ∪ Finset.Ico start (start + len) := by
    ext i
    simp only [clearFrames, Finset.mem_union, Finset.mem_filter, Finset.mem_range, Finset.mem_Ico]
    constructor
    · rintro ⟨frame, isClear⟩
      by_cases window : start ≤ i ∧ i < start + len
      · exact Or.inr window
      · exact Or.inl ⟨frame, by rw [assigned i frame, if_neg window, isClear]⟩
    · rintro (⟨frame, isClear⟩ | ⟨low, high⟩)
      · rw [assigned i frame] at isClear
        split_ifs at isClear
        exact ⟨frame, isClear⟩
      · exact ⟨by omega, clear i low high⟩
  have apart : Disjoint (clearFrames bits' bank) (Finset.Ico start (start + len)) := by
    rw [Finset.disjoint_left]
    intro i isClear window
    simp only [clearFrames, Finset.mem_filter, Finset.mem_range] at isClear
    rw [Finset.mem_Ico] at window
    rw [assigned i isClear.1, if_pos window] at isClear
    simp at isClear
  rw [split, Finset.card_union_of_disjoint apart, card_Ico]
  omega

/-! ## Live ranges -/

/-- A range handed out by an allocation of the given order, or reserved. -/
structure LiveRange where
  pa : Nat
  size : Nat
  order : Nat
  deriving DecidableEq, Repr

def LiveRange.span (range : LiveRange) : Span := ⟨range.pa, range.pa + range.size⟩

def liveCoverage (live : List LiveRange) (point : Nat) : Nat :=
  coverage (live.map LiveRange.span) point

@[simp] theorem liveCoverage_cons (range : LiveRange) (live : List LiveRange) (point : Nat) :
    liveCoverage (range :: live) point = range.span.weight point + liveCoverage live point := by
  simp [liveCoverage]

/-- A bank that ends below the top of the address space and has a bitmap whose
positions fit an `int`. -/
structure BankLayout.Valid (bank : BankLayout) : Prop where
  startAligned : pageSize ∣ bank.start
  sizeAligned : pageSize ∣ bank.size
  frames : bank.frameCount = bank.size / pageSize
  small : bank.frameCount + 64 ≤ 2 ^ 31
  top : bank.start + bank.size < 2 ^ 64

theorem BankLayout.Valid.size_eq {bank : BankLayout} (valid : bank.Valid) :
    bank.size = bank.frameCount * pageSize := by
  rw [valid.frames, Nat.div_mul_cancel valid.sizeAligned]

def BankLayout.span (bank : BankLayout) : Span := ⟨bank.start, bank.start + bank.size⟩

/-- Banks do not overlap, and neither do their bitmaps. -/
structure LayoutValid (banks : List BankLayout) : Prop where
  each : ∀ bank ∈ banks, bank.Valid
  bitmaps : banks.Pairwise fun a b => a.bmap + a.frameCount ≤ b.bmap
  apart : banks.Pairwise fun a b => a.span.Apart b.span

structure LiveRange.Placed (banks : List BankLayout) (range : LiveRange) : Prop where
  inside : ∃ bank ∈ banks, bank.start ≤ range.pa ∧ range.pa + range.size ≤ bank.start + bank.size
  aligned : 2 ^ range.order ∣ range.pa
  page : pageSize ∣ range.pa
  pages : pageSize ∣ range.size

structure RamOk (ram : HostRam) (live : List LiveRange) : Prop where
  layout : LayoutValid ram.layout
  placed : ∀ range ∈ live, range.Placed ram.layout
  single : ∀ point, liveCoverage live point ≤ 1
  bit : ∀ bank ∈ ram.layout, ∀ i < bank.frameCount, ram.bits (bank.bmap + i) = true ↔
    0 < liveCoverage live (bank.start + i * pageSize)
  free : ∀ bank ∈ ram.banks, bank.bmapFree = (clearFrames ram.bits bank.toBankLayout).card

theorem pageSize_pos : 0 < pageSize := Nat.two_pow_pos _

variable {banks : List BankLayout} {range : LiveRange}

theorem weight_page (placed : range.Placed banks)
    (point : Nat) : range.span.weight (point - point % pageSize) = range.span.weight point := by
  obtain ⟨p, isP⟩ := placed.page
  obtain ⟨q, isQ⟩ := placed.pages
  have rounded := div_add_mod point pageSize
  have floor : point - point % pageSize = pageSize * (point / pageSize) := by omega
  have lower : pageSize * p ≤ point ↔ p ≤ point / pageSize := by
    rw [le_div_iff_mul_le pageSize_pos, mul_comm]
  have upper : point < pageSize * (p + q) ↔ point / pageSize < p + q := by
    rw [div_lt_iff_lt_mul pageSize_pos, mul_comm]
  simp only [Span.weight, LiveRange.span, isP, isQ, ← mul_add, floor, lower, upper,
    Nat.mul_le_mul_left_iff pageSize_pos, Nat.mul_lt_mul_left pageSize_pos]

theorem liveCoverage_page {live : List LiveRange} (placed : ∀ range ∈ live, range.Placed banks)
    (point : Nat) : liveCoverage live (point - point % pageSize) = liveCoverage live point := by
  induction live with
  | nil => rfl
  | cons range live ih =>
    rw [liveCoverage_cons, liveCoverage_cons, weight_page (placed range (by simp)),
      ih fun other mem => placed other (by simp [mem])]

/-! ## Changing one window of one bank -/

section Reassign

variable {ram : HostRam} {live live' : List LiveRange} {before after : List HostRamBank}
  {bank : HostRamBank} {start len free : Nat} {value : Bool}

theorem layout_split (split : ram.banks = before ++ bank :: after) :
    ram.layout = before.map toBankLayout ++ bank.toBankLayout ::
      after.map HostRamBank.toBankLayout := by
  simp [HostRam.layout, split]

theorem inWindow_iff (base i : Nat) :
    base + start * pageSize ≤ base + i * pageSize ∧
      base + i * pageSize < base + (start + len) * pageSize ↔ start ≤ i ∧ i < start + len := by
  simp only [Nat.add_le_add_iff_left, Nat.add_lt_add_iff_left,
    Nat.mul_le_mul_right_iff pageSize_pos, Nat.mul_lt_mul_right pageSize_pos]

section

variable (ok : RamOk ram live) (split : ram.banks = before ++ bank :: after)
include ok split

theorem RamOk.valid_of_split :
    bank.toBankLayout.Valid := ok.layout.each _ (by simp [layout_split split])

theorem RamOk.beside {other : BankLayout} (mem : other ∈ before.map toBankLayout ++
      after.map toBankLayout) {i : Nat} (frame : i < other.frameCount)
    (inside : start + len ≤ bank.frameCount) :
    ¬ ((bank.bmap + start : Int) ≤ other.bmap + i ∧ (other.bmap + i : Int) < bank.bmap + start + len) ∧
    ¬ (bank.start + start * pageSize ≤ other.start + i * pageSize ∧
      other.start + i * pageSize < bank.start + (start + len) * pageSize) := by
  have bitmaps := ok.layout.bitmaps
  have apart := ok.layout.apart
  have validOther : other.Valid := ok.layout.each other (by
    rw [layout_split split]
    simp only [mem_append, mem_cons] at mem ⊢
    tauto)
  have valid := ok.valid_of_split split
  rw [layout_split split, pairwise_append] at bitmaps apart
  simp only [pairwise_cons, mem_cons] at bitmaps apart
  have relation : (other.bmap + other.frameCount ≤ bank.bmap ∨
      bank.bmap + bank.frameCount ≤ other.bmap) ∧ bank.span.Apart other.span := by
    rcases mem_append.mp mem with inBefore | inAfter
    · exact ⟨Or.inl (bitmaps.2.2 other inBefore _ (Or.inl rfl)),
        (apart.2.2 other inBefore _ (Or.inl rfl)).symm⟩
    · exact ⟨Or.inr (bitmaps.2.1.1 other inAfter), apart.2.1.1 other inAfter⟩
  refine ⟨by omega, ?_⟩
  rintro ⟨low, high⟩
  have page : (i + 1) * pageSize ≤ other.frameCount * pageSize := mul_le_mul_right _ frame
  have window : (start + len) * pageSize ≤ bank.frameCount * pageSize :=
    mul_le_mul_right _ inside
  have pos := pageSize_pos
  refine relation.2 (other.start + i * pageSize) ?_
  simp only [Span.covers_iff, BankLayout.span, valid.size_eq, validOther.size_eq]
  rw [add_mul, one_mul] at page
  omega

/-- Writing one window of one bank keeps the invariant when the new live ranges agree
with the new bits on the window and with the old ranges elsewhere. -/
theorem RamOk.reassign (inside : start + len ≤ bank.frameCount)
    (placed : ∀ range ∈ live', range.Placed ram.layout)
    (single : ∀ point, liveCoverage live' point ≤ 1) (window : ∀ i, start ≤ i → i < start + len →
      (value = true ↔ 0 < liveCoverage live' (bank.start + i * pageSize)))
    (elsewhere : ∀ point, ¬ (bank.start + start * pageSize ≤ point ∧
      point < bank.start + (start + len) * pageSize) →
      liveCoverage live' point = liveCoverage live point)
    (count : free = (clearFrames (bitmapAssign value bank.bmap start len ram.bits)
      bank.toBankLayout).card) : RamOk ⟨before ++ { bank with bmapFree := free } :: after,
      bitmapAssign value bank.bmap start len ram.bits⟩ live' := by
  have assigned := bitmapAssign_apply value bank.bmap start len ram.bits
  generalize bitmapAssign value bank.bmap start len ram.bits = bits at assigned count ⊢
  have sameLayout : HostRam.layout ⟨before ++ { bank with bmapFree := free } :: after, bits⟩ =
      ram.layout := by
    simp [HostRam.layout, split]
  have others : ∀ other ∈ before.map toBankLayout ++ after.map toBankLayout,
      ∀ i < other.frameCount, bits (other.bmap + i) = ram.bits (other.bmap + i) := by
    intro other mem i frame
    rw [assigned, if_neg (ok.beside split mem frame inside).1]
  refine ⟨sameLayout ▸ ok.layout, fun range isLive => sameLayout ▸ placed range isLive, single,
    ?_, ?_⟩
  · intro other mem i frame
    rw [sameLayout, layout_split split, mem_append, mem_cons] at mem
    have member : other ∈ ram.layout := by
      rw [layout_split split, mem_append, mem_cons]
      exact mem
    change bits (other.bmap + i) = true ↔ _
    by_cases own : other = bank.toBankLayout
    · subst own
      rw [assigned]
      by_cases hit : start ≤ i ∧ i < start + len
      · rw [if_pos (by omega)]
        exact window i hit.1 hit.2
      · rw [if_neg (by omega), ok.bit _ member i frame, elsewhere]
        rwa [inWindow_iff]
    · have apart : other ∈ before.map toBankLayout ++
          after.map HostRamBank.toBankLayout := by
        rw [mem_append]
        tauto
      rw [others other apart i frame, ok.bit other member i frame,
        elsewhere _ (ok.beside split apart frame inside).2]
  · intro other mem
    have kept : ∀ b : HostRamBank, b ∈ before ∨ b ∈ after →
        b.bmapFree = (clearFrames bits b.toBankLayout).card := by
      intro b isOther
      rw [ok.free b (by rw [split, mem_append, mem_cons]; tauto)]
      congr 1
      refine Finset.filter_congr ?_
      intro i frame
      rw [others b.toBankLayout (by
        rw [mem_append, mem_map, mem_map]
        exact isOther.imp (fun h => ⟨b, h, rfl⟩) fun h => ⟨b, h, rfl⟩) i (Finset.mem_range.mp frame)]
    simp only [mem_append, mem_cons] at mem
    rcases mem with inBefore | rfl | inAfter
    · exact kept other (Or.inl inBefore)
    · exact count
    · exact kept other (Or.inr inAfter)

end

theorem liveRange_weight (bank : HostRamBank) (pa : range.pa = bank.start + start * pageSize)
    (size : range.size = len * pageSize) (point : Nat) :
    range.span.weight point = if bank.start + start * pageSize ≤ point ∧
      point < bank.start + (start + len) * pageSize then 1 else 0 := by
  simp only [Span.weight, LiveRange.span, pa, size, add_mul, add_assoc]

theorem RamOk.claim (ok : RamOk ram live) (split : ram.banks = before ++ bank :: after)
    (inside : start + len ≤ bank.frameCount)
    (clear : ∀ i, start ≤ i → i < start + len → ram.bits (bank.bmap + i) = false)
    {order : Nat} (aligned : 2 ^ order ∣ bank.start + start * pageSize) :
    RamOk ⟨before ++ { bank with bmapFree := bank.bmapFree - len } :: after,
        bitmapAssign true bank.bmap start len ram.bits⟩
      (⟨bank.start + start * pageSize, len * pageSize, order⟩ :: live) := by
  have member : bank.toBankLayout ∈ ram.layout := by simp [layout_split split]
  have valid := ok.valid_of_split split
  have weight : ∀ point, (LiveRange.mk (bank.start + start * pageSize) (len * pageSize)
      order).span.weight point = _ := liveRange_weight bank rfl rfl
  -- no live range covers a point of the window: its frame's bit is clear
  have fresh : ∀ point, bank.start + start * pageSize ≤ point ∧
      point < bank.start + (start + len) * pageSize → liveCoverage live point = 0 := by
    rintro point ⟨low, high⟩
    obtain ⟨d, rfl⟩ := Nat.exists_eq_add_of_le (Nat.le_of_add_right_le low)
    have floor : bank.start + d - (bank.start + d) % pageSize =
        bank.start + d / pageSize * pageSize := by
      obtain ⟨p, isP⟩ := valid.startAligned
      have rounded := div_add_mod' d pageSize
      rw [isP, mul_add_mod]
      omega
    have lowFrame : start ≤ d / pageSize := (le_div_iff_mul_le pageSize_pos).mpr (by omega)
    have highFrame : d / pageSize < start + len := (div_lt_iff_lt_mul pageSize_pos).mpr (by omega)
    rw [← liveCoverage_page ok.placed, floor]
    have isClear := clear _ lowFrame highFrame
    have := (ok.bit _ member (d / pageSize) (by omega)).not.mp (by rw [isClear]; decide)
    omega
  refine ok.reassign split inside ?_ ?_ ?_ ?_ ?_
  · intro range mem
    rcases mem_cons.mp mem with rfl | isLive
    · refine ⟨⟨bank.toBankLayout, member, le_add_right _ _, ?_⟩, aligned, ?_, dvd_mul_left _ _⟩
      · have : (start + len) * pageSize ≤ bank.frameCount * pageSize := mul_le_mul_right _ inside
        rw [valid.size_eq, add_assoc, ← add_mul]
        omega
      · exact dvd_add valid.startAligned (dvd_mul_left _ _)
    · exact ok.placed range isLive
  · intro point
    rw [liveCoverage_cons, weight]
    split_ifs with hit
    · rw [fresh point hit]
    · rw [zero_add]
      exact ok.single point
  · intro i low high
    rw [liveCoverage_cons, weight, if_pos]
    · simp
    · exact (inWindow_iff _ _).mpr ⟨low, high⟩
  · intro point outside
    rw [liveCoverage_cons, weight, if_neg outside, zero_add]
  · have counted := card_clearFrames_set ram.bits (bitmapAssign true bank.bmap start len ram.bits)
      bank.toBankLayout inside clear (fun i _ => by
        rw [bitmapAssign_apply]
        congr 1
        exact propext (by omega))
    have free := ok.free bank (by simp [split])
    omega

theorem RamOk.release (ok : RamOk ram live) (split : ram.banks = before ++ bank :: after)
    (inside : start + len ≤ bank.frameCount) (isLive : range ∈ live)
    (pa : range.pa = bank.start + start * pageSize) (size : range.size = len * pageSize) :
    RamOk ⟨before ++ { bank with bmapFree := bank.bmapFree + len } :: after,
      bitmapAssign false bank.bmap start len ram.bits⟩ (live.erase range) := by
  have member : bank.toBankLayout ∈ ram.layout := by simp [layout_split split]
  have weight := liveRange_weight bank pa size
  have removed : ∀ point, liveCoverage live point =
      range.span.weight point + liveCoverage (live.erase range) point := by
    intro point
    rw [← liveCoverage_cons]
    exact coverage_perm ((perm_cons_erase isLive).map _) point
  have emptied : ∀ i, start ≤ i → i < start + len →
      liveCoverage (live.erase range) (bank.start + i * pageSize) = 0 := by
    intro i low high
    have single := ok.single (bank.start + i * pageSize)
    rw [removed, weight, if_pos ((inWindow_iff _ _).mpr ⟨low, high⟩)] at single
    omega
  refine ok.reassign split inside (fun other kept => ok.placed other (mem_of_mem_erase kept))
    ?_ ?_ ?_ ?_
  · intro point
    have single := ok.single point
    rw [removed] at single
    omega
  · intro i low high
    rw [emptied i low high]
    simp
  · intro point outside
    rw [removed, weight, if_neg outside, zero_add]
  · have free := ok.free bank (by simp [split])
    have wasSet : ∀ i, start ≤ i → i < start + len → ram.bits (bank.bmap + i) = true := by
      intro i low high
      rw [ok.bit _ member i (by omega), removed, weight,
        if_pos ((inWindow_iff _ _).mpr ⟨low, high⟩)]
      omega
    have counted := card_clearFrames_set (bitmapAssign false bank.bmap start len ram.bits) ram.bits
      bank.toBankLayout inside
      (fun i low high => by rw [bitmapAssign_apply, if_pos (by omega)])
      (fun i _ => by
        rw [bitmapAssign_apply]
        by_cases hit : start ≤ i ∧ i < start + len
        · rw [if_pos hit, wasSet i hit.1 hit.2]
        · rw [if_neg hit, if_neg (by omega)])
    omega

end Reassign

end Xvisor.Host
