import Xvisor.Host.Ram
import Xvisor.Lib.System

/-!
# The operations of the host RAM allocator keep the invariant

The search accepts a window by its bits and never compares its end with the end of the bank.
-/

namespace Xvisor.Host

open List Lib Word Nat

variable {ram ram' : HostRam} {live : List LiveRange} {request : Request}

/-! ## The search -/

variable {frames binc fuel bpos pa size order bmap start len : Nat} {accepts : Nat → Bool}

theorem scanBank_found {p : Nat} (noWrap : frames + binc ≤ 2 ^ 32)
    (found : scanBank accepts frames binc fuel bpos = .found p) :
    ∃ k, p = bpos + k * binc ∧ p < frames ∧ accepts p = true ∧
      ∀ j < k, accepts (bpos + j * binc) = false := by
  induction fuel generalizing bpos with
  | zero =>
    unfold scanBank at found
    split_ifs at found
  | succ fuel ih =>
    unfold scanBank at found
    split_ifs at found with inside accepted
    · cases found
      exact ⟨0, by omega, inside, accepted, by simp⟩
    · rw [toU32_of_lt (by omega)] at found
      obtain ⟨k, isPos, below, accepts, refused⟩ := ih found
      refine ⟨k + 1, by rw [isPos, add_mul]; omega, below, accepts, ?_⟩
      intro j before
      cases j with
      | zero => simpa using accepted
      | succ j =>
        have := refused j (by omega)
        rwa [add_assoc, add_comm binc, ← succ_mul] at this

theorem scanBank_missed (noWrap : frames + binc ≤ 2 ^ 32)
    (missed : scanBank accepts frames binc fuel bpos = .missed) (k : Nat)
    (inside : bpos + k * binc < frames) : accepts (bpos + k * binc) = false := by
  induction fuel generalizing bpos k with
  | zero =>
    unfold scanBank at missed
    split_ifs at missed
    omega
  | succ fuel ih =>
    unfold scanBank at missed
    split_ifs at missed with low accepted
    · rw [toU32_of_lt (by omega)] at missed
      cases k with
      | zero => simpa using accepted
      | succ k =>
        have further : bpos + binc + k * binc = bpos + (k + 1) * binc := by
          rw [add_mul]
          omega
        rw [← further] at inside ⊢
        exact ih missed k inside
    · omega

variable {bank : HostRamBank}

theorem LayoutValid.noWrap (valid : LayoutValid ram.layout) (step : binc ≤ 2 ^ 31)
    (mem : bank ∈ ram.banks) : bank.size / pageSize + binc ≤ 2 ^ 32 := by
  have each := valid.each bank.toBankLayout (mem_map_of_mem mem)
  have small := each.small
  rw [← each.frames]
  omega

namespace Request

section

variable (request : Request)

def Candidate (bank : HostRamBank) (bpos : Nat) : Prop :=
  ∃ k, bpos = request.firstPos bank + k * request.binc ∧ bpos < bank.size / pageSize

def scan (bits : Int → Bool) (bank : HostRamBank) : Scan :=
  scanBank (request.accepts bits bank) (bank.size / pageSize) request.binc
    (bank.size / pageSize) (request.firstPos bank)

def Passes (bits : Int → Bool) (bank : HostRamBank) : Prop :=
  bank.bmapFree < request.bcnt ∨ request.scan bits bank = .missed

/-- Every accepted window that runs past the end of its bank comes after an accepted
window: the one the search stops at ends inside its bank. -/
def Contained (ram : HostRam) : Prop :=
  ∀ before bank after, ram.banks = before ++ bank :: after → request.bcnt ≤ bank.bmapFree →
    ∀ bpos, request.Candidate bank bpos → request.accepts ram.bits bank bpos = true →
      bank.size / pageSize < bpos + request.bcnt →
      (∃ earlier < bpos, request.Candidate bank earlier ∧
        request.accepts ram.bits bank earlier = true) ∨
      ∃ other ∈ before, request.bcnt ≤ other.bmapFree ∧ ∃ earlier,
        request.Candidate other earlier ∧ request.accepts ram.bits other earlier = true

end

end Request

structure AllocatedAt (request : Request) (banks : List HostRamBank) (bits : Int → Bool)
    (before : List HostRamBank) (bank : HostRamBank) (after : List HostRamBank) (bpos : Nat)
    (ram' : HostRam) (pa size : Nat) : Prop where
  split : banks = before ++ bank :: after
  passed : ∀ other ∈ before, request.Passes bits other
  enough : request.bcnt ≤ bank.bmapFree
  found : request.scan bits bank = .found bpos
  result : ram' = ⟨before ++ { bank with bmapFree := bank.bmapFree - request.bcnt } :: after,
    bitmapSet bits bank.bmap bpos request.bcnt⟩
  address : pa = Request.address bank bpos
  size : size = request.size

variable {bits : Int → Bool}

theorem allocFromBanks_allocated {passed rest : List HostRamBank}
    (quiet : ∀ bank ∈ passed, request.Passes bits bank)
    (allocated : allocFromBanks request bits passed rest = .allocated ram' pa size) :
    ∃ before bank after bpos,
      AllocatedAt request (passed ++ rest) bits before bank after bpos ram' pa size := by
  induction rest generalizing passed with
  | nil => simp [allocFromBanks] at allocated
  | cons bank rest ih =>
    have regroup : passed ++ bank :: rest = passed ++ [bank] ++ rest := by simp
    have grown : request.Passes bits bank →
        ∀ other ∈ passed ++ [bank], request.Passes bits other := by
      intro passes
      exact forall_mem_append.mpr ⟨quiet, forall_mem_singleton.mpr passes⟩
    unfold allocFromBanks at allocated
    split_ifs at allocated with few
    · rw [regroup]
      exact ih (grown (Or.inl few)) allocated
    · cases scanned : request.scan bits bank with
      | found bpos =>
        rw [Request.scan] at scanned
        simp only [scanned, AllocOutcome.allocated.injEq] at allocated
        obtain ⟨rfl, rfl, rfl⟩ := allocated
        exact ⟨passed, bank, rest, bpos, rfl, quiet, by omega, scanned, rfl, rfl, rfl⟩
      | missed =>
        have passes : request.Passes bits bank := Or.inr scanned
        rw [Request.scan] at scanned
        simp only [scanned] at allocated
        rw [regroup]
        exact ih (grown passes) allocated
      | hangs =>
        rw [Request.scan] at scanned
        simp [scanned] at allocated

/-! ## Allocation -/

/-- The request fits its 32-bit variables and the search stays inside the banks. -/
structure Request.Sound (request : Request) (ram : HostRam) : Prop where
  pages : request.size < 2 ^ 44
  starts : ∀ bank ∈ ram.layout, bank.start % 2 ^ request.order < 2 ^ 32
  contained : request.Contained ram

theorem roundup2OrderSize_dvd (word : order ≤ 64) : 2 ^ order ∣ roundup2OrderSize size order := by
  unfold roundup2OrderSize
  split_ifs with ragged
  · refine (dvd_mod_iff (pow_dvd_pow 2 word)).mpr ?_
    exact dvd_add (dvd_alignDown size order) dvd_rfl
  · exact dvd_of_mod_eq_zero (not_not.mp ragged)

theorem roundup2OrderSize_of_dvd (whole : 2 ^ order ∣ size) :
    roundup2OrderSize size order = size := by
  simp [roundup2OrderSize, mod_eq_zero_of_dvd whole]

theorem roundup2OrderSize_bounds {bound : Nat} (whole : 2 ^ order ∣ bound) (below : size ≤ bound)
    (word : bound < 2 ^ 64) :
    size ≤ roundup2OrderSize size order ∧ roundup2OrderSize size order ≤ bound := by
  obtain ⟨blocks, rfl⟩ := whole
  unfold roundup2OrderSize
  split_ifs with ragged
  · have floor := div_add_mod size (2 ^ order)
    have next : 2 ^ order * (size / 2 ^ order + 1) ≤ 2 ^ order * blocks := by
      refine mul_le_mul_left _ ((div_lt_iff_lt_mul (Nat.two_pow_pos order)).mpr ?_)
      rw [mul_comm blocks]
      refine lt_of_le_of_ne below fun same => ragged ?_
      rw [same, mul_mod_right]
    rw [mul_add, mul_one] at next
    unfold alignDown
    rw [add_of_lt (by omega)]
    omega
  · exact ⟨le_rfl, below⟩

theorem sizeToPage_of_dvd (whole : pageSize ∣ size) : sizeToPage size = size / pageSize := by
  simp [sizeToPage, mod_eq_zero_of_dvd whole]

/-- A request for a positive number of whole pages, with everything in range. -/
structure Request.Exact (request : Request) : Prop where
  low : pageShift ≤ request.order
  high : request.order ≤ 43
  positive : 0 < request.size
  whole : 2 ^ request.order ∣ request.size
  pages : request.size < 2 ^ 44

theorem exact_of_roundup2OrderSize (colorMatch : Nat → Nat → Bool) (low : pageShift ≤ order)
    (high : order < 64) (positive : 0 < roundup2OrderSize size order)
    (pages : roundup2OrderSize size order < 2 ^ 44) :
    Request.Exact ⟨roundup2OrderSize size order, order, colorMatch⟩ := by
  have whole : 2 ^ order ∣ roundup2OrderSize size order := roundup2OrderSize_dvd (by omega)
  have atLeast := le_of_dvd positive whole
  refine ⟨low, ?_, positive, whole, pages⟩
  by_contra large
  have : 2 ^ 44 ≤ 2 ^ order := Nat.pow_le_pow_right (by omega) (by simp only at large; omega)
  omega

namespace Request.Exact

variable (exact : request.Exact)
include exact

theorem page_dvd_order : pageSize ∣ 2 ^ request.order := pow_dvd_pow 2 exact.low

theorem bcnt_mul : request.bcnt * pageSize = request.size := by
  have whole := exact.page_dvd_order.trans exact.whole
  have bound := exact.pages
  have small : request.size / pageSize < 2 ^ 32 :=
    (div_lt_iff_lt_mul pageSize_pos).mpr (by simpa [pageSize, pageShift] using bound)
  rw [Request.bcnt, sizeToPage_of_dvd whole, toU32_of_lt small, Nat.div_mul_cancel whole]

theorem binc_mul : request.binc * pageSize = 2 ^ request.order ∧ request.binc ≤ 2 ^ 31 := by
  have high := exact.high
  have low := exact.low
  have quotient : 2 ^ request.order / pageSize = 2 ^ (request.order - pageShift) :=
    Nat.pow_div low (by omega)
  have small : 2 ^ (request.order - pageShift) ≤ 2 ^ 31 :=
    Nat.pow_le_pow_right (by omega) (by simp only [pageShift]; omega)
  rw [Request.binc, quotient, toU32_of_lt (by omega)]
  refine ⟨?_, small⟩
  rw [pageSize, ← pow_add, Nat.sub_add_cancel low]

theorem firstPos_aligned {bank : HostRamBank} (startAligned : pageSize ∣ bank.start)
    (small : bank.start % 2 ^ request.order < 2 ^ 32) :
    2 ^ request.order ∣ bank.start + request.firstPos bank * pageSize := by
  have rounded := div_add_mod bank.start (2 ^ request.order)
  unfold Request.firstPos
  simp only [toU32_of_lt small]
  split_ifs with ragged
  · have wholeRest : pageSize ∣ bank.start % 2 ^ request.order :=
      (dvd_mod_iff exact.page_dvd_order).mpr startAligned
    have wholeGap : pageSize ∣ 2 ^ request.order - bank.start % 2 ^ request.order :=
      dvd_sub exact.page_dvd_order wholeRest
    have orderBound : 2 ^ request.order ≤ 2 ^ 43 := Nat.pow_le_pow_right (by omega) exact.high
    have fits : (2 ^ request.order - bank.start % 2 ^ request.order) / pageSize < 2 ^ 32 :=
      (div_lt_iff_lt_mul pageSize_pos).mpr (by simp only [pageSize, pageShift]; omega)
    rw [sizeToPage_of_dvd wholeGap, toU32_of_lt fits, Nat.div_mul_cancel wholeGap]
    refine ⟨bank.start / 2 ^ request.order + 1, ?_⟩
    rw [mul_add, mul_one]
    omega
  · rw [Nat.zero_mul, add_zero]
    exact dvd_of_mod_eq_zero (not_not.mp ragged)

end Request.Exact

theorem bitmapSet_eq (small : start + len < 2 ^ 31) :
    bitmapSet bits bmap start len = bitmapAssign true bmap start len bits := by
  rw [bitmapSet, toInt_of_lt (by omega), toInt_of_lt (by omega), Int.toNat_natCast]

theorem bitmapClear_eq (small : start + len < 2 ^ 31) :
    bitmapClear bits bmap start len = bitmapAssign false bmap start len bits := by
  rw [bitmapClear, toInt_of_lt (by omega), toInt_of_lt (by omega), Int.toNat_natCast]

variable {before after : List HostRamBank}

theorem AllocatedAt.accepted (valid : LayoutValid ram.layout) (stepBound : request.binc ≤ 2 ^ 31)
    (found : AllocatedAt request ram.banks ram.bits before bank after bpos ram' pa size) :
    ∃ k, bpos = request.firstPos bank + k * request.binc ∧ bpos < bank.size / pageSize ∧
      request.accepts ram.bits bank bpos = true ∧
      ∀ j < k, request.accepts ram.bits bank (request.firstPos bank + j * request.binc) = false :=
  scanBank_found (valid.noWrap stepBound (by simp [found.split])) found.found

theorem AllocatedAt.inside (valid : LayoutValid ram.layout) (stepBound : request.binc ≤ 2 ^ 31)
    (contained : request.Contained ram)
    (found : AllocatedAt request ram.banks ram.bits before bank after bpos ram' pa size) :
    bpos + request.bcnt ≤ bank.frameCount ∧ request.accepts ram.bits bank bpos = true ∧
      ∃ k, bpos = request.firstPos bank + k * request.binc := by
  obtain ⟨k, isPos, below, accepted, refused⟩ := found.accepted valid stepBound
  refine ⟨?_, accepted, k, isPos⟩
  rw [(valid.each bank.toBankLayout (by simp [layout_split found.split])).frames]
  by_contra beyond
  rcases contained before bank after found.split found.enough bpos ⟨k, isPos, below⟩ accepted
    (by omega) with ⟨earlier, less, ⟨j, isEarlier, -⟩, also⟩ | ⟨other, inBefore, enough, earlier,
      ⟨j, isEarlier, inside⟩, also⟩
  · have first : j < k := by
      rw [isPos, isEarlier] at less
      exact Nat.lt_of_mul_lt_mul_right (Nat.lt_of_add_lt_add_left less)
    rw [isEarlier, refused j first] at also
    exact Bool.false_ne_true also
  · rcases found.passed other inBefore with few | missed
    · omega
    · have here : other ∈ ram.banks := by simp [found.split, inBefore]
      rw [isEarlier] at also inside
      rw [scanBank_missed (valid.noWrap stepBound here) missed j inside] at also
      exact Bool.false_ne_true also

theorem AllocatedAt.ramOk (ok : RamOk ram live) (exact : request.Exact) (sound : request.Sound ram)
    (found : AllocatedAt request ram.banks ram.bits before bank after bpos ram' pa size) :
    RamOk ram' (⟨pa, size, request.order⟩ :: live) := by
  obtain ⟨inside, accepted, k, isPos⟩ := found.inside ok.layout exact.binc_mul.2 sound.contained
  have valid := ok.valid_of_split found.split
  have small := valid.small
  have member : bank.toBankLayout ∈ ram.layout := by simp [layout_split found.split]
  have clear := (windowFree_eq_iff (by omega)).mp
    (of_decide_eq_true (Bool.and_eq_true_iff.mp accepted).1)
  have aligned : 2 ^ request.order ∣ bank.start + bpos * pageSize := by
    rw [isPos, add_mul, mul_assoc, exact.binc_mul.1, ← add_assoc]
    exact dvd_add (exact.firstPos_aligned valid.startAligned (sound.starts _ member))
      (dvd_mul_left _ _)
  have address : pa = bank.start + bpos * pageSize := by
    have room : bpos * pageSize ≤ bank.frameCount * pageSize := mul_le_mul_right _ (by omega)
    have top := valid.top
    rw [valid.size_eq] at top
    rw [found.address, Request.address, add_of_lt (by omega)]
  have claimed := ok.claim found.split inside clear aligned
  rw [found.result, bitmapSet_eq (by omega), address, found.size, ← exact.bcnt_mul]
  exact claimed

/-- The live ranges after an allocation returned `size` bytes at `pa`; a returned size of
zero is a failure. -/
def addRange (live : List LiveRange) (pa size order : Nat) : List LiveRange :=
  if size = 0 then live else ⟨pa, size, order⟩ :: live

variable {colorMatch : Nat → Nat → Bool}

theorem hostRamAllocColored_ramOk {returned : Nat}
    (ok : RamOk ram live)
    (sound : Request.Sound ⟨roundup2OrderSize size order, order, colorMatch⟩ ram)
    (allocated : hostRamAllocColored ram size order colorMatch = .allocated ram' pa returned) :
    RamOk ram' (addRange live pa returned order) := by
  unfold hostRamAllocColored at allocated
  split_ifs at allocated with refused
  obtain ⟨before, bank, after, bpos, found⟩ := allocFromBanks_allocated (by simp) allocated
  rw [nil_append] at found
  have isSize : returned = roundup2OrderSize size order := found.size
  unfold addRange
  split_ifs with nothing
  · -- the rounded size wrapped to zero: no bit and no counter changes
    rw [isSize] at nothing
    have noPages : Request.bcnt ⟨roundup2OrderSize size order, order, colorMatch⟩ = 0 := by
      simp [Request.bcnt, nothing, sizeToPage, toU32]
    have same : ram' = ram := by
      rw [found.result, noPages]
      have kept := found.split
      cases ram with
      | mk banks bits =>
        subst kept
        rfl
    rw [same]
    exact ok
  · have exact := exact_of_roundup2OrderSize colorMatch (by omega) (by omega)
      (pos_of_ne_zero (isSize ▸ nothing)) sound.pages
    exact found.ramOk ok exact sound

/-! ## Reservation and free -/

theorem holdsRange_iff (valid : bank.toBankLayout.Valid) (noWrap : pa + size < 2 ^ 64) :
    holdsRange pa size bank = true ↔ bank.start ≤ pa ∧ pa + size ≤ bank.start + bank.size := by
  unfold holdsRange
  rw [add_of_lt noWrap, add_of_lt valid.top, decide_eq_true_iff]
  omega

theorem framePos_range (valid : bank.toBankLayout.Valid) (page : pageSize ∣ pa)
    (pages : pageSize ∣ size) (low : bank.start ≤ pa) (high : pa + size ≤ bank.start + bank.size) :
    pa = bank.start + framePos pa bank * pageSize ∧ size = toU32 (sizeToPage size) * pageSize ∧
      framePos pa bank + toU32 (sizeToPage size) ≤ bank.frameCount := by
  have offset : pageSize ∣ pa - bank.start := dvd_sub page valid.startAligned
  obtain ⟨p, isP⟩ := offset
  obtain ⟨q, isQ⟩ := pages
  have small := valid.small
  have room : p + q ≤ bank.frameCount := by
    rw [valid.size_eq] at high
    refine le_of_mul_le_mul_left (?_ : pageSize * (p + q) ≤ pageSize * _) pageSize_pos
    rw [mul_add, mul_comm pageSize bank.frameCount]
    omega
  have position : framePos pa bank = p := by
    rw [framePos, isP, Nat.mul_div_cancel_left _ pageSize_pos, toU32_of_lt (by omega)]
  have count : toU32 (sizeToPage size) = q := by
    rw [sizeToPage_of_dvd ⟨q, isQ⟩, isQ, Nat.mul_div_cancel_left _ pageSize_pos,
      toU32_of_lt (by omega)]
  rw [position, count, mul_comm p, mul_comm q]
  omega

theorem vmmHostRamReserve_ramOk (ok : RamOk ram live) (page : pageSize ∣ pa)
    (pages : pageSize ∣ size) (noWrap : pa + size < 2 ^ 64) :
    RamOk (vmmHostRamReserve ram pa size).1
      (if (vmmHostRamReserve ram pa size).2 = .ok then ⟨pa, size, pageShift⟩ :: live else live) := by
  unfold vmmHostRamReserve
  cases located : splitAtFirst (holdsRange pa size) ram.banks with
  | none => simpa using ok
  | some result =>
    obtain ⟨before, bank, after⟩ := result
    obtain ⟨split, holds, -⟩ := splitAtFirst_some located
    have valid := ok.valid_of_split split
    obtain ⟨low, high⟩ := (holdsRange_iff valid noWrap).mp holds
    obtain ⟨position, count, inside⟩ := framePos_range valid page pages low high
    have small := valid.small
    by_cases few : bank.bmapFree < toU32 (sizeToPage size)
    · simpa [few] using ok
    · by_cases taken : windowFree ram.bits bank (framePos pa bank)
          (toU32 (sizeToPage size)) = toU32 (sizeToPage size)
      · simp only [few, taken, ne_eq, not_true_eq_false, reduceIte]
        have clear := (windowFree_eq_iff (by omega)).mp taken
        have aligned : 2 ^ pageShift ∣ bank.start + framePos pa bank * pageSize :=
          dvd_add valid.startAligned (dvd_mul_left _ _)
        have claimed := ok.claim split inside clear aligned
        rw [← position, ← count] at claimed
        rw [bitmapSet_eq (by omega)]
        exact claimed
      · simpa [few, taken] using ok

theorem vmmHostRamFree_ramOk {range : LiveRange} (ok : RamOk ram live) (isLive : range ∈ live) :
    RamOk (vmmHostRamFree ram range.pa range.size).1
      (if (vmmHostRamFree ram range.pa range.size).2 = .ok then live.erase range else live) := by
  have placed := ok.placed range isLive
  have noWrap : range.pa + range.size < 2 ^ 64 := by
    obtain ⟨bank, mem, -, high⟩ := placed.inside
    have := (ok.layout.each bank mem).top
    omega
  unfold vmmHostRamFree
  cases located : splitAtFirst (holdsRange range.pa range.size) ram.banks with
  | none => simpa using ok
  | some result =>
    obtain ⟨before, bank, after⟩ := result
    obtain ⟨split, holds, -⟩ := splitAtFirst_some located
    have valid := ok.valid_of_split split
    obtain ⟨low, high⟩ := (holdsRange_iff valid noWrap).mp holds
    obtain ⟨position, count, inside⟩ := framePos_range valid placed.page placed.pages low high
    have small := valid.small
    have released := ok.release split inside isLive position count
    have counted := released.free
      { bank with bmapFree := bank.bmapFree + toU32 (sizeToPage range.size) } (by simp)
    have fewer : bank.bmapFree + toU32 (sizeToPage range.size) ≤ bank.frameCount := by
      simp only at counted
      rw [counted]
      exact (Finset.card_filter_le _ _).trans (Finset.card_range _).le
    simp only [if_true]
    rw [bitmapClear_eq (by omega), toU32_of_lt (by omega : bank.bmapFree + _ < 2 ^ 32)]
    exact released

/-! ## Initialisation -/

/-- A bank of the device tree that ends below the top of the address space and whose
frames can be numbered by an `int`. -/
def BankFits (bank : Nat × Nat) : Prop :=
  bank.1 + bank.2 < 2 ^ 64 ∧ bank.2 / pageSize + 64 ≤ 2 ^ 31

def bankSpan (bank : Nat × Nat) : Span := ⟨bank.1, bank.1 + bank.2⟩

structure InitialBanks (hkbase : Nat) (bits bits' : Int → Bool) (banks : List HostRamBank) :
    Prop where
  each : ∀ bank ∈ banks, bank.toBankLayout.Valid ∧ hkbase ≤ bank.bmap ∧
    bank.bmapFree = bank.frameCount ∧ ∀ i < bank.frameCount, bits' (bank.bmap + i) = false
  bitmaps : banks.Pairwise fun a b => a.bmap + a.frameCount ≤ b.bmap
  frame : ∀ x, x < (hkbase : Int) → bits' x = bits x

variable {tree : List (Nat × Nat)}

theorem initBanks_initial {bits' : Int → Bool} {hkbase : Nat} {banks : List HostRamBank}
    (fits : ∀ bank ∈ tree, BankFits bank)
    (initialised : initBanks bits hkbase tree = some (banks, bits')) :
    InitialBanks hkbase bits bits' banks ∧
      banks.map (fun bank => bank.toBankLayout.span) = tree.map bankSpan := by
  induction tree generalizing bits hkbase banks with
  | nil =>
    simp only [initBanks, Option.some.injEq, Prod.mk.injEq] at initialised
    obtain ⟨rfl, rfl⟩ := initialised
    exact ⟨⟨by simp, List.Pairwise.nil, fun _ _ => rfl⟩, rfl⟩
  | cons entry tree ih =>
    obtain ⟨start, size⟩ := entry
    obtain ⟨top, small⟩ := fits (start, size) (by simp)
    unfold initBanks at initialised
    split_ifs at initialised with ragged
    simp only at top small
    rw [toU32_of_lt (by omega)] at initialised
    obtain ⟨⟨rest, bitsEnd⟩, initialisedRest, result⟩ := Option.map_eq_some_iff.mp initialised
    simp only [Prod.mk.injEq] at result
    obtain ⟨rfl, rfl⟩ := result
    obtain ⟨initial, spans⟩ := ih (fun bank inTree => fits bank (by simp [inTree])) initialisedRest
    have room : size / pageSize ≤ bitmapEstimateSize (size / pageSize) * 8 := by
      unfold bitmapEstimateSize
      omega
    have cleared : ∀ x : Int, bitmapAssign false hkbase 0
        (bitmapEstimateSize (size / pageSize) * 8) bits x =
        if (hkbase : Int) ≤ x ∧ x < hkbase + (bitmapEstimateSize (size / pageSize) * 8 : Nat)
          then false else bits x := by
      intro x
      have := bitmapAssign_apply false hkbase 0 (bitmapEstimateSize (size / pageSize) * 8) bits x
      simpa using this
    refine ⟨⟨?_, ?_, ?_⟩, ?_⟩
    · intro bank mem
      rcases mem_cons.mp mem with rfl | inRest
      · refine ⟨⟨?_, ?_, rfl, small, top⟩, le_rfl, rfl, ?_⟩
        · exact dvd_of_mod_eq_zero (by simp only; omega)
        · exact dvd_of_mod_eq_zero (by simp only; omega)
        · intro i frame
          simp only at frame ⊢
          rw [initial.frame _ (by push_cast; omega), cleared, if_pos (by push_cast; omega)]
      · obtain ⟨valid, above, free, clear⟩ := initial.each bank inRest
        exact ⟨valid, by omega, free, clear⟩
    · refine pairwise_cons.mpr ⟨?_, initial.bitmaps⟩
      intro bank inRest
      have above := (initial.each bank inRest).2.1
      simp only
      omega
    · intro x below
      rw [initial.frame x (by push_cast; omega), cleared, if_neg (by omega)]
    · simp only [map_cons, spans]
      rfl

theorem vmmHostRamInit_ramOk (fits : ∀ bank ∈ tree, BankFits bank)
    (apart : tree.Pairwise fun a b => (bankSpan a).Apart (bankSpan b))
    (initialised : vmmHostRamInit bits tree = some ram) : RamOk ram [] := by
  obtain ⟨⟨banks, bits'⟩, initialisedBanks, rfl⟩ := Option.map_eq_some_iff.mp initialised
  obtain ⟨initial, spans⟩ := initBanks_initial fits initialisedBanks
  refine ⟨⟨?_, ?_, ?_⟩, by simp, fun _ => zero_le _, ?_, ?_⟩
  · intro layout mem
    obtain ⟨bank, inBanks, rfl⟩ := mem_map.mp mem
    exact (initial.each bank inBanks).1
  · exact pairwise_map.mpr initial.bitmaps
  · have spansApart := pairwise_map.mpr apart
    rw [← spans, pairwise_map] at spansApart
    exact pairwise_map.mpr spansApart
  · intro layout mem i frame
    obtain ⟨bank, inBanks, rfl⟩ := mem_map.mp mem
    simp only [(initial.each bank inBanks).2.2.2 i frame]
    simp [liveCoverage]
  · intro bank inBanks
    obtain ⟨-, -, free, clear⟩ := initial.each bank inBanks
    have all : clearFrames bits' bank.toBankLayout = Finset.range bank.frameCount :=
      Finset.filter_true_of_mem fun i frame => clear i (Finset.mem_range.mp frame)
    rw [all, Finset.card_range, free]

/-! ## Runs

The state of a run carries the list of ranges handed out and not freed yet. -/

structure RamState where
  ram : HostRam
  live : List LiveRange

inductive RamCall where
  | alloc (size order : Nat)
  | colorAlloc (ops : ColorOps) (color : Nat)
  | reserve (pa size : Nat)
  | free (range : LiveRange)

variable (state : RamState)

/-- What the caller must respect: reservations are page aligned, and only a live range
is freed. -/
def RamCall.Admissible : RamCall → Prop
  | .alloc size _ => size < 2 ^ 64
  | .colorAlloc _ _ => True
  | .reserve pa size => pageSize ∣ pa ∧ pageSize ∣ size ∧ pa < 2 ^ 64 ∧ size < 2 ^ 64
  | .free range => range ∈ state.live

def RamState.afterAlloc (order : Nat) : AllocOutcome → Option RamState
  | .allocated ram pa size => some ⟨ram, addRange state.live pa size order⟩
  | .failed => some state
  | .hangs => none

def RamCall.run : RamCall → Option RamState
  | .alloc size order => state.afterAlloc order (vmmHostRamAlloc state.ram size order)
  | .colorAlloc ops color =>
    state.afterAlloc ops.colorOrder (vmmHostRamColorAlloc state.ram ops color)
  | .reserve pa size =>
    let (ram, status) := vmmHostRamReserve state.ram pa size
    some ⟨ram, if status = .ok then ⟨pa, size, pageShift⟩ :: state.live else state.live⟩
  | .free range =>
    let (ram, status) := vmmHostRamFree state.ram range.pa range.size
    some ⟨ram, if status = .ok then state.live.erase range else state.live⟩

def ramSystem (start : HostRam) : System RamState RamCall where
  init state := state = ⟨start, []⟩
  step state call state' := call.Admissible state ∧ call.run state = some state'

/-- An allocation that is refused at once, or whose request is sound. -/
def AllocSound (ram : HostRam) (size order : Nat) (colorMatch : Nat → Nat → Bool) : Prop :=
  (size = 0 ∨ order < pageShift ∨ 64 ≤ order) ∨
    Request.Sound ⟨roundup2OrderSize size order, order, colorMatch⟩ ram

/-- The calls that do not lead the allocator past a bank or a 32-bit variable. -/
def RamCall.Sound : RamCall → Prop
  | .alloc size order => AllocSound state.ram size order fun _ _ => true
  | .colorAlloc ops color => ops.numColors ≤ color ∨
    AllocSound state.ram (2 ^ ops.colorOrder % 2 ^ 64) ops.colorOrder
      fun pa size => ops.colorMatch pa size color
  | .reserve pa size => pa + size < 2 ^ 64
  | .free _ => True

/-- What the allocator promises about the ranges it handed out and about its counters. -/
structure RamSafe (state : RamState) : Prop where
  inside : ∀ range ∈ state.live, ∃ bank ∈ state.ram.banks,
    bank.start ≤ range.pa ∧ range.pa + range.size ≤ bank.start + bank.size
  aligned : ∀ range ∈ state.live, 2 ^ range.order ∣ range.pa
  disjoint : state.live.Pairwise fun a b => a.span.Apart b.span
  free : ∀ bank ∈ state.ram.banks,
    bank.bmapFree = (clearFrames state.ram.bits bank.toBankLayout).card

variable {state state' : RamState}

theorem RamOk.safe (ok : RamOk state.ram state.live) : RamSafe state where
  inside := by
    intro range isLive
    obtain ⟨layout, mem, bounds⟩ := (ok.placed range isLive).inside
    obtain ⟨bank, inBanks, rfl⟩ := mem_map.mp mem
    exact ⟨bank, inBanks, bounds⟩
  aligned range isLive := (ok.placed range isLive).aligned
  disjoint := pairwise_map.mp (pairwise_apart_of_coverage_le_one ok.single)
  free := ok.free

theorem RamState.afterAlloc_ramOk {size order : Nat}
    (ok : RamOk state.ram state.live) (sound : AllocSound state.ram size order colorMatch)
    (result : state.afterAlloc order (hostRamAllocColored state.ram size order colorMatch) =
      some state') : RamOk state'.ram state'.live := by
  cases outcome : hostRamAllocColored state.ram size order colorMatch with
  | allocated ram pa returned =>
    rw [outcome] at result
    cases result
    rcases sound with refused | sound
    · simp [hostRamAllocColored, refused] at outcome
    · exact hostRamAllocColored_ramOk ok sound outcome
  | failed =>
    rw [outcome] at result
    cases result
    exact ok
  | hangs =>
    rw [outcome] at result
    cases result

theorem RamCall.run_ramOk {call : RamCall} (ok : RamOk state.ram state.live)
    (admissible : call.Admissible state) (sound : call.Sound state)
    (result : call.run state = some state') : RamOk state'.ram state'.live := by
  cases call with
  | alloc size order => exact RamState.afterAlloc_ramOk ok sound result
  | colorAlloc ops color =>
    simp only [RamCall.run, vmmHostRamColorAlloc] at result
    split_ifs at result with unknown
    · cases result
      exact ok
    · exact RamState.afterAlloc_ramOk ok (sound.resolve_left unknown) result
  | reserve pa size =>
    obtain ⟨page, pages, -, -⟩ := admissible
    cases result
    exact vmmHostRamReserve_ramOk ok page pages sound
  | free range =>
    cases result
    exact vmmHostRamFree_ramOk ok admissible

/-- Every run of sound calls from banks that fit keeps every range inside its bank,
aligned and apart from the others, and every counter exact. -/
theorem ramRun_safe (bits : Int → Bool) (tree : List (Nat × Nat)) {start : HostRam}
    {state : RamState} (fits : ∀ bank ∈ tree, BankFits bank)
    (apart : tree.Pairwise fun a b => (bankSpan a).Apart (bankSpan b))
    (initialised : vmmHostRamInit bits tree = some start)
    (reached : ((ramSystem start).restrict fun state call => call.Sound state).Reachable state) :
    RamSafe state := by
  refine RamOk.safe (reached.invariant (fun state => RamOk state.ram state.live) ?_ ?_)
  · rintro state rfl
    exact vmmHostRamInit_ramOk fits apart initialised
  · rintro state call state' ok ⟨sound, admissible, result⟩
    exact RamCall.run_ramOk ok admissible sound result

theorem ramRun_safe_oneFrame :
    ∃ start state, vmmHostRamInit (fun _ => false) [(0, 0x3000)] = some start ∧
      (RamCall.alloc 0x1000 12).run ⟨start, []⟩ = some state ∧ RamSafe state := by
  have admissible : ∀ state, (RamCall.alloc 0x1000 12).Admissible state :=
    fun _ => (by decide : 0x1000 < 2 ^ 64)
  have onePage : Request.bcnt ⟨roundup2OrderSize 0x1000 12, 12, fun _ _ => true⟩ = 1 := by decide
  refine ⟨_, _, rfl, rfl, ?_⟩
  refine ramRun_safe (fun _ => false) [(0, 0x3000)] ?_ (by simp) rfl
    (.next (.start rfl) ⟨?_, admissible _, rfl⟩)
  · simp [BankFits, pageSize, pageShift]
  · refine Or.inr ⟨by decide, by decide, ?_⟩
    intro before bank after _ _ bpos candidate _ beyond
    obtain ⟨_, _, inside⟩ := candidate
    rw [onePage] at beyond
    omega

/-- A bank of three frames with its first frame allocated: the next request for two
frames at an even frame is given the last frame and one behind the bank. -/
theorem vmmHostRamAlloc_leaves_bank :
    ∃ start state, vmmHostRamInit (fun _ => false) [(0, 0x3000)] = some start ∧
      (ramSystem start).Reachable state ∧ ¬ RamSafe state := by
  have admissible : ∀ state : RamState, (RamCall.alloc 0x1000 12).Admissible state ∧
      (RamCall.alloc 0x2000 13).Admissible state :=
    fun _ => ⟨(by decide : 0x1000 < 2 ^ 64), (by decide : 0x2000 < 2 ^ 64)⟩
  refine ⟨_, _, rfl, .next (.next (.start rfl) ⟨(admissible _).1, rfl⟩) ⟨(admissible _).2, rfl⟩, ?_⟩
  intro safe
  have inside := safe.inside ⟨0x2000, 0x2000, 13⟩ (by decide +kernel)
  revert inside
  decide +kernel

end Xvisor.Host
