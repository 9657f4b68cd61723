import Xvisor.Host.RamSafety
import Xvisor.Lib.Ledger

/-!
# What the host RAM allocator takes and gives

Claiming a range of host RAM takes the bits of a window from one bank; freeing a
range gives the window back if the range lies inside the bank, and changes
nothing otherwise.
-/

namespace Xvisor.Host

open List Lib Word Nat

variable {ram ram' later : HostRam} {request : Request}

/-! ## The ledger -/

def HostRam.freeAt (ram : HostRam) (k : Nat) : Nat :=
  ((ram.banks.map HostRamBank.bmapFree)[k]?).getD 0

def HostRam.ledger (ram : HostRam) : Ledger Int Nat := ⟨{x | ram.bits x = true}, ram.freeAt⟩

theorem HostRam.eq_of_ledger (layout : ram'.layout = ram.layout)
    (ledger : ram'.ledger = ram.ledger) :
    ram' = ram := by
  obtain ⟨banks, bits⟩ := ram
  obtain ⟨banks', bits'⟩ := ram'
  have sameBits : bits' = bits := by
    funext x
    have same : (bits' x = true) = (bits x = true) := congrArg (x ∈ ·.used) ledger
    exact Bool.eq_iff_iff.mpr (iff_of_eq same)
  have sameFree : banks'.map HostRamBank.bmapFree = banks.map HostRamBank.bmapFree := by
    have length : banks'.length = banks.length := by
      simpa [HostRam.layout] using congrArg List.length layout
    refine ext_getElem (by simpa using length) ?_
    intro k inNew inOld
    have := congrArg (·.free k) ledger
    simpa [HostRam.ledger, HostRam.freeAt, List.getElem?_eq_getElem (by simpa using inNew),
      List.getElem?_eq_getElem (by simpa using inOld)] using this
  have pairs : banks'.map (fun bank => (bank.toBankLayout, bank.bmapFree)) =
      banks.map (fun bank => (bank.toBankLayout, bank.bmapFree)) := by
    rw [← zip_map', ← zip_map']
    exact congrArg₂ List.zip layout sameFree
  have injective : Function.Injective
      fun bank : HostRamBank => (bank.toBankLayout, bank.bmapFree) := by
    rintro ⟨layout, free⟩ ⟨layout', free'⟩ same
    simpa using same
  rw [sameBits, map_injective_iff.mpr injective pairs]

def window (bank : BankLayout) (start len : Nat) : Set Int :=
  {x | (bank.bmap + start : Int) ≤ x ∧ x < bank.bmap + start + len}

def windowEntry (k : Nat) (bank : BankLayout) (start len : Nat) : Ledger.Entry Int Nat :=
  ⟨window bank start len, fun j => if j = k then len else 0⟩

section Window

variable {before after : List HostRamBank} {bank : HostRamBank} {start len free : Nat}

theorem freeAt_split (bits : Int → Bool) (k : Nat) :
    (HostRam.mk (before ++ { bank with bmapFree := free } :: after) bits).freeAt k =
      if k = before.length then free
      else (HostRam.mk (before ++ bank :: after) bits).freeAt k := by
  unfold HostRam.freeAt
  rcases lt_trichotomy k before.length with low | rfl | high
  · rw [if_neg (by omega)]
    simp [List.getElem?_append_left, low]
  · simp
  · rw [if_neg (by omega)]
    obtain ⟨d, rfl⟩ := Nat.exists_eq_add_of_lt high
    simp [List.getElem?_append_right, add_assoc]

section

variable (split : ram.banks = before ++ bank :: after)
include split

theorem freeAt_length : ram.freeAt before.length = bank.bmapFree := by
  simp [HostRam.freeAt, split]

theorem takes_window (small : start + len < 2 ^ 31) (enough : len ≤ bank.bmapFree)
    (clear : ∀ i, start ≤ i → i < start + len → ram.bits (bank.bmap + i) = false) :
    Ledger.Takes (windowEntry before.length bank.toBankLayout start len) ram.ledger
      (HostRam.mk (before ++ { bank with bmapFree := bank.bmapFree - len } :: after)
        (bitmapSet ram.bits bank.bmap start len)).ledger := by
  obtain ⟨banks, bits⟩ := ram
  change banks = _ at split
  subst split
  refine ⟨?_, ?_, ?_⟩
  · rintro x ⟨low, high⟩
    have isClear := clear (x - bank.bmap).toNat (by omega) (by omega)
    rw [show ((bank.bmap : Int) + ((x - bank.bmap).toNat : Nat)) = x by omega] at isClear
    simpa [HostRam.ledger] using isClear
  · ext x
    simp only [HostRam.ledger, bitmapSet_eq small, bitmapAssign_apply, Set.mem_ofPred_eq,
      Set.mem_union, windowEntry, window]
    split_ifs with inside
    · simp [inside]
    · simp [inside]
  · intro k
    simp only [HostRam.ledger, windowEntry, freeAt_split]
    split_ifs with here
    · subst here
      rw [freeAt_length rfl]
      omega
    · rfl

theorem gives_window (small : start + len < 2 ^ 31)
    (room : ram.freeAt before.length + len < 2 ^ 32) :
    Ledger.Gives (windowEntry before.length bank.toBankLayout start len) ram.ledger
      (HostRam.mk (before ++ { bank with bmapFree := toU32 (bank.bmapFree + len) } :: after)
        (bitmapClear ram.bits bank.bmap start len)).ledger := by
  obtain ⟨banks, bits⟩ := ram
  change banks = _ at split
  subst split
  rw [freeAt_length rfl] at room
  refine ⟨?_, ?_⟩
  · ext x
    simp only [HostRam.ledger, bitmapClear_eq small, bitmapAssign_apply, Set.mem_ofPred_eq,
      Set.mem_sdiff, windowEntry, window]
    split_ifs with inside
    · simp [inside]
    · simp [inside]
  · intro k
    simp only [HostRam.ledger, windowEntry, freeAt_split]
    split_ifs with here
    · subst here
      rw [freeAt_length rfl, toU32_of_lt room]
    · rfl

end

end Window

/-! ## Freeing -/

theorem vmmHostRamFree_layout (ram : HostRam) (pa size : Nat) :
    (vmmHostRamFree ram pa size).1.layout = ram.layout := by
  unfold vmmHostRamFree
  cases located : splitAtFirst (holdsRange pa size) ram.banks with
  | none => rfl
  | some result =>
    obtain ⟨before, bank, after⟩ := result
    simp [HostRam.layout, (splitAtFirst_some located).1]

structure PageAt (layout : List BankLayout) (k : Nat) (bank : BankLayout) (pa : Nat) : Prop where
  here : layout[k]? = some bank
  low : bank.start ≤ pa
  high : pa < bank.start + bank.size

variable {layout : List BankLayout} {j k pa size bpos order : Nat} {bank : BankLayout}

theorem LayoutValid.apart_of_ne (valid : LayoutValid layout) {i : Nat} {other : BankLayout}
    (here : layout[i]? = some bank) (there : layout[j]? = some other)
    (ne : i ≠ j) : bank.span.Apart other.span := by
  obtain ⟨inHere, rfl⟩ := List.getElem?_eq_some_iff.mp here
  obtain ⟨inThere, rfl⟩ := List.getElem?_eq_some_iff.mp there
  have pairwise := pairwise_iff_getElem.mp valid.apart
  rcases lt_or_gt_of_ne ne with less | greater
  · exact pairwise i j inHere inThere less
  · exact (pairwise j i inThere inHere greater).symm

theorem PageAt.eq_of_holdsRange (page : PageAt layout k bank pa) (valid : LayoutValid layout)
    (pos : 0 < size) (noWrap : pa + size < 2 ^ 64) {other : HostRamBank}
    (there : layout[j]? = some other.toBankLayout) (holds : holdsRange pa size other = true) :
    j = k := by
  by_contra ne
  obtain ⟨low, high⟩ := (holdsRange_iff (valid.each _ (mem_of_getElem? there)) noWrap).mp holds
  refine valid.apart_of_ne there page.here ne pa ?_
  have := page.low
  have := page.high
  simp only [Span.covers_iff, BankLayout.span]
  omega

theorem PageAt.splitAtFirst (page : PageAt ram.layout k bank pa) (valid : LayoutValid ram.layout)
    (pos : 0 < size) (noWrap : pa + size < 2 ^ 64) :
    ∃ before found after, ram.banks = before ++ found :: after ∧ before.length = k ∧
      found.toBankLayout = bank ∧
      Lib.splitAtFirst (holdsRange pa size) ram.banks =
        if pa + size ≤ bank.start + bank.size then some (before, found, after) else none := by
  have here := page.here
  rw [HostRam.layout, List.getElem?_map, Option.map_eq_some_iff] at here
  obtain ⟨found, atK, rfl⟩ := here
  obtain ⟨before, after, split, length, -⟩ := getElem?_split atK
  refine ⟨before, found, after, split, length, rfl, ?_⟩
  have isValid := valid.each _ (mem_of_getElem? page.here)
  cases located : Lib.splitAtFirst (holdsRange pa size) ram.banks with
  | none =>
    have refused := splitAtFirst_none located found (by simp [split])
    rw [if_neg]
    intro fits
    rw [(holdsRange_iff isValid noWrap).mpr ⟨page.low, fits⟩] at refused
    exact Bool.noConfusion refused
  | some result =>
    obtain ⟨front, hit, back⟩ := result
    obtain ⟨cut, holds, -⟩ := splitAtFirst_some located
    have there : ram.layout[front.length]? = some hit.toBankLayout := by
      simp [HostRam.layout, cut]
    have position := page.eq_of_holdsRange valid pos noWrap there holds
    obtain ⟨rfl, tail⟩ := append_inj (split.symm.trans cut) (by omega)
    cases tail
    rw [if_pos ((holdsRange_iff isValid noWrap).mp holds).2]

theorem BankLayout.Valid.frames_range (valid : bank.Valid) (low : bank.start ≤ pa)
    (high : pa + size ≤ bank.start + bank.size) :
    (pa - bank.start) / pageSize + sizeToPage size ≤ bank.frameCount := by
  rw [valid.size_eq] at high
  unfold sizeToPage
  split_ifs with ragged
  all_goals
    simp only [pageSize, pageShift] at high ragged ⊢
    omega

theorem vmmHostRamFree_gives (valid : LayoutValid layout) (page : PageAt layout k bank pa)
    (pos : 0 < size) (fits : pa + size ≤ bank.start + bank.size) (same : later.layout = layout)
    (room : later.freeAt k + sizeToPage size < 2 ^ 32) :
    Ledger.Gives (windowEntry k bank ((pa - bank.start) / pageSize) (sizeToPage size)) later.ledger
      (vmmHostRamFree later pa size).1.ledger := by
  subst same
  have isValid := valid.each _ (mem_of_getElem? page.here)
  have top := isValid.top
  have small := isValid.small
  have inside := isValid.frames_range page.low fits
  obtain ⟨before, found, after, split, rfl, rfl, located⟩ := page.splitAtFirst valid pos (by omega)
  rw [if_pos fits] at located
  simp only [vmmHostRamFree, located, framePos]
  rw [toU32_of_lt (by omega : sizeToPage size < 2 ^ 32),
    toU32_of_lt (by omega : (pa - found.start) / pageSize < 2 ^ 32)]
  exact gives_window split (by omega) room

theorem vmmHostRamFree_bits (valid : LayoutValid layout) (page : PageAt layout k bank pa)
    (pos : 0 < size) (noWrap : pa + size < 2 ^ 64) (same : later.layout = layout) (x : Int) :
    (vmmHostRamFree later pa size).1.bits x = true ↔ later.bits x = true ∧
      ¬ (pa + size ≤ bank.start + bank.size ∧
        x ∈ window bank ((pa - bank.start) / pageSize) (sizeToPage size)) := by
  subst same
  have isValid := valid.each _ (mem_of_getElem? page.here)
  have small := isValid.small
  obtain ⟨before, found, after, split, rfl, rfl, located⟩ := page.splitAtFirst valid pos noWrap
  by_cases fits : pa + size ≤ found.start + found.size
  · have inside := isValid.frames_range page.low fits
    rw [if_pos fits] at located
    simp only [vmmHostRamFree, located, framePos]
    have pages := (le_add_left _ _).trans inside
    rw [toU32_of_lt (by omega), toU32_of_lt (by omega), bitmapClear_eq (by omega), bitmapAssign_apply]
    simp only [fits, true_and, window, Set.mem_ofPred_eq]
    split_ifs with inWindow
    · exact ⟨fun isSet => isSet.elim, fun kept => absurd inWindow kept.2⟩
    · exact ⟨fun isSet => ⟨isSet, inWindow⟩, And.left⟩
  · rw [if_neg fits] at located
    simp [vmmHostRamFree, located, fits]

/-! ## Reservation -/

variable {before after : List HostRamBank} {bank : HostRamBank}

theorem layout_bmapFree {free : Nat} {bits : Int → Bool}
    (split : ram.banks = before ++ bank :: after) :
    (HostRam.mk (before ++ { bank with bmapFree := free } :: after) bits).layout = ram.layout := by
  simp [HostRam.layout, split]

theorem vmmHostRamReserve_takes (valid : LayoutValid ram.layout) (pos : 0 < size)
    (noWrap : pa + size < 2 ^ 64) (reserved : vmmHostRamReserve ram pa size = (ram', .ok)) :
    ∃ k bank, PageAt ram.layout k bank pa ∧ pa + size ≤ bank.start + bank.size ∧
      ram'.layout = ram.layout ∧
      Ledger.Takes (windowEntry k bank ((pa - bank.start) / pageSize) (sizeToPage size)) ram.ledger
        ram'.ledger := by
  unfold vmmHostRamReserve at reserved
  cases located : splitAtFirst (holdsRange pa size) ram.banks with
  | none => simp [located] at reserved
  | some result =>
    obtain ⟨before, bank, after⟩ := result
    obtain ⟨split, holds, -⟩ := splitAtFirst_some located
    have here : ram.layout[before.length]? = some bank.toBankLayout := by
      simp [HostRam.layout, split]
    have isValid := valid.each _ (mem_of_getElem? here)
    have small := isValid.small
    obtain ⟨low, high⟩ := (holdsRange_iff isValid noWrap).mp holds
    have inside := isValid.frames_range low high
    have position : framePos pa bank = (pa - bank.start) / pageSize :=
      toU32_of_lt (lt_of_le_of_lt ((le_add_right _ _).trans inside) (by omega))
    simp only [located, position] at reserved
    rw [toU32_of_lt (by omega : sizeToPage size < 2 ^ 32)] at reserved
    split_ifs at reserved with few taken
    · cases (Prod.mk.inj reserved).2
    · cases (Prod.mk.inj reserved).2
    obtain ⟨rfl, -⟩ := Prod.mk.inj reserved
    refine ⟨before.length, bank.toBankLayout, ⟨here, low, by omega⟩, high, layout_bmapFree split, ?_⟩
    have clear := (windowFree_eq_iff (by omega)).mp (not_not.mp taken)
    exact takes_window split (by omega) (by omega) clear

/-! ## Allocation -/

theorem AllocatedAt.past_end (valid : LayoutValid ram.layout)
    (stepBound : request.binc ≤ 2 ^ 31)
    (found : AllocatedAt request ram.banks ram.bits before bank after bpos ram' pa size)
    (escapes : ¬ request.Contained ram) : bank.frameCount < bpos + request.bcnt := by
  obtain ⟨k, isPos, below, accepted, refused⟩ := found.accepted valid stepBound
  simp only [Request.Contained, not_forall, not_or, not_exists, not_and] at escapes
  obtain ⟨before', bank', after', split', enough, bpos', ⟨k', isPos', below'⟩, accepted', beyond,
    first, alone⟩ := escapes
  have inSame : bank' = bank → bank.frameCount < bpos + request.bcnt := by
    rintro rfl
    rw [(valid.each bank'.toBankLayout (by simp [layout_split found.split])).frames]
    rcases lt_trichotomy bpos bpos' with earlier | rfl | later
    · exact absurd accepted (first bpos earlier ⟨k, isPos, below⟩)
    · exact beyond
    · rw [isPos, isPos'] at later
      have refusedHere := refused k' (Nat.lt_of_mul_lt_mul_right (Nat.lt_of_add_lt_add_left later))
      rw [← isPos', accepted'] at refusedHere
      exact Bool.noConfusion refusedHere
  -- the search stops neither before the bank of that window nor after it
  rcases append_eq_append_iff.mp (found.split.symm.trans split') with
    ⟨between, front, back⟩ | ⟨between, front, back⟩
  · cases between with
    | nil => exact inSame (List.cons.inj back).1.symm
    | cons head tail =>
      cases back
      have inFront : bank ∈ before' := by simp [front]
      exact absurd accepted (alone bank inFront found.enough bpos ⟨k, isPos, below⟩)
  · cases between with
    | nil => exact inSame (List.cons.inj back).1
    | cons head tail =>
      cases back
      have inFront : bank' ∈ before := by simp [front]
      rcases found.passed bank' inFront with few | missed
      · omega
      · have member : bank' ∈ ram.banks := by simp [split']
        rw [isPos'] at accepted' below'
        rw [scanBank_missed (valid.noWrap stepBound member) missed k' below'] at accepted'
        exact Bool.noConfusion accepted'

theorem AllocatedAt.takes (valid : LayoutValid ram.layout)
    (stepBound : request.binc ≤ 2 ^ 31)
    (found : AllocatedAt request ram.banks ram.bits before bank after bpos ram' pa size)
    (small : bpos + request.bcnt < 2 ^ 31) :
    PageAt ram.layout before.length bank.toBankLayout pa ∧ pa = bank.start + bpos * pageSize ∧
      ram'.layout = ram.layout ∧
      Ledger.Takes (windowEntry before.length bank.toBankLayout bpos request.bcnt) ram.ledger
        ram'.ledger := by
  obtain ⟨k, -, below, accepted, -⟩ := found.accepted valid stepBound
  have here : ram.layout[before.length]? = some bank.toBankLayout := by
    simp [HostRam.layout, found.split]
  have isValid := valid.each _ (mem_of_getElem? here)
  have clear := (windowFree_eq_iff small).mp
    (of_decide_eq_true (Bool.and_eq_true_iff.mp accepted).1)
  have page : (bpos + 1) * pageSize ≤ bank.frameCount * pageSize := by
    rw [← isValid.frames] at below
    exact mul_le_mul_right _ below
  rw [← isValid.size_eq, add_mul, one_mul] at page
  have pos := pageSize_pos
  have top := isValid.top
  have address : pa = bank.start + bpos * pageSize := by
    rw [found.address, Request.address, add_of_lt (by omega)]
  refine ⟨⟨here, by omega, by omega⟩, address, ?_, ?_⟩
  · rw [found.result, layout_bmapFree found.split]
  · rw [found.result]
    exact takes_window found.split small found.enough clear

/-- Banks so short that the end of a window still fits an `int`. -/
structure HostRam.Short (ram : HostRam) : Prop where
  frames : ∀ bank ∈ ram.layout, bank.frameCount ≤ 2 ^ 30
  free : ∀ k, ram.freeAt k ≤ 2 ^ 30

theorem HostRam.Short.of_takes {entry : Ledger.Entry Int Nat} (short : ram.Short)
    (layout : ram'.layout = ram.layout) (taken : Ledger.Takes entry ram.ledger ram'.ledger) :
    ram'.Short := by
  refine ⟨layout ▸ short.frames, ?_⟩
  intro k
  exact (le_of_add_right_le (taken.free k).le).trans (short.free k)

variable {colorMatch : Nat → Nat → Bool}

theorem hostRamAllocColored_takes {returned : Nat} (valid : LayoutValid ram.layout)
    (pos : 0 < roundup2OrderSize size order) (pages : roundup2OrderSize size order < 2 ^ 44)
    (bounded : Request.Contained ⟨roundup2OrderSize size order, order, colorMatch⟩ ram ∨ ram.Short)
    (allocated : hostRamAllocColored ram size order colorMatch = .allocated ram' pa returned) :
    ∃ k bank, PageAt ram.layout k bank pa ∧ ram'.layout = ram.layout ∧
      Ledger.Takes (windowEntry k bank ((pa - bank.start) / pageSize)
        (sizeToPage (roundup2OrderSize size order))) ram.ledger ram'.ledger ∧
      (pa + roundup2OrderSize size order ≤ bank.start + bank.size ↔
        Request.Contained ⟨roundup2OrderSize size order, order, colorMatch⟩ ram) := by
  unfold hostRamAllocColored at allocated
  split_ifs at allocated with refused
  obtain ⟨before, bank, after, bpos, found⟩ := allocFromBanks_allocated (by simp) allocated
  rw [nil_append] at found
  have exact := exact_of_roundup2OrderSize colorMatch (by omega) (by omega) pos pages
  generalize isRequest : Request.mk (roundup2OrderSize size order) order colorMatch = request at *
  have isSize : roundup2OrderSize size order = request.size := by rw [← isRequest]
  rw [isSize]
  have counted := exact.bcnt_mul
  have stepBound := exact.binc_mul.2
  have isValid := valid.each bank.toBankLayout (by simp [layout_split found.split])
  have frames := isValid.small
  obtain ⟨-, -, below, -⟩ := found.accepted valid stepBound
  rw [← isValid.frames] at below
  have inside : bpos + request.bcnt ≤ bank.frameCount ↔ request.Contained ram := by
    constructor
    · intro inside
      by_contra escapes
      have := found.past_end valid stepBound escapes
      omega
    · intro contained
      exact (found.inside valid stepBound contained).1
  have small : bpos + request.bcnt < 2 ^ 31 := by
    rcases bounded with contained | short
    · have := inside.mpr contained
      omega
    · have := short.frames bank.toBankLayout (by simp [layout_split found.split])
      have free := short.free before.length
      rw [freeAt_length found.split] at free
      have := found.enough
      omega
  obtain ⟨page, address, layout, taken⟩ := found.takes valid stepBound small
  have position : (pa - bank.start) / pageSize = bpos := by
    rw [address, Nat.add_sub_cancel_left, Nat.mul_div_cancel _ pageSize_pos]
  have count : sizeToPage request.size = request.bcnt := by
    rw [← counted, sizeToPage_of_dvd (Nat.dvd_mul_left _ _), Nat.mul_div_cancel _ pageSize_pos]
  refine ⟨before.length, bank.toBankLayout, page, layout, ?_, ?_⟩
  · rw [position, count]
    exact taken
  · rw [← inside, address, ← counted, isValid.size_eq, add_assoc, ← add_mul,
      add_le_add_iff_left, Nat.mul_le_mul_right_iff pageSize_pos]

theorem scanBank_ne_hangs {accepts : Nat → Bool} {frames binc fuel : Nat}
    (noWrap : frames + binc ≤ 2 ^ 32) (pos : 0 < binc) (enough : frames ≤ bpos + fuel) :
    scanBank accepts frames binc fuel bpos ≠ .hangs := by
  induction fuel generalizing bpos with
  | zero =>
    unfold scanBank
    rw [if_neg (by omega)]
    exact Scan.noConfusion
  | succ fuel ih =>
    unfold scanBank
    split_ifs with inside accepted
    · exact Scan.noConfusion
    · rw [toU32_of_lt (by omega)]
      exact ih (by omega)
    · exact Scan.noConfusion

theorem allocFromBanks_ne_hangs {bits : Int → Bool} {passed rest : List HostRamBank}
    (noWrap : ∀ bank ∈ rest, bank.size / pageSize + request.binc ≤ 2 ^ 32)
    (pos : 0 < request.binc) : allocFromBanks request bits passed rest ≠ .hangs := by
  induction rest generalizing passed with
  | nil => exact AllocOutcome.noConfusion
  | cons bank rest ih =>
    have onward : allocFromBanks request bits (passed ++ [bank]) rest ≠ .hangs :=
      ih fun other inRest => noWrap other (by simp [inRest])
    unfold allocFromBanks
    split_ifs with few
    · exact onward
    · have leaves : request.scan bits bank ≠ .hangs :=
        scanBank_ne_hangs (noWrap bank (by simp)) pos (le_add_left _ _)
      split
      · exact AllocOutcome.noConfusion
      · exact onward
      · next hangs => exact absurd hangs leaves

theorem hostRamAllocColored_ne_hangs (valid : LayoutValid ram.layout)
    (rounded : size ≤ roundup2OrderSize size order)
    (pages : roundup2OrderSize size order < 2 ^ 44) :
    hostRamAllocColored ram size order colorMatch ≠ .hangs := by
  unfold hostRamAllocColored
  split_ifs with refused
  · exact AllocOutcome.noConfusion
  · have exact := exact_of_roundup2OrderSize colorMatch (by omega) (by omega) (by omega) pages
    obtain ⟨stepSize, stepBound⟩ := exact.binc_mul
    refine allocFromBanks_ne_hangs (fun bank member => valid.noWrap stepBound member) ?_
    refine pos_of_ne_zero fun none => ?_
    rw [none, Nat.zero_mul] at stepSize
    exact absurd stepSize.symm (Nat.two_pow_pos _).ne'

/-! ## Claims and their release -/

/-- Claiming a range took an entry, and freeing the range gives the entry back. -/
structure Repays (entry : Ledger.Entry Int Nat) (ram ram' : HostRam) (pa size : Nat) : Prop where
  layout : ram'.layout = ram.layout
  taken : Ledger.Takes entry ram.ledger ram'.ledger
  given : ∀ later : HostRam, later.layout = ram.layout →
    (∀ k, later.freeAt k + entry.count k < 2 ^ 32) →
    Ledger.Gives entry later.ledger (vmmHostRamFree later pa size).1.ledger

/-- Claiming a range took an entry, and freeing the range clears the returned part of it. -/
structure RepaysPart (entry : Ledger.Entry Int Nat) (returned : Set Int) (ram ram' : HostRam)
    (pa size : Nat) : Prop where
  layout : ram'.layout = ram.layout
  taken : Ledger.Takes entry ram.ledger ram'.ledger
  part : returned ⊆ entry.slots
  cleared : ∀ later : HostRam, later.layout = ram.layout → ∀ x,
    ((vmmHostRamFree later pa size).1.bits x = true ↔ later.bits x = true ∧ x ∉ returned)

theorem vmmHostRamReserve_repays (valid : LayoutValid ram.layout) (pos : 0 < size)
    (noWrap : pa + size < 2 ^ 64) (reserved : vmmHostRamReserve ram pa size = (ram', .ok)) :
    ∃ entry, Repays entry ram ram' pa size := by
  obtain ⟨k, bank, page, fits, layout, taken⟩ := vmmHostRamReserve_takes valid pos noWrap reserved
  refine ⟨_, layout, taken, ?_⟩
  intro later same room
  have here := room k
  simp only [windowEntry, if_true] at here
  exact vmmHostRamFree_gives valid page pos fits same here

section Allocated

variable {size order pa returned : Nat} {colorMatch : Nat → Nat → Bool}

theorem hostRamAllocColored_repays (valid : LayoutValid ram.layout) (pos : 0 < size)
    (exact : roundup2OrderSize size order = size) (pages : size < 2 ^ 44)
    (contained : Request.Contained ⟨roundup2OrderSize size order, order, colorMatch⟩ ram)
    (allocated : hostRamAllocColored ram size order colorMatch = .allocated ram' pa returned) :
    ∃ entry, Repays entry ram ram' pa size := by
  obtain ⟨k, bank, page, layout, taken, inside⟩ := hostRamAllocColored_takes valid
    (by omega) (by omega) (Or.inl contained) allocated
  have fits := inside.mpr contained
  rw [exact] at taken fits
  refine ⟨_, layout, taken, ?_⟩
  intro later same room
  have here := room k
  simp only [windowEntry, if_true] at here
  exact vmmHostRamFree_gives valid page pos fits same here

theorem sizeToPage_mono {small large : Nat} (le : small ≤ large) :
    sizeToPage small ≤ sizeToPage large := by
  unfold sizeToPage
  split_ifs <;> simp only [pageSize, pageShift] at * <;> omega

/-- Freeing leaves the last frames behind when the size was rounded up, and all of them when the
window runs past the end of its bank. -/
theorem hostRamAllocColored_repaysPart (valid : LayoutValid ram.layout) (short : ram.Short)
    (top : ∀ bank ∈ ram.layout, bank.start + bank.size ≤ 2 ^ 63) (pos : 0 < size)
    (rounded : size ≤ roundup2OrderSize size order) (pages : roundup2OrderSize size order < 2 ^ 44)
    (allocated : hostRamAllocColored ram size order colorMatch = .allocated ram' pa returned) :
    ∃ entry back, RepaysPart entry back ram ram' pa size ∧
      (sizeToPage size < sizeToPage (roundup2OrderSize size order) ∨
        roundup2OrderSize size order = size ∧
          ¬ Request.Contained ⟨roundup2OrderSize size order, order, colorMatch⟩ ram →
        ∃ x ∈ entry.slots, x ∉ back) := by
  obtain ⟨k, bank, page, layout, taken, inside⟩ := hostRamAllocColored_takes valid
    (by omega) pages (Or.inr short) allocated
  have high := page.high
  have below := top _ (mem_of_getElem? page.here)
  have fewer := sizeToPage_mono rounded
  refine ⟨_, {x | pa + size ≤ bank.start + bank.size ∧
    x ∈ window bank ((pa - bank.start) / pageSize) (sizeToPage size)}, ⟨layout, taken, ?_, ?_⟩, ?_⟩
  · rintro x ⟨-, low, high⟩
    exact ⟨low, by omega⟩
  · intro later same x
    exact vmmHostRamFree_bits valid page pos (by omega) same x
  · -- the last frame of the window is taken and stays behind
    intro leaves
    have some : 0 < sizeToPage (roundup2OrderSize size order) := by
      refine lt_of_lt_of_le ?_ fewer
      unfold sizeToPage
      split_ifs <;> simp only [pageSize, pageShift] at * <;> omega
    refine ⟨bank.bmap + ((pa - bank.start) / pageSize : Nat) +
      (sizeToPage (roundup2OrderSize size order) - 1 : Nat), ⟨by omega, by omega⟩, ?_⟩
    rintro ⟨fits, -, last⟩
    rcases leaves with less | ⟨whole, escapes⟩
    · omega
    · rw [whole] at inside escapes
      exact escapes (inside.mp fits)

end Allocated

/-! ## Which frames a reservation takes

`vmm_host_ram_reserve` rounds the first frame down from the address and the
number of frames up from the size alone, so that it may miss the last frame that
the range touches. -/

open Finset

variable {ram ram' : HostRam} {pa size k : Nat} {bank : BankLayout}

/-! ## Single frames -/

theorem holdsFrame_eq (noWrap : pa + 1 < 2 ^ 64) : holdsFrame pa = holdsRange pa 1 := by
  funext bank
  simp only [holdsFrame, holdsRange, Word.add_of_lt noWrap, Nat.lt_succ_iff]

theorem vmmHostRamFrameIsfree_eq (valid : LayoutValid ram.layout)
    (page : PageAt ram.layout k bank pa) :
    vmmHostRamFrameIsfree ram pa =
      !ram.bits (bank.bmap + ((pa - bank.start) / pageSize : Nat)) := by
  have isValid := valid.each _ (List.mem_of_getElem? page.here)
  have top := isValid.top
  have small := isValid.small
  have low := page.low
  have high := page.high
  have inside := isValid.frames_range low (show pa + 1 ≤ _ by omega)
  obtain ⟨before, found, after, -, -, rfl, located⟩ :=
    page.splitAtFirst valid one_pos (by omega)
  rw [if_pos (by omega)] at located
  rw [vmmHostRamFrameIsfree, holdsFrame_eq (by omega), located]
  dsimp only
  rw [framePos, Word.toU32_of_lt (by omega), bitmapIsset_of_lt (by omega)]

/-! ## Touched frames -/

def touchedFrames (pa size : Nat) : Finset Nat := (Finset.Ico pa (pa + size)).image (· / pageSize)

theorem touchedFrames_eq (pos : 0 < size) :
    touchedFrames pa size = Finset.Icc (pa / pageSize) ((pa + size - 1) / pageSize) := by
  ext frame
  simp only [touchedFrames, mem_image, mem_Ico, mem_Icc]
  constructor
  · rintro ⟨q, ⟨low, high⟩, rfl⟩
    exact ⟨Nat.div_le_div_right low, Nat.div_le_div_right (by omega)⟩
  · rintro ⟨low, high⟩
    refine ⟨max pa (frame * pageSize), ?_, ?_⟩
    all_goals
      simp only [pageSize, pageShift] at *
      omega

theorem card_touchedFrames (pos : 0 < size) :
    (touchedFrames pa size).card = (pa + size - 1) / pageSize - pa / pageSize + 1 := by
  rw [touchedFrames_eq pos, Nat.card_Icc]
  have : pa / pageSize ≤ (pa + size - 1) / pageSize := Nat.div_le_div_right (by omega)
  omega

/-- The page offset of the address does not push the last byte into one more page. -/
def OffsetFits (pa size : Nat) : Prop :=
  size = 0 ∨ pa % pageSize + (size - 1) % pageSize < pageSize

theorem card_touchedFrames_eq_iff :
    (touchedFrames pa size).card = sizeToPage size ↔ OffsetFits pa size := by
  rcases Nat.eq_zero_or_pos size with rfl | pos
  · simp [touchedFrames, sizeToPage, OffsetFits]
  · rw [card_touchedFrames pos, sizeToPage, OffsetFits]
    split_ifs with ragged
    all_goals
      simp only [pageSize, pageShift] at *
      omega

/-! ## Reservation -/

/-- What a reservation promises about the range and the bank that holds it. -/
structure RangeReserved (ram : HostRam) (k pa size : Nat) (ram' : HostRam) : Prop where
  taken : ∀ q, q / pageSize ∈ touchedFrames pa size → vmmHostRamFrameIsfree ram' q = false
  dropped : ram'.freeAt k + (touchedFrames pa size).card = ram.freeAt k
  unused : ∀ q, q / pageSize ∈ touchedFrames pa size → vmmHostRamFrameIsfree ram q = true
  restored : vmmHostRamFree ram' pa size = (ram, .ok)

theorem touched_page (valid : bank.Valid) (here : ram.layout[k]? = some bank)
    (low : bank.start ≤ pa) (high : pa + size ≤ bank.start + bank.size) (pos : 0 < size)
    (fits : OffsetFits pa size) {q : Nat} (touched : q / pageSize ∈ touchedFrames pa size) :
    PageAt ram.layout k bank q ∧ (pa - bank.start) / pageSize ≤ (q - bank.start) / pageSize ∧
      (q - bank.start) / pageSize < (pa - bank.start) / pageSize + sizeToPage size := by
  have counted := card_touchedFrames_eq_iff.mpr fits
  rw [card_touchedFrames pos] at counted
  rw [touchedFrames_eq pos, mem_Icc] at touched
  obtain ⟨first, isStart⟩ := valid.startAligned
  obtain ⟨count, isSize⟩ := valid.sizeAligned
  simp only [pageSize, pageShift] at *
  exact ⟨⟨here, by omega, by omega⟩, by omega, by omega⟩

theorem vmmHostRamReserve_zero (counters : ∀ k, ram.freeAt k < 2 ^ 32)
    (reserved : vmmHostRamReserve ram pa 0 = (ram', .ok)) :
    ram' = ram ∧ vmmHostRamFree ram pa 0 = (ram, .ok) := by
  have none : Word.toU32 (sizeToPage 0) = 0 := rfl
  unfold vmmHostRamReserve at reserved
  unfold vmmHostRamFree
  cases located : splitAtFirst (holdsRange pa 0) ram.banks with
  | none => simp [located] at reserved
  | some result =>
    obtain ⟨before, bank, after⟩ := result
    have split := (splitAtFirst_some located).1
    have bound := counters before.length
    rw [freeAt_length split] at bound
    simp only [located, none] at reserved ⊢
    split_ifs at reserved with few taken
    · cases (Prod.mk.inj reserved).2
    · cases (Prod.mk.inj reserved).2
    have same : HostRam.mk (before ++ bank :: after) ram.bits = ram := by rw [← split]
    refine ⟨(Prod.mk.inj reserved).1.symm.trans same, ?_⟩
    rw [add_zero, Word.toU32_of_lt bound]
    exact congrArg (·, RamStatus.ok) same

/-- A successful reservation of a range inside one bank takes the frames that the range touches,
and freeing it restores the bank, exactly when the page offset fits. -/
theorem vmmHostRamReserve_covers_iff (ram ram' : HostRam) (k pa size : Nat) (bank : BankLayout)
    (valid : LayoutValid ram.layout) (counters : ∀ k, ram.freeAt k < 2 ^ 32)
    (here : ram.layout[k]? = some bank) (low : bank.start ≤ pa)
    (high : pa + size ≤ bank.start + bank.size)
    (reserved : vmmHostRamReserve ram pa size = (ram', .ok)) :
    RangeReserved ram k pa size ram' ↔ OffsetFits pa size := by
  have isValid := valid.each _ (List.mem_of_getElem? here)
  have top := isValid.top
  rcases Nat.eq_zero_or_pos size with rfl | positive
  · obtain ⟨rfl, freed⟩ := vmmHostRamReserve_zero counters reserved
    refine iff_of_true ⟨?_, ?_, ?_, freed⟩ (.inl rfl)
    · simp [touchedFrames]
    · simp [touchedFrames]
    · simp [touchedFrames]
  obtain ⟨k', bank', page, fits', layout, taken⟩ :=
    vmmHostRamReserve_takes valid positive (by omega) reserved
  obtain rfl : k' = k := by
    by_contra ne
    refine valid.apart_of_ne page.here here ne pa ?_
    have := page.low
    simp only [Span.covers_iff, BankLayout.span]
    omega
  obtain rfl : bank' = bank := Option.some.inj (page.here.symm.trans here)
  have dropped := taken.free k'
  simp only [windowEntry, if_true] at dropped
  constructor
  · intro holds
    have counted := holds.dropped
    rw [← card_touchedFrames_eq_iff]
    change ram'.freeAt k' + sizeToPage size = ram.freeAt k' at dropped
    omega
  · intro fits
    have room : ram'.freeAt k' + sizeToPage size < 2 ^ 32 := lt_of_eq_of_lt dropped (counters k')
    have given := vmmHostRamFree_gives valid page positive fits' layout room
    have validNew : LayoutValid ram'.layout := layout.symm ▸ valid
    have pageNew : PageAt ram'.layout k' bank' pa := layout.symm ▸ page
    refine ⟨?_, ?_, ?_, ?_⟩
    · intro q touched
      obtain ⟨pageQ, lowQ, highQ⟩ := touched_page isValid here low high positive fits touched
      have inWindow : (bank'.bmap + ((q - bank'.start) / pageSize : Nat) : Int) ∈
          ram'.ledger.used := by
        rw [taken.used]
        exact .inr ⟨by omega, by omega⟩
      rw [vmmHostRamFrameIsfree_eq validNew (layout.symm ▸ pageQ)]
      exact congrArg (!·) inWindow
    · rw [card_touchedFrames_eq_iff.mpr fits]
      exact dropped
    · intro q touched
      obtain ⟨pageQ, lowQ, highQ⟩ := touched_page isValid here low high positive fits touched
      have clear : (bank'.bmap + ((q - bank'.start) / pageSize : Nat) : Int) ∉ ram.ledger.used :=
        taken.fresh _ ⟨by omega, by omega⟩
      rw [vmmHostRamFrameIsfree_eq valid pageQ, Bool.not_eq_true']
      exact Bool.eq_false_iff.mpr clear
    · have back : (vmmHostRamFree ram' pa size).1 = ram := by
        refine HostRam.eq_of_ledger ((vmmHostRamFree_layout _ _ _).trans layout) ?_
        exact taken.undo given
      have isOk : (vmmHostRamFree ram' pa size).2 = .ok := by
        obtain ⟨before, found, after, -, -, rfl, located⟩ :=
          pageNew.splitAtFirst validNew positive (by omega)
        rw [if_pos fits'] at located
        simp [vmmHostRamFree, located]
      exact Prod.ext back isOk

theorem vmmHostRamReserve_covers_twoFrames :
    ∃ ram ram', vmmHostRamInit (fun _ => false) [(0, 0x3000)] = some ram ∧
      vmmHostRamReserve ram 0x800 0x1700 = (ram', .ok) ∧ RangeReserved ram 0 0x800 0x1700 ram' := by
  have fits : ∀ bank ∈ [(0, 0x3000)], BankFits bank := by simp [BankFits, pageSize, pageShift]
  have ok := vmmHostRamInit_ramOk fits (List.pairwise_singleton _ _)
    (show vmmHostRamInit (fun _ => false) [(0, 0x3000)] = some _ from rfl)
  refine ⟨_, _, rfl, rfl, ?_⟩
  refine (vmmHostRamReserve_covers_iff _ _ 0 0x800 0x1700 ⟨0, 0x3000, 3, 0⟩ ok.layout ?_ rfl
    (by decide) (by decide) rfl).mpr (.inr (by decide))
  rintro (_ | k)
  · decide
  · exact (by decide : 0 < 2 ^ 32)

/-- Half a page from the start of the first frame, one page is reserved: its second half lies in
the second frame, which stays free. -/
theorem vmmHostRamReserve_misses_frame :
    ∃ ram ram', vmmHostRamInit (fun _ => false) [(0, 0x3000)] = some ram ∧
      vmmHostRamReserve ram 0x800 0x1000 = (ram', .ok) ∧
      ¬ RangeReserved ram 0 0x800 0x1000 ram' := by
  refine ⟨_, _, rfl, rfl, ?_⟩
  intro reserved
  have touched : 0x1000 / pageSize ∈ touchedFrames 0x800 0x1000 := by
    rw [touchedFrames_eq (by decide)]
    decide
  exact absurd (reserved.taken 0x1000 touched) (by decide)

end Xvisor.Host
