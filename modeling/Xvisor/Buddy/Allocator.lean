import Xvisor.Lib.Lists
import Xvisor.Lib.SearchTree
import Xvisor.Lib.Word

/-!
# The buddy allocator

The allocator keeps one sorted list of free areas per bin and a red-black tree
of allocated areas. Every area is a house-keeping object taken from a fixed
pool, and every operation has a path for the case that the pool is empty.
-/

namespace Xvisor.Buddy

open Lib Word

/-- `struct buddy_area`: `blkCount` contiguous blocks of `2 ^ binNum` bytes at `map`. -/
structure BuddyArea where
  map : Nat
  blkCount : Nat
  binNum : Nat
  deriving DecidableEq, Repr

namespace BuddyArea

-- `AREA_SIZE` and `AREA_END`; `AREA_START` is the field `map` itself.
def size (a : BuddyArea) : Nat := mul a.blkCount (2 ^ a.binNum)

def stop (a : BuddyArea) : Nat := add a.map a.size

end BuddyArea

/-- What `buddy_allocator_init` saves and nothing changes afterwards. -/
structure BuddyConfig where
  hkTotalCount : Nat
  memStart : Nat
  memSize : Nat
  minBin : Nat
  maxBin : Nat
  deriving DecidableEq, Repr

/-- `struct buddy_allocator` without its locks. -/
structure BuddyAllocator where
  config : BuddyConfig
  hkFreeCount : Nat
  hkFreeList : List BuddyArea
  alloc : SearchTree BuddyArea
  bins : Nat → List BuddyArea

namespace BuddyAllocator

def setBin (ba : BuddyAllocator) (bin : Nat) (areas : List BuddyArea) : BuddyAllocator :=
  { ba with bins := Function.update ba.bins bin areas }

end BuddyAllocator

def buddyEstimateBin (config : BuddyConfig) (size : Nat) : Nat :=
  if size < 2 ^ config.minBin then config.minBin
  else
    ((List.range' config.minBin (config.maxBin - config.minBin)).find?
      fun bin => decide (size ≤ 2 ^ bin)).getD config.maxBin

def blockCountUp (size bin : Nat) : Nat :=
  if mul (size / 2 ^ bin) (2 ^ bin) < size then size / 2 ^ bin + 1 else size / 2 ^ bin

variable (ba : BuddyAllocator)

def buddyHkFree (a : BuddyArea) : BuddyAllocator :=
  { ba with hkFreeList := ba.hkFreeList ++ [a], hkFreeCount := ba.hkFreeCount + 1 }

def buddyHkAlloc (map bin blkCount : Nat) : Option (BuddyAllocator × BuddyArea) :=
  match ba.hkFreeList with
  | [] => none
  | _ :: rest =>
    some ({ ba with hkFreeList := rest, hkFreeCount := ba.hkFreeCount - 1 }, ⟨map, blkCount, bin⟩)

/-! ## The alloc tree -/

def findDirection (addr : Nat) (a : BuddyArea) : Ordering :=
  if a.map ≤ addr ∧ addr < a.stop then .eq
  else if addr < a.map then .lt
  else .gt

def buddyAllocFind (addr : Nat) : Option BuddyArea :=
  ba.alloc.search (findDirection addr)

-- `.eq` stands for the `BUG_ON` of `__buddy_alloc_add`.
def addDirection (a parent : BuddyArea) : Ordering :=
  if a.stop ≤ parent.map then .lt
  else if parent.stop ≤ a.map then .gt
  else .eq

variable (rb : Rebalance BuddyArea) (ba : BuddyAllocator)

def buddyAllocAdd (a : BuddyArea) : Option BuddyAllocator :=
  (ba.alloc.link (addDirection a) a).map fun tree => { ba with alloc := rb.insertColor tree }

def buddyAllocDel (a : BuddyArea) : BuddyAllocator :=
  { ba with alloc := rb.erase ba.alloc a }

/-! ## Putting areas on the bins -/

/-- What the scan of a bin list by `__buddy_bins_put` leaves: the list `before ++ merge :: after`,
and the objects `freed`. -/
structure PutScan where
  before : List BuddyArea
  merge : BuddyArea
  after : List BuddyArea
  freed : List BuddyArea

def putScan (a : BuddyArea) (before : List BuddyArea) : List BuddyArea → PutScan
  | [] => ⟨before, a, [], []⟩
  | b :: rest =>
    if a.stop = b.map then
      let b' : BuddyArea := { b with map := a.map, blkCount := b.blkCount + a.blkCount }
      match before.getLast? with
      | some c =>
        if c.stop = b'.map then
          ⟨before.dropLast, { c with blkCount := c.blkCount + b'.blkCount }, rest, [a, b']⟩
        else ⟨before, b', rest, [a]⟩
      | none => ⟨before, b', rest, [a]⟩
    else if b.stop = a.map then
      let b' : BuddyArea := { b with blkCount := b.blkCount + a.blkCount }
      match rest with
      | c :: rest' =>
        if b'.stop = c.map then
          ⟨before, { b' with blkCount := b'.blkCount + c.blkCount }, rest', [a, c]⟩
        else ⟨before, b', c :: rest', [a]⟩
      | [] => ⟨before, b', [], [a]⟩
    else if a.stop < b.map then ⟨before, a, b :: rest, []⟩
    else putScan a (before ++ [b]) rest

def splitOddBlock (bin : Nat) (merge : BuddyArea) :
    Option (BuddyAllocator × List BuddyArea × BuddyArea) :=
  -- a merge area that starts between two blocks of the bigger bin
  if merge.map % 2 ^ (bin + 1) ≠ 0 ∧ 3 ≤ merge.blkCount then
    (buddyHkAlloc ba merge.map bin 1).map fun (ba, a) =>
      (ba, [a], { merge with
        map := add merge.map (2 ^ bin), blkCount := merge.blkCount - 1 })
  else some (ba, [], merge)

def promoteBlocks (bin : Nat) (before : List BuddyArea)
    (merge : BuddyArea) (after : List BuddyArea) : BuddyAllocator × Option BuddyArea :=
  if merge.map % 2 ^ (bin + 1) = 0 ∧ 2 ≤ merge.blkCount then
    match buddyHkAlloc ba merge.map (bin + 1) (merge.blkCount / 2) with
    | none => (ba.setBin bin (before ++ merge :: after), none)
    | some (ba, residue) =>
      let merge' : BuddyArea := { merge with
        map := add merge.map residue.size,
        blkCount := merge.blkCount - residue.blkCount * 2 }
      if merge'.blkCount = 0 then
        (buddyHkFree (ba.setBin bin (before ++ after)) merge', some residue)
      else (ba.setBin bin (before ++ merge' :: after), some residue)
  else (ba.setBin bin (before ++ merge :: after), none)

/-- `__buddy_bins_put`: the residue, if any, belongs to the next bin. -/
def buddyBinsPutArea (a : BuddyArea) : BuddyAllocator × Option BuddyArea :=
  if a.binNum < ba.config.minBin ∨ ba.config.maxBin < a.binNum then (ba, none)
  else
    let scan := putScan a [] (ba.bins a.binNum)
    let ba := scan.freed.foldl buddyHkFree ba
    if a.binNum = ba.config.maxBin then
      (ba.setBin a.binNum (scan.before ++ scan.merge :: scan.after), none)
    else
      match splitOddBlock ba a.binNum scan.merge with
      | none => (ba.setBin a.binNum (scan.before ++ scan.merge :: scan.after), none)
      | some (ba, odd, merge) =>
        promoteBlocks ba a.binNum (scan.before ++ odd) merge scan.after

/-- The loop of `buddy_bins_put`. The residue moves up one bin in each round, so
the number of bins bounds the rounds. -/
def buddyBinsPutLoop : Nat → BuddyAllocator → Option BuddyArea → BuddyAllocator
  | 0, ba, _ => ba
  | _ + 1, ba, none => ba
  | fuel + 1, ba, some residue =>
    let (ba, residue) := buddyBinsPutArea ba residue
    buddyBinsPutLoop fuel ba residue

def buddyBinsPut (a : BuddyArea) : BuddyAllocator :=
  buddyBinsPutLoop (ba.config.maxBin + 2) ba (some a)

/-! ## Taking areas from the bins -/

-- `blkCount` blocks from the front of the area found in the desired bin
variable (bin blkCount : Nat)

def takeBlocks (before : List BuddyArea)
    (a : BuddyArea) (after : List BuddyArea) : BuddyAllocator × Option BuddyArea :=
  match buddyHkAlloc ba a.map bin blkCount with
  | none => (ba, none)
  | some (ba, ret) =>
    let a' : BuddyArea := { a with
      map := add a.map (mul blkCount (2 ^ bin)), blkCount := a.blkCount - blkCount }
    if a'.blkCount = 0 then (buddyHkFree (ba.setBin bin (before ++ after)) a', some ret)
    else (ba.setBin bin (before ++ a' :: after), some ret)

-- an area of the bigger bin, downgraded to the desired one
def downgradeArea (ret : BuddyArea) : BuddyAllocator × Option BuddyArea :=
  let ret : BuddyArea := { ret with binNum := ret.binNum - 1, blkCount := ret.blkCount * 2 }
  if ret.blkCount = blkCount then (ba, some ret)
  else
    match buddyHkAlloc ba (add ret.map (mul blkCount (2 ^ bin))) bin
        (ret.blkCount - blkCount) with
    | none => (ba, some ret)
    | some (ba, residue) => (buddyBinsPut ba residue, some { ret with blkCount := blkCount })

/-- `buddy_bins_get`. The recursion moves up one bin and stops beyond `max_bin`,
so the number of bins is enough fuel. -/
def buddyBinsGetFrom : Nat → BuddyAllocator → Nat → Nat → BuddyAllocator × Option BuddyArea
  | 0, ba, _, _ => (ba, none)
  | fuel + 1, ba, bin, blkCount =>
    if blkCount = 0 ∨ bin < ba.config.minBin ∨ ba.config.maxBin < bin then (ba, none)
    else
      match splitAtFirst (fun a => decide (blkCount ≤ a.blkCount)) (ba.bins bin) with
      | some (before, a, after) => takeBlocks ba bin blkCount before a after
      | none =>
        match buddyBinsGetFrom fuel ba (bin + 1) ((blkCount + 1) / 2) with
        | (ba, none) => (ba, none)
        | (ba, some ret) => downgradeArea ba bin blkCount ret

def buddyBinsGet : BuddyAllocator × Option BuddyArea :=
  buddyBinsGetFrom (ba.config.maxBin + 2) ba bin blkCount

/-- The containment test of `buddy_bins_reserve`, with its sums as the machine
computes them. -/
def reserveTest (addr size : Nat) (a : BuddyArea) : Bool :=
  decide (a.map ≤ addr ∧ addr < a.stop ∧ a.map ≤ add addr size ∧ add addr size ≤ a.stop)

-- cut `ret` out of the free area `a`; what follows `ret` becomes an area of its own
def carveArea (bin : Nat) (before : List BuddyArea) (a : BuddyArea)
    (after : List BuddyArea) (ret : BuddyArea) : BuddyAllocator × Option BuddyArea :=
  let tail := sub a.stop ret.stop / 2 ^ bin
  let head : BuddyArea := { a with blkCount := sub ret.map a.map / 2 ^ bin }
  let close (ba : BuddyAllocator) (after : List BuddyArea) :
      BuddyAllocator × Option BuddyArea :=
    if head.blkCount = 0 then (buddyHkFree (ba.setBin bin (before ++ after)) head, some ret)
    else (ba.setBin bin (before ++ head :: after), some ret)
  if tail ≠ 0 then
    match buddyHkAlloc ba ret.stop bin tail with
    | none => (buddyHkFree ba ret, none)
    | some (ba, b) => close ba (b :: after)
  else close ba after

def buddyBinsReserve (bin addr size : Nat) : BuddyAllocator × Option BuddyArea :=
  if size = 0 ∨ bin < ba.config.minBin ∨ ba.config.maxBin < bin then (ba, none)
  else
    let size := add size (addr - alignDown addr bin)
    let addr := alignDown addr bin
    let blkCount := blockCountUp size bin
    let size := mul blkCount (2 ^ bin)
    match splitAtFirst (reserveTest addr size) (ba.bins bin) with
    | none => (ba, none)
    | some (before, a, after) =>
      match buddyHkAlloc ba addr bin blkCount with
      | none => (ba, none)
      | some (ba, ret) => carveArea ba bin before a after ret

/-! ## The public operations -/

inductive Status where
  | ok
  | fail
  | invalid
  | noMemory
  | notAvailable
  deriving DecidableEq, Repr

/-- The end of every allocation: `none` only when `__buddy_alloc_add` hits its `BUG_ON`. -/
def finishAlloc (a : BuddyArea) : Option (BuddyAllocator × Status × Nat) :=
  (buddyAllocAdd rb ba a).map fun ba => (ba, .ok, a.map)

-- downgrade an area to a smaller bin
def BuddyArea.lowerTo (a : BuddyArea) (bin : Nat) : BuddyArea :=
  { a with blkCount := mul a.blkCount (2 ^ (a.binNum - bin)), binNum := bin }

-- keep the first `blkCount` blocks; the flag tells whether the pool had an object for the rest
def trimArea (a : BuddyArea) (blkCount : Nat) : BuddyAllocator × BuddyArea × Bool :=
  if blkCount < a.blkCount then
    match buddyHkAlloc ba (add a.map (mul blkCount (2 ^ a.binNum))) a.binNum
        (a.blkCount - blkCount) with
    | none => (ba, a, false)
    | some (ba, t) => (buddyBinsPut ba t, { a with blkCount := blkCount }, true)
  else (ba, a, true)

-- downgrade to the smallest bin and try to reduce memory wastage
def reduceWastage (a : BuddyArea) (size : Nat) : BuddyAllocator × BuddyArea :=
  let a := a.lowerTo ba.config.minBin
  let (ba, a, _) := trimArea ba a (blockCountUp size a.binNum)
  (ba, a)

def buddyMemAlloc (size : Nat) : Option (BuddyAllocator × Status × Nat) :=
  if size = 0 then some (ba, .invalid, 0)
  else
    let bin := buddyEstimateBin ba.config size
    match buddyBinsGet ba bin (blockCountUp size bin) with
    | (ba, none) => some (ba, .noMemory, 0)
    | (ba, some a) =>
      let (ba, a) := reduceWastage ba a size
      finishAlloc rb ba a

def buddyMemAlignedAlloc (order size : Nat) : Option (BuddyAllocator × Status × Nat) :=
  if size = 0 ∨ ba.config.maxBin < order then some (ba, .invalid, 0)
  else
    let bin := buddyEstimateBin ba.config size
    let blkCount := blockCountUp size bin
    if order ≤ bin then
      match buddyBinsGet ba bin blkCount with
      | (ba, none) => some (ba, .noMemory, 0)
      | (ba, some a) =>
        let (ba, a) := reduceWastage ba a size
        finishAlloc rb ba a
    else
      match buddyBinsGet ba order (blockCountUp size order) with
      | (ba, none) => some (ba, .noMemory, 0)
      | (ba, some a) =>
        let (ba, a, trimmed) := trimArea ba
          { a with blkCount := mul a.blkCount (2 ^ (order - bin)), binNum := bin } blkCount
        if trimmed then
          let (ba, a) := reduceWastage ba a size
          finishAlloc rb ba a
        -- without an object for the residue the area is kept whole
        else finishAlloc rb ba a

/-- The loop of `buddy_mem_reserve` over the bins. -/
def reserveFrom (addr size : Nat) : List Nat → BuddyAllocator → BuddyAllocator × Option BuddyArea
  | [], ba => (ba, none)
  | bin :: rest, ba =>
    match buddyBinsReserve ba bin addr size with
    | (ba, some a) => (ba, some a)
    | (ba, none) => reserveFrom addr size rest ba

-- residue from the start of the reserved area; the flag tells whether the pool had an object
def trimFront (a : BuddyArea) (addr : Nat) : BuddyAllocator × BuddyArea × Bool :=
  let count := sub addr a.map / 2 ^ a.binNum
  if count ≠ 0 then
    match buddyHkAlloc ba a.map a.binNum count with
    | none => (ba, a, false)
    | some (ba, b) =>
      (buddyBinsPut ba b,
        { a with map := add a.map b.size, blkCount := a.blkCount - b.blkCount }, true)
  else (ba, a, true)

-- residue from the end of the reserved area
def trimBack (a : BuddyArea) (addr size : Nat) : BuddyAllocator × BuddyArea :=
  let excess := add addr size % 2 ^ a.binNum
  let tsz := if excess ≠ 0 then add size (2 ^ a.binNum - excess) else size
  let count := sub a.stop (add addr tsz) / 2 ^ a.binNum
  if count ≠ 0 then
    match buddyHkAlloc ba (add addr tsz) a.binNum count with
    | none => (ba, a)
    | some (ba, b) => (buddyBinsPut ba b, { a with blkCount := a.blkCount - b.blkCount })
  else (ba, a)

/-- `addr < mem_start` or beyond the end, as every operation on an address checks first. -/
def outside (config : BuddyConfig) (addr : Nat) : Prop :=
  addr < config.memStart ∨ add config.memStart config.memSize ≤ addr

instance (config : BuddyConfig) (addr : Nat) : Decidable (outside config addr) :=
  inferInstanceAs (Decidable (_ ∨ _))

def buddyMemReserve (addr size : Nat) : Option (BuddyAllocator × Status) :=
  if size = 0 ∨ outside ba.config addr then some (ba, .invalid)
  else
    match reserveFrom addr size
        (List.range' ba.config.minBin (ba.config.maxBin + 1 - ba.config.minBin)) ba with
    | (ba, none) => some (ba, .notAvailable)
    | (ba, some a) =>
      let (ba, a, trimmed) := trimFront ba (a.lowerTo ba.config.minBin) addr
      let (ba, a) := if trimmed then trimBack ba a addr size else (ba, a)
      (buddyAllocAdd rb ba a).map fun ba => (ba, .ok)

def buddyMemFree (addr : Nat) : BuddyAllocator × Status :=
  if outside ba.config addr then (ba, .invalid)
  else
    match buddyAllocFind ba addr with
    | none => (ba, .notAvailable)
    | some a => (buddyBinsPut (buddyAllocDel rb ba a) a, .ok)

/-! ## Initialisation -/

def sizeofBuddyArea : Nat := 64

-- `1 << min_bin` is an `int`; bit 31 is the sign and extends over the whole word
def intOneShl (bin : Nat) : Nat := if bin = 31 then 2 ^ 64 - 2 ^ 31 else 2 ^ bin

/-- The fill loop. Every round takes at least one byte off `memSize`, which is
therefore enough fuel for itself. -/
def fillBins : Nat → BuddyAllocator → Nat → Nat → BuddyAllocator × Status
  | 0, ba, _, _ => (ba, .ok)
  | fuel + 1, ba, memStart, memSize =>
    if memSize = 0 then (ba, .ok)
    else
      let bin := buddyEstimateBin ba.config memSize
      if memSize < 2 ^ bin then (ba, .ok)
      else
        let count := memSize / 2 ^ bin
        match buddyHkAlloc ba memStart bin count with
        | none => (ba, .noMemory)
        | some (ba, a) =>
          fillBins fuel (buddyBinsPut ba a) (memStart + count * 2 ^ bin)
            (memSize - count * 2 ^ bin)

def freshAllocator (config : BuddyConfig) : BuddyAllocator where
  config := config
  hkFreeCount := config.hkTotalCount
  hkFreeList := List.replicate config.hkTotalCount ⟨0, 0, 0⟩
  alloc := .leaf
  bins _ := []

def buddyAllocatorInit (hkAreaSize memStart memSize minBin maxBin : Nat) :
    Except Status BuddyAllocator :=
  if maxBin < minBin ∨ 32 ≤ minBin ∨ 32 ≤ maxBin ∨ memSize < intOneShl minBin ∨
      memStart % 2 ^ minBin ≠ 0 ∨ add memStart memSize ≤ memStart ∨
      hkAreaSize < sizeofBuddyArea then .error .invalid
  else
    let config : BuddyConfig := ⟨hkAreaSize / sizeofBuddyArea, memStart, memSize, minBin, maxBin⟩
    match fillBins memSize (freshAllocator config) memStart memSize with
    | (ba, .ok) => .ok ba
    | (_, status) => .error status

end Xvisor.Buddy
