import Xvisor.Guest.Aspace
import Xvisor.Guest.RegionAdd

/-!
# Access to guest memory

`vmm_guest_memory_read` and `vmm_guest_memory_write` cut a transfer into pieces
that lie in one mapping, and the host functions cut each piece at the page
boundaries.
-/

namespace Xvisor.Guest

open Function List Lib Word

abbrev HostMemory := Nat → UInt8

/-! ## Host side -/

def hostReadLoop (mem : HostMemory) : Nat → Nat → Nat → List UInt8
  | 0, _, _ => []
  | steps + 1, hpa, remaining =>
    if remaining = 0 then []
    else
      let pageOffset := hpa % 4096
      let pageRead := min (4096 - pageOffset) remaining
      (List.range pageRead).map (fun i => mem (hpa - pageOffset + (pageOffset + i))) ++
        hostReadLoop mem steps (add hpa pageRead) (remaining - pageRead)

def vmmHostMemoryRead (mem : HostMemory) (hpa len : Nat) : List UInt8 :=
  hostReadLoop mem len hpa len

def copyTo (mem : HostMemory) (base : Nat) : List UInt8 → HostMemory
  | [] => mem
  | byte :: rest => copyTo (update mem base byte) (base + 1) rest

/-- The page loop of `vmm_host_memory_write`; the result counts the bytes written. -/
def hostWriteLoop (mem : HostMemory) : Nat → Nat → List UInt8 → HostMemory × Nat
  | 0, _, _ => (mem, 0)
  | steps + 1, hpa, src =>
    if src.length = 0 then (mem, 0)
    else
      let pageOffset := hpa % 4096
      let pageWrite := min (4096 - pageOffset) src.length
      let mem := copyTo mem (hpa - pageOffset + pageOffset) (src.take pageWrite)
      let (mem, written) := hostWriteLoop mem steps (add hpa pageWrite) (src.drop pageWrite)
      (mem, pageWrite + written)

def vmmHostMemoryWrite (mem : HostMemory) (hpa : Nat) (src : List UInt8) : HostMemory × Nat :=
  hostWriteLoop mem src.length hpa src

/-! ## Guest side -/

def u32Max : Nat := 2 ^ 32 - 1

def pieceSize (available remaining : Nat) : Nat :=
  let size := if available < u32Max then available else u32Max
  if remaining < size then remaining else size

namespace Aspace

def guestReadLoop (aspace : Aspace) (fuel : Nat) (mem : HostMemory) :
    Nat → Nat → Nat → Option (List UInt8)
  | 0, _, _ => some []
  | steps + 1, gphys, remaining =>
    if remaining = 0 then some []
    else
      match aspace.findRegion fuel gphys (.real ||| .memory) true with
      | .missing => some []
      | .hangs => none
      | .found reg =>
        let (hphys, available) := reg.findMapping gphys
        let bytes := vmmHostMemoryRead mem hphys (pieceSize available remaining)
        if bytes.length = 0 then some []
        else
          (guestReadLoop aspace fuel mem steps (add gphys bytes.length)
            (remaining - bytes.length)).map (bytes ++ ·)

def vmmGuestMemoryRead (aspace : Aspace) (fuel : Nat) (mem : HostMemory) (gphys len : Nat) :
    Option (List UInt8) :=
  aspace.guestReadLoop fuel mem len gphys len

def guestWriteLoop (aspace : Aspace) (fuel : Nat) (mem : HostMemory) :
    Nat → Nat → List UInt8 → Option (HostMemory × Nat)
  | 0, _, _ => some (mem, 0)
  | steps + 1, gphys, src =>
    if src.length = 0 then some (mem, 0)
    else
      match aspace.findRegion fuel gphys (.real ||| .memory) true with
      | .missing => some (mem, 0)
      | .hangs => none
      | .found reg =>
        let (hphys, available) := reg.findMapping gphys
        let (mem, toWrite) :=
          vmmHostMemoryWrite mem hphys (src.take (pieceSize available src.length))
        if toWrite = 0 then some (mem, 0)
        else
          (guestWriteLoop aspace fuel mem steps (add gphys toWrite) (src.drop toWrite)).map
            fun (mem, written) => (mem, toWrite + written)

def vmmGuestMemoryWrite (aspace : Aspace) (fuel : Nat) (mem : HostMemory) (gphys : Nat)
    (src : List UInt8) : Option (HostMemory × Nat) :=
  aspace.guestWriteLoop fuel mem src.length gphys src

end Aspace

/-! ## Addresses of a transfer -/

def addresses (base len : Nat) : List Nat := (List.range len).map (add base)

theorem length_addresses (base len : Nat) : (addresses base len).length = len := by
  simp [addresses]

theorem addresses_add (base m n : Nat) :
    addresses base (m + n) = addresses base m ++ addresses (add base m) n := by
  simp [addresses, range_add, add_add]

variable {base hpa steps : Nat}

theorem addresses_succ (word : base < 2 ^ 64) (n : Nat) :
    addresses base (n + 1) = base :: addresses (base + 1) n := by
  simp only [addresses, range_succ_eq_map, map_cons, map_map]
  congr 1
  · exact Nat.mod_eq_of_lt word
  · apply map_congr_left
    intro i _
    simp only [comp, add]
    congr 1
    omega

def store (mem : HostMemory) (addrs : List Nat) (bytes : List UInt8) : HostMemory :=
  (addrs.zip bytes).foldl (fun mem (addr, byte) => update mem addr byte) mem

theorem store_append (mem : HostMemory) (first second : List Nat) {bytes : List UInt8}
    (enough : first.length ≤ bytes.length) :
    store mem (first ++ second) bytes =
      store (store mem first (bytes.take first.length)) second (bytes.drop first.length) := by
  have sameLength : first.length = (bytes.take first.length).length := by
    rw [length_take, min_eq_left enough]
  conv_lhs => rw [← take_append_drop first.length bytes]
  rw [store, zip_append sameLength, foldl_append]
  rfl

theorem copyTo_eq (mem : HostMemory) {src : List UInt8} (inside : base + src.length ≤ 2 ^ 64) :
    copyTo mem base src = store mem (addresses base src.length) src := by
  induction src generalizing mem base with
  | nil => rfl
  | cons byte rest ih =>
    rw [length_cons] at inside
    rw [copyTo, ih _ (by omega), length_cons, addresses_succ (by omega) rest.length]
    rfl

section

variable (mem : HostMemory) (word : hpa < 2 ^ 64)
include mem word

theorem hostReadLoop_eq {remaining : Nat} (enough : remaining ≤ steps) :
    hostReadLoop mem steps hpa remaining = (addresses hpa remaining).map mem := by
  induction steps generalizing hpa remaining with
  | zero =>
    obtain rfl : remaining = 0 := by omega
    rfl
  | succ steps ih =>
    simp only [hostReadLoop]
    split
    · next empty =>
      rw [empty]
      rfl
    · next notEmpty =>
      have inPage := min_le_left (4096 - hpa % 4096) remaining
      have inRange := min_le_right (4096 - hpa % 4096) remaining
      have progress : 0 < min (4096 - hpa % 4096) remaining := by omega
      generalize min (4096 - hpa % 4096) remaining = pageRead at inPage inRange progress
      rw [ih (add_lt _ _) (by omega)]
      have whole : remaining = pageRead + (remaining - pageRead) := by omega
      conv_rhs => rw [whole, addresses_add, map_append]
      congr 1
      simp only [addresses, map_map]
      apply map_congr_left
      intro i isOffset
      rw [mem_range] at isOffset
      simp only [comp, add]
      congr 1
      omega

theorem vmmHostMemoryRead_eq (len : Nat) :
    vmmHostMemoryRead mem hpa len = (addresses hpa len).map mem :=
  hostReadLoop_eq mem word (le_refl len)

theorem hostWriteLoop_eq {src : List UInt8} (enough : src.length ≤ steps) :
    hostWriteLoop mem steps hpa src =
      (store mem (addresses hpa src.length) src, src.length) := by
  induction steps generalizing mem hpa src with
  | zero =>
    obtain rfl : src = [] := length_eq_zero_iff.mp (by omega)
    rfl
  | succ steps ih =>
    simp only [hostWriteLoop]
    split
    · next empty =>
      obtain rfl : src = [] := length_eq_zero_iff.mp empty
      rfl
    · next notEmpty =>
      have inPage := min_le_left (4096 - hpa % 4096) src.length
      have inRange := min_le_right (4096 - hpa % 4096) src.length
      have progress : 0 < min (4096 - hpa % 4096) src.length := by omega
      generalize min (4096 - hpa % 4096) src.length = pageWrite at inPage inRange progress
      have base : hpa - hpa % 4096 + hpa % 4096 = hpa := by omega
      have rest : (src.drop pageWrite).length = src.length - pageWrite := length_drop
      have first : (src.take pageWrite).length = pageWrite := by
        rw [length_take, min_eq_left inRange]
      rw [ih _ (add_lt _ _) (by omega), base, @copyTo_eq hpa mem (src.take pageWrite) (by omega),
        first, rest]
      have whole : src.length = pageWrite + (src.length - pageWrite) := by omega
      refine Prod.ext ?_ ?_
      · conv_rhs => rw [whole, addresses_add]
        rw [store_append, length_addresses]
        rw [length_addresses]
        exact inRange
      · exact whole.symm

theorem vmmHostMemoryWrite_eq (src : List UInt8) :
    vmmHostMemoryWrite mem hpa src = (store mem (addresses hpa src.length) src, src.length) :=
  hostWriteLoop_eq mem word (le_refl _)

end

/-! ## Guest memory access against guest address mapping

The addresses a transfer should visit are those that `vmm_guest_physical_map` gives. -/

open Region Option

/-- The host addresses of a transfer, up to the first guest address without one. -/
def transfer (designates : Nat → Option Nat) : Nat → Nat → List Nat
  | _, 0 => []
  | gphys, len + 1 =>
    match designates gphys with
    | none => []
    | some hphys => hphys :: transfer designates (add gphys 1) len

theorem transfer_of_none {designates : Nat → Option Nat} {gphys : Nat}
    (stops : designates gphys = none) (len : Nat) : transfer designates gphys len = [] := by
  cases len <;> simp [transfer, stops]

theorem transfer_add {designates : Nat → Option Nat} {gphys hphys n : Nat}
    (gphysWord : gphys < 2 ^ 64) (hphysWord : hphys < 2 ^ 64)
    (linear : ∀ i < n, designates (add gphys i) = some (add hphys i)) (m : Nat) :
    transfer designates gphys (n + m) =
      addresses hphys n ++ transfer designates (add gphys n) m := by
  induction n generalizing gphys hphys with
  | zero =>
    rw [zero_add, add_of_lt (by omega)]
    rfl
  | succ n ih =>
    have here : designates gphys = some hphys := by
      have first := linear 0 (by omega)
      rw [add_of_lt (by omega), add_of_lt (by omega)] at first
      exact first
    have later : ∀ i < n, designates (add (add gphys 1) i) =
        some (add (add hphys 1) i) := by
      intro i inRange
      rw [add_add, add_add, add_comm 1]
      exact linear (i + 1) (by omega)
    have head : addresses hphys (n + 1) = hphys :: addresses (add hphys 1) n := by
      rw [add_comm, addresses_add, addresses_succ hphysWord]
      rfl
    rw [add_right_comm, transfer, here, head, cons_append,
      ih (add_lt _ _) (add_lt _ _) later, add_add, add_comm 1]

theorem Region.findMapping_lt (reg : Region) (gphys : Nat) :
    (reg.findMapping gphys).1 < 2 ^ 64 := by
  unfold findMapping
  split
  · exact Nat.two_pow_pos 64
  · exact add_lt _ _

namespace Aspace

variable {aspace : Aspace} {fuel : Nat}

def designates (aspace : Aspace) (fuel gphys : Nat) : Option Nat :=
  match aspace.physicalMap fuel gphys 1 with
  | .found mapping => if mapping.regFlags.all .real then some mapping.hphysAddr else none
  | _ => none

/-- The host addresses that the loops of the memory accesses visit. -/
def accesses (aspace : Aspace) (fuel : Nat) : Nat → Nat → Nat → Option (List Nat)
  | 0, _, _ => some []
  | steps + 1, gphys, remaining =>
    if remaining = 0 then some []
    else
      match aspace.findRegion fuel gphys (.real ||| .memory) true with
      | .missing => some []
      | .hangs => none
      | .found reg =>
        let (hphys, available) := reg.findMapping gphys
        let size := pieceSize available remaining
        if size = 0 then some []
        else
          (accesses aspace fuel steps (add gphys size) (remaining - size)).map
            (addresses hphys size ++ ·)

theorem pieceSize_le (available remaining : Nat) :
    pieceSize available remaining ≤ available ∧ pieceSize available remaining ≤ remaining := by
  unfold pieceSize
  dsimp only
  split_ifs <;> omega

theorem pieceSize_pos {available remaining : Nat} (isAvailable : 0 < available)
    (isRemaining : 0 < remaining) : 0 < pieceSize available remaining := by
  unfold pieceSize u32Max
  dsimp only
  split_ifs <;> omega

theorem guestReadLoop_eq (mem : HostMemory) (steps gphys remaining : Nat) :
    aspace.guestReadLoop fuel mem steps gphys remaining =
      (aspace.accesses fuel steps gphys remaining).map (List.map mem) := by
  induction steps generalizing gphys remaining with
  | zero => rfl
  | succ steps ih =>
    simp only [guestReadLoop, accesses]
    split
    · rfl
    · cases aspace.findRegion fuel gphys (.real ||| .memory) true with
      | missing => rfl
      | hangs => rfl
      | found reg =>
        simp only [vmmHostMemoryRead_eq mem (reg.findMapping_lt gphys), length_map,
          length_addresses]
        split
        · rfl
        · rw [ih, Option.map_map, Option.map_map]
          congr 1
          funext addrs
          simp

theorem guestWriteLoop_eq (mem : HostMemory) (steps gphys : Nat) (src : List UInt8) :
    aspace.guestWriteLoop fuel mem steps gphys src =
      (aspace.accesses fuel steps gphys src.length).map fun addrs =>
        (store mem addrs src, addrs.length) := by
  induction steps generalizing mem gphys src with
  | zero => rfl
  | succ steps ih =>
    simp only [guestWriteLoop, accesses]
    split
    · rfl
    · cases aspace.findRegion fuel gphys (.real ||| .memory) true with
      | missing => rfl
      | hangs => rfl
      | found reg =>
        have inRange := (pieceSize_le (reg.findMapping gphys).2 src.length).2
        have taken : (src.take (pieceSize (reg.findMapping gphys).2 src.length)).length =
            pieceSize (reg.findMapping gphys).2 src.length := by
          rw [length_take, min_eq_left inRange]
        simp only [vmmHostMemoryWrite_eq mem (reg.findMapping_lt gphys), taken]
        split
        · next empty =>
          simp [empty, store]
        · rw [ih, Option.map_map, Option.map_map, length_drop]
          congr 1
          funext addrs
          simp only [Function.comp, length_append, length_addresses]
          rw [store_append, length_addresses]
          rw [length_addresses]
          exact inRange

section

variable (aspace : Aspace)

theorem designates_eq (fuel gphys : Nat) : aspace.designates fuel gphys =
    match aspace.locate fuel gphys with
    | .found (reg, target) =>
      if reg.flags.all .real then some (reg.findMapping target).1 else none
    | _ => none := by
  unfold designates physicalMap
  cases aspace.locate fuel gphys <;> rfl

def NoAlias (fuel gphys len : Nat) : Prop :=
  ∀ i < (transfer (aspace.designates fuel) gphys len).length, ∀ reg,
    aspace.descend .memory (add gphys i) = some reg → ¬ reg.isAlias

/-- The host address that a memory access finds for a guest address: none in an alias region. -/
def reaches (fuel gphys : Nat) : Option Nat :=
  if (aspace.descend .memory gphys).any (·.isAlias) then none else aspace.designates fuel gphys

/-- The accesses stop at the first address in an alias region. -/
theorem transfer_reaches (fuel gphys len : Nat) : aspace.NoAlias fuel gphys len ∧
        transfer (aspace.reaches fuel) gphys len = transfer (aspace.designates fuel) gphys len ∨
      ¬ aspace.NoAlias fuel gphys len ∧ (transfer (aspace.reaches fuel) gphys len).length <
        (transfer (aspace.designates fuel) gphys len).length := by
  induction len generalizing gphys with
  | zero => exact .inl ⟨by simp [NoAlias, transfer], rfl⟩
  | succ len ih =>
    cases found : aspace.designates fuel gphys with
    | none =>
      refine .inl ⟨by simp [NoAlias, transfer, found], ?_⟩
      rw [transfer_of_none found, transfer_of_none]
      rw [reaches, found]
      exact ite_self _
    | some hphys =>
      have start : add gphys 0 = gphys := by
        rw [designates_eq, locate_eq] at found
        split at found
        · next located =>
          split at located
          · cases located
          · next isReg => exact Nat.mod_eq_of_lt (descend_some isReg).2.1.word
        · cases found
      by_cases isAlias : (aspace.descend .memory gphys).any (·.isAlias) = true
      · have stops : aspace.reaches fuel gphys = none := if_pos isAlias
        refine .inr ⟨fun noAlias => ?_, by simp [transfer, found, stops]⟩
        obtain ⟨reg, isReg, aliased⟩ := any_eq_true _ _ |>.mp isAlias
        exact noAlias 0 (by simp [transfer, found]) reg (start.symm ▸ isReg) aliased
      · have goesOn : aspace.reaches fuel gphys = some hphys := (if_neg isAlias).trans found
        have rest : aspace.NoAlias fuel gphys (len + 1) ↔
            aspace.NoAlias fuel (add gphys 1) len := by
          simp only [NoAlias, transfer, found, length_cons, add_add]
          constructor
          · intro noAlias i inRest reg
            rw [add_comm]
            exact noAlias (i + 1) (by omega) reg
          · rintro noAlias (_ | i) inTransfer reg isReg
            · rw [start] at isReg
              simpa [isReg] using isAlias
            · rw [add_comm] at isReg
              exact noAlias i (by omega) reg isReg
        simp only [rest, transfer, found, goesOn, List.cons.injEq, true_and, length_cons,
          add_lt_add_iff_right]
        exact ih _

end

section Piece

variable {gphys : Nat} {reg : Region}

theorem WellFormed.reaches_linear (wellFormed : aspace.WellFormed) (fuel : Nat)
    (found : aspace.descend .memory gphys = some reg) (notAlias : ¬ reg.isAlias)
    (real : reg.flags.all .real) {i : Nat} (available : i < (reg.findMapping gphys).2) :
    aspace.reaches fuel (add gphys i) = some (add (reg.findMapping gphys).1 i) := by
  obtain ⟨membership, contains, memory⟩ := descend_some found
  have mapped := wellFormed.mapped reg membership
  obtain ⟨inside, linear⟩ := findMapping_linear mapped contains available
  have bounds := inside.bounds mapped.size
  have noWrap : gphys + i < 2 ^ 64 := by
    omega
  rw [add_of_lt noWrap]
  have here := wellFormed.descend_of_contains membership inside memory
  rw [reaches, here, designates_eq, locate_eq, here]
  simp only [any_some, notAlias, follow_of_not_alias notAlias, real, if_true, linear]
  rfl

variable {remaining target : Nat}

theorem WellFormed.findMapping_of_alias {first : Region} (wellFormed : aspace.WellFormed)
    (found : aspace.descend .memory gphys = some first) (isAlias : first.isAlias)
    (located : aspace.locate fuel gphys = .found (reg, target)) :
    reg.findMapping gphys = (0, 0) := by
  obtain ⟨membership, _, notAlias, memory⟩ := locate_found located
  have outside : ¬ reg.Contains gphys := by
    intro contains
    rw [wellFormed.descend_of_contains membership contains memory] at found
    cases found
    exact notAlias isAlias
  have missed : reg.mappingFind gphys = none := by
    rw [mappingFind, if_pos]
    unfold Region.Contains at outside
    omega
  rw [findMapping, missed]

theorem WellFormed.accesses_piece (wellFormed : aspace.WellFormed) (fuel : Nat)
    (found : aspace.descend .memory gphys = some reg) (notAlias : ¬ reg.isAlias)
    (real : reg.flags.all .real) (notEmpty : remaining ≠ 0) :
    ∃ n hphys, 0 < n ∧ n ≤ remaining ∧ (∀ steps, aspace.accesses fuel (steps + 1) gphys remaining =
        (aspace.accesses fuel steps (add gphys n) (remaining - n)).map
          (addresses hphys n ++ ·)) ∧
      transfer (aspace.reaches fuel) gphys remaining =
        addresses hphys n ++ transfer (aspace.reaches fuel) (add gphys n) (remaining - n) := by
  obtain ⟨membership, contains, _⟩ := descend_some found
  have available := findMapping_available (wellFormed.mapped reg membership) contains
  have progress := pieceSize_pos available (pos_of_ne_zero notEmpty)
  obtain ⟨inMapping, inRange⟩ := pieceSize_le (reg.findMapping gphys).2 remaining
  have whole := transfer_add contains.word (reg.findMapping_lt gphys)
    (fun i (inPiece : i < pieceSize (reg.findMapping gphys).2 remaining) =>
      wellFormed.reaches_linear fuel found notAlias real (inPiece.trans_le inMapping))
    (remaining - pieceSize (reg.findMapping gphys).2 remaining)
  rw [Nat.add_sub_cancel' inRange] at whole
  refine ⟨_, _, progress, inRange, ?_, whole⟩
  intro steps
  rw [accesses, if_neg notEmpty, findRegion_real, locate_eq, found]
  simp only [follow_of_not_alias notAlias, real, if_true]
  rw [if_neg (ne_of_gt progress)]

end Piece

theorem WellFormed.accesses_eq (wellFormed : aspace.WellFormed)
    (ends : ∀ gphys, aspace.locate fuel gphys ≠ .hangs) (gphys : Nat) {steps remaining : Nat}
    (enough : remaining ≤ steps) :
    aspace.accesses fuel steps gphys remaining =
      some (transfer (aspace.reaches fuel) gphys remaining) := by
  induction steps generalizing gphys remaining with
  | zero =>
    obtain rfl : remaining = 0 := by omega
    rfl
  | succ steps ih =>
    by_cases isEmpty : remaining = 0
    · subst isEmpty
      rfl
    · have designated := aspace.designates_eq fuel gphys
      have region := findRegion_real aspace fuel gphys
      have stopped : aspace.reaches fuel gphys = none → some [] =
          some (transfer (aspace.reaches fuel) gphys remaining) := by
        intro stops
        rw [transfer_of_none stops]
      cases located : aspace.locate fuel gphys with
      | hangs => exact absurd located (ends gphys)
      | missing =>
        rw [located] at designated region
        rw [accesses, if_neg isEmpty, region]
        exact stopped ((congrArg _ designated).trans (ite_self _))
      | found place =>
        obtain ⟨reg, target⟩ := place
        rw [located] at designated region
        by_cases real : reg.flags.all .real
        · cases first : aspace.descend .memory gphys with
          | none =>
            rw [locate_eq, first] at located
            cases located
          | some containing =>
            by_cases isAlias : containing.isAlias
            · rw [accesses, if_neg isEmpty, region]
              simp only [real, if_true, wellFormed.findMapping_of_alias first isAlias located]
              exact stopped (by simp [reaches, first, isAlias])
            · rw [locate_eq, first] at located
              simp only [follow_of_not_alias isAlias] at located
              cases located
              obtain ⟨n, hphys, progress, inRange, visited, whole⟩ :=
                wellFormed.accesses_piece fuel first isAlias real isEmpty
              rw [visited steps, ih (add gphys n) (by omega), whole]
              rfl
        · simp only [real, reduceCtorEq, reduceIte] at designated region
          rw [accesses, if_neg isEmpty, region]
          exact stopped ((congrArg _ designated).trans (ite_self _))

/-- For every well-formed address space with acyclic aliases, reading and writing guest memory
move exactly the bytes that `vmm_guest_physical_map` designates if and only if no address of
the transfer lies in an alias region. -/
theorem guestMemory_agrees_iff (aspace : Aspace) (wellFormed : aspace.WellFormed)
    (acyclic : aspace.Acyclic) :
    ∃ enough, ∀ fuel ≥ enough, ∀ (mem : HostMemory) (gphys : Nat),
      (∀ len, aspace.vmmGuestMemoryRead fuel mem gphys len =
          some ((transfer (aspace.designates fuel) gphys len).map mem) ↔
        aspace.NoAlias fuel gphys len) ∧
      ∀ src, aspace.vmmGuestMemoryWrite fuel mem gphys src =
          some (store mem (transfer (aspace.designates fuel) gphys src.length) src,
            (transfer (aspace.designates fuel) gphys src.length).length) ↔
        aspace.NoAlias fuel gphys src.length := by
  obtain ⟨enough, ends⟩ := acyclic.locate_ne_hangs
  refine ⟨enough, ?_⟩
  intro fuel isEnough mem gphys
  have visited := fun len => wellFormed.accesses_eq (ends fuel isEnough) gphys (le_refl len)
  refine ⟨?_, ?_⟩
  · intro len
    rw [vmmGuestMemoryRead, guestReadLoop_eq, visited, map_some, Option.some.injEq]
    rcases transfer_reaches aspace fuel gphys len with ⟨noAlias, same⟩ | ⟨aliased, shorter⟩
    · simp [noAlias, same]
    · refine iff_of_false ?_ aliased
      intro same
      have := congrArg List.length same
      simp only [length_map] at this
      omega
  · intro src
    rw [vmmGuestMemoryWrite, guestWriteLoop_eq, visited, map_some, Option.some.injEq,
      Prod.mk.injEq]
    rcases transfer_reaches aspace fuel gphys src.length with ⟨noAlias, same⟩ | ⟨aliased, shorter⟩
    · simp [noAlias, same]
    · refine iff_of_false ?_ aliased
      rintro ⟨_, same⟩
      omega

end Aspace

/-! ## A guest with an alias -/

def twoPages : AddCall where
  env := ⟨⟨1, 12, fun _ _ _ => true⟩, true, true⟩
  ram := ⟨[⟨⟨0x90000000, 0x10000, 16, 0⟩, 16⟩], fun _ => false⟩
  node := ⟨some .real, some .memory, some (.ram .reserved), some 0x1000, some 0x90001000, none,
    some 0x2000, none, none, some 12, none, none⟩

def aliasPage : AddCall where
  env := twoPages.env
  ram := twoPages.ram
  node := ⟨some .aliased, some .memory, some (.ram .reserved), some 0x5000, none, some 0x1000,
    some 0x1000, none, none, some 12, none, none⟩

def ramRegion : Region :=
  ⟨0x969, 0x1000, 0x1000, 0x2000, 12, 13, 1, [⟨0x90001000, true⟩]⟩

def aliasRegion : Region :=
  ⟨0x90C, 0x5000, 0x1000, 0x1000, 12, 12, 1, [⟨0x5000, false⟩]⟩

def aliasedGuest : Aspace := ⟨.node .leaf ramRegion (.node .leaf aliasRegion .leaf), .leaf⟩

theorem aliasedGuest_built : (aspaceSystem (.plain _)).Reachable aliasedGuest := by
  have ram : (aspaceSystem (.plain _)).Reachable ⟨.node .leaf ramRegion .leaf, .leaf⟩ :=
    (System.Reachable.start rfl).next
      (show (aspaceSystem (.plain _)).step .empty twoPages _ from ⟨ramRegion, _, rfl⟩)
  exact ram.next (show (aspaceSystem (.plain _)).step _ aliasPage _ from ⟨aliasRegion, _, rfl⟩)

theorem aliasedGuest_regions {reg : Region} (membership : reg ∈ aliasedGuest.memtree.toList) :
    reg = ramRegion ∨ reg = aliasRegion := by
  simpa [aliasedGuest] using membership

theorem aliasedGuest_wellFormed : aliasedGuest.WellFormed := by
  apply Ordered.wellFormed
  · exact ⟨by decide, by decide, by decide⟩
  · intro reg membership
    rcases aliasedGuest_regions membership with rfl | rfl
    all_goals exact ⟨by decide, by decide, by decide, by decide⟩

theorem aliasedGuest_acyclic : aliasedGuest.Acyclic := by
  refine ⟨fun reg => if reg.isAlias then 1 else 0, ?_⟩
  intro reg membership gphys target isAlias contains found
  obtain ⟨isRegion, targetContains, _⟩ := Aspace.descend_some found
  rcases aliasedGuest_regions membership with rfl | rfl
  · cases isAlias
  · rcases aliasedGuest_regions isRegion with rfl | rfl
    · decide
    · exfalso
      simp only [Region.Contains, gphysToAphys, gphysEnd, aliasRegion, add,
        sub] at contains targetContains
      omega

/-- Two bytes across a page boundary of the RAM are read where they lie. -/
theorem guestMemory_agrees_ram :
    (aspaceSystem (.plain _)).Reachable aliasedGuest ∧ ∃ fuel, ∀ mem : HostMemory,
      aliasedGuest.vmmGuestMemoryRead fuel mem 0x1FFF 2 =
        some [mem 0x90001FFF, mem 0x90002000] := by
  refine ⟨aliasedGuest_built, ?_⟩
  obtain ⟨enough, agrees⟩ :=
    Aspace.guestMemory_agrees_iff aliasedGuest aliasedGuest_wellFormed aliasedGuest_acyclic
  refine ⟨enough + 1, ?_⟩
  intro mem
  apply ((agrees (enough + 1) (by omega) mem 0x1FFF).1 2).mpr
  intro i inTransfer reg found
  have short : i < 2 := inTransfer
  obtain rfl | rfl : i = 0 ∨ i = 1 := by omega
  · cases found
    decide
  · cases found
    decide

/-- The first byte of the alias is mapped to host memory but cannot be read or written. -/
theorem guestMemoryRead_stops_at_alias :
    (aspaceSystem (.plain _)).Reachable aliasedGuest ∧ aliasedGuest.WellFormed ∧
    aliasedGuest.Acyclic ∧
    aliasedGuest.physicalMap 1 0x5000 1 = .found ⟨0x90001000, 1, 0x969⟩ ∧
    (RegionFlags.all 0x969 .real = true) ∧
    aliasedGuest.vmmGuestMemoryRead 1 (fun _ => 7) 0x5000 1 = some [] ∧
    (aliasedGuest.vmmGuestMemoryWrite 1 (fun _ => 7) 0x5000 [1]).map Prod.snd = some 0 :=
  ⟨aliasedGuest_built, aliasedGuest_wellFormed, aliasedGuest_acyclic, by decide, by decide,
    by decide, by decide⟩

end Xvisor.Guest
