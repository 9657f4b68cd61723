import Xvisor.Virtio.Blk

/-!
# Buffers in pieces

A chain of descriptors is a buffer of the guest in pieces. The loops that copy such a
buffer take a piece of no bytes, and a piece that could not be read at all, for its end.
The loop that clears it ends a piece only where a round ends.
-/

namespace Xvisor.Virtio

open Function List Lib Word Guest Nat

section Pieces

variable (reach : Nat → Option Nat)

/-- The host addresses of the first `n` bytes, up to the first byte that cannot be reached. -/
def gathered : List IoVec → Nat → List Nat
  | [], _ => []
  | iov :: rest, n =>
    let part := transfer reach iov.addr (min n iov.len)
    if part.length < min n iov.len then part else part ++ gathered rest (n - part.length)

/-- The host addresses that the loops visit. -/
def visited : List IoVec → Nat → List Nat
  | [], _ => []
  | iov :: rest, n =>
    let part := transfer reach iov.addr (min n iov.len)
    if part.length = 0 then [] else part ++ visited rest (n - part.length)

/-- The next byte, if there is one, cannot be reached. -/
def Blocked : List IoVec → Prop
  | [] => True
  | iov :: rest => if iov.len = 0 then Blocked rest else reach iov.addr = none

def BlockedHere : List IoVec → Prop
  | [] => True
  | iov :: _ => iov.len = 0 ∨ reach iov.addr = none

/-- Nothing can be reached behind an empty piece, and the piece behind one that is reached in part
is empty or cannot be reached. -/
def Steady : List IoVec → Nat → Prop
  | [], _ => True
  | iov :: rest, n =>
    let part := (transfer reach iov.addr (min n iov.len)).length
    if n = 0 then True
    else if iov.len = 0 then Blocked reach rest
    else if part = min n iov.len then Steady rest (n - part)
    else part = 0 ∨ BlockedHere reach rest

variable {reach}

theorem transfer_length_le (reach : Nat → Option Nat) (pa n : Nat) :
    (transfer reach pa n).length ≤ n := by
  induction n generalizing pa with
  | zero => exact le_rfl
  | succ n ih =>
    rw [transfer]
    split
    · exact zero_le _
    · exact succ_le_succ (ih _)

theorem transfer_eq_nil_iff {pa n : Nat} (some : n ≠ 0) :
    transfer reach pa n = [] ↔ reach pa = none := by
  obtain ⟨n, rfl⟩ := exists_eq_succ_of_ne_zero some
  rw [transfer]
  split <;> simp_all

theorem gathered_zero (iov : List IoVec) : gathered reach iov 0 = [] := by
  induction iov with
  | nil => rfl
  | cons iov rest ih => simp [gathered, transfer, ih]

theorem gathered_eq_nil_iff (iov : List IoVec) {n : Nat} (some : n ≠ 0) :
    gathered reach iov n = [] ↔ Blocked reach iov := by
  induction iov with
  | nil => simp [gathered, Blocked]
  | cons iov rest ih =>
    by_cases empty : iov.len = 0
    · simp [gathered, Blocked, empty, transfer, ih]
    · have want : min n iov.len ≠ 0 := by omega
      rw [Blocked, if_neg empty, ← transfer_eq_nil_iff want, gathered]
      split
      · rfl
      · next whole =>
        have nonempty : transfer reach iov.addr (min n iov.len) ≠ [] := by
          intro none
          rw [none] at whole
          exact whole (pos_of_ne_zero want)
        simp [nonempty]

theorem visited_eq_nil_iff {iov : List IoVec} {n : Nat} (some : n ≠ 0) :
    visited reach iov n = [] ↔ BlockedHere reach iov := by
  cases iov with
  | nil => simp [visited, BlockedHere]
  | cons iov rest =>
    by_cases empty : iov.len = 0
    · simp [visited, BlockedHere, empty, transfer]
    · have want : min n iov.len ≠ 0 := by omega
      rw [BlockedHere, or_iff_right empty, ← transfer_eq_nil_iff want, visited]
      split <;> simp_all

theorem visited_cases (reach : Nat → Option Nat) (iov : List IoVec) (n : Nat) :
    Steady reach iov n ∧ visited reach iov n = gathered reach iov n ∨
      ¬Steady reach iov n ∧ (visited reach iov n).length ≠ (gathered reach iov n).length := by
  induction iov generalizing n with
  | nil => exact .inl ⟨trivial, rfl⟩
  | cons iov rest ih =>
    have bound := transfer_length_le reach iov.addr (min n iov.len)
    by_cases none : n = 0
    · subst none
      simp [Steady, visited, gathered_zero, transfer]
    by_cases empty : iov.len = 0
    · simp only [Steady, visited, gathered, empty, none, transfer, min_zero, if_true, if_false,
        length_nil, Nat.lt_irrefl, nil_append, Nat.sub_zero,
        ← gathered_eq_nil_iff rest none]
      by_cases stops : gathered reach rest n = []
      · simp [stops]
      · exact .inr ⟨stops, fun same => stops (length_eq_zero_iff.mp same.symm)⟩
    · simp only [Steady, visited, gathered, empty, none, if_false]
      generalize transfer reach iov.addr (min n iov.len) = part at bound ⊢
      by_cases whole : part.length = min n iov.len
      · rw [if_pos whole, if_neg (by omega), if_neg (by omega)]
        simpa using ih (n - part.length)
      · rw [if_neg whole, if_pos (show part.length < _ by omega)]
        by_cases nothing : part.length = 0
        · simp [length_eq_zero_iff.mp nothing]
        · have left : n - part.length ≠ 0 := by omega
          rw [if_neg nothing, or_iff_right nothing, ← visited_eq_nil_iff left]
          by_cases stops : visited reach rest (n - part.length) = []
          · simp [stops]
          · refine .inr ⟨stops, ?_⟩
            rw [length_append]
            have := length_pos_iff.mpr stops
            omega

end Pieces

/-! ## Copies -/

variable (mem : HostMemory) {addrs : List Nat}

theorem store_take {m : Nat} (enough : addrs.length ≤ m)
    (bytes : List UInt8) : store mem addrs (bytes.take m) = store mem addrs bytes := by
  induction addrs generalizing mem m bytes with
  | nil => rfl
  | cons addr addrs ih =>
    obtain ⟨m, rfl⟩ := exists_eq_succ_of_ne_zero (ne_of_gt (lt_of_lt_of_le
      (succ_pos _) enough))
    cases bytes with
    | nil => rfl
    | cons byte bytes => exact ih _ (le_of_succ_le_succ enough) bytes

theorem store_of_notMem {mem : HostMemory} {addr : Nat} (other : addr ∉ addrs)
    (bytes : List UInt8) : store mem addrs bytes addr = mem addr := by
  induction addrs generalizing mem bytes with
  | nil => rfl
  | cons first addrs ih =>
    rw [mem_cons, not_or] at other
    cases bytes with
    | nil => rfl
    | cons byte bytes => exact (ih other.2 bytes).trans (update_of_ne other.1 _ _)

theorem map_store (nodup : addrs.Nodup) {bytes : List UInt8}
    (enough : addrs.length ≤ bytes.length) :
    addrs.map (store mem addrs bytes) = bytes.take addrs.length := by
  induction addrs generalizing mem bytes with
  | nil => rfl
  | cons addr addrs ih =>
    obtain ⟨new, rest⟩ := nodup_cons.mp nodup
    cases bytes with
    | nil => cases enough
    | cons byte bytes =>
      have first : store mem (addr :: addrs) (byte :: bytes) addr = byte :=
        (store_of_notMem new bytes).trans (update_self ..)
      rw [map_cons, first, length_cons, take_succ_cons]
      exact congrArg _ (ih _ rest (le_of_succ_le_succ enough))

theorem ite_lt_eq_min (a b : Nat) : (if a < b then a else b) = min a b := by
  split <;> omega

theorem visited_length_le (reach : Nat → Option Nat) (iov : List IoVec) (n : Nat) :
    (visited reach iov n).length ≤ n := by
  induction iov generalizing n with
  | nil => exact zero_le _
  | cons iov rest ih =>
    have bound := transfer_length_le reach iov.addr (min n iov.len)
    rw [visited]
    split
    · exact zero_le _
    · have := ih (n - (transfer reach iov.addr (min n iov.len)).length)
      rw [length_append]
      omega

section Copies

variable {aspace : Aspace} {fuel : Nat} (wellFormed : aspace.WellFormed)
  (ends : ∀ gphys, aspace.locate fuel gphys ≠ .hangs)
include wellFormed ends

variable (mem : HostMemory)

theorem guestRead_eq (pa len : Nat) :
    guestRead aspace fuel mem pa len = (transfer (aspace.reaches fuel) pa len).map mem := by
  rw [guestRead, Aspace.vmmGuestMemoryRead, Aspace.guestReadLoop_eq,
    wellFormed.accesses_eq ends pa le_rfl]
  rfl

theorem guestWrite_eq (pa : Nat) (src : List UInt8) : guestWrite aspace fuel mem pa src =
      (store mem (transfer (aspace.reaches fuel) pa src.length) src,
        (transfer (aspace.reaches fuel) pa src.length).length) := by
  rw [guestWrite, Aspace.vmmGuestMemoryWrite, Aspace.guestWriteLoop_eq,
    wellFormed.accesses_eq ends pa le_rfl]
  rfl

theorem iovecToBufRead_eq (iov : List IoVec) (n : Nat) :
    iovecToBufRead (guestRead aspace fuel mem) iov n =
      (visited (aspace.reaches fuel) iov n).map mem := by
  induction iov generalizing n with
  | nil => rfl
  | cons iov rest ih =>
    simp only [iovecToBufRead, visited, guestRead_eq wellFormed ends, length_map, ite_lt_eq_min, ih]
    by_cases none : n = 0
    · simp [none, transfer]
    · rw [if_neg none]
      split <;> simp

theorem bufToIovecWrite_eq (iov : List IoVec) (buf : List UInt8) :
    bufToIovecWrite aspace fuel iov buf mem =
      (store mem (visited (aspace.reaches fuel) iov buf.length) buf,
        (visited (aspace.reaches fuel) iov buf.length).length) := by
  induction iov generalizing buf mem with
  | nil => rfl
  | cons iov rest ih =>
    have bound := transfer_length_le (aspace.reaches fuel) iov.addr (min buf.length iov.len)
    have want : min (min buf.length iov.len) buf.length = min buf.length iov.len := by omega
    simp only [bufToIovecWrite, visited, guestWrite_eq wellFormed ends, ite_lt_eq_min, ih,
      length_take, length_drop, want]
    generalize transfer (aspace.reaches fuel) iov.addr (min buf.length iov.len) = part at bound
    by_cases none : buf.length = 0
    · have nothing : part = [] := length_eq_zero_iff.mp (by omega)
      simp [none, nothing, store]
    · rw [if_neg none, store_take mem bound]
      split
      · next nothing =>
        rw [length_eq_zero_iff.mp nothing]
        rfl
      · rw [store_append _ _ _ (by omega), store_take mem le_rfl, length_append]

/-- Reading and writing pieces is exact exactly if the pieces are steady. What was written to
different host addresses is read back. -/
theorem iovec_exact_iff (mem : HostMemory) (iov : List IoVec) :
    (∀ n, iovecToBufRead (guestRead aspace fuel mem) iov n =
        (gathered (aspace.reaches fuel) iov n).map mem ↔ Steady (aspace.reaches fuel) iov n) ∧
    ∀ buf, (bufToIovecWrite aspace fuel iov buf mem =
        (store mem (gathered (aspace.reaches fuel) iov buf.length) buf,
          (gathered (aspace.reaches fuel) iov buf.length).length) ↔
      Steady (aspace.reaches fuel) iov buf.length) ∧
      ((visited (aspace.reaches fuel) iov buf.length).Nodup →
        iovecToBufRead (guestRead aspace fuel (bufToIovecWrite aspace fuel iov buf mem).1) iov
          buf.length = buf.take (bufToIovecWrite aspace fuel iov buf mem).2) := by
  simp only [iovecToBufRead_eq wellFormed ends, bufToIovecWrite_eq wellFormed ends]
  refine ⟨fun n => ?_, fun buf => ⟨?_, fun nodup => ?_⟩⟩
  · rcases visited_cases (aspace.reaches fuel) iov n with ⟨steady, same⟩ | ⟨broken, differ⟩
    · simp [steady, same]
    · refine iff_of_false (fun same => differ ?_) broken
      simpa using congrArg List.length same
  · rcases visited_cases (aspace.reaches fuel) iov buf.length with
      ⟨steady, same⟩ | ⟨broken, differ⟩
    · simp [steady, same]
    · exact iff_of_false (fun same => differ (Prod.mk.inj same).2) broken
  · exact map_store mem nodup (visited_length_le ..)

end Copies

/-- The last piece ends behind the RAM. -/
theorem iovec_exact_cut : ∃ fuel, ∀ mem : HostMemory,
    iovecToBufRead (guestRead aliasedGuest fuel mem) [⟨0x1000, 2, 0⟩, ⟨0x2FFF, 4, 0⟩] 6 =
      [mem 0x90001000, mem 0x90001001, mem 0x90002FFF] := by
  obtain ⟨enough, ends⟩ := aliasedGuest_acyclic.locate_ne_hangs
  refine ⟨enough + 1, fun mem => ?_⟩
  refine ((iovec_exact_iff aliasedGuest_wellFormed (ends _ (by omega)) mem _).1 6).mpr ?_
  rcases visited_cases (aliasedGuest.reaches (enough + 1)) [⟨0x1000, 2, 0⟩, ⟨0x2FFF, 4, 0⟩] 6 with
    ⟨steady, _⟩ | ⟨_, differ⟩
  · exact steady
  · exact absurd rfl differ

/-- An empty piece in front ends the copy; behind a piece that is cut the next one is copied. -/
theorem iovec_not_exact :
    iovecToBufRead (guestRead aliasedGuest 1 fun _ => 7) [⟨0x1000, 0, 0⟩, ⟨0x1000, 2, 0⟩] 2 = [] ∧
    gathered (aliasedGuest.reaches 1) [⟨0x1000, 0, 0⟩, ⟨0x1000, 2, 0⟩] 2 =
      [0x90001000, 0x90001001] ∧
    (iovecToBufRead (guestRead aliasedGuest 1 fun _ => 7)
      [⟨0x2FFF, 2, 0⟩, ⟨0x1000, 2, 0⟩] 4).length = 3 ∧
    gathered (aliasedGuest.reaches 1) [⟨0x2FFF, 2, 0⟩, ⟨0x1000, 2, 0⟩] 4 = [0x90002FFF] := by
  decide

/-! ## Zero fill -/

/-- `vmm_virtio_iovec_fill_zeros` for at most `steps` rounds; `pos` is what was written of the
first piece. -/
def fillZeros (aspace : Aspace) (fuel : Nat) :
    Nat → List IoVec → Nat → HostMemory → Option HostMemory
  | _, [], _, mem => some mem
  | 0, _ :: _, _, _ => none
  | steps + 1, iov :: rest, pos, mem =>
    let (mem, len) := guestWrite aspace fuel mem (add iov.addr pos)
      (List.replicate (if iov.len < 16 then iov.len else 16) 0)
    if len = 0 then some mem
    else
      let pos := (pos + len) % 2 ^ 32
      if pos = iov.len then fillZeros aspace fuel steps rest 0 mem
      else fillZeros aspace fuel steps (iov :: rest) pos mem

def zeroed (addrs : List Nat) : HostMemory :=
  fun pa => if pa ∈ addrs then 0 else mem pa

structure IoVec.InRam (reach : Nat → Option Nat) (iov : IoVec) : Prop where
  addr : iov.addr < 2 ^ 64
  len : iov.len < 2 ^ 32
  whole : (transfer reach iov.addr iov.len).length = iov.len

/-- The rounds end where the piece does. -/
def IoVec.Rounds (iov : IoVec) : Prop := 0 < iov.len ∧ min iov.len 16 ∣ iov.len

theorem store_zeros {n : Nat} (same : addrs.length = n) :
    store mem addrs (List.replicate n 0) = zeroed mem addrs := by
  subst same
  induction addrs generalizing mem with
  | nil => exact funext fun pa => (if_neg not_mem_nil).symm
  | cons addr addrs ih =>
    refine (ih _).trans (funext fun pa => ?_)
    by_cases here : pa = addr <;> simp [zeroed, here, update]

theorem zeroed_append (first second : List Nat) :
    zeroed (zeroed mem first) second = zeroed mem (first ++ second) := by
  funext pa
  by_cases isFirst : pa ∈ first <;> simp [zeroed, isFirst]

theorem transfer_parts {reach : Nat → Option Nat} {pa i n m : Nat}
    (whole : (transfer reach (add pa i) (n + m)).length = n + m) :
    transfer reach (add pa i) (n + m) =
      transfer reach (add pa i) n ++ transfer reach (add pa (i + n)) m := by
  induction n generalizing i with
  | zero => rw [zero_add]; rfl
  | succ n ih =>
    rw [succ_add] at whole ⊢
    cases found : reach (add pa i) with
    | none => simp [transfer, found] at whole
    | some hphys =>
      simp only [transfer, found, length_cons, add_add] at whole ⊢
      rw [ih (Nat.succ.inj whole), add_right_comm]
      rfl

section Fill

variable {aspace : Aspace} {fuel : Nat} (wellFormed : aspace.WellFormed)
  (ends : ∀ gphys, aspace.locate fuel gphys ≠ .hangs)
include wellFormed ends

theorem fillZeros_round (rest : List IoVec) {iov : IoVec} (pos : 0 < iov.len) (steps : Nat)
    {i : Nat} (word : i + min iov.len 16 < 2 ^ 32) (full : (transfer (aspace.reaches fuel)
      (add iov.addr i) (min iov.len 16)).length = min iov.len 16) (mem : HostMemory) :
    fillZeros aspace fuel (steps + 1) (iov :: rest) i mem =
      if i + min iov.len 16 = iov.len then fillZeros aspace fuel steps rest 0 (zeroed mem
        (transfer (aspace.reaches fuel) (add iov.addr i) (min iov.len 16)))
      else fillZeros aspace fuel steps (iov :: rest) (i + min iov.len 16) (zeroed mem
        (transfer (aspace.reaches fuel) (add iov.addr i) (min iov.len 16))) := by
  have some : min iov.len 16 ≠ 0 := by omega
  simp only [fillZeros, guestWrite_eq wellFormed ends, ite_lt_eq_min, length_replicate,
    store_zeros mem full, full, mod_eq_of_lt word]
  rw [if_neg some]

theorem fillZeros_piece (rest : List IoVec) {iov : IoVec} (pos : 0 < iov.len)
    (word : iov.len < 2 ^ 32) (steps m : Nat) {i : Nat}
    (isEnd : iov.len = i + min iov.len 16 * (m + 1))
    (whole : (transfer (aspace.reaches fuel) (add iov.addr i)
      (min iov.len 16 * (m + 1))).length = min iov.len 16 * (m + 1)) (mem : HostMemory) :
    fillZeros aspace fuel (steps + (m + 1)) (iov :: rest) i mem =
      fillZeros aspace fuel steps rest 0 (zeroed mem
        (transfer (aspace.reaches fuel) (add iov.addr i) (min iov.len 16 * (m + 1)))) := by
  induction m generalizing i mem with
  | zero =>
    rw [zero_add, mul_one] at *
    rw [fillZeros_round wellFormed ends rest pos steps (isEnd ▸ word) whole, if_pos isEnd.symm]
  | succ m ih =>
    rw [mul_add_one, add_comm (_ * _)] at whole isEnd ⊢
    have parts := transfer_parts whole
    rw [parts, length_append] at whole
    have first := transfer_length_le (aspace.reaches fuel) (add iov.addr i) (min iov.len 16)
    have second := transfer_length_le (aspace.reaches fuel)
      (add iov.addr (i + min iov.len 16)) (min iov.len 16 * (m + 1))
    have more : 0 < min iov.len 16 * (m + 1) := mul_pos (by omega) (succ_pos m)
    rw [← add_assoc, fillZeros_round wellFormed ends rest pos _ (by omega) (by omega),
      if_neg (by omega), ih (by omega) (by omega), zeroed_append, parts]

/-- The fill ends, clears every byte of pieces whose rounds end where they do, and no other. -/
theorem fillZeros_exact (mem : HostMemory) (iov : List IoVec)
    (inRam : ∀ piece ∈ iov, piece.InRam (aspace.reaches fuel))
    (rounds : ∀ piece ∈ iov, piece.Rounds) :
    ∃ steps, fillZeros aspace fuel steps iov 0 mem = some (zeroed mem
      (iov.flatMap fun piece => transfer (aspace.reaches fuel) piece.addr piece.len)) := by
  induction iov generalizing mem with
  | nil => exact ⟨0, congrArg some (funext fun pa => (if_neg not_mem_nil).symm)⟩
  | cons piece rest ih =>
    obtain ⟨addr, len, whole⟩ := inRam piece mem_cons_self
    obtain ⟨pos, m, isEnd⟩ := rounds piece mem_cons_self
    obtain ⟨steps, filled⟩ := ih
      (zeroed mem (transfer (aspace.reaches fuel) piece.addr piece.len))
      (fun _ mem => inRam _ (mem_cons_of_mem _ mem))
      (fun _ mem => rounds _ (mem_cons_of_mem _ mem))
    obtain ⟨m, rfl⟩ : ∃ k, m = k + 1 := by
      refine exists_eq_succ_of_ne_zero fun none => ?_
      rw [none, Nat.mul_zero] at isEnd
      omega
    have start : add piece.addr 0 = piece.addr := add_of_lt addr
    refine ⟨steps + (m + 1), ?_⟩
    rw [fillZeros_piece wellFormed ends rest pos len steps m (by omega)
      (by rw [start, ← isEnd, whole]), start, ← isEnd, filled, zeroed_append]
    rfl

end Fill

theorem fillZeros_exact_ram : ∃ fuel, ∀ mem, ∃ steps,
    fillZeros aliasedGuest fuel steps [⟨0x1000, 32, 0⟩, ⟨0x2FFB, 5, 0⟩] 0 mem =
      some (zeroed mem (addresses 0x90001000 32 ++ addresses 0x90002FFB 5)) := by
  obtain ⟨enough, ends⟩ := aliasedGuest_acyclic.locate_ne_hangs
  refine ⟨enough + 1, fun mem => ?_⟩
  refine fillZeros_exact aliasedGuest_wellFormed (ends _ (by omega)) mem _ ?_ ?_
  · intro piece listed
    obtain rfl | rfl : piece = ⟨0x1000, 32, 0⟩ ∨ piece = ⟨0x2FFB, 5, 0⟩ := by simpa using listed
    all_goals exact ⟨by decide, by decide, rfl⟩
  · simp [IoVec.Rounds]

/-- The second round of a piece of 20 bytes runs over its end, and an empty piece ends the fill. -/
theorem fillZeros_overshoots :
    (fillZeros aliasedGuest 1 3 [⟨0x2FE0, 20, 0⟩] 0 fun _ => 7).map (· 0x90002FF4) = some 0 ∧
    transfer (aliasedGuest.reaches 1) 0x2FE0 20 = addresses 0x90002FE0 20 ∧
    0x90002FF4 ∉ addresses 0x90002FE0 20 ∧
    (fillZeros aliasedGuest 1 1 [⟨0x1000, 0, 0⟩, ⟨0x1000, 4, 0⟩] 0 fun _ => 7).map
      (· 0x90001000) = some 7 := by
  decide +kernel

end Xvisor.Virtio
