import Xvisor.Lib.Word

/-!
# Emulation of loads and stores

A guest access to a virtual device traps. The instruction comes transformed in
`htinst` or is read from guest memory, is decoded by masks, and its data goes to
or comes from the device emulator. This is compared with the loads and stores of
RV64 and their compressed forms.
-/

namespace Xvisor.Vcpu

open Lib Bits Nat

inductive Rc where
  | ok
  | enotsupp
  | eio
  | einvalid
  | device (code : Nat)
  deriving DecidableEq, Repr

structure Regs where
  x : Fin 32 → BitVec 64
  sepc : BitVec 64

structure Trap where
  sepc : BitVec 64
  scause : Nat
  stval : BitVec 64
  htval : Nat
  htinst : Nat
  deriving DecidableEq, Repr

/-! ## Instruction words -/

/-- `(insn & INSN_MASK_x) == INSN_MATCH_x` for a load or store of 32 bits. -/
def insnMatch (insn value : Nat) : Bool := insn &&& 0x707f = value

def insnMatchC (insn value : Nat) : Bool := insn &&& 0xe003 = value

/-- The register that `REG_PTR` finds at a position. -/
def regPtr (insn pos : Nat) : Fin 32 := ⟨field insn pos 5, field_lt insn pos 5⟩

variable (insn : Nat)

def rvcRs2s : Nat := 8 + field insn 2 3

def insnLen : Nat := if insn &&& 3 ≠ 3 then 2 else 4

/-- The instruction and its length. `fetch` is what reading the instruction from guest memory
gives. -/
def readInsn (htinst : Nat) (fetch : Except Trap Nat) : Except Trap (Nat × Nat) :=
  if htinst &&& 1 ≠ 0 then
    let insn := htinst ||| 3
    .ok (insn, if htinst &&& 2 ≠ 0 then insnLen insn else 2)
  else
    match fetch with
    | .error trap => .error trap
    | .ok insn => .ok (insn, insnLen insn)

variable (regs : Regs)

def fetchTrap (trap : Trap) : Trap :=
  { trap with
    scause := if trap.scause = 13 then 12 else trap.scause
    sepc := regs.sepc
    stval := regs.sepc }

structure Outcome where
  regs : Regs
  rc : Rc
  redirect : Option Trap
  written : Option (Nat × Nat × BitVec 64)

def Outcome.failed (rc : Rc) : Outcome := ⟨regs, rc, none, none⟩

def Outcome.redirected (trap : Trap) : Outcome :=
  ⟨regs, .ok, some (fetchTrap regs trap), none⟩

/-! ## Loads -/

structure LoadDecode where
  len : Nat
  shift : Nat
  insn : Nat

/-- `8 * (sizeof(ulong) - len)`. -/
def loadShift (len : Nat) : Nat := 8 * (8 - len)

def decodeLoad : Option LoadDecode :=
  if insnMatch insn 0x2003 then some ⟨4, loadShift 4, insn⟩ -- LW
  else if insnMatch insn 0x3 then some ⟨1, loadShift 1, insn⟩ -- LB
  else if insnMatch insn 0x4003 then some ⟨1, loadShift 1, insn⟩ -- LBU
  else if insnMatch insn 0x3003 then some ⟨8, loadShift 8, insn⟩ -- LD
  else if insnMatch insn 0x6003 then some ⟨4, 0, insn⟩ -- LWU
  else if insnMatch insn 0x1003 then some ⟨2, loadShift 2, insn⟩ -- LH
  else if insnMatch insn 0x5003 then some ⟨2, 0, insn⟩ -- LHU
  else if insnMatchC insn 0x6000 then some ⟨8, loadShift 8, rvcRs2s insn * 2 ^ 7⟩ -- C.LD
  else if insnMatchC insn 0x6002 && field insn 7 5 ≠ 0 then
    some ⟨8, loadShift 8, insn⟩ -- C.LDSP
  else if insnMatchC insn 0x4000 then some ⟨4, loadShift 4, rvcRs2s insn * 2 ^ 7⟩ -- C.LW
  else if insnMatchC insn 0x4002 && field insn 7 5 ≠ 0 then
    some ⟨4, loadShift 4, insn⟩ -- C.LWSP
  else none

/-- `(ulong)data << shift >> shift`, both shifts on an unsigned type. -/
def shifted (len shift : Nat) (data : BitVec 64) : BitVec 64 :=
  (((data.setWidth (8 * len)).setWidth 64) <<< shift) >>> shift

/-- What `vmm_devemu_emulate_read` gives for an address and a size. -/
abbrev DeviceRead := Nat → Nat → Except Rc (BitVec 64)

def setRd (insn : Nat) (value : BitVec 64) : Regs :=
  { regs with x := fun i => if i = regPtr insn 7 then value else regs.x i }

/-- The switch over the sizes: the case of 8 bytes goes on to the default case. -/
def loadAccess (device : DeviceRead) (regs : Regs) (fault : Nat) (d : LoadDecode) : Regs × Rc :=
  if d.len ∈ [1, 2, 4, 8] then
    match device fault d.len with
    | .error rc => (regs, if d.len = 8 then .einvalid else rc)
    | .ok data =>
      (setRd regs d.insn (shifted d.len d.shift data), if d.len = 8 then .einvalid else .ok)
  else (regs, .einvalid)

def emulateLoad (device : DeviceRead) (regs : Regs) (fault htinst : Nat)
    (fetch : Except Trap Nat) : Outcome :=
  match readInsn htinst fetch with
  | .error trap => .redirected regs trap
  | .ok (insn, len) =>
    match decodeLoad insn with
    | none => .failed regs .enotsupp
    | some d =>
      if fault &&& (d.len - 1) ≠ 0 then .failed regs .eio
      else
        let (regs, rc) := loadAccess device regs fault d
        if rc = .ok then
          ⟨{ regs with sepc := regs.sepc + BitVec.ofNat 64 len }, .ok, none, none⟩
        else .failed regs rc

/-! ## Stores -/

structure StoreDecode where
  len : Nat
  rs2 : Fin 32

def rs2s : Fin 32 :=
  ⟨rvcRs2s insn, by have := field_lt insn 2 3; unfold rvcRs2s; omega⟩

/-- The two stack stores are taken only if the bits of the destination register of a load are
not zero; in a store these bits belong to the offset. -/
def decodeStore : Option StoreDecode :=
  if insnMatch insn 0x2023 then some ⟨4, regPtr insn 20⟩ -- SW
  else if insnMatch insn 0x23 then some ⟨1, regPtr insn 20⟩ -- SB
  else if insnMatch insn 0x3023 then some ⟨8, regPtr insn 20⟩ -- SD
  else if insnMatch insn 0x1023 then some ⟨2, regPtr insn 20⟩ -- SH
  else if insnMatchC insn 0xe000 then some ⟨8, rs2s insn⟩ -- C.SD
  else if insnMatchC insn 0xe002 && field insn 7 5 ≠ 0 then some ⟨8, regPtr insn 2⟩ -- C.SDSP
  else if insnMatchC insn 0xc000 then some ⟨4, rs2s insn⟩ -- C.SW
  else if insnMatchC insn 0xc002 && field insn 7 5 ≠ 0 then some ⟨4, regPtr insn 2⟩ -- C.SWSP
  else none

abbrev DeviceWrite := Nat → Nat → BitVec 64 → Rc

def emulateStore (device : DeviceWrite) (regs : Regs) (fault htinst : Nat)
    (fetch : Except Trap Nat) : Outcome :=
  match readInsn htinst fetch with
  | .error trap => .redirected regs trap
  | .ok (insn, len) =>
    match decodeStore insn with
    | none => .failed regs .enotsupp
    | some d =>
      if fault &&& (d.len - 1) ≠ 0 then .failed regs .eio
      else
        let data := ((regs.x d.rs2).setWidth (8 * d.len)).setWidth 64
        let rc := device fault d.len data
        let rc := if d.len = 8 then .einvalid else rc
        ⟨if rc = .ok then { regs with sepc := regs.sepc + BitVec.ofNat 64 len } else regs, rc, none,
          some (fault, d.len, data)⟩

/-! ## Instruction set -/

/-- A load as the instruction set defines it: size in bytes, extension, destination and length
of the instruction. -/
structure Load where
  size : Nat
  signed : Bool
  rd : Fin 32
  insnLen : Nat
  deriving DecidableEq, Repr

structure Store where
  size : Nat
  rs2 : Fin 32
  insnLen : Nat
  deriving DecidableEq, Repr

/-- The three-bit register fields of compressed instructions name x8 to x15. -/
def smallReg (insn pos : Nat) : Fin 32 :=
  ⟨8 + field insn pos 3, by have := field_lt insn pos 3; omega⟩

def isaLoad (insn : Nat) : Option Load :=
  match field insn 0 2 with
  | 3 =>
    if field insn 2 5 ≠ 0 then none
    else
      match field insn 12 3 with
      | 0 => some ⟨1, true, regPtr insn 7, 4⟩
      | 1 => some ⟨2, true, regPtr insn 7, 4⟩
      | 2 => some ⟨4, true, regPtr insn 7, 4⟩
      | 3 => some ⟨8, true, regPtr insn 7, 4⟩
      | 4 => some ⟨1, false, regPtr insn 7, 4⟩
      | 5 => some ⟨2, false, regPtr insn 7, 4⟩
      | 6 => some ⟨4, false, regPtr insn 7, 4⟩
      | _ => none
  | 0 =>
    match field insn 13 3 with
    | 2 => some ⟨4, true, smallReg insn 2, 2⟩
    | 3 => some ⟨8, true, smallReg insn 2, 2⟩
    | _ => none
  | 2 =>
    if field insn 7 5 = 0 then none
    else
      match field insn 13 3 with
      | 2 => some ⟨4, true, regPtr insn 7, 2⟩
      | 3 => some ⟨8, true, regPtr insn 7, 2⟩
      | _ => none
  | _ => none

def isaStore (insn : Nat) : Option Store :=
  match field insn 0 2 with
  | 3 =>
    if field insn 2 5 ≠ 8 then none
    else
      match field insn 12 3 with
      | 0 => some ⟨1, regPtr insn 20, 4⟩
      | 1 => some ⟨2, regPtr insn 20, 4⟩
      | 2 => some ⟨4, regPtr insn 20, 4⟩
      | 3 => some ⟨8, regPtr insn 20, 4⟩
      | _ => none
  | 0 =>
    match field insn 13 3 with
    | 6 => some ⟨4, smallReg insn 2, 2⟩
    | 7 => some ⟨8, smallReg insn 2, 2⟩
    | _ => none
  | 2 =>
    match field insn 13 3 with
    | 6 => some ⟨4, regPtr insn 2, 2⟩
    | 7 => some ⟨8, regPtr insn 2, 2⟩
    | _ => none
  | _ => none

/-- C.SWSP and C.SDSP whose offset bits 11 to 7 are zero. -/
def shortStackStore (insn : Nat) : Bool :=
  field insn 0 2 = 2 && field insn 7 5 = 0

def Regs.write (regs : Regs) (rd : Fin 32) (value : BitVec 64) : Regs :=
  { regs with x := fun i => if i = rd ∧ rd ≠ 0 then value else regs.x i }

def Regs.advance (regs : Regs) (len : Nat) : Regs :=
  { regs with sepc := regs.sepc + BitVec.ofNat 64 len }

def Load.extend (load : Load) (data : BitVec 64) : BitVec 64 :=
  if load.signed then (data.setWidth (8 * load.size)).signExtend 64
  else (data.setWidth (8 * load.size)).setWidth 64

def Load.execute (load : Load) (regs : Regs) (data : BitVec 64) : Regs :=
  (regs.write load.rd (load.extend data)).advance load.insnLen

/-! ## Transformed instructions -/

/-- A transformed instruction has 32 bits; bit 1 is clear if the trapping one had 16. -/
def transformedLow (insnLen : Nat) : Nat := if insnLen = 4 then 3 else 1

/-- `insn` is the instruction of `htinst` with its two low bits set. -/
structure Transformed (htinst insn len : Nat) : Prop where
  low : insn % 4 = 3
  same : insn / 4 = htinst / 4
  length : htinst % 4 = transformedLow len
  isLen : len = 2 ∨ len = 4

/-- A load reaches the emulation as it stands in guest memory, or transformed to one of 32
bits. -/
inductive Load.Presented (load : Load) (htinst : Nat) (fetch : Except Trap Nat) : Prop where
  | fetched (insn : Nat) (fromMemory : htinst % 2 = 0) (isFetched : fetch = .ok insn)
      (isLoad : isaLoad insn = some load)
  | transformed (insn : Nat) (isInsn : Transformed htinst insn load.insnLen)
      (isLoad : isaLoad insn = some { load with insnLen := 4 })

inductive Store.Presented (store : Store) (htinst : Nat) (fetch : Except Trap Nat) : Prop where
  | fetched (insn : Nat) (fromMemory : htinst % 2 = 0) (isFetched : fetch = .ok insn)
      (isStore : isaStore insn = some store)
  | transformed (insn : Nat) (isInsn : Transformed htinst insn store.insnLen)
      (isStore : isaStore insn = some { store with insnLen := 4 })

/-! ## Decoding -/

section Decoding

variable {insn : Nat}

theorem insnMatch_eq {value : Nat} (small : value % 4096 < 128) : insnMatch insn value =
    decide (field insn 12 3 = value / 4096 ∧ field insn 0 7 = value % 4096) := by
  rw [insnMatch, decide_eq_decide]
  have fields := and_field_low_eq_iff insn 12 3 7 (value / 4096) (by decide) small
  have whole : 2 ^ 12 * (value / 4096) + value % 4096 = value := by omega
  rw [whole] at fields
  exact fields

theorem insnMatchC_eq {value : Nat} (small : value % 8192 < 4) : insnMatchC insn value =
    decide (field insn 13 3 = value / 8192 ∧ field insn 0 2 = value % 8192) := by
  rw [insnMatchC, decide_eq_decide]
  have fields := and_field_low_eq_iff insn 13 3 2 (value / 8192) (by decide) small
  have whole : 2 ^ 13 * (value / 8192) + value % 8192 = value := by omega
  rw [whole] at fields
  exact fields

theorem opcode_eq (insn : Nat) :
    field insn 0 7 = 4 * field insn 2 5 + field insn 0 2 := by
  simp only [field]
  omega

theorem insnLen_eq (insn : Nat) : insnLen insn = if field insn 0 2 = 3 then 4 else 2 := by
  have low : insn &&& 3 = field insn 0 2 := by
    simpa [field] using and_two_pow_sub_one_eq_mod insn 2
  rw [insnLen, low]
  split <;> simp_all

attribute [local simp] insnMatch_eq insnMatchC_eq insnLen_eq

theorem regPtr_rvcRs2s (insn : Nat) : regPtr (rvcRs2s insn * 128) 7 = smallReg insn 2 := by
  have small := field_lt insn 2 3
  apply Fin.ext
  simp only [regPtr, smallReg, rvcRs2s, field] at small ⊢
  omega

theorem rs2s_eq (insn : Nat) : rs2s insn = smallReg insn 2 := rfl

theorem decodeLoad_isa {load : Load} (isLoad : isaLoad insn = some load) :
    ∃ d, decodeLoad insn = some d ∧ d.len = load.size ∧ d.shift ≤ loadShift load.size ∧
      (regPtr d.insn 7 = load.rd ∧ load.size ∈ [1, 2, 4, 8]) ∧ load.insnLen = insnLen insn := by
  have opcode := opcode_eq insn
  unfold isaLoad at isLoad
  split at isLoad
  · next quadrant =>
    split at isLoad
    · cases isLoad
    · next isOpcode =>
      rw [Decidable.not_not.mp isOpcode, quadrant] at opcode
      split at isLoad <;> cases isLoad
      all_goals
        next funct3 =>
          simp [decodeLoad, opcode, funct3, loadShift, quadrant]
  · next quadrant =>
    have notOpcode : field insn 0 7 ≠ 3 := by omega
    split at isLoad <;> cases isLoad
    all_goals
      next funct3 =>
        simp [decodeLoad, notOpcode, quadrant, funct3, loadShift, regPtr_rvcRs2s]
  · next quadrant =>
    have notOpcode : field insn 0 7 ≠ 3 := by omega
    split at isLoad
    · cases isLoad
    · next isReg =>
      split at isLoad <;> cases isLoad
      all_goals
        next funct3 =>
          simp [decodeLoad, notOpcode, quadrant, funct3, loadShift, isReg]
  · cases isLoad

/-- The stack stores whose offset bits 11 to 7 are zero are the exception. -/
theorem decodeStore_isa {store : Store} (isStore : isaStore insn = some store) :
    decodeStore insn = (if shortStackStore insn then none else some ⟨store.size, store.rs2⟩) ∧
      store.size ∈ [1, 2, 4, 8] ∧ store.insnLen = insnLen insn := by
  have opcode := opcode_eq insn
  unfold isaStore at isStore
  split at isStore
  · next quadrant =>
    split at isStore
    · cases isStore
    · next isOpcode =>
      rw [Decidable.not_not.mp isOpcode, quadrant] at opcode
      split at isStore <;> cases isStore
      all_goals
        next funct3 =>
          simp [decodeStore, opcode, funct3, shortStackStore, quadrant]
  · next quadrant =>
    have notOpcode : field insn 0 7 ≠ 35 := by omega
    split at isStore <;> cases isStore
    all_goals
      next funct3 =>
        simp [decodeStore, notOpcode, quadrant, funct3, shortStackStore, rs2s_eq]
  · next quadrant =>
    have notOpcode : field insn 0 7 ≠ 35 := by omega
    split at isStore <;> cases isStore
    all_goals
      next funct3 =>
        simp [decodeStore, notOpcode, quadrant, funct3, shortStackStore]
  · cases isStore

end Decoding

/-! ## The instruction that is emulated -/

variable {htinst insn : Nat} {fetch : Except Trap Nat}

theorem readInsn_fetched (fromMemory : htinst % 2 = 0) (isFetched : fetch = .ok insn) :
    readInsn htinst fetch = .ok (insn, insnLen insn) := by
  have even : htinst &&& 1 = 0 := by rw [and_one_is_mod, fromMemory]
  simp [readInsn, even, isFetched]

theorem readInsn_transformed {len : Nat}
    (transformed : Transformed htinst insn len) : readInsn htinst fetch = .ok (insn, len) := by
  obtain ⟨low, same, length, isLen⟩ := transformed
  have lowBits : htinst % 4 = 1 ∨ htinst % 4 = 3 := by
    rw [length, transformedLow]
    split <;> simp
  have odd : htinst &&& 1 = 1 := by
    rw [and_one_is_mod]
    omega
  have filled : htinst ||| 3 = insn := by
    have parts : htinst = 2 ^ 2 * (htinst / 4) ||| htinst % 4 := by
      rw [← two_pow_add_eq_or_of_lt (mod_lt _ (by decide))]
      exact (div_add_mod htinst 4).symm
    have three : htinst % 4 ||| 3 = 3 := by
      rcases lowBits with isOne | isThree
      · rw [isOne]
        rfl
      · rw [isThree]
        rfl
    rw [parts, Nat.or_assoc, three, ← Nat.two_pow_add_eq_or_of_lt (by decide : 3 < 2 ^ 2)]
    omega
  have secondBit : htinst &&& 2 = 2 * (htinst / 2 % 2) := by
    have masked := and_mul_two_pow htinst 1 1
    rwa [and_one_is_mod] at masked
  have fullLength : insnLen insn = 4 := by simp [insnLen_eq, field, low]
  simp only [readInsn, odd, filled, secondBit, fullLength]
  rcases isLen with rfl | rfl
  · have isOne : htinst % 4 = 1 := length
    have clear : htinst / 2 % 2 = 0 := by omega
    simp [clear]
  · have isThree : htinst % 4 = 3 := length
    have set : htinst / 2 % 2 = 1 := by omega
    simp [set]

theorem Load.Presented.decoded {load : Load} (presented : load.Presented htinst fetch) :
    ∃ insn d, readInsn htinst fetch = .ok (insn, load.insnLen) ∧ decodeLoad insn = some d ∧
      d.len = load.size ∧ d.shift ≤ loadShift load.size ∧ regPtr d.insn 7 = load.rd ∧
      load.size ∈ [1, 2, 4, 8] := by
  cases presented with
  | fetched insn fromMemory isFetched isLoad =>
    obtain ⟨d, decoded, len, shift, rd, isLen⟩ := decodeLoad_isa isLoad
    refine ⟨insn, d, ?_, decoded, len, shift, rd⟩
    rw [readInsn_fetched fromMemory isFetched, isLen]
  | transformed insn isInsn isLoad =>
    obtain ⟨d, decoded, len, shift, rd, -⟩ := decodeLoad_isa isLoad
    exact ⟨insn, d, readInsn_transformed isInsn, decoded, len, shift, rd⟩

/-! ## Loads -/

section Loads

variable {device : DeviceRead} {regs : Regs} {fault htinst : Nat} {fetch : Except Trap Nat}
  {load : Load} {data : BitVec 64}

theorem shifted_eq {len shift : Nat} (isLen : len ∈ [1, 2, 4, 8]) (small : shift ≤ loadShift len)
    (data : BitVec 64) : shifted len shift data = (data.setWidth (8 * len)).setWidth 64 := by
  have fits : 8 * len + shift ≤ 64 := by
    simp only [loadShift] at small
    simp at isLen
    omega
  have value : (data.setWidth (8 * len)).toNat < 2 ^ (8 * len) := BitVec.isLt _
  have bound : (data.setWidth (8 * len)).toNat * 2 ^ shift < 2 ^ 64 := by
    calc (data.setWidth (8 * len)).toNat * 2 ^ shift
        < 2 ^ (8 * len) * 2 ^ shift := mul_lt_mul_of_pos_right value (Nat.two_pow_pos _)
      _ = 2 ^ (8 * len + shift) := (pow_add _ _ _).symm
      _ ≤ 2 ^ 64 := Nat.pow_le_pow_right (by decide) fits
  have whole : (data.setWidth (8 * len)).toNat < 2 ^ 64 :=
    lt_of_lt_of_le value (Nat.pow_le_pow_right (by decide) (by omega))
  apply BitVec.eq_of_toNat_eq
  rw [shifted, BitVec.toNat_ushiftRight, BitVec.toNat_shiftLeft, BitVec.toNat_setWidth,
    mod_eq_of_lt whole, shiftLeft_eq, mod_eq_of_lt bound, shiftRight_eq_div_pow,
    Nat.mul_div_cancel _ (Nat.two_pow_pos _)]

theorem aligned_of_mod {size : Nat} (isSize : size ∈ [1, 2, 4, 8]) (aligned : fault % size = 0) :
    fault &&& (size - 1) = 0 := by
  have masked : ∀ k, size = 2 ^ k → fault &&& (size - 1) = 0 := by
    rintro k rfl
    rw [and_two_pow_sub_one_eq_mod, aligned]
  simp only [List.mem_cons, List.not_mem_nil, or_false] at isSize
  rcases isSize with rfl | rfl | rfl | rfl
  · exact masked 0 rfl
  · exact masked 1 rfl
  · exact masked 2 rfl
  · exact masked 3 rfl

/-- The destination gets the data without sign, even if it is x0, and the emulation of 8 bytes
fails after that. -/
theorem emulateLoad_eq (presented : load.Presented htinst fetch) (aligned : fault % load.size = 0)
    (answer : device fault load.size = .ok data) :
    emulateLoad device regs fault htinst fetch =
      let regs : Regs := { regs with
        x := fun i => if i = load.rd then (data.setWidth (8 * load.size)).setWidth 64
          else regs.x i }
      if load.size = 8 then .failed regs .einvalid
      else ⟨regs.advance load.insnLen, .ok, none, none⟩ := by
  obtain ⟨insn, d, isInsn, decoded, len, shift, rd, isSize⟩ := presented.decoded
  have masked : fault &&& (d.len - 1) = 0 := by
    rw [len]
    exact aligned_of_mod isSize aligned
  have accessed : loadAccess device regs fault d =
      ({ regs with
        x := fun i => if i = load.rd then (data.setWidth (8 * load.size)).setWidth 64
          else regs.x i }, if load.size = 8 then .einvalid else .ok) := by
    rw [loadAccess, len, if_pos isSize, answer]
    simp only [setRd, rd, shifted_eq isSize shift]
  simp only [emulateLoad, isInsn, decoded, masked, accessed]
  by_cases eight : load.size = 8
  · simp [eight]
  · simp [eight, Regs.advance]

def Load.Emulated (load : Load) (regs : Regs) (data : BitVec 64) (outcome : Outcome) : Prop :=
  outcome.rc = .ok ∧ outcome.redirect = none ∧ outcome.regs = load.execute regs data

/-- What the emulation can do: at most 4 bytes, into a register other than x0, and without a
sign to extend. -/
def Load.Fits (load : Load) (regs : Regs) (data : BitVec 64) : Prop :=
  load.size ≠ 8 ∧ if load.rd = 0 then (data.setWidth (8 * load.size)).setWidth 64 = regs.x 0
    else load.signed = true → (data.setWidth (8 * load.size)).msb = false

theorem signExtend_eq_setWidth_iff {width : Nat} (narrow : width < 64) (value : BitVec width) :
    value.signExtend 64 = value.setWidth 64 ↔ value.msb = false := by
  constructor
  · intro same
    have top := congrArg (fun extended => extended.getLsbD 63) same
    have above : value.getLsbD 63 = false := BitVec.getLsbD_of_ge value 63 (by omega)
    have outside : ¬ 63 < width := by omega
    simp only [BitVec.getLsbD_signExtend, BitVec.getLsbD_setWidth, above, outside, if_false,
      Bool.and_false] at top
    simpa using top
  · intro positive
    exact BitVec.signExtend_eq_setWidth_of_msb_false positive

theorem Load.extend_eq_iff (narrow : load.size < 8) (data : BitVec 64) :
    load.extend data = (data.setWidth (8 * load.size)).setWidth 64 ↔
      (load.signed = true → (data.setWidth (8 * load.size)).msb = false) := by
  cases isSigned : load.signed with
  | false => simp [Load.extend, isSigned]
  | true =>
    simp only [Load.extend, isSigned, if_true, true_implies]
    exact signExtend_eq_setWidth_iff (by omega) _

theorem Regs.written_eq_iff {rd : Fin 32} {written value : BitVec 64} :
    (fun i => if i = rd then written else regs.x i) = (regs.write rd value).x ↔
      if rd = 0 then written = regs.x 0 else value = written := by
  constructor
  · intro same
    have atRd := congrFun same rd
    by_cases isZero : rd = 0
    · simpa [Regs.write, isZero] using atRd
    · simpa [Regs.write, isZero, eq_comm] using atRd
  · intro same
    funext i
    by_cases isRd : i = rd
    · subst isRd
      by_cases isZero : i = 0
      · simpa [Regs.write, isZero] using same
      · simpa [Regs.write, isZero, eq_comm] using same
    · simp [Regs.write, isRd]

theorem emulateLoad_correct_iff (presented : load.Presented htinst fetch)
    (aligned : fault % load.size = 0) (answer : device fault load.size = .ok data) :
    load.Emulated regs data (emulateLoad device regs fault htinst fetch) ↔ load.Fits regs data := by
  obtain ⟨_, _, _, _, _, _, _, isSize⟩ := presented.decoded
  rw [emulateLoad_eq presented aligned answer]
  by_cases eight : load.size = 8
  · simp [Load.Emulated, Load.Fits, eight, Outcome.failed]
  · have narrow : load.size < 8 := by
      simp at isSize
      omega
    simp only [Load.Emulated, Load.Fits, eight, if_false, true_and, ne_eq, not_false_eq_true]
    rw [← Load.extend_eq_iff narrow, ← Regs.written_eq_iff]
    simp [Load.execute, Regs.advance, Regs.write]

end Loads

/-! ## Stores -/

section Stores

variable {device : DeviceWrite} {regs : Regs} {fault htinst : Nat} {fetch : Except Trap Nat}
  {store : Store}

/-- The low bytes of the source register. -/
def Store.data (store : Store) (regs : Regs) : BitVec 64 :=
  ((regs.x store.rs2).setWidth (8 * store.size)).setWidth 64

def Store.Emulated (store : Store) (regs : Regs) (fault : Nat) (outcome : Outcome) : Prop :=
  outcome.rc = .ok ∧ outcome.redirect = none ∧ outcome.regs = regs.advance store.insnLen ∧
    outcome.written = some (fault, store.size, store.data regs)

/-- The instruction word itself is decoded, and not its transformed form. -/
def FetchedShort (htinst : Nat) (fetch : Except Trap Nat) : Prop :=
  htinst % 2 = 0 ∧ ∃ insn, fetch = .ok insn ∧ shortStackStore insn = true

def Store.Fits (store : Store) (htinst : Nat) (fetch : Except Trap Nat) : Prop :=
  store.size ≠ 8 ∧ ¬ FetchedShort htinst fetch

theorem Store.Presented.decoded (presented : store.Presented htinst fetch) :
    ∃ insn, readInsn htinst fetch = .ok (insn, store.insnLen) ∧ store.size ∈ [1, 2, 4, 8] ∧
      (decodeStore insn = none ∧ FetchedShort htinst fetch ∨
        decodeStore insn = some ⟨store.size, store.rs2⟩ ∧ ¬ FetchedShort htinst fetch) := by
  cases presented with
  | fetched insn fromMemory isFetched isStore =>
    obtain ⟨decoded, isSize, isLen⟩ := decodeStore_isa isStore
    refine ⟨insn, ?_, isSize, ?_⟩
    · rw [readInsn_fetched fromMemory isFetched, isLen]
    · rw [decoded]
      cases short : shortStackStore insn with
      | true => exact .inl ⟨rfl, fromMemory, insn, isFetched, short⟩
      | false =>
        refine .inr ⟨rfl, ?_⟩
        rintro ⟨_, other, isOther, otherShort⟩
        cases isFetched.symm.trans isOther
        rw [short] at otherShort
        cases otherShort
  | transformed insn isInsn isStore =>
    have notShort : shortStackStore insn = false := by
      have low := isInsn.low
      simp [shortStackStore, field, low]
    obtain ⟨decoded, isSize, -⟩ := decodeStore_isa isStore
    refine ⟨insn, readInsn_transformed isInsn, isSize, .inr ⟨?_, ?_⟩⟩
    · rw [decoded, notShort]
      rfl
    · rintro ⟨even, _⟩
      have low := isInsn.length
      rw [transformedLow] at low
      split at low <;> omega

theorem emulateStore_correct_iff (presented : store.Presented htinst fetch)
    (aligned : fault % store.size = 0) (answer : device fault store.size (store.data regs) = .ok) :
    store.Emulated regs fault (emulateStore device regs fault htinst fetch) ↔
      store.Fits htinst fetch := by
  obtain ⟨insn, isInsn, isSize, ⟨refused, short⟩ | ⟨decoded, notShort⟩⟩ := presented.decoded
  · simp [Store.Emulated, Store.Fits, emulateStore, isInsn, refused, short, Outcome.failed]
  · have masked := aligned_of_mod isSize aligned
    simp only [emulateStore, isInsn, decoded, masked]
    by_cases eight : store.size = 8
    · simp [Store.Emulated, Store.Fits, eight]
    · have handed := answer
      simp only [Store.data] at handed
      simp [Store.Emulated, Store.Fits, eight, notShort, handed, Regs.advance, Store.data]

end Stores

/-! ## Both -/

/-- A load or store whose device access succeeds is emulated as the instruction set prescribes
exactly if the emulation can do it: at most 4 bytes; for loads no sign to extend and no change of
x0; for stores no stack store with a short offset. -/
theorem emulation_follows_isa_iff (regs : Regs) (fault htinst : Nat) (fetch : Except Trap Nat) :
    (∀ (load : Load) (device : DeviceRead) (data : BitVec 64),
      load.Presented htinst fetch → fault % load.size = 0 →
      device fault load.size = .ok data →
      (load.Emulated regs data (emulateLoad device regs fault htinst fetch) ↔
        load.Fits regs data)) ∧
    (∀ (store : Store) (device : DeviceWrite),
      store.Presented htinst fetch → fault % store.size = 0 →
      device fault store.size (store.data regs) = .ok →
      (store.Emulated regs fault (emulateStore device regs fault htinst fetch) ↔
        store.Fits htinst fetch)) := by
  constructor
  · intro load device data presented aligned answer
    exact emulateLoad_correct_iff presented aligned answer
  · intro store device presented aligned answer
    exact emulateStore_correct_iff presented aligned answer

/-- `lbu a0, 0(a1)`, and `sb a0, 0(a1)` in transformed form. -/
theorem emulation_follows_isa_bytes :
    Load.Emulated ⟨1, false, 10, 4⟩ ⟨fun _ => 0, 0x80000000⟩ 0xFF
      (emulateLoad (fun _ _ => .ok 0xFF) ⟨fun _ => 0, 0x80000000⟩ 0x10000000 0
        (.ok 0x0005C503)) ∧
    Store.Emulated ⟨1, 10, 4⟩ ⟨fun _ => 0, 0x80000000⟩ 0x10000000
      (emulateStore (fun _ _ _ => .ok) ⟨fun _ => 0, 0x80000000⟩ 0x10000000 0x00A00023
        (.ok 0)) := by
  constructor
  · apply ((emulation_follows_isa_iff _ 0x10000000 0 (.ok 0x0005C503)).1 ⟨1, false, 10, 4⟩ _ 0xFF
      (.fetched 0x0005C503 rfl rfl rfl) rfl rfl).mpr
    exact ⟨by decide, by decide⟩
  · apply ((emulation_follows_isa_iff _ 0x10000000 0x00A00023 (.ok 0)).2 ⟨1, 10, 4⟩ _
      (.transformed 0x00A00023 ⟨rfl, rfl, rfl, .inr rfl⟩ rfl) rfl rfl).mpr
    refine ⟨by decide, ?_⟩
    rintro ⟨even, _⟩
    cases even

/-- `lb a0, 0(a1)` and a device that answers 0xFF: the register gets 255 instead of -1. -/
theorem emulateLoad_drops_sign :
    isaLoad 0x00058503 = some ⟨1, true, 10, 4⟩ ∧
    (emulateLoad (fun _ _ => .ok 0xFF) ⟨fun _ => 0, 0x80000000⟩ 0x10000000 0
      (.ok 0x00058503)).rc = .ok ∧
    (emulateLoad (fun _ _ => .ok 0xFF) ⟨fun _ => 0, 0x80000000⟩ 0x10000000 0
      (.ok 0x00058503)).regs.x 10 = 0xFF ∧
    (Load.execute ⟨1, true, 10, 4⟩ ⟨fun _ => 0, 0x80000000⟩ 0xFF).x 10 =
      0xFFFFFFFFFFFFFFFF := by
  decide

end Xvisor.Vcpu
