import Xvisor.Lib.Word

/-!
# Accesses to emulated registers

The framework converts the data of an access between the byte order of the guest
and that of the emulator: a write by way of the host, a read from the emulator,
and then for the guest unless both have the same byte order.
-/

namespace Xvisor.Devemu

open Lib

inductive Endianness where
  | unknown
  | native
  | little
  | big
  | max
  deriving DecidableEq, Repr

inductive HostEndian where
  | little
  | big
  deriving DecidableEq, Repr

/-! ## Conversions -/

def rev16 : Nat → Nat := Bytes.reverse 2

def rev32 : Nat → Nat := Bytes.reverse 4

def rev64 (v : Nat) : Nat := rev32 v * 2 ^ 32 + rev32 (v / 2 ^ 32)

namespace HostEndian

variable (host : HostEndian)

def toLe (rev : Nat → Nat) (v : Nat) : Nat :=
  match host with
  | .little => v
  | .big => rev v

def toBe (rev : Nat → Nat) (v : Nat) : Nat :=
  match host with
  | .little => rev v
  | .big => v

def cpuToLe16 : Nat → Nat := host.toLe rev16

def cpuToBe16 : Nat → Nat := host.toBe rev16

def cpuToLe32 : Nat → Nat := host.toLe rev32

def cpuToBe32 : Nat → Nat := host.toBe rev32

def cpuToLe64 : Nat → Nat := host.toLe rev64

def cpuToBe64 : Nat → Nat := host.toBe rev64

end HostEndian

def convert (toLe toBe : Nat → Nat) (endian : Endianness) (data : Nat) : Nat :=
  match endian with
  | .little => toLe data
  | .big => toBe data
  | _ => data

def dataEndian : Endianness → Endianness
  | .little => .little
  | .big => .big
  | _ => .native

/-- The data of a read. The conversion to a big-endian destination is a parameter of its own. -/
def readData (toLe toBe dstToBe : Nat → Nat) (emuEndian dstEndian : Endianness) (data : Nat) :
    Nat :=
  let data := convert toLe toBe emuEndian data
  if dataEndian emuEndian ≠ dstEndian then convert toLe dstToBe dstEndian data else data

def writeData (toLe toBe : Nat → Nat) (srcEndian emuEndian : Endianness) (data : Nat) : Nat :=
  convert toLe toBe emuEndian (convert toLe toBe srcEndian data)

/-! ## Accesses -/

inductive Code where
  | efail
  | enotavail
  | einvalid
  | callback (rc : Int)
  deriving DecidableEq, Repr

structure Emulator (σ : Type) where
  endian : Endianness
  read8 : Option (σ → Nat → σ × Except Int Nat)
  read16 : Option (σ → Nat → σ × Except Int Nat)
  read32 : Option (σ → Nat → σ × Except Int Nat)
  read64 : Option (σ → Nat → σ × Except Int Nat)
  write8 : Option (σ → Nat → Nat → σ × Except Int Unit)
  write16 : Option (σ → Nat → Nat → σ × Except Int Unit)
  write32 : Option (σ → Nat → Nat → σ × Except Int Unit)
  write64 : Option (σ → Nat → Nat → σ × Except Int Unit)

section Access

variable {σ : Type} (read : Option (σ → Nat → σ × Except Int Nat))

def callRead (st : σ) (offset : Nat) (finish : Nat → Nat) : σ × Except Code Nat :=
  match read with
  | none => (st, .error .enotavail)
  | some read =>
    match read st offset with
    | (st, .ok data) => (st, .ok (finish data))
    | (st, .error rc) => (st, .error (.callback rc))

variable (write : Option (σ → Nat → Nat → σ × Except Int Unit))

def callWrite (st : σ) (offset : Nat) (data : Nat) : σ × Except Code Unit :=
  match write with
  | none => (st, .error .enotavail)
  | some write =>
    match write st offset data with
    | (st, .ok ()) => (st, .ok ())
    | (st, .error rc) => (st, .error (.callback rc))

variable (host : HostEndian) (emu : Emulator σ)

def devemuDoread (st : σ) (offset dstLen : Nat) (dstEndian : Endianness) : σ × Except Code Nat :=
  if dstEndian = .unknown ∨ dstEndian = .max then (st, .error .efail)
  else
    match dstLen with
    | 1 => callRead emu.read8 st offset id
    | 2 => callRead emu.read16 st offset
        (readData host.cpuToLe16 host.cpuToBe16 host.cpuToBe16 emu.endian dstEndian)
    | 4 => callRead emu.read32 st offset
        (readData host.cpuToLe32 host.cpuToBe32 host.cpuToBe32 emu.endian dstEndian)
    -- the source calls `vmm_cpu_to_be32` on the 64-bit data here
    | 8 => callRead emu.read64 st offset
        (readData host.cpuToLe64 host.cpuToBe64 host.cpuToBe32 emu.endian dstEndian)
    | _ => (st, .error .einvalid)

def devemuDowrite (st : σ) (offset src srcLen : Nat)
    (srcEndian : Endianness) : σ × Except Code Unit :=
  if srcEndian = .unknown ∨ srcEndian = .max then (st, .error .efail)
  else
    match srcLen with
    | 1 => callWrite emu.write8 st offset src
    | 2 => callWrite emu.write16 st offset
        (writeData host.cpuToLe16 host.cpuToBe16 srcEndian emu.endian src)
    | 4 => callWrite emu.write32 st offset
        (writeData host.cpuToLe32 host.cpuToBe32 srcEndian emu.endian src)
    | 8 => callWrite emu.write64 st offset
        (writeData host.cpuToLe64 host.cpuToBe64 srcEndian emu.endian src)
    | _ => (st, .error .einvalid)

def Keeps (len offset : Nat) : Prop :=
  ∃ get set, read = some get ∧ write = some set ∧ ∀ st, ∀ v < 256 ^ len,
    ∃ written after, set st offset v = (written, .ok ()) ∧ get written offset = (after, .ok v)

def Emulator.Stores (len offset : Nat) : Prop :=
  match len with
  | 2 => Keeps emu.read16 emu.write16 2 offset
  | 4 => Keeps emu.read32 emu.write32 4 offset
  | 8 => Keeps emu.read64 emu.write64 8 offset
  | _ => False

def RoundTrips (st : σ) (offset len : Nat) (endian : Endianness) (v : Nat) : Prop :=
  ∃ written after, devemuDowrite host emu st offset v len endian = (written, .ok ()) ∧
    devemuDoread host emu written offset len endian = (after, .ok v)

end Access

/-! ## Round trips -/

def HostEndian.Foreign (host : HostEndian) (endian : Endianness) : Prop :=
  host = .little ∧ endian = .big ∨ host = .big ∧ endian = .little

instance (host : HostEndian) (endian : Endianness) : Decidable (host.Foreign endian) :=
  inferInstanceAs (Decidable (_ ∨ _))

theorem rev64_eq (v : Nat) : rev64 v = Bytes.reverse 8 v :=
  (Bytes.reverse_add 4 4 v).symm

/-- The conversion of `len` bytes. -/
def HostEndian.order (host : HostEndian) (len : Nat) : Endianness → Nat → Nat :=
  convert (host.toLe (Bytes.reverse len)) (host.toBe (Bytes.reverse len))

theorem order_eq (host : HostEndian) (len : Nat) (endian : Endianness) (v : Nat) :
    host.order len endian v = if host.Foreign endian then Bytes.reverse len v else v := by
  cases host <;> cases endian <;> rfl

theorem convert_big {host : HostEndian} {endian : Endianness}
    (isBig : host = .little ∧ endian = .big) (rev dstRev : Nat → Nat) (v : Nat) :
    convert (host.toLe rev) (host.toBe dstRev) endian v = dstRev v := by
  obtain ⟨rfl, rfl⟩ := isBig
  rfl

theorem convert_of_not_big {host : HostEndian} {endian : Endianness}
    (notBig : ¬ (host = .little ∧ endian = .big)) (len : Nat) (dstRev : Nat → Nat) (v : Nat) :
    convert (host.toLe (Bytes.reverse len)) (host.toBe dstRev) endian v =
      host.order len endian v := by
  cases host <;> cases endian <;> first | rfl | exact absurd ⟨rfl, rfl⟩ notBig

section Conversion

variable {host : HostEndian} {len v : Nat} {emuEndian endian : Endianness}

theorem order_lt (bound : v < 256 ^ len) : host.order len endian v < 256 ^ len := by
  rw [order_eq]
  split_ifs
  · exact Bytes.reverse_lt len v
  · exact bound

theorem order_order (bound : v < 256 ^ len) :
    host.order len endian (host.order len endian v) = v := by
  simp only [order_eq]
  split_ifs
  · exact Bytes.reverse_reverse bound
  · rfl

theorem readData_writeData (dstToBe : Nat → Nat) (bound : v < 256 ^ len) :
    readData (host.toLe (Bytes.reverse len)) (host.toBe (Bytes.reverse len)) dstToBe emuEndian
        endian
        (writeData (host.toLe (Bytes.reverse len)) (host.toBe (Bytes.reverse len)) endian
          emuEndian v) =
      if dataEndian emuEndian = endian then host.order len endian v
      else convert (host.toLe (Bytes.reverse len)) dstToBe endian (host.order len endian v) := by
  have cancels : host.order len emuEndian (host.order len emuEndian (host.order len endian v)) =
      host.order len endian v := order_order (order_lt bound)
  unfold HostEndian.order at *
  simp only [readData, writeData, cancels, ne_eq, ite_not]

theorem order_eq_self_iff : host.order len endian v = v ↔
    ¬ host.Foreign endian ∨ Bytes.reverse len v = v := by
  rw [order_eq]
  split_ifs with foreign
  · simp [foreign]
  · simp [foreign]

theorem rev32_reverse (bound : v < 256 ^ 8) : rev32 (Bytes.reverse 8 v) = v / 256 ^ 4 := by
  have upper : v / 256 ^ 4 < 256 ^ 4 := Nat.div_lt_of_lt_mul bound
  have low : Bytes.reverse 8 v % 256 ^ 4 = Bytes.reverse 4 (v / 256 ^ 4) := by
    rw [Bytes.reverse_add 4 4 v, Nat.mul_add_mod', Nat.mod_eq_of_lt (Bytes.reverse_lt _ _)]
  rw [rev32, ← Bytes.reverse_mod, low, Bytes.reverse_reverse upper]

theorem convert_be32_eq_self_iff (bound : v < 256 ^ 8) :
    convert (host.toLe (Bytes.reverse 8)) (host.toBe rev32) endian (host.order 8 endian v) = v ↔
      ¬ (host = .little ∧ endian = .big) ∨ v = 0 := by
  by_cases truncates : host = .little ∧ endian = .big
  · rw [order_eq, if_pos (.inl truncates), convert_big truncates, rev32_reverse bound]
    simp only [truncates, and_self, not_true_eq_false, false_or]
    omega
  · rw [convert_of_not_big truncates, order_order bound]
    simp only [truncates, not_false_eq_true, true_or]

end Conversion

section Access

variable {σ : Type} {host : HostEndian} {emu : Emulator σ} {offset len v : Nat}
  {endian : Endianness}

theorem call_roundTrip {read : Option (σ → Nat → σ × Except Int Nat)}
    {write : Option (σ → Nat → Nat → σ × Except Int Unit)} {data : Nat}
    (keeps : Keeps read write len offset) (bound : data < 256 ^ len) (st : σ) (finish : Nat → Nat) :
    (∃ written after, callWrite write st offset data = (written, .ok ()) ∧
      callRead read written offset finish = (after, .ok v)) ↔ finish data = v := by
  obtain ⟨get, set, rfl, rfl, stored⟩ := keeps
  obtain ⟨written, after, isWritten, isRead⟩ := stored st data bound
  have writes : callWrite (some set) st offset data = (written, .ok ()) := by
    simp only [callWrite, isWritten]
  have reads : callRead (some get) written offset finish = (after, .ok (finish data)) := by
    simp only [callRead, isRead]
  constructor
  · rintro ⟨other, last, isOther, isLast⟩
    rw [writes] at isOther
    cases isOther
    rw [reads] at isLast
    cases isLast
    rfl
  · rintro rfl
    exact ⟨written, after, writes, reads⟩

def readBack (host : HostEndian) (emuEndian endian : Endianness) (len v : Nat) : Nat :=
  let toLe := host.toLe (Bytes.reverse len)
  let toBe := host.toBe (Bytes.reverse len)
  readData toLe toBe (if len = 8 then host.cpuToBe32 else toBe) emuEndian endian
    (writeData toLe toBe endian emuEndian v)

theorem roundTrips_iff_readBack (st : σ) (isLen : len = 2 ∨ len = 4 ∨ len = 8)
    (valid : ¬ (endian = .unknown ∨ endian = .max)) (stores : emu.Stores len offset)
    (bound : v < 256 ^ len) :
    RoundTrips host emu st offset len endian v ↔
      readBack host emu.endian endian len v = v := by
  have wide : rev64 = Bytes.reverse 8 := funext rev64_eq
  unfold RoundTrips devemuDowrite devemuDoread
  simp only [if_neg valid]
  rcases isLen with rfl | rfl | rfl
  · exact call_roundTrip stores (order_lt (order_lt bound)) st _
  · exact call_roundTrip stores (order_lt (order_lt bound)) st _
  · simp only [HostEndian.cpuToLe64, HostEndian.cpuToBe64, wide]
    exact call_roundTrip stores (order_lt (order_lt bound)) st _

/-- The byte orders for which the conversions of a write and a read cancel, and the values for
which it does not matter. -/
def Cancels (host : HostEndian) (emuEndian endian : Endianness) (len v : Nat) : Prop :=
  if emuEndian = endian then ¬ host.Foreign endian ∨ Bytes.reverse len v = v
  else ¬ (len = 8 ∧ host = .little ∧ endian = .big) ∨ v = 0

theorem readBack_eq_self_iff {emuEndian : Endianness} (bound : v < 256 ^ len)
    (valid : ¬ (endian = .unknown ∨ endian = .max)) :
    readBack host emuEndian endian len v = v ↔ Cancels host emuEndian endian len v := by
  have agrees : dataEndian emuEndian = endian → emuEndian = endian ∨ endian = .native := by
    rintro rfl
    cases emuEndian <;> decide
  have sameOrder : emuEndian = endian → dataEndian emuEndian = endian := by
    rintro rfl
    cases emuEndian <;> simp_all [dataEndian]
  unfold readBack Cancels
  rw [readData_writeData _ bound]
  by_cases same : emuEndian = endian
  · rw [if_pos (sameOrder same), if_pos same, order_eq_self_iff]
  · rw [if_neg same]
    by_cases agree : dataEndian emuEndian = endian
    · obtain rfl := (agrees agree).resolve_left same
      rw [if_pos agree]
      simp [HostEndian.order, convert]
    · rw [if_neg agree]
      by_cases wide : len = 8
      · subst wide
        rw [if_pos rfl, HostEndian.cpuToBe32, convert_be32_eq_self_iff bound]
        simp only [true_and]
      · rw [if_neg wide]
        rw [show convert _ _ _ _ = _ from order_order bound]
        simp only [wide, false_and, not_false_eq_true, true_or]

/-- What is read back is what was written exactly if the conversions cancel. -/
theorem devemu_roundTrips_iff (st : σ) (isLen : len = 2 ∨ len = 4 ∨ len = 8)
    (isEndian : endian = .little ∨ endian = .big ∨ endian = .native)
    (stores : emu.Stores len offset) (bound : v < 256 ^ len) :
    RoundTrips host emu st offset len endian v ↔ Cancels host emu.endian endian len v := by
  have valid : ¬ (endian = .unknown ∨ endian = .max) := by
    rcases isEndian with rfl | rfl | rfl <;> decide
  rw [roundTrips_iff_readBack st isLen valid stores bound, readBack_eq_self_iff bound valid]

end Access

def oneRegister (endian : Endianness) : Emulator Nat where
  endian := endian
  read8 := some fun st _ => (st, .ok st)
  read16 := some fun st _ => (st, .ok st)
  read32 := some fun st _ => (st, .ok st)
  read64 := some fun st _ => (st, .ok st)
  write8 := some fun _ _ v => (v, .ok ())
  write16 := some fun _ _ v => (v, .ok ())
  write32 := some fun _ _ v => (v, .ok ())
  write64 := some fun _ _ v => (v, .ok ())

theorem oneRegister_stores (endian : Endianness) {len : Nat} (isLen : len = 2 ∨ len = 4 ∨ len = 8)
    (offset : Nat) : (oneRegister endian).Stores len offset := by
  rcases isLen with rfl | rfl | rfl
  all_goals exact ⟨_, _, rfl, rfl, fun _ v _ => ⟨v, v, rfl, rfl⟩⟩

/-- A big-endian guest and a little-endian device on a little-endian host. -/
theorem devemu_roundTrips_bigGuest :
    RoundTrips .little (oneRegister .little) 0 16 4 .big 0x11223344 :=
  (devemu_roundTrips_iff 0 (by decide) (by decide) (oneRegister_stores .little (by decide) 16)
    (by decide)).mpr (.inl (by decide))

/-- On a little-endian host a big-endian guest reads the register of a big-endian device in
reverse, and only the upper half of a 64-bit register of a little-endian device. -/
theorem devemu_loses_bytes :
    readBack .little .big .big 2 0x1234 = 0x3412 ∧
      readBack .little .little .big 8 0x1122334455667788 = 0x11223344 ∧
      ¬ RoundTrips .little (oneRegister .big) 0 0 2 .big 0x1234 ∧
      ¬ RoundTrips .little (oneRegister .little) 0 0 8 .big 0x1122334455667788 := by
  refine ⟨by decide, by decide, ?_, ?_⟩
  · rw [roundTrips_iff_readBack 0 (by decide) (by decide) (oneRegister_stores .big (by decide) 0)
      (by decide)]
    decide
  · rw [roundTrips_iff_readBack 0 (by decide) (by decide)
      (oneRegister_stores .little (by decide) 0) (by decide)]
    decide

end Xvisor.Devemu
