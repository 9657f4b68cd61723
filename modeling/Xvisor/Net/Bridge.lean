import Mathlib.Data.List.FinRange
import Xvisor.Lib.System
import Xvisor.Lib.Word

/-!
# The learning bridge

The table of learned addresses of `vmm_bridge.c` and where a received frame goes. A slot whose port
was removed is free but keeps its address, and is the first to be taken for that address again.
-/

namespace Xvisor.Net

open Function List Lib Option

abbrev Mac := BitVec 48

def isBroadcast (mac : Mac) : Bool := mac = BitVec.allOnes 48

structure Frame where
  dstmac : Mac
  srcmac : Mac

/-- A slot of the table, free when its port is missing. -/
structure MacEntry (P : Type) where
  port : Option P
  macaddr : Mac
  timestamp : Nat

abbrev MacTable (P : Type) := Fin 32 → MacEntry P

def macExpiry : Nat := 30000000000

variable {P : Type}

namespace MacTable

variable (table : MacTable P)

def first (ok : MacEntry P → Bool) : Option (Fin 32) :=
  (List.finRange 32).find? fun i => ok (table i)

def lookup (mac : Mac) : Option P :=
  (List.finRange 32).findSome? fun i => if (table i).macaddr = mac then (table i).port else none

theorem lookup_eq_some {table : MacTable P} {mac : Mac} {p : P}
    (found : table.lookup mac = some p) :
    ∃ i, (table i).macaddr = mac ∧ (table i).port = some p := by
  obtain ⟨i, -, result⟩ := exists_of_findSome?_eq_some found
  split at result
  next same => exact ⟨i, same, result⟩
  next => cases result

variable [DecidableEq P] (src : P) (srcmac : Mac) (now : Nat)

/-- The second half of `bridge_mactable_learn_find`, which starts with the lookup. -/
def learn : MacTable P :=
  if ∃ i, (table i).port = some src ∧ (table i).macaddr = srcmac then table
  else
    match table.first (·.macaddr = srcmac) with
    | some i => update table i { table i with port := some src, timestamp := now }
    | none =>
      match table.first (·.port = none) with
      | some i => update table i ⟨some src, srcmac, now⟩
      | none => table

def cleanupPort (port : P) : MacTable P := fun i =>
  if (table i).port = some port then { table i with port := none } else table i

/-- The age is taken the wrong way round and wraps. -/
def timerEvent : MacTable P := fun i =>
  if (table i).port.isSome ∧ macExpiry < Word.sub (table i).timestamp now then ⟨none, 0, 0⟩
  else table i

variable {table src srcmac now}

/-- Learning does nothing if the address is known from this port or there is no room for it, or
else it writes one slot. -/
theorem learn_cases :
    (table.learn src srcmac now = table ∧
      ((∃ i, (table i).port = some src ∧ (table i).macaddr = srcmac) ∨
        ∀ i, (table i).macaddr ≠ srcmac)) ∨
    ∃ i, table.learn src srcmac now = update table i ⟨some src, srcmac, now⟩ ∧
      ((table i).macaddr = srcmac ∨ ∀ j, (table j).macaddr ≠ srcmac) := by
  unfold learn
  split_ifs with known
  · exact .inl ⟨rfl, .inl known⟩
  cases same : table.first (·.macaddr = srcmac) with
  | some i =>
    have atSlot : (table i).macaddr = srcmac := by simpa using List.find?_some same
    exact .inr ⟨i, by rw [← atSlot], .inl atSlot⟩
  | none =>
    have absent (i : Fin 32) : (table i).macaddr ≠ srcmac := by
      simpa using List.find?_eq_none.mp same i (mem_finRange i)
    cases table.first (·.port = none) with
    | some i => exact .inr ⟨i, rfl, .inr absent⟩
    | none => exact .inl ⟨rfl, .inr absent⟩

end MacTable

/-- The ports of the switch in the order of its list, and a table that names no other port. -/
structure Bridge (P : Type) where
  ports : List P
  nodup : ports.Nodup
  table : MacTable P
  member : ∀ i, ∀ p ∈ (table i).port, p ∈ ports

namespace Bridge

variable [DecidableEq P] (b : Bridge P)

/-- The bridge after `bridge_create`. -/
def create : Bridge P := ⟨[], .nil, fun _ => ⟨none, 0, 0⟩, nofun⟩

def portAdd (port : P) (new : port ∉ b.ports) : Bridge P where
  ports := b.ports ++ [port]
  nodup := b.nodup.append (nodup_singleton port) (by simpa using new)
  table := b.table
  member i p used := mem_append_left _ (b.member i p used)

def portRemove (port : P) : Bridge P where
  ports := b.ports.erase port
  nodup := b.nodup.erase port
  table := b.table.cleanupPort port
  member i p used := by
    unfold MacTable.cleanupPort at used
    split at used
    next => cases used
    next other =>
      have stays : p ≠ port := by
        rintro rfl
        exact other used
      exact (mem_erase_of_ne stays).mpr (b.member i p used)

def timerEvent (now : Nat) : Bridge P :=
  { b with
    table := b.table.timerEvent now
    member i p used := by
      unfold MacTable.timerEvent at used
      split at used
      next => cases used
      next => exact b.member i p used }

def learn (src : P) (isPort : src ∈ b.ports) (srcmac : Mac) (now : Nat) : Bridge P :=
  { b with
    table := b.table.learn src srcmac now
    member := by
      obtain ⟨same, -⟩ | ⟨slot, written, -⟩ := b.table.learn_cases
      · rw [same]
        exact b.member
      · rw [written, forall_update_iff b.table fun _ e => ∀ p ∈ e.port, p ∈ b.ports]
        exact ⟨fun p used => some.inj used ▸ isPort, fun i _ => b.member i⟩ }

/-- The bridge afterwards and the ports the frame is sent to, in order. -/
def rxHandler (src : P) (isPort : src ∈ b.ports) (frame : Frame) (now : Nat) : Bridge P × List P :=
  let dst := b.table.lookup frame.dstmac
  (b.learn src isPort frame.srcmac now, if !isBroadcast frame.dstmac && dst.isSome then dst.toList
    else b.ports.filter (· ≠ src))

/-- Where a bridge has to send a frame received on `src`. -/
structure Forwards (src : P) (dstmac : Mac) (sent : List P) : Prop where
  notBack : src ∉ sent
  flooded : isBroadcast dstmac = true ∨ b.table.lookup dstmac = none →
    sent.Nodup ∧ ∀ p, p ∈ sent ↔ p ∈ b.ports ∧ p ≠ src
  known : ∀ p, isBroadcast dstmac = false → b.table.lookup dstmac = some p →
    sent.length ≤ 1 ∧ ∀ q ∈ sent, q = p ∧ q ∈ b.ports

theorem flood_forwards (src : P) {dstmac : Mac}
    (unknown : isBroadcast dstmac = true ∨ b.table.lookup dstmac = none) :
    b.Forwards src dstmac (b.ports.filter (· ≠ src)) where
  notBack := by simp
  flooded _ := ⟨b.nodup.filter _, by simp⟩
  known p unicast found := by simp [unicast, found] at unknown

/-- One port, on which one address was heard. -/
def learned : Bridge Unit := ((create.portAdd () nofun).rxHandler () (.head _) ⟨2, 1⟩ 0).1

end Bridge

/-! ## The table over whole runs -/

section Kept

/-- The slot was written in the past, for the last frame heard from its address. -/
def MacEntry.Ok (e : MacEntry P) (now : Nat) (heard : Mac → Option P) : Prop :=
  e.timestamp ≤ now ∧ ∀ p ∈ e.port, e.macaddr ≠ 0 ∧ heard e.macaddr = some p

/-- The addresses of free slots count too; only the address zero may occur twice. -/
structure MacTable.Kept (table : MacTable P) (now : Nat) (heard : Mac → Option P) : Prop where
  distinct : ∀ i j, (table i).macaddr = (table j).macaddr → (table i).macaddr ≠ 0 → i = j
  slots : ∀ i, (table i).Ok now heard

variable {now now' : Nat} {heard : Mac → Option P} {srcmac : Mac} {src : P} (later : now ≤ now')
include later

theorem MacEntry.Ok.hear {e : MacEntry P} (ok : e.Ok now heard)
    (apart : e.macaddr = srcmac → ∀ p ∈ e.port, p = src) :
    e.Ok now' (update heard srcmac src) := by
  refine ⟨ok.1.trans later, fun p used => ⟨(ok.2 p used).1, ?_⟩⟩
  by_cases same : e.macaddr = srcmac
  · rw [same, update_self, apart same p used]
  · rw [update_of_ne same, (ok.2 p used).2]

namespace MacTable.Kept

variable {table : MacTable P} (kept : table.Kept now heard)
include kept

theorem timerEvent : (table.timerEvent now').Kept now' heard := by
  constructor
  · intro i j
    simp only [MacTable.timerEvent]
    split_ifs
    · exact fun _ set => absurd rfl set
    · exact fun _ set => absurd rfl set
    · exact fun same set => absurd same set
    · exact kept.distinct i j
  · intro i
    unfold MacTable.timerEvent
    split
    · exact ⟨Nat.zero_le _, nofun⟩
    · exact ⟨(kept.slots i).1.trans later, (kept.slots i).2⟩

variable [DecidableEq P]

theorem learn (set : srcmac ≠ 0) :
    (table.learn src srcmac now').Kept now' (update heard srcmac src) := by
  obtain ⟨same, known⟩ | ⟨slot, written, place⟩ := @learn_cases P table _ src srcmac now'
  · rw [same]
    refine ⟨kept.distinct, fun i => (kept.slots i).hear later fun isSource p used => ?_⟩
    obtain ⟨j, port, atSlot⟩ | absent := known
    · cases kept.distinct i j (isSource.trans atSlot.symm) (isSource ▸ set)
      exact some.inj (used.symm.trans port)
    · exact absurd isSource (absent i)
  · have only (i : Fin 32) (isSource : (table i).macaddr = srcmac) : i = slot := by
      obtain atSlot | absent := place
      · exact kept.distinct i slot (isSource.trans atSlot.symm) (isSource ▸ set)
      · exact absurd isSource (absent i)
    rw [written]
    constructor
    · intro i j
      simp only [update_apply]
      split_ifs with first second second
      · exact fun _ _ => first.trans second.symm
      · exact fun same _ => absurd (only j same.symm) second
      · exact fun same _ => absurd (only i same) first
      · exact kept.distinct i j
    · rw [forall_update_iff table fun _ e => e.Ok now' _]
      refine ⟨⟨le_refl _, fun p used => ⟨set, ?_⟩⟩, fun i other => ?_⟩
      · exact (update_self ..).trans used
      · exact (kept.slots i).hear later fun isSource => absurd (only i isSource) other

omit later in
theorem cleanupPort (port : P) : (table.cleanupPort port).Kept now heard := by
  constructor
  · intro i j
    simp only [MacTable.cleanupPort]
    split_ifs <;> exact kept.distinct i j
  · intro i
    unfold MacTable.cleanupPort
    split
    · exact ⟨(kept.slots i).1, nofun⟩
    · exact kept.slots i

end MacTable.Kept

end Kept

/-- The bridge with the clock and the port on which each address was last heard. -/
structure BridgeState (P : Type) extends Bridge P where
  now : Nat
  heard : Mac → Option P

namespace BridgeState

variable [DecidableEq P]

inductive Label (P : Type) where
  | portAdd (port : P)
  | portRemove (port : P)
  | frame (src : P) (frame : Frame) (now : Nat)
  | timer (now : Nat)

inductive Step : BridgeState P → Label P → BridgeState P → Prop where
  | portAdd {s port} (new : port ∉ s.ports) :
      Step s (.portAdd port) { s with toBridge := s.toBridge.portAdd port new }
  | portRemove {s port} :
      Step s (.portRemove port) { s with toBridge := s.toBridge.portRemove port }
  | frame {s src frame now} (isPort : src ∈ s.ports) (later : s.now ≤ now ∧ now < 2 ^ 64) :
      Step s (.frame src frame now)
        ⟨(s.rxHandler src isPort frame now).1, now, update s.heard frame.srcmac src⟩
  | timer {s now} (later : s.now ≤ now ∧ now < 2 ^ 64) :
      Step s (.timer now) ⟨s.timerEvent now, now, s.heard⟩

def bridgeSystem (P : Type) [DecidableEq P] : System (BridgeState P) (Label P) where
  init s := s = ⟨.create, 0, fun _ => none⟩
  step := Step

/-- Frames have a source address, and an expiry event finds no entry of an age that is misjudged. -/
def Permitted (s : BridgeState P) : Label P → Prop
  | .frame _ frame _ => frame.srcmac ≠ 0
  | .timer now => ∀ i, (s.table i).port.isSome → (s.table i).timestamp = now ∨
      macExpiry < now - (s.table i).timestamp ∧ now - (s.table i).timestamp < 2 ^ 64 - macExpiry
  | _ => True

structure Sound (s : BridgeState P) : Prop where
  unique : ∀ i j, (s.table i).port.isSome → (s.table j).port.isSome →
    (s.table i).macaddr = (s.table j).macaddr → i = j
  recent : ∀ i p, (s.table i).port = some p →
    s.table.lookup (s.table i).macaddr = some p ∧ s.heard (s.table i).macaddr = some p
  member : ∀ i p, (s.table i).port = some p → p ∈ s.ports

/-- An expiry event frees the slots that are older than the expiry time and no others. -/
def Expires (s s' : BridgeState P) (now : Nat) : Prop :=
  ∀ i, (s'.table i).port =
    if macExpiry < now - (s.table i).timestamp then none else (s.table i).port

theorem learned_reachable : ((bridgeSystem Unit).restrict Permitted).Reachable
    ⟨.learned, 0, update (fun _ => none) 1 ()⟩ := by
  have start : ((bridgeSystem Unit).restrict Permitted).Reachable _ := .start rfl
  have added := start.step (.portAdd ()) ⟨trivial, .portAdd (by decide)⟩
  exact added.step (.frame () ⟨2, 1⟩ 0) ⟨(by decide : (1 : Mac) ≠ 0), .frame (.head _) (by decide)⟩

section Runs

variable {s : BridgeState P} (reached : ((bridgeSystem P).restrict Permitted).Reachable s)
include reached

theorem reachable_kept : s.table.Kept s.now s.heard := by
  refine reached.invariant (fun s => s.table.Kept s.now s.heard) ?_ ?_
  · rintro s rfl
    exact ⟨fun _ _ _ set => absurd rfl set, fun _ => ⟨le_refl _, nofun⟩⟩
  · rintro s label s' kept ⟨permitted, step⟩
    cases step with
    | portAdd new => exact kept
    | portRemove => exact kept.cleanupPort _
    | frame isPort later => exact kept.learn later.1 permitted
    | timer later => exact kept.timerEvent later.1

theorem bridge_sound : s.Sound ∧ ∀ now s',
    ((bridgeSystem P).restrict Permitted).step s (.timer now) s' → s.Expires s' now := by
  have kept := reachable_kept reached
  refine ⟨⟨fun i j used _ same => ?_, fun i p used => ?_, s.member⟩, ?_⟩
  · obtain ⟨p, used⟩ := isSome_iff_exists.mp used
    exact kept.distinct i j same ((kept.slots i).2 p used).1
  · have heard := ((kept.slots i).2 p used).2
    cases found : s.table.lookup (s.table i).macaddr with
    | none =>
      have free := List.findSome?_eq_none_iff.mp found i (mem_finRange i)
      rw [if_pos rfl, used] at free
      cases free
    | some q =>
      obtain ⟨j, same, port⟩ := MacTable.lookup_eq_some found
      have again := ((kept.slots j).2 q port).2
      rw [same, heard] at again
      exact ⟨again.symm, heard⟩
  · rintro now s' ⟨ages, step⟩ i
    cases step with
    | timer later =>
      have past := (kept.slots i).1
      cases used : (s.table i).port with
      | none => simp [Bridge.timerEvent, MacTable.timerEvent, used]
      | some p =>
        have judged : macExpiry < Word.sub (s.table i).timestamp now ↔
            macExpiry < now - (s.table i).timestamp := by
          have age := ages i (isSome_of_mem used)
          unfold macExpiry at *
          unfold Word.sub
          omega
        simp only [Bridge.timerEvent, MacTable.timerEvent, used, isSome_some, true_and,
          judged]
        split
        · rfl
        · exact used

end Runs

theorem bridge_sound_learned : ∃ s : BridgeState Unit,
    ((bridgeSystem Unit).restrict Permitted).Reachable s ∧ s.table.lookup 1 = some () ∧
      s.Sound ∧ ∀ now s', ((bridgeSystem Unit).restrict Permitted).step s (.timer now) s' →
        s.Expires s' now :=
  ⟨_, learned_reachable, by decide, bridge_sound learned_reachable⟩

/-- An entry is dropped by the first event after it was learned. -/
theorem bridge_drops_fresh : ∃ s s' : BridgeState Unit, (bridgeSystem Unit).Reachable s ∧
    (bridgeSystem Unit).step s (.timer 1) s' ∧ ¬s.Expires s' 1 :=
  ⟨_, _, learned_reachable.of_restrict, .timer (by decide),
    fun expires => absurd (expires 0) (by decide)⟩

end BridgeState

end Xvisor.Net
