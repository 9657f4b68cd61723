import Xvisor.Virtio.Blk

/-!
# Requests in flight

Every popped head is either on the used ring or in flight: it belongs to a request
that the driver or a backlog of the block layer holds.
-/

namespace Xvisor.Virtio

open Function List Lib Guest Block Option Aspace Nat

/-! ## Writing to guest memory -/

section Memory

variable {aspace : Aspace} {fuel : Nat}

def Reaches (aspace : Aspace) (fuel pa len : Nat) : Prop :=
  ∃ addrs, aspace.accesses fuel len pa len = some addrs ∧ addrs.length = len

theorem accesses_length_le {steps gphys remaining : Nat} {addrs : List Nat}
    (visited : aspace.accesses fuel steps gphys remaining = some addrs) :
    addrs.length ≤ remaining := by
  induction steps generalizing gphys remaining addrs with
  | zero =>
    cases visited
    exact zero_le _
  | succ steps ih =>
    unfold accesses at visited
    split at visited
    · cases visited
      exact zero_le _
    · split at visited
      · cases visited
        exact zero_le _
      · cases visited
      · next reg found =>
        have inRange := (pieceSize_le (reg.findMapping gphys).2 remaining).2
        dsimp only at visited
        split at visited
        · cases visited
          exact zero_le _
        · obtain ⟨rest, isRest, rfl⟩ := map_eq_some_iff.mp visited
          have := ih isRest
          rw [length_append, length_addresses]
          omega

theorem guestWrite_le (aspace : Aspace) (fuel : Nat) (mem : HostMemory) (pa : Nat)
    (src : List UInt8) : (guestWrite aspace fuel mem pa src).2 ≤ src.length := by
  unfold guestWrite vmmGuestMemoryWrite
  rw [guestWriteLoop_eq]
  cases visited : aspace.accesses fuel src.length pa src.length with
  | none => exact zero_le _
  | some addrs => exact accesses_length_le visited

theorem guestWrite_of_reaches (mem : HostMemory) {pa len : Nat} {src : List UInt8}
    (isLength : src.length = len) (reaches : Reaches aspace fuel pa len) :
    (guestWrite aspace fuel mem pa src).2 = len := by
  subst isLength
  obtain ⟨addrs, visited, whole⟩ := reaches
  unfold guestWrite vmmGuestMemoryWrite
  rw [guestWriteLoop_eq, visited]
  exact whole

theorem length_toBytes (len value : Nat) : (toBytes len value).length = len := by
  induction len generalizing value with
  | zero => rfl
  | succ len ih => rw [toBytes, length_cons, ih]

theorem bufToIovecWrite_le (aspace : Aspace) (fuel : Nat) (iov : List IoVec) (buf : List UInt8)
    (mem : HostMemory) :
    (bufToIovecWrite aspace fuel iov buf mem).2 ≤ buf.length ∧
      (bufToIovecWrite aspace fuel iov buf mem).2 ≤ totalLen iov := by
  induction iov generalizing buf mem with
  | nil => exact ⟨zero_le _, zero_le _⟩
  | cons first rest ih =>
    unfold bufToIovecWrite
    split
    · exact ⟨zero_le _, zero_le _⟩
    · dsimp only
      have fits := guestWrite_le aspace fuel mem first.addr
        (buf.take (if buf.length < first.len then buf.length else first.len))
      generalize guestWrite aspace fuel mem first.addr
        (buf.take (if buf.length < first.len then buf.length else first.len)) = result at fits ⊢
      obtain ⟨mem', len⟩ := result
      rw [length_take] at fits
      have inBuf : len ≤ buf.length ∧ len ≤ first.len := by
        dsimp only at fits
        split at fits <;> omega
      split
      · exact ⟨zero_le _, zero_le _⟩
      · obtain ⟨bufBound, iovBound⟩ := ih (buf.drop len) mem'
        rw [length_drop] at bufBound
        simp only [totalLen, map_cons, sum_cons] at iovBound ⊢
        omega

end Memory

structure RingInRam {R : Type} (env : Env R) (vq : Queue) : Prop where
  ready : vq.ready = true
  idx : Reaches env.aspace env.fuel (Word.add vq.vring.usedPa 2) 2
  elem : ∀ i, Reaches env.aspace env.fuel (Word.add vq.vring.usedPa (usedRing (i % vq.vring.num))) 8

theorem RingInRam.setUsedElem {R : Type} {env : Env R} {vq : Queue} (ring : RingInRam env vq)
    (head len : Nat) (mem : HostMemory) :
    (vq.setUsedElem env.aspace env.fuel head len mem).2 = true := by
  unfold Queue.setUsedElem
  rw [ring.ready]
  dsimp only [reduceIte]
  have elemLength : (toBytes 4 head ++ toBytes 4 len).length = 8 := by
    rw [length_append, length_toBytes, length_toBytes]
  rw [if_neg (by decide)]
  dsimp only
  rw [guestWrite_of_reaches _ elemLength (ring.elem _),
    guestWrite_of_reaches _ (length_toBytes 2 _) ring.idx]
  rfl

def writableLen (chain : List IoVec) : Nat := totalLen ((dataDescs chain).filter (·.flags = 1))

namespace Blk

variable {R : Type} [DecidableEq R] {env : Env R} {s : Blk R}

omit [DecidableEq R] in
theorem place_eq (ring : RingInRam env s.vq) (head len : Nat) :
    ∃ mem, place env s head len = { s with mem := mem, used := s.used ++ [(head, len)] } := by
  refine ⟨(s.vq.setUsedElem env.aspace env.fuel head len s.mem).1, ?_⟩
  simp only [place, ring.setUsedElem head len s.mem, if_true]

def CopyFits (req : Req R) (status : Status) (count : Nat) : Prop :=
  count = 0 ∨ ∃ readIov, req.readIov = some readIov ∧ status = .ok ∧ req.type = some .read ∧
    count ≤ req.len ∧ count ≤ totalLen readIov

omit [DecidableEq R] in
theorem copyData_fits (env : Env R) (req : Req R) (status : Status) (mem : HostMemory) :
    CopyFits req status (copyData env req status mem).2 := by
  unfold copyData
  split
  · next readIov data isReadIov _ =>
    split
    · next answered =>
      have fits :=
        bufToIovecWrite_le env.aspace env.fuel readIov ((List.range req.len).map data) mem
      rw [length_map, length_range] at fits
      exact .inr ⟨readIov, isReadIov, answered.2.1, answered.2.2, fits⟩
    · exact .inl rfl
  · exact .inl rfl

omit [DecidableEq R] in
theorem reqDone_eq (ring : RingInRam env s.vq) (indx : Nat) (status : Status) :
    ∃ mem count, CopyFits (s.reqs indx) status count ∧ reqDone env s indx status =
        { s.setReq indx { s.reqs indx with readIov := none, type := none, data := none } with
          mem := mem
          used := s.used ++ [((s.reqs indx).head, (s.reqs indx).len)]
          copies := s.copies ++ [⟨count, (s.reqs indx).chain⟩] } := by
  have fits := copyData_fits env (s.reqs indx) status s.mem
  simp only [reqDone]
  generalize copyData env (s.reqs indx) status s.mem = copied at fits ⊢
  obtain ⟨mem, count⟩ := copied
  generalize bufToIovecWrite env.aspace env.fuel [(s.reqs indx).statusIov] [status.toByte]
    mem = written
  obtain ⟨mem', len⟩ := written
  dsimp only at fits ⊢
  generalize s.reqs indx = req at fits ⊢
  obtain ⟨mem'', placed⟩ := place_eq (s := {
    s.setReq indx { req with readIov := none, type := none, data := none } with
    mem := mem'
    copies := s.copies ++ [⟨count, req.chain⟩] }) ring req.head req.len
  exact ⟨mem'', count, fits, placed⟩

/-! ## The balance -/

def queueOf (req : Req R) : Option R := req.bdev.bind Bdev.rq

/-- A request in flight is one of `reqs`, under its own head, and asks for no more data than the
guest left room for. -/
structure InFlight (req : Req R) (indx : Nat) : Prop where
  queue : (queueOf req).isSome
  inside : indx < queueSize
  head : req.head = indx
  fits : req.type = some .read → req.len ≤ writableLen req.chain

/-- A request is with one queue of the block layer, once, while it belongs to a device. -/
structure SlotOk (s : Blk R) (indx : Nat) : Prop where
  held : ∀ q, (s.rqs q).held.count (.slot indx) = if queueOf (s.reqs indx) = some q then 1 else 0
  listed : ∀ q, .slot indx ∈ (s.rqs q).backlog ↔ (s.reqs indx).listed = some q
  inFlight : (s.reqs indx).bdev.isSome → InFlight (s.reqs indx) indx

/-- Each popped head is on the used ring or in flight, up to the one that is `owed`. -/
structure Balanced (s : Blk R) (owed : Option Nat) : Prop where
  slots : ∀ indx, SlotOk s indx
  heads : ∀ head, s.popped.count head = (s.used.map Prod.fst).count head +
    (if (s.reqs head).bdev.isSome then 1 else 0) + (if owed = some head then 1 else 0)
  copies : ∀ copy ∈ s.copies, copy.count ≤ writableLen copy.chain
  short : ∀ q, (s.rqs q).backlog.length ≤ u32Max

attribute [local simp] Blk.setReq RequestQueue.held count_append

section Balance

variable {indx : Nat} {q : R} {owed : Option Nat}

theorem SlotOk.not_held (ok : SlotOk s indx) (idle : (s.reqs indx).bdev = none) (q : R) :
    .slot indx ∉ (s.rqs q).held := by
  rw [← count_eq_zero, ok.held, queueOf, idle]
  rfl

theorem SlotOk.not_listed (ok : SlotOk s indx) (idle : (s.reqs indx).bdev = none) :
    (s.reqs indx).listed = none := by
  cases isListed : (s.reqs indx).listed with
  | none => rfl
  | some q =>
    have inBacklog := (ok.listed q).mpr isListed
    exact absurd (mem_append_right _ inBacklog) (ok.not_held idle q)

theorem SlotOk.mem_held (ok : SlotOk s indx) (isHeld : .slot indx ∈ (s.rqs q).held) :
    queueOf (s.reqs indx) = some q := by
  by_contra elsewhere
  have count := ok.held q
  rw [if_neg elsewhere] at count
  exact count_eq_zero.mp count isHeld

def Agree (rq rq' : RequestQueue) (indx : Nat) : Prop :=
  rq.held.count (.slot indx) = rq'.held.count (.slot indx) ∧
    (.slot indx ∈ rq.backlog ↔ .slot indx ∈ rq'.backlog)

theorem Agree.setRq {rq : RequestQueue} (agree : Agree rq (s.rqs q) indx) (q' : R) :
    Agree ((s.setRq q rq).rqs q') (s.rqs q') indx := by
  simp only [Blk.setRq]
  by_cases here : q' = q
  · subst here
    rw [update_self]
    exact agree
  · rw [update_of_ne here]
    exact ⟨rfl, Iff.rfl⟩

theorem SlotOk.congr {s' : Blk R} (ok : SlotOk s indx) (req : s'.reqs indx = s.reqs indx)
    (agree : ∀ q, Agree (s'.rqs q) (s.rqs q) indx) : SlotOk s' indx where
  held q := by
    rw [(agree q).1, req]
    exact ok.held q
  listed q := by
    rw [(agree q).2, req]
    exact ok.listed q
  inFlight := by
    rw [req]
    exact ok.inFlight

variable {req : Req R}

theorem Balanced.setReq (balanced : Balanced s owed) (idle : (s.reqs indx).bdev = none)
    (stays : req.bdev = none) (links : req.listed = (s.reqs indx).listed) :
    Balanced (s.setReq indx req) owed := by
  refine ⟨?_, ?_, balanced.copies, balanced.short⟩
  · intro i
    by_cases same : i = indx
    · subst same
      obtain ⟨held, listed, inFlight⟩ := balanced.slots i
      refine ⟨?_, ?_, ?_⟩
      · simpa only [Blk.setReq, update_self, queueOf, stays, idle] using held
      · simpa only [Blk.setReq, update_self, links] using listed
      · simp [stays]
    · exact (balanced.slots i).congr (update_of_ne same _ _) fun q => ⟨rfl, Iff.rfl⟩
  · intro head
    have before := balanced.heads head
    by_cases same : head = indx
    · subst same
      simpa only [Blk.setReq, update_self, stays, idle] using before
    · simpa only [Blk.setReq, update_of_ne same] using before

variable {rq : RequestQueue}

theorem Balanced.handOver {owed' : Option Nat} (balanced : Balanced s owed)
    (others : ∀ i, i ≠ indx → Agree rq (s.rqs q) i) (short : rq.backlog.length ≤ u32Max)
    (own : SlotOk ((s.setReq indx req).setRq q rq) indx)
    (heads : ∀ head, (if owed' = some head then 1 else 0) +
        (if ((s.setReq indx req).reqs head).bdev.isSome then 1 else 0) =
      (if owed = some head then 1 else 0) + (if (s.reqs head).bdev.isSome then 1 else 0)) :
    Balanced ((s.setReq indx req).setRq q rq) owed' := by
  refine ⟨?_, ?_, balanced.copies, ?_⟩
  · intro i
    by_cases same : i = indx
    · rw [same]
      exact own
    · exact (balanced.slots i).congr (update_of_ne same _ _) (others i same).setRq
  · intro head
    have before := balanced.heads head
    have exchange := heads head
    change s.popped.count head = (s.used.map Prod.fst).count head +
      (if ((s.setReq indx req).reqs head).bdev.isSome then 1 else 0) +
      (if owed' = some head then 1 else 0)
    omega
  · exact (forall_update_iff s.rqs fun _ rq => rq.backlog.length ≤ u32Max).mpr
      ⟨short, fun q' _ => balanced.short q'⟩

theorem Balanced.release (balanced : Balanced s none) (isHeld : queueOf (s.reqs indx) = some q)
    (stays : req.bdev = none) (unlinked : req.listed = none)
    (others : ∀ i, i ≠ indx → Agree rq (s.rqs q) i) (own : .slot indx ∉ rq.held)
    (short : rq.backlog.length ≤ u32Max) :
    Balanced ((s.setReq indx req).setRq q rq) (some indx) := by
  have busy : (s.reqs indx).bdev.isSome := isSome_of_isSome_bind (isSome_of_eq_some isHeld)
  have notHeld : ∀ q', .slot indx ∉ (update s.rqs q rq q').held := by
    refine (forall_update_iff s.rqs fun _ rq => .slot indx ∉ rq.held).mpr ⟨own, ?_⟩
    intro q' other isHeld'
    exact other (some.inj (((balanced.slots indx).mem_held isHeld').symm.trans isHeld))
  refine balanced.handOver others short ⟨?_, ?_, ?_⟩ ?_
  · intro q'
    simp only [setRq, Blk.setReq, update_self, queueOf, stays]
    exact count_eq_zero.mpr (notHeld q')
  · intro q'
    simp only [setRq, Blk.setReq, update_self, unlinked, reduceCtorEq, iff_false]
    exact fun inBacklog => notHeld q' (mem_append_right _ inBacklog)
  · intro stillBusy
    simp [setRq, stays] at stillBusy
  · intro head
    by_cases same : head = indx
    · subst same
      simp [stays, busy]
    · simp [update_of_ne same, Ne.symm same]

theorem Balanced.acquire (balanced : Balanced s (some indx)) (idle : (s.reqs indx).bdev = none)
    (isQueue : queueOf req = some q) (inFlight : InFlight req indx)
    (others : ∀ i, i ≠ indx → Agree rq (s.rqs q) i) (own : rq.held.count (.slot indx) = 1)
    (links : ∀ q', .slot indx ∈ (update s.rqs q rq q').backlog ↔ req.listed = some q')
    (short : rq.backlog.length ≤ u32Max) : Balanced ((s.setReq indx req).setRq q rq) none := by
  have notHeld := (balanced.slots indx).not_held idle
  refine balanced.handOver others short ⟨?_, ?_, ?_⟩ ?_
  · intro q'
    simp only [setRq, Blk.setReq, update_self, isQueue]
    by_cases here : q' = q
    · subst here
      rw [update_self, own, if_pos rfl]
    · rw [update_of_ne here, count_eq_zero.mpr (notHeld q'),
        if_neg fun same => here (some.inj same).symm]
  · intro q'
    simp only [setRq, Blk.setReq, update_self]
    exact links q'
  · intro _
    simp only [setRq, Blk.setReq, update_self]
    exact inFlight
  · intro head
    by_cases same : head = indx
    · subst same
      have busy : req.bdev.isSome := isSome_of_isSome_bind (isSome_of_eq_some isQueue)
      simp [busy, idle]
    · simp [update_of_ne same, Ne.symm same]

end Balance

/-! ## Requests of the device -/

structure Fresh (env : Env R) (s : Blk R) (indx : Nat) : Prop where
  balanced : Balanced s (some indx)
  ring : RingInRam env s.vq
  inside : indx < queueSize
  idle : (s.reqs indx).bdev = none
  head : (s.reqs indx).head = indx

namespace Fresh

variable {indx : Nat} {q : R}

section

variable (fresh : Fresh env s indx)
include fresh

theorem setReq {req : Req R} (stays : req.bdev = none)
    (links : req.listed = (s.reqs indx).listed) (head : req.head = indx) :
    Fresh env (s.setReq indx req) indx where
  balanced := fresh.balanced.setReq fresh.idle stays links
  ring := fresh.ring
  inside := fresh.inside
  idle := by simpa using stays
  head := by simpa using head

theorem answer {mem : HostMemory} {req : Req R} {len : Nat}
    {copies : List Copy} (stays : req.bdev = none) (links : req.listed = (s.reqs indx).listed)
    (fits : ∀ copy ∈ copies, copy.count ≤ writableLen copy.chain) :
    Balanced
      { s.setReq indx req with
        mem := mem
        used := s.used ++ [(indx, len)]
        copies := s.copies ++ copies } none := by
  have rewritten := fresh.balanced.setReq fresh.idle stays links
  refine ⟨fun i => (rewritten.slots i).congr rfl fun _ => ⟨rfl, Iff.rfl⟩, ?_, ?_, rewritten.short⟩
  · intro head
    have before := rewritten.heads head
    change s.popped.count head = (s.used.map Prod.fst).count head + _ + _ at before
    change s.popped.count head = _
    simp only [some.injEq] at before
    simp only [map_append, map_cons, map_nil, count_append,
      count_singleton, beq_iff_eq, reduceCtorEq, if_false]
    omega
  · exact forall_mem_append.mpr ⟨rewritten.copies, fits⟩

theorem reqDone {status : Status} (fits : ∀ count, CopyFits (s.reqs indx) status count →
      count ≤ writableLen (s.reqs indx).chain) : Balanced (reqDone env s indx status) none := by
  obtain ⟨mem, count, copied, done⟩ := reqDone_eq fresh.ring indx status
  rw [done, fresh.head]
  refine fresh.answer fresh.idle rfl ?_
  intro copy isCopy
  rw [mem_singleton.mp isCopy]
  exact fits count copied

theorem reqDone_ioerr : Balanced (Blk.reqDone env s indx .ioerr) none := by
  refine fresh.reqDone ?_
  rintro count (rfl | ⟨_, _, isOk, _⟩)
  · exact zero_le _
  · cases isOk

end

def Taken (env : Env R) (s : Blk R) (q : R) (accepts : Bool) : Prop :=
  if (s.rqs q).pendingCount < (env.ops q).maxPending then accepts = true
  else (s.rqs q).backlog.length < u32Max

theorem makeRequest (fresh : Fresh env s indx) {bdev : Bdev R} (isQueue : bdev.rq = some q)
    (fits : (s.reqs indx).type = some .read → (s.reqs indx).len ≤ writableLen (s.reqs indx).chain)
    (append : Bool) {accepts : Bool} (taken : Taken env s q accepts) :
    ∃ s', Blk.makeRequest env s bdev q indx append accepts = .ok s' ∧ Balanced s' none := by
  have ok := fresh.balanced.slots indx
  have unlinked := ok.not_listed fresh.idle
  have notHeld := ok.not_held fresh.idle q
  have short := fresh.balanced.short q
  have inFlight :
      ∀ listed, InFlight { s.reqs indx with bdev := some bdev, listed := listed } indx :=
    fun listed => ⟨by simp [queueOf, isQueue], fresh.inside, fresh.head, fits⟩
  have notGiven : List.count (.slot indx) (s.rqs q).given = 0 :=
    count_eq_zero.mpr fun given => notHeld (mem_append_left _ given)
  have notBacklog : .slot indx ∉ (s.rqs q).backlog := fun listed =>
    notHeld (mem_append_right _ listed)
  unfold Blk.makeRequest
  simp only [unlinked, isSome_none, Bool.false_eq_true, if_false]
  unfold Taken at taken
  split
  · next free =>
    rw [if_pos free] at taken
    rw [if_pos taken]
    refine ⟨_, rfl, fresh.balanced.acquire fresh.idle isQueue ?_ ?_ ?_ ?_ short⟩
    · simpa only [unlinked] using inFlight none
    · intro i other
      simp [Agree, Ne.symm other]
    · simp [notGiven, count_eq_zero.mpr notBacklog]
    · simp only [reduceCtorEq, iff_false]
      refine (forall_update_iff s.rqs fun _ rq => .slot indx ∉ rq.backlog).mpr ?_
      refine ⟨notBacklog, fun q' _ listed => ?_⟩
      exact ok.not_held fresh.idle q' (mem_append_right _ listed)
  · next full =>
    rw [if_neg full] at taken
    rw [if_pos taken]
    refine ⟨_, rfl, fresh.balanced.acquire fresh.idle isQueue (inFlight _) ?_ ?_ ?_ ?_⟩
    · intro i other
      cases append <;> simp [Agree, other, Ne.symm other]
    · cases append <;>
        simp [notGiven, count_eq_zero.mpr notBacklog]
    · intro q'
      by_cases here : q' = q
      · subst here
        rw [update_self]
        cases append <;> simp
      · rw [update_of_ne here]
        have elsewhere : .slot indx ∉ (s.rqs q').backlog := fun listed =>
          ok.not_held fresh.idle q' (mem_append_right _ listed)
        simp [elsewhere, Ne.symm here]
    · cases append <;> simp <;> omega

end Fresh

/-! ## Requests of the block layer -/

section Done

variable {indx : Nat} {q : R}

theorem makeForeign_held (maxPending : Nat) (rq : RequestQueue) (append accepts : Bool) (i : Nat) :
    Agree (makeForeign maxPending rq append accepts) rq i := by
  unfold makeForeign Agree
  split_ifs <;> cases append <;> simp

theorem makeForeign_short (maxPending : Nat) {rq : RequestQueue} (append accepts : Bool)
    (short : rq.backlog.length ≤ u32Max) :
    (makeForeign maxPending rq append accepts).backlog.length ≤ u32Max := by
  unfold makeForeign
  split
  · split <;> exact short
  · split
    · next room =>
      cases append <;> simp only [Bool.false_eq_true, if_false, if_true, length_append,
        length_cons, length_nil] <;> omega
    · exact short

theorem Balanced.setRq {owed : Option Nat} (balanced : Balanced s owed) {rq : RequestQueue}
    (same : ∀ i, Agree rq (s.rqs q) i) (short : rq.backlog.length ≤ u32Max) :
    Balanced (s.setRq q rq) owed where
  slots i := (balanced.slots i).congr rfl (same i).setRq
  heads := balanced.heads
  copies := balanced.copies
  short := (forall_update_iff s.rqs fun _ rq => rq.backlog.length ≤ u32Max).mpr
    ⟨short, fun q' _ => balanced.short q'⟩

theorem makeRequest_bdev (env : Env R) (s : Blk R) (bdev : Bdev R) (q : R) (indx : Nat)
    (append accepts : Bool) (req : Req R) (before : Option (Bdev R)) :
    makeRequest env (s.setReq indx { req with bdev := before }) bdev q indx append accepts =
      makeRequest env (s.setReq indx req) bdev q indx append accepts := by
  simp only [makeRequest, Blk.setReq, Blk.setRq, update_self, update_idem]

/-- The driver accepts the request of the device that comes next from the backlog. -/
def NextTaken (env : Env R) (s : Blk R) (q : R) (accepts : Bool) : Prop :=
  ∀ indx backlog, (s.rqs q).backlog = .slot indx :: backlog →
    (s.rqs q).pendingCount - 1 < (env.ops q).maxPending → accepts = true

/-- Between the backlog and the driver the device owes an answer for the request. -/
def unlisted (s : Blk R) (q : R) (indx : Nat) (backlog : List Request) : Blk R :=
  (s.setReq indx { s.reqs indx with bdev := none, listed := none }).setRq q
    ⟨(s.rqs q).pendingCount - 1, backlog, (s.rqs q).given⟩

theorem Balanced.doneRequest (balanced : Balanced s none) (ring : RingInRam env s.vq)
    {accepts : Bool} (taken : NextTaken env s q accepts) :
    ∃ s', doneRequest env s q accepts = .ok s' ∧ Balanced s' none := by
  have short := balanced.short q
  unfold Blk.doneRequest
  dsimp only
  cases isBacklog : (s.rqs q).backlog with
  | nil =>
    refine ⟨_, rfl, balanced.setRq ?_ (by simp)⟩
    simp [Agree, isBacklog]
  | cons request backlog =>
    rw [isBacklog, length_cons] at short
    cases request with
    | foreign =>
      refine ⟨_, rfl, balanced.setRq (fun i => ?_) (makeForeign_short _ _ _ (by dsimp only; omega))⟩
      obtain ⟨count, member⟩ := makeForeign_held (env.ops q).maxPending
        ⟨(s.rqs q).pendingCount - 1, backlog, (s.rqs q).given⟩ false accepts i
      refine ⟨count.trans ?_, member.trans ?_⟩
      · simp [isBacklog]
      · simp [isBacklog]
    | slot indx =>
      dsimp only
      obtain ⟨held, listed, inFlight⟩ := balanced.slots indx
      have inBacklog : .slot indx ∈ (s.rqs q).backlog := by simp [isBacklog]
      have isHeld : queueOf (s.reqs indx) = some q :=
        (balanced.slots indx).mem_held (mem_append_right _ inBacklog)
      obtain ⟨bdev, isBdev, isQueue⟩ := bind_eq_some_iff.mp isHeld
      have flying := inFlight (by rw [isBdev]; rfl)
      have once :
          List.count (.slot indx) (s.rqs q).given + List.count (.slot indx) backlog = 0 := by
        have count := held q
        rw [if_pos isHeld, RequestQueue.held, isBacklog, count_append, count_cons_self]
          at count
        omega
      have fresh : Fresh env (s.unlisted q indx backlog) indx := by
        refine ⟨balanced.release isHeld rfl rfl ?_ ?_ ?_, ring, flying.inside, ?_, ?_⟩
        · intro i other
          simp [Agree, isBacklog, Ne.symm other, other]
        · rw [← count_eq_zero, RequestQueue.held, count_append]
          exact once
        · dsimp only
          omega
        · simp [unlisted, Blk.setRq]
        · simpa [unlisted, Blk.setRq] using flying.head
      have accepted : Fresh.Taken env (s.unlisted q indx backlog) q accepts := by
        unfold Fresh.Taken
        simp only [unlisted, Blk.setRq, update_self]
        split
        · next free => exact taken indx backlog isBacklog free
        · omega
      simp only [isBdev, isQueue]
      obtain ⟨s', made, after⟩ := fresh.makeRequest isQueue
        (by simpa [unlisted, Blk.setRq] using flying.fits) false accepted
      refine ⟨s', ?_, after⟩
      rw [← made]
      exact (makeRequest_bdev env (s.setRq q ⟨(s.rqs q).pendingCount - 1, backlog, (s.rqs q).given⟩)
        bdev q indx false accepts { s.reqs indx with bdev := some bdev, listed := none } none).symm

end Done

end Blk

end Xvisor.Virtio
