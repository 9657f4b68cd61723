import Xvisor.Virtio.Balance
import Xvisor.Virtio.Queue

/-!
# Answered requests

In every run each popped head is on the used ring exactly once or still with the block layer.
-/

namespace Xvisor.Virtio

open Function List Lib Guest Block Option Nat

namespace Blk

attribute [local simp] Blk.setReq Blk.setRq

variable {R : Type} [DecidableEq R] {env : Env R} {s : Blk R}

/-! ## What the block layer takes -/

/-- The disk is detached, or the request lies on it and the cache or the driver takes it. -/
def Submittable (env : Env R) (s : Blk R) (type : RequestType) (lba dataLen : Nat)
    (replies : Replies) : Prop :=
  ∀ bdev, s.blk = some bdev → ∃ q, bdev.rq = some q ∧
    submitOk bdev.toBlockdev type (Word.mul (Word.add lba bdev.startLba) s.blkFactor)
      (Word.toU32 (dataLen / sectorSize * s.blkFactor)) = true ∧
    ((env.ops q).peeks = true ∧ replies.cache ≠ .notAvail ∨
      (env.ops q).makes = true ∧ Fresh.Taken env s q replies.accepts)

namespace Fresh

variable {indx : Nat}

theorem reqDone_read (fresh : Fresh env s indx) {status : Status}
    (fits : (s.reqs indx).type = some .read → (s.reqs indx).len ≤ writableLen (s.reqs indx).chain) :
    Balanced (Blk.reqDone env s indx status) none := by
  refine fresh.reqDone ?_
  rintro count (rfl | ⟨readIov, _, _, isRead, inLen, _⟩)
  · exact zero_le _
  · exact inLen.trans (fits isRead)

theorem vdiskSubmitRequest (fresh : Fresh env s indx) {type : RequestType} {lba dataLen : Nat}
    {replies : Replies} (whole : sectorSize ≤ dataLen)
    (submittable : Submittable env s type lba dataLen replies) (fits : s.blk ≠ none → type = .read →
      (s.reqs indx).len ≤ writableLen (s.reqs indx).chain) :
    ∃ s', Blk.vdiskSubmitRequest env s indx type lba dataLen replies = .ok s' ∧
      Balanced s' none := by
  unfold Blk.vdiskSubmitRequest
  rw [if_neg (by omega)]
  cases isBlk : s.blk with
  | none => exact ⟨_, rfl, fresh.reqDone_ioerr⟩
  | some bdev =>
    obtain ⟨q, isQueue, accepted, taken⟩ := submittable bdev isBlk
    have typed : Fresh env (s.setReq indx { s.reqs indx with type := some type }) indx :=
      fresh.setReq fresh.idle rfl fresh.head
    have room : type = .read → (s.reqs indx).len ≤ writableLen (s.reqs indx).chain :=
      fits (by simp [isBlk])
    simp only [blockdevSubmitRequest, isQueue, accepted, Bool.not_true, Bool.false_eq_true,
      if_false]
    split
    · next peeks =>
      cases isCache : replies.cache with
      | hit data =>
        refine ⟨_, rfl, Fresh.reqDone_read ?_ ?_⟩
        · exact typed.setReq typed.idle rfl typed.head
        · simpa using room
      | error => exact ⟨_, rfl, typed.reqDone_ioerr⟩
      | notAvail =>
        obtain ⟨makes, isTaken⟩ := taken.resolve_left fun hit => hit.2 isCache
        dsimp only
        rw [if_pos makes]
        exact typed.makeRequest isQueue (by simpa using room) true isTaken
    · next noPeek =>
      obtain ⟨makes, isTaken⟩ := taken.resolve_left fun hit => noPeek hit.1
      rw [if_pos makes]
      exact typed.makeRequest isQueue (by simpa using room) true isTaken

end Fresh

/-! ## What the device serves -/

/-- The device answers a chain of a known type. Data of at least a sector goes to the block layer
when there is memory for it, and what comes back has room in the chain. -/
def Servable (env : Env R) (s : Blk R) (mem : HostMemory) (chain : List IoVec)
    (replies : Replies) : Prop :=
  let len := Word.toU32 (totalLen (dataDescs chain))
  match header env mem chain with
  | none => True
  | some (0, sector) => len = 0 ∨ replies.heap = none ∨ replies.iovHeap = false ∨
    sectorSize ≤ len ∧ (s.blk ≠ none → len ≤ writableLen chain) ∧
      Submittable env s .read sector len replies
  | some (1, sector) => len = 0 ∨ replies.heap = none ∨
    sectorSize ≤ len ∧ Submittable env s .write sector len replies
  | some (4, _) => True
  | some (8, _) => replies.heap = none ∨ replies.iovHeap = false ∨
    ∃ iov, chain[1]? = some iov ∧ (s.blk ≠ none → min idBytes iov.len ≤ writableLen chain)
  | some _ => False

def availEventMem (env : Env R) (s : Blk R) : HostMemory :=
  (guestWrite env.aspace env.fuel s.mem
    (Word.add s.vq.vring.usedPa (usedRing s.vq.vring.num))
    (toBytes 2 ((s.vq.lastAvailIdx + 1) % 2 ^ 16))).1

/-- The next head is one of `reqs` that is not in flight, and its chain fits in `iov` and is
served. -/
def RoundOk (env : Env R) (s : Blk R) (replies : Replies) : Prop :=
  let read := guestRead env.aspace env.fuel s.mem
  let (vq, head) := s.vq.pop read
  head < queueSize ∧ (s.reqs head).bdev = none ∧
    ∃ outcome, vq.getHeadIovec read queueSize head = some outcome ∧ outcome.rc = .ok ∧
      Servable env s (availEventMem env s) outcome.walk.iov replies

def EventOk (env : Env R) (s : Blk R) : Event R → Prop
  | .round replies => RingInRam env s.vq ∧ RoundOk env s replies
  | .driverDone q _ _ _ accepts => RingInRam env s.vq ∧ NextTaken env s q accepts
  | _ => True

namespace Fresh

variable {indx : Nat}

variable {replies : Replies}

section

variable (fresh : Fresh env s indx)
include fresh

theorem serveIn {sector : Nat}
    (servable : (s.reqs indx).len = 0 ∨ replies.heap = none ∨ replies.iovHeap = false ∨
      sectorSize ≤ (s.reqs indx).len ∧
        (s.blk ≠ none → (s.reqs indx).len ≤ writableLen (s.reqs indx).chain) ∧
        Submittable env s .read sector (s.reqs indx).len replies) :
    ∃ s', Blk.serveIn env s indx sector replies = .ok s' ∧ Balanced s' none := by
  unfold Blk.serveIn
  dsimp only
  split
  · exact ⟨_, rfl, Fresh.reqDone_ioerr (fresh.setReq fresh.idle rfl fresh.head)⟩
  · next data isData =>
    split
    · exact ⟨_, rfl, Fresh.reqDone_ioerr (fresh.setReq fresh.idle rfl fresh.head)⟩
    · next isIov =>
      have nonempty : (s.reqs indx).len ≠ 0 := by
        intro empty
        simp [empty] at isData
      rw [if_neg nonempty] at isData
      rcases servable with empty | noHeap | noIov | ⟨whole, room, submittable⟩
      · exact absurd empty nonempty
      · simp [noHeap] at isData
      · simp [noIov] at isIov
      · refine Fresh.vdiskSubmitRequest ?_ whole submittable ?_
        · exact fresh.setReq fresh.idle rfl fresh.head
        · intro attached _
          simpa using room attached

theorem serveOut {sector : Nat} (servable : (s.reqs indx).len = 0 ∨ replies.heap = none ∨
      sectorSize ≤ (s.reqs indx).len ∧ Submittable env s .write sector (s.reqs indx).len replies) :
    ∃ s', Blk.serveOut env s indx sector replies = .ok s' ∧ Balanced s' none := by
  unfold Blk.serveOut
  dsimp only
  split
  · exact ⟨_, rfl, Fresh.reqDone_ioerr (fresh.setReq fresh.idle rfl fresh.head)⟩
  · next data isData =>
    have nonempty : (s.reqs indx).len ≠ 0 := by
      intro empty
      simp [empty] at isData
    rw [if_neg nonempty] at isData
    rcases servable with empty | noHeap | ⟨whole, submittable⟩
    · exact absurd empty nonempty
    · simp [noHeap] at isData
    · refine Fresh.vdiskSubmitRequest ?_ whole submittable ?_
      · exact fresh.setReq fresh.idle rfl fresh.head
      · intro _ isRead
        cases isRead

theorem serveFlush (replies : Replies) : Balanced (Blk.serveFlush env s indx replies) none := by
  unfold Blk.serveFlush
  refine Fresh.reqDone_read ?_ ?_
  · exact fresh.setReq fresh.idle rfl fresh.head
  · simp

theorem serveGetId (servable : replies.heap = none ∨ replies.iovHeap = false ∨
      ∃ iov, (s.reqs indx).chain[1]? = some iov ∧
        (s.blk ≠ none → min idBytes iov.len ≤ writableLen (s.reqs indx).chain)) :
    ∃ s', Blk.serveGetId env s indx replies = .ok s' ∧ Balanced s' none := by
  unfold Blk.serveGetId
  dsimp only
  cases isHeap : replies.heap with
  | none => exact ⟨_, rfl, Fresh.reqDone_ioerr (fresh.setReq fresh.idle rfl fresh.head)⟩
  | some data =>
    dsimp only
    split
    · exact ⟨_, rfl, Fresh.reqDone_ioerr (fresh.setReq fresh.idle rfl fresh.head)⟩
    · next isIov =>
      rcases servable with noHeap | noIov | ⟨iov, isSecond, room⟩
      · simp [noHeap] at isHeap
      · simp [noIov] at isIov
      · simp only [isSecond]
        cases isBlk : s.blk with
        | none => exact ⟨_, rfl, Fresh.reqDone_ioerr (fresh.setReq fresh.idle rfl fresh.head)⟩
        | some bdev =>
          refine ⟨_, rfl, Fresh.reqDone ?_ ?_⟩
          · exact fresh.setReq fresh.idle rfl fresh.head
          -- The name is copied to one descriptor, as far as there is room in it.
          rintro count (rfl | ⟨readIov, isReadIov, _, _, inLen, inIov⟩)
          · exact zero_le _
          · have small := room (by simp [isBlk])
            simp only [Blk.setReq, update_self, some.injEq] at isReadIov inLen ⊢
            subst isReadIov
            simp only [totalLen, map_cons, map_nil, sum_cons, sum_nil] at inIov
            omega

theorem serve (isLen : (s.reqs indx).len = Word.toU32 (totalLen (dataDescs (s.reqs indx).chain)))
    (servable : Servable env s s.mem (s.reqs indx).chain replies) :
    ∃ s', Blk.serve env s indx replies = .ok s' ∧ Balanced s' none := by
  unfold Servable at servable
  rw [← isLen] at servable
  split at servable
  · next short =>
    rw [Blk.serve, short]
    obtain ⟨mem, placed⟩ := place_eq fresh.ring (s.reqs indx).head 0
    refine ⟨_, rfl, ?_⟩
    rw [placed, fresh.head]
    have answered : Balanced { s.setReq indx (s.reqs indx) with
        mem := mem, used := s.used ++ [(indx, 0)], copies := s.copies ++ [] } none :=
      fresh.answer fresh.idle rfl fun copy none => by cases none
    simpa using answered
  · next sector isHeader =>
    rw [Blk.serve, isHeader]
    exact fresh.serveIn servable
  · next sector isHeader =>
    rw [Blk.serve, isHeader]
    exact fresh.serveOut servable
  · next sector isHeader =>
    rw [Blk.serve, isHeader]
    exact ⟨_, rfl, fresh.serveFlush replies⟩
  · next sector isHeader =>
    rw [Blk.serve, isHeader]
    exact fresh.serveGetId servable
  · exact servable.elim

end

end Fresh

/-! ## Rounds -/

theorem Balanced.pop (balanced : Balanced s none) (vq : Queue) (mem : HostMemory) (head : Nat) :
    Balanced { s with vq := vq, mem := mem, popped := s.popped ++ [head] } (some head) := by
  refine ⟨fun i => (balanced.slots i).congr rfl fun _ => ⟨rfl, Iff.rfl⟩, ?_, balanced.copies, balanced.short⟩
  intro i
  have before := balanced.heads i
  simp only [reduceCtorEq, if_false, add_zero] at before
  simp only [count_append, count_singleton, beq_iff_eq, some.injEq, before]

theorem Balanced.receive (balanced : Balanced s none) {vq : Queue} (ring : RingInRam env vq)
    {head : Nat} (inside : head < queueSize) (idle : (s.reqs head).bdev = none) (mem : HostMemory)
    (chain : List IoVec) (status : IoVec) :
    Fresh env (({ s with mem := mem, vq := vq, popped := s.popped ++ [head] } : Blk R).setReq head
      (newReq (s.reqs head) head chain status)) head where
  balanced := (balanced.pop vq mem head).setReq idle idle rfl
  ring := ring
  inside := inside
  idle := by simpa [newReq] using idle
  head := by simp [newReq]

theorem Balanced.doIoRound (balanced : Balanced s none) (ring : RingInRam env s.vq)
    {replies : Replies} (roundOk : RoundOk env s replies) :
    ∃ s', doIoRound env s replies = .ok s' ∧ Balanced s' none := by
  unfold RoundOk at roundOk
  unfold Blk.doIoRound
  have isPopped := Queue.pop_ready ring.ready (guestRead env.aspace env.fuel s.mem)
  dsimp only at roundOk ⊢
  generalize s.vq.pop (guestRead env.aspace env.fuel s.mem) = result at isPopped roundOk ⊢
  obtain ⟨vq, head⟩ := result
  dsimp only at isPopped roundOk ⊢
  obtain ⟨inside, idle, outcome, walked, ok, servable⟩ := roundOk
  have popped : RingInRam env vq := by
    rw [isPopped]
    exact ⟨ring.ready, ring.idx, ring.elem⟩
  obtain ⟨isHead, nonempty, isEvent⟩ := Queue.getHeadIovec_ok popped.ready walked ok
  obtain ⟨status, isStatus⟩ : ∃ status, outcome.walk.iov.getLast? = some status :=
    ⟨_, List.getLast?_eq_getLast_of_ne_nil nonempty⟩
  rw [walked]
  dsimp only
  rw [if_neg (by simp [ok]), if_neg (by omega), isEvent, isStatus, isHead]
  have isMem : availEventMem env s = (guestWrite env.aspace env.fuel s.mem
      (Word.add vq.vring.usedPa (usedRing vq.vring.num)) (toBytes 2 vq.lastAvailIdx)).1 := by
    rw [isPopped]
    rfl
  dsimp only
  rw [← isMem]
  have fresh := balanced.receive popped inside idle (availEventMem env s) outcome.walk.iov status
  refine fresh.serve ?_ ?_
  · simp [newReq]
  · have isChain : ((({ s with
        mem := availEventMem env s, vq := vq, popped := s.popped ++ [head] } : Blk R).setReq head
        (newReq (s.reqs head) head outcome.walk.iov status)).reqs head).chain =
        outcome.walk.iov := by
      simp [newReq]
    rw [isChain]
    exact servable

/-! ## The end of a request -/

variable {accepts : Bool}

omit [DecidableEq R] in
theorem NextTaken.of_same {s' : Blk R} {q : R} (taken : NextTaken env s q accepts)
    (backlog : (s'.rqs q).backlog = (s.rqs q).backlog)
    (pending : (s'.rqs q).pendingCount = (s.rqs q).pendingCount) : NextTaken env s' q accepts := by
  intro indx rest isBacklog
  rw [pending]
  exact taken indx rest (backlog.symm.trans isBacklog)

/-- The driver has given the request back, which belongs to no device any more. -/
def givenBack (s : Blk R) (q : R) (indx : Nat) (filled : Option Buffer) : Blk R :=
  (s.setReq indx { s.reqs indx with data := filled, bdev := none }).setRq q
    { s.rqs q with given := (s.rqs q).given.erase (.slot indx) }

theorem Balanced.endRequest (balanced : Balanced s none) (ring : RingInRam env s.vq) {q : R}
    {indx : Nat} (isGiven : .slot indx ∈ (s.rqs q).given) (filled : Option Buffer) (status : Status)
    (taken : NextTaken env s q accepts) :
    ∃ s', endRequest env ((s.setRq q { s.rqs q with
        given := (s.rqs q).given.erase (.slot indx) }).setReq indx
        { s.reqs indx with data := filled }) indx status accepts = .ok s' ∧ Balanced s' none := by
  have short := balanced.short q
  obtain ⟨held, listed, inFlight⟩ := balanced.slots indx
  have isHeld : queueOf (s.reqs indx) = some q :=
    (balanced.slots indx).mem_held (mem_append_left _ isGiven)
  obtain ⟨bdev, isBdev, isQueue⟩ := bind_eq_some_iff.mp isHeld
  have flying := inFlight (by rw [isBdev]; rfl)
  have counts : List.count (.slot indx) (s.rqs q).given = 1 ∧
      List.count (.slot indx) (s.rqs q).backlog = 0 := by
    have count := held q
    rw [if_pos isHeld, RequestQueue.held, count_append] at count
    have := count_pos_iff.mpr isGiven
    omega
  have unlinked : (s.reqs indx).listed = none := by
    cases isListed : (s.reqs indx).listed with
    | none => rfl
    | some q' =>
      have inBacklog := (listed q').mpr isListed
      have here := (balanced.slots indx).mem_held (mem_append_right _ inBacklog)
      obtain rfl : q = q' := some.inj (isHeld.symm.trans here)
      exact absurd inBacklog (count_eq_zero.mp counts.2)
  have fresh : Fresh env (s.givenBack q indx filled) indx := by
    refine ⟨balanced.release isHeld rfl unlinked ?_ ?_ short, ring, flying.inside, ?_, ?_⟩
    · intro i other
      have different : Request.slot i ≠ .slot indx := by simpa using other
      simp [Agree, RequestQueue.held, count_append, count_erase_of_ne different]
    · rw [← count_eq_zero, RequestQueue.held, count_append, count_erase_self]
      dsimp only
      omega
    · simp [givenBack]
    · simpa [givenBack] using flying.head
  have answered : Balanced (Blk.reqDone env (s.givenBack q indx filled) indx status) none :=
    fresh.reqDone_read (by simpa [givenBack] using flying.fits)
  obtain ⟨mem, count, -, done⟩ := reqDone_eq fresh.ring indx status
  have sameNext :
      NextTaken env (Blk.reqDone env (s.givenBack q indx filled) indx status) q accepts := by
    rw [done]
    apply taken.of_same <;> simp [givenBack]
  have next := answered.doneRequest (by rw [done]; exact ring) sameNext
  simpa only [Blk.endRequest, givenBack, Blk.setReq, Blk.setRq, update_self,
    update_idem, isBdev, bind_some, isQueue] using next

theorem Balanced.driverDone (balanced : Balanced s none) (ring : RingInRam env s.vq) {q : R}
    {request : Request} (isGiven : request ∈ (s.rqs q).given) (status : Status) (data : Buffer)
    (taken : NextTaken env s q accepts) :
    ∃ s', driverDone env s q request status data accepts = .ok s' ∧ Balanced s' none := by
  have short := balanced.short q
  unfold Blk.driverDone
  dsimp only
  cases request with
  | foreign =>
    dsimp only
    refine Balanced.doneRequest (balanced.setRq ?_ ?_) ring (taken.of_same ?_ ?_)
    · intro i
      simp [Agree, RequestQueue.held, count_append, count_erase_of_ne]
    · exact short
    · simp
    · simp
  | slot indx => exact balanced.endRequest ring isGiven _ status taken

/-! ## Runs -/

/-- The requests are zero, the block layer has none of them and nothing has been done. -/
structure Start (s : Blk R) : Prop where
  reqs : ∀ indx, (s.reqs indx).bdev = none ∧ (s.reqs indx).listed = none
  rqs : ∀ q indx, .slot indx ∉ (s.rqs q).held
  short : ∀ q, (s.rqs q).backlog.length ≤ u32Max
  nothing : s.popped = [] ∧ s.used = [] ∧ s.copies = []

theorem Start.balanced (start : Start s) : Balanced s none := by
  obtain ⟨popped, used, copies⟩ := start.nothing
  refine ⟨?_, ?_, ?_, start.short⟩
  · intro indx
    obtain ⟨idle, unlinked⟩ := start.reqs indx
    refine ⟨?_, ?_, ?_⟩
    · intro q
      simp [count_eq_zero.mpr (start.rqs q indx), queueOf, idle]
    · intro q
      simp only [unlinked, reduceCtorEq, iff_false]
      exact fun listed => start.rqs q indx (mem_append_right _ listed)
    · simp [idle]
  · simp [popped, used, start.reqs]
  · simp [copies]

/-- A run ends with an access outside the arrays or a broken request. -/
def blkSystem (env : Env R) : System (Except Fault (Blk R)) (Event R) where
  init machine := ∃ s, machine = .ok s ∧ Start s
  step machine event machine' :=
    ∃ s, machine = .ok s ∧ Enabled env s event ∧ next env s event = machine'

def Lossless (env : Env R) (machine : Except Fault (Blk R)) (event : Event R) : Prop :=
  ∀ s, machine = .ok s → EventOk env s event

def inFlightHeads (s : Blk R) : List Nat :=
  ((List.range queueSize).filter fun indx => (s.reqs indx).bdev.isSome).map fun indx =>
    (s.reqs indx).head

/-- Each popped head is on the used ring or in flight, a request in flight is with one queue of the
block layer, once, and no more data was copied than the guest left room for. -/
structure Answered (s : Blk R) : Prop where
  once : ∀ head, s.popped.count head = (s.used.map Prod.fst).count head + s.inFlightHeads.count head
  held : ∀ indx < queueSize, ∀ bdev, (s.reqs indx).bdev = some bdev →
    ∃ q, bdev.rq = some q ∧ (s.rqs q).held.count (.slot indx) = 1
  copies : ∀ copy ∈ s.copies, copy.count ≤ writableLen copy.chain

theorem Balanced.count_inFlightHeads {owed : Option Nat} (balanced : Balanced s owed) (head : Nat) :
    s.inFlightHeads.count head = if (s.reqs head).bdev.isSome then 1 else 0 := by
  have own : s.inFlightHeads =
      (List.range queueSize).filter fun indx => (s.reqs indx).bdev.isSome := by
    unfold inFlightHeads
    conv_rhs => rw [← map_id (List.filter _ _)]
    refine map_congr_left fun indx busy => ?_
    exact ((balanced.slots indx).inFlight (mem_filter.mp busy).2).head
  rw [own, (nodup_range.filter _).count]
  congr 1
  simp only [mem_filter, mem_range, eq_iff_iff, and_iff_right_iff_imp]
  exact fun busy => ((balanced.slots head).inFlight busy).inside

theorem Balanced.answered (balanced : Balanced s none) : Answered s := by
  refine ⟨?_, ?_, balanced.copies⟩
  · intro head
    rw [balanced.count_inFlightHeads]
    simpa using balanced.heads head
  · intro indx _ bdev isBdev
    have flying := (balanced.slots indx).inFlight (by rw [isBdev]; rfl)
    obtain ⟨q, isQueue⟩ := isSome_iff_exists.mp flying.queue
    have held := (balanced.slots indx).held q
    rw [if_pos isQueue] at held
    refine ⟨q, ?_, held⟩
    simpa [queueOf, isBdev] using isQueue

theorem Balanced.next (balanced : Balanced s none) {event : Event R} (enabled : Enabled env s event)
    (eventOk : EventOk env s event) : ∃ s', next env s event = .ok s' ∧ Balanced s' none := by
  cases event with
  | round replies => exact balanced.doIoRound eventOk.1 eventOk.2
  | driverDone q request status data accepts =>
    exact balanced.driverDone eventOk.1 enabled status data eventOk.2
  | foreign q accepts =>
    exact ⟨_, rfl, balanced.setRq (makeForeign_held _ _ _ _)
      (makeForeign_short _ _ _ (balanced.short q))⟩
  | attach bdev =>
    refine ⟨_, rfl, ?_⟩
    unfold Blk.attach
    split
    · exact ⟨fun i => (balanced.slots i).congr rfl fun _ => ⟨rfl, Iff.rfl⟩, balanced.heads, balanced.copies,
        balanced.short⟩
    · exact balanced
  | detach | guest =>
    exact ⟨_, rfl, fun i => (balanced.slots i).congr rfl fun _ => ⟨rfl, Iff.rfl⟩, balanced.heads, balanced.copies,
      balanced.short⟩

/-- In every run that loses no request the device stays inside its arrays and every popped head is
answered exactly once, now or when the block layer is done with it. -/
theorem virtioBlk_answers_once (env : Env R) (machine : Except Fault (Blk R))
    (reached : ((blkSystem env).restrict (Lossless env)).Reachable machine) :
    ∃ s, machine = .ok s ∧ Answered s := by
  have invariant : ∃ s, machine = .ok s ∧ Balanced s none := by
    apply reached.invariant fun machine => ∃ s, machine = .ok s ∧ Balanced s none
    · rintro _ ⟨s, rfl, start⟩
      exact ⟨s, rfl, start.balanced⟩
    · rintro _ event machine' ⟨s, rfl, balanced⟩ ⟨lossless, _, isOk, enabled, rfl⟩
      cases isOk
      exact balanced.next enabled (lossless s rfl)
  obtain ⟨s, isOk, balanced⟩ := invariant
  exact ⟨s, isOk, balanced.answered⟩

/-! ## A disk of eight sectors -/

def diskEnv : Env Unit := ⟨aliasedGuest, 1, fun _ => ⟨1, false, true⟩⟩

def disk : Bdev Unit := ⟨⟨true, 0, 8, 512, Block.Blockdev.sectorSize_pos, by decide⟩, some (), [0x64]⟩

variable (sector : UInt8)

/-- The bytes of the RAM that are not zero: a read of one sector is available. Its header is at
0x2800, its data goes to 0x2900 and its status to 0x2C00. -/
def readRequest : List (Nat × UInt8) :=
  [(0x90001001, 0x28), (0x90001008, 16), (0x9000100C, 1), (0x9000100E, 1),
    (0x90001011, 0x29), (0x90001019, 2), (0x9000101C, 3), (0x9000101E, 2),
    (0x90001021, 0x2C), (0x90001028, 1), (0x9000102C, 2), (0x90001802, 1), (0x90002808, sector)]

def oneRead : Blk Unit where
  mem pa := ((readRequest sector).lookup pa).getD 0
  vq := blkQueue
  reqs _ := ⟨0, none, 0, ⟨0, 0, 0⟩, none, none, none, none, []⟩
  blk := some disk
  blkFactor := 1
  rqs _ := ⟨0, [], []⟩
  popped := []
  used := []
  copies := []

theorem oneRead_start : Start (oneRead sector) where
  reqs _ := ⟨rfl, rfl⟩
  rqs _ _ := not_mem_nil
  short _ := zero_le _
  nothing := ⟨rfl, rfl, rfl⟩

theorem reaches_of_map {aspace : Aspace} {fuel pa len : Nat}
    (whole : (aspace.accesses fuel len pa len).map List.length = some len) :
    Reaches aspace fuel pa len :=
  map_eq_some_iff.mp whole

theorem blkQueue_inRam : RingInRam diskEnv blkQueue where
  ready := rfl
  idx := reaches_of_map (by decide)
  elem i := by
    have all : ∀ k < 128, (aliasedGuest.accesses 1 8 (Word.add 0x2000 (usedRing k)) 8).map
        List.length = some 8 := by
      decide +kernel
    exact reaches_of_map (all (i % 128) (mod_lt i (by decide)))

def accepted : Replies := ⟨some fun _ => 0, true, .notAvail, true, true⟩

def readChain : List IoVec := [⟨0x2800, 16, 0⟩, ⟨0x2900, 512, 1⟩, ⟨0x2C00, 1, 1⟩]

omit [DecidableEq R] in
theorem ok_of_toOption {result : Except Fault (Blk R)} (isSome : result.toOption = some s) :
    result = .ok s := by
  cases result with
  | error fault => cases isSome
  | ok s' =>
    cases isSome
    rfl

def poppedQueue : Queue := ⟨true, 1, ⟨128, 0x1000, 0x1800, 0x2000⟩, 128⟩

theorem poppedQueue_inRam : RingInRam diskEnv poppedQueue :=
  ⟨rfl, blkQueue_inRam.idx, blkQueue_inRam.elem⟩

theorem oneRead_roundOk : RoundOk diskEnv (oneRead 0) accepted := by
  refine ⟨by decide +kernel, rfl, ⟨.ok, ⟨readChain, 529, [0, 1, 2]⟩, 3, 529, 0, some (0x2404, 1)⟩,
    by decide +kernel, rfl, ?_⟩
  have isHeader : header diskEnv (availEventMem diskEnv (oneRead 0)) readChain = some (0, 0) := by
    decide +kernel
  unfold Servable
  rw [isHeader]
  refine .inr (.inr (.inr ⟨by decide, fun _ => by decide, ?_⟩))
  intro bdev isBlk
  cases isBlk
  exact ⟨(), rfl, by decide, .inr ⟨rfl, rfl⟩⟩

/-- The sector is read by the driver and copied to the guest. -/
theorem virtioBlk_answers_read : ∃ s, s.popped = [0] ∧ s.used = [(0, 512)] ∧
    s.copies.map Copy.count = [512] ∧ Answered (s : Blk Unit) := by
  have computed : ((doIoRound diskEnv (oneRead 0) accepted).toOption.bind fun s =>
      (driverDone diskEnv s () (.slot 0) .ok (fun _ => 7) true).toOption.map fun s' =>
        decide (s.vq = poppedQueue ∧ (s.rqs ()).given = [.slot 0] ∧ (s.rqs ()).backlog = [] ∧
          s'.popped = [0] ∧ s'.used = [(0, 512)] ∧ s'.copies.map Copy.count = [512])) =
      some true := by
    decide +kernel
  obtain ⟨s, first, rest⟩ := bind_eq_some_iff.mp computed
  obtain ⟨s', second, values⟩ := map_eq_some_iff.mp rest
  obtain ⟨vq, given, backlog, popped, used, copies⟩ := of_decide_eq_true values
  have ring : RingInRam diskEnv s.vq := by
    rw [vq]
    exact poppedQueue_inRam
  have round : ((blkSystem diskEnv).restrict (Lossless diskEnv)).Reachable (.ok s) := by
    refine System.Reachable.step (.start ⟨oneRead 0, rfl, oneRead_start 0⟩) (.round accepted)
      ⟨?_, ?_⟩
    · intro _ isOk
      cases isOk
      exact ⟨blkQueue_inRam, oneRead_roundOk⟩
    · exact ⟨oneRead 0, rfl, show Queue.available _ _ = true by decide +kernel,
        ok_of_toOption first⟩
  have reached : ((blkSystem diskEnv).restrict (Lossless diskEnv)).Reachable (.ok s') := by
    refine round.step (.driverDone () (.slot 0) .ok (fun _ => 7) true) ⟨?_, ?_⟩
    · intro _ isOk
      cases isOk
      refine ⟨ring, ?_⟩
      intro indx rest isBacklog
      rw [backlog] at isBacklog
      cases isBacklog
    · exact ⟨s, rfl, by simp [Enabled, given], ok_of_toOption second⟩
  obtain ⟨_, isOk, answered⟩ := virtioBlk_answers_once diskEnv (.ok s') reached
  cases isOk
  exact ⟨s', popped, used, copies, answered⟩

/-- A read beyond the end of the disk: the block layer refuses the request without failing it, and
the head is never answered. -/
theorem virtioBlk_loses_read : ∃ s, (blkSystem diskEnv).Reachable (.ok s) ∧
    RingInRam diskEnv s.vq ∧ s.popped = [0] ∧ s.used = [] ∧ s.inFlightHeads = [] ∧
    (s.rqs ()).held = [] := by
  have computed : (doIoRound diskEnv (oneRead 8) accepted).toOption.map (fun s =>
      decide (s.vq = poppedQueue ∧ s.popped = [0] ∧ s.used = [] ∧ s.inFlightHeads = [] ∧
        (s.rqs ()).held = [])) = some true := by
    decide +kernel
  obtain ⟨s, ran, values⟩ := map_eq_some_iff.mp computed
  obtain ⟨vq, popped, used, inFlight, held⟩ := of_decide_eq_true values
  refine ⟨s, ?_, ?_, popped, used, inFlight, held⟩
  · exact System.Reachable.step (.start ⟨oneRead 8, rfl, oneRead_start 8⟩) (.round accepted)
      ⟨oneRead 8, rfl, show Queue.available _ _ = true by decide +kernel, ok_of_toOption ran⟩
  · rw [vq]
    exact ⟨rfl, blkQueue_inRam.idx, blkQueue_inRam.elem⟩

end Blk

end Xvisor.Virtio
