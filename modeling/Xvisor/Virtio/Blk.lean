import Xvisor.Block.Blockdev
import Xvisor.Guest.Memory
import Xvisor.Virtio.Queue

/-!
# The VirtIO block device

`virtio_blk_do_io` pops the heads that the guest made available and turns their
chains into requests. A request is answered at once, or by a callback of the
block layer, where it waits with the driver or in a backlog.
-/

namespace Xvisor.Virtio

open Function Lib Guest Block

/-! ## Guest memory -/

def guestWrite (aspace : Aspace) (fuel : Nat) (mem : HostMemory) (pa : Nat) (src : List UInt8) :
    HostMemory × Nat :=
  (aspace.vmmGuestMemoryWrite fuel mem pa src).getD (mem, 0)

def toBytes : Nat → Nat → List UInt8
  | 0, _ => []
  | len + 1, value => UInt8.ofNat value :: toBytes len (value / 256)

def iovecToBufRead (read : GuestRead) : List IoVec → Nat → List UInt8
  | [], _ => []
  | iov :: rest, remaining =>
    if remaining = 0 then []
    else
      let bytes := read iov.addr (if remaining < iov.len then remaining else iov.len)
      if bytes.length = 0 then [] else bytes ++ iovecToBufRead read rest (remaining - bytes.length)

def bufToIovecWrite (aspace : Aspace) (fuel : Nat) :
    List IoVec → List UInt8 → HostMemory → HostMemory × Nat
  | [], _, mem => (mem, 0)
  | iov :: rest, buf, mem =>
    if buf.length = 0 then (mem, 0)
    else
      let len := if buf.length < iov.len then buf.length else iov.len
      let (mem, len) := guestWrite aspace fuel mem iov.addr (buf.take len)
      if len = 0 then (mem, 0)
      else
        let (mem, pos) := bufToIovecWrite aspace fuel rest (buf.drop len) mem
        (mem, len + pos)

namespace Queue

def available (vq : Queue) (read : GuestRead) : Bool :=
  if !vq.ready then false
  else
    let bytes := read (Word.add vq.vring.availPa 2) 2
    if bytes.length ≠ 2 then false else ofBytes bytes != vq.lastAvailIdx

/-- `vmm_virtio_queue_set_used_elem`; the result says whether the element was placed. An index
that cannot be read is not initialised in the source, and counts as 0 here. -/
def setUsedElem (vq : Queue) (aspace : Aspace) (fuel : Nat) (head len : Nat) (mem : HostMemory) :
    HostMemory × Bool :=
  if !vq.ready then (mem, false)
  else
    let usedIdxPa := Word.add vq.vring.usedPa 2
    let bytes := guestRead aspace fuel mem usedIdxPa 2
    let usedIdx := if bytes.length ≠ 2 then 0 else ofBytes bytes
    let usedElemPa := Word.add vq.vring.usedPa (usedRing (usedIdx % vq.vring.num))
    let (mem, elemLen) := guestWrite aspace fuel mem usedElemPa (toBytes 4 head ++ toBytes 4 len)
    let (mem, idxLen) := guestWrite aspace fuel mem usedIdxPa (toBytes 2 (usedIdx + 1))
    (mem, elemLen == 8 && idxLen == 2)

end Queue

/-! ## State -/

/-- `VIRTIO_BLK_QUEUE_SIZE`: the elements of `reqs` and of `iov`. -/
def queueSize : Nat := 128

/-- `VIRTIO_BLK_SECTOR_SIZE`: the block size of the virtual disk. -/
def sectorSize : Nat := 512

structure RqOps where
  maxPending : Nat
  peeks : Bool
  makes : Bool

structure Bdev (R : Type) extends Blockdev where
  rq : Option R
  name : List UInt8

inductive Request where
  | slot (indx : Nat)
  | foreign
  deriving DecidableEq, Repr

/-- The requests that the driver has been `given` and those that wait in the backlog. -/
structure RequestQueue where
  pendingCount : Nat
  backlog : List Request
  given : List Request

namespace RequestQueue

def held (rq : RequestQueue) : List Request := rq.given ++ rq.backlog

end RequestQueue

inductive Status where
  | ok
  | ioerr
  deriving DecidableEq, Repr

def Status.toByte : Status → UInt8
  | .ok => 0
  | .ioerr => 1

/-- `struct virtio_blk_dev_req` with the `struct vmm_request` inside. The type is `none` when it is
unknown, `listed` is the backlog that the request is linked into, and `chain` is the chain that
the request was made from. -/
structure Req (R : Type) where
  head : Nat
  readIov : Option (List IoVec)
  len : Nat
  statusIov : IoVec
  data : Option Buffer
  type : Option RequestType
  bdev : Option (Bdev R)
  listed : Option R
  chain : List IoVec

/-- An answered request: the data bytes copied to guest memory, for which chain. -/
structure Copy where
  count : Nat
  chain : List IoVec

/-- The device. The last three fields record what it did: the heads popped, the elements placed on
the used ring and the data copied to guest memory. -/
structure Blk (R : Type) where
  mem : HostMemory
  vq : Queue
  reqs : Nat → Req R
  blk : Option (Bdev R)
  blkFactor : Nat
  rqs : R → RequestQueue
  popped : List Nat
  used : List (Nat × Nat)
  copies : List Copy

/-- Accesses outside the arrays, and misuse of the links of a request. -/
inductive Fault where
  | reqs
  | iov
  | list
  | bdev
  deriving DecidableEq, Repr

structure Env (R : Type) where
  aspace : Aspace
  fuel : Nat
  ops : R → RqOps

inductive Cache where
  | hit (data : Buffer)
  | notAvail
  | error

structure Replies where
  heap : Option Buffer
  iovHeap : Bool
  cache : Cache
  accepts : Bool
  flushes : Bool

/-! ## Answers -/

/-- The data descriptors of a chain: all but the header and the status. -/
def dataDescs (chain : List IoVec) : List IoVec := (chain.drop 1).dropLast

def totalLen (iov : List IoVec) : Nat := (iov.map IoVec.len).sum

namespace Blk

variable {R : Type} [DecidableEq R]

def setReq (s : Blk R) (indx : Nat) (req : Req R) : Blk R :=
  { s with reqs := update s.reqs indx req }

def setRq (s : Blk R) (q : R) (rq : RequestQueue) : Blk R :=
  { s with rqs := update s.rqs q rq }

variable (env : Env R) (s : Blk R)

def place (head len : Nat) : Blk R :=
  let (mem, placed) := s.vq.setUsedElem env.aspace env.fuel head len s.mem
  { s with mem := mem, used := if placed then s.used ++ [(head, len)] else s.used }

def copyData (req : Req R) (status : Status) (mem : HostMemory) : HostMemory × Nat :=
  match req.readIov, req.data with
  | some readIov, some data =>
    if req.len ≠ 0 ∧ status = .ok ∧ req.type = some .read then
      bufToIovecWrite env.aspace env.fuel readIov ((List.range req.len).map data) mem
    else (mem, 0)
  | _, _ => (mem, 0)

variable (indx : Nat)

/-- `virtio_blk_req_done`, without the interrupt. -/
def reqDone (status : Status) : Blk R :=
  let req := s.reqs indx
  let (mem, count) := copyData env req status s.mem
  let (mem, _) := bufToIovecWrite env.aspace env.fuel [req.statusIov] [status.toByte] mem
  let s := s.setReq indx { req with readIov := none, type := none, data := none }
  place env { s with mem := mem, copies := s.copies ++ [⟨count, req.chain⟩] } req.head req.len

/-! ## The block layer -/

/-- `__blockdev_make_request`; the driver accepts the request or refuses it. The links of the
request are initialised, which breaks the list it is on. -/
def makeRequest (bdev : Bdev R) (q : R) (indx : Nat)
    (appendBacklog accepts : Bool) : Except Fault (Blk R) :=
  let req := s.reqs indx
  let rq := s.rqs q
  if req.listed.isSome then .error .list
  else if rq.pendingCount < (env.ops q).maxPending then
    if accepts then
      .ok ((s.setReq indx { req with bdev := some bdev }).setRq q
        { rq with pendingCount := rq.pendingCount + 1, given := rq.given ++ [.slot indx] })
    else .ok (s.setReq indx { req with bdev := none })
  else if rq.backlog.length < u32Max then
    .ok ((s.setReq indx { req with bdev := some bdev, listed := some q }).setRq q
      { rq with
        backlog := if appendBacklog then rq.backlog ++ [.slot indx] else .slot indx :: rq.backlog })
  else .ok (s.setReq indx { req with bdev := none })

/-- `__blockdev_make_request` for the request of another user. -/
def makeForeign (maxPending : Nat) (rq : RequestQueue) (appendBacklog accepts : Bool) :
    RequestQueue :=
  if rq.pendingCount < maxPending then
    if accepts then
      { rq with pendingCount := rq.pendingCount + 1, given := rq.given ++ [.foreign] }
    else rq
  else if rq.backlog.length < u32Max then
    { rq with
      backlog := if appendBacklog then rq.backlog ++ [.foreign] else .foreign :: rq.backlog }
  else rq

/-- `__blockdev_done_request`: the first request of the backlog goes to the driver. -/
def doneRequest (q : R) (accepts : Bool) : Except Fault (Blk R) :=
  let rq := s.rqs q
  let rq := { rq with pendingCount := rq.pendingCount - 1 }
  match rq.backlog with
  | [] => .ok (s.setRq q rq)
  | .foreign :: backlog =>
    .ok (s.setRq q
      (makeForeign (env.ops q).maxPending { rq with backlog := backlog } false accepts))
  | .slot indx :: backlog =>
    let req := { s.reqs indx with listed := none }
    let s := (s.setRq q { rq with backlog := backlog }).setReq indx req
    match req.bdev with
    | none => .error .bdev
    | some bdev =>
      match bdev.rq with
      | none => .error .bdev
      | some q => makeRequest env s bdev q indx false accepts

def endRequest (status : Status) (accepts : Bool) : Except Fault (Blk R) :=
  let req := s.reqs indx
  match req.bdev.bind Bdev.rq with
  | none => .ok s
  | some q =>
    doneRequest env (reqDone env (s.setReq indx { req with bdev := none }) indx status) q accepts

/-- `vmm_blockdev_submit_request`. A refused request is failed, which does nothing unless the
request already belongs to a device. -/
def blockdevSubmitRequest (bdev : Bdev R) (indx : Nat)
    (type : RequestType) (lba bcnt : Nat) (replies : Replies) : Except Fault (Blk R) :=
  let fail := endRequest env s indx .ioerr replies.accepts
  match bdev.rq with
  | none => fail
  | some q =>
    if !submitOk bdev.toBlockdev type lba bcnt then fail
    else
      let make :=
        if (env.ops q).makes then makeRequest env s bdev q indx true replies.accepts else fail
      if (env.ops q).peeks then
        match replies.cache with
        | .hit data =>
          let req := s.reqs indx
          let data := if type = .read then some data else req.data
          .ok (reqDone env (s.setReq indx { req with data := data }) indx .ok)
        | .error => .ok (reqDone env s indx .ioerr)
        | .notAvail => make
      else make

/-- `vmm_vdisk_submit_request`. Without a block device the request fails at once. -/
def vdiskSubmitRequest (type : RequestType)
    (lba dataLen : Nat) (replies : Replies) : Except Fault (Blk R) :=
  if dataLen < sectorSize then .ok s
  else
    match s.blk with
    | none => .ok (reqDone env s indx .ioerr)
    | some bdev =>
      blockdevSubmitRequest env (s.setReq indx { s.reqs indx with type := some type }) bdev indx
        type (Word.mul (Word.add lba bdev.startLba) s.blkFactor)
        (Word.toU32 (dataLen / sectorSize * s.blkFactor)) replies

def vdiskFlushCache (flushes : Bool) : Bool :=
  match s.blk with
  | none => false
  | some bdev => bdev.rq.isSome && flushes

/-! ## The loop -/

/-- `VMM_VIRTIO_BLK_T_IN`. A chain without data, of one or two descriptors among others, asks for
no memory and gets none. -/
def serveIn (indx sector : Nat) (replies : Replies) : Except Fault (Blk R) :=
  let req := { s.reqs indx with type := some .read }
  match if req.len = 0 then none else replies.heap with
  | none => .ok (reqDone env (s.setReq indx { req with data := none }) indx .ioerr)
  | some data =>
    let req := { req with data := some data }
    if !replies.iovHeap then .ok (reqDone env (s.setReq indx req) indx .ioerr)
    else
      let req := { req with readIov := some (dataDescs req.chain) }
      vdiskSubmitRequest env (s.setReq indx req) indx .read sector req.len replies

def serveOut (indx sector : Nat) (replies : Replies) : Except Fault (Blk R) :=
  let req := { s.reqs indx with type := some .write }
  match if req.len = 0 then none else replies.heap with
  | none => .ok (reqDone env (s.setReq indx { req with data := none }) indx .ioerr)
  | some data =>
    let bytes := iovecToBufRead (guestRead env.aspace env.fuel s.mem) (dataDescs req.chain) req.len
    let data := patch data 0 bytes.length fun i => bytes.getD i 0
    vdiskSubmitRequest env (s.setReq indx { req with data := some data }) indx .write sector
      req.len replies

variable (replies : Replies)

def serveFlush : Blk R :=
  let s := s.setReq indx { s.reqs indx with type := some .write }
  reqDone env s indx (if s.vdiskFlushCache replies.flushes then .ok else .ioerr)

def idBytes : Nat := 20

/-- `VMM_VIRTIO_BLK_T_GET_ID`: the name of the block device goes to the second descriptor. -/
def serveGetId : Except Fault (Blk R) :=
  let req := { s.reqs indx with type := some .read, len := idBytes }
  match replies.heap with
  | none => .ok (reqDone env (s.setReq indx { req with data := none }) indx .ioerr)
  | some _ =>
    let req := { req with data := some fun _ => 0 }
    if !replies.iovHeap then .ok (reqDone env (s.setReq indx req) indx .ioerr)
    else
      match req.chain[1]? with
      | none => .error .iov
      | some iov =>
        let req := { req with readIov := some [iov] }
        match s.blk with
        | none => .ok (reqDone env (s.setReq indx req) indx .ioerr)
        | some bdev =>
          let req := { req with data := some fun i => bdev.name.getD i 0 }
          .ok (reqDone env (s.setReq indx req) indx .ok)

def header (mem : HostMemory) (chain : List IoVec) : Option (Nat × Nat) :=
  let bytes := iovecToBufRead (guestRead env.aspace env.fuel mem) (chain.take 1) 16
  if bytes.length < 16 then none
  else some (ofBytes (bytes.take 4), ofBytes ((bytes.drop 8).take 8))

/-- What is done with a chain; nothing for the types it does not know. -/
def serve : Except Fault (Blk R) :=
  match header env s.mem (s.reqs indx).chain with
  | none => .ok (place env s (s.reqs indx).head 0)
  | some (0, sector) => serveIn env s indx sector replies
  | some (1, sector) => serveOut env s indx sector replies
  | some (4, _) => .ok (serveFlush env s indx replies)
  | some (8, _) => serveGetId env s indx replies
  | some _ => .ok s

/-- The request of a chain whose last descriptor is `status`. -/
def newReq (req : Req R) (head : Nat) (chain : List IoVec) (status : IoVec) : Req R :=
  { req with
    head := head
    readIov := none
    len := Word.toU32 (totalLen (dataDescs chain))
    statusIov := status
    type := none
    chain := chain }

/-- One round of the loop of `virtio_blk_do_io`. A chain that is still going on after `queueSize`
descriptors is written past the end of `iov`. -/
def doIoRound : Except Fault (Blk R) :=
  let read := guestRead env.aspace env.fuel s.mem
  let (vq, thead) := s.vq.pop read
  let s := { s with vq := vq, popped := s.popped ++ [thead] }
  match vq.getHeadIovec read queueSize thead with
  | none => .error .iov
  | some outcome =>
    if outcome.rc ≠ .ok then .ok s
    else if queueSize ≤ thead then .error .reqs
    else
      let mem :=
        match outcome.availEvent with
        | none => s.mem
        | some (pa, value) => (guestWrite env.aspace env.fuel s.mem pa (toBytes 2 value)).1
      match outcome.walk.iov.getLast? with
      | none => .error .iov
      | some status =>
        let s := { s with mem := mem }
        let s := s.setReq thead (newReq (s.reqs thead) outcome.head outcome.walk.iov status)
        serve env s thead replies

/-! ## The virtual disk -/

def attach (bdev : Bdev R) : Blk R :=
  if s.blk.isNone ∧ bdev.blockSize ≤ sectorSize ∧ sectorSize % bdev.blockSize = 0 then
    { s with blk := some bdev, blkFactor := sectorSize / bdev.blockSize }
  else s

def detach : Blk R := { s with blk := none, blkFactor := 1 }

/-! ## Events -/

/-- The driver is done with a request it was given; a read has filled the data buffer. -/
def driverDone (q : R) (request : Request) (status : Status)
    (data : Buffer) (accepts : Bool) : Except Fault (Blk R) :=
  let rq := s.rqs q
  let s := s.setRq q { rq with given := rq.given.erase request }
  match request with
  | .foreign => doneRequest env s q accepts
  | .slot indx =>
    let req := s.reqs indx
    let filled := if status = .ok ∧ req.type = some .read then some data else req.data
    endRequest env (s.setReq indx { req with data := filled }) indx status accepts

/-- What happens to the device: a round of the loop that a queue notification starts, the end of a
request, a request of another user of the disk, and changes of the virtual disk and of guest
memory. -/
inductive Event (R : Type) where
  | round (replies : Replies)
  | driverDone (q : R) (request : Request) (status : Status) (data : Buffer) (accepts : Bool)
  | foreign (q : R) (accepts : Bool)
  | attach (bdev : Bdev R)
  | detach
  | guest (mem : HostMemory)

def Enabled : Event R → Prop
  | .round _ => s.vq.available (guestRead env.aspace env.fuel s.mem) = true
  | .driverDone q request _ _ _ => request ∈ (s.rqs q).given
  | _ => True

def next : Event R → Except Fault (Blk R)
  | .round replies => doIoRound env s replies
  | .driverDone q request status data accepts => driverDone env s q request status data accepts
  | .foreign q accepts =>
    .ok (s.setRq q (makeForeign (env.ops q).maxPending (s.rqs q) true accepts))
  | .attach bdev => .ok (s.attach bdev)
  | .detach => .ok s.detach
  | .guest mem => .ok { s with mem := mem }

end Blk

end Xvisor.Virtio
