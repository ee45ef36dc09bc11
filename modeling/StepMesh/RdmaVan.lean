import StepMesh.VanCommon

/-!
# One node of the RDMA van (`src/rdma_van.h`, `src/rdma_transport.h`, `src/rdma_utils.h`)

The first message of a (key, kind, receiver) asks the receiver for a buffer: `SendRendezvousBegin`,
answered by `SendRendezvousReply`; when the reply comes back, `PollCQ` remembers the address and writes
the message there. From then on `SendMsg` writes at once. Control and simple-app messages ask every
time.

The functions below are those of one node. Each returns the work requests it posts to the queue pairs
of the peer, first posted first; the network is in `RdmaNet.lean`. A `PS_CHECK` that fails, a null
pointer that is followed and an index out of bounds give `none`.

The memory that peers write to has two parts: the buffers of `MemoryAllocator`, each with its own
contents (`mem`), and everything else, at flat addresses (`ram`): tensors and device memory. A message carries
a number `uid` that no function reads: it says which message a notification is about. Left out are
the protection keys other than the one that travels in `option`, the logging, the tensor events and
`IPCTransport`.
-/

namespace StepMesh

open Buf

/-- The build and the environment: `STEPMESH_USE_GDR`, `STEPMESH_SPLIT_QP_LAG`, `STEPAF_QP_NUM`, the
page size, `BYTEPS_ADDRESS_POOL_SIZE`, where the device allocator starts, and whether the backend or
`ibv_reg_mr` refuses a device buffer of 0 bytes (the source does not say). -/
structure RdmaCfg where
  gdr : Bool
  multiQp : Bool := false
  qpNum : Nat := 2
  pagesize : Nat := 4096
  poolSize : Nat := 10240
  gpuBase : Nat := 2 ^ 48
  refusesEmpty : Bool := true
deriving DecidableEq, Repr

/-- A registered memory region. -/
structure Mr where
  addr : Nat
  length : Nat
  rkey : Nat
deriving DecidableEq, Repr

/-- An entry of `mem_mr_`: a region that starts at the address it is filed under. -/
abbrev MrAt (addr : Nat) := { mr : Mr // mr.addr = addr }

/-- `inlineBuf` is what the buffer of that name holds: each message buffer has its own. `mrs` is filled
for push requests only. -/
structure MessageBuffer where
  inlineLen : Nat := 0
  inlineBuf : Buf := fun _ => 0
  data : List SArray := []
  mrs : List (Mr × Nat) := []

namespace MessageBuffer

/-- `msg_buf->data[i] = msg.data[i]` for each array of the message. -/
def setData (buf : MessageBuffer) (data : List SArray) : MessageBuffer :=
  { buf with data := data ++ buf.data.drop data.length }

/-- `PackMeta` into `inline_buf`. -/
def pack (cfg : RdmaCfg) (buf : MessageBuffer) (msg : Message) : MessageBuffer :=
  { buf with inlineBuf := packMeta cfg.qpNum msg.msgMeta buf.inlineBuf }

end MessageBuffer

/-- `dataLen` has `data_num` entries; `originAddr` is the sender's message buffer. -/
structure RendezvousStart where
  metaLen : Nat
  dataLen : List Nat
  originAddr : Nat
  key : Key
deriving DecidableEq, Repr

/-- `metaAddr` is `addr` in a build without GDR, which has no `data_addr`. -/
structure RendezvousReply where
  metaAddr : Nat
  dataAddr : Nat := 0
  originAddr : Nat
  idx : Nat
deriving DecidableEq, Repr

/-- Where a peer's data goes to, and the buffer it is sent from. -/
structure RemoteTuple where
  metaAddr : Nat
  dataAddr : Nat
  idx : Nat
  msgBuf : Nat
deriving DecidableEq, Repr

def RendezvousReply.remoteTuple (resp : RendezvousReply) : RemoteTuple :=
  { metaAddr := resp.metaAddr, dataAddr := resp.dataAddr, idx := resp.idx, msgBuf := resp.originAddr }

/-- A buffer announced to a peer. `metaBuffer` is `meta_buffer` on a GDR server and `buffer` elsewhere;
`gpuDataBuffer` is 0 for `nullptr`. `origin`, the peer and its message buffer, is not stored by the
code. -/
structure BufferContext where
  metaBuffer : Nat
  gpuDataBuffer : Nat := 0
  metaLen : Nat
  dataNum : Nat
  origin : NodeId × Nat
deriving DecidableEq, Repr

/-- An address at the peer: inside one of its allocator's buffers, or anywhere else. -/
inductive RemoteAddr
  | buffer (blk off : Nat)
  | user (addr : Nat)
deriving DecidableEq, Repr

def RemoteAddr.add : RemoteAddr → Nat → RemoteAddr
  | .buffer blk off, n => .buffer blk (off + n)
  | .user addr, n => .user (addr + n)

/-- What is posted to a queue pair. The bytes of a meta are those the buffer has when it is posted; a
payload is named by its address and length. -/
inductive WorkRequest
  | rendezvousStart (req : RendezvousStart)
  | rendezvousReply (resp : RendezvousReply)
  | write (dst : RemoteAddr) (src len : Nat)
  | writeImm (dst : Nat) (bytes : List UInt8) (imm uid : Nat)
  | writeChunkImm (dst : RemoteAddr) (src len imm : Nat)
deriving DecidableEq, Repr

/-- What `PollCQ` finds in the completion queue; the completions of the node's own requests, which it
skips, are left out. -/
inductive Completion
  | recvStart (req : RendezvousStart)
  | recvReply (resp : RendezvousReply)
  | recvImm (imm : Nat) (uid : Option Nat)
deriving DecidableEq, Repr

/-- What a work request tells the peer: that a rendezvous starts or is answered, by the message buffer it
is for, or that a message has been written, by its number. -/
inductive Signal
  | start | reply | notify
deriving DecidableEq, Repr

def WorkRequest.signal : Signal → WorkRequest → Option Nat
  | .start, .rendezvousStart req => some req.originAddr
  | .reply, .rendezvousReply resp => some resp.originAddr
  | .notify, .writeImm _ _ _ uid => some uid
  | _, _ => none

def Completion.signal : Signal → Completion → Option Nat
  | .start, .recvStart req => some req.originAddr
  | .reply, .recvReply resp => some resp.originAddr
  | .notify, .recvImm _ uid => uid
  | _, _ => none

/-- An entry of `recv_buffers_`. -/
structure Notification where
  endpoint : NodeId
  ctx : BufferContext
  cmd : Nat
  uid : Nat
deriving DecidableEq, Repr

/-- The state of a node. `mrCount` numbers the registrations, `nextBuf`, `nextBlock` and `nextGpu` are
what the allocators hand out next. Every pair of nodes has two endpoints, one for each direction:
`qpPktCount` is `qp_pkt_count` of the one this node connected, `incomingPktCount` of the one the peer
did. -/
structure RdmaVan where
  id : NodeId
  isServer : Bool
  pushAddr : Key → NodeId → Option RemoteTuple := fun _ _ => none
  pullAddr : Key → NodeId → Option RemoteTuple := fun _ _ => none
  msgBufs : Nat → MessageBuffer := fun _ => {}
  nextBuf : Nat := 0
  msgbufCache : Nat → Option (Nat × Message) := fun _ => none
  memMr : (addr : Nat) → Option (MrAt addr) := fun _ => none
  mrCount : Nat := 1
  mem : Nat → Buf := fun _ _ => 0
  nextBlock : Nat := 0
  ram : Buf := fun _ => 0
  registeredRecvBuffers : Key → List (NodeId × SArray) := fun _ => []
  keyToMr : NodeId → Key → Option Mr := fun _ _ => none
  nextGpu : Nat
  addrPool : AddressPool BufferContext
  qpPktCount : NodeId → Nat → Nat := fun _ _ => 0
  incomingPktCount : NodeId → Nat → Nat := fun _ _ => 0
  recvBuffers : List Notification := []

/-- A function that posts work requests; each comes with the queue pair it is posted to. -/
abbrev Posted := List (Nat × WorkRequest)

namespace RdmaVan

variable (cfg : RdmaCfg) (van : RdmaVan)

def init (id : NodeId) (isServer : Bool) : RdmaVan :=
  { id := id, isServer := isServer, nextGpu := cfg.gpuBase, addrPool := .init cfg.poolSize }

/-- `MemoryAllocator::Alloc` of at least one byte: a cleared buffer. -/
def alloc : Nat × RdmaVan :=
  (van.nextBlock, { van with
    mem := Function.update van.mem van.nextBlock (fun _ => 0)
    nextBlock := van.nextBlock + 1 })

/-- The contents of a buffer change. -/
def modifyMem (blk : Nat) (f : Buf → Buf) : RdmaVan :=
  { van with mem := Function.update van.mem blk (f (van.mem blk)) }

/-- A message buffer changes. -/
def setMsgBuf (msgBuf : Nat) (buf : MessageBuffer) : RdmaVan :=
  { van with msgBufs := Function.update van.msgBufs msgBuf buf }

/-! ### Preparing a message -/

/-- `ibv_reg_mr`, unless the address is registered with this length. -/
def register (addr length : Nat) : RdmaVan :=
  if ∀ mr ∈ van.memMr addr, mr.1.length < length then
    { van with
      memMr := Function.update van.memMr addr (some ⟨⟨addr, length, van.mrCount⟩, rfl⟩)
      mrCount := van.mrCount + 1 }
  else van

/-- The loop over `msg.data`; only the second array that is not empty is registered. -/
def registerData (van : RdmaVan) : Nat → List SArray → RdmaVan
  | _, [] => van
  | saCnt, sa :: data =>
    if sa.size = 0 then registerData van saCnt data
    else if saCnt = 1 then registerData (van.register sa.ptr sa.size) (saCnt + 1) data
    else registerData van (saCnt + 1) data

def registerMemory (msg : Message) : Option RdmaVan := do
  let van := van.registerData 0 msg.data
  if isValidPushpull msg && !msg.msgMeta.push && msg.msgMeta.request then
    guard (0 < msg.msgMeta.valLen)
    return van.register msg.msgMeta.addr.toNat msg.msgMeta.valLen.toNat
  else return van

/-- The key a data message is sent under: a request's is decoded from its first array. -/
def messageKey (msg : Message) : Key :=
  if msg.msgMeta.request then decodeKey msg.keys else msg.msgMeta.key

/-- `AddMeta`; the remote key of the buffer of a pull request goes into an `int`. -/
def addMeta (msg : Message) : Option Message := do
  guard (msg.msgMeta.request → msg.data ≠ [])
  let option ← (if !msg.msgMeta.push && msg.msgMeta.request then
      (van.memMr msg.msgMeta.addr.toNat).map fun mr => (mr.1.rkey : Int).bmod (2 ^ 32)
    else some msg.msgMeta.option)
  return { msg with msgMeta := { msg.msgMeta with key := messageKey msg, option := option } }

/-- `PrepareNewMsgBuf`. -/
def prepareNewMsgBuf (msg : Message) : MessageBuffer :=
  MessageBuffer.pack cfg { inlineLen := (getPackMetaLen msg.msgMeta).toNat, data := msg.data } msg

/-- `PrepareData`: the region of the values of a push request. -/
def prepareData (msg : Message) (buf : MessageBuffer) : Option MessageBuffer := do
  if msg.msgMeta.push && msg.msgMeta.request then
    let sa ← buf.data[1]?
    if sa.size = 0 then return buf
    else
      let mr ← van.memMr sa.ptr
      return { buf with mrs := buf.mrs ++ [(mr.1, sa.size)] }
  else return buf

/-- The new message buffer, and `StoreMsgBuf`. -/
def storeMsgBuf (buf : MessageBuffer) (msg : Message) (uid : Nat) : RdmaVan :=
  { van.setMsgBuf van.nextBuf buf with
    msgbufCache := Function.update van.msgbufCache van.nextBuf (some (uid, msg))
    nextBuf := van.nextBuf + 1 }

/-- `SendRendezvousBegin`; `data_len` has room for `kMaxDataFields` arrays. -/
def sendRendezvousBegin (msg : Message) (buf : MessageBuffer) (originAddr : Nat) :
    Option (Nat × WorkRequest) := do
  guard (msg.data.length ≤ kMaxDataFields)
  return (0, .rendezvousStart {
    metaLen := buf.inlineLen
    dataLen := msg.data.map (·.size)
    originAddr := originAddr
    key := msg.msgMeta.key })

/-! ### Writing to a known address -/

/-- `RDMAWriteWithImm` from the message buffer of the tuple. -/
def rdmaWriteWithImm (t : RemoteTuple) (uid : Nat) : Nat × WorkRequest :=
  let buf := van.msgBufs t.msgBuf
  (0, .writeImm t.metaAddr (buf.inlineBuf.load 0 buf.inlineLen) t.idx uid)

/-- The `FOR_QPS` loop: every counter of the endpoint goes up, and the meta gets them. -/
def countPackets (ep : NodeId) (msgBuf : Nat) : RdmaVan :=
  let count := fun q => if q < cfg.qpNum then van.qpPktCount ep q + 1 else van.qpPktCount ep q
  let buf := van.msgBufs msgBuf
  let inlineBuf := (List.range cfg.qpNum).foldl
    (fun b q => b.store (RawMeta.slaveQpCounter + 8 * q) (leBytes 8 (count q)))
    (buf.inlineBuf.store RawMeta.slaveQpNum (intBytes 4 (cfg.qpNum - 1 : Int)))
  { van.setMsgBuf msgBuf { buf with inlineBuf := inlineBuf } with
    qpPktCount := Function.update van.qpPktCount ep count }

/-- What `SendPushRequest` and `SendPullResponse` do with a payload of `len` bytes at `src`: written in
one piece before the meta, or split over the queue pairs. A length posted is a `uint32_t`. -/
def writePayload (ep : NodeId) (t : RemoteTuple) (dst : RemoteAddr) (src len uid : Nat) :
    RdmaVan × Posted :=
  if cfg.multiQp then
    let chunk := len / cfg.qpNum % 2 ^ 32
    let first := (chunk + len % cfg.qpNum) % 2 ^ 32
    let van := van.countPackets cfg ep t.msgBuf
    (van, [(0, .write dst src first), van.rdmaWriteWithImm t uid] ++
      (List.range (cfg.qpNum - 1)).map fun k =>
        (k + 1, .writeChunkImm (dst.add (first + k * chunk)) (src + (first + k * chunk)) chunk
          (t.idx ||| 0x8000)))
  else (van, [(0, .write dst src (len % 2 ^ 32)), van.rdmaWriteWithImm t uid])

/-- `SendPushRequest`: the payload starts where the memory region of the buffer does. -/
def sendPushRequest (ep : NodeId) (msg : Message) (t : RemoteTuple) (uid : Nat) :
    Option (RdmaVan × Posted) := do
  let buf := van.msgBufs t.msgBuf
  let [(mr, size)] := buf.mrs | none
  let vals ← msg.data[1]?
  guard (vals.size ≤ size)
  let dst : RemoteAddr :=
    if cfg.gdr then .user t.dataAddr else .buffer t.metaAddr (alignCeil buf.inlineLen cfg.pagesize)
  return van.writePayload cfg ep t dst mr.addr vals.size uid

/-- `SendPullRequest` and `SendPushResponse`, which have no payload. -/
def send (t : RemoteTuple) (uid : Nat) : Option (RdmaVan × Posted) := do
  guard ((van.msgBufs t.msgBuf).mrs = [])
  return (van, [van.rdmaWriteWithImm t uid])

/-- `SendPullResponse`: the payload goes to the address the request gave. -/
def sendPullResponse (ep : NodeId) (msg : Message) (t : RemoteTuple) (uid : Nat) :
    Option (RdmaVan × Posted) := do
  let buf := van.msgBufs t.msgBuf
  let vals ← buf.data[1]?
  guard (van.memMr vals.ptr ≠ none)
  guard (buf.mrs = [])
  guard (msg.msgMeta.valLen = vals.size)
  return van.writePayload cfg ep t (.user msg.msgMeta.addr.toNat) vals.ptr vals.size uid

/-- The four kinds of data messages, in `SendMsg` as in `PollCQ`. -/
def sendByKind (ep : NodeId) (msg : Message) (t : RemoteTuple) (uid : Nat) :
    Option (RdmaVan × Posted) :=
  match msg.msgMeta.push, msg.msgMeta.request with
  | true, true => van.sendPushRequest cfg ep msg t uid
  | true, false | false, true => van.send t uid
  | false, false => van.sendPullResponse cfg ep msg t uid

/-! ### `SendMsg` -/

/-- `GetRemoteAndLocalInfo`, with `HasRemoteInfo`. -/
def remoteInfo (key : Key) (push : Bool) (recver : NodeId) : Option RemoteTuple :=
  if push then van.pushAddr key recver else van.pullAddr key recver

/-- A message that needs a rendezvous. -/
def sendFirst (msg : Message) (uid : Nat) : Option (RdmaVan × Posted) := do
  let buf := prepareNewMsgBuf cfg msg
  let buf ← (if isValidPushpull msg then van.prepareData msg buf else some buf)
  let req ← sendRendezvousBegin msg buf van.nextBuf
  return (van.storeMsgBuf buf msg uid, [req])

/-- A message whose address is known; `msg_buf->data` is as long as it was for the first one. -/
def sendCached (msg : Message) (t : RemoteTuple) (uid : Nat) : Option (RdmaVan × Posted) := do
  let buf := van.msgBufs t.msgBuf
  guard (buf.inlineLen = (getPackMetaLen msg.msgMeta).toNat)
  guard (msg.data.length ≤ buf.data.length)
  let van := van.setMsgBuf t.msgBuf ((buf.setData msg.data).pack cfg msg)
  van.sendByKind cfg msg.msgMeta.recver msg t uid

/-- `SendMsg`; no buffer has a negative length. The result says what is sent, with the key and the
option that `AddMeta` sets, and from which message buffer. -/
def sendMsg (msg : Message) (uid : Nat) : Option (RdmaVan × Posted × Message × Nat) := do
  guard (msg.msgMeta.recver ≠ kEmpty ∧ 0 < getPackMetaLen msg.msgMeta)
  let van ← van.registerMemory msg
  let msg ← (if isValidPushpull msg then van.addMeta msg else some msg)
  let cached := if isValidPushpull msg then
    van.remoteInfo msg.msgMeta.key msg.msgMeta.push msg.msgMeta.recver else none
  match cached with
  | none => (van.sendFirst cfg msg uid).map fun (van', out) => (van', out, msg, van.nextBuf)
  | some t => (van.sendCached cfg msg t uid).map fun (van', out) => (van', out, msg, t.msgBuf)

/-! ### `PollCQ` -/

/-- `QueryRecvBuffer`: the first buffer registered for the key and the node. -/
def queryRecvBuffer (key : Key) (node : NodeId) : Option (Option (SArray × Nat)) :=
  match (van.registeredRecvBuffers key).find? (·.1 = node) with
  | none => some none
  | some (_, sa) => (van.memMr sa.ptr).map fun mr => some (sa, mr.1.rkey)

/-- `BackendMemoryAllocator::Alloc`, one allocator per endpoint. -/
def gpuAlloc (ep : NodeId) (key : Key) (size : Nat) : Option (Nat × RdmaVan) :=
  match van.keyToMr ep key with
  | some mr => if size ≤ mr.length then some (mr.addr, van) else none
  | none =>
    if cfg.refusesEmpty ∧ size = 0 then none
    else
      let mr : Mr := ⟨van.nextGpu, size, 0⟩
      some (van.nextGpu, { van with
        keyToMr := Function.update van.keyToMr ep (Function.update (van.keyToMr ep) key (some mr))
        nextGpu := van.nextGpu + size })

/-- The device buffer a GDR server announces: a registered one, or one of its allocator. -/
def dataBuffer (ep : NodeId) (req : RendezvousStart) : Option (Nat × RdmaVan) := do
  if req.dataLen.sum = 0 then return (0, van)
  let size ← req.dataLen[1]?
  match ← van.queryRecvBuffer req.key ep with
  | some (sa, rkey) =>
    if sa.ptr = 0 then van.gpuAlloc cfg ep req.key size
    else
      guard (size ≤ sa.size ∧ rkey ≠ 0)
      return (sa.ptr, van)
  | none => van.gpuAlloc cfg ep req.key size

/-- `SendRendezvousReply`. -/
def sendRendezvousReply (ep : NodeId) (req : RendezvousStart) : Option (RdmaVan × Posted) := do
  let bufferSize :=
    if van.isServer && !cfg.gdr then alignCeil req.metaLen cfg.pagesize + req.dataLen.sum
    else req.metaLen
  guard (bufferSize ≠ 0)
  let (blk, van) := van.alloc
  let (dataAddr, van) ← (if cfg.gdr && van.isServer then van.dataBuffer cfg ep req else some (0, van))
  let ctx : BufferContext :=
    { metaBuffer := blk, gpuDataBuffer := dataAddr, metaLen := req.metaLen
      dataNum := req.dataLen.length, origin := (ep, req.originAddr) }
  let (idx, pool) ← van.addrPool.storeAddress ctx
  return ({ van with addrPool := pool },
    [(0, .rendezvousReply
      { metaAddr := blk, dataAddr := dataAddr, originAddr := req.originAddr, idx := idx })])

/-- `StoreRemoteAndLocalInfo` for the message that waits in the buffer. -/
def storeRemoteAndLocalInfo (msg : Message) (t : RemoteTuple) : RdmaVan :=
  let set := fun m : Key → NodeId → Option RemoteTuple => Function.update m msg.msgMeta.key
    (Function.update (m msg.msgMeta.key) msg.msgMeta.recver (some t))
  if msg.msgMeta.push then { van with pushAddr := set van.pushAddr }
  else { van with pullAddr := set van.pullAddr }

def releaseFirstMsg (msgBuf : Nat) : RdmaVan :=
  { van with msgbufCache := Function.update van.msgbufCache msgBuf none }

/-- The `kRendezvousReply` case: the message that waits is written and released. -/
def recvReply (ep : NodeId) (resp : RendezvousReply) : Option (RdmaVan × Posted) := do
  let (uid, msg) ← van.msgbufCache resp.originAddr
  let t := resp.remoteTuple
  let van := van.storeRemoteAndLocalInfo msg t
  let (van, out) ← (if isValidPushpull msg then van.sendByKind cfg ep msg t uid
    else some (van, [van.rdmaWriteWithImm t uid]))
  return (van.releaseFirstMsg resp.originAddr, out)

/-- The `IBV_WC_RECV_RDMA_WITH_IMM` case: bit 15 of the immediate marks a chunk of a slave queue pair.
A notification without a number cannot come from a main write. -/
def recvImm (ep : NodeId) (imm : Nat) (uid : Option Nat) : Option RdmaVan :=
  let count := van.incomingPktCount ep
  if imm &&& 0x8000 = 0 then do
    let cmd := ((imm &&& 0xFFFF) >>> 16) &&& 0xFFFF
    let ctx ← van.addrPool.getAddress imm
    let uid ← uid
    return { van with recvBuffers := van.recvBuffers ++ [⟨ep, ctx, cmd, uid⟩] }
  else
    let count := Function.update count 1 ((count 1 + 1) % 2 ^ 64)
    some { van with incomingPktCount := Function.update van.incomingPktCount ep count }

/-- One completion of `PollCQ`. -/
def pollCQ (ep : NodeId) : Completion → Option (RdmaVan × Posted)
  | .recvStart req => van.sendRendezvousReply cfg ep req
  | .recvReply resp => van.recvReply cfg ep resp
  | .recvImm imm uid => (van.recvImm ep imm uid).map (·, [])

/-! ### `RecvMsg` -/

/-- The address of a byte of an allocator's buffer, apart from every address in `ram`. -/
def bufferPtr (blk off : Nat) : Nat := 2 ^ 64 + blk * 2 ^ 32 + off

/-- The loop of `RecvMsg` that waits for the chunks of the slave queue pairs would end. It spins on `qp_pkt_count`,
which `PollCQ` counts up without a lock: the plain reads are taken to see the latest value, and as long as the
counters are too low `RecvMsg` waits. -/
def slavesArrived (ep : NodeId) (b : Buf) : Bool :=
  (List.range (ofIntBytes 4 (b.load RawMeta.slaveQpNum 4)).toNat).all fun k =>
    ofLE (b.load (RawMeta.slaveQpCounter + 8 * (k + 1)) 8) ≤ van.incomingPktCount ep (k + 1)

/-- `RecvPushRequest`, `RecvPullRequest`, `RecvPushResponse` and `RecvPullResponse`: the arrays of the
received message, with the contents of the keys and the lengths. -/
def recvData (ctx : BufferContext) (m : Meta) : Option Message :=
  let keys : SArray := { size := 8 }
  let lens : SArray := { size := 4 }
  match m.push, m.request with
  | true, true => do
    guard (if cfg.gdr && van.isServer then 2 ≤ ctx.dataNum ∧ ctx.gpuDataBuffer ≠ 0 else ctx.dataNum = 3)
    let ptr := if cfg.gdr && van.isServer then ctx.gpuDataBuffer
      else bufferPtr ctx.metaBuffer (alignCeil (getPackMetaLen m).toNat cfg.pagesize)
    let vals : SArray := { ptr := ptr, size := (m.valLen % 2 ^ 32).toNat }
    return { msgMeta := m, data := [keys, vals, lens], keys := [m.key], lens := [m.valLen] }
  | false, true => some { msgMeta := m, data := [keys, {}], keys := [m.key] }
  | true, false => if ctx.dataNum = 0 then some { msgMeta := m } else none
  | false, false =>
    let vals : SArray := { ptr := m.addr.toNat, size := m.valLen.toNat }
    some { msgMeta := m, data := [keys, vals, lens], keys := [m.key], lens := [m.valLen] }

/-- `RecvMsg`, for a notification at the front of `recv_buffers_` whose chunks are there: the number of
the message and the message as `RecvMsg` hands it out. -/
def recvMsg : Option (RdmaVan × Notification × Message) := do
  let note :: rest := van.recvBuffers | none
  let b := van.mem note.ctx.metaBuffer
  guard (van.slavesArrived note.endpoint b)
  let m ← unpackMeta b note.ctx.metaLen
  let m := { m with recver := van.id, sender := note.endpoint }
  let van := { van with recvBuffers := rest }
  if isValidPushpull { msgMeta := m } then
    let m := if note.cmd ≠ 0 then { m with head := (note.cmd &&& 0xFF : Nat) } else m
    return (van, note, ← van.recvData cfg note.ctx m)
  else return (van, note, { msgMeta := m })

end RdmaVan

end StepMesh
