import StepMesh.CodecRoundTrip
import StepMesh.RdmaProto
import StepMesh.Lib.ListAux

/-!
# A payload split over the queue pairs

With `multi_qp_` a payload is cut into one chunk per queue pair. The meta follows the first chunk on
queue pair 0. Each other chunk is written with an immediate whose bit 15 is set; the receiver counts
these arrivals, and the meta says how many there have to be before `RecvMsg` lets the message through.

`SplitNet` is one direction between two nodes: the receiver announces buffers, the sender writes push
requests and pull responses to them, one after another, and each queue pair carries out its requests in
order, as far behind the other one as it likes. Requests stay listed after they have arrived: `arrived q`
of those on queue pair `q` have.

A pool index may have bit 15 itself. Then the notification of a message is counted as the arrival of a
chunk, and a later message is let through too early (`let_through_early`). Without such an index a message
is whole when it is let through (`split_messages_whole`).
-/

namespace StepMesh

open Buf RdmaVan

/-! ### Chunks -/

/-- What a work request writes of a payload: where to, where from and how many bytes. -/
def WorkRequest.piece : WorkRequest → Option (RemoteAddr × Nat × Nat)
  | .write dst src len => some (dst, src, len)
  | .writeChunkImm dst src len _ => some (dst, src, len)
  | _ => none

@[simp] theorem WorkRequest.piece_write (dst : RemoteAddr) (src len : Nat) :
    (WorkRequest.write dst src len).piece = some (dst, src, len) := rfl

@[simp] theorem WorkRequest.piece_writeChunkImm (dst : RemoteAddr) (src len imm : Nat) :
    (WorkRequest.writeChunkImm dst src len imm).piece = some (dst, src, len) := rfl

@[simp] theorem WorkRequest.piece_writeImm (dst : Nat) (bytes : List UInt8) (imm uid : Nat) :
    (WorkRequest.writeImm dst bytes imm uid).piece = none := rfl

/-- The pieces are disjoint, make up `[0, len)`, and each has the same offset at both ends. -/
def Covers (pieces : List (RemoteAddr × Nat × Nat)) (len : Nat) : Prop :=
  ∃ (dst : RemoteAddr) (src : Nat) (cuts : List (Nat × Nat)),
    pieces = cuts.map (fun c => (dst.add c.1, src + c.1, c.2)) ∧
    cuts.Pairwise (fun c d => c.1 + c.2 ≤ d.1 ∨ d.1 + d.2 ≤ c.1) ∧
    ∀ i, i < len ↔ ∃ c ∈ cuts, c.1 ≤ i ∧ i < c.1 + c.2

variable {cfg : RdmaCfg} {van van' : RdmaVan} {ep : NodeId} {t : RemoteTuple} {dst : RemoteAddr}
  {src len uid : Nat}

theorem covers_one (dst : RemoteAddr) (src len : Nat) : Covers [(dst, src, len)] len :=
  ⟨dst, src, [(0, len)], by cases dst <;> simp [RemoteAddr.add], by simp, by simp⟩

theorem covers_two (dst : RemoteAddr) (src first chunk : Nat) :
    Covers [(dst, src, first), (dst.add first, src + first, chunk)] (first + chunk) := by
  refine ⟨dst, src, [(0, first), (first, chunk)], ?_, ?_, fun i => ?_⟩
  · cases dst <;> simp [RemoteAddr.add]
  · simp
  · simp only [List.mem_cons, List.not_mem_nil, or_false, exists_eq_or_imp, exists_eq_left]
    omega

theorem writePayload_split (hm : cfg.multiQp = true) (hq : cfg.qpNum ≤ 2) (van : RdmaVan) (ep : NodeId)
    (t : RemoteTuple) (dst : RemoteAddr) (src len uid : Nat) :
    ∃ first chunk, (len < 2 ^ 31 → len = first + if cfg.qpNum = 2 then chunk else 0) ∧
      van.writePayload cfg ep t dst src len uid = (van.countPackets cfg ep t.msgBuf,
        [(0, .write dst src first), (van.countPackets cfg ep t.msgBuf).rdmaWriteWithImm t uid] ++
          if cfg.qpNum = 2 then
            [(1, .writeChunkImm (dst.add first) (src + first) chunk (t.idx ||| 0x8000))]
          else []) := by
  refine ⟨(len / cfg.qpNum % 2 ^ 32 + len % cfg.qpNum) % 2 ^ 32, len / cfg.qpNum % 2 ^ 32, ?_, ?_⟩
  · intro hlen
    obtain h | h | h : cfg.qpNum = 0 ∨ cfg.qpNum = 1 ∨ cfg.qpNum = 2 := by omega
    · rw [h, Nat.div_zero, Nat.mod_zero, if_neg (by decide)]
      omega
    · rw [h, Nat.div_one, Nat.mod_one, if_neg (by decide)]
      omega
    · rw [h, if_pos rfl]
      omega
  · rw [writePayload, if_pos hm]
    obtain h | h | h : cfg.qpNum = 0 ∨ cfg.qpNum = 1 ∨ cfg.qpNum = 2 := by omega
    all_goals simp [h]

/-! ### Metas that wait for chunks -/

/-- The meta in the buffer waits for at least `k` arrivals. -/
structure Stamped (cfg : RdmaCfg) (b : Buf) (k : Nat) : Prop where
  num : ofIntBytes 4 (b.load RawMeta.slaveQpNum 4) = (cfg.qpNum : Int) - 1
  counter : cfg.qpNum = 2 → k ≤ ofLE (b.load (RawMeta.slaveQpCounter + 8) 8)

theorem Stamped.congr {b b' : Buf} {k : Nat} (h : Stamped cfg b k)
    (heq : ∀ i < RawMeta.size, b' i = b i) : Stamped cfg b' k := by
  have hload : ∀ o n, o + n ≤ RawMeta.size → b'.load o n = b.load o n := by
    intro o n hn
    exact load_congr fun i _ hi => heq i (by omega)
  constructor
  · rw [hload _ _ (by decide)]
    exact h.num
  · intro hq
    rw [hload _ _ (by decide)]
    exact h.counter hq

theorem Stamped.mono {b : Buf} {k k' : Nat} (h : Stamped cfg b k) (hk : k' ≤ k) : Stamped cfg b k' :=
  ⟨h.num, fun hq => Nat.le_trans hk (h.counter hq)⟩

theorem Stamped.le_of_slavesArrived {b : Buf} {k : Nat} (h : Stamped cfg b k) (hq : cfg.qpNum = 2)
    (harr : van.slavesArrived ep b = true) : k ≤ van.incomingPktCount ep 1 := by
  have hnum : (ofIntBytes 4 (b.load RawMeta.slaveQpNum 4)).toNat = 1 := by
    rw [h.num, hq]
    rfl
  rw [slavesArrived, hnum] at harr
  have hle : ofLE (b.load (RawMeta.slaveQpCounter + 8) 8) ≤ van.incomingPktCount ep 1 := by
    simpa using harr
  exact Nat.le_trans (h.counter hq) hle

theorem loads_countPackets (hq : cfg.qpNum ≤ 2) (van : RdmaVan) (ep : NodeId) (i : Nat) :
    ofIntBytes 4 (((van.countPackets cfg ep i).msgBufs i).inlineBuf.load RawMeta.slaveQpNum 4) = (cfg.qpNum : Int) - 1 ∧
      (cfg.qpNum = 2 → ofLE (((van.countPackets cfg ep i).msgBufs i).inlineBuf.load (RawMeta.slaveQpCounter + 8) 8) =
        (van.qpPktCount ep 1 + 1) % 2 ^ 64) := by
  have hfit : FitsInt 4 ((cfg.qpNum : Int) - 1) := by
    unfold FitsInt
    omega
  have hbuf : ((van.countPackets cfg ep i).msgBufs i).inlineBuf =
      (List.range cfg.qpNum).foldl (fun b q => b.store (RawMeta.slaveQpCounter + 8 * q) (leBytes 8
        (if q < cfg.qpNum then van.qpPktCount ep q + 1 else van.qpPktCount ep q)))
        ((van.msgBufs i).inlineBuf.store RawMeta.slaveQpNum (intBytes 4 (cfg.qpNum - 1 : Int))) := by
    simp [countPackets, setMsgBuf]
  have hnum : ∀ b : Buf, ofIntBytes 4 ((b.store RawMeta.slaveQpNum
      (intBytes 4 ((cfg.qpNum : Int) - 1))).load RawMeta.slaveQpNum 4) = (cfg.qpNum : Int) - 1 := by
    intro b
    rw [load_store_of_length length_intBytes, ofIntBytes_intBytes hfit]
  rw [hbuf]
  obtain h | h | h : cfg.qpNum = 0 ∨ cfg.qpNum = 1 ∨ cfg.qpNum = 2 := by omega
  · exact ⟨by rw [h, List.range_zero, List.foldl_nil, ← h, hnum], fun h2 => by omega⟩
  · refine ⟨?_, fun h2 => by omega⟩
    rw [h, List.range_one, List.foldl_cons, List.foldl_nil, load_store_of_disjoint (by simp; decide), ← h,
      hnum]
  · have hrange : List.range 2 = [0, 1] := rfl
    refine ⟨?_, fun _ => ?_⟩
    · rw [h, hrange, List.foldl_cons, List.foldl_cons, List.foldl_nil,
        load_store_of_disjoint (by simp; decide), load_store_of_disjoint (by simp; decide), ← h, hnum]
    · rw [h, hrange, List.foldl_cons, List.foldl_cons, List.foldl_nil,
        load_store_of_length (length_leBytes ..), ofLE_leBytes, if_pos (by decide),
        show (256 : Nat) ^ 8 = 2 ^ 64 by decide]

theorem stamped_countPackets (hq : cfg.qpNum ≤ 2) (van : RdmaVan) (ep : NodeId) (i : Nat) {k : Nat}
    (hk : k < 2 ^ 64) (hcount : ∀ q < cfg.qpNum, van.qpPktCount ep q + 1 = k) :
    Stamped cfg ((van.countPackets cfg ep i).msgBufs i).inlineBuf k := by
  obtain ⟨hnum, hcounter⟩ := loads_countPackets hq van ep i
  refine ⟨hnum, fun h2 => ?_⟩
  rw [hcounter h2, hcount 1 (by omega), Nat.mod_eq_of_lt hk]

/-! ### The two nodes -/

/-- A request comes with the number of its message. `sent` and `popped` are records that no step
reads. -/
structure SplitNet where
  sender : RdmaVan
  receiver : RdmaVan
  chan : Nat → List (Nat × WorkRequest) := fun _ => []
  arrived : Nat → Nat := fun _ => 0
  cq : List Completion := []
  sent : List Message := []
  popped : List Nat := []

namespace SplitNet

/-- `announce` is a rendezvous that the receiver answers, for whichever message. `send` is a push request
or a pull response for a buffer that was announced; `buf` is its message buffer. -/
inductive Action
  | announce (req : RendezvousStart)
  | send (buf : MessageBuffer) (t : RemoteTuple) (msg : Message)
  | deliver (qp : Nat)
  | pollCQ
  | recvMsg

def init (cfg : RdmaCfg) (a b : NodeId) (isServer : Bool) : SplitNet :=
  { sender := .init cfg a !isServer, receiver := .init cfg b isServer }

def post (s : SplitNet) (uid : Nat) (out : Posted) : SplitNet :=
  { s with chan := fun q => s.chan q ++ (out.filter (·.1 = q)).map fun p => (uid, p.2) }

def step (cfg : RdmaCfg) (s : SplitNet) : Action → Option SplitNet
  | .announce req => do
    let (van, _) ← s.receiver.sendRendezvousReply cfg s.sender.id req
    return { s with receiver := van }
  | .send buf t msg => do
    guard (msg.msgMeta.push = msg.msgMeta.request)
    guard (buf.inlineLen = (getPackMetaLen msg.msgMeta).toNat)
    guard ((s.receiver.addrPool.table t.idx).map (·.metaBuffer) = some t.metaAddr)
    let van ← s.sender.registerMemory msg
    let (van, out) ← ((van.setMsgBuf t.msgBuf buf).refill cfg t msg).sendByKind cfg s.receiver.id msg t
      s.sent.length
    return { { s with sender := van }.post s.sent.length out with sent := s.sent ++ [msg] }
  | .deliver q => do
    let (_, wr) ← (s.chan q)[s.arrived q]?
    let (van, wc) := s.receiver.receive s.sender.ram wr
    return { s with
      receiver := van
      arrived := Function.update s.arrived q (s.arrived q + 1)
      cq := s.cq ++ wc.toList }
  | .pollCQ => do
    let wc :: rest := s.cq | none
    let (van, _) ← s.receiver.pollCQ cfg s.sender.id wc
    return { s with receiver := van, cq := rest }
  | .recvMsg => do
    let (van, note, _) ← s.receiver.recvMsg cfg
    return { s with receiver := van, popped := s.popped ++ [note.uid] }

/-- The pieces of the payload of a message. -/
def pieces (s : SplitNet) (u : Nat) : List (RemoteAddr × Nat × Nat) :=
  (s.chan 0 ++ s.chan 1).filterMap fun p => if p.1 = u then p.2.piece else none

/-- Everything that was posted for a message has arrived. -/
def Whole (s : SplitNet) (u : Nat) : Prop :=
  ∀ q i wr, (s.chan q)[i]? = some (u, wr) → i < s.arrived q

/-- The completion counts as the arrival of a chunk. -/
def countsAsChunk : Completion → Bool
  | .recvImm imm _ => imm &&& 0x8000 ≠ 0
  | _ => false

/-- The buffer has the meta of message `u` or of a later one; `arrived` requests of queue pair 0 have
arrived. -/
structure Written (cfg : RdmaCfg) (arrived : Nat) (b : Buf) (u : Nat) : Prop where
  le : 2 * u + 2 ≤ arrived
  stamped : Stamped cfg b (u + 1)

/-- Request `i` of queue pair 0: the first chunk of a message, or its meta. -/
def Master (cfg : RdmaCfg) (van : RdmaVan) (i u : Nat) (wr : WorkRequest) : Prop :=
  (i = 2 * u ∧ ∃ dst src len, wr = .write dst src len ∧ dst.Behind) ∨
    (i = 2 * u + 1 ∧ ∃ bytes idx ctx, wr = .writeImm ctx.metaBuffer bytes idx u ∧
      van.addrPool.table idx = some ctx ∧ ∀ b : Buf, Stamped cfg (b.store 0 bytes) (u + 1))

/-- A request of another queue pair. -/
def IsChunk (wr : WorkRequest) : Prop :=
  ∃ dst src len imm, wr = .writeChunkImm dst src len imm ∧ dst.Behind ∧ imm &&& 0x8000 ≠ 0

structure Inv (cfg : RdmaCfg) (s : SplitNet) : Prop where
  ok : VanOk cfg s.receiver
  count : ∀ q < cfg.qpNum, s.sender.qpPktCount s.receiver.id q = s.sent.length
  master_length : (s.chan 0).length = 2 * s.sent.length
  master : ∀ i u wr, (s.chan 0)[i]? = some (u, wr) → Master cfg s.receiver i u wr
  slave_length : cfg.qpNum = 2 → (s.chan 1).length = s.sent.length
  slave : ∀ (q i u : Nat) wr, q ≠ 0 → (s.chan q)[i]? = some (u, wr) →
    q = 1 ∧ cfg.qpNum = 2 ∧ u = i ∧ IsChunk wr
  chunks : ∀ u msg, s.sent[u]? = some msg → payloadLen msg < 2 ^ 31 → Covers (s.pieces u) (payloadLen msg)
  arrivals : s.receiver.incomingPktCount s.sender.id 1 + s.cq.countP countsAsChunk ≤ s.arrived 1
  cq : ∀ wc ∈ s.cq, ∃ imm uid, wc = .recvImm imm uid ∧ ∀ u, uid = some u →
    ∃ ctx, s.receiver.addrPool.table imm = some ctx ∧ Written cfg (s.arrived 0) (s.receiver.mem ctx.metaBuffer) u
  recv : ∀ n ∈ s.receiver.recvBuffers, n.endpoint = s.sender.id ∧
    n.ctx.metaBuffer < s.receiver.nextBlock ∧
    Written cfg (s.arrived 0) (s.receiver.mem n.ctx.metaBuffer) n.uid
  popped : ∀ u ∈ s.popped, 2 * u + 2 ≤ s.arrived 0 ∧ (cfg.qpNum = 2 → u < s.arrived 1)

/-! ### Steps -/

variable {s s' : SplitNet}

theorem inv_init (a b : NodeId) (isServer : Bool) : Inv cfg (init cfg a b isServer) where
  ok := VanOk.init b isServer
  count _ _ := rfl
  master_length := rfl
  master _ _ _ h := by simp [init] at h
  slave_length _ := rfl
  slave _ _ _ _ _ h := by simp [init] at h
  chunks _ _ h := by simp [init] at h
  arrivals := Nat.le_refl 0
  cq _ h := by simp [init] at h
  recv _ h := by simp [init, RdmaVan.init] at h
  popped _ h := by simp [init] at h

theorem inv_announce {req : RendezvousStart} (h : Inv cfg s)
    (hs : step cfg s (.announce req) = some s') : Inv cfg s' := by
  obtain ⟨⟨van, out⟩, hreply, hs⟩ := Option.bind_eq_some_iff.mp hs
  obtain rfl := Option.some.inj hs
  have hok := h.ok.sendRendezvousReply hreply
  obtain ⟨ctx, resp, pool, -, -, -, hpool, -, -, ⟨m, g, rfl⟩, -⟩ := sendRendezvousReply_eq_some hreply
  obtain ⟨rest, -, hnone, rfl⟩ := AddressPool.storeAddress_eq_some.mp hpool
  have htable : ∀ {idx c}, s.receiver.addrPool.table idx = some c →
      Function.update s.receiver.addrPool.table resp.idx (some ctx) idx = some c := by
    intro idx c hc
    rw [Function.update_of_ne (fun heq => by rw [heq, hnone] at hc; cases hc), hc]
  have hmem : ∀ {blk}, blk < s.receiver.nextBlock →
      Function.update s.receiver.mem s.receiver.nextBlock (fun _ => 0) blk = s.receiver.mem blk :=
    fun hlt => Function.update_of_ne (Nat.ne_of_lt hlt) ..
  refine ⟨hok, h.count, h.master_length, fun i u wr hi => ?_, h.slave_length, h.slave, h.chunks, h.arrivals,
    fun wc hwc => ?_, fun n hn => ?_, h.popped⟩
  · rcases h.master i u wr hi with hdata | ⟨hi, bytes, idx, c, hwr, hc, hst⟩
    · exact .inl hdata
    · exact .inr ⟨hi, bytes, idx, c, hwr, htable hc, hst⟩
  · obtain ⟨imm, uid, rfl, hnote⟩ := h.cq wc hwc
    refine ⟨imm, uid, rfl, fun u hu => ?_⟩
    obtain ⟨c, hc, hw⟩ := hnote u hu
    exact ⟨c, htable hc, by rwa [← hmem (h.ok.pool imm c hc).2] at hw⟩
  · obtain ⟨hep, hlt, hw⟩ := h.recv n hn
    exact ⟨hep, Nat.lt_succ_of_lt hlt, by rwa [← hmem hlt] at hw⟩

theorem step_send_eq_some {buf : MessageBuffer} {msg : Message} (hm : cfg.multiQp = true)
    (hq : cfg.qpNum ≤ 2) (hp : 0 < cfg.pagesize) (hlen : packedLen msg.msgMeta < 2 ^ 31)
    (hsent : s.sent.length + 1 < 2 ^ 64)
    (hcount : ∀ q < cfg.qpNum, s.sender.qpPktCount s.receiver.id q = s.sent.length)
    (hs : step cfg s (.send buf t msg) = some s') :
    ∃ van dst src first chunk bytes idx ctx, dst.Behind ∧
      (payloadLen msg < 2 ^ 31 → payloadLen msg = first + if cfg.qpNum = 2 then chunk else 0) ∧
      s.receiver.addrPool.table idx = some ctx ∧
      (∀ b : Buf, Stamped cfg (b.store 0 bytes) (s.sent.length + 1)) ∧ van.id = s.sender.id ∧
      (∀ q < cfg.qpNum, van.qpPktCount s.receiver.id q = s.sent.length + 1) ∧
      s' = { s with
        sender := van
        sent := s.sent ++ [msg]
        chan := fun q => s.chan q ++
          if q = 0 then [(s.sent.length, .write dst src first),
            (s.sent.length, .writeImm ctx.metaBuffer bytes idx s.sent.length)]
          else if q = 1 ∧ cfg.qpNum = 2 then
            [(s.sent.length, .writeChunkImm (dst.add first) (src + first) chunk (idx ||| 0x8000))]
          else [] } := by
  obtain ⟨_, hkind, hs⟩ := Option.bind_eq_some_iff.mp hs
  obtain ⟨_, hinline, hs⟩ := Option.bind_eq_some_iff.mp hs
  obtain ⟨_, hann, hs⟩ := Option.bind_eq_some_iff.mp hs
  obtain ⟨van₀, hreg, hs⟩ := Option.bind_eq_some_iff.mp hs
  obtain ⟨⟨van, out⟩, hsend, hs⟩ := Option.bind_eq_some_iff.mp hs
  obtain rfl := Option.some.inj hs
  replace hkind := (Option.guard_eq_some' _).mp hkind
  replace hinline := (Option.guard_eq_some' _).mp hinline
  obtain ⟨ctx, hctx, hblk⟩ := Option.map_eq_some_iff.mp ((Option.guard_eq_some' _).mp hann)
  obtain ⟨m, n, rfl⟩ := sameButMrs_registerMemory hreg
  generalize hvan₁ : RdmaVan.refill cfg (RdmaVan.setMsgBuf _ t.msgBuf buf) t msg = van₁ at hsend
  have hlen₁ : RawMeta.size ≤ (van₁.msgBufs t.msgBuf).inlineLen := by
    have : (van₁.msgBufs t.msgBuf).inlineLen = packedLen msg.msgMeta := by
      rw [← Int.toNat_natCast (packedLen _), ← getPackMetaLen_eq hlen, ← hinline, ← hvan₁]
      simp [RdmaVan.refill, setMsgBuf, MessageBuffer.pack, MessageBuffer.setData]
    rw [this, packedLen]
    omega
  have hcount₁ : van₁.qpPktCount = s.sender.qpPktCount := by rw [← hvan₁]; rfl
  have hid₁ : van₁.id = s.sender.id := by rw [← hvan₁]; rfl
  rcases sendByKind_eq_some hsend with ⟨hne, -⟩ | ⟨-, dst, src, hdst, heq⟩
  · exact absurd hkind hne
  obtain ⟨first, chunk, hcut, hpost⟩ :=
    writePayload_split hm hq van₁ s.receiver.id t dst src (payloadLen msg) s.sent.length
  obtain ⟨rfl, rfl⟩ := Prod.mk.inj (heq.trans hpost)
  have hst := stamped_countPackets hq van₁ s.receiver.id t.msgBuf hsent
    (fun q hq => by rw [hcount₁, hcount q hq])
  refine ⟨van₁.countPackets cfg s.receiver.id t.msgBuf, dst, src, first, chunk,
    ((van₁.countPackets cfg s.receiver.id t.msgBuf).msgBufs t.msgBuf).inlineBuf.load 0
      (van₁.msgBufs t.msgBuf).inlineLen,
    t.idx, ctx, hdst hp hlen₁, hcut, hctx, fun b => hst.congr ?_, hid₁, fun q hq => ?_, ?_⟩
  · intro i hi
    rw [store_load_apply, if_pos (by omega)]
    simp
  · simp [countPackets, setMsgBuf, hq, hcount₁, hcount q hq]
  · have hwrite : (van₁.countPackets cfg s.receiver.id t.msgBuf).rdmaWriteWithImm t s.sent.length =
        (0, .writeImm ctx.metaBuffer (((van₁.countPackets cfg s.receiver.id t.msgBuf).msgBufs
          t.msgBuf).inlineBuf.load 0 (van₁.msgBufs t.msgBuf).inlineLen) t.idx s.sent.length) := by
      rw [hblk]
      simp [rdmaWriteWithImm, countPackets, setMsgBuf]
    rw [hwrite]
    dsimp only [post]
    congr 1
    funext q
    congr 1
    by_cases hq0 : q = 0
    · subst hq0
      by_cases hq2 : cfg.qpNum = 2 <;> simp [hq2]
    · by_cases hq1 : q = 1
      · subst hq1
        by_cases hq2 : cfg.qpNum = 2 <;> simp [hq2]
      · by_cases hq2 : cfg.qpNum = 2 <;> simp [hq2, hq0, hq1, Ne.symm hq0, Ne.symm hq1]

theorem Inv.lt_of_listed (h : Inv cfg s) {q i u : Nat} {wr : WorkRequest}
    (hi : (s.chan q)[i]? = some (u, wr)) : u < s.sent.length := by
  have hlt := (List.getElem?_eq_some_iff.mp hi).1
  rcases Nat.eq_zero_or_pos q with rfl | hpos
  · rw [h.master_length] at hlt
    rcases h.master i u wr hi with ⟨rfl, -⟩ | ⟨rfl, -⟩ <;> omega
  · obtain ⟨rfl, hq, rfl, -⟩ := h.slave q i u wr hpos.ne' hi
    rwa [h.slave_length hq] at hlt

theorem Inv.filterMap_piece_length (h : Inv cfg s) (q : Nat) :
    (s.chan q).filterMap (fun p => if p.1 = s.sent.length then p.2.piece else none) = [] := by
  rw [List.filterMap_eq_nil_iff]
  intro p hp
  obtain ⟨i, hi⟩ := List.getElem?_of_mem hp
  rw [if_neg (Nat.ne_of_lt (h.lt_of_listed hi))]

/-- The new requests are behind all others, the new message has the next number. -/
theorem inv_send {buf : MessageBuffer} {msg : Message} (hm : cfg.multiQp = true) (hq : cfg.qpNum ≤ 2)
    (hp : 0 < cfg.pagesize) (hlen : packedLen msg.msgMeta < 2 ^ 31) (hsent : s.sent.length + 1 < 2 ^ 64)
    (h : Inv cfg s) (hs : step cfg s (.send buf t msg) = some s') : Inv cfg s' := by
  obtain ⟨van, dst, src, first, chunk, bytes, idx, ctx, hdst, hcut, hctx, hst, hid, hcount, rfl⟩ :=
    step_send_eq_some hm hq hp hlen hsent h.count hs
  refine ⟨h.ok, ?_, ?_, fun i u wr hi => ?_, fun hq2 => ?_, fun q i u wr hq0 hi => ?_, fun u msg' hu hl => ?_,
    ?_, h.cq, ?_, h.popped⟩
  · simpa using hcount
  · simp [h.master_length, Nat.mul_add]
  · dsimp only at hi
    rw [if_pos rfl, List.getElem?_append, h.master_length] at hi
    split_ifs at hi with hlt
    · exact h.master i u wr hi
    · obtain ⟨j, rfl⟩ := Nat.exists_eq_add_of_le (Nat.not_lt.mp hlt)
      rw [Nat.add_sub_cancel_left] at hi
      match j, hi with
      | 0, hi =>
        obtain ⟨rfl, rfl⟩ : s.sent.length = u ∧ WorkRequest.write dst src first = wr := by simpa using hi
        exact .inl ⟨rfl, dst, src, first, rfl, hdst⟩
      | 1, hi =>
        obtain ⟨rfl, rfl⟩ : s.sent.length = u ∧
          WorkRequest.writeImm ctx.metaBuffer bytes idx s.sent.length = wr := by simpa using hi
        exact .inr ⟨rfl, bytes, idx, ctx, rfl, hctx, hst⟩
  · simp [hq2, h.slave_length hq2]
  · dsimp only at hi
    rw [if_neg hq0, List.getElem?_append] at hi
    split_ifs at hi with hlt hq1
    · exact h.slave q i u wr hq0 hi
    · obtain ⟨rfl, hq2⟩ := hq1
      rw [h.slave_length hq2] at hlt hi
      obtain ⟨j, rfl⟩ := Nat.exists_eq_add_of_le (Nat.not_lt.mp hlt)
      rw [Nat.add_sub_cancel_left, List.getElem?_singleton] at hi
      split_ifs at hi with hj
      obtain ⟨rfl, rfl⟩ := Prod.mk.inj (Option.some.inj hi)
      subst hj
      exact ⟨rfl, hq2, rfl, _, _, _, _, rfl, hdst.add _, RdmaVan.or_and_bit15 idx⟩
    · simp at hi
  · rcases List.getElem?_snoc_eq_some hu with hu | ⟨rfl, rfl⟩
    · have hne : s.sent.length ≠ u := (Nat.ne_of_lt (List.getElem?_eq_some_iff.mp hu).1).symm
      have hsame := h.chunks u msg' hu hl
      by_cases hq2 : cfg.qpNum = 2 <;> simpa [pieces, hne, hq2] using hsame
    · have hnew := h.filterMap_piece_length
      rw [hcut hl]
      by_cases hq2 : cfg.qpNum = 2
      · simpa [pieces, hnew, hq2] using covers_two dst src first chunk
      · simpa [pieces, hnew, hq2] using covers_one dst src first
  · simpa [hid] using h.arrivals
  · simpa [hid] using h.recv

theorem Inv.receive (h : Inv cfg s) {mem : Nat → Buf} {ram : Buf} {arrived : Nat → Nat}
    {wcs : List Completion} (harr : ∀ q, s.arrived q ≤ arrived q)
    (hmem : ∀ u blk, Written cfg (s.arrived 0) (s.receiver.mem blk) u → Stamped cfg (mem blk) (u + 1))
    (hcount : s.arrived 1 + wcs.countP countsAsChunk ≤ arrived 1)
    (hcq : ∀ wc ∈ wcs, ∃ imm uid, wc = .recvImm imm uid ∧ ∀ u, uid = some u →
      ∃ ctx, s.receiver.addrPool.table imm = some ctx ∧ Written cfg (arrived 0) (mem ctx.metaBuffer) u) :
    Inv cfg { s with
      receiver := { s.receiver with mem := mem, ram := ram }, arrived := arrived, cq := s.cq ++ wcs } := by
  have hwritten : ∀ {u blk}, Written cfg (s.arrived 0) (s.receiver.mem blk) u →
      Written cfg (arrived 0) (mem blk) u :=
    fun hw => ⟨Nat.le_trans hw.le (harr 0), hmem _ _ hw⟩
  refine ⟨⟨h.ok.inlineLen, h.ok.cache, h.ok.info, h.ok.pool, h.ok.free⟩, h.count, h.master_length, h.master,
    h.slave_length, h.slave, h.chunks, ?_, fun wc hwc => ?_, fun n hn => ?_, fun u hu => ?_⟩
  · have := h.arrivals
    simp only [List.countP_append]
    omega
  · rcases List.mem_append.mp hwc with hwc | hwc
    · obtain ⟨imm, uid, rfl, hnote⟩ := h.cq wc hwc
      refine ⟨imm, uid, rfl, fun u hu => ?_⟩
      obtain ⟨ctx, hctx, hw⟩ := hnote u hu
      exact ⟨ctx, hctx, hwritten hw⟩
    · exact hcq wc hwc
  · obtain ⟨hep, hlt, hw⟩ := h.recv n hn
    exact ⟨hep, hlt, hwritten hw⟩
  · obtain ⟨h0, h1⟩ := h.popped u hu
    exact ⟨Nat.le_trans h0 (harr 0), fun hq => Nat.lt_of_lt_of_le (h1 hq) (harr 1)⟩

theorem writeAt_behind (hdst : dst.Behind) (van : RdmaVan) (bs : List UInt8) : ∃ mem ram,
    van.writeAt dst bs = { van with mem := mem, ram := ram } ∧
      ∀ blk, ∀ i < RawMeta.size, mem blk i = van.mem blk i := by
  cases dst with
  | user addr => exact ⟨van.mem, _, rfl, fun _ _ _ => rfl⟩
  | buffer blk off =>
    refine ⟨_, van.ram, rfl, fun blk' i hi => ?_⟩
    rcases eq_or_ne blk' blk with rfl | hne
    · rw [Function.update_self]
      exact store_of_disjoint (.inl (Nat.lt_of_lt_of_le hi hdst))
    · rw [Function.update_of_ne hne]

theorem inv_deliver {q : Nat} (hpool : cfg.poolSize ≤ 0x8000) (h : Inv cfg s)
    (hs : step cfg s (.deliver q) = some s') : Inv cfg s' := by
  obtain ⟨⟨u, wr⟩, hi, hs⟩ := Option.bind_eq_some_iff.mp hs
  obtain rfl := Option.some.inj hs
  have hmono : ∀ q', s.arrived q' ≤ Function.update s.arrived q (s.arrived q + 1) q' := by
    intro q'
    rcases eq_or_ne q' q with rfl | hne
    · rw [Function.update_self]
      exact Nat.le_succ _
    · rw [Function.update_of_ne hne]
  rcases eq_or_ne q 0 with rfl | hq0
  · rcases h.master _ u wr hi with ⟨-, dst, src, len, rfl, hdst⟩ | ⟨hlast, bytes, idx, ctx, rfl, hctx, hst⟩
    · obtain ⟨mem, ram, heq, hmem⟩ := writeAt_behind hdst s.receiver (s.sender.ram.load src len)
      simp only [heq]
      refine h.receive hmono (fun v blk hw => hw.stamped.congr (hmem blk)) ?_ (by simp)
      simp
    · -- the messages that are notified already are earlier ones
      have hmem : ∀ v blk, Written cfg (s.arrived 0) (s.receiver.mem blk) v → Stamped cfg
          (Function.update s.receiver.mem ctx.metaBuffer
            ((s.receiver.mem ctx.metaBuffer).store 0 bytes) blk) (v + 1) := by
        intro v blk hw
        rcases eq_or_ne blk ctx.metaBuffer with rfl | hne
        · rw [Function.update_self]
          have := hw.le
          exact (hst _).mono (by omega)
        · rw [Function.update_of_ne hne]
          exact hw.stamped
      have hbit := RdmaVan.and_bit15_of_lt (Nat.lt_of_lt_of_le (h.ok.pool idx ctx hctx).1 hpool)
      refine h.receive hmono hmem ?_ fun wc hwc => ?_
      · simp [countsAsChunk, hbit]
      · obtain rfl : wc = .recvImm idx (some u) := by simpa using hwc
        refine ⟨idx, some u, rfl, fun v hv => ⟨ctx, hctx, ?_, ?_⟩⟩
        · obtain rfl := Option.some.inj hv
          rw [Function.update_self]
          omega
        · obtain rfl := Option.some.inj hv
          rw [Function.update_self]
          exact hst _
  · obtain ⟨rfl, -, -, dst, src, len, imm, rfl, hdst, hbit⟩ := h.slave q _ u wr hq0 hi
    obtain ⟨mem, ram, heq, hmem⟩ := writeAt_behind hdst s.receiver (s.sender.ram.load src len)
    simp only [heq]
    refine h.receive hmono (fun v blk hw => hw.stamped.congr (hmem blk)) ?_ fun wc hwc => ?_
    · simp [countsAsChunk, hbit]
    · obtain rfl : wc = .recvImm imm none := by simpa using hwc
      exact ⟨imm, none, rfl, fun v hv => nomatch hv⟩

theorem inv_pollCQ (h : Inv cfg s) (hs : step cfg s .pollCQ = some s') : Inv cfg s' := by
  rw [step] at hs
  split at hs
  · rename_i wc rest hcq
    obtain ⟨⟨van, out⟩, hpoll, hs⟩ := Option.bind_eq_some_iff.mp hs
    obtain rfl := Option.some.inj hs
    have hrest : ∀ wc' ∈ rest, wc' ∈ s.cq := fun wc' hwc => hcq ▸ List.mem_cons_of_mem _ hwc
    have harr := h.arrivals
    obtain ⟨imm, uid, rfl, hnote⟩ := h.cq wc (hcq ▸ List.mem_cons_self)
    obtain ⟨van₁, himm, heq⟩ := Option.map_eq_some_iff.mp hpoll
    obtain ⟨rfl, rfl⟩ := Prod.mk.inj heq
    have hok := h.ok.recvImm himm
    rw [hcq, List.countP_cons] at harr
    rcases recvImm_eq_some himm with ⟨hbit, rfl⟩ | ⟨hbit, ctx, u, hctx, rfl, rfl⟩
    · refine ⟨hok, h.count, h.master_length, h.master, h.slave_length, h.slave, h.chunks, ?_,
        fun wc hwc => h.cq wc (hrest wc hwc), h.recv, h.popped⟩
      have := Nat.mod_le (s.receiver.incomingPktCount s.sender.id 1 + 1) (2 ^ 64)
      simp only [countsAsChunk, hbit, ne_eq, not_false_eq_true, decide_true, if_true] at harr
      simp only [Function.update_self]
      omega
    · obtain ⟨ctx', hctx', hw⟩ := hnote u rfl
      obtain rfl : ctx = ctx' := Option.some.inj (hctx.symm.trans hctx')
      refine ⟨hok, h.count, h.master_length, h.master, h.slave_length, h.slave, h.chunks, ?_,
        fun wc hwc => h.cq wc (hrest wc hwc), fun n hn => ?_, h.popped⟩
      · exact Nat.le_trans (Nat.add_le_add_left (Nat.le_add_right ..) _) harr
      · rcases List.mem_append.mp hn with hn | hn
        · exact h.recv n hn
        · obtain rfl := List.mem_singleton.mp hn
          exact ⟨rfl, (h.ok.pool imm ctx hctx).2, hw⟩
  · cases hs

/-- The chunks that the meta waits for include that of the message. -/
theorem inv_recvMsg (h : Inv cfg s) (hs : step cfg s .recvMsg = some s') : Inv cfg s' := by
  obtain ⟨⟨van, note, msg⟩, hrecv, hs⟩ := Option.bind_eq_some_iff.mp hs
  obtain rfl := Option.some.inj hs
  obtain ⟨rest, m, hbufs, rfl, hslaves, -, -⟩ := recvMsg_eq_some hrecv
  have hrest : ∀ n ∈ rest, n ∈ s.receiver.recvBuffers := fun n hn => hbufs ▸ List.mem_cons_of_mem _ hn
  refine ⟨⟨h.ok.inlineLen, h.ok.cache, h.ok.info, h.ok.pool, h.ok.free⟩, h.count, h.master_length, h.master,
    h.slave_length, h.slave, h.chunks, h.arrivals, h.cq, fun n hn => h.recv n (hrest n hn), fun u hu => ?_⟩
  rcases List.mem_append.mp hu with hu | hu
  · exact h.popped u hu
  · obtain rfl := List.mem_singleton.mp hu
    obtain ⟨hep, -, hw⟩ := h.recv note (hbufs ▸ List.mem_cons_self)
    refine ⟨hw.le, fun hq => ?_⟩
    have hcount := hw.stamped.le_of_slavesArrived hq hslaves
    have := h.arrivals
    rw [hep] at hcount
    show note.uid < s.arrived 1
    omega

theorem Inv.whole (h : Inv cfg s) {u : Nat} (hu : u ∈ s.popped) : s.Whole u := by
  obtain ⟨h0, h1⟩ := h.popped u hu
  intro q i wr hi
  rcases Nat.eq_zero_or_pos q with rfl | hpos
  · rcases h.master i u wr hi with ⟨rfl, -⟩ | ⟨rfl, -⟩ <;> omega
  · obtain ⟨rfl, hq, rfl, -⟩ := h.slave q i u wr hpos.ne' hi
    exact h1 hq

/-! ### Runs -/

def Action.msgs : Action → List Message
  | .send _ _ msg => [msg]
  | _ => []

theorem step_sent {a : Action} (hs : step cfg s a = some s') : s'.sent = s.sent ++ a.msgs := by
  cases a with
  | announce req =>
    obtain ⟨_, -, hs⟩ := Option.bind_eq_some_iff.mp hs
    obtain rfl := Option.some.inj hs
    exact (List.append_nil _).symm
  | send buf t msg =>
    obtain ⟨_, -, hs⟩ := Option.bind_eq_some_iff.mp hs
    obtain ⟨_, -, hs⟩ := Option.bind_eq_some_iff.mp hs
    obtain ⟨_, -, hs⟩ := Option.bind_eq_some_iff.mp hs
    obtain ⟨_, -, hs⟩ := Option.bind_eq_some_iff.mp hs
    obtain ⟨_, -, hs⟩ := Option.bind_eq_some_iff.mp hs
    obtain rfl := Option.some.inj hs
    rfl
  | deliver q =>
    obtain ⟨_, -, hs⟩ := Option.bind_eq_some_iff.mp hs
    obtain rfl := Option.some.inj hs
    exact (List.append_nil _).symm
  | pollCQ =>
    rw [step] at hs
    split at hs
    · obtain ⟨_, -, hs⟩ := Option.bind_eq_some_iff.mp hs
      obtain rfl := Option.some.inj hs
      exact (List.append_nil _).symm
    · cases hs
  | recvMsg =>
    obtain ⟨_, -, hs⟩ := Option.bind_eq_some_iff.mp hs
    obtain rfl := Option.some.inj hs
    exact (List.append_nil _).symm

/-- The length of a meta is an `int` and a packet counter a `uint64_t`. -/
structure Fits (s : SplitNet) : Prop where
  metas : ∀ msg ∈ s.sent, packedLen msg.msgMeta < 2 ^ 31
  count : s.sent.length < 2 ^ 64

theorem Inv.step (hm : cfg.multiQp = true) (hq : cfg.qpNum ≤ 2) (hp : 0 < cfg.pagesize)
    (hpool : cfg.poolSize ≤ 0x8000) (h : Inv cfg s) (hfit : s'.Fits) {a : Action}
    (hs : step cfg s a = some s') : Inv cfg s' := by
  cases a with
  | announce req => exact inv_announce h hs
  | send buf t msg =>
    have hsent : s'.sent = s.sent ++ [msg] := step_sent hs
    refine inv_send hm hq hp (hfit.metas msg ?_) ?_ h hs
    · rw [hsent]
      exact List.mem_append_right _ List.mem_cons_self
    · have := hfit.count
      rwa [hsent, List.length_append] at this
  | deliver q => exact inv_deliver hpool h hs
  | pollCQ => exact inv_pollCQ h hs
  | recvMsg => exact inv_recvMsg h hs

/-- The chunks of every payload make it up, and every message that has been let through is whole. -/
theorem split_messages_whole (cfg : RdmaCfg) (hm : cfg.multiQp = true) (hq : cfg.qpNum ≤ 2)
    (hp : 0 < cfg.pagesize) (hpool : cfg.poolSize ≤ 0x8000) (a b : NodeId) (isServer : Bool)
    {as : List Action} {s : SplitNet} (hrun : Run.exec (step cfg) (init cfg a b isServer) as = some s)
    (hfit : s.Fits) :
    (∀ u msg, s.sent[u]? = some msg → payloadLen msg < 2 ^ 31 →
      Covers (s.pieces u) (payloadLen msg)) ∧ ∀ u ∈ s.popped, s.Whole u := by
  have hinv : s.Fits → Inv cfg s := by
    refine Run.exec_invariant (fun s => s.Fits → Inv cfg s) (fun t a t' ih hstep hfit => ?_)
      (fun _ => inv_init a b isServer) hrun
    have hsent := step_sent hstep
    refine Inv.step hm hq hp hpool (ih ⟨fun msg hmsg => hfit.metas msg ?_, ?_⟩) hfit hstep
    · rw [hsent]
      exact List.mem_append_left _ hmsg
    · have := hfit.count
      rw [hsent, List.length_append] at this
      omega
  exact ⟨(hinv hfit).chunks, fun u hu => (hinv hfit).whole hu⟩

/-! ### Two messages -/

def splitCfg (poolSize : Nat) : RdmaCfg := { gdr := false, multiQp := true, poolSize := poolSize }

/-- A push of four bytes to node 8: keys, values and lengths. -/
def splitPush : Message :=
  { msgMeta := { request := true, push := true, recver := 8, valLen := 4 }
    data := [{ size := 8 }, { ptr := 64, size := 4 }, { size := 4 }] }

def splitStart : RendezvousStart :=
  { metaLen := 288, dataLen := [8, 4, 4], originAddr := 0, key := 7 }

/-- The push to the buffer of a pool index; buffer `idx` is the one announced with it. -/
def splitSend (idx : Nat) : Action :=
  .send { inlineLen := 288, mrs := [(⟨64, 4, 1⟩, 4)] } ⟨idx, 0, idx, 0⟩ splitPush

/-- One push, whose second chunk arrives before its meta. -/
theorem split_messages_whole_sample : ∃ s,
    Run.exec (step (splitCfg 10240)) (init (splitCfg 10240) 9 8 true) [.announce splitStart, splitSend 0,
        .deliver 0, .deliver 1, .deliver 0, .pollCQ, .pollCQ, .recvMsg] = some s ∧
      s.popped = [0] ∧ Covers (s.pieces 0) 4 ∧ s.Whole 0 := by
  have heval : (Run.exec (step (splitCfg 10240)) (init (splitCfg 10240) 9 8 true) [.announce splitStart,
      splitSend 0, .deliver 0, .deliver 1, .deliver 0, .pollCQ, .pollCQ, .recvMsg]).map
      (fun s => (s.popped, s.sent)) = some ([0], [splitPush]) := by decide +kernel
  obtain ⟨s, hrun, hs⟩ := Option.map_eq_some_iff.mp heval
  obtain ⟨hpop, hsent⟩ := Prod.mk.inj hs
  have hfit : s.Fits := by
    constructor
    · rw [hsent, List.forall_mem_singleton]
      decide
    · rw [hsent]
      decide
  have hwhole := split_messages_whole (splitCfg 10240) rfl (by decide) (by decide) (by decide) 9 8 true hrun
    hfit
  exact ⟨s, hrun, hpop, hwhole.1 0 splitPush (by rw [hsent]; rfl) (by decide), hwhole.2 0 (by simp [hpop])⟩

/-- Node 8 after `n` announcements. -/
def announced (poolSize n : Nat) : RdmaVan :=
  { RdmaVan.init (splitCfg poolSize) 8 true with
    nextBlock := n
    addrPool :=
      { table := fun idx => if idx < n then
          some { metaBuffer := idx, metaLen := 288, dataNum := 3, origin := (9, 0) } else none
        indices := List.range' n (poolSize - n) } }

theorem exec_announce (poolSize n : Nat) (hn : n ≤ poolSize) :
    Run.exec (step (splitCfg poolSize)) (init (splitCfg poolSize) 9 8 true)
      (List.replicate n (.announce splitStart)) =
      some { init (splitCfg poolSize) 9 8 true with receiver := announced poolSize n } := by
  induction n with
  | zero =>
    have hrange : List.range poolSize = List.range' 0 poolSize := List.range_eq_range'
    simp [init, announced, RdmaVan.init, AddressPool.init, splitCfg, hrange]
  | succ n ih =>
    rw [List.replicate_succ', Run.exec_snoc_eq_some]
    refine ⟨_, ih (Nat.le_of_succ_le hn), ?_⟩
    obtain ⟨k, hk⟩ : ∃ k, poolSize - n = k + 1 := ⟨poolSize - n - 1, by omega⟩
    have hk' : poolSize - (n + 1) = k := by omega
    have hstore : (announced poolSize n).addrPool.storeAddress
        { metaBuffer := n, metaLen := 288, dataNum := 3, origin := (9, 0) } =
        some (n, (announced poolSize (n + 1)).addrPool) := by
      rw [AddressPool.storeAddress_eq_some]
      refine ⟨List.range' (n + 1) k, by simp [announced, hk, List.range'_succ], by simp [announced], ?_⟩
      simp only [announced, hk', AddressPool.mk.injEq, and_true]
      funext idx
      rcases Nat.lt_trichotomy idx n with hlt | rfl | hlt
      · rw [Function.update_of_ne (Nat.ne_of_lt hlt), if_pos hlt, if_pos (Nat.lt_succ_of_lt hlt)]
      · rw [Function.update_self, if_pos (Nat.lt_succ_self _)]
      · rw [Function.update_of_ne (Nat.ne_of_gt hlt), if_neg (Nat.not_lt_of_gt hlt), if_neg (by omega)]
    have hreply : (announced poolSize n).sendRendezvousReply (splitCfg poolSize) 9 splitStart =
        some (announced poolSize (n + 1), [(0, .rendezvousReply
          { metaAddr := n, dataAddr := 0, originAddr := 0, idx := n })]) := by
      show ((announced poolSize n).addrPool.storeAddress
        { metaBuffer := n, metaLen := 288, dataNum := 3, origin := (9, 0) }).bind _ = _
      rw [hstore]
      simp [announced, RdmaVan.init, splitStart]
    show ((announced poolSize n).sendRendezvousReply (splitCfg poolSize) 9 splitStart).bind _ = _
    rw [hreply]
    rfl

/-- Message 0 goes to the buffer with index `0x8000`; its notification is counted, so that message 1 is let
through before its second chunk has arrived. -/
def earlyRun : List Action :=
  List.replicate 0x8001 (.announce splitStart) ++ [splitSend 0x8000, splitSend 0, .deliver 0, .deliver 0,
    .deliver 1, .pollCQ, .pollCQ, .deliver 0, .deliver 0, .pollCQ, .recvMsg]

theorem let_through_early : ∃ s,
    Run.exec (step (splitCfg 0x8001)) (init (splitCfg 0x8001) 9 8 true) earlyRun = some s ∧
      1 ∈ s.popped ∧ ¬ s.Whole 1 := by
  have heval : (Run.exec (step (splitCfg 0x8001))
      { init (splitCfg 0x8001) 9 8 true with receiver := announced 0x8001 0x8001 }
      [splitSend 0x8000, splitSend 0, .deliver 0, .deliver 0, .deliver 1, .pollCQ, .pollCQ, .deliver 0,
        .deliver 0, .pollCQ, .recvMsg]).map (fun s => (s.popped, s.arrived 1, (s.chan 1)[1]?.map (·.1))) =
      some ([1], 1, some 1) := by decide +kernel
  obtain ⟨s, hrun, hs⟩ := Option.map_eq_some_iff.mp heval
  obtain ⟨hpop, harr, hchan⟩ : s.popped = [1] ∧ s.arrived 1 = 1 ∧ (s.chan 1)[1]?.map (·.1) = some 1 := by
    simpa using hs
  refine ⟨s, ?_, by simp [hpop], fun hwhole => ?_⟩
  · rw [earlyRun, Run.exec_append, exec_announce _ _ (Nat.le_refl _), Option.bind_some, hrun]
  · obtain ⟨⟨u, wr⟩, hlisted, rfl⟩ := Option.map_eq_some_iff.mp hchan
    have := hwhole 1 1 wr hlisted
    omega

end SplitNet

end StepMesh
