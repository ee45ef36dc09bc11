import StepMesh.RdmaNet
import StepMesh.RdmaVanSpec
import StepMesh.CodecRoundTrip

/-!
# What a node keeps

A message that waits for a rendezvous lies packed in its buffer: `VanOk`, kept by every function of a
node. What counts of a packed meta is its head, the bytes before the packet counters (`headOf`); it does
not depend on what the buffer held before. A data message is decoded from it up to the body and the data
types, which come later and are read by nobody (`header_eq`).
-/

namespace StepMesh

open Buf

/-! ### Packed metas -/

/-- The bytes of a buffer before the packet counters. -/
def headOf (b : Buf) : Buf := fun i => if i < metaEnd then b i else 0

def metaHead (cfg : RdmaCfg) (m : Meta) : Buf := headOf (packMeta cfg.qpNum m fun _ => 0)

/-- The head that bytes written to the start of a buffer give it. -/
def bytesHead (bytes : List UInt8) : Buf := headOf (Buf.store (fun _ => 0) 0 bytes)

/-- The buffer holds the meta, as packed, up to the packet counters. -/
def Holds (cfg : RdmaCfg) (m : Meta) (b : Buf) : Prop := headOf b = metaHead cfg m

variable {cfg : RdmaCfg}

theorem headOf_congr {b b' : Buf} (h : ∀ i < metaEnd, b i = b' i) : headOf b = headOf b' := by
  funext i
  unfold headOf
  split_ifs with hi
  · exact h i hi
  · rfl

theorem eq_of_headOf_eq {b b' : Buf} (h : headOf b = headOf b') {i : Nat} (hi : i < metaEnd) : b i = b' i := by
  have := congrFun h i
  rwa [headOf, headOf, if_pos hi, if_pos hi] at this

theorem packNode_congr {b b' : Buf} {i : Nat} (h : b i = b' i) (o : Nat) (n : Node) :
    packNode b o n i = packNode b' o n i := by
  unfold packNode storePadded bzero
  iterate 18 apply store_congr
  exact h

theorem packNodes_congr {i : Nat} (ns : List Node) (b b' : Buf) (h : b i = b' i) (o : Nat) :
    packNodes b o ns i = packNodes b' o ns i := by
  induction ns generalizing b b' o with
  | nil => exact h
  | cons n ns ih => exact ih _ _ (packNode_congr h o n) _

theorem packBody_congr {b b' : Buf} {i : Nat} (h : b i = b' i) (m : Meta) :
    packBody m b i = packBody m b' i := by
  unfold packBody
  split_ifs
  · exact store_congr (store_congr h)
  · exact h

theorem packControl_congr {b b' : Buf} {i : Nat} (h : b i = b' i) (m : Meta) :
    packControl m b i = packControl m b' i := by
  unfold packControl
  split_ifs
  · exact packNodes_congr _ _ _ (store_congr (store_congr (store_congr h))) _
  · exact packNodes_congr _ _ _ (store_congr (store_congr (store_congr h))) _
  · exact packNodes_congr _ _ _ (store_congr (store_congr h)) _
  · exact store_congr h

theorem packMeta_congr {i : Nat} (hi : i < RawMeta.size) (qpNum : Nat) (m : Meta) (b b' : Buf) :
    packMeta qpNum m b i = packMeta qpNum m b' i := by
  have hzero : b.bzero 0 RawMeta.size i = b'.bzero 0 RawMeta.size i := by
    simp [bzero, store, hi]
  unfold packMeta
  iterate 12 refine store_congr ?_
  refine packControl_congr ?_ m
  iterate 10 refine store_congr ?_
  refine packBody_congr ?_ m
  iterate 3 refine store_congr ?_
  exact hzero

theorem holds_packMeta (cfg : RdmaCfg) (m : Meta) (b : Buf) : Holds cfg m (packMeta cfg.qpNum m b) :=
  headOf_congr fun _ hi => packMeta_congr (Nat.lt_trans hi (by decide)) _ m b _

theorem Holds.congr {m : Meta} {b b' : Buf} (h : Holds cfg m b) (heq : ∀ i < metaEnd, b' i = b i) :
    Holds cfg m b' :=
  (headOf_congr heq).trans h

theorem Holds.bytesHead {m : Meta} {b : Buf} {bytes : List UInt8} (h : Holds cfg m b)
    (heq : ∀ i < metaEnd, bytes[i]? = some (b i)) : bytesHead bytes = metaHead cfg m := by
  refine (headOf_congr fun i hi => ?_).trans h
  simp [Buf.store, heq i hi]

theorem headOf_store {bytes : List UInt8} (h : metaEnd ≤ bytes.length) (b : Buf) :
    headOf (b.store 0 bytes) = bytesHead bytes := by
  refine headOf_congr fun i hi => ?_
  have hi' : i < bytes.length := Nat.lt_of_lt_of_le hi h
  simp [Buf.store, hi']

/-! ### Decoding a head -/

/-- The fields of a meta that lie in its head. -/
structure Header where
  head : Int
  appId : Int
  customerId : Int
  timestamp : Int
  request : Bool
  push : Bool
  simpleApp : Bool
  cmd : Command
  key : Key
  addr : UInt64
  valLen : Int
  option : Int
  sid : Int
  isTensor : Int
  dtype : Int
  shape : List Int
deriving DecidableEq, Repr

def Meta.header (m : Meta) : Header where
  head := m.head
  appId := m.appId
  customerId := m.customerId
  timestamp := m.timestamp
  request := m.request
  push := m.push
  simpleApp := m.simpleApp
  cmd := m.control.cmd
  key := m.key
  addr := m.addr
  valLen := m.valLen
  option := m.option
  sid := m.sid
  isTensor := m.isTensor
  dtype := m.dtype
  shape := m.shape

/-- The fields of a data message fit their types; of the control part only the command is packed. -/
def Fits (m : Meta) : Prop := Packable { m with control := {} }

theorem load_eq_of_headOf_eq {b b' : Buf} (h : headOf b = headOf b') {o n : Nat} (hn : o + n ≤ metaEnd) :
    b.load o n = b'.load o n :=
  load_congr fun _ _ hi => eq_of_headOf_eq h (by omega)

/-- Where the fields of a header lie, apart from the shape, and how long they are. -/
def headFields : List (Nat × Nat) :=
  [(RawMeta.head, 4), (RawMeta.appId, 4), (RawMeta.customerId, 4), (RawMeta.timestamp, 4), (RawMeta.request, 1),
    (RawMeta.push, 1), (RawMeta.simpleApp, 1), (RawMeta.controlCmd, 4), (RawMeta.key, 8), (RawMeta.addr, 8),
    (RawMeta.valLen, 4), (RawMeta.option, 4), (RawMeta.sid, 4), (RawMeta.isTensor, 4), (RawMeta.dtype, 4)]

theorem header_congr {b b' : Buf} {len len' : Nat} {m m' : Meta} (h : headOf b = headOf b')
    (hm : unpackMeta b len = some m) (hm' : unpackMeta b' len' = some m') (hshape : m'.shape.length ≤ 8) :
    m.header = m'.header := by
  simp only [unpackMeta, Option.pure_def, Option.bind_eq_bind, Option.bind_eq_some_iff, Option.some.injEq] at hm hm'
  obtain ⟨_, -, rfl⟩ := hm
  obtain ⟨_, -, rfl⟩ := hm'
  have hload : ∀ {o n : Nat}, o + n ≤ metaEnd → b.load o n = b'.load o n := load_eq_of_headOf_eq h
  have hdim := hload (o := RawMeta.dim) (n := 4) (by decide)
  simp only [length_ofIntsBytes] at hshape
  have hbytes := hload (o := RawMeta.shape) (n := 8 * (ofIntBytes 4 (b'.load RawMeta.dim 4)).toNat)
    (by simp only [RawMeta.shape, metaEnd, RawMeta.slaveQpCounter]; omega)
  -- the other fields have fixed places
  have hfield : ∀ f ∈ headFields, b.load f.1 f.2 = b'.load f.1 f.2 :=
    fun f hf => hload ((by decide : ∀ f ∈ headFields, f.1 + f.2 ≤ metaEnd) f hf)
  simp only [headFields, List.forall_mem_cons] at hfield
  simp only [Meta.header, hdim, hbytes, hfield]

/-- The head does not depend on the number of queue pairs. -/
theorem metaHead_eq_two (cfg : RdmaCfg) (m : Meta) : metaHead cfg m = headOf (packMeta 2 m fun _ => 0) := by
  refine headOf_congr fun i hi => ?_
  unfold packMeta
  iterate 4 refine store_congr ?_
  exact (store_of_disjoint (.inl hi)).trans (store_of_disjoint (.inl hi)).symm

theorem metaHead_eq {m : Meta} (hdata : m.control.cmd = .empty) :
    metaHead cfg m = headOf (packMeta 2 { m with control := {} } fun _ => 0) := by
  have hcontrol : packMeta 2 m (fun _ => 0) = packMeta 2 { m with control := {} } fun _ => 0 := by
    simp only [packMeta, packControl, packBody, hdata]
    rfl
  rw [metaHead_eq_two, hcontrol]

theorem Holds.header_eq {m m' : Meta} {b : Buf} {len : Nat} (h : Holds cfg m b) (hdata : m.control.cmd = .empty)
    (hfits : Fits m) (hlen : packedLen m < 2 ^ 31) (hm' : unpackMeta b len = some m') : m'.header = m.header := by
  have hlen' : packedLen { m with control := {} } < 2 ^ 31 := by
    simp only [packedLen] at hlen ⊢
    simp only [List.length_nil]
    omega
  obtain ⟨hunpack, -⟩ := unpackMeta_packMeta 2 (Nat.le_refl 2) _ hfits hlen' fun _ => 0
  refine (header_congr (h.trans (metaHead_eq hdata)) hm' hunpack hfits.shape_length).trans ?_
  simp only [Meta.header, hdata]

theorem Holds.header_eq_of_packable {m m' : Meta} {b : Buf} {len : Nat} (h : Holds cfg m b) (hm : Packable m)
    (hlen : packedLen m < 2 ^ 31) (hm' : unpackMeta b len = some m') : m'.header = m.header := by
  obtain ⟨hunpack, -⟩ := unpackMeta_packMeta 2 (Nat.le_refl 2) m hm hlen fun _ => 0
  exact (header_congr (h.trans (metaHead_eq_two cfg m)) hm' hunpack hm.shape_length).trans rfl

/-! ### What each node keeps -/

/-- A message that waits lies packed in its buffer, a known address belongs to a message buffer whose
message has been written, and the entries of the pool have buffers of their own. -/
structure VanOk (cfg : RdmaCfg) (van : RdmaVan) : Prop where
  inlineLen : ∀ i < van.nextBuf, RawMeta.size ≤ (van.msgBufs i).inlineLen
  cache : ∀ i u m, van.msgbufCache i = some (u, m) →
    i < van.nextBuf ∧ Holds cfg m.msgMeta (van.msgBufs i).inlineBuf
  info : ∀ key push recver t, van.remoteInfo key push recver = some t →
    t.msgBuf < van.nextBuf ∧ van.msgbufCache t.msgBuf = none
  pool : ∀ idx ctx, van.addrPool.table idx = some ctx →
    idx < cfg.poolSize ∧ ctx.metaBuffer < van.nextBlock
  free : ∀ idx ∈ van.addrPool.indices, idx < cfg.poolSize

namespace VanOk

open RdmaVan

variable {van van' : RdmaVan} {m : Message} {t : RemoteTuple} {uid : Nat} {out : Posted} {ep : NodeId}

theorem init (id : NodeId) (isServer : Bool) : VanOk cfg (RdmaVan.init cfg id isServer) where
  inlineLen _ h := absurd h (Nat.not_lt_zero _)
  cache _ _ _ h := nomatch h
  info _ push _ _ h := by cases push <;> cases h
  pool _ _ h := nomatch h
  free _ h := List.mem_range.mp h

theorem of_core (h : VanOk cfg van) (hcore : van'.core = van.core) : VanOk cfg van' := by
  have hpush : van'.pushAddr = van.pushAddr := congrArg VanCore.pushAddr hcore
  have hpull : van'.pullAddr = van.pullAddr := congrArg VanCore.pullAddr hcore
  have hbufs : van'.msgBufs = van.msgBufs := congrArg VanCore.msgBufs hcore
  have hnext : van'.nextBuf = van.nextBuf := congrArg VanCore.nextBuf hcore
  have hcache : van'.msgbufCache = van.msgbufCache := congrArg VanCore.msgbufCache hcore
  have hpool : van'.addrPool = van.addrPool := congrArg VanCore.addrPool hcore
  have hblk : van'.nextBlock = van.nextBlock := congrArg VanCore.nextBlock hcore
  constructor
  · simpa only [hnext, hbufs] using h.inlineLen
  · simpa only [hnext, hbufs, hcache] using h.cache
  · simpa only [remoteInfo, hpush, hpull, hnext, hcache] using h.info
  · simpa only [hpool, hblk] using h.pool
  · simpa only [hpool] using h.free

/-- A message buffer may change as long as a message that waits in it stays packed. -/
theorem setMsgBuf (h : VanOk cfg van) (i : Nat) (buf : MessageBuffer)
    (hlen : RawMeta.size ≤ buf.inlineLen)
    (hcache : ∀ u m, van.msgbufCache i = some (u, m) → Holds cfg m.msgMeta buf.inlineBuf) :
    VanOk cfg (van.setMsgBuf i buf) where
  inlineLen j hj := by
    rcases eq_or_ne j i with rfl | hne
    · simpa [RdmaVan.setMsgBuf] using hlen
    · simpa [RdmaVan.setMsgBuf, hne] using h.inlineLen j hj
  cache j u m hj := by
    refine ⟨(h.cache j u m hj).1, ?_⟩
    rcases eq_or_ne j i with rfl | hne
    · simpa [RdmaVan.setMsgBuf] using hcache u m hj
    · simpa [RdmaVan.setMsgBuf, hne] using (h.cache j u m hj).2
  info := h.info
  pool := h.pool
  free := h.free

theorem sent (h : VanOk cfg van) (ht : t.msgBuf < van.nextBuf) (hs : Sent van t uid van' out) :
    VanOk cfg van' := by
  obtain ⟨b, bytes, hb, -, hcore, -⟩ := hs
  have hok : VanOk cfg (van.withInline t.msgBuf b) :=
    h.setMsgBuf _ _ (h.inlineLen _ ht) fun u m hc => (h.cache _ u m hc).2.congr hb
  exact hok.of_core hcore

theorem sendFirst (h : VanOk cfg van) (hlen : RawMeta.size ≤ (getPackMetaLen m.msgMeta).toNat)
    (hs : van.sendFirst cfg m uid = some (van', out)) : VanOk cfg van' := by
  obtain ⟨mrs, req, rfl, -, -⟩ := sendFirst_eq_some hs
  constructor
  · intro i hi
    rcases eq_or_ne i van.nextBuf with rfl | hne
    · simpa [storeMsgBuf, RdmaVan.setMsgBuf, prepareNewMsgBuf, MessageBuffer.pack] using hlen
    · have : i < van.nextBuf := Nat.lt_of_le_of_ne (Nat.le_of_lt_succ hi) hne
      simpa [storeMsgBuf, RdmaVan.setMsgBuf, hne] using h.inlineLen i this
  · intro i u m' hi
    rcases eq_or_ne i van.nextBuf with rfl | hne
    · obtain ⟨rfl, rfl⟩ : uid = u ∧ m = m' := by simpa [storeMsgBuf] using hi
      refine ⟨Nat.lt_succ_self _, ?_⟩
      simpa [storeMsgBuf, RdmaVan.setMsgBuf, prepareNewMsgBuf, MessageBuffer.pack] using
        holds_packMeta cfg m.msgMeta _
    · have hi' : van.msgbufCache i = some (u, m') := by simpa [storeMsgBuf, hne] using hi
      refine ⟨Nat.lt_succ_of_lt (h.cache i u m' hi').1, ?_⟩
      simpa [storeMsgBuf, RdmaVan.setMsgBuf, hne] using (h.cache i u m' hi').2
  · intro key push recver t ht
    obtain ⟨hlt, hnone⟩ := h.info key push recver t ht
    refine ⟨Nat.lt_succ_of_lt hlt, ?_⟩
    simpa [storeMsgBuf, Nat.ne_of_lt hlt] using hnone
  · exact h.pool
  · exact h.free

theorem refill (h : VanOk cfg van) (ht : t.msgBuf < van.nextBuf)
    (hnone : van.msgbufCache t.msgBuf = none) : VanOk cfg (van.refill cfg t m) :=
  h.setMsgBuf _ _ (h.inlineLen _ ht) fun u m hc => by rw [hnone] at hc; cases hc

theorem recvReply {resp : RendezvousReply} (h : VanOk cfg van) (hp : 0 < cfg.pagesize)
    (hs : van.recvReply cfg ep resp = some (van', out)) : VanOk cfg van' := by
  obtain ⟨⟨uid, m⟩, hcache, -⟩ := Option.bind_eq_some_iff.mp hs
  have hlt := (h.cache _ uid m hcache).1
  obtain ⟨uid', m', hcache', van₁, ⟨b, bytes, hb, -, hcore, -⟩, rfl⟩ :=
    recvReply_eq_some hp (h.inlineLen _ hlt) hs
  obtain ⟨pushAddr, pullAddr, hst⟩ := storeRemoteAndLocalInfo_frame van m' resp.remoteTuple
  have hinfo : ∀ key push recver,
      (van.storeRemoteAndLocalInfo m' resp.remoteTuple).remoteInfo key push recver = _ :=
    remoteInfo_storeRemoteAndLocalInfo
  rw [hst] at hcore hinfo hb
  -- the address is stored and the message released; then only the packet counters change
  have hok : VanOk cfg (RdmaVan.releaseFirstMsg { van with
      pushAddr := pushAddr, pullAddr := pullAddr } resp.originAddr) := by
    refine ⟨h.inlineLen, fun i u m hi => ?_, fun key push recver t ht => ?_, h.pool, h.free⟩
    · rcases eq_or_ne i resp.originAddr with rfl | hne
      · simp [releaseFirstMsg] at hi
      · exact h.cache i u m (by simpa [releaseFirstMsg, hne] using hi)
    · replace ht := (hinfo key push recver).symm.trans ht
      split_ifs at ht
      · obtain rfl := Option.some.inj ht
        exact ⟨hlt, Function.update_self ..⟩
      · obtain ⟨hlt', hnone⟩ := h.info key push recver t ht
        have hne : t.msgBuf ≠ resp.originAddr := by
          rintro heq
          rw [heq, hcache] at hnone
          cases hnone
        exact ⟨hlt', by simpa [releaseFirstMsg, hne] using hnone⟩
  have hbuf := hok.setMsgBuf resp.originAddr
    { van.msgBufs resp.originAddr with inlineBuf := b } (h.inlineLen _ hlt)
    (fun u m hc => by simp [releaseFirstMsg] at hc)
  refine hbuf.of_core ?_
  exact congrArg (fun c : VanCore => { c with
    msgbufCache := Function.update c.msgbufCache resp.originAddr none }) hcore

theorem sendRendezvousReply {req : RendezvousStart} (h : VanOk cfg van)
    (hs : van.sendRendezvousReply cfg ep req = some (van', out)) : VanOk cfg van' := by
  obtain ⟨ctx, resp, pool, hblk, -, -, hpool, -, -, ⟨m, g, rfl⟩, -⟩ := sendRendezvousReply_eq_some hs
  obtain ⟨rest, hidx, -, rfl⟩ := AddressPool.storeAddress_eq_some.mp hpool
  refine ⟨h.inlineLen, h.cache, h.info, fun idx c hc => ?_, fun idx hi => ?_⟩
  · have hc' : Function.update van.addrPool.table resp.idx (some ctx) idx = some c := hc
    rcases eq_or_ne idx resp.idx with rfl | hne
    · obtain rfl : ctx = c := by simpa using hc'
      exact ⟨h.free _ (by simp [hidx]), hblk ▸ Nat.lt_succ_self _⟩
    · rw [Function.update_of_ne hne] at hc'
      exact ⟨(h.pool idx c hc').1, Nat.lt_succ_of_lt (h.pool idx c hc').2⟩
  · exact h.free idx (by rw [hidx]; exact List.mem_cons_of_mem _ hi)

theorem recvImm {imm : Nat} {u : Option Nat} (h : VanOk cfg van)
    (hs : van.recvImm ep imm u = some van') : VanOk cfg van' := by
  rcases recvImm_eq_some hs with ⟨-, rfl⟩ | ⟨-, ctx, u, -, -, rfl⟩
  · exact ⟨h.inlineLen, h.cache, h.info, h.pool, h.free⟩
  · exact ⟨h.inlineLen, h.cache, h.info, h.pool, h.free⟩

theorem receive (h : VanOk cfg van) (ram : Buf) (wr : WorkRequest) :
    VanOk cfg (van.receive ram wr).1 := by
  have hwrite : ∀ dst bs, VanOk cfg (van.writeAt dst bs) := by
    intro dst bs
    cases dst <;> exact ⟨h.inlineLen, h.cache, h.info, h.pool, h.free⟩
  cases wr with
  | rendezvousStart req => exact h
  | rendezvousReply resp => exact h
  | write dst src len => exact hwrite _ _
  | writeImm blk bytes imm uid => exact hwrite (.buffer blk 0) bytes
  | writeChunkImm dst src len imm => exact hwrite _ _

end VanOk

end StepMesh
