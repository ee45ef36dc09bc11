import Mathlib.Data.Nat.Bitwise
import Mathlib.Data.Option.Basic
import StepMesh.RdmaVan

/-!
# What the functions of an RDMA van change

One lemma per function of `RdmaVan.lean`, in terms of the `core` of the node: what later steps of the
protocol read. Registered memory, packet counters and device allocations are not part of it.

Every meta is packed into the buffer of its message and copied from there. `metaEnd` is where the packet
counters start, which a split payload changes after packing; nothing before it does change.
-/

namespace StepMesh

open Buf

/-- The part of a node that the protocol is about. -/
structure VanCore where
  id : NodeId
  pushAddr : Key → NodeId → Option RemoteTuple
  pullAddr : Key → NodeId → Option RemoteTuple
  msgBufs : Nat → MessageBuffer
  nextBuf : Nat
  msgbufCache : Nat → Option (Nat × Message)
  mem : Nat → Buf
  nextBlock : Nat
  addrPool : AddressPool BufferContext
  recvBuffers : List Notification

/-- Up to here a packed meta stays as it was packed. -/
def metaEnd : Nat := RawMeta.slaveQpCounter

/-- An address that a meta, which is written from the start of a buffer, does not reach. -/
def RemoteAddr.Behind : RemoteAddr → Prop
  | .buffer _ off => RawMeta.size ≤ off
  | .user _ => True

theorem RemoteAddr.Behind.add {dst : RemoteAddr} (h : dst.Behind) (n : Nat) : (dst.add n).Behind := by
  cases dst with
  | buffer blk off => exact Nat.le_add_right_of_le h
  | user addr => trivial

/-- A write of a payload. -/
def WorkRequest.IsPayload : WorkRequest → Prop
  | .write dst _ _ => dst.Behind
  | .writeChunkImm dst _ _ _ => dst.Behind
  | _ => False

namespace RdmaVan

variable {cfg : RdmaCfg} {van van' : RdmaVan} {msg m : Message} {t : RemoteTuple} {ep : NodeId}
  {out : Posted} {uid : Nat}

def core (van : RdmaVan) : VanCore where
  id := van.id
  pushAddr := van.pushAddr
  pullAddr := van.pullAddr
  msgBufs := van.msgBufs
  nextBuf := van.nextBuf
  msgbufCache := van.msgbufCache
  mem := van.mem
  nextBlock := van.nextBlock
  addrPool := van.addrPool
  recvBuffers := van.recvBuffers

/-! ### Registering memory -/

/-- Only the registrations change. -/
def SameButMrs (van van' : RdmaVan) : Prop :=
  ∃ (memMr : (addr : Nat) → Option (MrAt addr)) (mrCount : Nat),
    van' = { van with memMr := memMr, mrCount := mrCount }

theorem sameButMrs_register (van : RdmaVan) (addr length : Nat) :
    SameButMrs van (van.register addr length) := by
  unfold register
  split_ifs
  · exact ⟨_, _, rfl⟩
  · exact ⟨van.memMr, van.mrCount, rfl⟩

theorem sameButMrs_registerData (van : RdmaVan) (c : Nat) (data : List SArray) :
    SameButMrs van (van.registerData c data) := by
  induction data generalizing van c with
  | nil => exact ⟨van.memMr, van.mrCount, rfl⟩
  | cons sa data ih =>
    rw [registerData]
    split_ifs
    · exact ih van c
    · obtain ⟨m, n, heq⟩ := sameButMrs_register van sa.ptr sa.size
      obtain ⟨m', n', heq'⟩ := ih (van.register sa.ptr sa.size) (c + 1)
      exact ⟨m', n', heq'.trans (by rw [heq])⟩
    · exact ih van (c + 1)

theorem core_registerData (van : RdmaVan) (c : Nat) (data : List SArray) :
    (van.registerData c data).core = van.core := by
  obtain ⟨m, n, heq⟩ := sameButMrs_registerData van c data
  rw [heq]
  rfl

theorem sameButMrs_registerMemory (h : van.registerMemory msg = some van') : SameButMrs van van' := by
  obtain ⟨m, n, hdata⟩ := sameButMrs_registerData van 0 msg.data
  simp only [registerMemory, guard, Option.pure_def, Option.bind_eq_bind] at h
  split_ifs at h
  · simp only [Option.bind_some, Option.some.injEq] at h
    obtain ⟨m', n', heq⟩ := sameButMrs_register (van.registerData 0 msg.data)
      msg.msgMeta.addr.toNat msg.msgMeta.valLen.toNat
    exact ⟨m', n', by rw [← h, heq, hdata]⟩
  · cases h
  · exact ⟨m, n, (Option.some.inj h).symm.trans hdata⟩

theorem addMeta_eq_some (h : van.addMeta msg = some m) :
    (msg.msgMeta.request = true → msg.data ≠ []) ∧ ∃ option,
      m = { msg with msgMeta := { msg.msgMeta with key := messageKey msg, option := option } } ∧
        (FitsInt 4 msg.msgMeta.option → FitsInt 4 option) := by
  obtain ⟨_, hg, h⟩ := Option.bind_eq_some_iff.mp h
  obtain ⟨option, ho, h⟩ := Option.bind_eq_some_iff.mp h
  obtain rfl := Option.some.inj h
  refine ⟨by simpa [guard] using hg, option, rfl, ?_⟩
  split_ifs at ho
  · obtain ⟨mr, -, rfl⟩ := Option.map_eq_some_iff.mp ho
    exact fun _ => fitsInt_bmod _
  · obtain rfl := Option.some.inj ho
    exact fun h => h

/-! ### Writing -/

/-- `out` writes a meta of number `uid` to the address of the tuple, and payloads. -/
def Writes (t : RemoteTuple) (bytes : List UInt8) (uid : Nat) (out : Posted) : Prop :=
  out.filterMap (·.2.signal .notify) = [uid] ∧
    ∀ p ∈ out, p = (0, .writeImm t.metaAddr bytes t.idx uid) ∨ p.2.IsPayload

theorem foldl_store_of_lt {i : Nat} (hi : i < metaEnd) (f : Nat → List UInt8) (qs : List Nat) (b : Buf) :
    qs.foldl (fun b q => b.store (RawMeta.slaveQpCounter + 8 * q) (f q)) b i = b i := by
  induction qs generalizing b with
  | nil => rfl
  | cons q qs ih =>
    rw [List.foldl_cons, ih]
    exact store_of_disjoint (.inl (Nat.lt_add_right _ hi))

/-- The message buffer of `t` with other packet counters. -/
def withInline (van : RdmaVan) (msgBuf : Nat) (b : Buf) : RdmaVan :=
  van.setMsgBuf msgBuf { van.msgBufs msgBuf with inlineBuf := b }

theorem withInline_self (van : RdmaVan) (msgBuf : Nat) :
    van.withInline msgBuf (van.msgBufs msgBuf).inlineBuf = van := by
  simp [withInline, setMsgBuf]

theorem core_countPackets (cfg : RdmaCfg) (van : RdmaVan) (ep : NodeId) (msgBuf : Nat) :
    ∃ b : Buf, (∀ i < metaEnd, b i = (van.msgBufs msgBuf).inlineBuf i) ∧
      (van.countPackets cfg ep msgBuf).core = (van.withInline msgBuf b).core := by
  refine ⟨_, fun i hi => ?_, rfl⟩
  rw [foldl_store_of_lt hi]
  exact store_of_disjoint (.inl (Nat.lt_trans hi (by decide)))

/-- The message buffer of the tuple holds a meta of full length. -/
def Packed (van : RdmaVan) (t : RemoteTuple) : Prop := RawMeta.size ≤ (van.msgBufs t.msgBuf).inlineLen

theorem rdmaWriteWithImm_eq (h : Packed van t) (uid : Nat) : ∃ bytes,
    van.rdmaWriteWithImm t uid = (0, .writeImm t.metaAddr bytes t.idx uid) ∧
      ∀ i < metaEnd, bytes[i]? = some ((van.msgBufs t.msgBuf).inlineBuf i) := by
  refine ⟨_, rfl, fun i hi => ?_⟩
  have : i < (van.msgBufs t.msgBuf).inlineLen :=
    Nat.lt_of_lt_of_le hi (Nat.le_trans (by decide) h)
  simp [load, this]

/-- After a payload write or a plain one: other packet counters, the meta of the message buffer posted. -/
def Sent (van : RdmaVan) (t : RemoteTuple) (uid : Nat) (van' : RdmaVan) (out : Posted) : Prop :=
  ∃ (b : Buf) (bytes : List UInt8), (∀ i < metaEnd, b i = (van.msgBufs t.msgBuf).inlineBuf i) ∧
    (∀ i < metaEnd, bytes[i]? = some ((van.msgBufs t.msgBuf).inlineBuf i)) ∧
    van'.core = (van.withInline t.msgBuf b).core ∧ Writes t bytes uid out

theorem data_of_sent (h : Sent van t uid van' out) (i : Nat) : (van'.msgBufs i).data = (van.msgBufs i).data := by
  obtain ⟨b, -, -, -, hcore, -⟩ := h
  have hbufs : van'.msgBufs = (van.withInline t.msgBuf b).msgBufs := congrArg VanCore.msgBufs hcore
  rw [hbufs]
  rcases eq_or_ne i t.msgBuf with rfl | hi
  · simp [withInline, setMsgBuf]
  · simp [withInline, setMsgBuf, hi]

theorem sent_rdmaWriteWithImm (h : Packed van t) : Sent van t uid van [van.rdmaWriteWithImm t uid] := by
  obtain ⟨bytes, heq, hbytes⟩ := rdmaWriteWithImm_eq h uid
  refine ⟨_, bytes, fun _ _ => rfl, hbytes, by rw [withInline_self], ?_⟩
  rw [heq]
  exact ⟨rfl, by simp⟩

theorem sent_writePayload {dst : RemoteAddr} {src len : Nat} (h : Packed van t) (hdst : dst.Behind) :
    Sent van t uid (van.writePayload cfg ep t dst src len uid).1
      (van.writePayload cfg ep t dst src len uid).2 := by
  unfold writePayload
  split_ifs
  · obtain ⟨b, hb, hcore⟩ := core_countPackets cfg van ep t.msgBuf
    have hbuf : (van.countPackets cfg ep t.msgBuf).msgBufs t.msgBuf =
        { van.msgBufs t.msgBuf with inlineBuf := b } := by
      have := congrArg VanCore.msgBufs hcore
      exact (congrFun this t.msgBuf).trans (by simp [core, withInline, setMsgBuf])
    have hpacked : Packed (van.countPackets cfg ep t.msgBuf) t := by rw [Packed, hbuf]; exact h
    obtain ⟨bytes, heq, hbytes⟩ := rdmaWriteWithImm_eq hpacked uid
    refine ⟨b, bytes, hb, fun i hi => ?_, hcore, ?_⟩
    · rw [hbytes i hi, hbuf]
      exact congrArg some (hb i hi)
    · dsimp only
      rw [heq]
      constructor
      · simp [WorkRequest.signal]
      · intro p hp
        simp only [List.cons_append, List.nil_append, List.mem_cons, List.mem_map, List.mem_range] at hp
        rcases hp with rfl | rfl | ⟨k, -, rfl⟩
        · exact .inr hdst
        · exact .inl rfl
        · exact .inr (hdst.add _)
  · obtain ⟨bytes, heq, hbytes⟩ := rdmaWriteWithImm_eq h uid
    refine ⟨_, bytes, fun _ _ => rfl, hbytes, by rw [withInline_self], ?_⟩
    dsimp only
    rw [heq]
    refine ⟨rfl, fun p hp => ?_⟩
    simp only [List.mem_cons, List.not_mem_nil, or_false] at hp
    rcases hp with rfl | rfl
    · exact .inr hdst
    · exact .inl rfl

/-- The length of the payload of a push request or a pull response. -/
def payloadLen (msg : Message) : Nat :=
  if msg.msgMeta.push then ((msg.data[1]?).getD ({} : SArray)).size else msg.msgMeta.valLen.toNat

/-- A push request and a pull response write a payload, the other two kinds write the meta only. -/
theorem sendByKind_eq_some (hsend : van.sendByKind cfg ep msg t uid = some (van', out)) :
    (msg.msgMeta.push ≠ msg.msgMeta.request ∧ (van', out) = (van, [van.rdmaWriteWithImm t uid])) ∨
      (msg.msgMeta.push = msg.msgMeta.request ∧ ∃ dst src,
        (0 < cfg.pagesize → Packed van t → dst.Behind) ∧
        (van', out) = van.writePayload cfg ep t dst src (payloadLen msg) uid) := by
  have hplain : van.send t uid = some (van', out) →
      (van', out) = (van, [van.rdmaWriteWithImm t uid]) := by
    intro heq
    obtain ⟨_, -, heq⟩ := Option.bind_eq_some_iff.mp heq
    exact (Option.some.inj heq).symm
  unfold sendByKind at hsend
  split at hsend
  · rename_i hpush hreq
    refine .inr ⟨hpush.trans hreq.symm, ?_⟩
    unfold sendPushRequest at hsend
    dsimp only at hsend
    split at hsend
    · obtain ⟨vals, hvals, hsend⟩ := Option.bind_eq_some_iff.mp hsend
      obtain ⟨_, -, hsend⟩ := Option.bind_eq_some_iff.mp hsend
      have hlen : payloadLen msg = vals.size := by rw [payloadLen, if_pos hpush, hvals, Option.getD_some]
      refine ⟨_, _, fun hp h => ?_, hlen ▸ (Option.some.inj hsend).symm⟩
      split_ifs
      · trivial
      · exact Nat.le_trans h (le_alignCeil hp)
    · cases hsend
  · rename_i hpush hreq
    exact .inl ⟨by simp [hpush, hreq], hplain hsend⟩
  · rename_i hpush hreq
    exact .inl ⟨by simp [hpush, hreq], hplain hsend⟩
  · rename_i hpush hreq
    refine .inr ⟨hpush.trans hreq.symm, ?_⟩
    obtain ⟨vals, -, hsend⟩ := Option.bind_eq_some_iff.mp hsend
    obtain ⟨_, -, hsend⟩ := Option.bind_eq_some_iff.mp hsend
    obtain ⟨_, -, hsend⟩ := Option.bind_eq_some_iff.mp hsend
    obtain ⟨_, hval, hsend⟩ := Option.bind_eq_some_iff.mp hsend
    replace hval := (Option.guard_eq_some' _).mp hval
    have hlen : payloadLen msg = vals.size := by simp [payloadLen, hpush, hval]
    exact ⟨.user msg.msgMeta.addr.toNat, vals.ptr, fun _ _ => trivial, hlen ▸ (Option.some.inj hsend).symm⟩

theorem sent_sendByKind (hp : 0 < cfg.pagesize) (h : Packed van t)
    (hsend : van.sendByKind cfg ep msg t uid = some (van', out)) : Sent van t uid van' out := by
  rcases sendByKind_eq_some hsend with ⟨-, heq⟩ | ⟨-, dst, src, hdst, heq⟩
  · obtain ⟨rfl, rfl⟩ := Prod.mk.inj heq
    exact sent_rdmaWriteWithImm h
  · have hs : Sent van t uid (van.writePayload cfg ep t dst src (payloadLen msg) uid).1
        (van.writePayload cfg ep t dst src (payloadLen msg) uid).2 := sent_writePayload h (hdst hp h)
    rwa [← heq] at hs

/-! ### `SendMsg` -/

theorem prepareData_eq_some {buf buf' : MessageBuffer} (h : van.prepareData msg buf = some buf') :
    ∃ mrs, buf' = { buf with mrs := mrs } := by
  unfold prepareData at h
  split_ifs at h
  · obtain ⟨sa, -, h⟩ := Option.bind_eq_some_iff.mp h
    split_ifs at h
    · exact ⟨_, (Option.some.inj h).symm⟩
    · obtain ⟨mr, -, h⟩ := Option.bind_eq_some_iff.mp h
      exact ⟨_, (Option.some.inj h).symm⟩
  · exact ⟨_, (Option.some.inj h).symm⟩

theorem sendFirst_eq_some (h : van.sendFirst cfg msg uid = some (van', out)) : ∃ mrs req,
    van' = van.storeMsgBuf { prepareNewMsgBuf cfg msg with mrs := mrs } msg uid ∧
      out = [(0, .rendezvousStart req)] ∧ req.originAddr = van.nextBuf := by
  obtain ⟨buf, hbuf, h⟩ := Option.bind_eq_some_iff.mp h
  obtain ⟨req, hreq, h⟩ := Option.bind_eq_some_iff.mp h
  obtain ⟨_, -, hreq⟩ := Option.bind_eq_some_iff.mp hreq
  obtain rfl := Option.some.inj hreq
  obtain ⟨rfl, rfl⟩ := Prod.mk.inj (Option.some.inj h)
  generalize prepareNewMsgBuf cfg msg = new at *
  obtain ⟨mrs, rfl⟩ : ∃ mrs, buf = { new with mrs := mrs } := by
    split_ifs at hbuf
    · exact prepareData_eq_some hbuf
    · exact ⟨new.mrs, (Option.some.inj hbuf).symm⟩
  exact ⟨mrs, _, rfl, rfl, rfl⟩

/-- The message buffer of a tuple with a new message in it. -/
def refill (cfg : RdmaCfg) (van : RdmaVan) (t : RemoteTuple) (msg : Message) : RdmaVan :=
  van.setMsgBuf t.msgBuf (((van.msgBufs t.msgBuf).setData msg.data).pack cfg msg)

theorem sendCached_eq_some (h : van.sendCached cfg msg t uid = some (van', out)) :
    (van.msgBufs t.msgBuf).inlineLen = (getPackMetaLen msg.msgMeta).toNat ∧
      msg.data.length ≤ (van.msgBufs t.msgBuf).data.length ∧
      (van.refill cfg t msg).sendByKind cfg msg.msgMeta.recver msg t uid = some (van', out) := by
  obtain ⟨_, h₁, h⟩ := Option.bind_eq_some_iff.mp h
  obtain ⟨_, h₂, h⟩ := Option.bind_eq_some_iff.mp h
  exact ⟨by simpa [guard] using h₁, by simpa [guard] using h₂, h⟩

theorem data_ne_nil_of_sendCached (h : van.sendCached cfg msg t uid = some (van', out))
    (hpush : msg.msgMeta.push = false) (hreq : msg.msgMeta.request = true → msg.data ≠ []) :
    (van.msgBufs t.msgBuf).data ≠ [] := by
  obtain ⟨-, hlen, hsend⟩ := sendCached_eq_some h
  intro hnil
  have hdata : msg.data = [] := List.eq_nil_of_length_eq_zero (Nat.le_zero.mp (by rwa [hnil] at hlen))
  cases hr : msg.msgMeta.request with
  | true => exact hreq hr hdata
  | false => simp [sendByKind, hpush, hr, sendPullResponse, refill, setMsgBuf, MessageBuffer.pack,
      MessageBuffer.setData, hdata, hnil] at hsend

/-- The message as it is sent: with the key of the message buffers and some option. -/
structure SentAs (msg m : Message) : Prop where
  eq : ∃ option, m = { msg with msgMeta := { msg.msgMeta with
    key := if isValidPushpull msg then messageKey msg else msg.msgMeta.key, option := option } } ∧
    (FitsInt 4 msg.msgMeta.option → FitsInt 4 option)
  request : isValidPushpull msg → msg.msgMeta.request = true → msg.data ≠ []

theorem sendMsg_eq_some {buf : Nat} (h : van.sendMsg cfg msg uid = some (van', out, m, buf)) :
    0 < getPackMetaLen msg.msgMeta ∧ SentAs msg m ∧ ∃ van₀ : RdmaVan, van₀.core = van.core ∧
      (((isValidPushpull m → van.remoteInfo m.msgMeta.key m.msgMeta.push m.msgMeta.recver = none) ∧
          buf = van.nextBuf ∧ van₀.sendFirst cfg m uid = some (van', out)) ∨
        ∃ t, isValidPushpull m ∧
          van.remoteInfo m.msgMeta.key m.msgMeta.push m.msgMeta.recver = some t ∧ buf = t.msgBuf ∧
          van₀.sendCached cfg m t uid = some (van', out)) := by
  obtain ⟨_, hguard, h⟩ := Option.bind_eq_some_iff.mp h
  obtain ⟨van₀, hreg, h⟩ := Option.bind_eq_some_iff.mp h
  obtain ⟨m', hm, h⟩ := Option.bind_eq_some_iff.mp h
  have hcore : van₀.core = van.core := by
    obtain ⟨_, _, rfl⟩ := sameButMrs_registerMemory hreg
    rfl
  have hinfo : ∀ key push recver, van₀.remoteInfo key push recver = van.remoteInfo key push recver := by
    intro key push recver
    rw [remoteInfo, remoteInfo, show van₀.pushAddr = van.pushAddr from congrArg VanCore.pushAddr hcore,
      show van₀.pullAddr = van.pullAddr from congrArg VanCore.pullAddr hcore]
  have hnext : van₀.nextBuf = van.nextBuf := congrArg VanCore.nextBuf hcore
  have hsent : SentAs msg m' := by
    split_ifs at hm with hv
    · obtain ⟨hreq, option, rfl, hopt⟩ := addMeta_eq_some hm
      exact ⟨⟨option, by rw [if_pos hv], hopt⟩, fun _ => hreq⟩
    · obtain rfl := Option.some.inj hm
      exact ⟨⟨msg.msgMeta.option, by rw [if_neg hv], fun h => h⟩, fun hv' => absurd hv' hv⟩
  have hpos : 0 < getPackMetaLen msg.msgMeta := (by simpa [guard] using hguard : _ ∧ _).2
  rcases hc : (if isValidPushpull m' then
      van₀.remoteInfo m'.msgMeta.key m'.msgMeta.push m'.msgMeta.recver else none) with _ | t
  · rw [hc] at h
    obtain ⟨⟨van₁, out₁⟩, hs, heq⟩ := Option.map_eq_some_iff.mp h
    obtain ⟨rfl, rfl, rfl, rfl⟩ : van₁ = van' ∧ out₁ = out ∧ m' = m ∧ van₀.nextBuf = buf := by
      simpa using heq
    refine ⟨hpos, hsent, van₀, hcore, .inl ⟨fun hv => ?_, hnext, hs⟩⟩
    rwa [if_pos hv, hinfo] at hc
  · rw [hc] at h
    obtain ⟨⟨van₁, out₁⟩, hs, heq⟩ := Option.map_eq_some_iff.mp h
    obtain ⟨rfl, rfl, rfl, rfl⟩ : van₁ = van' ∧ out₁ = out ∧ m' = m ∧ t.msgBuf = buf := by
      simpa using heq
    split_ifs at hc with hv
    exact ⟨hpos, hsent, van₀, hcore, .inr ⟨t, hv, by rw [← hinfo, hc], rfl, hs⟩⟩

/-! ### `PollCQ` -/

/-- Only the device allocator changes. -/
def SameButGpu (van van' : RdmaVan) : Prop :=
  ∃ keyToMr nextGpu, van' = { van with keyToMr := keyToMr, nextGpu := nextGpu }

theorem sameButGpu_dataBuffer {req : RendezvousStart} {addr : Nat}
    (h : van.dataBuffer cfg ep req = some (addr, van')) : SameButGpu van van' := by
  have hsame : SameButGpu van van := ⟨van.keyToMr, van.nextGpu, rfl⟩
  have halloc : ∀ size, van.gpuAlloc cfg ep req.key size = some (addr, van') → SameButGpu van van' := by
    intro size hsize
    unfold gpuAlloc at hsize
    split at hsize
    · split_ifs at hsize
      obtain ⟨-, rfl⟩ := Prod.mk.inj (Option.some.inj hsize)
      exact hsame
    · split_ifs at hsize
      obtain ⟨-, rfl⟩ := Prod.mk.inj (Option.some.inj hsize)
      exact ⟨_, _, rfl⟩
  unfold dataBuffer at h
  split_ifs at h
  · obtain ⟨-, rfl⟩ := Prod.mk.inj (Option.some.inj h)
    exact hsame
  · obtain ⟨size, -, h⟩ := Option.bind_eq_some_iff.mp h
    obtain ⟨q, -, h⟩ := Option.bind_eq_some_iff.mp h
    split at h
    · split_ifs at h
      · exact halloc _ h
      · obtain ⟨_, -, h⟩ := Option.bind_eq_some_iff.mp h
        obtain ⟨-, rfl⟩ := Prod.mk.inj (Option.some.inj h)
        exact hsame
    · exact halloc _ h

/-- `SendRendezvousReply`: a fresh buffer is filed in the pool and announced. -/
theorem sendRendezvousReply_eq_some {req : RendezvousStart}
    (h : van.sendRendezvousReply cfg ep req = some (van', out)) :
    ∃ ctx resp pool, ctx.metaBuffer = van.nextBlock ∧ ctx.metaLen = req.metaLen ∧
      ctx.origin = (ep, req.originAddr) ∧
      van.addrPool.storeAddress ctx = some (resp.idx, pool) ∧
      resp.metaAddr = van.nextBlock ∧ resp.originAddr = req.originAddr ∧
      SameButGpu { van.alloc.2 with addrPool := pool } van' ∧ out = [(0, .rendezvousReply resp)] := by
  obtain ⟨_, -, h⟩ := Option.bind_eq_some_iff.mp h
  obtain ⟨⟨dataAddr, van₁⟩, hdata, h⟩ := Option.bind_eq_some_iff.mp h
  obtain ⟨⟨idx, pool⟩, hpool, h⟩ := Option.bind_eq_some_iff.mp h
  obtain ⟨rfl, rfl⟩ := Prod.mk.inj (Option.some.inj h)
  obtain ⟨m, g, rfl⟩ : SameButGpu van.alloc.2 van₁ := by
    split_ifs at hdata
    · exact sameButGpu_dataBuffer hdata
    · obtain ⟨-, rfl⟩ := Prod.mk.inj (Option.some.inj hdata)
      exact ⟨van.keyToMr, van.nextGpu, rfl⟩
  have hpool' : van.addrPool.storeAddress _ = some (idx, pool) := hpool
  exact ⟨_, _, pool, rfl, rfl, rfl, hpool', rfl, rfl, ⟨m, g, rfl⟩, rfl⟩

theorem storeRemoteAndLocalInfo_frame (van : RdmaVan) (m : Message) (t : RemoteTuple) :
    ∃ pushAddr pullAddr, van.storeRemoteAndLocalInfo m t =
      { van with pushAddr := pushAddr, pullAddr := pullAddr } := by
  unfold storeRemoteAndLocalInfo
  split_ifs
  · exact ⟨_, _, rfl⟩
  · exact ⟨_, _, rfl⟩

theorem remoteInfo_storeRemoteAndLocalInfo (key : Key) (push : Bool) (recver : NodeId) :
    (van.storeRemoteAndLocalInfo m t).remoteInfo key push recver =
      if key = m.msgMeta.key ∧ push = m.msgMeta.push ∧ recver = m.msgMeta.recver then some t
      else van.remoteInfo key push recver := by
  unfold storeRemoteAndLocalInfo remoteInfo
  cases push <;> cases hp : m.msgMeta.push <;> by_cases hk : key = m.msgMeta.key <;>
    by_cases hr : recver = m.msgMeta.recver <;> simp [hk, hr]

theorem recvReply_eq_some {resp : RendezvousReply} (hp : 0 < cfg.pagesize)
    (hlen : Packed van resp.remoteTuple) (h : van.recvReply cfg ep resp = some (van', out)) :
    ∃ uid m, van.msgbufCache resp.originAddr = some (uid, m) ∧
      ∃ van₁, Sent (van.storeRemoteAndLocalInfo m resp.remoteTuple) resp.remoteTuple uid van₁ out ∧
        van' = van₁.releaseFirstMsg resp.originAddr := by
  obtain ⟨⟨uid, m⟩, hcache, h⟩ := Option.bind_eq_some_iff.mp h
  obtain ⟨⟨van₁, out₁⟩, hsend, h⟩ := Option.bind_eq_some_iff.mp h
  obtain ⟨rfl, rfl⟩ := Prod.mk.inj (Option.some.inj h)
  refine ⟨uid, m, hcache, van₁, ?_, rfl⟩
  have hbufs : Packed (van.storeRemoteAndLocalInfo m resp.remoteTuple) resp.remoteTuple := by
    unfold storeRemoteAndLocalInfo Packed
    split_ifs <;> exact hlen
  split_ifs at hsend
  · exact sent_sendByKind hp hbufs hsend
  · obtain ⟨rfl, rfl⟩ := Prod.mk.inj (Option.some.inj hsend)
    exact sent_rdmaWriteWithImm hbufs

theorem and_bit15_of_lt {idx : Nat} (h : idx < 0x8000) : idx &&& 0x8000 = 0 := by
  have hbit : idx.testBit 15 = false := Nat.testBit_lt_two_pow h
  rw [show 0x8000 = 2 ^ 15 from rfl, Nat.and_two_pow, hbit]
  rfl

theorem or_and_bit15 (idx : Nat) : (idx ||| 0x8000) &&& 0x8000 ≠ 0 := by
  rw [Nat.and_or_distrib_right, Nat.and_self]
  intro h
  exact absurd (Nat.or_eq_zero_iff.mp h).2 (by decide)

/-- A notification of a main write is filed; a chunk is counted. -/
theorem recvImm_eq_some {imm : Nat} {uid : Option Nat} (h : van.recvImm ep imm uid = some van') :
    (imm &&& 0x8000 ≠ 0 ∧ van' = { van with
        incomingPktCount := Function.update van.incomingPktCount ep
          (Function.update (van.incomingPktCount ep) 1 ((van.incomingPktCount ep 1 + 1) % 2 ^ 64)) }) ∨
      imm &&& 0x8000 = 0 ∧ ∃ ctx u, van.addrPool.table imm = some ctx ∧ uid = some u ∧
        van' = { van with recvBuffers := van.recvBuffers ++ [⟨ep, ctx, 0, u⟩] } := by
  unfold recvImm at h
  dsimp only at h
  split_ifs at h with hbit
  · obtain ⟨ctx, hctx, h⟩ := Option.bind_eq_some_iff.mp h
    obtain ⟨u, hu, h⟩ := Option.bind_eq_some_iff.mp h
    have hcmd : ((imm &&& 0xFFFF) >>> 16) &&& 0xFFFF = 0 := by
      have : imm &&& 0xFFFF ≤ 0xFFFF := Nat.and_le_right
      rw [Nat.shiftRight_eq_div_pow, Nat.div_eq_of_lt (by omega), Nat.zero_and]
    rw [hcmd] at h
    exact .inr ⟨hbit, ctx, u, hctx, hu, (Option.some.inj h).symm⟩
  · obtain rfl := Option.some.inj h
    exact .inl ⟨hbit, rfl⟩

/-! ### `RecvMsg` -/

theorem recvData_meta {ctx : BufferContext} {mt : Meta} (h : van.recvData cfg ctx mt = some msg) :
    msg.msgMeta = mt := by
  unfold recvData at h
  dsimp only at h
  split at h
  · obtain ⟨_, -, h⟩ := Option.bind_eq_some_iff.mp h
    obtain rfl := Option.some.inj h
    rfl
  · obtain rfl := Option.some.inj h
    rfl
  · split_ifs at h
    obtain rfl := Option.some.inj h
    rfl
  · obtain rfl := Option.some.inj h
    rfl

/-- The arrays of a request as `RecvMsg` hands it out: the key, the values of a push, and their length. -/
structure Arrays (msg : Message) : Prop where
  keys : msg.keys = [msg.msgMeta.key]
  push : msg.msgMeta.push = true → ∃ k v l, msg.data = [k, v, l] ∧ msg.lens = [msg.msgMeta.valLen]
  pull : msg.msgMeta.push = false → ∃ k v, msg.data = [k, v]

theorem arrays_of_recvData {ctx : BufferContext} {mt : Meta} (h : van.recvData cfg ctx mt = some msg)
    (hreq : mt.request = true) : Arrays msg := by
  unfold recvData at h
  dsimp only at h
  split at h
  · rename_i hpush _
    obtain ⟨_, -, h⟩ := Option.bind_eq_some_iff.mp h
    obtain rfl := Option.some.inj h
    exact ⟨rfl, fun _ => ⟨_, _, _, rfl, rfl⟩, fun hpull => (by cases hpush.symm.trans hpull)⟩
  · rename_i hpush _
    obtain rfl := Option.some.inj h
    exact ⟨rfl, fun hpull => (by cases hpush.symm.trans hpull), fun _ => ⟨_, _, rfl⟩⟩
  · rename_i hnot
    cases hnot.symm.trans hreq
  · rename_i hnot
    cases hnot.symm.trans hreq

theorem recvMsg_arrays {note : Notification} (h : van.recvMsg cfg = some (van', note, msg))
    (hv : isValidPushpull msg = true) (hreq : msg.msgMeta.request = true) : Arrays msg := by
  unfold recvMsg at h
  split at h
  · obtain ⟨_, -, h⟩ := Option.bind_eq_some_iff.mp h
    obtain ⟨m, -, h⟩ := Option.bind_eq_some_iff.mp h
    dsimp only at h
    split_ifs at h with hvalid hcmd
    · obtain ⟨msg', hdata, h⟩ := Option.bind_eq_some_iff.mp h
      obtain ⟨-, -, rfl⟩ : _ ∧ _ ∧ msg' = msg := by simpa using h
      exact arrays_of_recvData hdata (recvData_meta hdata ▸ hreq)
    · obtain ⟨msg', hdata, h⟩ := Option.bind_eq_some_iff.mp h
      obtain ⟨-, -, rfl⟩ : _ ∧ _ ∧ msg' = msg := by simpa using h
      exact arrays_of_recvData hdata (recvData_meta hdata ▸ hreq)
    · obtain ⟨-, -, rfl⟩ : _ ∧ _ ∧ _ = msg := by simpa using h
      exact absurd hv hvalid
  · cases h

theorem recvMsg_eq_some {note : Notification} (h : van.recvMsg cfg = some (van', note, msg)) :
    ∃ rest m, van.recvBuffers = note :: rest ∧ van' = { van with recvBuffers := rest } ∧
      van.slavesArrived note.endpoint (van.mem note.ctx.metaBuffer) = true ∧
      unpackMeta (van.mem note.ctx.metaBuffer) note.ctx.metaLen = some m ∧
      (note.cmd = 0 → msg.msgMeta = { m with recver := van.id, sender := note.endpoint }) := by
  unfold recvMsg at h
  split at h
  · rename_i note' rest hbufs
    obtain ⟨_, harr, h⟩ := Option.bind_eq_some_iff.mp h
    replace harr := (Option.guard_eq_some' _).mp harr
    obtain ⟨m, hm, h⟩ := Option.bind_eq_some_iff.mp h
    dsimp only at h
    split_ifs at h with hv hcmd
    · obtain ⟨msg', hdata, h⟩ := Option.bind_eq_some_iff.mp h
      obtain ⟨rfl, rfl, rfl⟩ : _ ∧ note' = note ∧ msg' = msg := by simpa using h
      exact ⟨rest, m, hbufs, rfl, harr, hm, fun hz => absurd hz hcmd⟩
    · obtain ⟨msg', hdata, h⟩ := Option.bind_eq_some_iff.mp h
      obtain ⟨rfl, rfl, rfl⟩ : _ ∧ note' = note ∧ msg' = msg := by simpa using h
      exact ⟨rest, m, hbufs, rfl, harr, hm, fun _ => recvData_meta hdata⟩
    · obtain ⟨rfl, rfl, rfl⟩ : _ ∧ note' = note ∧ _ = msg := by simpa using h
      exact ⟨rest, m, hbufs, rfl, harr, hm, fun _ => rfl⟩
  · cases h

end RdmaVan

end StepMesh
