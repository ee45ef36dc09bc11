import StepMesh.RdmaOrder

/-!
# What a step of the RDMA network does

`Acts` lists the steps of the network in terms of the functions of a van, and `acts_of_step` says that there are no
others. With the payloads written in one piece (`cfg.multiQp` is off) a message posts its payload, if it has one,
and then its meta, and nothing else changes at its sender but the message buffer: `Does` lists the steps in these
terms. `Grows` is what no step takes away from a node: message buffers keep their lengths and regions, entries of
the pool and device buffers stay.
-/

namespace StepMesh

open Buf

/-- A message with a payload: a push request or a pull response. -/
def carries (msg : Message) : Bool := isValidPushpull msg && (msg.msgMeta.push == msg.msgMeta.request)

namespace RdmaVan

variable {cfg : RdmaCfg} {van van' : RdmaVan} {msg m : Message} {t : RemoteTuple} {ep : NodeId} {out : Posted}
  {uid : Nat}

/-! ### What is posted in one piece -/

/-- The meta of a message buffer. -/
def metaWrite (buf : MessageBuffer) (t : RemoteTuple) (uid : Nat) : WorkRequest :=
  .writeImm t.metaAddr (buf.inlineBuf.load 0 buf.inlineLen) t.idx uid

/-- What a message posts from its message buffer, by its kind. -/
inductive PostsOf (cfg : RdmaCfg) (buf : MessageBuffer) (msg : Message) (t : RemoteTuple) (uid : Nat) : Posted → Prop
  | plain (hkind : carries msg = false) (hmrs : isValidPushpull msg → buf.mrs = []) :
      PostsOf cfg buf msg t uid [(0, metaWrite buf t uid)]
  | push (hkind : carries msg = true) (hpush : msg.msgMeta.push = true) (mr : Mr) (size : Nat)
      (hmrs : buf.mrs = [(mr, size)]) (hsize : (payload msg).size ≤ size) :
      PostsOf cfg buf msg t uid [(0, .write (payloadAddr cfg buf.inlineLen t) mr.addr ((payload msg).size % 2 ^ 32)),
        (0, metaWrite buf t uid)]
  | pull (hkind : carries msg = true) (hpush : msg.msgMeta.push = false) (hmrs : buf.mrs = []) (vals : SArray)
      (hvals : buf.data[1]? = some vals) (hlen : msg.msgMeta.valLen = vals.size) :
      PostsOf cfg buf msg t uid [(0, .write (.user msg.msgMeta.addr.toNat) vals.ptr (vals.size % 2 ^ 32)),
        (0, metaWrite buf t uid)]

theorem PostsOf.lane {buf : MessageBuffer} (h : PostsOf cfg buf msg t uid out) :
    ∀ p ∈ out, p.1 = 0 ∧ p.2.isReply = false := by
  cases h <;> simp [metaWrite, WorkRequest.isReply]

theorem PostsOf.mark {buf : MessageBuffer} (h : PostsOf cfg buf msg t uid out) {blk imm u : Nat} {bytes : List UInt8}
    (hmem : (0, .writeImm blk bytes imm u) ∈ out) : .writeImm blk bytes imm u = metaWrite buf t uid := by
  cases h <;> simpa using hmem

theorem posts_sendByKind (hqp : cfg.multiQp = false) (hv : isValidPushpull msg = true)
    (h : van.sendByKind cfg ep msg t uid = some (van', out)) :
    van' = van ∧ PostsOf cfg (van.msgBufs t.msgBuf) msg t uid out := by
  have hwrite : ∀ dst src len, van.writePayload cfg ep t dst src len uid =
      (van, [(0, .write dst src (len % 2 ^ 32)), van.rdmaWriteWithImm t uid]) := by
    intro dst src len
    simp [writePayload, hqp]
  have hplain : van.send t uid = some (van', out) → carries msg = false →
      van' = van ∧ PostsOf cfg (van.msgBufs t.msgBuf) msg t uid out := by
    intro hsend hkind
    obtain ⟨_, hmrs, hsend⟩ := Option.bind_eq_some_iff.mp hsend
    obtain ⟨rfl, rfl⟩ := Prod.mk.inj (Option.some.inj hsend)
    exact ⟨rfl, .plain hkind fun _ => (Option.guard_eq_some' _).mp hmrs⟩
  unfold sendByKind at h
  split at h
  · rename_i hpush hreq
    unfold sendPushRequest at h
    dsimp only at h
    split at h
    · rename_i mr size hmrs
      obtain ⟨vals, hvals, h⟩ := Option.bind_eq_some_iff.mp h
      obtain ⟨_, hsize, h⟩ := Option.bind_eq_some_iff.mp h
      have hpay : payload msg = vals := by rw [payload, hvals, Option.getD_some]
      rw [hwrite] at h
      obtain ⟨rfl, rfl⟩ := Prod.mk.inj (Option.some.inj h)
      rw [← hpay] at hsize ⊢
      exact ⟨rfl, .push (by simp [carries, hv, hpush, hreq]) hpush mr size hmrs ((Option.guard_eq_some' _).mp hsize)⟩
    · cases h
  · rename_i hpush hreq
    exact hplain h (by simp [carries, hpush, hreq])
  · rename_i hpush hreq
    exact hplain h (by simp [carries, hpush, hreq])
  · rename_i hpush hreq
    obtain ⟨vals, hvals, h⟩ := Option.bind_eq_some_iff.mp h
    obtain ⟨_, -, h⟩ := Option.bind_eq_some_iff.mp h
    obtain ⟨_, hmrs, h⟩ := Option.bind_eq_some_iff.mp h
    obtain ⟨_, hlen, h⟩ := Option.bind_eq_some_iff.mp h
    rw [hwrite] at h
    obtain ⟨rfl, rfl⟩ := Prod.mk.inj (Option.some.inj h)
    exact ⟨rfl, .pull (by simp [carries, hv, hpush, hreq]) hpush ((Option.guard_eq_some' _).mp hmrs) vals hvals
      ((Option.guard_eq_some' _).mp hlen)⟩

/-! ### Messages -/

/-- The regions of a new message buffer: that of the values of a push request. -/
inductive FirstMrs (msg : Message) : List (Mr × Nat) → Prop
  | none (hkind : (carries msg && msg.msgMeta.push) = false ∨ (payload msg).size = 0) : FirstMrs msg []
  | values (hkind : (carries msg && msg.msgMeta.push) = true) (mr : Mr) (haddr : mr.addr = (payload msg).ptr)
      (hsize : (payload msg).size ≠ 0) : FirstMrs msg [(mr, (payload msg).size)]

theorem firstMrs_prepareData {buf buf' : MessageBuffer} (hdata : buf.data = msg.data) (hmrs : buf.mrs = [])
    (hv : isValidPushpull msg = true) (h : van.prepareData msg buf = some buf') :
    ∃ mrs, buf' = { buf with mrs := mrs } ∧ FirstMrs msg mrs := by
  unfold prepareData at h
  split_ifs at h with hkind
  · obtain ⟨sa, hsa, h⟩ := Option.bind_eq_some_iff.mp h
    have hpay : payload msg = sa := by rw [payload, ← hdata, hsa, Option.getD_some]
    split_ifs at h with hsize
    · obtain rfl := Option.some.inj h
      refine ⟨[], by rw [← hmrs], .none (.inr (by rw [hpay, hsize]))⟩
    · obtain ⟨mr, -, h⟩ := Option.bind_eq_some_iff.mp h
      obtain rfl := Option.some.inj h
      subst hpay
      refine ⟨[(mr.1, (payload msg).size)], by rw [hmrs, List.nil_append], ?_⟩
      have hpair : msg.msgMeta.push = true ∧ msg.msgMeta.request = true := by simpa using hkind
      exact .values (by simp [carries, hv, hpair]) mr.1 mr.2 hsize
  · obtain rfl := Option.some.inj h
    refine ⟨[], by rw [← hmrs], .none (.inl ?_)⟩
    cases hpush : msg.msgMeta.push
    · simp
    · have hreq : msg.msgMeta.request = false := by simpa [hpush] using hkind
      simp [carries, hpush, hreq]

/-- The request for the place of a new message. -/
def startOf (van : RdmaVan) (m : Message) : RendezvousStart where
  metaLen := (getPackMetaLen m.msgMeta).toNat
  dataLen := m.data.map (·.size)
  originAddr := van.nextBuf
  key := m.msgMeta.key

/-- The message buffer of a new message. -/
structure FirstBuf (msg : Message) (buf : MessageBuffer) : Prop where
  inlineLen : buf.inlineLen = (getPackMetaLen msg.msgMeta).toNat
  data : buf.data = msg.data
  mrs : FirstMrs msg buf.mrs

theorem sendFirst_spec (h : van.sendFirst cfg m uid = some (van', out)) :
    ∃ mrs, FirstBuf m { prepareNewMsgBuf cfg m with mrs := mrs } ∧
      van' = van.storeMsgBuf { prepareNewMsgBuf cfg m with mrs := mrs } m uid ∧
      out = [(0, .rendezvousStart (van.startOf m))] := by
  obtain ⟨buf, hbuf, h⟩ := Option.bind_eq_some_iff.mp h
  obtain ⟨req, hreq, h⟩ := Option.bind_eq_some_iff.mp h
  obtain ⟨_, -, hreq⟩ := Option.bind_eq_some_iff.mp hreq
  obtain rfl := Option.some.inj hreq
  obtain ⟨rfl, rfl⟩ := Prod.mk.inj (Option.some.inj h)
  have hnew : (prepareNewMsgBuf cfg m).inlineLen = (getPackMetaLen m.msgMeta).toNat ∧
      (prepareNewMsgBuf cfg m).data = m.data ∧ (prepareNewMsgBuf cfg m).mrs = [] := by
    simp [prepareNewMsgBuf, MessageBuffer.pack]
  generalize prepareNewMsgBuf cfg m = new at *
  obtain ⟨hlen, hdata, hnil⟩ := hnew
  obtain ⟨mrs, rfl, hmrs⟩ : ∃ mrs, buf = { new with mrs := mrs } ∧ FirstMrs m mrs := by
    split_ifs at hbuf with hv
    · exact firstMrs_prepareData hdata hnil hv hbuf
    · obtain rfl := Option.some.inj hbuf
      exact ⟨[], by rw [← hnil], .none (.inl (by simp [carries, hv]))⟩
  exact ⟨mrs, ⟨hlen, hdata, hmrs⟩, rfl, by rw [startOf, ← hlen]⟩

/-- A message asks for a place, or its kind is sent from the message buffer of its route. -/
theorem sendMsg_cases {buf : Nat} (h : van.sendMsg cfg msg uid = some (van', out, m, buf)) :
    SentAs msg m ∧ ∃ van₀, SameButMrs van van₀ ∧
      ((buf = van.nextBuf ∧ (isValidPushpull m → van.remoteInfo m.msgMeta.key m.msgMeta.push m.msgMeta.recver = none) ∧
          ∃ mrs, FirstBuf m { prepareNewMsgBuf cfg m with mrs := mrs } ∧
            van' = van₀.storeMsgBuf { prepareNewMsgBuf cfg m with mrs := mrs } m uid ∧
            out = [(0, .rendezvousStart (van.startOf m))]) ∨
        ∃ t, buf = t.msgBuf ∧ isValidPushpull m = true ∧
          van.remoteInfo m.msgMeta.key m.msgMeta.push m.msgMeta.recver = some t ∧
          (van.msgBufs t.msgBuf).inlineLen = (getPackMetaLen m.msgMeta).toNat ∧
          (van₀.refill cfg t m).sendByKind cfg m.msgMeta.recver m t uid = some (van', out)) := by
  obtain ⟨_, -, h⟩ := Option.bind_eq_some_iff.mp h
  obtain ⟨van₀, hreg, h⟩ := Option.bind_eq_some_iff.mp h
  obtain ⟨m', hm, h⟩ := Option.bind_eq_some_iff.mp h
  have hsame := sameButMrs_registerMemory hreg
  have hsent : SentAs msg m' := by
    split_ifs at hm with hv
    · obtain ⟨hreq, option, rfl, hopt⟩ := addMeta_eq_some hm
      exact ⟨⟨option, by rw [if_pos hv], hopt⟩, fun _ => hreq⟩
    · obtain rfl := Option.some.inj hm
      exact ⟨⟨msg.msgMeta.option, by rw [if_neg hv], fun h => h⟩, fun hv' => absurd hv' hv⟩
  have hinfo : ∀ key push recver, van₀.remoteInfo key push recver = van.remoteInfo key push recver := by
    obtain ⟨_, _, rfl⟩ := hsame
    exact fun _ _ _ => rfl
  have hnext : van₀.nextBuf = van.nextBuf := by
    obtain ⟨_, _, rfl⟩ := hsame
    rfl
  have hbufs : van₀.msgBufs = van.msgBufs := by
    obtain ⟨_, _, rfl⟩ := hsame
    rfl
  rcases hc : (if isValidPushpull m' then
      van₀.remoteInfo m'.msgMeta.key m'.msgMeta.push m'.msgMeta.recver else none) with _ | t
  · rw [hc] at h
    obtain ⟨⟨van₁, out₁⟩, hs, heq⟩ := Option.map_eq_some_iff.mp h
    obtain ⟨rfl, rfl, rfl, rfl⟩ : van₁ = van' ∧ out₁ = out ∧ m' = m ∧ van₀.nextBuf = buf := by simpa using heq
    obtain ⟨mrs, hnew, hvan, hout⟩ := sendFirst_spec hs
    refine ⟨hsent, van₀, hsame, .inl ⟨hnext, fun hv => ?_, mrs, hnew, hvan, ?_⟩⟩
    · rwa [if_pos hv, hinfo] at hc
    · rw [hout, startOf, startOf, hnext]
  · rw [hc] at h
    obtain ⟨⟨van₁, out₁⟩, hs, heq⟩ := Option.map_eq_some_iff.mp h
    obtain ⟨rfl, rfl, rfl, rfl⟩ : van₁ = van' ∧ out₁ = out ∧ m' = m ∧ t.msgBuf = buf := by simpa using heq
    split_ifs at hc with hv
    obtain ⟨hlen, -, hkind⟩ := sendCached_eq_some hs
    exact ⟨hsent, van₀, hsame, .inr ⟨t, rfl, hv, by rw [← hinfo, hc], by rw [← hbufs, hlen], hkind⟩⟩

/-! ### What nodes keep -/

/-- The message buffers of a node keep their lengths and regions, and its pool and its device buffers only grow. -/
structure Grows (van van' : RdmaVan) : Prop where
  id : van'.id = van.id
  isServer : van'.isServer = van.isServer
  recvBuffers : van'.registeredRecvBuffers = van.registeredRecvBuffers
  nextBuf : van.nextBuf ≤ van'.nextBuf
  bufs : ∀ i < van.nextBuf, (van'.msgBufs i).inlineLen = (van.msgBufs i).inlineLen ∧
    (van'.msgBufs i).mrs = (van.msgBufs i).mrs
  table : ∀ idx ctx, van.addrPool.table idx = some ctx → van'.addrPool.table idx = some ctx
  keyToMr : ∀ ep key r, van.keyToMr ep key = some r → van'.keyToMr ep key = some r

/-- The device buffers of the peers lie in the memory of the allocator and do not overlap. -/
structure DeviceOk (cfg : RdmaCfg) (van : RdmaVan) : Prop where
  none : van.registeredRecvBuffers = fun _ => []
  base : cfg.gpuBase ≤ van.nextGpu
  inside : ∀ ep key r, van.keyToMr ep key = some r → cfg.gpuBase ≤ r.addr ∧ r.addr + r.length ≤ van.nextGpu
  apart : ∀ ep key ep' key' r r', van.keyToMr ep key = some r → van.keyToMr ep' key' = some r' →
    ¬ (ep = ep' ∧ key = key') → r.addr + r.length ≤ r'.addr ∨ r'.addr + r'.length ≤ r.addr

theorem Grows.refl (van : RdmaVan) : Grows van van :=
  ⟨rfl, rfl, rfl, Nat.le_refl _, fun _ _ => ⟨rfl, rfl⟩, fun _ _ h => h, fun _ _ _ h => h⟩

theorem grows_storeMsgBuf (van : RdmaVan) (buf : MessageBuffer) (m : Message) (uid : Nat) :
    Grows van (van.storeMsgBuf buf m uid) := by
  refine ⟨rfl, rfl, rfl, Nat.le_succ _, fun i hi => ?_, fun _ _ h => h, fun _ _ _ h => h⟩
  simp [storeMsgBuf, setMsgBuf, Nat.ne_of_lt hi]

theorem grows_refill (cfg : RdmaCfg) (van : RdmaVan) (t : RemoteTuple) (m : Message) :
    Grows van (van.refill cfg t m) := by
  refine ⟨rfl, rfl, rfl, Nat.le_refl _, fun i _ => ?_, fun _ _ h => h, fun _ _ _ h => h⟩
  rcases eq_or_ne i t.msgBuf with rfl | hi
  · simp [refill, setMsgBuf, MessageBuffer.pack, MessageBuffer.setData]
  · simp [refill, setMsgBuf, hi]

theorem grows_of_sameButMrs {van₀ : RdmaVan} (h : SameButMrs van van₀) (h' : Grows van₀ van') : Grows van van' := by
  obtain ⟨_, _, rfl⟩ := h
  exact ⟨h'.id, h'.isServer, h'.recvBuffers, h'.nextBuf, h'.bufs, h'.table, h'.keyToMr⟩

theorem grows_receive (van : RdmaVan) (ram : Buf) (wr : WorkRequest) : Grows van (van.receive ram wr).1 := by
  have hwrite : ∀ dst bs, Grows van (van.writeAt dst bs) := by
    intro dst bs
    cases dst <;> exact ⟨rfl, rfl, rfl, Nat.le_refl _, fun _ _ => ⟨rfl, rfl⟩, fun _ _ h => h, fun _ _ _ h => h⟩
  cases wr with
  | rendezvousStart | rendezvousReply => exact .refl van
  | write | writeChunkImm => exact hwrite _ _
  | writeImm blk => exact hwrite (.buffer blk 0) _

theorem grows_recvReply (van : RdmaVan) (m : Message) (t : RemoteTuple) (i : Nat) :
    Grows van ((van.storeRemoteAndLocalInfo m t).releaseFirstMsg i) := by
  obtain ⟨pushAddr, pullAddr, hframe⟩ := storeRemoteAndLocalInfo_frame van m t
  rw [hframe]
  exact ⟨rfl, rfl, rfl, Nat.le_refl _, fun _ _ => ⟨rfl, rfl⟩, fun _ _ h => h, fun _ _ _ h => h⟩

theorem grows_recvImm {imm : Nat} {u : Option Nat} (h : van.recvImm ep imm u = some van') : Grows van van' := by
  rcases recvImm_eq_some h with ⟨-, rfl⟩ | ⟨-, ctx, v, -, -, rfl⟩ <;>
    exact ⟨rfl, rfl, rfl, Nat.le_refl _, fun _ _ => ⟨rfl, rfl⟩, fun _ _ h => h, fun _ _ _ h => h⟩

theorem grows_local (van : RdmaVan) (recvBuffers : List Notification) (ram : Buf) :
    Grows van { van with recvBuffers := recvBuffers, ram := ram } :=
  ⟨rfl, rfl, rfl, Nat.le_refl _, fun _ _ => ⟨rfl, rfl⟩, fun _ _ h => h, fun _ _ _ h => h⟩

/-! ### The answer to a request -/

theorem gpuAlloc_spec {key : Key} {size addr : Nat} (hdev : DeviceOk cfg van)
    (h : van.gpuAlloc cfg ep key size = some (addr, van')) :
    ∃ keyToMr nextGpu, van' = { van with keyToMr := keyToMr, nextGpu := nextGpu } ∧ DeviceOk cfg van' ∧
      (∀ ep key r, van.keyToMr ep key = some r → keyToMr ep key = some r) ∧
      ∃ r, keyToMr ep key = some r ∧ r.addr = addr ∧ size ≤ r.length := by
  unfold gpuAlloc at h
  split at h
  · rename_i mr hmr
    split_ifs at h with hsize
    obtain ⟨rfl, rfl⟩ := Prod.mk.inj (Option.some.inj h)
    exact ⟨van.keyToMr, van.nextGpu, rfl, hdev, fun _ _ _ h => h, mr, hmr, rfl, hsize⟩
  · rename_i hnone
    split_ifs at h with hsize
    obtain ⟨rfl, rfl⟩ := Prod.mk.inj (Option.some.inj h)
    -- an entry is an old one or the new one, which lies behind the old ones
    have hcases : ∀ ep' key' r, Function.update van.keyToMr ep
        (Function.update (van.keyToMr ep) key (some ⟨van.nextGpu, size, 0⟩)) ep' key' = some r →
        van.keyToMr ep' key' = some r ∨ ep' = ep ∧ key' = key ∧ r = ⟨van.nextGpu, size, 0⟩ := by
      intro ep' key' r hr
      rcases eq_or_ne ep' ep with rfl | hep
      · rcases eq_or_ne key' key with rfl | hkey
        · exact .inr ⟨rfl, rfl, by simpa [eq_comm] using hr⟩
        · exact .inl (by simpa [hkey] using hr)
      · exact .inl (by simpa [hep] using hr)
    refine ⟨_, _, rfl, ⟨hdev.none, Nat.le_add_right_of_le hdev.base, fun ep' key' r hr => ?_,
      fun ep₁ key₁ ep₂ key₂ r₁ r₂ h₁ h₂ hne => ?_⟩, fun ep' key' r hr => ?_, ⟨van.nextGpu, size, 0⟩, by simp, rfl,
      Nat.le_refl _⟩
    · rcases hcases ep' key' r hr with hr | ⟨-, -, rfl⟩
      · have := hdev.inside ep' key' r hr
        exact ⟨this.1, Nat.le_add_right_of_le this.2⟩
      · exact ⟨hdev.base, Nat.le_refl _⟩
    · rcases hcases _ _ _ h₁ with hold₁ | ⟨hep₁, hkey₁, rfl⟩ <;>
        rcases hcases _ _ _ h₂ with hold₂ | ⟨hep₂, hkey₂, rfl⟩
      · exact hdev.apart _ _ _ _ _ _ hold₁ hold₂ hne
      · exact .inl (hdev.inside _ _ _ hold₁).2
      · exact .inr (hdev.inside _ _ _ hold₂).2
      · exact absurd ⟨hep₁.trans hep₂.symm, hkey₁.trans hkey₂.symm⟩ hne
    · by_cases heq : ep' = ep ∧ key' = key
      · rw [heq.1, heq.2, hnone] at hr
        cases hr
      · rcases eq_or_ne ep' ep with rfl | hep
        · simpa [show key' ≠ key from fun hk => heq ⟨rfl, hk⟩] using hr
        · simpa [hep] using hr

theorem dataBuffer_spec {req : RendezvousStart} {addr : Nat} (hdev : DeviceOk cfg van)
    (h : van.dataBuffer cfg ep req = some (addr, van')) :
    ∃ keyToMr nextGpu, van' = { van with keyToMr := keyToMr, nextGpu := nextGpu } ∧ DeviceOk cfg van' ∧
      (∀ ep key r, van.keyToMr ep key = some r → keyToMr ep key = some r) ∧
      ∀ size, req.dataLen[1]? = some size → size ≠ 0 →
        ∃ r, keyToMr ep req.key = some r ∧ r.addr = addr ∧ size ≤ r.length := by
  unfold dataBuffer at h
  split_ifs at h with hsum
  · obtain ⟨-, rfl⟩ := Prod.mk.inj (Option.some.inj h)
    refine ⟨van.keyToMr, van.nextGpu, rfl, hdev, fun _ _ _ h => h, fun size hsize hne => ?_⟩
    exact absurd (List.sum_eq_zero_iff_forall_eq_nat.mp hsum size (List.mem_of_getElem? hsize)) hne
  · obtain ⟨size, hsize, h⟩ := Option.bind_eq_some_iff.mp h
    have hquery : van.queryRecvBuffer req.key ep = some none := by
      simp [queryRecvBuffer, hdev.none]
    rw [hquery] at h
    obtain ⟨keyToMr, nextGpu, heq, hdev', hgrow, r, hr⟩ := gpuAlloc_spec hdev h
    refine ⟨keyToMr, nextGpu, heq, hdev', hgrow, fun size' hsize' _ => ?_⟩
    obtain rfl := Option.some.inj (hsize.symm.trans hsize')
    exact ⟨r, hr⟩

/-- `SendRendezvousReply`: an entry for the request, and on a GDR server a device buffer. -/
theorem sendRendezvousReply_spec {req : RendezvousStart} (hdev : DeviceOk cfg van)
    (h : van.sendRendezvousReply cfg ep req = some (van', out)) :
    ∃ (ctx : BufferContext) (idx : Nat), ctx.metaBuffer = van.nextBlock ∧ ctx.metaLen = req.metaLen ∧
      ctx.origin = (ep, req.originAddr) ∧
      out = [(0, .rendezvousReply ⟨ctx.metaBuffer, ctx.gpuDataBuffer, req.originAddr, idx⟩)] ∧
      (∃ keyToMr nextGpu rest, van.addrPool.indices = idx :: rest ∧ van.addrPool.table idx = none ∧
        van' = { van.alloc.2 with
          keyToMr := keyToMr
          nextGpu := nextGpu
          addrPool := { table := Function.update van.addrPool.table idx (some ctx), indices := rest } }) ∧
      DeviceOk cfg van' ∧ (∀ ep key r, van.keyToMr ep key = some r → van'.keyToMr ep key = some r) ∧
      (cfg.gdr = true → van.isServer = true → ∀ size, req.dataLen[1]? = some size → size ≠ 0 →
        ∃ r, van'.keyToMr ep req.key = some r ∧ r.addr = ctx.gpuDataBuffer ∧ size ≤ r.length) := by
  obtain ⟨_, -, h⟩ := Option.bind_eq_some_iff.mp h
  obtain ⟨⟨dataAddr, van₁⟩, hdata, h⟩ := Option.bind_eq_some_iff.mp h
  obtain ⟨⟨idx, pool⟩, hpool, h⟩ := Option.bind_eq_some_iff.mp h
  obtain ⟨rfl, rfl⟩ := Prod.mk.inj (Option.some.inj h)
  have halloc : DeviceOk cfg van.alloc.2 := ⟨hdev.none, hdev.base, hdev.inside, hdev.apart⟩
  obtain ⟨keyToMr, nextGpu, rfl, hdev₁, hgrow, hbuf⟩ : ∃ keyToMr nextGpu,
      van₁ = { van.alloc.2 with keyToMr := keyToMr, nextGpu := nextGpu } ∧ DeviceOk cfg van₁ ∧
      (∀ ep key r, van.keyToMr ep key = some r → keyToMr ep key = some r) ∧
      (cfg.gdr = true → van.isServer = true → ∀ size, req.dataLen[1]? = some size → size ≠ 0 →
        ∃ r, keyToMr ep req.key = some r ∧ r.addr = dataAddr ∧ size ≤ r.length) := by
    split_ifs at hdata with hgdr
    · obtain ⟨keyToMr, nextGpu, heq, hdev', hgrow, hbuf⟩ := dataBuffer_spec halloc hdata
      exact ⟨keyToMr, nextGpu, heq, hdev', hgrow, fun _ _ => hbuf⟩
    · obtain ⟨-, rfl⟩ := Prod.mk.inj (Option.some.inj hdata)
      refine ⟨van.keyToMr, van.nextGpu, rfl, halloc, fun _ _ _ h => h, fun h₁ h₂ => ?_⟩
      exact absurd (by simpa [alloc] using ⟨h₁, h₂⟩) hgdr
  obtain ⟨rest, hind, hnone, rfl⟩ := AddressPool.storeAddress_eq_some.mp hpool
  exact ⟨_, idx, rfl, rfl, rfl, rfl, ⟨keyToMr, nextGpu, rest, hind, hnone, rfl⟩,
    ⟨hdev₁.none, hdev₁.base, hdev₁.inside, hdev₁.apart⟩, hgrow, hbuf⟩

theorem grows_sendRendezvousReply {req : RendezvousStart} (hdev : DeviceOk cfg van)
    (h : van.sendRendezvousReply cfg ep req = some (van', out)) : Grows van van' := by
  obtain ⟨ctx, idx, -, -, -, -, ⟨keyToMr, nextGpu, rest, -, hnone, rfl⟩, -, hkeys, -⟩ := sendRendezvousReply_spec hdev h
  refine ⟨rfl, rfl, rfl, Nat.le_refl _, fun _ _ => ⟨rfl, rfl⟩, fun i c hc => ?_, hkeys⟩
  have hi : i ≠ idx := by
    rintro rfl
    rw [hnone] at hc
    cases hc
  exact (Function.update_of_ne hi ..).trans hc

end RdmaVan

namespace RdmaNet

variable {cfg : RdmaCfg} {s s' : RdmaNet} {a b : NodeId}

open RdmaVan

/-! ### What is in the queues -/

theorem mem_chan_post {out : Posted} {l : Link} {wr : WorkRequest} (h : wr ∈ (s.post a b out).chan l) :
    wr ∈ s.chan l ∨ ∃ q, (q, wr) ∈ out ∧ l = ⟨a, b, q, wr.isReply⟩ := by
  refine (List.mem_append.mp h).imp_right fun h => ?_
  split_ifs at h with hl
  · obtain ⟨⟨q, wr'⟩, hp, rfl⟩ := List.mem_map.mp h
    obtain ⟨hp, hlane⟩ := List.mem_filter.mp hp
    obtain ⟨hq, hback⟩ := of_decide_eq_true hlane
    refine ⟨q, hp, ?_⟩
    obtain ⟨src, dst, qp, back⟩ := l
    simp only at hl hq hback
    rw [hl.1, hl.2, hq, hback]
  · cases h

theorem mem_update_tail {α β : Type*} [DecidableEq α] {f : α → List β} {k : α} {y : β} {rest : List β}
    (h : f k = y :: rest) {j : α} {z : β} (hz : z ∈ Function.update f k rest j) : z ∈ f j := by
  rcases eq_or_ne j k with rfl | hj
  · rw [Function.update_self] at hz
    rw [h]
    exact List.mem_cons_of_mem _ hz
  · rwa [Function.update_of_ne hj] at hz

theorem mem_update_append {α β : Type*} [DecidableEq α] {f : α → List β} {k : α} {ys : List β} {j : α} {z : β}
    (hz : z ∈ Function.update f k (f k ++ ys) j) : z ∈ f j ∨ j = k ∧ z ∈ ys := by
  rcases eq_or_ne j k with rfl | hj
  · rw [Function.update_self] at hz
    exact (List.mem_append.mp hz).imp_right fun hz => ⟨rfl, hz⟩
  · rw [Function.update_of_ne hj] at hz
    exact .inl hz

theorem mem_cq_deliver {l : Link} {wr : WorkRequest} {c e : NodeId} {wc : Completion}
    (h : (e, wc) ∈ Function.update s.cq l.dst (s.cq l.dst ++
      (((s.vans l.dst).receive (s.vans l.src).ram wr).2.map (l.src, ·)).toList) c) :
    (e, wc) ∈ s.cq c ∨ c = l.dst ∧ e = l.src ∧ ((s.vans l.dst).receive (s.vans l.src).ram wr).2 = some wc := by
  refine (mem_update_append h).imp_right fun h => ⟨h.1, ?_⟩
  obtain ⟨wc', hwc, heq⟩ := Option.map_eq_some_iff.mp (Option.mem_toList.mp h.2)
  obtain ⟨rfl, rfl⟩ := Prod.mk.inj heq
  exact ⟨rfl, hwc⟩

/-! ### The steps -/

/-- The steps of the network. -/
inductive Acts (cfg : RdmaCfg) (s : RdmaNet) : Action → RdmaNet → Prop
  | first {n : NodeId} {msg m : Message} {van₀ : RdmaVan} {mrs : List (Mr × Nat)} (hm : SentAs msg m)
      (hsame : (s.vans n).SameButMrs van₀)
      (hinfo : isValidPushpull m → (s.vans n).remoteInfo m.msgMeta.key m.msgMeta.push m.msgMeta.recver = none)
      (hbuf : FirstBuf m { prepareNewMsgBuf cfg m with mrs := mrs }) :
      Acts cfg s (.sendMsg n msg) { (s.setVan n (van₀.storeMsgBuf { prepareNewMsgBuf cfg m with mrs := mrs } m
          s.sent.length)).post n m.msgMeta.recver [(0, .rendezvousStart ((s.vans n).startOf m))] with
        sent := s.sent ++ [⟨n, m, (s.vans n).nextBuf⟩] }
  | cached {n : NodeId} {msg m : Message} {van₀ van : RdmaVan} {t : RemoteTuple} {out : Posted} (hm : SentAs msg m)
      (hsame : (s.vans n).SameButMrs van₀) (hv : isValidPushpull m = true)
      (ht : (s.vans n).remoteInfo m.msgMeta.key m.msgMeta.push m.msgMeta.recver = some t)
      (hlen : ((s.vans n).msgBufs t.msgBuf).inlineLen = (getPackMetaLen m.msgMeta).toNat)
      (hsend : (van₀.refill cfg t m).sendByKind cfg m.msgMeta.recver m t s.sent.length = some (van, out)) :
      Acts cfg s (.sendMsg n msg) { (s.setVan n van).post n m.msgMeta.recver out with
        sent := s.sent ++ [⟨n, m, t.msgBuf⟩] }
  | deliver {l : Link} {wr : WorkRequest} {rest : List WorkRequest} (hchan : s.chan l = wr :: rest) :
      Acts cfg s (.deliver l) { s.setVan l.dst ((s.vans l.dst).receive (s.vans l.src).ram wr).1 with
        chan := Function.update s.chan l rest
        cq := Function.update s.cq l.dst (s.cq l.dst ++
          (((s.vans l.dst).receive (s.vans l.src).ram wr).2.map (l.src, ·)).toList) }
  | start {n ep : NodeId} {req : RendezvousStart} {rest : List (NodeId × Completion)} {van : RdmaVan} {out : Posted}
      (hcq : s.cq n = (ep, .recvStart req) :: rest)
      (hreply : (s.vans n).sendRendezvousReply cfg ep req = some (van, out)) :
      Acts cfg s (.pollCQ n) { (s.setVan n van).post n ep out with cq := Function.update s.cq n rest }
  | reply {n ep : NodeId} {resp : RendezvousReply} {rest : List (NodeId × Completion)} {uid : Nat} {m : Message}
      {van : RdmaVan} {out : Posted} (hcq : s.cq n = (ep, .recvReply resp) :: rest)
      (hcache : (s.vans n).msgbufCache resp.originAddr = some (uid, m))
      (hsend : (if isValidPushpull m then
          ((s.vans n).storeRemoteAndLocalInfo m resp.remoteTuple).sendByKind cfg ep m resp.remoteTuple uid
        else some ((s.vans n).storeRemoteAndLocalInfo m resp.remoteTuple,
          [((s.vans n).storeRemoteAndLocalInfo m resp.remoteTuple).rdmaWriteWithImm resp.remoteTuple uid])) =
        some (van, out)) :
      Acts cfg s (.pollCQ n) { (s.setVan n (van.releaseFirstMsg resp.originAddr)).post n ep out with
        cq := Function.update s.cq n rest }
  | imm {n ep : NodeId} {imm : Nat} {u : Option Nat} {rest : List (NodeId × Completion)} {van : RdmaVan}
      (hcq : s.cq n = (ep, .recvImm imm u) :: rest) (himm : (s.vans n).recvImm ep imm u = some van) :
      Acts cfg s (.pollCQ n) { s.setVan n van with cq := Function.update s.cq n rest }
  | pop {n : NodeId} {note : Notification} {msg : Message} {rest : List Notification}
      (hbufs : (s.vans n).recvBuffers = note :: rest)
      (hrecv : (s.vans n).recvMsg cfg = some ({ s.vans n with recvBuffers := rest }, note, msg)) :
      Acts cfg s (.recvMsg n) { s.setVan n { s.vans n with recvBuffers := rest } with
        popped := s.popped ++ [⟨n, note, msg⟩] }
  | store (n : NodeId) (addr : Nat) (bytes : List UInt8) :
      Acts cfg s (.store n addr bytes) (s.setVan n { s.vans n with ram := (s.vans n).ram.store addr bytes })

theorem acts_of_step {act : Action} (hs : step cfg s act = some s') : Acts cfg s act s' := by
  cases act with
  | sendMsg n msg =>
    obtain ⟨⟨van, out, m, buf⟩, hsend, hs⟩ := Option.bind_eq_some_iff.mp hs
    obtain rfl := Option.some.inj hs
    obtain ⟨hm, van₀, hsame, ⟨rfl, hinfo, mrs, hnew, rfl, rfl⟩ | ⟨t, rfl, hv, ht, hlen, hkind⟩⟩ :=
      sendMsg_cases hsend
    · exact .first hm hsame hinfo hnew
    · exact .cached hm hsame hv ht hlen hkind
  | deliver l =>
    obtain ⟨wr, rest, hchan, rfl⟩ := step_deliver_eq_some hs
    exact .deliver hchan
  | pollCQ n =>
    rw [step] at hs
    split at hs
    · rename_i ep wc rest hcq
      obtain ⟨⟨van, out⟩, hpoll, hs⟩ := Option.bind_eq_some_iff.mp hs
      obtain rfl := Option.some.inj hs
      cases wc with
      | recvStart req => exact .start hcq hpoll
      | recvReply resp =>
        obtain ⟨⟨uid, m⟩, hcache, hpoll⟩ := Option.bind_eq_some_iff.mp hpoll
        obtain ⟨⟨van₁, out₁⟩, hsend, hpoll⟩ := Option.bind_eq_some_iff.mp hpoll
        obtain ⟨rfl, rfl⟩ := Prod.mk.inj (Option.some.inj hpoll)
        exact .reply hcq hcache hsend
      | recvImm imm u =>
        obtain ⟨van', himm, heq⟩ := Option.map_eq_some_iff.mp hpoll
        obtain ⟨rfl, rfl⟩ := Prod.mk.inj heq
        dsimp only
        rw [post_nil]
        exact .imm hcq himm
    · cases hs
  | recvMsg n =>
    obtain ⟨⟨van, note, msg⟩, hrecv, hs⟩ := Option.bind_eq_some_iff.mp hs
    obtain rfl := Option.some.inj hs
    obtain ⟨rest, m, hbufs, rfl, -⟩ := recvMsg_eq_some hrecv
    exact .pop hbufs hrecv
  | store n addr bytes =>
    obtain rfl := Option.some.inj hs
    exact .store n addr bytes

/-- The steps of the network when payloads are written in one piece. -/
inductive Does (cfg : RdmaCfg) (s : RdmaNet) : Action → RdmaNet → Prop
  | first {n : NodeId} {msg m : Message} {van₀ : RdmaVan} {buf : MessageBuffer} (hm : SentAs msg m)
      (hsame : (s.vans n).SameButMrs van₀)
      (hinfo : isValidPushpull m → (s.vans n).remoteInfo m.msgMeta.key m.msgMeta.push m.msgMeta.recver = none)
      (hbuf : FirstBuf m buf) :
      Does cfg s (.sendMsg n msg) { (s.setVan n (van₀.storeMsgBuf buf m s.sent.length)).post n m.msgMeta.recver
          [(0, .rendezvousStart ((s.vans n).startOf m))] with
        sent := s.sent ++ [⟨n, m, (s.vans n).nextBuf⟩] }
  | cached {n : NodeId} {msg m : Message} {van₀ : RdmaVan} {t : RemoteTuple} {out : Posted} (hm : SentAs msg m)
      (hsame : (s.vans n).SameButMrs van₀) (hv : isValidPushpull m = true)
      (ht : (s.vans n).remoteInfo m.msgMeta.key m.msgMeta.push m.msgMeta.recver = some t)
      (hlen : ((s.vans n).msgBufs t.msgBuf).inlineLen = (getPackMetaLen m.msgMeta).toNat)
      (hposts : PostsOf cfg (((s.vans n).refill cfg t m).msgBufs t.msgBuf) m t s.sent.length out) :
      Does cfg s (.sendMsg n msg) { (s.setVan n (van₀.refill cfg t m)).post n m.msgMeta.recver out with
        sent := s.sent ++ [⟨n, m, t.msgBuf⟩] }
  | deliver {l : Link} {wr : WorkRequest} {rest : List WorkRequest} (hchan : s.chan l = wr :: rest) :
      Does cfg s (.deliver l) { s.setVan l.dst ((s.vans l.dst).receive (s.vans l.src).ram wr).1 with
        chan := Function.update s.chan l rest
        cq := Function.update s.cq l.dst (s.cq l.dst ++
          (((s.vans l.dst).receive (s.vans l.src).ram wr).2.map (l.src, ·)).toList) }
  | start {n ep : NodeId} {req : RendezvousStart} {rest : List (NodeId × Completion)} {van : RdmaVan} {out : Posted}
      (hcq : s.cq n = (ep, .recvStart req) :: rest)
      (hreply : (s.vans n).sendRendezvousReply cfg ep req = some (van, out)) :
      Does cfg s (.pollCQ n) { (s.setVan n van).post n ep out with cq := Function.update s.cq n rest }
  | reply {n ep : NodeId} {resp : RendezvousReply} {rest : List (NodeId × Completion)} {uid : Nat} {m : Message}
      {out : Posted} (hcq : s.cq n = (ep, .recvReply resp) :: rest)
      (hcache : (s.vans n).msgbufCache resp.originAddr = some (uid, m))
      (hposts : PostsOf cfg ((s.vans n).msgBufs resp.originAddr) m resp.remoteTuple uid out) :
      Does cfg s (.pollCQ n) { (s.setVan n (((s.vans n).storeRemoteAndLocalInfo m resp.remoteTuple).releaseFirstMsg
          resp.originAddr)).post n ep out with cq := Function.update s.cq n rest }
  | imm {n ep : NodeId} {imm : Nat} {u : Option Nat} {rest : List (NodeId × Completion)} {van : RdmaVan}
      (hcq : s.cq n = (ep, .recvImm imm u) :: rest) (himm : (s.vans n).recvImm ep imm u = some van) :
      Does cfg s (.pollCQ n) { s.setVan n van with cq := Function.update s.cq n rest }
  | pop {n : NodeId} {note : Notification} {msg : Message} {rest : List Notification}
      (hbufs : (s.vans n).recvBuffers = note :: rest)
      (hrecv : (s.vans n).recvMsg cfg = some ({ s.vans n with recvBuffers := rest }, note, msg)) :
      Does cfg s (.recvMsg n) { s.setVan n { s.vans n with recvBuffers := rest } with
        popped := s.popped ++ [⟨n, note, msg⟩] }
  | store (n : NodeId) (addr : Nat) (bytes : List UInt8) :
      Does cfg s (.store n addr bytes) (s.setVan n { s.vans n with ram := (s.vans n).ram.store addr bytes })

theorem does_of_step (hqp : cfg.multiQp = false) {act : Action} (hs : step cfg s act = some s') :
    Does cfg s act s' := by
  cases acts_of_step hs with
  | first hm hsame hinfo hbuf => exact .first hm hsame hinfo hbuf
  | @cached n msg m van₀ van t out hm hsame hv ht hlen hsend =>
    obtain ⟨rfl, hposts⟩ := posts_sendByKind hqp hv hsend
    have hbuf : ((s.vans n).refill cfg t m).msgBufs t.msgBuf = (van₀.refill cfg t m).msgBufs t.msgBuf := by
      obtain ⟨_, _, rfl⟩ := hsame
      rfl
    exact .cached hm hsame hv ht hlen (hbuf ▸ hposts)
  | deliver hchan => exact .deliver hchan
  | start hcq hreply => exact .start hcq hreply
  | @reply n ep resp rest uid m van out hcq hcache hsend =>
    have hbufs : ((s.vans n).storeRemoteAndLocalInfo m resp.remoteTuple).msgBufs = (s.vans n).msgBufs := by
      obtain ⟨_, _, hframe⟩ := storeRemoteAndLocalInfo_frame (s.vans n) m resp.remoteTuple
      rw [hframe]
    split_ifs at hsend with hv
    · obtain ⟨rfl, hposts⟩ := posts_sendByKind hqp hv hsend
      rw [hbufs] at hposts
      exact .reply hcq hcache hposts
    · obtain ⟨rfl, rfl⟩ := Prod.mk.inj (Option.some.inj hsend)
      refine .reply hcq hcache ?_
      rw [rdmaWriteWithImm, hbufs]
      exact .plain (by simp [carries, hv]) fun hv' => absurd hv' hv
  | imm hcq himm => exact .imm hcq himm
  | pop hbufs hrecv => exact .pop hbufs hrecv
  | store n addr bytes => exact .store n addr bytes

end RdmaNet

end StepMesh
