import StepMesh.RdmaWaits

/-!
# The checks of `PollCQ` and `RecvMsg`

`Checks` says that the checks of the two functions hold for what comes first in the queues of each node. There is
nothing else that can stop the nodes: as long as something is under way, some node can take a step (`exists_step`).
-/

namespace StepMesh

open Buf

theorem Holds.exists_unpackMeta {cfg : RdmaCfg} {m : Meta} {b : Buf} (h : Holds cfg m b) (hlen : packedLen m < 2 ^ 31)
    (len : Nat) : ∃ m', unpackMeta b len = some m' :=
  exists_unpackMeta_of_sizes hlen ((load_eq_of_headOf_eq h (by decide)).trans (load_packMeta_bodySize _))
    ((load_eq_of_headOf_eq h (by decide)).trans (load_packMeta_dataTypeSize _)) len

/-- The kind of a message is read whatever its other fields are. -/
theorem Holds.push_eq {cfg : RdmaCfg} {m m' : Meta} {b : Buf} {len : Nat} (h : Holds cfg m b)
    (hm' : unpackMeta b len = some m') : m'.push = m.push := by
  have hload : b.load RawMeta.push 1 = boolBytes m.push := by
    have hfield := load_fixedFields (b := fun _ => 0) (m := m) cfg.qpNum (RawMeta.push, boolBytes m.push)
      (by simp [fixedFields])
    rw [length_boolBytes] at hfield
    exact (load_eq_of_headOf_eq h (by decide)).trans hfield
  simp only [unpackMeta, Option.bind_eq_bind, Option.bind_eq_some_iff, Option.pure_def, Option.some.injEq] at hm'
  obtain ⟨-, -, rfl⟩ := hm'
  simp only [hload, ofBoolBytes_boolBytes]

namespace RdmaVan

variable {cfg : RdmaCfg} {van : RdmaVan} {m : Message} {t : RemoteTuple} {ep : NodeId} {uid : Nat}

/-! ### One van -/

/-- The checks of `SendRendezvousReply`: the pool has a free entry, and the device buffer that the key has is large
enough, or one can be allocated. -/
def Admits (cfg : RdmaCfg) (van : RdmaVan) (ep : NodeId) (req : RendezvousStart) : Prop :=
  van.addrPool.indices ≠ [] ∧
    (cfg.gdr = true → van.isServer = true → req.dataLen.sum ≠ 0 → ∃ size, req.dataLen[1]? = some size ∧
      match van.keyToMr ep req.key with
      | some mr => size ≤ mr.length
      | none => cfg.refusesEmpty = true → size ≠ 0)

/-- The checks of `SendPushRequest` and `SendPullResponse` for a message that waits for its address. -/
def Writable (van : RdmaVan) (m : Message) : Prop :=
  carries m = true →
    if m.msgMeta.push then (payload m).size ≠ 0
    else ∃ vals, m.data[1]? = some vals ∧ van.memMr vals.ptr ≠ none ∧ m.msgMeta.valLen = vals.size

/-- The checks of `RecvPushRequest` and `RecvPushResponse`. -/
def Readable (cfg : RdmaCfg) (van : RdmaVan) (ctx : BufferContext) (m : Meta) : Prop :=
  m.push = true →
    if m.request then
      if cfg.gdr && van.isServer then 2 ≤ ctx.dataNum ∧ ctx.gpuDataBuffer ≠ 0 else ctx.dataNum = 3
    else ctx.dataNum = 0

/-- No receive buffer is registered, an index in the queue of the pool is free, and the messages that wait are as
`SendMsg` left them. -/
structure Ready (van : RdmaVan) : Prop where
  registered : ∀ key, van.registeredRecvBuffers key = []
  nodup : van.addrPool.indices.Nodup
  free : ∀ idx ∈ van.addrPool.indices, van.addrPool.table idx = none
  waiting : ∀ i u m, van.msgbufCache i = some (u, m) → FirstBuf m (van.msgBufs i)

namespace Ready

variable {van' : RdmaVan} {out : Posted}

theorem init (cfg : RdmaCfg) (id : NodeId) (isServer : Bool) : Ready (RdmaVan.init cfg id isServer) where
  registered _ := rfl
  nodup := List.nodup_range
  free _ _ := rfl
  waiting _ _ _ h := nomatch h

theorem frame (h : Ready van) (hreg : van'.registeredRecvBuffers = van.registeredRecvBuffers)
    (hpool : van'.addrPool = van.addrPool)
    (hwait : ∀ i u m, van'.msgbufCache i = some (u, m) →
      van.msgbufCache i = some (u, m) ∧ van'.msgBufs i = van.msgBufs i) : Ready van' where
  registered := hreg ▸ h.registered
  nodup := hpool ▸ h.nodup
  free := hpool ▸ h.free
  waiting i u m hm := by
    obtain ⟨hm, hbuf⟩ := hwait i u m hm
    rw [hbuf]
    exact h.waiting i u m hm

theorem of_sameButMrs (h : Ready van) (hsame : SameButMrs van van') : Ready van' := by
  obtain ⟨_, _, rfl⟩ := hsame
  exact ⟨h.registered, h.nodup, h.free, h.waiting⟩

theorem storeMsgBuf (h : Ready van) {buf : MessageBuffer} (hbuf : FirstBuf m buf) (uid : Nat) :
    Ready (van.storeMsgBuf buf m uid) := by
  refine ⟨h.registered, h.nodup, h.free, fun i u m' hm' => ?_⟩
  replace hm' : Function.update van.msgbufCache van.nextBuf (some (uid, m)) i = some (u, m') := hm'
  show FirstBuf m' (Function.update van.msgBufs van.nextBuf buf i)
  rcases eq_or_ne i van.nextBuf with rfl | hi
  · rw [Function.update_self] at hm' ⊢
    obtain ⟨-, rfl⟩ := Prod.mk.inj (Option.some.inj hm')
    exact hbuf
  · rw [Function.update_of_ne hi] at hm' ⊢
    exact h.waiting i u m' hm'

theorem writeFrom (h : Ready van) {i : Nat} (hnone : van'.msgbufCache i = none)
    (hreg : van'.registeredRecvBuffers = van.registeredRecvBuffers) (hpool : van'.addrPool = van.addrPool)
    (hcache : ∀ j, j ≠ i → van'.msgbufCache j = van.msgbufCache j)
    (hbufs : ∀ j, j ≠ i → van'.msgBufs j = van.msgBufs j) : Ready van' := by
  refine h.frame hreg hpool fun j u m hm => ?_
  have hj : j ≠ i := by
    rintro rfl
    rw [hnone] at hm
    cases hm
  exact ⟨hcache j hj ▸ hm, hbufs j hj⟩

theorem sendRendezvousReply {req : RendezvousStart} (h : Ready van)
    (hreply : van.sendRendezvousReply cfg ep req = some (van', out)) : Ready van' := by
  obtain ⟨ctx, resp, pool, -, -, -, hstore, -, -, ⟨_, _, rfl⟩, -⟩ := sendRendezvousReply_eq_some hreply
  obtain ⟨rest, hind, -, rfl⟩ := AddressPool.storeAddress_eq_some.mp hstore
  have hnd := h.nodup
  rw [hind, List.nodup_cons] at hnd
  refine ⟨h.registered, hnd.2, fun idx hidx => ?_, h.waiting⟩
  have hne : idx ≠ resp.idx := fun heq => hnd.1 (heq ▸ hidx)
  show Function.update van.addrPool.table resp.idx (some ctx) idx = none
  rw [Function.update_of_ne hne]
  exact h.free idx (hind ▸ List.mem_cons_of_mem _ hidx)

theorem receive (h : Ready van) (ram : Buf) (wr : WorkRequest) : Ready (van.receive ram wr).1 := by
  have hwrite : ∀ dst bs, Ready (van.writeAt dst bs) := by
    intro dst bs
    cases dst <;> exact ⟨h.registered, h.nodup, h.free, h.waiting⟩
  cases wr with
  | rendezvousStart | rendezvousReply => exact h
  | write | writeChunkImm => exact hwrite _ _
  | writeImm blk => exact hwrite (.buffer blk 0) _

theorem recvImm {imm : Nat} {u : Option Nat} (h : Ready van) (himm : van.recvImm ep imm u = some van') :
    Ready van' := by
  rcases recvImm_eq_some himm with ⟨-, rfl⟩ | ⟨-, _, _, -, -, rfl⟩ <;>
    exact ⟨h.registered, h.nodup, h.free, h.waiting⟩

end Ready

theorem exists_dataBuffer {req : RendezvousStart} (hreg : van.registeredRecvBuffers req.key = [])
    (h : req.dataLen.sum ≠ 0 → ∃ size, req.dataLen[1]? = some size ∧
      match van.keyToMr ep req.key with
      | some mr => size ≤ mr.length
      | none => cfg.refusesEmpty = true → size ≠ 0) : ∃ addr van', van.dataBuffer cfg ep req = some (addr, van') := by
  unfold dataBuffer
  split_ifs with hsum
  · exact ⟨0, van, rfl⟩
  · obtain ⟨size, hsize, hfits⟩ := h hsum
    simp only [hsize, queryRecvBuffer, hreg, List.find?_nil, Option.bind_eq_bind, Option.bind_some, gpuAlloc]
    cases hmr : van.keyToMr ep req.key with
    | some mr =>
      rw [hmr] at hfits
      exact ⟨_, _, if_pos hfits⟩
    | none =>
      rw [hmr] at hfits
      exact ⟨_, _, if_neg fun hempty => hfits hempty.1 hempty.2⟩

theorem Ready.exists_sendRendezvousReply {req : RendezvousStart} (hp : 0 < cfg.pagesize) (h : Ready van)
    (hlen : req.metaLen ≠ 0) (hadmits : van.Admits cfg ep req) :
    ∃ van' out, van.sendRendezvousReply cfg ep req = some (van', out) := by
  obtain ⟨hpool, hdata⟩ := hadmits
  obtain ⟨idx, rest, hidx⟩ := List.exists_cons_of_ne_nil hpool
  have hfree : van.addrPool.table idx = none := h.free idx (hidx ▸ List.mem_cons_self)
  have hsize : (if van.isServer && !cfg.gdr then alignCeil req.metaLen cfg.pagesize + req.dataLen.sum
      else req.metaLen) ≠ 0 := by
    have := le_alignCeil (v := req.metaLen) hp
    split_ifs <;> omega
  obtain ⟨addr, van', hbuf, hsame⟩ : ∃ addr van', (if cfg.gdr && van.alloc.2.isServer then
      van.alloc.2.dataBuffer cfg ep req else some (0, van.alloc.2)) = some (addr, van') ∧
        van'.addrPool = van.addrPool := by
    split_ifs with hgdr
    · obtain ⟨hg, hs⟩ := Bool.and_eq_true_iff.mp hgdr
      obtain ⟨addr, van', hbuf⟩ : ∃ addr van', van.alloc.2.dataBuffer cfg ep req = some (addr, van') :=
        exists_dataBuffer (h.registered req.key) (hdata hg hs)
      obtain ⟨_, _, rfl⟩ := sameButGpu_dataBuffer hbuf
      exact ⟨addr, _, hbuf, rfl⟩
    · exact ⟨0, _, rfl, rfl⟩
  unfold RdmaVan.sendRendezvousReply
  simp only [hsize, ne_eq, not_false_eq_true, guard_true, Option.pure_def, Option.bind_eq_bind, Option.bind_some, hbuf,
    hsame, AddressPool.storeAddress, hidx, hfree, if_true]
  exact ⟨_, _, rfl⟩

theorem FirstMrs.eq_nil {mrs : List (Mr × Nat)} (h : FirstMrs m mrs) (hkind : (carries m && m.msgMeta.push) = false) :
    mrs = [] := by
  cases h with
  | none => rfl
  | values hvalues => rw [hvalues] at hkind; cases hkind

theorem FirstMrs.eq_values {mrs : List (Mr × Nat)} (h : FirstMrs m mrs) (hkind : (carries m && m.msgMeta.push) = true)
    (hsize : (payload m).size ≠ 0) : ∃ mr, mrs = [(mr, (payload m).size)] := by
  cases h with
  | none hnone =>
    rcases hnone with hnone | hnone
    · rw [hnone] at hkind
      cases hkind
    · exact absurd hnone hsize
  | values _ mr => exact ⟨mr, rfl⟩

theorem exists_sendByKind (hv : isValidPushpull m = true) (hfirst : FirstBuf m (van.msgBufs t.msgBuf))
    (hw : van.Writable m) (ep : NodeId) (uid : Nat) :
    ∃ van' out, van.sendByKind cfg ep m t uid = some (van', out) := by
  have hplain : (carries m && m.msgMeta.push) = false → (van.msgBufs t.msgBuf).mrs = [] := hfirst.mrs.eq_nil
  unfold Writable at hw
  unfold sendByKind
  cases hpush : m.msgMeta.push <;> cases hreq : m.msgMeta.request <;>
    simp only [carries, hv, hpush, hreq] at hw hplain
  · obtain ⟨vals, hvals, hmr, hlen⟩ := hw rfl
    rw [← hfirst.data] at hvals
    simp only [sendPullResponse, hvals, hmr, hplain rfl, hlen, ne_eq, not_false_eq_true, guard_true, Option.pure_def,
      Option.bind_eq_bind, Option.bind_some]
    exact ⟨_, _, rfl⟩
  · simp only [send, hplain rfl, guard_true, Option.pure_def, Option.bind_eq_bind, Option.bind_some]
    exact ⟨_, _, rfl⟩
  · simp only [send, hplain rfl, guard_true, Option.pure_def, Option.bind_eq_bind, Option.bind_some]
    exact ⟨_, _, rfl⟩
  · have hsize : (payload m).size ≠ 0 := hw rfl
    obtain ⟨mr, hmr⟩ := hfirst.mrs.eq_values (by simp [carries, hv, hpush, hreq]) hsize
    cases hvals : m.data[1]? with
    | none => simp [payload, hvals] at hsize
    | some vals =>
      have hpay : payload m = vals := by rw [payload, hvals, Option.getD_some]
      simp only [sendPushRequest, hmr, hvals, hpay, Nat.le_refl, guard_true, Option.pure_def, Option.bind_eq_bind,
        Option.bind_some]
      exact ⟨_, _, rfl⟩

theorem exists_recvReply {resp : RendezvousReply} (h : Ready van)
    (hcache : van.msgbufCache resp.originAddr = some (uid, m)) (hw : van.Writable m) (ep : NodeId) :
    ∃ van' out, van.recvReply cfg ep resp = some (van', out) := by
  obtain ⟨van₁, out, hsend⟩ : ∃ van₁ out, (if isValidPushpull m then
      (van.storeRemoteAndLocalInfo m resp.remoteTuple).sendByKind cfg ep m resp.remoteTuple uid
    else some (van.storeRemoteAndLocalInfo m resp.remoteTuple,
      [(van.storeRemoteAndLocalInfo m resp.remoteTuple).rdmaWriteWithImm resp.remoteTuple uid])) =
      some (van₁, out) := by
    split_ifs with hv
    · refine exists_sendByKind hv ?_ ?_ ep uid
      · obtain ⟨_, _, hinfo⟩ := storeRemoteAndLocalInfo_frame van m resp.remoteTuple
        rw [hinfo]
        exact h.waiting _ _ _ hcache
      · obtain ⟨_, _, hinfo⟩ := storeRemoteAndLocalInfo_frame van m resp.remoteTuple
        rw [hinfo]
        exact hw
    · exact ⟨_, _, rfl⟩
  simp only [recvReply, hcache, Option.bind_eq_bind, Option.bind_some, hsend, Option.pure_def]
  exact ⟨_, _, rfl⟩

theorem exists_recvData {ctx : BufferContext} {m : Meta} (h : van.Readable cfg ctx m) :
    ∃ msg, van.recvData cfg ctx m = some msg := by
  unfold Readable at h
  unfold recvData
  cases hpush : m.push <;> cases hreq : m.request <;> simp only [hpush, hreq] at h ⊢
  · exact ⟨_, rfl⟩
  · exact ⟨_, rfl⟩
  · exact ⟨_, if_pos (h trivial)⟩
  · simp only [forall_const, if_true] at h
    rw [show guard _ = some () from (Option.guard_eq_some' _).mpr h]
    exact ⟨_, rfl⟩

theorem exists_recvMsg {note : Notification} {rest : List Notification} (hbufs : van.recvBuffers = note :: rest)
    (hcmd : note.cmd = 0) (harrived : van.slavesArrived note.endpoint (van.mem note.ctx.metaBuffer) = true)
    (hholds : Holds cfg m.msgMeta (van.mem note.ctx.metaBuffer)) (hm : Sendable m)
    (hread : van.Readable cfg note.ctx m.msgMeta) : ∃ van' msg, van.recvMsg cfg = some (van', note, msg) := by
  obtain ⟨m', hunpack⟩ := hholds.exists_unpackMeta hm.len note.ctx.metaLen
  have hpush : m'.push = m.msgMeta.push := hholds.push_eq hunpack
  -- only a push is checked, and a push is a data message
  have hreadable : Readable cfg { van with recvBuffers := rest } note.ctx
      { m' with recver := van.id, sender := note.endpoint } := by
    intro hpush'
    have hv : isValidPushpull m = true := by
      by_contra hv
      have hplain := (hm.plain (by simpa using hv)).2
      rw [← hpush] at hplain
      exact absurd hpush' (by simp [hplain])
    have hdata : m.msgMeta.control.cmd = .empty := by
      simp only [isValidPushpull, Bool.and_eq_true, decide_eq_true_eq] at hv
      exact hv.1
    have hreq : m'.request = m.msgMeta.request :=
      congrArg Header.request (hholds.header_eq hdata (hm.fits hv) hm.len hunpack)
    have := hread (hpush ▸ hpush')
    rwa [← hreq] at this
  obtain ⟨msg, hmsg⟩ := exists_recvData hreadable
  simp only [recvMsg, hbufs, harrived, guard_true, Option.pure_def, Option.bind_eq_bind, Option.bind_some, hunpack]
  split_ifs with hv hne
  · exact absurd hcmd hne
  · simp only [hmsg, Option.bind_some]
    exact ⟨_, _, rfl⟩
  · exact ⟨_, _, rfl⟩

end RdmaVan

/-! ### The network -/

namespace RdmaNet

open RdmaVan

variable {cfg : RdmaCfg} {s s' : RdmaNet} {n : NodeId}

/-- The vans are ready, and whoever asks for a place has a meta. -/
structure AllReady (s : RdmaNet) : Prop where
  van : ∀ n, (s.vans n).Ready
  chan : ∀ l req, .rendezvousStart req ∈ s.chan l → req.metaLen ≠ 0
  cq : ∀ n ep req, (ep, .recvStart req) ∈ s.cq n → req.metaLen ≠ 0

theorem allReady_init (cfg : RdmaCfg) (isServer : NodeId → Bool) : AllReady (init cfg isServer) where
  van n := .init cfg n (isServer n)
  chan _ _ h := nomatch h
  cq _ _ _ h := nomatch h

theorem AllReady.of_step {van : RdmaVan} (h : AllReady s) (hvans : s'.vans = Function.update s.vans n van)
    (hvan : van.Ready)
    (hchan : ∀ l req, .rendezvousStart req ∈ s'.chan l → .rendezvousStart req ∈ s.chan l ∨ req.metaLen ≠ 0)
    (hcq : ∀ c ep req, (ep, .recvStart req) ∈ s'.cq c → (ep, .recvStart req) ∈ s.cq c ∨ req.metaLen ≠ 0) :
    AllReady s' where
  van := by
    rw [hvans]
    exact (Function.forall_update_iff s.vans fun _ van => van.Ready).mpr ⟨hvan, fun c _ => h.van c⟩
  chan l req hreq := (hchan l req hreq).elim (h.chan l req) id
  cq c ep req hreq := (hcq c ep req hreq).elim (h.cq c ep req) id

theorem mem_chan_of_post {a b : NodeId} {out : Posted} {l : Link} {req : RendezvousStart}
    (hout : ∀ p ∈ out, p.2.signal .start = none) (h : .rendezvousStart req ∈ (s.post a b out).chan l) :
    .rendezvousStart req ∈ s.chan l := by
  rcases mem_chan_post h with h | ⟨q, hq, -⟩
  · exact h
  · cases hout _ hq

theorem allReady_step {act : Action} (h : AllReady s) (hok : NetOk cfg s) (hok' : NetOk cfg s')
    (hs : step cfg s act = some s') : AllReady s' := by
  cases acts_of_step hs with
  | @first n msg m van₀ mrs hm hsame hinfo hbuf =>
    refine h.of_step rfl (((h.van n).of_sameButMrs hsame).storeMsgBuf hbuf s.sent.length) (fun l req hreq => ?_)
      fun c ep req hreq => .inl hreq
    refine (mem_chan_post hreq).imp_right fun hnew => ?_
    obtain ⟨q, hq, -⟩ := hnew
    obtain ⟨-, heq⟩ := Prod.mk.inj (List.mem_singleton.mp hq)
    obtain rfl := WorkRequest.rendezvousStart.inj heq
    have hlen : RawMeta.size ≤ (getPackMetaLen m.msgMeta).toNat :=
      (hok'.sendable _ (List.mem_append_right _ (List.mem_singleton_self _))).le_getPackMetaLen
    have hpos : 0 < (getPackMetaLen m.msgMeta).toNat := Nat.lt_of_lt_of_le (by decide) hlen
    simpa only [startOf] using hpos.ne'
  | @cached n msg m van₀ van t out hm hsame hv ht hlen hsend =>
    have hnone := ((hok.van n).info _ _ _ t ht).2
    have hvan := (h.van n).of_sameButMrs hsame
    obtain ⟨_, _, rfl⟩ := hsame
    obtain ⟨⟨b, count, rfl⟩, hout⟩ := sendByKind_frame hsend
    refine h.of_step rfl ?_ (fun l req hreq => .inl (mem_chan_of_post hout hreq)) fun c ep req hreq => .inl hreq
    exact hvan.writeFrom (i := t.msgBuf) hnone rfl rfl (fun _ _ => rfl) fun j hj =>
      (Function.update_of_ne hj ..).trans (Function.update_of_ne hj ..)
  | @deliver l wr rest hchan =>
    refine h.of_step rfl ((h.van l.dst).receive _ wr) (fun k req hreq => .inl (mem_update_tail hchan hreq))
      fun c ep req hreq => ?_
    refine (mem_cq_deliver hreq).imp_right fun hnew => ?_
    obtain ⟨-, -, hwc⟩ := hnew
    cases wr with
    | rendezvousStart req' =>
      obtain rfl := Completion.recvStart.inj (Option.some.inj hwc)
      exact h.chan l req' (by rw [hchan]; exact List.mem_cons_self)
    | _ => cases hwc
  | @start n ep req rest van out hcq hreply =>
    refine h.of_step rfl ((h.van n).sendRendezvousReply hreply) (fun l req hreq => .inl (mem_chan_of_post ?_ hreq))
      fun c ep req hreq => .inl (mem_update_tail hcq hreq)
    obtain ⟨_, resp, _, -, -, -, -, -, -, -, rfl⟩ := sendRendezvousReply_eq_some hreply
    simp [WorkRequest.signal]
  | @reply n ep resp rest uid m van out hcq hcache hsend =>
    obtain ⟨_, _, hinfo⟩ := storeRemoteAndLocalInfo_frame (s.vans n) m resp.remoteTuple
    rw [hinfo] at hsend
    obtain ⟨⟨b, count, rfl⟩, hout⟩ := written_of_reply hsend
    refine h.of_step rfl ?_ (fun l req hreq => .inl (mem_chan_of_post hout hreq))
      fun c ep req hreq => .inl (mem_update_tail hcq hreq)
    exact (h.van n).writeFrom (i := resp.originAddr) (Function.update_self ..) rfl rfl
      (fun j hj => Function.update_of_ne hj ..) fun j hj => Function.update_of_ne hj ..
  | @imm n ep imm u rest van hcq himm =>
    exact h.of_step rfl ((h.van n).recvImm himm) (fun _ _ => .inl) fun c ep req hreq => .inl (mem_update_tail hcq hreq)
  | @pop n note msg rest hbufs hrecv =>
    have hn := h.van n
    exact h.of_step rfl ⟨hn.registered, hn.nodup, hn.free, hn.waiting⟩ (fun _ _ => .inl) fun _ _ _ => .inl
  | store n addr bytes =>
    have hn := h.van n
    exact h.of_step rfl ⟨hn.registered, hn.nodup, hn.free, hn.waiting⟩ (fun _ _ => .inl) fun _ _ _ => .inl

/-- The checks of `PollCQ` and `RecvMsg` hold for what comes first in the queues of each node. -/
structure Checks (cfg : RdmaCfg) (s : RdmaNet) : Prop where
  start : ∀ n ep req rest, s.cq n = (ep, .recvStart req) :: rest → (s.vans n).Admits cfg ep req
  reply : ∀ n ep resp rest uid m, s.cq n = (ep, .recvReply resp) :: rest →
    (s.vans n).msgbufCache resp.originAddr = some (uid, m) → (s.vans n).Writable m
  recv : ∀ n note rest x, (s.vans n).recvBuffers = note :: rest → s.sent[note.uid]? = some x →
    (s.vans n).Readable cfg note.ctx x.msg.msgMeta

/-- The steps that nodes and adapters take by themselves. -/
def Action.IsNetwork : Action → Prop
  | .deliver _ | .pollCQ _ | .recvMsg _ => True
  | _ => False

theorem exists_deliver (cfg : RdmaCfg) {l : Link} (h : s.chan l ≠ []) : ∃ t, step cfg s (.deliver l) = some t := by
  obtain ⟨wr, rest, hchan⟩ := List.exists_cons_of_ne_nil h
  simp only [step, hchan, Option.pure_def]
  exact ⟨_, rfl⟩

theorem NetOk.exists_waiting {ep : NodeId} {resp : RendezvousReply} (hok : NetOk cfg s)
    (hmem : (ep, .recvReply resp) ∈ s.cq n) : ∃ u m, (s.vans n).msgbufCache resp.originAddr = some (u, m) := by
  have hanswer : (ep, .answer resp.originAddr ⟨resp.idx, resp.metaAddr⟩) ∈ (s.abs cfg).cq n :=
    List.mem_filterMap.mpr ⟨_, hmem, rfl⟩
  have hask : resp.originAddr ∈ (s.abs cfg).asks n ep := by
    refine List.mem_append_left _ (List.mem_append_left _ (List.mem_append_left _ ?_))
    exact List.mem_filterMap.mpr ⟨_, hanswer, if_pos rfl⟩
  obtain ⟨u, -, hu, -⟩ := (hok.proto.mem_asks n ep _).mp hask
  obtain ⟨⟨v, m⟩, hcache, -⟩ := Option.map_eq_some_iff.mp hu
  exact ⟨v, m, hcache⟩

theorem exists_recvImm {ep : NodeId} {imm : Nat} {u : Option Nat} (hbits : cfg.poolSize ≤ 0x8000) (hok : NetOk cfg s)
    (hcount : Counted s) (hmem : (ep, .recvImm imm u) ∈ s.cq n) : ∃ van, (s.vans n).recvImm ep imm u = some van := by
  have hbit := Counted.isChunk_iff hbits hcount hok hmem
  cases u with
  | none => exact ⟨_, if_neg (hbit.mpr rfl)⟩
  | some v =>
    have hnote : (ep, Rendezvous.Arrival.note imm v) ∈ (s.abs cfg).cq n := List.mem_filterMap.mpr ⟨_, hmem, rfl⟩
    obtain ⟨sl, hslot, -⟩ := hok.proto.notes ep n imm v hnote
    obtain ⟨ctx, hctx, -⟩ := Option.map_eq_some_iff.mp hslot
    have hzero : imm &&& 0x8000 = 0 := by
      by_contra hne
      cases hbit.mp hne
    have hget : (s.vans n).addrPool.getAddress imm = some ctx := hctx
    simp only [recvImm, hzero, if_true, hget, Option.bind_eq_bind, Option.bind_some, Option.pure_def]
    exact ⟨_, rfl⟩

theorem exists_pollCQ (hp : 0 < cfg.pagesize) (hbits : cfg.poolSize ≤ 0x8000) (h : AllReady s) (hok : NetOk cfg s)
    (hcount : Counted s) (hchecks : Checks cfg s) (hcq : s.cq n ≠ []) : ∃ t, step cfg s (.pollCQ n) = some t := by
  obtain ⟨⟨ep, wc⟩, rest, hcq⟩ := List.exists_cons_of_ne_nil hcq
  have hmem : (ep, wc) ∈ s.cq n := by rw [hcq]; exact List.mem_cons_self
  obtain ⟨van, out, hpoll⟩ : ∃ van out, (s.vans n).pollCQ cfg ep wc = some (van, out) := by
    cases wc with
    | recvStart req =>
      exact (h.van n).exists_sendRendezvousReply hp (h.cq n ep req hmem) (hchecks.start n ep req rest hcq)
    | recvReply resp =>
      obtain ⟨u, m, hcache⟩ := hok.exists_waiting hmem
      exact exists_recvReply (h.van n) hcache (hchecks.reply n ep resp rest u m hcq hcache) ep
    | recvImm imm u =>
      obtain ⟨van, himm⟩ := exists_recvImm hbits hok hcount hmem
      exact ⟨van, [], by rw [pollCQ, himm]; rfl⟩
  simp only [step, hcq, hpoll, Option.bind_eq_bind, Option.bind_some, Option.pure_def]
  exact ⟨_, rfl⟩

/-- When nothing is under way to a node any more, `RecvMsg` does not wait there. -/
theorem exists_recvMsg (hok : NetOk cfg s) (hcount : Counted s) (hchecks : Checks cfg s) (hchan : ∀ l, s.chan l = [])
    (hcq : ∀ c, s.cq c = []) (hbufs : (s.vans n).recvBuffers ≠ []) : ∃ t, step cfg s (.recvMsg n) = some t := by
  obtain ⟨note, rest, hbufs⟩ := List.exists_cons_of_ne_nil hbufs
  have hnote : note ∈ (s.vans n).recvBuffers := by rw [hbufs]; exact List.mem_cons_self
  obtain ⟨x, hx, -, -, hholds⟩ := hok.holds_of_note hnote
  have harrived : (s.vans n).slavesArrived note.endpoint ((s.vans n).mem note.ctx.metaBuffer) = true := by
    refine WaitsFor.slavesArrived ?_
    obtain ⟨⟨_, -, -, -, hpeer, -⟩, i, hslot⟩ := hok.proto.recv n note.note (List.mem_map_of_mem hnote)
    obtain ⟨ctx, hctx, hsame⟩ := Option.map_eq_some_iff.mp hslot
    have hblk : ctx.metaBuffer = note.ctx.metaBuffer := congrArg Rendezvous.Slot.blk hsame
    have horigin : ctx.origin.1 = note.endpoint := (congrArg Rendezvous.Slot.peer hsame).trans hpeer
    have hwaits := hcount.blocks n i ctx hctx
    rw [hblk, horigin, hcount.balance] at hwaits
    simpa [chunksTo, hchan, hcq] using hwaits
  obtain ⟨van, msg, hrecv⟩ := RdmaVan.exists_recvMsg hbufs (hok.cmd n note hnote) harrived hholds
    (hok.sendable x (List.mem_of_getElem? hx)) (hchecks.recv n note rest x hbufs hx)
  simp only [step, hrecv, Option.bind_eq_bind, Option.bind_some, Option.pure_def]
  exact ⟨_, rfl⟩

/-- Some step is possible as long as the queues hold anything. -/
theorem exists_step (hp : 0 < cfg.pagesize) (hbits : cfg.poolSize ≤ 0x8000) (h : AllReady s) (hok : NetOk cfg s)
    (hcount : Counted s) (hchecks : Checks cfg s) :
    (∃ act t, act.IsNetwork ∧ step cfg s act = some t) ∨
      (∀ l, s.chan l = []) ∧ (∀ n, s.cq n = []) ∧ ∀ n, (s.vans n).recvBuffers = [] := by
  by_cases hchan : ∀ l, s.chan l = []
  · by_cases hcq : ∀ n, s.cq n = []
    · by_cases hbufs : ∀ n, (s.vans n).recvBuffers = []
      · exact .inr ⟨hchan, hcq, hbufs⟩
      · obtain ⟨n, hn⟩ := not_forall.mp hbufs
        obtain ⟨t, ht⟩ := exists_recvMsg hok hcount hchecks hchan hcq hn
        exact .inl ⟨.recvMsg n, t, trivial, ht⟩
    · obtain ⟨n, hn⟩ := not_forall.mp hcq
      obtain ⟨t, ht⟩ := exists_pollCQ hp hbits h hok hcount hchecks hn
      exact .inl ⟨.pollCQ n, t, trivial, ht⟩
  · obtain ⟨l, hl⟩ := not_forall.mp hchan
    obtain ⟨t, ht⟩ := exists_deliver cfg hl
    exact .inl ⟨.deliver l, t, trivial, ht⟩

theorem NetOk.popped_of_empty (hok : NetOk cfg s) (hchan : ∀ l, s.chan l = []) (hcq : ∀ n, s.cq n = [])
    (hbufs : ∀ n, (s.vans n).recvBuffers = []) {u : Nat} {x : SentMsg} (hx : s.sent[u]? = some x) :
    u ∈ s.poppedFrom x.sender x.msg.msgMeta.recver := by
  rcases hok.popped_or_underWay hx with hpop | hway
  · exact hpop
  · simp [UnderWay, hchan, hcq, hbufs] at hway

end RdmaNet

end StepMesh
