import StepMesh.RdmaRefine

/-!
# Every message is handed out once

`NetOk` is the invariant of the runs in which a data message is sent only after the earlier messages of its
sender with the same key, kind and receiver have been handed out. The protocol's invariant of
`Lib/Rendezvous.lean` is part of it; the rest says that the vans take the steps of the protocol.
-/

namespace StepMesh

open Rendezvous (Place Req set_eq_update)

/-- Requests and metas travel forth and answers back on the first queue pair; a payload never reaches a
meta. -/
def WorkRequest.OnLink (l : Link) : WorkRequest → Prop
  | .rendezvousStart _ => l.qp = 0 ∧ l.back = false
  | .rendezvousReply _ => l.qp = 0 ∧ l.back = true
  | .writeImm _ bytes _ _ => l.qp = 0 ∧ l.back = false ∧ metaEnd ≤ bytes.length
  | .write dst _ _ | .writeChunkImm dst _ _ _ => dst.Behind

/-- The length of the packed meta is an `int`, and so are the fields of a data message; other messages have
no arrays and are no pushes. -/
structure Sendable (msg : Message) : Prop where
  len : packedLen msg.msgMeta < 2 ^ 31
  fits : isValidPushpull msg → Fits msg.msgMeta
  plain : isValidPushpull msg = false → msg.data = [] ∧ msg.msgMeta.push = false

theorem Sendable.le_getPackMetaLen {msg : Message} (h : Sendable msg) :
    RawMeta.size ≤ (getPackMetaLen msg.msgMeta).toNat := by
  rw [getPackMetaLen_eq h.len, Int.toNat_natCast]
  exact Nat.le_add_right_of_le (Nat.le_add_right_of_le (Nat.le_add_right ..))

namespace RdmaVan

theorem SentAs.sendable {msg m : Message} (hm : SentAs msg m) (h : Sendable msg) : Sendable m := by
  obtain ⟨⟨option, rfl, hoption⟩, -⟩ := hm
  refine ⟨h.len, fun hv => ?_, h.plain⟩
  have hfits : Packable { msg.msgMeta with control := {} } := h.fits hv
  have hints := hfits.ints
  simp only [List.forall_mem_cons] at hints
  refine ⟨?_, hfits.int8s, hfits.shape_ints, hfits.shape_length, hfits.nodes, hfits.node_nil, hfits.barrierGroup,
    hfits.msgSig⟩
  simp [hoption hints.2.2.2.2.2.2.2.2.1, hints]

theorem receive_frame (van : RdmaVan) (ram : Buf) (wr : WorkRequest) :
    (van.receive ram wr).1.recvBuffers = van.recvBuffers ∧ (van.receive ram wr).1.msgBufs = van.msgBufs := by
  have hwrite : ∀ dst bs, (van.writeAt dst bs).recvBuffers = van.recvBuffers ∧
      (van.writeAt dst bs).msgBufs = van.msgBufs := by
    intro dst bs
    cases dst <;> exact ⟨rfl, rfl⟩
  cases wr with
  | rendezvousStart | rendezvousReply => exact ⟨rfl, rfl⟩
  | write | writeImm | writeChunkImm => exact hwrite _ _

end RdmaVan

namespace RdmaNet

/-- A data message is sent when the earlier ones of its sender with its key, kind and receiver have been
handed out. -/
def Ordered (s : RdmaNet) : Action → Prop
  | .sendMsg n msg => Sendable msg ∧ (isValidPushpull msg → ∀ (u : Nat) x, s.sent[u]? = some x →
    isValidPushpull x.msg → x.sender = n → x.msg.msgMeta.recver = msg.msgMeta.recver →
    x.msg.msgMeta.key = RdmaVan.messageKey msg → x.msg.msgMeta.push = msg.msgMeta.push →
    u ∈ s.poppedFrom n msg.msgMeta.recver)
  | _ => True

/-- The same, for a message whose address is known. -/
def OrderedIfKnown (s : RdmaNet) : Action → Prop
  | .sendMsg n msg => Sendable msg ∧
      ((s.vans n).remoteInfo (RdmaVan.messageKey msg) msg.msgMeta.push msg.msgMeta.recver ≠ none →
        s.Ordered (.sendMsg n msg))
  | _ => True

theorem Ordered.ifKnown {s : RdmaNet} {act : Action} (h : s.Ordered act) : s.OrderedIfKnown act := by
  cases act with
  | sendMsg n msg => exact ⟨h.1, fun _ => h⟩
  | _ => trivial

/-- What is handed out is the message with the number of its notification. -/
def Decoded (s : RdmaNet) (p : Pop) : Prop :=
  ∃ x, s.sent[p.note.uid]? = some x ∧ x.sender = p.note.endpoint ∧ x.msg.msgMeta.recver = p.node ∧
    (isValidPushpull x.msg → p.msg.msgMeta.header = x.msg.msgMeta.header)

structure NetOk (cfg : RdmaCfg) (s : RdmaNet) : Prop where
  pool : PoolInv cfg s
  proto : Rendezvous.Inv (s.abs cfg)
  van : ∀ n, VanOk cfg (s.vans n)
  chan : ∀ l, ∀ wr ∈ s.chan l, wr.OnLink l
  known : ∀ n key push recver t, (s.vans n).remoteInfo key push recver = some t →
    (s.abs cfg).slots recver t.idx = some ⟨t.metaAddr, n, t.msgBuf⟩
  cmd : ∀ n, ∀ note ∈ (s.vans n).recvBuffers, note.cmd = 0
  plain : ∀ x ∈ s.sent, isValidPushpull x.msg = false → ((s.vans x.sender).msgBufs x.buf).data = []
  sendable : ∀ x ∈ s.sent, Sendable x.msg
  popped : ∀ p ∈ s.popped, Decoded s p

/-- After a step the invariant holds, and the protocol has taken a step or seen nothing of it. -/
structure Next (cfg : RdmaCfg) (s s' : RdmaNet) : Prop where
  ok : NetOk cfg s'
  refines : Rendezvous.Step (s.abs cfg) (s'.abs cfg) ∨ s'.abs cfg = s.abs cfg

variable {cfg : RdmaCfg} {s s' : RdmaNet} {n : NodeId}

theorem netOk_init (cfg : RdmaCfg) (isServer : NodeId → Bool) : NetOk cfg (init cfg isServer) where
  pool := .init cfg isServer
  proto := Rendezvous.Inv.init (headOf fun _ => 0)
  van n := .init n (isServer n)
  chan _ _ h := nomatch h
  known _ _ push _ _ h := by cases push <;> cases h
  cmd _ _ h := nomatch h
  plain _ h := nomatch h
  sendable _ h := nomatch h
  popped _ h := nomatch h

theorem Decoded.mono {p : Pop} (h : Decoded s p) (hsent : s.sent <+: s'.sent) : Decoded s' p := by
  obtain ⟨x, hx, hrest⟩ := h
  exact ⟨x, hsent.getElem?_some hx, hrest⟩

namespace NetOk

/-- A step of one van that is a step of the protocol, or one that the protocol does not see. -/
theorem of_step {van : RdmaVan} (h : NetOk cfg s) (hvans : s'.vans = Function.update s.vans n van)
    (hpool : PoolInv cfg s') (hproto : Rendezvous.Step (s.abs cfg) (s'.abs cfg) ∨ s'.abs cfg = s.abs cfg)
    (hvan : VanOk cfg van) (hchan : ∀ l, ∀ wr ∈ s'.chan l, wr.OnLink l)
    (hknown : ∀ key push recver t, van.remoteInfo key push recver = some t →
      (s.vans n).remoteInfo key push recver = some t ∨
        (s.abs cfg).slots recver t.idx = some ⟨t.metaAddr, n, t.msgBuf⟩)
    (hcmd : ∀ note ∈ van.recvBuffers, note.cmd = 0)
    (hplain : ∀ x ∈ s'.sent, isValidPushpull x.msg = false → ((s'.vans x.sender).msgBufs x.buf).data = [])
    (hsent : s.sent <+: s'.sent) (hsendable : ∀ x ∈ s'.sent, Sendable x.msg)
    (hpopped : ∀ p ∈ s'.popped, p ∈ s.popped ∨ Decoded s' p) : Next cfg s s' where
  refines := hproto
  ok := {
    pool := hpool
    proto := hproto.elim h.proto.step fun heq => heq ▸ h.proto
    van := by
      rw [hvans]
      exact (Function.forall_update_iff s.vans fun _ van => VanOk cfg van).mpr ⟨hvan, fun c _ => h.van c⟩
    chan := hchan
    known c key push recver t ht := by
      have hslot : (s.abs cfg).slots recver t.idx = some ⟨t.metaAddr, c, t.msgBuf⟩ := by
        rw [hvans] at ht
        rcases eq_or_ne c n with rfl | hc
        · rw [Function.update_self] at ht
          exact (hknown key push recver t ht).elim (h.known c key push recver t) id
        · rw [Function.update_of_ne hc] at ht
          exact h.known c key push recver t ht
      rcases hproto with hproto | heq
      · exact hproto.slots_mono hslot
      · rw [heq]
        exact hslot
    cmd := by
      rw [hvans]
      exact (Function.forall_update_iff s.vans fun _ van => ∀ note ∈ van.recvBuffers, note.cmd = 0).mpr
        ⟨hcmd, fun c _ => h.cmd c⟩
    plain := hplain
    sendable := hsendable
    popped p hp := (hpopped p hp).elim (fun hp => (h.popped p hp).mono hsent) id }

theorem of_local {van : RdmaVan} (h : NetOk cfg s) (hvans : s'.vans = Function.update s.vans n van)
    (hsent : s'.sent = s.sent) (hpool : PoolInv cfg s')
    (hproto : Rendezvous.Step (s.abs cfg) (s'.abs cfg) ∨ s'.abs cfg = s.abs cfg) (hvan : VanOk cfg van)
    (hchan : ∀ l, ∀ wr ∈ s'.chan l, wr.OnLink l)
    (hknown : ∀ key push recver t, van.remoteInfo key push recver = some t →
      (s.vans n).remoteInfo key push recver = some t ∨
        (s.abs cfg).slots recver t.idx = some ⟨t.metaAddr, n, t.msgBuf⟩)
    (hcmd : ∀ note ∈ van.recvBuffers, note.cmd = 0)
    (hdata : ∀ i, (van.msgBufs i).data = ((s.vans n).msgBufs i).data)
    (hpopped : ∀ p ∈ s'.popped, p ∈ s.popped ∨ Decoded s' p) : Next cfg s s' := by
  refine h.of_step hvans hpool hproto hvan hchan hknown hcmd (fun x hx hv => ?_)
    (hsent ▸ List.prefix_refl _) (hsent ▸ h.sendable) hpopped
  rw [hsent] at hx
  have hx' := h.plain x hx hv
  rw [hvans]
  rcases eq_or_ne x.sender n with hn | hn
  · rw [hn, Function.update_self, hdata, ← hn, hx']
  · rw [Function.update_of_ne hn, hx']

theorem chan_post (h : NetOk cfg s) {a b : NodeId} {out : Posted}
    (hout : ∀ p ∈ out, p.2.OnLink ⟨a, b, p.1, p.2.isReply⟩) (l : Link) :
    ∀ wr ∈ (s.post a b out).chan l, wr.OnLink l := by
  intro wr hwr
  rcases List.mem_append.mp hwr with hwr | hwr
  · exact h.chan l wr hwr
  · split_ifs at hwr with hl
    · obtain ⟨p, hp, rfl⟩ := List.mem_map.mp hwr
      obtain ⟨hp, hq⟩ := List.mem_filter.mp hp
      obtain ⟨hqp, hback⟩ := of_decide_eq_true hq
      have := hout p hp
      rwa [hqp, hback, ← hl.1, ← hl.2] at this
    · cases hwr

theorem onLink_of_writes {a b : NodeId} {t : RemoteTuple} {bytes : List UInt8} {uid : Nat} {out : Posted} {f : Buf}
    (h : RdmaVan.Writes t bytes uid out) (hbytes : ∀ i < metaEnd, bytes[i]? = some (f i)) :
    ∀ p ∈ out, p.2.OnLink ⟨a, b, p.1, p.2.isReply⟩ := by
  have hlen : metaEnd ≤ bytes.length := by
    by_contra hlt
    have := hbytes bytes.length (Nat.lt_of_not_le hlt)
    simp at this
  intro p hp
  rcases h.2 p hp with rfl | hp
  · exact ⟨rfl, rfl, hlen⟩
  · obtain ⟨q, wr⟩ := p
    cases wr <;> first | exact hp | exact hp.elim

/-! ### `SendMsg` -/

section send
variable {van₀ van : RdmaVan} {out : Posted} {m : Message} {buf : Nat}

theorem plain_snoc (h : NetOk cfg s) (hm : Sendable m)
    (hnew : isValidPushpull m = false → (van.msgBufs buf).data = m.data)
    (hold : ∀ x ∈ s.sent, isValidPushpull x.msg = false → x.sender = n →
      (van.msgBufs x.buf).data = ((s.vans n).msgBufs x.buf).data) :
    ∀ x ∈ s.sent ++ [⟨n, m, buf⟩], isValidPushpull x.msg = false →
      ((Function.update s.vans n van x.sender).msgBufs x.buf).data = [] := by
  intro x hx hv
  rcases List.mem_append.mp hx with hx | hx
  · have hx' := h.plain x hx hv
    rcases eq_or_ne x.sender n with hn | hn
    · rw [hn, Function.update_self, hold x hx hv hn, ← hn, hx']
    · rw [Function.update_of_ne hn, hx']
  · obtain rfl := List.mem_singleton.mp hx
    rw [Function.update_self, hnew hv]
    exact (hm.plain hv).1

theorem sendable_snoc (h : NetOk cfg s) (hm : Sendable m) : ∀ x ∈ s.sent ++ [⟨n, m, buf⟩], Sendable x.msg := by
  intro x hx
  rcases List.mem_append.mp hx with hx | hx
  · exact h.sendable x hx
  · obtain rfl := List.mem_singleton.mp hx
    exact hm

theorem sendFirst (h : NetOk cfg s) (hcore : van₀.core = (s.vans n).core) (hm : Sendable m)
    (hsend : van₀.sendFirst cfg m s.sent.length = some (van, out))
    (hpool : PoolInv cfg { (s.setVan n van).post n m.msgMeta.recver out with
      sent := s.sent ++ [⟨n, m, (s.vans n).nextBuf⟩] }) :
    Next cfg s { (s.setVan n van).post n m.msgMeta.recver out with
      sent := s.sent ++ [⟨n, m, (s.vans n).nextBuf⟩] } := by
  have hnext₀ : van₀.nextBuf = (s.vans n).nextBuf := congrArg VanCore.nextBuf hcore
  have hbufs₀ : van₀.msgBufs = (s.vans n).msgBufs := congrArg VanCore.msgBufs hcore
  have hrecv₀ : van₀.recvBuffers = (s.vans n).recvBuffers := congrArg VanCore.recvBuffers hcore
  have hinfo₀ := (RdmaVan.samePool_of_core hcore).info
  have hvan := ((h.van n).of_core hcore).sendFirst hm.le_getPackMetaLen hsend
  obtain ⟨mrs, req, rfl, rfl, horigin⟩ := RdmaVan.sendFirst_eq_some hsend
  refine h.of_step rfl hpool (.inl ?_) hvan (chan_post h (by simp [WorkRequest.OnLink, WorkRequest.isReply]))
    (fun key push recver t ht => .inl (hinfo₀ ▸ ht)) (hrecv₀ ▸ h.cmd n) ?_ (List.prefix_append ..)
    (h.sendable_snoc hm) fun p hp => .inl hp
  · rw [abs_first (x := ⟨n, m, (s.vans n).nextBuf⟩) rfl rfl (horigin.trans hnext₀) (by
      rw [RdmaVan.view_storeMsgBuf, RdmaVan.view_of_core hcore, hnext₀])]
    exact .first _ rfl
  · refine h.plain_snoc hm (fun _ => ?_) fun x hx hv hsender => ?_
    · simp [RdmaVan.storeMsgBuf, RdmaVan.setMsgBuf, hnext₀, RdmaVan.prepareNewMsgBuf, MessageBuffer.pack]
    · have hne : x.buf ≠ (s.vans n).nextBuf := Nat.ne_of_lt ((h.pool.sender n).buf x hx hsender)
      simp [RdmaVan.storeMsgBuf, RdmaVan.setMsgBuf, hnext₀, hbufs₀, hne]

theorem sendCached {t : RemoteTuple} (hp : 0 < cfg.pagesize) (h : NetOk cfg s)
    (hcore : van₀.core = (s.vans n).core) (hm : Sendable m) (hv : isValidPushpull m)
    (hreq : m.msgMeta.request = true → m.data ≠ [])
    (ht : (s.vans n).remoteInfo m.msgMeta.key m.msgMeta.push m.msgMeta.recver = some t)
    (hsend : van₀.sendCached cfg m t s.sent.length = some (van, out))
    (hord : ∀ (u : Nat) x, s.sent[u]? = some x → isValidPushpull x.msg → x.sender = n →
      x.msg.msgMeta.recver = m.msgMeta.recver → x.msg.msgMeta.key = m.msgMeta.key →
      x.msg.msgMeta.push = m.msgMeta.push → u ∈ s.poppedFrom n m.msgMeta.recver)
    (hpool : PoolInv cfg { (s.setVan n van).post n m.msgMeta.recver out with
      sent := s.sent ++ [⟨n, m, t.msgBuf⟩] }) :
    Next cfg s { (s.setVan n van).post n m.msgMeta.recver out with sent := s.sent ++ [⟨n, m, t.msgBuf⟩] } := by
  have hbufs₀ : van₀.msgBufs = (s.vans n).msgBufs := congrArg VanCore.msgBufs hcore
  have hrecv₀ : van₀.recvBuffers = (s.vans n).recvBuffers := congrArg VanCore.recvBuffers hcore
  have hinfo₀ := (RdmaVan.samePool_of_core hcore).info
  have hok₀ : VanOk cfg van₀ := (h.van n).of_core hcore
  obtain ⟨hlt, hnone⟩ := hok₀.info _ _ _ t (hinfo₀ ▸ ht)
  obtain ⟨-, -, hkind⟩ := RdmaVan.sendCached_eq_some hsend
  have hrefill : VanOk cfg (van₀.refill cfg t m) := hok₀.refill hlt hnone
  have hsent := RdmaVan.sent_sendByKind hp (hrefill.inlineLen _ hlt) hkind
  have hvan := hrefill.sent hlt hsent
  have hview : van.view = (s.vans n).view := (RdmaVan.view_of_sent hsent).trans
    ((show (van₀.refill cfg t m).view = van₀.view from rfl).trans (RdmaVan.view_of_core hcore))
  have hdata := RdmaVan.data_of_sent hsent
  have hinfo : van.remoteInfo = (s.vans n).remoteInfo := (RdmaVan.samePool_sendByKind hkind).info.trans hinfo₀
  obtain ⟨b, bytes, -, hbytes, hcore', hwrites⟩ := hsent
  have hrecv : van.recvBuffers = (s.vans n).recvBuffers := (congrArg VanCore.recvBuffers hcore').trans hrecv₀
  have hhead : bytesHead bytes = metaHead cfg m.msgMeta := by
    refine (holds_packMeta cfg m.msgMeta (van₀.msgBufs t.msgBuf).inlineBuf).bytesHead fun i hi => ?_
    rw [hbytes i hi]
    simp [RdmaVan.refill, RdmaVan.setMsgBuf, MessageBuffer.pack, MessageBuffer.setData]
  obtain ⟨y, hy, hsender, hbuf, hrecver, hkey, hpush⟩ := (h.pool.sender n).info _ _ _ t ht
  obtain ⟨v, hget⟩ := List.getElem?_of_mem hy
  -- the address was not stored for a control or simple-app message: those have no arrays
  have hvy : isValidPushpull y.msg = true := by
    by_contra hvy
    rw [Bool.not_eq_true] at hvy
    have hnil := h.plain y hy hvy
    rw [hsender, hbuf, ← hbufs₀] at hnil
    exact RdmaVan.data_ne_nil_of_sendCached hsend (hpush.symm.trans ((h.sendable y hy).plain hvy).2) hreq hnil
  have hplain : ∀ x ∈ s.sent, isValidPushpull x.msg = false → x.sender = n → x.buf ≠ t.msgBuf := by
    rintro x hx hvx hxn hxt
    obtain ⟨u, hu⟩ := List.getElem?_of_mem hx
    obtain ⟨-, hroute⟩ := h.proto.route_eq (sent_abs hu) (sent_abs hget) (hxn.trans hsender.symm)
      (hxt.trans hbuf.symm)
    rw [← show isValidPushpull x.msg = isValidPushpull y.msg from congrArg Prod.fst hroute, hvx] at hvy
    cases hvy
  refine h.of_step rfl hpool (.inl ?_) hvan (chan_post h (onLink_of_writes hwrites hbytes))
    (fun key push recver t ht => .inl (hinfo ▸ ht)) (hrecv ▸ h.cmd n) ?_ (List.prefix_append ..)
    (h.sendable_snoc hm) fun p hp => .inl hp
  · rw [abs_cached (x := ⟨n, m, t.msgBuf⟩) rfl hview hwrites hhead]
    refine .cached _ (y.item cfg) v _ (sent_abs hget) hsender hrecver ?_ hbuf (h.known n _ _ _ t ht) ?_
    · simp [SentMsg.item, hv, hvy, hkey, hpush]
    · intro u z hz hsrc hdst hroute
      obtain ⟨x, hx, rfl⟩ := of_sent_abs hz
      obtain ⟨hvx, hkx, hpx⟩ : isValidPushpull x.msg = true ∧ x.msg.msgMeta.key = m.msgMeta.key ∧
          x.msg.msgMeta.push = m.msgMeta.push := by
        simpa [SentMsg.item, hv] using hroute
      rw [poppedFrom_abs]
      exact hord u x hx hvx hsrc hdst hkx hpx
  · refine h.plain_snoc hm (fun hv' => absurd hv (by simp [hv'])) fun x hx hvx hxn => ?_
    rw [hdata]
    simp [RdmaVan.refill, RdmaVan.setMsgBuf, hbufs₀, hplain x hx hvx hxn]

theorem sendMsg {msg : Message} (hp : 0 < cfg.pagesize) (h : NetOk cfg s)
    (hord : s.OrderedIfKnown (.sendMsg n msg))
    (hs : step cfg s (.sendMsg n msg) = some s') : Next cfg s s' := by
  have hpool := h.pool.step hs
  obtain ⟨⟨van, out, m, buf⟩, hsend, hs⟩ := Option.bind_eq_some_iff.mp hs
  obtain ⟨hsendable, hord⟩ := hord
  obtain ⟨-, hm, van₀, hcore, hpath⟩ := RdmaVan.sendMsg_eq_some hsend
  obtain rfl := Option.some.inj hs
  rcases hpath with ⟨-, rfl, hfirst⟩ | ⟨t, hv, ht, rfl, hcached⟩
  · exact h.sendFirst hcore (hm.sendable hsendable) hfirst hpool
  · have hsendable' := hm.sendable hsendable
    obtain ⟨⟨option, rfl, -⟩, hreq⟩ := hm
    replace hv : isValidPushpull msg = true := hv
    have hknown : (s.vans n).remoteInfo (RdmaVan.messageKey msg) msg.msgMeta.push msg.msgMeta.recver ≠ none := by
      simp only [hv, if_true] at ht
      simp [ht]
    refine h.sendCached hp hcore hsendable' hv (hreq hv) ht hcached (fun u x hx hvx hsender hrecver hkey hpush => ?_)
      hpool
    exact (hord hknown).2 hv u x hx hvx hsender hrecver (by simpa [hv] using hkey) hpush

end send

/-! ### The network and `PollCQ` -/

theorem deliver {l : Link} (h : NetOk cfg s) (hs : step cfg s (.deliver l) = some s') : Next cfg s s' := by
  have hpool := h.pool.step hs
  obtain ⟨wr, rest, hchan, hs'⟩ := step_deliver_eq_some hs
  obtain ⟨hrecv, hbufs⟩ := RdmaVan.receive_frame (s.vans l.dst) (s.vans l.src).ram wr
  have hsame := RdmaVan.samePool_receive (s.vans l.dst) (s.vans l.src).ram wr
  refine h.of_local (congrArg vans hs') (by rw [hs']; rfl) hpool ?_ ((h.van l.dst).receive _ wr) (fun k wr' hwr' => ?_)
    (fun key push recver t ht => .inl (hsame.info ▸ ht)) (hrecv ▸ h.cmd l.dst) (fun i => by rw [hbufs])
    fun p hp => .inl (by rwa [hs'] at hp)
  · have hon := h.chan l wr (by rw [hchan]; exact List.mem_cons_self)
    cases wr with
    | rendezvousStart req =>
      have hl : l = ⟨l.src, l.dst, 0, false⟩ := by rw [← hon.1, ← hon.2]
      have habs : s'.abs cfg = (s.abs cfg).deliver l.src l.dst (.ask req.originAddr)
          (rest.filterMap WorkRequest.req) := by
        rw [hs']
        exact abs_deliver hl hchan rfl rfl rfl rfl rfl rfl (mem_setVan_same cfg rfl)
      rw [habs]
      exact .inl (.deliver _ _ _ _ (out_abs_cons hl hchan rfl))
    | rendezvousReply resp =>
      have hl : l = ⟨l.src, l.dst, 0, true⟩ := by rw [← hon.1, ← hon.2]
      have habs : s'.abs cfg = (s.abs cfg).deliverBack l.src l.dst resp.originAddr ⟨resp.idx, resp.metaAddr⟩
          (rest.filterMap WorkRequest.answer) := by
        rw [hs']
        exact abs_deliverBack hl hchan
      rw [habs]
      exact .inl (.deliverBack _ _ _ _ _ (back_abs_cons hl hchan rfl))
    | writeImm dst bytes imm uid =>
      obtain ⟨hqp, hback, hlen⟩ := hon
      have hl : l = ⟨l.src, l.dst, 0, false⟩ := by rw [← hqp, ← hback]
      have hview : ((s.vans l.dst).writeAt (.buffer dst 0) bytes).view = _ := RdmaVan.view_writeAt_head hlen
      have habs : s'.abs cfg = (s.abs cfg).deliver l.src l.dst (.write ⟨imm, dst⟩ (bytesHead bytes) uid)
          (rest.filterMap WorkRequest.req) := by
        rw [hs']
        refine abs_deliver hl hchan rfl rfl rfl rfl rfl rfl ?_
        refine (mem_setVan cfg s).trans ?_
        rw [show ((s.vans l.dst).receive (s.vans l.src).ram (.writeImm dst bytes imm uid)).1.view = _ from hview]
        exact set_eq_update.symm
      rw [habs]
      exact .inl (.deliver _ _ _ _ (out_abs_cons hl hchan rfl))
    | write dst src len =>
      refine .inr ?_
      rw [hs']
      exact abs_deliver_payload hchan rfl rfl rfl (RdmaVan.view_writeAt_behind hon _)
    | writeChunkImm dst src len imm =>
      refine .inr ?_
      rw [hs']
      exact abs_deliver_payload hchan rfl rfl rfl (RdmaVan.view_writeAt_behind hon _)
  · rw [hs'] at hwr'
    replace hwr' : wr' ∈ Function.update s.chan l rest k := hwr'
    refine h.chan k wr' ?_
    rcases eq_or_ne k l with rfl | hk
    · rw [Function.update_self] at hwr'
      rw [hchan]
      exact List.mem_cons_of_mem _ hwr'
    · rwa [Function.update_of_ne hk] at hwr'

theorem pollCQ_start {ep : NodeId} {req : RendezvousStart} {rest : List (NodeId × Completion)} {van : RdmaVan}
    {out : Posted} (h : NetOk cfg s) (hcq : s.cq n = (ep, .recvStart req) :: rest)
    (hreply : (s.vans n).sendRendezvousReply cfg ep req = some (van, out))
    (hpool : PoolInv cfg { (s.setVan n van).post n ep out with cq := Function.update s.cq n rest }) :
    Next cfg s { (s.setVan n van).post n ep out with cq := Function.update s.cq n rest } := by
  have hvan := (h.van n).sendRendezvousReply hreply
  obtain ⟨resp, rfl, horigin, hblk, hnone, hview⟩ := RdmaVan.view_sendRendezvousReply hreply
  obtain ⟨_, _, _, -, -, -, -, -, -, ⟨keyToMr, nextGpu, rfl⟩, -⟩ := RdmaVan.sendRendezvousReply_eq_some hreply
  refine h.of_local rfl rfl hpool (.inl ?_) hvan (chan_post h (by simp [WorkRequest.OnLink, WorkRequest.isReply]))
    (fun key push recver t ht => .inl ht) (h.cmd n) (fun i => rfl) fun p hp => .inl hp
  rw [abs_ask horigin rfl hblk hview]
  refine .ask _ _ _ _ _ _ ?_ hnone fun i sl hsl => ?_
  · show arrivals (s.cq n) = _
    rw [hcq]
    rfl
  · obtain ⟨ctx, hctx, rfl⟩ := Option.map_eq_some_iff.mp hsl
    exact Nat.ne_of_lt ((h.van n).pool i ctx hctx).2

theorem pollCQ_reply {ep : NodeId} {resp : RendezvousReply} {rest : List (NodeId × Completion)} {van : RdmaVan}
    {out : Posted} (hp : 0 < cfg.pagesize) (h : NetOk cfg s) (hcq : s.cq n = (ep, .recvReply resp) :: rest)
    (hreply : (s.vans n).recvReply cfg ep resp = some (van, out))
    (hpool : PoolInv cfg { (s.setVan n van).post n ep out with cq := Function.update s.cq n rest }) :
    Next cfg s { (s.setVan n van).post n ep out with cq := Function.update s.cq n rest } := by
  have hcq' : (s.abs cfg).cq n = (ep, .answer resp.originAddr ⟨resp.idx, resp.metaAddr⟩) :: arrivals rest := by
    show arrivals (s.cq n) = _
    rw [hcq]
    rfl
  have hmem : (ep, .answer resp.originAddr ⟨resp.idx, resp.metaAddr⟩) ∈ (s.abs cfg).cq n := by
    rw [hcq']
    exact List.mem_cons_self
  obtain ⟨uid, m, hcache, -, -, -, hinfo, -⟩ := RdmaVan.recvReply_frame hreply
  obtain ⟨hlt, hholds⟩ := (h.van n).cache _ uid m hcache
  obtain ⟨uid', m', bytes, hcache', hbytes, hwrites, hview, hrecv, hdata⟩ :=
    RdmaVan.view_recvReply hp ((h.van n).inlineLen _ hlt) hreply
  obtain ⟨rfl, rfl⟩ := Prod.mk.inj (Option.some.inj (hcache'.symm.trans hcache))
  have hwait : (s.abs cfg).waiting n resp.originAddr = some uid' := congrArg (Option.map Prod.fst) hcache
  have hsent := (h.pool.sender n).cache _ uid' m' hcache
  -- the answer comes from the receiver of the message that waits
  have hrecver : m'.msgMeta.recver = ep := by
    have hask : resp.originAddr ∈ (s.abs cfg).asks n ep := by
      refine List.mem_append_left _ (List.mem_append_left _ (List.mem_append_left _ ?_))
      exact List.mem_filterMap.mpr ⟨_, hmem, if_pos rfl⟩
    obtain ⟨u, x, hu, hx, hdst⟩ := (h.proto.mem_asks n ep _).mp hask
    obtain rfl := Option.some.inj (hwait.symm.trans hu)
    obtain rfl := Option.some.inj ((sent_abs hsent).symm.trans hx)
    exact hdst
  refine h.of_local rfl rfl hpool (.inl ?_) ((h.van n).recvReply hp hreply)
    (chan_post h (onLink_of_writes hwrites hbytes)) (fun key push recver t ht => ?_) (hrecv ▸ h.cmd n) hdata
    fun p hp => .inl hp
  · rw [abs_answer hwrites hview, hholds.bytesHead hbytes]
    exact .answer n ep _ _ uid' _ _ hcq' hwait (sent_abs hsent)
  · rw [hinfo, RdmaVan.remoteInfo_storeRemoteAndLocalInfo] at ht
    split_ifs at ht with hkey
    · obtain rfl := Option.some.inj ht
      refine .inr ?_
      rw [hkey.2.2, hrecver]
      exact h.proto.answers n ep _ _ (.inr hmem)
    · exact .inl ht

theorem pollCQ_imm {ep : NodeId} {imm : Nat} {u : Option Nat} {rest : List (NodeId × Completion)} {van : RdmaVan}
    (hbits : cfg.poolSize ≤ 0x8000) (h : NetOk cfg s) (hcq : s.cq n = (ep, .recvImm imm u) :: rest)
    (himm : (s.vans n).recvImm ep imm u = some van)
    (hpool : PoolInv cfg { s.setVan n van with cq := Function.update s.cq n rest }) :
    Next cfg s { s.setVan n van with cq := Function.update s.cq n rest } := by
  have hsame := RdmaVan.samePool_recvImm himm
  have hframe : (∀ note ∈ van.recvBuffers, note.cmd = 0) ∧ van.msgBufs = (s.vans n).msgBufs := by
    rcases RdmaVan.recvImm_eq_some himm with ⟨-, rfl⟩ | ⟨-, ctx, v, -, -, rfl⟩
    · exact ⟨h.cmd n, rfl⟩
    · refine ⟨fun note hnote => ?_, rfl⟩
      rcases List.mem_append.mp hnote with hnote | hnote
      · exact h.cmd n note hnote
      · rw [List.mem_singleton.mp hnote]
  refine h.of_local rfl rfl hpool ?_ ((h.van n).recvImm himm) h.chan
    (fun key push recver t ht => .inl (hsame.info ▸ ht)) hframe.1 (fun i => by rw [hframe.2]) fun p hp => .inl hp
  have hcq' : (s.abs cfg).cq n = ((Completion.recvImm imm u).arrival.map (ep, ·)).toList ++ arrivals rest := by
    show arrivals (s.cq n) = _
    rw [hcq]
    cases u <;> rfl
  rcases RdmaVan.view_recvImm himm with ⟨hbit, hview⟩ | ⟨-, v, sl, rfl, hslot, hview⟩
  · cases u with
    | none => exact .inr (abs_skip hview hcq')
    | some v =>
      -- a notification names an entry of the pool, and those are below the bit
      obtain ⟨sl, hslot, -⟩ := h.proto.notes ep n imm v (by rw [hcq']; exact List.mem_cons_self)
      obtain ⟨ctx, hctx, -⟩ := Option.map_eq_some_iff.mp hslot
      exact absurd (RdmaVan.and_bit15_of_lt (Nat.lt_of_lt_of_le ((h.van n).pool imm ctx hctx).1 hbits)) hbit
  · rw [abs_note hview]
    exact .inl (.note n ep imm v sl _ hcq' hslot)

theorem pollCQ (hp : 0 < cfg.pagesize) (hbits : cfg.poolSize ≤ 0x8000) (h : NetOk cfg s)
    (hs : step cfg s (.pollCQ n) = some s') : Next cfg s s' := by
  have hpool := h.pool.step hs
  rw [step] at hs
  split at hs
  · rename_i ep wc rest hcq
    obtain ⟨⟨van, out⟩, hpoll, hs⟩ := Option.bind_eq_some_iff.mp hs
    obtain rfl := Option.some.inj hs
    cases wc with
    | recvStart req => exact h.pollCQ_start hcq hpoll hpool
    | recvReply resp => exact h.pollCQ_reply hp hcq hpoll hpool
    | recvImm imm u =>
      obtain ⟨van', himm, heq⟩ := Option.map_eq_some_iff.mp hpoll
      obtain ⟨rfl, rfl⟩ := Prod.mk.inj heq
      dsimp only at hpool ⊢
      rw [post_nil] at hpool ⊢
      exact h.pollCQ_imm hbits hcq himm hpool
  · cases hs

/-! ### `RecvMsg` -/

theorem holds_of_note (h : NetOk cfg s) {note : Notification} (hnote : note ∈ (s.vans n).recvBuffers) :
    ∃ x, s.sent[note.uid]? = some x ∧ x.sender = note.endpoint ∧ x.msg.msgMeta.recver = n ∧
      Holds cfg x.msg.msgMeta ((s.vans n).mem note.ctx.metaBuffer) := by
  obtain ⟨⟨z, hz, hsrc, hdst, -, -, hmem⟩, -⟩ := h.proto.recv n note.note (List.mem_map_of_mem hnote)
  obtain ⟨x, hx, rfl⟩ := of_sent_abs hz
  exact ⟨x, hx, hsrc, hdst, hmem⟩

theorem recvMsg (h : NetOk cfg s) (hs : step cfg s (.recvMsg n) = some s') : Next cfg s s' := by
  have hpool := h.pool.step hs
  obtain ⟨⟨van, note, msg⟩, hrecv, hs⟩ := Option.bind_eq_some_iff.mp hs
  obtain rfl := Option.some.inj hs
  obtain ⟨rest, m, hbufs, rfl, -, hunpack, hmsg⟩ := RdmaVan.recvMsg_eq_some hrecv
  have hnote : note ∈ (s.vans n).recvBuffers := by
    rw [hbufs]
    exact List.mem_cons_self
  have hrecv' : (s.abs cfg).recv n = note.note :: rest.map Notification.note := by
    show (s.vans n).recvBuffers.map Notification.note = _
    rw [hbufs]
    rfl
  refine h.of_local rfl rfl hpool (.inl ?_) ?_ h.chan (fun key push recver t ht => .inl ht)
    (fun note' hnote' => h.cmd n note' (by rw [hbufs]; exact List.mem_cons_of_mem _ hnote')) (fun i => rfl) ?_
  · have habs : ({ s.setVan n { s.vans n with recvBuffers := rest } with
        popped := s.popped ++ [⟨n, note, msg⟩] } : RdmaNet).abs cfg =
        (s.abs cfg).pop n note.note (rest.map Notification.note) := abs_pop rfl
    rw [habs]
    exact .pop n _ _ hrecv'
  · exact ⟨(h.van n).inlineLen, (h.van n).cache, (h.van n).info, (h.van n).pool, (h.van n).free⟩
  · intro p hp
    refine (List.mem_append.mp hp).imp_right fun hp => ?_
    obtain rfl := List.mem_singleton.mp hp
    obtain ⟨x, hx, hsrc, hdst, hmem⟩ := h.holds_of_note hnote
    refine ⟨x, hx, hsrc, hdst, fun hv => ?_⟩
    have hsendable := h.sendable x (List.mem_of_getElem? hx)
    have hdata : x.msg.msgMeta.control.cmd = .empty := by
      simp only [isValidPushpull, Bool.and_eq_true, decide_eq_true_eq] at hv
      exact hv.1
    rw [hmsg (h.cmd n note hnote)]
    exact (hmem.header_eq hdata (hsendable.fits hv) hsendable.len hunpack : m.header = _)

theorem next (hp : 0 < cfg.pagesize) (hbits : cfg.poolSize ≤ 0x8000) (h : NetOk cfg s) {act : Action}
    (hord : s.OrderedIfKnown act) (hs : RdmaNet.step cfg s act = some s') : Next cfg s s' := by
  cases act with
  | sendMsg n msg => exact h.sendMsg hp hord hs
  | deliver l => exact h.deliver hs
  | pollCQ n => exact h.pollCQ hp hbits hs
  | recvMsg n => exact h.recvMsg hs
  | store n addr bytes =>
    have hpool := h.pool.step hs
    obtain rfl := Option.some.inj hs
    refine h.of_local rfl rfl hpool (.inr (abs_setVan_of_view cfg rfl)) ((h.van n).of_core rfl) h.chan
      (fun key push recver t ht => .inl ht) (h.cmd n) (fun i => rfl) fun p hp => .inl hp

theorem step (hp : 0 < cfg.pagesize) (hbits : cfg.poolSize ≤ 0x8000) (h : NetOk cfg s) {act : Action}
    (hord : s.OrderedIfKnown act) (hs : RdmaNet.step cfg s act = some s') : NetOk cfg s' :=
  (h.next hp hbits hord hs).ok

end NetOk

/-- A notification of the message is filed, or its write, its request or the answer to it is under way. -/
def UnderWay (s : RdmaNet) (u : Nat) (x : SentMsg) : Prop :=
  (∃ note ∈ (s.vans x.msg.msgMeta.recver).recvBuffers, note.endpoint = x.sender ∧ note.uid = u) ∨
    (∃ wc, (x.sender, wc) ∈ s.cq x.msg.msgMeta.recver ∧
      (wc.signal .notify = some u ∨ wc.signal .start = some x.buf)) ∨
    (∃ wr ∈ s.chan ⟨x.sender, x.msg.msgMeta.recver, 0, false⟩,
      wr.signal .notify = some u ∨ wr.signal .start = some x.buf) ∨
    (∃ wr ∈ s.chan ⟨x.msg.msgMeta.recver, x.sender, 0, true⟩, wr.signal .reply = some x.buf) ∨
    ∃ wc, (x.msg.msgMeta.recver, wc) ∈ s.cq x.sender ∧ wc.signal .reply = some x.buf

section underWay
variable {a b : NodeId} {v : Nat} (sig : Signal)

theorem exists_of_mem_out {g : Req Buf → Option Nat} (hg : ∀ wr : WorkRequest, wr.req.bind g = wr.signal sig)
    (hv : v ∈ ((s.abs cfg).out a b).filterMap g) : ∃ wr ∈ s.chan ⟨a, b, 0, false⟩, wr.signal sig = some v := by
  obtain ⟨r, hr, hv⟩ := List.mem_filterMap.mp hv
  obtain ⟨wr, hwr, hreq⟩ := List.mem_filterMap.mp hr
  exact ⟨wr, hwr, by rw [← hg, hreq, Option.bind_some, hv]⟩

theorem exists_of_mem_cq {g : Rendezvous.Arrival → Option Nat}
    (hg : ∀ wc : Completion, wc.arrival.bind g = wc.signal sig)
    (hv : v ∈ ((s.abs cfg).cq b).filterMap (Rendezvous.only a g)) :
    ∃ wc, (a, wc) ∈ s.cq b ∧ wc.signal sig = some v := by
  obtain ⟨e, he, hv⟩ := List.mem_filterMap.mp hv
  obtain ⟨⟨c, wc⟩, hwc, he⟩ := List.mem_filterMap.mp he
  obtain ⟨r, hr, rfl⟩ := Option.map_eq_some_iff.mp he
  obtain ⟨rfl, hgr⟩ := Option.ite_none_right_eq_some.mp hv
  exact ⟨wc, hwc, by rw [← hg, hr, Option.bind_some, hgr]⟩

theorem exists_of_mem_back (hv : v ∈ ((s.abs cfg).back b a).filterMap fun e => some e.1) :
    ∃ wr ∈ s.chan ⟨b, a, 0, true⟩, wr.signal .reply = some v := by
  obtain ⟨e, he, hv⟩ := List.mem_filterMap.mp hv
  obtain ⟨wr, hwr, he⟩ := List.mem_filterMap.mp he
  refine ⟨wr, hwr, ?_⟩
  rw [← hv]
  cases wr with
  | rendezvousReply resp =>
    obtain rfl := Option.some.inj he
    rfl
  | _ => cases he

theorem NetOk.popped_or_underWay (h : NetOk cfg s) {u : Nat} {x : SentMsg} (hx : s.sent[u]? = some x) :
    u ∈ s.poppedFrom x.sender x.msg.msgMeta.recver ∨ s.UnderWay u x := by
  rcases h.proto.popped_or_under_way (sent_abs hx) with hpop | hpipe | hasks
  · exact .inl (poppedFrom_abs cfg s _ _ ▸ hpop)
  · refine .inr ?_
    simp only [Rendezvous.State.pipe, Rendezvous.State.arrived, List.mem_append] at hpipe
    rcases hpipe with (hrecv | hcq) | hout
    · obtain ⟨nt, hnt, hu⟩ := List.mem_filterMap.mp hrecv
      obtain ⟨note, hnote, rfl⟩ := List.mem_map.mp hnt
      split_ifs at hu with hpeer
      · exact .inl ⟨note, hnote, hpeer, Option.some.inj hu⟩
    · obtain ⟨wc, hwc, hu⟩ := exists_of_mem_cq .notify (by rintro (_ | _ | ⟨_, _ | _⟩) <;> rfl) hcq
      exact .inr (.inl ⟨wc, hwc, .inl hu⟩)
    · obtain ⟨wr, hwr, hu⟩ := exists_of_mem_out .notify (by rintro (_ | _ | _ | _ | _) <;> rfl) hout
      exact .inr (.inr (.inl ⟨wr, hwr, .inl hu⟩))
  · refine .inr ?_
    simp only [Rendezvous.State.asks, List.mem_append] at hasks
    rcases hasks with ((hcq | hback) | hcq) | hout
    · obtain ⟨wc, hwc, hu⟩ := exists_of_mem_cq .reply (by rintro (_ | _ | ⟨_, _ | _⟩) <;> rfl) hcq
      exact .inr (.inr (.inr (.inr ⟨wc, hwc, hu⟩)))
    · obtain ⟨wr, hwr, hu⟩ := exists_of_mem_back hback
      exact .inr (.inr (.inr (.inl ⟨wr, hwr, hu⟩)))
    · obtain ⟨wc, hwc, hu⟩ := exists_of_mem_cq .start (by rintro (_ | _ | ⟨_, _ | _⟩) <;> rfl) hcq
      exact .inr (.inl ⟨wc, hwc, .inr hu⟩)
    · obtain ⟨wr, hwr, hu⟩ := exists_of_mem_out .start (by rintro (_ | _ | _ | _ | _) <;> rfl) hout
      exact .inr (.inr (.inl ⟨wr, hwr, .inr hu⟩))

end underWay

theorem NetOk.popped_nodup (h : NetOk cfg s) : (s.popped.map (·.note.uid)).Nodup := by
  rw [List.nodup_iff_sublist]
  intro u hu
  obtain ⟨ps, hps, hmap⟩ := List.sublist_map_iff.mp hu
  obtain ⟨p, ps, rfl, hpu, hmap⟩ := List.map_eq_cons_iff.mp hmap.symm
  obtain ⟨q, ps, rfl, hqu, hmap⟩ := List.map_eq_cons_iff.mp hmap
  obtain rfl := List.map_eq_nil_iff.mp hmap
  obtain ⟨x, hx, hxs, hxr, -⟩ := h.popped p (hps.subset (by simp))
  obtain ⟨y, hy, hys, hyr, -⟩ := h.popped q (hps.subset (by simp))
  rw [hpu] at hx
  rw [hqu] at hy
  obtain rfl := Option.some.inj (hx.symm.trans hy)
  have hnodup := h.proto.poppedFrom_nodup x.sender x.msg.msgMeta.recver
  rw [poppedFrom_abs] at hnodup
  have hsub : List.Sublist [u, u] (s.poppedFrom x.sender x.msg.msgMeta.recver) := by
    have hq : q.node = p.node ∧ q.note.endpoint = p.note.endpoint := ⟨hyr.symm.trans hxr, hys.symm.trans hxs⟩
    have hfilter := hps.filterMap fun p => if p.node = x.msg.msgMeta.recver ∧ p.note.endpoint = x.sender then
      some p.note.uid else none
    simpa [poppedFrom, hxs, hxr, hq, hpu, hqu] using hfilter
  exact List.nodup_iff_sublist.mp hnodup u hsub

/-! ### A pool with index `0x8000` -/

end RdmaNet

namespace RdmaVan
variable {van : RdmaVan}

/-- The request for a message without arrays. -/
def plainStart (van : RdmaVan) (m : Message) : RendezvousStart :=
  { metaLen := (getPackMetaLen m.msgMeta).toNat, dataLen := [], originAddr := van.nextBuf, key := m.msgMeta.key }

theorem sendMsg_plain (cfg : RdmaCfg) (uid : Nat) {m : Message} (hdata : m.data = []) (hreq : m.msgMeta.request = false)
    (hrecver : m.msgMeta.recver ≠ kEmpty) (hlen : 0 < getPackMetaLen m.msgMeta)
    (hinfo : isValidPushpull m → van.remoteInfo m.msgMeta.key m.msgMeta.push m.msgMeta.recver = none) :
    van.sendMsg cfg m uid = some (van.storeMsgBuf (prepareNewMsgBuf cfg m) m uid,
      [(0, .rendezvousStart (van.plainStart m))], m, van.nextBuf) := by
  have hadd : van.addMeta m = some m := by
    have hguard : (guard (m.msgMeta.request = true → m.data ≠ []) : Option Unit) = some () :=
      if_pos (by simp [hreq])
    have hkey : messageKey m = m.msgMeta.key := if_neg (by simp [hreq])
    rw [addMeta, hguard, hkey, if_neg (by simp [hreq])]
    rfl
  have hprep : van.prepareData m (prepareNewMsgBuf cfg m) = some (prepareNewMsgBuf cfg m) :=
    if_neg (by simp [hreq])
  have hfirst : van.sendFirst cfg m uid = some (van.storeMsgBuf (prepareNewMsgBuf cfg m) m uid,
      [(0, .rendezvousStart (van.plainStart m))]) := by
    rw [sendFirst, hprep, ite_self]
    simp [sendRendezvousBegin, hdata, plainStart, prepareNewMsgBuf, MessageBuffer.pack]
  have hcached : (if isValidPushpull m then
      van.remoteInfo m.msgMeta.key m.msgMeta.push m.msgMeta.recver else none) = none := by
    split_ifs with hv
    · exact hinfo hv
    · rfl
  simp [sendMsg, registerMemory, hdata, registerData, hreq, hadd, hrecver, hlen, hcached, hfirst]

theorem recvReply_plain (cfg : RdmaCfg) (van : RdmaVan) (ep : NodeId) (resp : RendezvousReply) {m : Message} {uid : Nat}
    (hcache : van.msgbufCache resp.originAddr = some (uid, m)) (hreq : m.msgMeta.request = false)
    (hpush : m.msgMeta.push = true) (hmrs : (van.msgBufs resp.originAddr).mrs = []) : ∃ van' bytes,
    van.recvReply cfg ep resp = some (van', [(0, .writeImm resp.metaAddr bytes resp.idx uid)]) := by
  refine ⟨(van.storeRemoteAndLocalInfo m resp.remoteTuple).releaseFirstMsg resp.originAddr,
    (van.msgBufs resp.originAddr).inlineBuf.load 0 (van.msgBufs resp.originAddr).inlineLen, ?_⟩
  simp [recvReply, hcache, sendByKind, hreq, hpush, send, storeRemoteAndLocalInfo, hmrs, rdmaWriteWithImm,
    RendezvousReply.remoteTuple]

theorem sendRendezvousReply_of_free (cfg : RdmaCfg) (ep : NodeId) (req : RendezvousStart) {idx : Nat}
    {rest : List Nat} (hserver : van.isServer = false) (hlen : req.metaLen ≠ 0)
    (hind : van.addrPool.indices = idx :: rest) (hnone : van.addrPool.table idx = none) :
    ∃ ctx, van.sendRendezvousReply cfg ep req = some ({ van.alloc.2 with
        addrPool := { table := Function.update van.addrPool.table idx (some ctx), indices := rest } },
      [(0, .rendezvousReply { metaAddr := van.nextBlock, originAddr := req.originAddr, idx := idx })]) := by
  let ctx : BufferContext :=
    { metaBuffer := van.nextBlock, metaLen := req.metaLen, dataNum := req.dataLen.length
      origin := (ep, req.originAddr) }
  have hstore : van.addrPool.storeAddress ctx = _ := AddressPool.storeAddress_eq_some.mpr ⟨rest, hind, hnone, rfl⟩
  refine ⟨ctx, ?_⟩
  simp [sendRendezvousReply, hserver, hlen, alloc, ctx, hstore]

end RdmaVan

namespace RdmaNet

/-- The pools have `size` entries. -/
def crowdCfg (size : Nat) : RdmaCfg := { gdr := false, poolSize := size }

/-- Node 9 has given away its first `n` entries, and nothing is under way but answers to the scheduler. -/
structure Crowded (size n : Nat) (s : RdmaNet) : Prop where
  isServer : (s.vans 9).isServer = false
  indices : (s.vans 9).addrPool.indices = List.range' n (size - n)
  table : ∀ idx, n ≤ idx → (s.vans 9).addrPool.table idx = none
  recv : (s.vans 9).recvBuffers = []
  unknown : (s.vans 8).pushAddr 0 9 = none
  chan : ∀ l, l.dst ≠ kScheduler → s.chan l = []
  cq : ∀ c, s.cq c = []
  sent : ∀ x ∈ s.sent, isValidPushpull x.msg = false
  popped : s.popped = []

theorem crowded_init (size : Nat) : Crowded size 0 (init (crowdCfg size) fun _ => false) where
  isServer := rfl
  indices := List.range_eq_range'
  table _ _ := rfl
  recv := rfl
  unknown := rfl
  chan _ _ := rfl
  cq _ := rfl
  sent _ h := nomatch h
  popped := rfl

/-- A message of node `a` to node 9 up to the answer. -/
def ask (a : NodeId) (m : Message) : List Action := [.sendMsg a m, .deliver ⟨a, 9, 0, false⟩, .pollCQ 9]

variable {s : RdmaNet} {size n : Nat} {a : NodeId}

/-- The state after the answer. -/
def answered (s : RdmaNet) (size n : Nat) (a : NodeId) (m : Message) (ctx : BufferContext) : RdmaNet where
  vans := Function.update (Function.update s.vans a
      ((s.vans a).storeMsgBuf (RdmaVan.prepareNewMsgBuf (crowdCfg size) m) m s.sent.length)) 9
    { (s.vans 9).alloc.2 with addrPool :=
      { table := Function.update (s.vans 9).addrPool.table n (some ctx)
        indices := List.range' (n + 1) (size - (n + 1)) } }
  chan := Function.update s.chan ⟨9, a, 0, true⟩ (s.chan ⟨9, a, 0, true⟩ ++
    [.rendezvousReply { metaAddr := (s.vans 9).nextBlock, originAddr := (s.vans a).nextBuf, idx := n }])
  cq := s.cq
  sent := s.sent ++ [⟨a, m, (s.vans a).nextBuf⟩]
  posted := s.posted
  popped := s.popped

theorem exec_ask (h : Crowded size n s) (hn : n < size) (ha : a ≠ 9) {m : Message} (hdata : m.data = [])
    (hreq : m.msgMeta.request = false) (hrecver : m.msgMeta.recver = 9) (hlen : 0 < getPackMetaLen m.msgMeta)
    (hinfo : isValidPushpull m → (s.vans a).remoteInfo m.msgMeta.key m.msgMeta.push 9 = none) :
    ∃ ctx, Run.exec (step (crowdCfg size)) s (ask a m) = some (s.answered size n a m ctx) := by
  obtain ⟨k, hk⟩ : ∃ k, size - n = k + 1 := ⟨size - n - 1, by omega⟩
  have hk' : size - (n + 1) = k := by omega
  have hsend := RdmaVan.sendMsg_plain (crowdCfg size) s.sent.length hdata hreq (by rw [hrecver]; decide) hlen
    (by rwa [hrecver])
  obtain ⟨ctx, hreply⟩ := RdmaVan.sendRendezvousReply_of_free (crowdCfg size) a ((s.vans a).plainStart m)
    h.isServer (by simp only [RdmaVan.plainStart]; omega) (by rw [h.indices, hk, List.range'_succ])
    (h.table n (Nat.le_refl n))
  refine ⟨ctx, ?_⟩
  have hchan : s.chan ⟨a, 9, 0, false⟩ = [] := h.chan _ (show (9 : NodeId) ≠ kScheduler by decide)
  have hchan' : Function.update s.chan ⟨a, 9, 0, false⟩ [] = s.chan := by rw [← hchan, Function.update_eq_self]
  have hcq : Function.update s.cq 9 [] = s.cq := by rw [← h.cq 9, Function.update_eq_self]
  have hstart : ∀ (t : RdmaNet) req, t.post a 9 [(0, .rendezvousStart req)] = { t with
      chan := Function.update t.chan ⟨a, 9, 0, false⟩ (t.chan ⟨a, 9, 0, false⟩ ++ [.rendezvousStart req]) } :=
    fun t req => post_single t a 9 0 rfl
  have hanswer : ∀ (t : RdmaNet) resp, t.post 9 a [(0, .rendezvousReply resp)] = { t with
      chan := Function.update t.chan ⟨9, a, 0, true⟩ (t.chan ⟨9, a, 0, true⟩ ++ [.rendezvousReply resp]) } :=
    fun t resp => post_single t 9 a 0 rfl
  have horigin : ((s.vans a).plainStart m).originAddr = (s.vans a).nextBuf := rfl
  simp [ask, Run.exec, step, hsend, hstart, hanswer, hrecver, hchan, hchan', RdmaVan.receive, h.cq, hcq, setVan,
    ha.symm, RdmaVan.pollCQ, hreply, answered, hk', horigin]

/-- An answer of the scheduler to a heartbeat. -/
def beat : Message := { msgMeta := { recver := 9, control := { cmd := .heartbeat } } }

theorem Crowded.answered (h : Crowded size n s) (ctx : BufferContext) :
    Crowded size (n + 1) (s.answered size n kScheduler beat ctx) where
  isServer := by simpa [RdmaNet.answered, RdmaVan.alloc] using h.isServer
  indices := by simp [RdmaNet.answered]
  table idx hidx := by
    have hne : idx ≠ n := Nat.ne_of_gt hidx
    simpa [RdmaNet.answered, hne] using h.table idx (Nat.le_of_lt hidx)
  recv := by simpa [RdmaNet.answered, RdmaVan.alloc] using h.recv
  unknown := by simpa [RdmaNet.answered, kScheduler] using h.unknown
  chan l hl := by
    have hne : l ≠ ⟨9, kScheduler, 0, true⟩ := fun heq => hl (by rw [heq])
    simpa [RdmaNet.answered, hne] using h.chan l hl
  cq := h.cq
  sent x hx := by
    rcases List.mem_append.mp hx with hx | hx
    · exact h.sent x hx
    · rw [List.mem_singleton.mp hx]
      rfl
  popped := h.popped

theorem exec_beats (size : Nat) (hn : n ≤ size) : ∃ s,
    Run.exec (step (crowdCfg size)) (init (crowdCfg size) fun _ => false)
      (List.replicate n (ask kScheduler beat)).flatten = some s ∧ Crowded size n s := by
  induction n with
  | zero => exact ⟨_, rfl, crowded_init size⟩
  | succ n ih =>
    obtain ⟨s, hrun, h⟩ := ih (Nat.le_of_succ_le hn)
    obtain ⟨ctx, hask⟩ := exec_ask h hn (show kScheduler ≠ 9 by decide) (m := beat) rfl rfl rfl (by decide)
      (fun hv => absurd hv (by decide))
    refine ⟨_, ?_, h.answered ctx⟩
    rw [List.replicate_succ', List.flatten_append, Run.exec_append, hrun, List.flatten_singleton, Option.bind_some,
      hask]

/-- An answer of node 8 to a push. -/
def ack : Message := { msgMeta := { push := true, recver := 9 } }

def ackRun : List Action :=
  ask 8 ack ++ [.deliver ⟨9, 8, 0, true⟩, .pollCQ 8, .deliver ⟨8, 9, 0, false⟩, .pollCQ 9]

/-- The notification of entry `0x8000` looks like a chunk. -/
theorem exec_ack (h : Crowded size 0x8000 s) (hn : 0x8000 < size) : ∃ s',
    Run.exec (step (crowdCfg size)) s ackRun = some s' ∧
      s'.sent = s.sent ++ [⟨8, ack, (s.vans 8).nextBuf⟩] ∧ s'.popped = [] ∧ (s'.vans 9).recvBuffers = [] ∧
      (∀ c, s'.cq c = []) ∧ s'.chan ⟨8, 9, 0, false⟩ = [] ∧ s'.chan ⟨9, 8, 0, true⟩ = [] := by
  obtain ⟨ctx, hask⟩ := exec_ask h hn (show (8 : NodeId) ≠ 9 by decide) (m := ack) rfl rfl rfl (by decide)
    fun _ => h.unknown
  obtain ⟨van, bytes, hreply⟩ := RdmaVan.recvReply_plain (crowdCfg size) ((s.answered size 0x8000 8 ack ctx).vans 8)
    9 { metaAddr := (s.vans 9).nextBlock, originAddr := (s.vans 8).nextBuf, idx := 0x8000 } (m := ack)
    (by simp [RdmaNet.answered, RdmaVan.storeMsgBuf]; rfl) rfl rfl
    (by simp [RdmaNet.answered, RdmaVan.storeMsgBuf, RdmaVan.setMsgBuf, RdmaVan.prepareNewMsgBuf, MessageBuffer.pack])
  rw [ackRun, Run.exec_append, hask, Option.bind_some]
  have hback : s.chan ⟨9, 8, 0, true⟩ = [] := h.chan _ (show (8 : NodeId) ≠ kScheduler by decide)
  have hout : s.chan ⟨8, 9, 0, false⟩ = [] := h.chan _ (show (9 : NodeId) ≠ kScheduler by decide)
  have hrecv : ((s.answered size 0x8000 8 ack ctx).vans 9).recvBuffers = [] := h.recv
  have hback' : (s.answered size 0x8000 8 ack ctx).chan ⟨9, 8, 0, true⟩ = [.rendezvousReply
      { metaAddr := (s.vans 9).nextBlock, originAddr := (s.vans 8).nextBuf, idx := 0x8000 }] := by
    simp [RdmaNet.answered, hback]
  have hout' : (s.answered size 0x8000 8 ack ctx).chan ⟨8, 9, 0, false⟩ = [] := by
    simp [RdmaNet.answered, hout]
  have hcq : (s.answered size 0x8000 8 ack ctx).cq = fun _ => [] := funext h.cq
  have hsent : (s.answered size 0x8000 8 ack ctx).sent = s.sent ++ [⟨8, ack, (s.vans 8).nextBuf⟩] := rfl
  have hpopped : (s.answered size 0x8000 8 ack ctx).popped = [] := h.popped
  generalize s.answered size 0x8000 8 ack ctx = t at *
  simp [Run.exec, step, hback', RdmaVan.receive, RdmaVan.pollCQ, hreply, setVan, hcq, chan_post_single, hout',
    WorkRequest.isReply, RdmaVan.recvImm, RdmaVan.writeAt, RdmaVan.modifyMem, hrecv, hpopped, hsent, post_nil]

end RdmaNet

end StepMesh
