import Mathlib.Data.Finset.Dedup
import StepMesh.RdmaNet
import StepMesh.RdmaPayload
import StepMesh.Postoffice
import StepMesh.Lib.ListAux

/-!
# The entries of the address pools that are in use

A node takes an entry of its pool for every rendezvous that it answers and gives none back
(`GetAddressAndRelease` is never called). A data message starts a rendezvous only while the address of
its key is unknown, a control or simple-app message always. So an entry stands for a message buffer of
a peer, and the buffers opened towards a node bound its entries.
-/

namespace StepMesh

namespace RdmaVan

variable {cfg : RdmaCfg} {van van' : RdmaVan} {msg m : Message} {t : RemoteTuple} {ep : NodeId}
  {out : Posted} {uid : Nat}

theorem sendByKind_frame (h : van.sendByKind cfg ep msg t uid = some (van', out)) :
    (∃ b count, van' = { van.withInline t.msgBuf b with qpPktCount := count }) ∧
      ∀ p ∈ out, p.2.signal .start = none := by
  rcases sendByKind_eq_some h with ⟨-, heq⟩ | ⟨-, dst, src, -, heq⟩
  · obtain ⟨rfl, rfl⟩ := Prod.mk.inj heq
    refine ⟨⟨(van'.msgBufs t.msgBuf).inlineBuf, van'.qpPktCount, by rw [withInline_self]⟩, ?_⟩
    simp [rdmaWriteWithImm, WorkRequest.signal]
  · have hvan : van' = (van.writePayload cfg ep t dst src (payloadLen msg) uid).1 := congrArg Prod.fst heq
    have hout : out = (van.writePayload cfg ep t dst src (payloadLen msg) uid).2 := congrArg Prod.snd heq
    refine ⟨hvan ▸ writePayload_frame .., ?_⟩
    rw [hout, writePayload]
    split_ifs
    · simp only [List.mem_append, List.mem_cons, List.mem_map, List.not_mem_nil, or_false]
      rintro p ((rfl | rfl) | ⟨k, -, rfl⟩) <;> rfl
    · simp [rdmaWriteWithImm, WorkRequest.signal]

/-- Nothing changes in what the node knows of its message buffers. -/
structure SameBufs (van van' : RdmaVan) : Prop where
  nextBuf : van'.nextBuf = van.nextBuf
  cache : van'.msgbufCache = van.msgbufCache
  info : van'.remoteInfo = van.remoteInfo

/-- Nor in its pool. -/
structure SamePool (van van' : RdmaVan) : Prop extends SameBufs van van' where
  pool : van'.addrPool = van.addrPool

theorem samePool_of_eq (hpush : van'.pushAddr = van.pushAddr) (hpull : van'.pullAddr = van.pullAddr)
    (hnext : van'.nextBuf = van.nextBuf) (hcache : van'.msgbufCache = van.msgbufCache)
    (hpool : van'.addrPool = van.addrPool) : SamePool van van' := by
  refine ⟨⟨hnext, hcache, ?_⟩, hpool⟩
  funext key push recver
  rw [remoteInfo, remoteInfo, hpush, hpull]

theorem SamePool.trans {van'' : RdmaVan} (h : SamePool van van') (h' : SamePool van' van'') :
    SamePool van van'' :=
  ⟨⟨h'.nextBuf.trans h.nextBuf, h'.cache.trans h.cache, h'.info.trans h.info⟩, h'.pool.trans h.pool⟩

theorem samePool_of_core (h : van'.core = van.core) : SamePool van van' :=
  samePool_of_eq (congrArg VanCore.pushAddr h) (congrArg VanCore.pullAddr h) (congrArg VanCore.nextBuf h)
    (congrArg VanCore.msgbufCache h) (congrArg VanCore.addrPool h)

theorem samePool_sendByKind (h : van.sendByKind cfg ep msg t uid = some (van', out)) :
    SamePool van van' := by
  obtain ⟨⟨b, count, rfl⟩, -⟩ := sendByKind_frame h
  exact samePool_of_eq rfl rfl rfl rfl rfl

theorem samePool_recvImm {imm : Nat} {u : Option Nat} (h : van.recvImm ep imm u = some van') :
    SamePool van van' := by
  rcases recvImm_eq_some h with ⟨-, rfl⟩ | ⟨-, _, _, -, -, rfl⟩ <;> exact samePool_of_eq rfl rfl rfl rfl rfl

theorem samePool_receive (van : RdmaVan) (ram : Buf) (wr : WorkRequest) :
    SamePool van (van.receive ram wr).1 := by
  have hwrite : ∀ dst bs, SamePool van (van.writeAt dst bs) := by
    intro dst bs
    cases dst <;> exact samePool_of_eq rfl rfl rfl rfl rfl
  cases wr with
  | rendezvousStart | rendezvousReply => exact samePool_of_eq rfl rfl rfl rfl rfl
  | write | writeChunkImm => exact hwrite _ _
  | writeImm dst => exact hwrite (.buffer dst 0) _

theorem sendRendezvousReply_frame {req : RendezvousStart}
    (h : van.sendRendezvousReply cfg ep req = some (van', out)) :
    ∃ ctx idx, ctx.origin = (ep, req.originAddr) ∧
      van.addrPool.storeAddress ctx = some (idx, van'.addrPool) ∧ SameBufs van van' ∧
      ∀ p ∈ out, p.2.signal .start = none := by
  obtain ⟨ctx, resp, pool, -, -, horigin, hstore, -, -, ⟨keyToMr, nextGpu, rfl⟩, rfl⟩ :=
    sendRendezvousReply_eq_some h
  exact ⟨ctx, resp.idx, horigin, hstore, ⟨rfl, rfl, rfl⟩, by simp [WorkRequest.signal]⟩

theorem signal_receive (van : RdmaVan) (ram : Buf) (wr : WorkRequest) :
    (van.receive ram wr).2.bind (·.signal .start) = wr.signal .start := by
  cases wr <;> rfl

/-- A first message takes a new message buffer and asks for an address, another one does neither. -/
theorem sendMsg_frame {buf : Nat} (h : van.sendMsg cfg msg uid = some (van', out, m, buf)) :
    SentAs msg m ∧
      (((isValidPushpull m → van.remoteInfo m.msgMeta.key m.msgMeta.push m.msgMeta.recver = none) ∧
          buf = van.nextBuf ∧ van'.nextBuf = van.nextBuf + 1 ∧ van'.addrPool = van.addrPool ∧
          van'.msgbufCache = Function.update van.msgbufCache van.nextBuf (some (uid, m)) ∧
          van'.remoteInfo = van.remoteInfo ∧
          ∃ req, out = [(0, .rendezvousStart req)] ∧ req.originAddr = van.nextBuf) ∨
        ∃ t, isValidPushpull m ∧
          van.remoteInfo m.msgMeta.key m.msgMeta.push m.msgMeta.recver = some t ∧ buf = t.msgBuf ∧
          SamePool van van' ∧ ∀ p ∈ out, p.2.signal .start = none) := by
  obtain ⟨-, hsent, van₀, hcore, hpath⟩ := sendMsg_eq_some h
  have hsame := samePool_of_core hcore
  refine ⟨hsent, hpath.imp ?_ ?_⟩
  · rintro ⟨hinfo, hbuf, hfirst⟩
    obtain ⟨mrs, req, rfl, hout, horigin⟩ := sendFirst_eq_some hfirst
    rw [hsame.nextBuf] at horigin
    refine ⟨hinfo, hbuf, congrArg (· + 1) hsame.nextBuf, hsame.pool, ?_, hsame.info, req, hout, horigin⟩
    simp [storeMsgBuf, hsame.cache, hsame.nextBuf]
  · rintro ⟨t, hv, hinfo, hbuf, hcached⟩
    obtain ⟨-, -, hkind⟩ := sendCached_eq_some hcached
    have hrefill : SamePool van₀ (van₀.refill cfg t m) := samePool_of_eq rfl rfl rfl rfl rfl
    exact ⟨t, hv, hinfo, hbuf, hsame.trans (hrefill.trans (samePool_sendByKind hkind)),
      (sendByKind_frame hkind).2⟩

/-- The message that waited is written, and its buffer is known for its key from now on. -/
theorem recvReply_frame {resp : RendezvousReply} (h : van.recvReply cfg ep resp = some (van', out)) :
    ∃ uid m, van.msgbufCache resp.originAddr = some (uid, m) ∧
      van'.nextBuf = van.nextBuf ∧ van'.addrPool = van.addrPool ∧
      van'.msgbufCache = Function.update van.msgbufCache resp.originAddr none ∧
      van'.remoteInfo = (van.storeRemoteAndLocalInfo m resp.remoteTuple).remoteInfo ∧
      ∀ p ∈ out, p.2.signal .start = none := by
  obtain ⟨⟨uid, m⟩, hcache, h⟩ := Option.bind_eq_some_iff.mp h
  obtain ⟨⟨van₁, out₁⟩, hsend, h⟩ := Option.bind_eq_some_iff.mp h
  obtain ⟨rfl, rfl⟩ := Prod.mk.inj (Option.some.inj h)
  have hstore : van₁.nextBuf = van.nextBuf ∧ van₁.addrPool = van.addrPool ∧
      van₁.msgbufCache = van.msgbufCache ∧
      van₁.remoteInfo = (van.storeRemoteAndLocalInfo m resp.remoteTuple).remoteInfo ∧
      ∀ p ∈ out₁, p.2.signal .start = none := by
    obtain ⟨pushAddr, pullAddr, hframe⟩ := storeRemoteAndLocalInfo_frame van m resp.remoteTuple
    rw [hframe] at hsend ⊢
    split_ifs at hsend
    · have hsame := samePool_sendByKind hsend
      exact ⟨hsame.nextBuf, hsame.pool, hsame.cache, hsame.info, (sendByKind_frame hsend).2⟩
    · obtain ⟨rfl, rfl⟩ := Prod.mk.inj (Option.some.inj hsend)
      exact ⟨rfl, rfl, rfl, rfl, by simp [rdmaWriteWithImm, WorkRequest.signal]⟩
  obtain ⟨hnext, hpool, hcache', hinfo, hout⟩ := hstore
  exact ⟨uid, m, hcache, hnext, hpool, by simp [releaseFirstMsg, hcache'], hinfo, hout⟩

end RdmaVan

namespace RdmaNet

open RdmaVan (samplePush sampleCfg)

/-! ### Messages, buffers and requests -/

/-- The message buffers, with their nodes, from which messages have been sent to a node. -/
def opened (s : RdmaNet) (b : NodeId) : Finset (NodeId × Nat) :=
  ((s.sent.filter fun x => x.msg.msgMeta.recver = b).map fun x => (x.sender, x.buf)).toFinset

/-- The senders, keys and kinds of the data messages to a node. -/
def triples (s : RdmaNet) (b : NodeId) : Finset (NodeId × Key × Bool) :=
  ((s.sent.filter fun x => isValidPushpull x.msg ∧ x.msg.msgMeta.recver = b).map fun x =>
    (x.sender, x.msg.msgMeta.key, x.msg.msgMeta.push)).toFinset

/-- The control and simple-app messages to a node that `RecvMsg` has not handed out. -/
def controlInFlight (s : RdmaNet) (b : NodeId) : Nat :=
  s.sent.zipIdx.countP fun (x, uid) => !isValidPushpull x.msg && x.msg.msgMeta.recver = b &&
    !s.popped.any fun p => p.node = b ∧ p.note.uid = uid

/-- A data message with an unknown address is the first one of its sender with its key and kind, and only
data messages are handed out. -/
def Frugal (s : RdmaNet) : Action → Prop
  | .sendMsg n msg => isValidPushpull msg →
    (s.vans n).remoteInfo (RdmaVan.messageKey msg) msg.msgMeta.push msg.msgMeta.recver = none →
    (n, RdmaVan.messageKey msg, msg.msgMeta.push) ∉ s.triples msg.msgMeta.recver
  | .recvMsg n => ∀ note ∈ (s.vans n).recvBuffers.head?, ∃ x ∈ s.sent[note.uid]?, isValidPushpull x.msg
  | _ => True

/-- The requests in a channel, by the message buffers they are for. -/
def starts (s : RdmaNet) (l : Link) : List Nat := (s.chan l).filterMap (·.signal .start)

/-- The requests from `a` in a completion queue. -/
def arrived (a : NodeId) (cq : List (NodeId × Completion)) : List Nat :=
  cq.filterMap fun p => if p.1 = a then p.2.signal .start else none

/-- The requests from `a` to `b` that have not been answered. -/
def asked (s : RdmaNet) (a b : NodeId) : List Nat := arrived a (s.cq b) ++ s.starts ⟨a, b, 0, false⟩

variable {cfg : RdmaCfg} {s s' : RdmaNet} {a b n : NodeId} {out : Posted}

theorem mem_opened {u : Nat} : (a, u) ∈ s.opened b ↔
    ∃ x ∈ s.sent, x.msg.msgMeta.recver = b ∧ x.sender = a ∧ x.buf = u := by
  simp [opened, and_assoc]

theorem opened_mono (h : s.sent ⊆ s'.sent) (b : NodeId) : s.opened b ⊆ s'.opened b := by
  rintro ⟨a, u⟩ hu
  obtain ⟨x, hx, hxu⟩ := mem_opened.mp hu
  exact mem_opened.mpr ⟨x, h hx, hxu⟩

/-! ### The buffers of the senders -/

/-- A message that waits is the one with its number, and a known address belongs to a message with the
key, the kind and the receiver that it is known for. -/
structure SenderOk (s : RdmaNet) (n : NodeId) (van : RdmaVan) : Prop where
  buf : ∀ x ∈ s.sent, x.sender = n → x.buf < van.nextBuf
  cache : ∀ (i uid : Nat) m, van.msgbufCache i = some (uid, m) → s.sent[uid]? = some ⟨n, m, i⟩
  info : ∀ key push recver t, van.remoteInfo key push recver = some t → ∃ x ∈ s.sent, x.sender = n ∧
    x.buf = t.msgBuf ∧ x.msg.msgMeta.recver = recver ∧ x.msg.msgMeta.key = key ∧ x.msg.msgMeta.push = push

namespace SenderOk

variable {van van' : RdmaVan}

theorem of_sameBufs (h : SenderOk s n van) (hsame : RdmaVan.SameBufs van van') : SenderOk s n van' where
  buf := by simpa only [hsame.nextBuf] using h.buf
  cache := by simpa only [hsame.cache] using h.cache
  info := by simpa only [hsame.info] using h.info

theorem opened_of_info {key : Key} {push : Bool} {recver : NodeId} {t : RemoteTuple} (h : SenderOk s n van)
    (ht : van.remoteInfo key push recver = some t) : (n, t.msgBuf) ∈ s.opened recver := by
  obtain ⟨x, hx, hsender, hbuf, hrecver, -⟩ := h.info key push recver t ht
  exact mem_opened.mpr ⟨x, hx, hrecver, hsender, hbuf⟩

theorem lt_nextBuf {u : Nat} (h : SenderOk s n van) (hu : (n, u) ∈ s.opened b) : u < van.nextBuf := by
  obtain ⟨x, hx, -, hsender, rfl⟩ := mem_opened.mp hu
  exact h.buf x hx hsender

theorem record (h : SenderOk s n van) {x : SentMsg} (hsent : s'.sent = s.sent ++ [x])
    (hx : x.sender = n → x.buf < van.nextBuf) : SenderOk s' n van := by
  refine ⟨fun y hy hsender => ?_, fun i uid m hm => ?_, fun key push recver t ht => ?_⟩
  · rw [hsent, List.mem_append, List.mem_singleton] at hy
    rcases hy with hy | rfl
    · exact h.buf y hy hsender
    · exact hx hsender
  · rw [hsent]
    exact List.getElem?_snoc_of_eq_some (h.cache i uid m hm) x
  · obtain ⟨y, hy, hrest⟩ := h.info key push recver t ht
    exact ⟨y, hsent ▸ List.mem_append_left _ hy, hrest⟩

theorem record_first (h : SenderOk s n van) {x : SentMsg} (hsent : s'.sent = s.sent ++ [x])
    (hx : x.sender = n) (hbuf : x.buf = van.nextBuf) (hnext : van'.nextBuf = van.nextBuf + 1)
    (hcache : van'.msgbufCache = Function.update van.msgbufCache van.nextBuf (some (s.sent.length, x.msg)))
    (hinfo : van'.remoteInfo = van.remoteInfo) : SenderOk s' n van' := by
  refine ⟨fun y hy hsender => ?_, fun i uid m hm => ?_, fun key push recver t ht => ?_⟩
  · rw [hsent, List.mem_append, List.mem_singleton] at hy
    rcases hy with hy | rfl
    · have := h.buf y hy hsender
      omega
    · omega
  · rw [hcache] at hm
    rw [hsent]
    rcases eq_or_ne i van.nextBuf with rfl | hi
    · rw [Function.update_self] at hm
      obtain ⟨rfl, rfl⟩ := Prod.mk.inj (Option.some.inj hm)
      rw [List.getElem?_concat_length, ← hbuf, ← hx]
    · rw [Function.update_of_ne hi] at hm
      exact List.getElem?_snoc_of_eq_some (h.cache i uid m hm) x
  · rw [hinfo] at ht
    obtain ⟨y, hy, hrest⟩ := h.info key push recver t ht
    exact ⟨y, hsent ▸ List.mem_append_left _ hy, hrest⟩

theorem store (h : SenderOk s n van) {i uid : Nat} {m : Message} {t : RemoteTuple}
    (hm : van.msgbufCache i = some (uid, m)) (ht : t.msgBuf = i) (hnext : van'.nextBuf = van.nextBuf)
    (hcache : van'.msgbufCache = Function.update van.msgbufCache i none)
    (hinfo : van'.remoteInfo = (van.storeRemoteAndLocalInfo m t).remoteInfo) : SenderOk s n van' := by
  refine ⟨fun x hx hsender => hnext ▸ h.buf x hx hsender, fun j uid' m' hm' => ?_,
    fun key push recver t' ht' => ?_⟩
  · rw [hcache] at hm'
    rcases eq_or_ne j i with rfl | hj
    · rw [Function.update_self] at hm'
      cases hm'
    · rw [Function.update_of_ne hj] at hm'
      exact h.cache j uid' m' hm'
  · rw [hinfo, RdmaVan.remoteInfo_storeRemoteAndLocalInfo] at ht'
    split_ifs at ht' with hkey
    · obtain rfl := Option.some.inj ht'
      obtain ⟨rfl, rfl, rfl⟩ := hkey
      exact ⟨_, List.mem_of_getElem? (h.cache i uid m hm), rfl, ht.symm, rfl, rfl, rfl⟩
    · exact h.info key push recver t' ht'

end SenderOk

/-! ### The requests on their way -/

/-- Requests travel on the first queue pair only. A message buffer is asked for at most once: its request
is on its way or has an entry. -/
structure AskInv (cfg : RdmaCfg) (s : RdmaNet) : Prop where
  lanes : ∀ l : Link, l.qp ≠ 0 ∨ l.back = true → s.starts l = []
  nodup : ∀ a b, (s.asked a b).Nodup
  asked : ∀ a b, ∀ u ∈ s.asked a b, (a, u) ∈ s.opened b
  filed : ∀ b idx ctx, (s.vans b).addrPool.table idx = some ctx →
    ctx.origin ∈ s.opened b ∧ ctx.origin.2 ∉ s.asked ctx.origin.1 b
  single : ∀ b idx idx' ctx ctx', (s.vans b).addrPool.table idx = some ctx →
    (s.vans b).addrPool.table idx' = some ctx' → ctx.origin = ctx'.origin → idx = idx'
  pool : ∀ b, (s.vans b).addrPool.Ok cfg.poolSize

theorem AskInv.init (cfg : RdmaCfg) (isServer : NodeId → Bool) : AskInv cfg (init cfg isServer) where
  lanes _ _ := rfl
  nodup _ _ := List.nodup_nil
  asked _ _ _ h := nomatch h
  filed _ _ _ h := nomatch h
  single _ _ _ _ _ h := nomatch h
  pool _ := AddressPool.ok_init _

theorem AskInv.frame (h : AskInv cfg s) (hpool : ∀ n, (s'.vans n).addrPool = (s.vans n).addrPool)
    (hlanes : ∀ l : Link, l.qp ≠ 0 ∨ l.back = true → s'.starts l = [])
    (hasked : ∀ a b, s'.asked a b = s.asked a b) (hsent : s.sent ⊆ s'.sent) : AskInv cfg s' where
  lanes := hlanes
  nodup a b := hasked a b ▸ h.nodup a b
  asked a b u hu := opened_mono hsent b (h.asked a b u (hasked a b ▸ hu))
  filed b idx ctx hctx := by
    obtain ⟨hmem, hnot⟩ := h.filed b idx ctx (hpool b ▸ hctx)
    exact ⟨opened_mono hsent b hmem, hasked ctx.origin.1 b ▸ hnot⟩
  single b idx idx' ctx ctx' hctx hctx' := h.single b idx idx' ctx ctx' (hpool b ▸ hctx) (hpool b ▸ hctx')
  pool b := hpool b ▸ h.pool b

theorem starts_post_of_none (h : ∀ p ∈ out, p.2.signal .start = none) (s : RdmaNet) (a b : NodeId) (l : Link) :
    (s.post a b out).starts l = s.starts l := by
  have hnil : ∀ q : Nat × WorkRequest → Bool, (out.filter q).filterMap (fun p => p.2.signal .start) = [] :=
    fun q => List.filterMap_eq_nil_iff.mpr fun p hp => h p (List.mem_filter.mp hp).1
  rw [starts, filterMap_post, hnil, ite_self, List.append_nil, starts]

theorem starts_post_start (req : RendezvousStart) (s : RdmaNet) (a b : NodeId) (l : Link) :
    (s.post a b [(0, .rendezvousStart req)]).starts l =
      s.starts l ++ if l = ⟨a, b, 0, false⟩ then [req.originAddr] else [] := by
  rw [starts, filterMap_post, starts]
  obtain ⟨src, dst, qp, back⟩ := l
  congr 1
  cases qp <;> cases back <;> simp [WorkRequest.isReply, WorkRequest.signal]

theorem addrPool_setVan {van : RdmaVan} (h : van.addrPool = (s.vans n).addrPool) (c : NodeId) :
    ((s.setVan n van).vans c).addrPool = (s.vans c).addrPool := by
  rcases eq_or_ne c n with rfl | hc
  · simp [setVan, h]
  · simp [setVan, hc]

theorem AskInv.ask (h : AskInv cfg s) {u : Nat} (hfresh : ∀ b, (a, u) ∉ s.opened b)
    (hpool : ∀ n, (s'.vans n).addrPool = (s.vans n).addrPool)
    (hlanes : ∀ l : Link, l.qp ≠ 0 ∨ l.back = true → s'.starts l = [])
    (hasked : ∀ c d, s'.asked c d = s.asked c d ++ if c = a ∧ d = b then [u] else [])
    (hsent : s.sent ⊆ s'.sent) (hnew : (a, u) ∈ s'.opened b) : AskInv cfg s' := by
  have hmem : ∀ c d v, v ∈ s'.asked c d ↔ v ∈ s.asked c d ∨ (c = a ∧ d = b ∧ v = u) := by
    intro c d v
    rw [hasked, List.mem_append]
    split_ifs with hcd
    · simp [hcd.1, hcd.2]
    · simp only [List.not_mem_nil, or_false]
      exact ⟨.inl, fun hv => hv.resolve_right fun hv => hcd ⟨hv.1, hv.2.1⟩⟩
  refine ⟨hlanes, fun c d => ?_, fun c d v hv => ?_, fun c idx ctx hctx => ?_, fun c => ?_, fun c => ?_⟩
  · rw [hasked]
    split_ifs with hcd
    · obtain ⟨rfl, rfl⟩ := hcd
      refine List.nodup_append.mpr ⟨h.nodup c d, List.nodup_singleton u, fun v hv w hw => ?_⟩
      rintro rfl
      exact hfresh d (List.mem_singleton.mp hw ▸ h.asked c d v hv)
    · rw [List.append_nil]
      exact h.nodup c d
  · rcases (hmem c d v).mp hv with hv | ⟨rfl, rfl, rfl⟩
    · exact opened_mono hsent d (h.asked c d v hv)
    · exact hnew
  · obtain ⟨hopen, hnot⟩ := h.filed c idx ctx (hpool c ▸ hctx)
    refine ⟨opened_mono hsent c hopen, fun hv => ?_⟩
    rcases (hmem _ _ _).mp hv with hv | ⟨ha, -, hu⟩
    · exact hnot hv
    · exact hfresh c (ha ▸ hu ▸ hopen)
  · rw [hpool c]
    exact h.single c
  · exact hpool c ▸ h.pool c

@[simp] theorem arrived_append (a : NodeId) (xs ys : List (NodeId × Completion)) :
    arrived a (xs ++ ys) = arrived a xs ++ arrived a ys :=
  List.filterMap_append ..

theorem arrived_cons (a : NodeId) (p : NodeId × Completion) (xs : List (NodeId × Completion)) :
    arrived a (p :: xs) = (if p.1 = a then p.2.signal .start else none).toList ++ arrived a xs := by
  rw [arrived, List.filterMap_cons]
  cases if p.1 = a then p.2.signal .start else none <;> rfl

theorem arrived_completion (a ep : NodeId) (wc : Option Completion) :
    arrived a (wc.map (ep, ·)).toList = if ep = a then (wc.bind (·.signal .start)).toList else [] := by
  cases wc with
  | none => simp [arrived]
  | some wc =>
    rw [Option.map_some, Option.toList_some, arrived_cons]
    split_ifs <;> simp [arrived]

theorem AskInv.file (h : AskInv cfg s) {u idx : Nat} {ctx : BufferContext} {pool : AddressPool BufferContext}
    (hhead : s.asked a b = u :: s'.asked a b)
    (hasked : ∀ c d, ¬ (c = a ∧ d = b) → s'.asked c d = s.asked c d)
    (hstore : (s.vans b).addrPool.storeAddress ctx = some (idx, pool)) (horigin : ctx.origin = (a, u))
    (hb : (s'.vans b).addrPool = pool) (hpool : ∀ c ≠ b, (s'.vans c).addrPool = (s.vans c).addrPool)
    (hlanes : ∀ l : Link, l.qp ≠ 0 ∨ l.back = true → s'.starts l = []) (hsent : s'.sent = s.sent) :
    AskInv cfg s' := by
  obtain ⟨rest, hind, hnone, hpool'⟩ := AddressPool.storeAddress_eq_some.mp hstore
  have hnodup := h.nodup a b
  rw [hhead, List.nodup_cons] at hnodup
  have hopen : ∀ c, s'.opened c = s.opened c := fun c => by rw [opened, opened, hsent]
  have hsub : ∀ c d, s'.asked c d ⊆ s.asked c d := by
    intro c d
    by_cases hcd : c = a ∧ d = b
    · rw [hcd.1, hcd.2, hhead]
      exact List.subset_cons_self ..
    · rw [hasked c d hcd]
      exact List.Subset.refl _
  -- an entry is an old one or the new one
  have htable : ∀ c i ctx', (s'.vans c).addrPool.table i = some ctx' →
      (s.vans c).addrPool.table i = some ctx' ∨ (c = b ∧ i = idx ∧ ctx' = ctx) := by
    intro c i ctx' hctx
    rcases eq_or_ne c b with rfl | hc
    · rw [hb, hpool'] at hctx
      rcases eq_or_ne i idx with rfl | hi
      · exact .inr ⟨rfl, rfl, by simpa [eq_comm] using hctx⟩
      · exact .inl (by simpa [hi] using hctx)
    · exact .inl (hpool c hc ▸ hctx)
  -- the request was still on its way, so no other entry is for its buffer
  have hother : ∀ i ctx', (s.vans b).addrPool.table i = some ctx' → ctx'.origin ≠ ctx.origin := by
    intro i ctx' hctx heq
    refine (h.filed b i ctx' hctx).2 ?_
    rw [heq, horigin, hhead]
    exact List.mem_cons_self
  refine ⟨hlanes, fun c d => ?_, fun c d v hv => ?_, fun c i ctx' hctx => ?_, fun c i i' ctx₁ ctx₂ h₁ h₂ heq => ?_,
    fun c => ?_⟩
  · by_cases hcd : c = a ∧ d = b
    · rw [hcd.1, hcd.2]
      exact hnodup.2
    · rw [hasked c d hcd]
      exact h.nodup c d
  · rw [hopen]
    exact h.asked c d v (hsub c d hv)
  · rw [hopen]
    rcases htable c i ctx' hctx with hctx | ⟨rfl, rfl, rfl⟩
    · exact ⟨(h.filed c i ctx' hctx).1, fun hv => (h.filed c i ctx' hctx).2 (hsub _ _ hv)⟩
    · rw [horigin]
      exact ⟨h.asked a c u (hhead ▸ List.mem_cons_self), hnodup.1⟩
  · rcases htable c i ctx₁ h₁ with h₁ | ⟨rfl, rfl, rfl⟩ <;> rcases htable _ i' ctx₂ h₂ with h₂ | ⟨hc, rfl, rfl⟩
    · exact h.single c i i' ctx₁ ctx₂ h₁ h₂ heq
    · exact absurd heq (hother i ctx₁ (hc ▸ h₁))
    · exact absurd heq.symm (hother i' ctx₂ h₂)
    · rfl
  · rcases eq_or_ne c b with rfl | hc
    · rw [hb]
      exact (h.pool c).storeAddress hstore
    · exact hpool c hc ▸ h.pool c

/-- What is known in every run: whose buffers and addresses a node has, and what has been asked for. -/
structure PoolInv (cfg : RdmaCfg) (s : RdmaNet) : Prop where
  sender : ∀ n, SenderOk s n (s.vans n)
  ask : AskInv cfg s

namespace PoolInv

theorem init (cfg : RdmaCfg) (isServer : NodeId → Bool) : PoolInv cfg (init cfg isServer) where
  sender n := by
    refine ⟨?_, ?_, ?_⟩
    · intro _ hx
      cases hx
    · intro _ _ _ hm
      cases hm
    · intro _ push _ _ ht
      cases push <;> cases ht
  ask := .init cfg isServer

theorem sender_update (h : PoolInv cfg s) {van : RdmaVan} (hvans : s'.vans = Function.update s.vans n van)
    (hsent : s'.sent = s.sent) (hvan : SenderOk s n van) (c : NodeId) : SenderOk s' c (s'.vans c) := by
  have hiff : ∀ c van, SenderOk s c van → SenderOk s' c van := by
    intro c van hc
    obtain ⟨hbuf, hcache, hinfo⟩ := hc
    rw [← hsent] at hbuf hcache hinfo
    exact ⟨hbuf, hcache, hinfo⟩
  rw [hvans]
  exact hiff c _ ((Function.forall_update_iff s.vans fun c van => SenderOk s c van).mpr
    ⟨hvan, fun c _ => h.sender c⟩ c)

theorem sendMsg {msg : Message} (h : PoolInv cfg s) (hs : step cfg s (.sendMsg n msg) = some s') :
    PoolInv cfg s' := by
  obtain ⟨⟨van, out, m, buf⟩, hsend, hs⟩ := Option.bind_eq_some_iff.mp hs
  have hsent : s'.sent = s.sent ++ [⟨n, m, buf⟩] := (congrArg sent (Option.some.inj hs)).symm
  have hvans : s'.vans = Function.update s.vans n van := (congrArg vans (Option.some.inj hs)).symm
  have hcq : s'.cq = s.cq := (congrArg cq (Option.some.inj hs)).symm
  have hstarts : ∀ l, s'.starts l = ((s.setVan n van).post n m.msgMeta.recver out).starts l :=
    fun l => (congrArg (starts · l) (Option.some.inj hs)).symm
  have hsub : s.sent ⊆ s'.sent := hsent ▸ List.subset_append_left ..
  obtain ⟨-, hpath⟩ := RdmaVan.sendMsg_frame hsend
  rcases hpath with ⟨-, rfl, hnext, hpool, hcache, hinfo, req, rfl, horigin⟩ | ⟨t, -, ht, rfl, hsame, hout⟩
  · have hpools : ∀ c, (s'.vans c).addrPool = (s.vans c).addrPool := fun c => hvans ▸ addrPool_setVan hpool c
    simp only [starts_post_start, horigin] at hstarts
    refine ⟨?_, h.ask.ask (fun b hb => Nat.lt_irrefl _ ((h.sender n).lt_nextBuf hb)) hpools (fun l hl => ?_)
      (fun c d => ?_) hsub (mem_opened.mpr ⟨_, hsent ▸ List.mem_append_right _ List.mem_cons_self, rfl, rfl, rfl⟩)⟩
    · rw [hvans]
      exact (Function.forall_update_iff s.vans fun c van => SenderOk s' c van).mpr
        ⟨(h.sender n).record_first hsent rfl rfl hnext hcache hinfo,
          fun c hc => (h.sender c).record hsent fun heq => absurd heq.symm hc⟩
    · have hne : l ≠ ⟨n, m.msgMeta.recver, 0, false⟩ := by
        rintro rfl
        simp at hl
      rw [hstarts, if_neg hne, List.append_nil]
      exact h.ask.lanes l hl
    · rw [RdmaNet.asked, hstarts, hcq, ← List.append_assoc]
      simp [RdmaNet.asked, starts, setVan]
  · have hpools : ∀ c, (s'.vans c).addrPool = (s.vans c).addrPool :=
      fun c => hvans ▸ addrPool_setVan hsame.pool c
    simp only [starts_post_of_none hout] at hstarts
    refine ⟨?_, h.ask.frame hpools (fun l hl => (hstarts l).trans (h.ask.lanes l hl)) (fun c d => ?_) hsub⟩
    · rw [hvans]
      have hlt := (h.sender n).lt_nextBuf ((h.sender n).opened_of_info ht)
      exact (Function.forall_update_iff s.vans fun c van => SenderOk s' c van).mpr
        ⟨((h.sender n).record hsent fun _ => hlt).of_sameBufs hsame.toSameBufs,
          fun c hc => (h.sender c).record hsent fun heq => absurd heq.symm hc⟩
    · rw [RdmaNet.asked, hstarts, hcq]
      rfl

theorem deliver {l : Link} (h : PoolInv cfg s) (hs : step cfg s (.deliver l) = some s') : PoolInv cfg s' := by
  obtain ⟨wr, rest, hchan, rfl⟩ := step_deliver_eq_some hs
  have hsame := RdmaVan.samePool_receive (s.vans l.dst) (s.vans l.src).ram wr
  have hsignal := RdmaVan.signal_receive (s.vans l.dst) (s.vans l.src).ram wr
  generalize (s.vans l.dst).receive (s.vans l.src).ram wr = received at *
  have hhead : s.starts l = (wr.signal .start).toList ++ rest.filterMap (·.signal .start) := by
    rw [starts, hchan, List.filterMap_cons]
    cases wr.signal .start <;> rfl
  refine ⟨h.sender_update rfl rfl ((h.sender l.dst).of_sameBufs hsame.toSameBufs),
    h.ask.frame (addrPool_setVan hsame.pool) (fun k hk => ?_) (fun a b => ?_) (List.Subset.refl _)⟩
  · have hnil := h.ask.lanes k hk
    rcases eq_or_ne k l with rfl | hkl
    · rw [hhead] at hnil
      simpa [starts] using (List.append_eq_nil_iff.mp hnil).2
    · simpa [starts, hkl] using hnil
  rcases eq_or_ne b l.dst with rfl | hb
  · simp only [RdmaNet.asked, starts, Function.update_self, arrived_append, arrived_completion, hsignal,
      List.append_assoc]
    congr 1
    by_cases hlane : l = ⟨a, l.dst, 0, false⟩
    · rw [← hlane, if_pos (congrArg Link.src hlane), Function.update_self, ← starts, hhead]
    · rw [Function.update_of_ne (Ne.symm hlane)]
      -- nothing that arrives on another queue pair is a request
      split_ifs with hsrc
      · have hnil := h.ask.lanes l (by
          by_contra hcon
          exact hlane (by cases l; simp_all))
        rw [hhead] at hnil
        rw [(List.append_eq_nil_iff.mp hnil).1, List.nil_append]
      · rfl
  · have hlane : (⟨a, b, 0, false⟩ : Link) ≠ l := fun heq => hb (congrArg Link.dst heq)
    simp only [RdmaNet.asked, starts, Function.update_of_ne hb, Function.update_of_ne hlane]

theorem pollCQ_frame {ep : NodeId} {wc : Completion} {rest : List (NodeId × Completion)} {van : RdmaVan}
    (h : PoolInv cfg s) (hcq : s.cq n = (ep, wc) :: rest) (hwc : wc.signal .start = none)
    (hpool : van.addrPool = (s.vans n).addrPool) (hvan : SenderOk s n van)
    (hout : ∀ p ∈ out, p.2.signal .start = none) :
    PoolInv cfg { (s.setVan n van).post n ep out with cq := Function.update s.cq n rest } := by
  have hstarts : ∀ l, ((s.setVan n van).post n ep out).starts l = s.starts l :=
    starts_post_of_none hout (s.setVan n van) n ep
  refine ⟨h.sender_update rfl rfl hvan, h.ask.frame (addrPool_setVan hpool)
    (fun l hl => (hstarts l).trans (h.ask.lanes l hl)) (fun a b => ?_) (List.Subset.refl _)⟩
  have hqueue : arrived a (Function.update s.cq n rest b) = arrived a (s.cq b) := by
    rcases eq_or_ne b n with rfl | hb
    · rw [Function.update_self, hcq, arrived_cons, hwc, ite_self]
      rfl
    · rw [Function.update_of_ne hb]
  exact congrArg₂ (· ++ ·) hqueue (hstarts ⟨a, b, 0, false⟩)

theorem pollCQ_start {ep : NodeId} {req : RendezvousStart} {rest : List (NodeId × Completion)} {van : RdmaVan}
    {ctx : BufferContext} {idx : Nat} (h : PoolInv cfg s) (hcq : s.cq n = (ep, .recvStart req) :: rest)
    (hstore : (s.vans n).addrPool.storeAddress ctx = some (idx, van.addrPool))
    (horigin : ctx.origin = (ep, req.originAddr)) (hvan : SenderOk s n van)
    (hout : ∀ p ∈ out, p.2.signal .start = none) :
    PoolInv cfg { (s.setVan n van).post n ep out with cq := Function.update s.cq n rest } := by
  have hstarts : ∀ l, ((s.setVan n van).post n ep out).starts l = s.starts l :=
    starts_post_of_none hout (s.setVan n van) n ep
  refine ⟨h.sender_update rfl rfl hvan, h.ask.file ?_ (fun a b hab => ?_) hstore horigin ?_ (fun c hc => ?_)
    (fun l hl => (hstarts l).trans (h.ask.lanes l hl)) rfl⟩
  · have hqueue : arrived ep (s.cq n) = req.originAddr :: arrived ep (Function.update s.cq n rest n) := by
      rw [Function.update_self, hcq, arrived_cons, if_pos rfl]
      rfl
    exact congrArg₂ (· ++ ·) hqueue (hstarts ⟨ep, n, 0, false⟩).symm
  · have hqueue : arrived a (Function.update s.cq n rest b) = arrived a (s.cq b) := by
      rcases eq_or_ne b n with rfl | hb
      · rw [Function.update_self, hcq, arrived_cons, if_neg fun heq => hab ⟨heq.symm, rfl⟩]
        rfl
      · rw [Function.update_of_ne hb]
    exact congrArg₂ (· ++ ·) hqueue (hstarts ⟨a, b, 0, false⟩)
  · simp [setVan, post]
  · simp [setVan, post, hc]

theorem pollCQ (h : PoolInv cfg s) (hs : step cfg s (.pollCQ n) = some s') : PoolInv cfg s' := by
  rw [step] at hs
  split at hs
  · rename_i ep wc rest hcq
    obtain ⟨⟨van, out⟩, hpoll, hs⟩ := Option.bind_eq_some_iff.mp hs
    obtain rfl := Option.some.inj hs
    cases wc with
    | recvStart req =>
      obtain ⟨ctx, idx, horigin, hstore, hsame, hout⟩ := RdmaVan.sendRendezvousReply_frame hpoll
      exact h.pollCQ_start hcq hstore horigin ((h.sender n).of_sameBufs hsame) hout
    | recvReply resp =>
      obtain ⟨uid, m, hm, hnext, hpool, hcache, hinfo, hout⟩ := RdmaVan.recvReply_frame hpoll
      exact h.pollCQ_frame hcq rfl hpool ((h.sender n).store hm rfl hnext hcache hinfo) hout
    | recvImm imm uid =>
      obtain ⟨van', himm, heq⟩ := Option.map_eq_some_iff.mp hpoll
      obtain ⟨rfl, rfl⟩ := Prod.mk.inj heq
      have hsame := RdmaVan.samePool_recvImm himm
      exact h.pollCQ_frame hcq rfl hsame.pool ((h.sender n).of_sameBufs hsame.toSameBufs) (by simp)
  · cases hs

theorem local_step {van : RdmaVan} (h : PoolInv cfg s) (hvans : s'.vans = Function.update s.vans n van)
    (hsame : (s.vans n).SamePool van) (hsent : s'.sent = s.sent) (hchan : s'.chan = s.chan)
    (hcq : s'.cq = s.cq) : PoolInv cfg s' := by
  have hstarts : ∀ l, s'.starts l = s.starts l := fun l => by rw [starts, starts, hchan]
  refine ⟨h.sender_update hvans hsent ((h.sender n).of_sameBufs hsame.toSameBufs),
    h.ask.frame (fun c => hvans ▸ addrPool_setVan hsame.pool c)
      (fun l hl => (hstarts l).trans (h.ask.lanes l hl)) (fun a b => ?_) (hsent ▸ List.Subset.refl _)⟩
  rw [RdmaNet.asked, RdmaNet.asked, hstarts, hcq]

theorem step (h : PoolInv cfg s) {act : Action} (hs : step cfg s act = some s') : PoolInv cfg s' := by
  cases act with
  | sendMsg n msg => exact h.sendMsg hs
  | deliver l => exact h.deliver hs
  | pollCQ n => exact h.pollCQ hs
  | recvMsg n =>
    obtain ⟨⟨van, note, msg⟩, hrecv, hs⟩ := Option.bind_eq_some_iff.mp hs
    obtain rfl := Option.some.inj hs
    obtain ⟨rest, m, -, rfl, -⟩ := RdmaVan.recvMsg_eq_some hrecv
    exact h.local_step rfl (RdmaVan.samePool_of_eq rfl rfl rfl rfl rfl) rfl rfl rfl
  | store n addr bytes =>
    obtain rfl := Option.some.inj hs
    exact h.local_step rfl (RdmaVan.samePool_of_eq rfl rfl rfl rfl rfl) rfl rfl rfl

/-- Every entry has a message buffer of its own. -/
theorem card_occupied_le (h : PoolInv cfg s) (b : NodeId) :
    ((s.vans b).addrPool.occupied cfg.poolSize).card ≤ (s.opened b).card := by
  have hsome : ∀ idx ∈ (s.vans b).addrPool.occupied cfg.poolSize,
      ∃ ctx, (s.vans b).addrPool.table idx = some ctx :=
    fun idx hidx => Option.isSome_iff_exists.mp (Finset.mem_filter.mp hidx).2
  refine Finset.card_le_card_of_injOn
    (fun idx => (((s.vans b).addrPool.table idx).map BufferContext.origin).getD (0, 0)) (fun idx hidx => ?_)
    fun idx hidx idx' hidx' heq => ?_
  · obtain ⟨ctx, hctx⟩ := hsome idx hidx
    simpa [hctx] using (h.ask.filed b idx ctx hctx).1
  · obtain ⟨ctx, hctx⟩ := hsome idx hidx
    obtain ⟨ctx', hctx'⟩ := hsome idx' hidx'
    exact h.ask.single b idx idx' ctx ctx' hctx hctx' (by simpa [hctx, hctx'] using heq)

end PoolInv

/-! ### Counting the messages -/

/-- The control and simple-app messages sent to a node. -/
def controlSent (s : RdmaNet) (b : NodeId) : Nat :=
  s.sent.countP fun x => !isValidPushpull x.msg && x.msg.msgMeta.recver = b

/-- The buffers opened towards a node are paid for by the messages sent to it. -/
structure Paid (cfg : RdmaCfg) (s : RdmaNet) : Prop where
  inv : PoolInv cfg s
  opened : ∀ b, (s.opened b).card ≤ (s.triples b).card + s.controlSent b
  popped : ∀ p ∈ s.popped, ∃ x ∈ s.sent[p.note.uid]?, isValidPushpull x.msg

theorem opened_snoc {x : SentMsg} (h : s'.sent = s.sent ++ [x]) (b : NodeId) :
    s'.opened b = if x.msg.msgMeta.recver = b then insert (x.sender, x.buf) (s.opened b) else s.opened b := by
  unfold opened
  rw [h, List.filter_append]
  split_ifs with hb <;> simp [hb, Finset.union_comm]

theorem triples_snoc {x : SentMsg} (h : s'.sent = s.sent ++ [x]) (b : NodeId) :
    s'.triples b = if isValidPushpull x.msg ∧ x.msg.msgMeta.recver = b then
        insert (x.sender, x.msg.msgMeta.key, x.msg.msgMeta.push) (s.triples b) else s.triples b := by
  unfold triples
  rw [h, List.filter_append]
  split_ifs with hb <;> simp [hb, Finset.union_comm]

theorem controlSent_snoc {x : SentMsg} (h : s'.sent = s.sent ++ [x]) (b : NodeId) :
    s'.controlSent b = s.controlSent b +
      if isValidPushpull x.msg = false ∧ x.msg.msgMeta.recver = b then 1 else 0 := by
  simp [controlSent, h, List.countP_append, List.countP_singleton]

theorem paid_init (cfg : RdmaCfg) (isServer : NodeId → Bool) : Paid cfg (init cfg isServer) where
  inv := .init cfg isServer
  opened _ := Nat.le_refl _
  popped _ h := nomatch h

theorem Paid.of_sent_eq (h : Paid cfg s) (hinv : PoolInv cfg s') (hsent : s'.sent = s.sent)
    (hpopped : ∀ p ∈ s'.popped, p ∈ s.popped ∨ ∃ x ∈ s.sent[p.note.uid]?, isValidPushpull x.msg) :
    Paid cfg s' := by
  refine ⟨hinv, fun b => ?_, fun p hp => ?_⟩
  · unfold RdmaNet.opened triples controlSent
    rw [hsent]
    exact h.opened b
  · rw [hsent]
    exact (hpopped p hp).elim (h.popped p) id

theorem Paid.sendMsg {msg : Message} (h : Paid cfg s) (hfrugal : s.Frugal (.sendMsg n msg))
    (hs : step cfg s (.sendMsg n msg) = some s') : Paid cfg s' := by
  have hinv := h.inv.step hs
  obtain ⟨⟨van, out, m, buf⟩, hsend, hs⟩ := Option.bind_eq_some_iff.mp hs
  obtain rfl := Option.some.inj hs
  refine ⟨hinv, fun b => ?_, fun p hp => ?_⟩
  · rw [opened_snoc rfl, triples_snoc rfl, controlSent_snoc rfl]
    have hb := h.opened b
    by_cases hrecver : m.msgMeta.recver = b
    swap
    · simpa [hrecver] using hb
    obtain ⟨⟨⟨option, hm, -⟩, -⟩, hpath⟩ := RdmaVan.sendMsg_frame hsend
    cases hv : isValidPushpull m with
    | false =>
      have := Finset.card_insert_le (n, buf) (s.opened b)
      simp only [hrecver, and_self, if_true, Bool.false_eq_true, false_and, if_false]
      omega
    | true =>
      simp only [hrecver, and_self, if_true, Bool.true_eq_false, false_and, if_false, Nat.add_zero]
      rcases hpath with ⟨hinfo, -⟩ | ⟨t, -, ht, rfl, -⟩
      · -- the first message of its kind: the triple is new
        have hnew : (n, m.msgMeta.key, m.msgMeta.push) ∉ s.triples b := by
          have hvalid : isValidPushpull msg = true := by
            rw [← hv, hm]
            rfl
          have hkey : m.msgMeta.key = RdmaVan.messageKey msg := by
            rw [hm]
            exact if_pos hvalid
          have hpush : m.msgMeta.push = msg.msgMeta.push := by rw [hm]
          have hto : m.msgMeta.recver = msg.msgMeta.recver := by rw [hm]
          have hinfo := hinfo hv
          rw [hkey, hpush, hto] at hinfo
          rw [hkey, hpush, ← hrecver, hto]
          exact hfrugal hvalid hinfo
        have := Finset.card_insert_le (n, buf) (s.opened b)
        rw [Finset.card_insert_of_notMem hnew]
        omega
      · have hold : (n, t.msgBuf) ∈ s.opened b := hrecver ▸ (h.inv.sender n).opened_of_info ht
        have := Finset.card_le_card (Finset.subset_insert (n, m.msgMeta.key, m.msgMeta.push) (s.triples b))
        rw [Finset.insert_eq_of_mem hold]
        omega
  · obtain ⟨x, hx, hv⟩ := h.popped p hp
    exact ⟨x, List.getElem?_snoc_of_eq_some hx _, hv⟩

theorem Paid.step (h : Paid cfg s) {act : Action} (hfrugal : s.Frugal act) (hs : step cfg s act = some s') :
    Paid cfg s' := by
  have hinv := h.inv.step hs
  cases act with
  | sendMsg n msg => exact h.sendMsg hfrugal hs
  | deliver l =>
    obtain ⟨wr, rest, -, rfl⟩ := step_deliver_eq_some hs
    exact h.of_sent_eq hinv rfl fun p hp => .inl hp
  | pollCQ n =>
    rw [RdmaNet.step] at hs
    split at hs
    · obtain ⟨⟨van, out⟩, -, hs⟩ := Option.bind_eq_some_iff.mp hs
      obtain rfl := Option.some.inj hs
      exact h.of_sent_eq hinv rfl fun p hp => .inl hp
    · cases hs
  | recvMsg n =>
    obtain ⟨⟨van, note, msg⟩, hrecv, hs⟩ := Option.bind_eq_some_iff.mp hs
    obtain rfl := Option.some.inj hs
    obtain ⟨rest, m, hfront, -⟩ := RdmaVan.recvMsg_eq_some hrecv
    refine h.of_sent_eq hinv rfl fun p hp => (List.mem_append.mp hp).imp_right fun hp => ?_
    obtain rfl := List.mem_singleton.mp hp
    exact hfrugal note (by simp [hfront])
  | store n addr bytes =>
    obtain rfl := Option.some.inj hs
    exact h.of_sent_eq hinv rfl fun p hp => .inl hp

theorem Paid.controlInFlight_eq (h : Paid cfg s) (b : NodeId) : s.controlInFlight b = s.controlSent b := by
  have hmap : s.controlSent b =
      s.sent.zipIdx.countP fun (x, _) => !isValidPushpull x.msg && x.msg.msgMeta.recver = b := by
    conv_lhs => rw [controlSent, ← List.zipIdx_map_fst 0 s.sent, List.countP_map]
    rfl
  rw [hmap, controlInFlight]
  refine List.countP_congr fun ⟨x, uid⟩ hx => ?_
  have hget := List.mem_zipIdx_iff_getElem?.mp hx
  simp only [Bool.and_eq_true, and_iff_left_iff_imp]
  rintro ⟨hcontrol, -⟩
  rw [Bool.not_eq_true', List.any_eq_false]
  intro p hp hpop
  obtain ⟨y, hy, hdata⟩ := h.popped p hp
  obtain ⟨-, rfl⟩ := of_decide_eq_true hpop
  obtain rfl := Option.some.inj (hget.symm.trans hy)
  simp [hdata] at hcontrol

/-- In a run that hands out no control or simple-app message and sends no second data message with a key
and kind before the address for the first is known, the entries of a node's pool are at most as many as the
senders, keys and kinds of the data sent to it and the control and simple-app messages in flight to it;
while these are fewer than the pool has entries, it is not exhausted. -/
theorem occupied_le_triples_add_control (cfg : RdmaCfg) (isServer : NodeId → Bool) (as : List Action)
    (s : RdmaNet) (hrun : Run.exec (step cfg) (init cfg isServer) as = some s)
    (hfrugal : ∀ before a t, before ++ [a] <+: as →
      Run.exec (step cfg) (init cfg isServer) before = some t → t.Frugal a) (b : NodeId) :
    ((s.vans b).addrPool.occupied cfg.poolSize).card ≤ (s.triples b).card + s.controlInFlight b ∧
      ((s.triples b).card + s.controlInFlight b < cfg.poolSize → (s.vans b).addrPool.indices ≠ []) := by
  have h : Paid cfg s := Run.exec_induction_of_steps (Paid cfg) Frugal (paid_init cfg isServer)
    (fun _ _ _ hfrugal h hs => h.step hfrugal hs) hfrugal hrun
  have hle : ((s.vans b).addrPool.occupied cfg.poolSize).card ≤ (s.triples b).card + s.controlInFlight b := by
    rw [h.controlInFlight_eq]
    exact (h.inv.card_occupied_le b).trans (h.opened b)
  refine ⟨hle, fun hlt hnil => ?_⟩
  have hcard := (h.inv.ask.pool b).card
  rw [hnil, List.length_nil] at hcard
  omega

/-- A push of node 9 and its rendezvous, up to the answer. -/
def pushRun : List Action := [.sendMsg 9 (samplePush 64 16), .deliver ⟨9, 8, 0, false⟩, .pollCQ 8]

theorem occupied_le_triples_add_control_push : ∃ s,
    Run.exec (step sampleCfg) (init sampleCfg (· = 8)) pushRun = some s ∧
      ((s.vans 8).addrPool.occupied sampleCfg.poolSize).card ≤ (s.triples 8).card + s.controlInFlight 8 := by
  have heval : (Run.exec (step sampleCfg) (init sampleCfg (· = 8)) pushRun).isSome := by decide +kernel
  obtain ⟨s, hrun⟩ := Option.isSome_iff_exists.mp heval
  refine ⟨s, hrun, (occupied_le_triples_add_control _ _ _ s hrun (fun before a t hpre ht => ?_) 8).1⟩
  cases before with
  | nil =>
    obtain rfl := Option.some.inj ht
    obtain ⟨rest, hrest⟩ := hpre
    obtain ⟨rfl, -⟩ := List.cons.inj hrest
    intro _ _ hmem
    simp [triples, init] at hmem
  | cons first before =>
    -- what follows the push is neither a push nor a call of `RecvMsg`
    have hmem : a ∈ pushRun.tail := by
      obtain ⟨rest, hrest⟩ := hpre
      have htail : before ++ [a] ++ rest = pushRun.tail := (List.cons.inj hrest).2
      simp [← htail]
    rcases List.mem_pair.mp hmem with rfl | rfl <;> trivial

-- a second push before the answer to the first one takes a second entry
example : (Run.exec (step sampleCfg) (init sampleCfg (· = 8))
    [.sendMsg 9 (samplePush 64 16), .sendMsg 9 (samplePush 64 16), .deliver ⟨9, 8, 0, false⟩,
      .deliver ⟨9, 8, 0, false⟩, .pollCQ 8, .pollCQ 8]).map (fun s =>
        ((s.triples 8).card, s.controlInFlight 8, (s.vans 8).addrPool.indices.head?)) = some (1, 0, some 2) := by
  decide +kernel

/-- A heartbeat of node 9 to the scheduler. -/
def heartbeat : Message :=
  { msgMeta := { recver := kScheduler, control := { cmd := .heartbeat } } }

/-- A heartbeat goes all the way: request, answer, write, notification. -/
def heartbeatRun : List Action :=
  [.sendMsg 9 heartbeat, .deliver ⟨9, kScheduler, 0, false⟩, .pollCQ kScheduler,
    .deliver ⟨kScheduler, 9, 0, true⟩, .pollCQ 9, .deliver ⟨9, kScheduler, 0, false⟩, .pollCQ kScheduler,
    .recvMsg kScheduler]

def poolCfg : RdmaCfg := { gdr := false, poolSize := 1 }

/-- The heartbeat has been handed out and its entry is still taken, so the next one cannot be answered. -/
theorem heartbeat_keeps_entry : ∃ s,
    Run.exec (step poolCfg) (init poolCfg fun _ => false) heartbeatRun = some s ∧
      s.triples kScheduler = ∅ ∧ s.controlInFlight kScheduler = 0 ∧
      ((s.vans kScheduler).addrPool.occupied poolCfg.poolSize).card = 1 ∧
      (Run.exec (step poolCfg) s (heartbeatRun.take 2)).isSome ∧
      Run.exec (step poolCfg) s (heartbeatRun.take 3) = none := by
  have heval : (Run.exec (step poolCfg) (init poolCfg fun _ => false) heartbeatRun).map (fun s =>
      (s.triples kScheduler, s.controlInFlight kScheduler,
        ((s.vans kScheduler).addrPool.occupied poolCfg.poolSize).card,
        (Run.exec (step poolCfg) s (heartbeatRun.take 2)).isSome,
        (Run.exec (step poolCfg) s (heartbeatRun.take 3)).isSome)) = some (∅, 0, 1, true, false) := by
    decide +kernel
  obtain ⟨s, hrun, hs⟩ := Option.map_eq_some_iff.mp heval
  simp only [Prod.mk.injEq] at hs
  obtain ⟨htriples, hflight, hcard, htwo, hthree⟩ := hs
  exact ⟨s, hrun, htriples, hflight, hcard, htwo, Option.not_isSome_iff_eq_none.mp (by simp [hthree])⟩

end RdmaNet

end StepMesh
