import StepMesh.RdmaProto
import StepMesh.RdmaPool
import StepMesh.CodecRoundTrip
import StepMesh.Lib.Rendezvous

/-!
# The vans carry out the rendezvous protocol

`RdmaNet.abs` is what the protocol of `Lib/Rendezvous.lean` is about: which message waits in which message
buffer, which entries the address pools have, the heads of the announced buffers, and of the queues what
is not a payload. Each function of a van does to it what one step of the protocol does, or nothing, as long as
no pool has an index with the bit that marks a slave queue pair.
-/

namespace StepMesh

open Buf
open Rendezvous (Place Req Arrival Item Slot Note set set_eq_update append_ite_eq_set)

/-! ### The abstraction -/

def WorkRequest.req : WorkRequest → Option (Req Buf)
  | .rendezvousStart req => some (.ask req.originAddr)
  | .writeImm dst bytes imm uid => some (.write ⟨imm, dst⟩ (bytesHead bytes) uid)
  | _ => none

def WorkRequest.answer : WorkRequest → Option (Nat × Place)
  | .rendezvousReply resp => some (resp.originAddr, ⟨resp.idx, resp.metaAddr⟩)
  | _ => none

def Completion.arrival : Completion → Option Arrival
  | .recvStart req => some (.ask req.originAddr)
  | .recvReply resp => some (.answer resp.originAddr ⟨resp.idx, resp.metaAddr⟩)
  | .recvImm imm (some uid) => some (.note imm uid)
  | .recvImm _ none => none

def BufferContext.slot (ctx : BufferContext) : Slot NodeId := ⟨ctx.metaBuffer, ctx.origin.1, ctx.origin.2⟩

def Notification.note (n : Notification) : Note NodeId := ⟨n.endpoint, n.ctx.slot, n.uid⟩

/-- The route of a message: whether it is a data message, its key and its kind. -/
def SentMsg.item (cfg : RdmaCfg) (x : SentMsg) : Item NodeId (Bool × Key × Bool) Buf where
  src := x.sender
  dst := x.msg.msgMeta.recver
  route := (isValidPushpull x.msg, x.msg.msgMeta.key, x.msg.msgMeta.push)
  buf := x.buf
  content := metaHead cfg x.msg.msgMeta

/-- What the protocol sees of a node. -/
structure VanView where
  waiting : Nat → Option Nat
  fresh : Nat
  slots : Nat → Option (Slot NodeId)
  mem : Nat → Buf
  recv : List (Note NodeId)

def RdmaVan.view (van : RdmaVan) : VanView where
  waiting i := (van.msgbufCache i).map (·.1)
  fresh := van.nextBuf
  slots idx := (van.addrPool.table idx).map BufferContext.slot
  mem blk := headOf (van.mem blk)
  recv := van.recvBuffers.map Notification.note

def RdmaNet.abs (cfg : RdmaCfg) (s : RdmaNet) : Rendezvous.State NodeId (Bool × Key × Bool) Buf where
  sent := s.sent.map (·.item cfg)
  waiting n := (s.vans n).view.waiting
  fresh n := (s.vans n).view.fresh
  slots n := (s.vans n).view.slots
  mem n := (s.vans n).view.mem
  out a b := (s.chan ⟨a, b, 0, false⟩).filterMap WorkRequest.req
  back b a := (s.chan ⟨b, a, 0, true⟩).filterMap WorkRequest.answer
  cq n := (s.cq n).filterMap fun e => e.2.arrival.map (e.1, ·)
  recv n := (s.vans n).view.recv
  posted := s.posted
  popped := s.popped.map fun p => (p.node, p.note.note)

/-! ### What the functions of a node do to its view -/

namespace RdmaVan

variable {cfg : RdmaCfg} {van van' : RdmaVan} {m : Message} {t : RemoteTuple} {ep : NodeId}
  {out : Posted} {uid : Nat}

theorem view_of_core (h : van'.core = van.core) : van'.view = van.view := by
  have hcache : van'.msgbufCache = van.msgbufCache := congrArg VanCore.msgbufCache h
  have hnext : van'.nextBuf = van.nextBuf := congrArg VanCore.nextBuf h
  have hpool : van'.addrPool = van.addrPool := congrArg VanCore.addrPool h
  have hmem : van'.mem = van.mem := congrArg VanCore.mem h
  have hrecv : van'.recvBuffers = van.recvBuffers := congrArg VanCore.recvBuffers h
  rw [view, view, hcache, hnext, hpool, hmem, hrecv]

theorem view_of_sent (h : Sent van t uid van' out) : van'.view = van.view := by
  obtain ⟨b, -, -, -, hcore, -⟩ := h
  exact (view_of_core hcore).trans rfl

theorem view_storeMsgBuf (buf : MessageBuffer) : (van.storeMsgBuf buf m uid).view =
    { van.view with
      waiting := Function.update van.view.waiting van.nextBuf (some uid)
      fresh := van.nextBuf + 1 } := by
  have hwait : (fun i => (Function.update van.msgbufCache van.nextBuf (some (uid, m)) i).map (·.1)) =
      Function.update van.view.waiting van.nextBuf (some uid) :=
    Function.comp_update (Option.map Prod.fst) ..
  exact congrArg (fun w => { van.view with waiting := w, fresh := van.nextBuf + 1 }) hwait

theorem view_sendRendezvousReply {req : RendezvousStart}
    (h : van.sendRendezvousReply cfg ep req = some (van', out)) : ∃ resp : RendezvousReply,
    out = [(0, .rendezvousReply resp)] ∧ resp.originAddr = req.originAddr ∧ resp.metaAddr = van.nextBlock ∧
      van.view.slots resp.idx = none ∧
      van'.view = { van.view with
        slots := Function.update van.view.slots resp.idx (some ⟨van.nextBlock, ep, req.originAddr⟩)
        mem := Function.update van.view.mem van.nextBlock (headOf fun _ => 0) } := by
  obtain ⟨ctx, resp, pool, hblk, -, horigin, hstore, hmeta, haddr, ⟨keyToMr, nextGpu, rfl⟩, rfl⟩ :=
    sendRendezvousReply_eq_some h
  obtain ⟨rest, -, hnone, rfl⟩ := AddressPool.storeAddress_eq_some.mp hstore
  refine ⟨resp, rfl, haddr, hmeta, congrArg (Option.map _) hnone, ?_⟩
  have hslots : (fun idx => (Function.update van.addrPool.table resp.idx (some ctx) idx).map BufferContext.slot) =
      Function.update van.view.slots resp.idx (some ⟨van.nextBlock, ep, req.originAddr⟩) := by
    have := Function.comp_update (Option.map BufferContext.slot) van.addrPool.table resp.idx (some ctx)
    rw [Option.map_some, BufferContext.slot, hblk, horigin] at this
    exact this
  have hmem : (fun blk => headOf (Function.update van.mem van.nextBlock (fun _ => 0) blk)) =
      Function.update van.view.mem van.nextBlock (headOf fun _ => 0) :=
    Function.comp_update headOf ..
  exact congrArg₂ (fun sl mm => { van.view with slots := sl, mem := mm }) hslots hmem

theorem view_releaseFirstMsg (i : Nat) : (van.releaseFirstMsg i).view =
    { van.view with waiting := Function.update van.view.waiting i none } := by
  have hwait : (fun j => (Function.update van.msgbufCache i none j).map (·.1)) =
      Function.update van.view.waiting i none :=
    Function.comp_update (Option.map Prod.fst) ..
  exact congrArg (fun w => { van.view with waiting := w }) hwait

theorem view_recvReply {resp : RendezvousReply} (hp : 0 < cfg.pagesize) (hlen : Packed van resp.remoteTuple)
    (h : van.recvReply cfg ep resp = some (van', out)) :
    ∃ uid m bytes, van.msgbufCache resp.originAddr = some (uid, m) ∧
      (∀ i < metaEnd, bytes[i]? = some ((van.msgBufs resp.originAddr).inlineBuf i)) ∧
      Writes resp.remoteTuple bytes uid out ∧
      van'.view = { van.view with waiting := Function.update van.view.waiting resp.originAddr none } ∧
      van'.recvBuffers = van.recvBuffers ∧ ∀ i, (van'.msgBufs i).data = (van.msgBufs i).data := by
  obtain ⟨uid, m, hcache, van₁, hsent, rfl⟩ := recvReply_eq_some hp hlen h
  obtain ⟨pushAddr, pullAddr, hframe⟩ := storeRemoteAndLocalInfo_frame van m resp.remoteTuple
  rw [hframe] at hsent
  have hview := view_of_sent hsent
  have hdata := data_of_sent hsent
  obtain ⟨_, bytes, -, hbytes, hcore, hwrites⟩ := hsent
  refine ⟨uid, m, bytes, hcache, hbytes, hwrites, ?_, congrArg VanCore.recvBuffers hcore, hdata⟩
  rw [view_releaseFirstMsg, hview]
  rfl

theorem view_recvImm {imm : Nat} {u : Option Nat} (h : van.recvImm ep imm u = some van') :
    (imm &&& 0x8000 ≠ 0 ∧ van'.view = van.view) ∨
      imm &&& 0x8000 = 0 ∧ ∃ v sl, u = some v ∧ van.view.slots imm = some sl ∧
        van'.view = { van.view with recv := van.view.recv ++ [⟨ep, sl, v⟩] } := by
  rcases recvImm_eq_some h with ⟨hbit, rfl⟩ | ⟨hbit, ctx, v, hctx, rfl, rfl⟩
  · exact .inl ⟨hbit, rfl⟩
  · refine .inr ⟨hbit, v, ctx.slot, rfl, congrArg (Option.map _) hctx, ?_⟩
    simp [view, Notification.note]

theorem view_writeAt_behind {dst : RemoteAddr} (h : dst.Behind) (bs : List UInt8) :
    (van.writeAt dst bs).view = van.view := by
  cases dst with
  | user addr => rfl
  | buffer blk off =>
    have hhead : headOf ((van.mem blk).store off bs) = headOf (van.mem blk) := by
      refine headOf_congr fun i hi => Buf.store_of_disjoint (.inl ?_)
      exact Nat.lt_of_lt_of_le hi (Nat.le_trans (by decide) h)
    have hmem : (fun b => headOf (Function.update van.mem blk ((van.mem blk).store off bs) b)) =
        van.view.mem := by
      have := Function.comp_update headOf van.mem blk ((van.mem blk).store off bs)
      rw [hhead] at this
      exact this.trans (Function.update_eq_self ..)
    exact congrArg (fun mm => { van.view with mem := mm }) hmem

theorem view_writeAt_head {blk : Nat} {bs : List UInt8} (h : metaEnd ≤ bs.length) :
    (van.writeAt (.buffer blk 0) bs).view =
      { van.view with mem := Function.update van.view.mem blk (bytesHead bs) } := by
  have hmem : (fun b => headOf (Function.update van.mem blk ((van.mem blk).store 0 bs) b)) =
      Function.update van.view.mem blk (bytesHead bs) := by
    have := Function.comp_update headOf van.mem blk ((van.mem blk).store 0 bs)
    rw [headOf_store h] at this
    exact this
  exact congrArg (fun mm => { van.view with mem := mm }) hmem

end RdmaVan

/-! ### What is posted -/

def Posted.reqs (out : Posted) : List (Req Buf) :=
  (out.filter fun p => p.1 = 0 ∧ p.2.isReply = false).filterMap fun p => p.2.req

def Posted.answers (out : Posted) : List (Nat × Place) :=
  (out.filter fun p => p.1 = 0 ∧ p.2.isReply = true).filterMap fun p => p.2.answer

/-- Of what a write posts, the protocol sees the meta. -/
theorem filterMap_writes {γ : Type*} {t : RemoteTuple} {bytes : List UInt8} {uid : Nat} {c : γ} {out : Posted}
    (h : RdmaVan.Writes t bytes uid out) {g : Nat × WorkRequest → Option γ}
    (hmeta : g (0, .writeImm t.metaAddr bytes t.idx uid) = some c)
    (hpay : ∀ p, p.2.IsPayload → g p = none) : out.filterMap g = [c] := by
  have hmap : out.filterMap g = (out.filterMap (·.2.signal .notify)).map fun _ => c := by
    rw [List.map_filterMap]
    refine List.filterMap_congr fun p hp => ?_
    rcases h.2 p hp with rfl | hp
    · exact hmeta
    · rw [hpay p hp]
      obtain ⟨q, wr⟩ := p
      cases wr <;> first | rfl | exact hp.elim
  rw [hmap, h.1]
  rfl

theorem reqs_of_writes {t : RemoteTuple} {bytes : List UInt8} {uid : Nat} {out : Posted}
    (h : RdmaVan.Writes t bytes uid out) :
    out.reqs = [.write ⟨t.idx, t.metaAddr⟩ (bytesHead bytes) uid] ∧ out.answers = [] := by
  constructor
  · rw [Posted.reqs, List.filterMap_filter]
    refine filterMap_writes h (by simp [WorkRequest.isReply, WorkRequest.req]) fun p hp => ?_
    obtain ⟨q, wr⟩ := p
    cases wr <;> first | exact hp.elim | simp [WorkRequest.req]
  · rw [Posted.answers, List.filterMap_filter, List.filterMap_eq_nil_iff]
    intro p hp
    rcases h.2 p hp with rfl | hp
    · simp [WorkRequest.isReply]
    · obtain ⟨q, wr⟩ := p
      cases wr <;> first | exact hp.elim | simp [WorkRequest.answer]

namespace RdmaNet

variable {cfg : RdmaCfg} {s s' : RdmaNet} {n a b : NodeId} {van' : RdmaVan} {out : Posted}

theorem poppedFrom_abs (cfg : RdmaCfg) (s : RdmaNet) (a b : NodeId) :
    (s.abs cfg).poppedFrom a b = s.poppedFrom a b := by
  simp only [Rendezvous.State.poppedFrom, abs, poppedFrom, List.filterMap_map]
  rfl

theorem sent_abs {u : Nat} {x : SentMsg} (h : s.sent[u]? = some x) :
    (s.abs cfg).sent[u]? = some (x.item cfg) := by
  rw [abs, List.getElem?_map, h, Option.map_some]

theorem of_sent_abs {u : Nat} {y : Item NodeId (Bool × Key × Bool) Buf} (h : (s.abs cfg).sent[u]? = some y) :
    ∃ x, s.sent[u]? = some x ∧ x.item cfg = y := by
  rwa [abs, List.getElem?_map, Option.map_eq_some_iff] at h

section fields
variable (cfg s)

/-! One node changes. -/

theorem waiting_setVan : ((s.setVan n van').abs cfg).waiting =
    Function.update (s.abs cfg).waiting n van'.view.waiting :=
  Function.comp_update (fun v : RdmaVan => v.view.waiting) ..

theorem fresh_setVan : ((s.setVan n van').abs cfg).fresh = Function.update (s.abs cfg).fresh n van'.view.fresh :=
  Function.comp_update (fun v : RdmaVan => v.view.fresh) ..

theorem slots_setVan : ((s.setVan n van').abs cfg).slots = Function.update (s.abs cfg).slots n van'.view.slots :=
  Function.comp_update (fun v : RdmaVan => v.view.slots) ..

theorem mem_setVan : ((s.setVan n van').abs cfg).mem = Function.update (s.abs cfg).mem n van'.view.mem :=
  Function.comp_update (fun v : RdmaVan => v.view.mem) ..

theorem recv_setVan : ((s.setVan n van').abs cfg).recv = Function.update (s.abs cfg).recv n van'.view.recv :=
  Function.comp_update (fun v : RdmaVan => v.view.recv) ..

/-! Something is posted. -/

theorem out_post : ((s.post a b out).abs cfg).out =
    set (s.abs cfg).out a b ((s.abs cfg).out a b ++ out.reqs) :=
  (funext fun c => funext fun d => filterMap_post WorkRequest.req s a b out ⟨c, d, 0, false⟩).trans
    (append_ite_eq_set (s.abs cfg).out out.reqs)

theorem back_post : ((s.post a b out).abs cfg).back =
    set (s.abs cfg).back a b ((s.abs cfg).back a b ++ out.answers) :=
  (funext fun c => funext fun d => filterMap_post WorkRequest.answer s a b out ⟨c, d, 0, true⟩).trans
    (append_ite_eq_set (s.abs cfg).back out.answers)

theorem posted_post : (s.post a b out).posted =
    set s.posted a b (s.posted a b ++ out.filterMap (·.2.signal .notify)) :=
  append_ite_eq_set ..

end fields

theorem waiting_setVan_same (cfg : RdmaCfg) (h : van'.view.waiting = (s.vans n).view.waiting) :
    ((s.setVan n van').abs cfg).waiting = (s.abs cfg).waiting := by
  rw [waiting_setVan, h]
  exact Function.update_eq_self ..

theorem fresh_setVan_same (cfg : RdmaCfg) (h : van'.view.fresh = (s.vans n).view.fresh) :
    ((s.setVan n van').abs cfg).fresh = (s.abs cfg).fresh := by
  rw [fresh_setVan, h]
  exact Function.update_eq_self ..

theorem slots_setVan_same (cfg : RdmaCfg) (h : van'.view.slots = (s.vans n).view.slots) :
    ((s.setVan n van').abs cfg).slots = (s.abs cfg).slots := by
  rw [slots_setVan, h]
  exact Function.update_eq_self ..

theorem mem_setVan_same (cfg : RdmaCfg) (h : van'.view.mem = (s.vans n).view.mem) :
    ((s.setVan n van').abs cfg).mem = (s.abs cfg).mem := by
  rw [mem_setVan, h]
  exact Function.update_eq_self ..

theorem recv_setVan_same (cfg : RdmaCfg) (h : van'.view.recv = (s.vans n).view.recv) :
    ((s.setVan n van').abs cfg).recv = (s.abs cfg).recv := by
  rw [recv_setVan, h]
  exact Function.update_eq_self ..

/-! ### The steps -/

theorem abs_first {x : SentMsg} {req : RendezvousStart} (hsender : x.sender = n)
    (hbuf : x.buf = (s.vans n).nextBuf) (horigin : req.originAddr = x.buf)
    (hview : van'.view = { (s.vans n).view with
      waiting := Function.update (s.vans n).view.waiting (s.vans n).nextBuf (some s.sent.length)
      fresh := (s.vans n).nextBuf + 1 }) :
    ({ (s.setVan n van').post n x.msg.msgMeta.recver [(0, .rendezvousStart req)] with
      sent := s.sent ++ [x] } : RdmaNet).abs cfg = (s.abs cfg).first (x.item cfg) := by
  subst hsender
  refine Rendezvous.State.ext List.map_append ?_ ?_ ?_ ?_ ?_ ?_ rfl ?_ ?_ rfl
  · refine (waiting_setVan cfg s).trans ?_
    rw [hview, ← hbuf, Rendezvous.State.first, set_eq_update]
    simp [abs, SentMsg.item]
  · refine (fresh_setVan cfg s).trans ?_
    rw [hview, ← hbuf]
    rfl
  · exact slots_setVan_same cfg (by rw [hview])
  · exact mem_setVan_same cfg (by rw [hview])
  · refine (out_post cfg (s.setVan x.sender van')).trans ?_
    rw [show Posted.reqs [(0, .rendezvousStart req)] = [.ask x.buf] by rw [← horigin]; rfl]
    rfl
  · refine (back_post cfg (s.setVan x.sender van')).trans ?_
    rw [show Posted.answers [(0, .rendezvousStart req)] = [] from rfl, List.append_nil]
    exact Rendezvous.set_apply_self
  · exact recv_setVan_same cfg (by rw [hview])
  · refine (posted_post (s.setVan x.sender van')).trans ?_
    rw [show List.filterMap (fun p : Nat × WorkRequest => p.2.signal .notify) [(0, .rendezvousStart req)] = []
      from rfl, List.append_nil]
    exact Rendezvous.set_apply_self

/-- A change that the protocol does not see. -/
theorem abs_setVan_of_view (cfg : RdmaCfg) (h : van'.view = (s.vans n).view) :
    (s.setVan n van').abs cfg = s.abs cfg := by
  refine Rendezvous.State.ext rfl ?_ ?_ ?_ ?_ rfl rfl rfl ?_ rfl rfl
  · exact waiting_setVan_same cfg (congrArg VanView.waiting h)
  · exact fresh_setVan_same cfg (congrArg VanView.fresh h)
  · exact slots_setVan_same cfg (congrArg VanView.slots h)
  · exact mem_setVan_same cfg (congrArg VanView.mem h)
  · exact recv_setVan_same cfg (congrArg VanView.recv h)

theorem abs_post_writes {t : RemoteTuple} {bytes : List UInt8} {uid : Nat}
    (h : RdmaVan.Writes t bytes uid out) : (s.post a b out).abs cfg =
      (s.abs cfg).write a b ⟨t.idx, t.metaAddr⟩ (bytesHead bytes) uid := by
  obtain ⟨hreqs, hanswers⟩ := reqs_of_writes h
  refine Rendezvous.State.ext rfl rfl rfl rfl rfl ?_ ?_ rfl rfl ?_ rfl
  · rw [out_post, hreqs]
    rfl
  · rw [back_post, hanswers, List.append_nil]
    exact Rendezvous.set_apply_self
  · refine (posted_post s).trans ?_
    rw [h.1]
    rfl

theorem abs_cached {x : SentMsg} {t : RemoteTuple} {bytes : List UInt8} (hsender : x.sender = n)
    (hview : van'.view = (s.vans n).view) (hwrites : RdmaVan.Writes t bytes s.sent.length out)
    (hbytes : bytesHead bytes = metaHead cfg x.msg.msgMeta) :
    ({ (s.setVan n van').post n x.msg.msgMeta.recver out with sent := s.sent ++ [x] } : RdmaNet).abs cfg =
      (s.abs cfg).cached (x.item cfg) ⟨t.idx, t.metaAddr⟩ := by
  subst hsender
  have hsent : ({ s.setVan x.sender van' with sent := s.sent ++ [x] } : RdmaNet).abs cfg =
      { s.abs cfg with sent := (s.abs cfg).sent ++ [x.item cfg] } := by
    have hsame := abs_setVan_of_view cfg hview
    exact Rendezvous.State.ext List.map_append (congrArg (·.waiting) hsame) (congrArg (·.fresh) hsame)
      (congrArg (·.slots) hsame) (congrArg (·.mem) hsame) rfl rfl rfl (congrArg (·.recv) hsame) rfl rfl
  refine (abs_post_writes (s := { s.setVan x.sender van' with sent := s.sent ++ [x] }) hwrites).trans ?_
  rw [hsent, hbytes, Rendezvous.State.cached, show (s.abs cfg).sent.length = s.sent.length from List.length_map _]
  rfl

/-- What the protocol sees of a completion queue. -/
def arrivals (cq : List (NodeId × Completion)) : List (NodeId × Arrival) :=
  cq.filterMap fun e => e.2.arrival.map (e.1, ·)

theorem cq_update (cfg : RdmaCfg) {cq : List (NodeId × Completion)} :
    (fun c => arrivals (Function.update s.cq n cq c)) = Function.update (s.abs cfg).cq n (arrivals cq) :=
  Function.comp_update arrivals ..

theorem abs_ask {ep : NodeId} {buf idx blk : Nat} {resp : RendezvousReply} {rest : List (NodeId × Completion)}
    (horigin : resp.originAddr = buf) (hidx : resp.idx = idx) (hblk : resp.metaAddr = blk)
    (hview : van'.view = { (s.vans n).view with
      slots := Function.update (s.vans n).view.slots idx (some ⟨blk, ep, buf⟩)
      mem := Function.update (s.vans n).view.mem blk (headOf fun _ => 0) }) :
    ({ (s.setVan n van').post n ep [(0, .rendezvousReply resp)] with
      cq := Function.update s.cq n rest } : RdmaNet).abs cfg =
      (s.abs cfg).ask n ep buf ⟨idx, blk⟩ (headOf fun _ => 0) (arrivals rest) := by
  refine Rendezvous.State.ext rfl ?_ ?_ ?_ ?_ ?_ ?_ (cq_update cfg) ?_ ?_ rfl
  · exact waiting_setVan_same cfg (by rw [hview])
  · exact fresh_setVan_same cfg (by rw [hview])
  · refine (slots_setVan cfg s).trans ?_
    rw [hview]
    exact set_eq_update.symm
  · refine (mem_setVan cfg s).trans ?_
    rw [hview]
    exact set_eq_update.symm
  · refine (out_post cfg (s.setVan n van')).trans ?_
    rw [show Posted.reqs [(0, .rendezvousReply resp)] = [] from rfl, List.append_nil]
    exact Rendezvous.set_apply_self
  · refine (back_post cfg (s.setVan n van')).trans ?_
    rw [show Posted.answers [(0, .rendezvousReply resp)] = [(buf, ⟨idx, blk⟩)] by
      rw [← horigin, ← hidx, ← hblk]; rfl]
    rfl
  · exact recv_setVan_same cfg (by rw [hview])
  · refine (posted_post (s.setVan n van')).trans ?_
    rw [show List.filterMap (fun p : Nat × WorkRequest => p.2.signal .notify) [(0, .rendezvousReply resp)] = []
      from rfl, List.append_nil]
    exact Rendezvous.set_apply_self

theorem abs_answer {ep : NodeId} {resp : RendezvousReply} {bytes : List UInt8} {uid : Nat}
    {rest : List (NodeId × Completion)} (hwrites : RdmaVan.Writes resp.remoteTuple bytes uid out)
    (hview : van'.view = { (s.vans n).view with
      waiting := Function.update (s.vans n).view.waiting resp.originAddr none }) :
    ({ (s.setVan n van').post n ep out with cq := Function.update s.cq n rest } : RdmaNet).abs cfg =
      (s.abs cfg).answer n ep resp.originAddr ⟨resp.idx, resp.metaAddr⟩ (bytesHead bytes) uid (arrivals rest) := by
  have hfront : ({ s.setVan n van' with cq := Function.update s.cq n rest } : RdmaNet).abs cfg =
      { s.abs cfg with
        cq := Function.update (s.abs cfg).cq n (arrivals rest)
        waiting := set (s.abs cfg).waiting n resp.originAddr none } := by
    refine Rendezvous.State.ext rfl ?_ ?_ ?_ ?_ rfl rfl (cq_update cfg) ?_ rfl rfl
    · refine (waiting_setVan cfg s).trans ?_
      rw [hview]
      exact set_eq_update.symm
    · exact fresh_setVan_same cfg (by rw [hview])
    · exact slots_setVan_same cfg (by rw [hview])
    · exact mem_setVan_same cfg (by rw [hview])
    · exact recv_setVan_same cfg (by rw [hview])
  refine (abs_post_writes (s := { s.setVan n van' with cq := Function.update s.cq n rest }) hwrites).trans ?_
  rw [hfront]
  rfl

theorem post_nil (s : RdmaNet) (a b : NodeId) : s.post a b [] = s := by
  simp [post]

theorem abs_note {nt : Note NodeId} {rest : List (NodeId × Completion)}
    (hview : van'.view = { (s.vans n).view with recv := (s.vans n).view.recv ++ [nt] }) :
    ({ s.setVan n van' with cq := Function.update s.cq n rest } : RdmaNet).abs cfg =
      (s.abs cfg).note n nt (arrivals rest) := by
  refine Rendezvous.State.ext rfl ?_ ?_ ?_ ?_ rfl rfl (cq_update cfg) ?_ rfl rfl
  · exact waiting_setVan_same cfg (by rw [hview])
  · exact fresh_setVan_same cfg (by rw [hview])
  · exact slots_setVan_same cfg (by rw [hview])
  · exact mem_setVan_same cfg (by rw [hview])
  · refine (recv_setVan cfg s).trans ?_
    rw [hview]
    rfl

theorem abs_skip {rest : List (NodeId × Completion)} (hview : van'.view = (s.vans n).view)
    (hcq : arrivals (s.cq n) = arrivals rest) :
    ({ s.setVan n van' with cq := Function.update s.cq n rest } : RdmaNet).abs cfg = s.abs cfg := by
  have hsame := abs_setVan_of_view cfg hview
  refine Rendezvous.State.ext rfl (congrArg (·.waiting) hsame) (congrArg (·.fresh) hsame)
    (congrArg (·.slots) hsame) (congrArg (·.mem) hsame) rfl rfl ?_ (congrArg (·.recv) hsame) rfl rfl
  refine (cq_update cfg).trans ?_
  rw [← hcq]
  exact Function.update_eq_self ..

theorem abs_pop {note : Notification} {msg : Message} {rest : List (Note NodeId)}
    (hview : van'.view = { (s.vans n).view with recv := rest }) :
    ({ s.setVan n van' with popped := s.popped ++ [⟨n, note, msg⟩] } : RdmaNet).abs cfg =
      (s.abs cfg).pop n note.note rest := by
  refine Rendezvous.State.ext rfl ?_ ?_ ?_ ?_ rfl rfl rfl ?_ rfl List.map_append
  · exact waiting_setVan_same cfg (by rw [hview])
  · exact fresh_setVan_same cfg (by rw [hview])
  · exact slots_setVan_same cfg (by rw [hview])
  · exact mem_setVan_same cfg (by rw [hview])
  · refine (recv_setVan cfg s).trans ?_
    rw [hview]
    rfl

section deliver

variable {l : Link} {wr : WorkRequest} {rest : List WorkRequest}

theorem chan_filterMap_tail {γ : Type*} {g : WorkRequest → Option γ} (hchan : s.chan l = wr :: rest)
    (hwr : g wr = none) (k : Link) : (Function.update s.chan l rest k).filterMap g = (s.chan k).filterMap g := by
  rcases eq_or_ne k l with rfl | hk
  · rw [Function.update_self, hchan, List.filterMap_cons_none hwr]
  · rw [Function.update_of_ne hk]

theorem out_deliver (hl : l = ⟨a, b, 0, false⟩) :
    (fun c d => (Function.update s.chan l rest ⟨c, d, 0, false⟩).filterMap WorkRequest.req) =
      set (s.abs cfg).out a b (rest.filterMap WorkRequest.req) := by
  funext c d
  by_cases hcd : c = a ∧ d = b
  · rw [hcd.1, hcd.2, ← hl, Function.update_self, Rendezvous.set_self]
  · rw [Rendezvous.set_of_ne hcd, Function.update_of_ne (by rw [hl]; simpa using hcd)]
    rfl

theorem back_deliver (hl : l = ⟨b, a, 0, true⟩) :
    (fun c d => (Function.update s.chan l rest ⟨c, d, 0, true⟩).filterMap WorkRequest.answer) =
      set (s.abs cfg).back b a (rest.filterMap WorkRequest.answer) := by
  funext c d
  by_cases hcd : c = b ∧ d = a
  · rw [hcd.1, hcd.2, ← hl, Function.update_self, Rendezvous.set_self]
  · rw [Rendezvous.set_of_ne hcd, Function.update_of_ne (by rw [hl]; simpa using hcd)]
    rfl

theorem cq_deliver (cfg : RdmaCfg) {wc : Option Completion} : (fun c => arrivals (Function.update s.cq l.dst
      (s.cq l.dst ++ (wc.map (l.src, ·)).toList) c)) =
    Function.update (s.abs cfg).cq l.dst ((s.abs cfg).cq l.dst ++
      ((wc.bind Completion.arrival).map (l.src, ·)).toList) := by
  rw [cq_update cfg]
  congr 1
  rw [arrivals, List.filterMap_append]
  congr 1
  cases wc with
  | none => rfl
  | some wc => cases h : wc.arrival <;> simp [h]

theorem out_abs_cons {r : Req Buf} (hl : l = ⟨l.src, l.dst, 0, false⟩) (hchan : s.chan l = wr :: rest)
    (hr : wr.req = some r) : (s.abs cfg).out l.src l.dst = r :: rest.filterMap WorkRequest.req := by
  have heq : (s.abs cfg).out l.src l.dst = (s.chan l).filterMap WorkRequest.req := by
    conv_rhs => rw [hl]
    rfl
  rw [heq, hchan, List.filterMap_cons_some hr]

theorem back_abs_cons {e : Nat × Place} (hl : l = ⟨l.src, l.dst, 0, true⟩) (hchan : s.chan l = wr :: rest)
    (he : wr.answer = some e) : (s.abs cfg).back l.src l.dst = e :: rest.filterMap WorkRequest.answer := by
  have heq : (s.abs cfg).back l.src l.dst = (s.chan l).filterMap WorkRequest.answer := by
    conv_rhs => rw [hl]
    rfl
  rw [heq, hchan, List.filterMap_cons_some he]

theorem abs_deliver {r : Req Buf} {wc : Option Completion} (hl : l = ⟨l.src, l.dst, 0, false⟩)
    (hchan : s.chan l = wr :: rest) (hanswer : wr.answer = none) (hwc : wc.bind Completion.arrival = some r.arrival)
    (hwaiting : van'.view.waiting = (s.vans l.dst).view.waiting)
    (hfresh : van'.view.fresh = (s.vans l.dst).view.fresh)
    (hslots : van'.view.slots = (s.vans l.dst).view.slots)
    (hrecv : van'.view.recv = (s.vans l.dst).view.recv)
    (hmem : ((s.setVan l.dst van').abs cfg).mem =
      ((s.abs cfg).deliver l.src l.dst r (rest.filterMap WorkRequest.req)).mem) :
    ({ s.setVan l.dst van' with
      chan := Function.update s.chan l rest
      cq := Function.update s.cq l.dst (s.cq l.dst ++ (wc.map (l.src, ·)).toList) } : RdmaNet).abs cfg =
      (s.abs cfg).deliver l.src l.dst r (rest.filterMap WorkRequest.req) := by
  refine Rendezvous.State.ext rfl (waiting_setVan_same cfg hwaiting) (fresh_setVan_same cfg hfresh)
    (slots_setVan_same cfg hslots) hmem (out_deliver hl) ?_ ?_ (recv_setVan_same cfg hrecv) rfl rfl
  · exact funext fun c => funext fun d => chan_filterMap_tail hchan hanswer ⟨c, d, 0, true⟩
  · refine (cq_deliver cfg).trans ?_
    rw [hwc]
    rfl

theorem abs_deliverBack {resp : RendezvousReply} (hl : l = ⟨l.src, l.dst, 0, true⟩)
    (hchan : s.chan l = .rendezvousReply resp :: rest) :
    ({ s.setVan l.dst (s.vans l.dst) with
      chan := Function.update s.chan l rest
      cq := Function.update s.cq l.dst (s.cq l.dst ++
        ((some (Completion.recvReply resp)).map (l.src, ·)).toList) } : RdmaNet).abs cfg =
      (s.abs cfg).deliverBack l.src l.dst resp.originAddr ⟨resp.idx, resp.metaAddr⟩
        (rest.filterMap WorkRequest.answer) := by
  have hsame := abs_setVan_of_view cfg (s := s) (n := l.dst) rfl
  refine Rendezvous.State.ext rfl (congrArg (·.waiting) hsame) (congrArg (·.fresh) hsame)
    (congrArg (·.slots) hsame) (congrArg (·.mem) hsame) ?_ (back_deliver hl) (cq_deliver cfg)
    (congrArg (·.recv) hsame) rfl rfl
  exact funext fun c => funext fun d => chan_filterMap_tail hchan rfl ⟨c, d, 0, false⟩

theorem abs_deliver_payload {wc : Option Completion} (hchan : s.chan l = wr :: rest) (hreq : wr.req = none)
    (hanswer : wr.answer = none) (hwc : wc.bind Completion.arrival = none)
    (hview : van'.view = (s.vans l.dst).view) :
    ({ s.setVan l.dst van' with
      chan := Function.update s.chan l rest
      cq := Function.update s.cq l.dst (s.cq l.dst ++ (wc.map (l.src, ·)).toList) } : RdmaNet).abs cfg =
      s.abs cfg := by
  have hsame := abs_setVan_of_view cfg hview
  refine Rendezvous.State.ext rfl (congrArg (·.waiting) hsame) (congrArg (·.fresh) hsame)
    (congrArg (·.slots) hsame) (congrArg (·.mem) hsame) ?_ ?_ ?_ (congrArg (·.recv) hsame) rfl rfl
  · exact funext fun c => funext fun d => chan_filterMap_tail hchan hreq ⟨c, d, 0, false⟩
  · exact funext fun c => funext fun d => chan_filterMap_tail hchan hanswer ⟨c, d, 0, true⟩
  · refine (cq_deliver cfg).trans ?_
    rw [hwc]
    simp

end deliver

end RdmaNet

end StepMesh
