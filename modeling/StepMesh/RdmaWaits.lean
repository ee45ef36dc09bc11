import StepMesh.RdmaSplit
import StepMesh.RdmaSteps

/-!
# What `RecvMsg` waits for

`RecvMsg` waits until as many chunks of the slave queue pair have arrived as the meta says. The number in a meta is
a packet counter of its sender, which is never ahead of the chunks that have been counted by the receiver or are
under way (`Counted`). So when nothing is under way to a node, `RecvMsg` does not wait there.
-/

namespace StepMesh

open Buf

/-- The meta in the buffer waits for at most `count` chunks. -/
def WaitsFor (b : Buf) (count : Nat) : Prop :=
  (ofIntBytes 4 (b.load RawMeta.slaveQpNum 4)).toNat = 0 ∨
    (ofIntBytes 4 (b.load RawMeta.slaveQpNum 4)).toNat = 1 ∧ ofLE (b.load (RawMeta.slaveQpCounter + 8) 8) ≤ count

theorem WaitsFor.congr {b b' : Buf} {k : Nat} (h : WaitsFor b k) (heq : ∀ i < RawMeta.size, b' i = b i) :
    WaitsFor b' k := by
  have hload : ∀ o n, o + n ≤ RawMeta.size → b'.load o n = b.load o n :=
    fun o n hn => load_congr fun i _ hi => heq i (by omega)
  unfold WaitsFor
  rwa [hload _ _ (by decide), hload _ _ (by decide)]

theorem WaitsFor.mono {b : Buf} {k k' : Nat} (h : WaitsFor b k) (hk : k ≤ k') : WaitsFor b k' :=
  h.imp_right (And.imp_right (Nat.le_trans · hk))

theorem WaitsFor.slavesArrived {van : RdmaVan} {ep : NodeId} {b : Buf} (h : WaitsFor b (van.incomingPktCount ep 1)) :
    van.slavesArrived ep b = true := by
  unfold RdmaVan.slavesArrived
  rcases h with h | ⟨h, hle⟩
  · rw [h]
    rfl
  · rw [h]
    simpa using hle

theorem waitsFor_zero (k : Nat) : WaitsFor (fun _ => 0) k := by
  have hnum : Buf.load (fun _ => 0) RawMeta.slaveQpNum 4 = List.replicate 4 0 := by simp [load]
  refine .inl ?_
  rw [hnum]
  decide

/-- A packed meta waits for nothing until the counters are stored. -/
theorem waitsFor_packMeta {qpNum : Nat} (hq : qpNum ≤ 2) {m : Meta} (hshape : m.shape.length ≤ 8) (b : Buf) (k : Nat) :
    WaitsFor (packMeta qpNum m b) k := by
  have hnum : (packMeta qpNum m b).load RawMeta.slaveQpNum 4 = intBytes 4 0 := by
    simp only [packMeta, RawMeta.isTensor, RawMeta.dtype, RawMeta.dim, RawMeta.shape, RawMeta.slaveQpNum,
      RawMeta.slaveQpCounter]
    simp (disch := first | omega | (simp; done) | (simp; omega)) only [load_store_of_disjoint,
      load_bzero_of_disjoint, load_store_of_length]
  refine .inl ?_
  rw [hnum]
  decide

namespace RdmaVan

variable {cfg : RdmaCfg} {van van' : RdmaVan} {t : RemoteTuple} {ep : NodeId} {out : Posted} {uid : Nat}

theorem qpPktCount_countPackets (hq : cfg.qpNum ≤ 2) (van : RdmaVan) (ep : NodeId) (i : Nat) :
    (van.countPackets cfg ep i).qpPktCount ep 1 = van.qpPktCount ep 1 + if cfg.qpNum = 2 then 1 else 0 := by
  have hlt : 1 < cfg.qpNum ↔ cfg.qpNum = 2 := by omega
  simp only [countPackets, Function.update_self, hlt]
  split_ifs <;> rfl

/-- The counters that `SendPushRequest` and `SendPullResponse` store are those of the endpoint. -/
theorem waitsFor_countPackets (hq : cfg.qpNum ≤ 2) (van : RdmaVan) (ep : NodeId) (i : Nat) :
    WaitsFor ((van.countPackets cfg ep i).msgBufs i).inlineBuf ((van.countPackets cfg ep i).qpPktCount ep 1) := by
  obtain ⟨hnum, hcounter⟩ := loads_countPackets hq van ep i
  rw [WaitsFor, qpPktCount_countPackets hq, hnum]
  by_cases h2 : cfg.qpNum = 2
  · rw [hcounter h2, if_pos h2, h2]
    exact .inr ⟨rfl, Nat.mod_le ..⟩
  · exact .inl (by omega)

end RdmaVan

/-- The write of a chunk, which the receiver counts. -/
def WorkRequest.isChunk : WorkRequest → Bool
  | .writeChunkImm .. => true
  | _ => false

def Completion.isChunk : Completion → Bool
  | .recvImm _ none => true
  | _ => false

/-- A meta that is posted waits for at most `count` chunks; a chunk is posted to the slave queue pair with its bit. -/
structure WorkRequest.Stamped (wr : WorkRequest) (qp count : Nat) : Prop where
  writeImm : ∀ blk bytes imm u, wr = .writeImm blk bytes imm u →
    RawMeta.size ≤ bytes.length ∧ WaitsFor (Buf.store (fun _ => 0) 0 bytes) count
  chunk : ∀ dst src len imm, wr = .writeChunkImm dst src len imm → qp = 1 ∧ imm &&& 0x8000 ≠ 0

theorem WorkRequest.Stamped.mono {wr : WorkRequest} {qp k k' : Nat} (h : wr.Stamped qp k) (hk : k ≤ k') :
    wr.Stamped qp k' :=
  ⟨fun blk bytes imm u heq => (h.writeImm blk bytes imm u heq).imp_right (·.mono hk), h.chunk⟩

namespace RdmaVan

variable {cfg : RdmaCfg} {van van' : RdmaVan} {msg : Message} {t : RemoteTuple} {ep : NodeId} {out : Posted} {uid : Nat}

/-- What is posted to an endpoint has the counters of the endpoint, which count the chunks posted. -/
structure Counts (ep : NodeId) (van van' : RdmaVan) (out : Posted) : Prop where
  count : van'.qpPktCount ep 1 = van.qpPktCount ep 1 + out.countP (·.2.isChunk)
  others : ∀ d, d ≠ ep → van'.qpPktCount d = van.qpPktCount d
  incoming : van'.incomingPktCount = van.incomingPktCount
  stamped : ∀ p ∈ out, p.2.Stamped p.1 (van'.qpPktCount ep 1)
  few : out.countP (·.2.isChunk) ≤ (out.filterMap (·.2.signal .notify)).length

theorem stamped_rdmaWriteWithImm (hlen : Packed van t) {k : Nat} (hw : WaitsFor (van.msgBufs t.msgBuf).inlineBuf k)
    (uid : Nat) : (van.rdmaWriteWithImm t uid).2.Stamped 0 k := by
  refine ⟨fun blk bytes imm u heq => ?_, fun _ _ _ _ heq => nomatch heq⟩
  obtain ⟨rfl, rfl, rfl, rfl⟩ := WorkRequest.writeImm.inj heq
  refine ⟨by rw [length_load]; exact hlen, hw.congr fun i hi => ?_⟩
  have hi' : i < (van.msgBufs t.msgBuf).inlineLen := Nat.lt_of_lt_of_le hi hlen
  simp [store, load, hi']

theorem stamped_write (dst : RemoteAddr) (src len qp k : Nat) : (WorkRequest.write dst src len).Stamped qp k :=
  ⟨fun _ _ _ _ heq => (nomatch heq), fun _ _ _ _ heq => (nomatch heq)⟩

theorem counts_of_same (hcount : van'.qpPktCount = van.qpPktCount)
    (hincoming : van'.incomingPktCount = van.incomingPktCount)
    (hout : ∀ p ∈ out, p.2.isChunk = false ∧ ∀ blk bytes imm u, p.2 ≠ .writeImm blk bytes imm u) :
    Counts ep van van' out := by
  have hnone : out.countP (·.2.isChunk) = 0 := List.countP_eq_zero.mpr fun p hp => by simp [(hout p hp).1]
  refine ⟨by rw [hcount, hnone, Nat.add_zero], fun _ _ => by rw [hcount], hincoming, fun p hp => ?_, ?_⟩
  · refine ⟨fun blk bytes imm u heq => absurd heq ((hout p hp).2 blk bytes imm u), fun dst src len imm heq => ?_⟩
    have hchunk := (hout p hp).1
    rw [heq] at hchunk
    cases hchunk
  · rw [hnone]
    exact Nat.zero_le _

theorem Counts.of_same {van₁ : RdmaVan} (h : Counts ep van₁ van' out) (hcount : van₁.qpPktCount = van.qpPktCount)
    (hincoming : van₁.incomingPktCount = van.incomingPktCount) : Counts ep van van' out :=
  ⟨hcount ▸ h.count, hcount ▸ h.others, hincoming ▸ h.incoming, h.stamped, h.few⟩

theorem counts_rdmaWriteWithImm (hlen : Packed van t) (hw : ∀ k, WaitsFor (van.msgBufs t.msgBuf).inlineBuf k) :
    Counts ep van van [van.rdmaWriteWithImm t uid] where
  count := rfl
  others _ _ := rfl
  incoming := rfl
  stamped p hp := by
    obtain rfl := List.mem_singleton.mp hp
    exact stamped_rdmaWriteWithImm hlen (hw _) uid
  few := Nat.zero_le _

theorem counts_writePayload (hq : cfg.qpNum ≤ 2) (hlen : Packed van t)
    (hw : ∀ k, WaitsFor (van.msgBufs t.msgBuf).inlineBuf k) (dst : RemoteAddr) (src len : Nat) :
    Counts ep van (van.writePayload cfg ep t dst src len uid).1 (van.writePayload cfg ep t dst src len uid).2 := by
  cases hm : cfg.multiQp with
  | false =>
    simp only [writePayload, hm, Bool.false_eq_true, if_false]
    refine ⟨rfl, fun _ _ => rfl, rfl, fun p hp => ?_, Nat.zero_le _⟩
    rcases List.mem_cons.mp hp with rfl | hp
    · exact stamped_write ..
    · obtain rfl := List.mem_singleton.mp hp
      exact stamped_rdmaWriteWithImm hlen (hw _) uid
  | true =>
    obtain ⟨first, chunk, -, heq⟩ := writePayload_split hm hq van ep t dst src len uid
    have hcount := qpPktCount_countPackets hq van ep t.msgBuf
    have hpacked : Packed (van.countPackets cfg ep t.msgBuf) t := by
      simpa [Packed, countPackets, setMsgBuf] using hlen
    have hmain := stamped_rdmaWriteWithImm hpacked (waitsFor_countPackets hq van ep t.msgBuf) uid
    rw [heq]
    refine ⟨?_, fun d hd => Function.update_of_ne hd .., rfl, fun p hp => ?_, ?_⟩
    · rw [hcount]
      split_ifs <;> rfl
    · rcases List.mem_append.mp hp with hp | hp
      · rcases List.mem_cons.mp hp with rfl | hp
        · exact stamped_write ..
        · obtain rfl := List.mem_singleton.mp hp
          exact hmain
      · split_ifs at hp
        · obtain rfl := List.mem_singleton.mp hp
          refine ⟨fun _ _ _ _ heq => WorkRequest.noConfusion heq, fun _ _ _ _ heq => ?_⟩
          obtain ⟨-, -, -, rfl⟩ := WorkRequest.writeChunkImm.inj heq
          exact ⟨rfl, or_and_bit15 t.idx⟩
        · cases hp
    · split_ifs <;> simp [rdmaWriteWithImm, WorkRequest.isChunk, WorkRequest.signal]

theorem releaseFirstMsg_of_none {i : Nat} (h : van.msgbufCache i = none) : van.releaseFirstMsg i = van := by
  rw [releaseFirstMsg, Function.update_eq_self_iff.mpr h.symm]

theorem counts_sendByKind (hq : cfg.qpNum ≤ 2) (hlen : Packed van t)
    (hw : ∀ k, WaitsFor (van.msgBufs t.msgBuf).inlineBuf k)
    (h : van.sendByKind cfg ep msg t uid = some (van', out)) : Counts ep van van' out := by
  rcases sendByKind_eq_some h with ⟨-, heq⟩ | ⟨-, dst, src, -, heq⟩
  · obtain ⟨rfl, rfl⟩ := Prod.mk.inj heq
    exact counts_rdmaWriteWithImm hlen hw
  · have hc : Counts ep van (van.writePayload cfg ep t dst src (payloadLen msg) uid).1 _ :=
      counts_writePayload hq hlen hw dst src (payloadLen msg)
    rwa [← heq] at hc

theorem written_of_reply
    (h : (if isValidPushpull msg then van.sendByKind cfg ep msg t uid else some (van, [van.rdmaWriteWithImm t uid])) =
      some (van', out)) :
    (∃ b count, van' = { van.withInline t.msgBuf b with qpPktCount := count }) ∧
      ∀ p ∈ out, p.2.signal .start = none := by
  split_ifs at h
  · exact sendByKind_frame h
  · obtain ⟨rfl, rfl⟩ := Prod.mk.inj (Option.some.inj h)
    exact ⟨⟨_, van.qpPktCount, by rw [withInline_self]⟩, by simp [rdmaWriteWithImm, WorkRequest.signal]⟩

end RdmaVan

namespace RdmaNet

open RdmaVan

/-- The chunks from `a` to `b` that have not been counted. -/
def chunksTo (s : RdmaNet) (a b : NodeId) : Nat :=
  (s.chan ⟨a, b, 1, false⟩).countP (·.isChunk) + (s.cq b).countP fun e => e.1 = a ∧ e.2.isChunk

/-- The counter of a sender is that of the receiver and the chunks under way, and no meta waits for more. -/
structure Counted (s : RdmaNet) : Prop where
  balance : ∀ a b, (s.vans a).qpPktCount b 1 = (s.vans b).incomingPktCount a 1 + s.chunksTo a b
  posted : ∀ a b, (s.vans a).qpPktCount b 1 ≤ (s.posted a b).length
  chan : ∀ l, ∀ wr ∈ s.chan l, wr.Stamped l.qp ((s.vans l.src).qpPktCount l.dst 1) ∧ (wr.isChunk → l.back = false)
  arrived : ∀ n ep imm, (ep, .recvImm imm none) ∈ s.cq n → imm &&& 0x8000 ≠ 0
  waiting : ∀ n i u m, (s.vans n).msgbufCache i = some (u, m) → ∀ k, WaitsFor ((s.vans n).msgBufs i).inlineBuf k
  blocks : ∀ b idx ctx, (s.vans b).addrPool.table idx = some ctx →
    WaitsFor ((s.vans b).mem ctx.metaBuffer) ((s.vans ctx.origin.1).qpPktCount b 1)

variable {cfg : RdmaCfg} {s s' : RdmaNet} {a b n ep : NodeId} {van : RdmaVan} {out : Posted}

theorem counted_init (cfg : RdmaCfg) (isServer : NodeId → Bool) : Counted (init cfg isServer) where
  balance _ _ := rfl
  posted _ _ := Nat.le_refl 0
  chan _ _ h := nomatch h
  arrived _ _ _ h := nomatch h
  waiting _ _ _ _ h := nomatch h
  blocks _ _ _ h := nomatch h

theorem chunksTo_post (hc : ∀ p ∈ out, p.2.isChunk → p.1 = 1) (s : RdmaNet) (n ep a b : NodeId) :
    (s.post n ep out).chunksTo a b = s.chunksTo a b + if a = n ∧ b = ep then out.countP (·.2.isChunk) else 0 := by
  have hlane : ∀ p ∈ out, (p.2.isChunk && decide (p.1 = 1 ∧ p.2.isReply = false)) = p.2.isChunk := by
    rintro ⟨q, wr⟩ hp
    have hq := hc _ hp
    cases wr <;> simp_all [WorkRequest.isChunk, WorkRequest.isReply]
  have hcount : ((out.filter fun p => p.1 = 1 ∧ p.2.isReply = false).map (·.2)).countP (·.isChunk) =
      out.countP (·.2.isChunk) := by
    rw [List.countP_map, List.countP_filter]
    refine List.countP_congr fun p hp => ?_
    rw [← hlane p hp]
    rfl
  simp only [chunksTo, post, List.countP_append]
  split_ifs
  · rw [hcount]
    omega
  · rfl

namespace Counted

theorem le_update (hc : Counts ep (s.vans n) van out) (a b : NodeId) :
    (s.vans a).qpPktCount b 1 ≤ (Function.update s.vans n van a).qpPktCount b 1 := by
  rcases eq_or_ne a n with rfl | ha
  · rw [Function.update_self]
    rcases eq_or_ne b ep with rfl | hb
    · rw [hc.count]
      exact Nat.le_add_right ..
    · rw [hc.others b hb]
  · rw [Function.update_of_ne ha]

theorem send (h : Counted s) (hc : Counts ep (s.vans n) van out)
    (hwaiting : ∀ i u m, van.msgbufCache i = some (u, m) → ∀ k, WaitsFor (van.msgBufs i).inlineBuf k)
    (hblocks : ∀ idx ctx, van.addrPool.table idx = some ctx →
      WaitsFor (van.mem ctx.metaBuffer) ((s.vans ctx.origin.1).qpPktCount n 1)) :
    Counted ((s.setVan n van).post n ep out) := by
  have hincoming : ∀ a b, (Function.update s.vans n van b).incomingPktCount a = (s.vans b).incomingPktCount a := by
    intro a b
    rcases eq_or_ne b n with rfl | hb
    · rw [Function.update_self, hc.incoming]
    · rw [Function.update_of_ne hb]
  have hchunk : ∀ p ∈ out, p.2.isChunk → p.1 = 1 := by
    rintro ⟨q, wr⟩ hp hwr
    cases wr with
    | writeChunkImm dst src len imm => exact ((hc.stamped _ hp).chunk dst src len imm rfl).1
    | _ => cases hwr
  refine ⟨fun a b => ?_, fun a b => ?_, fun l wr hwr => ?_, h.arrived, fun c i u m hm => ?_, fun c idx ctx hctx => ?_⟩
  · show (Function.update s.vans n van a).qpPktCount b 1 =
      (Function.update s.vans n van b).incomingPktCount a 1 + _
    rw [hincoming, chunksTo_post hchunk, show (s.setVan n van).chunksTo a b = s.chunksTo a b from rfl]
    have hbal := h.balance a b
    by_cases hab : a = n ∧ b = ep
    · obtain ⟨rfl, rfl⟩ := hab
      rw [Function.update_self, hc.count, if_pos ⟨rfl, rfl⟩]
      omega
    · rw [if_neg hab]
      rcases eq_or_ne a n with rfl | ha
      · rw [Function.update_self, hc.others b fun hb => hab ⟨rfl, hb⟩]
        omega
      · rw [Function.update_of_ne ha]
        omega
  · have hle := h.posted a b
    have hfew := hc.few
    simp only [post, setVan, List.length_append]
    by_cases hab : a = n ∧ b = ep
    · obtain ⟨rfl, rfl⟩ := hab
      rw [Function.update_self, hc.count, if_pos ⟨rfl, rfl⟩]
      omega
    · rw [if_neg hab]
      rcases eq_or_ne a n with rfl | ha
      · rw [Function.update_self, hc.others b fun hb => hab ⟨rfl, hb⟩]
        omega
      · rw [Function.update_of_ne ha]
        omega
  · rcases mem_chan_post hwr with hwr | ⟨q, hq, rfl⟩
    · obtain ⟨hst, hback⟩ := h.chan l wr hwr
      exact ⟨hst.mono (le_update hc ..), hback⟩
    · refine ⟨?_, fun hck => ?_⟩
      · have hst := hc.stamped _ hq
        show wr.Stamped q ((Function.update s.vans n van n).qpPktCount ep 1)
        rwa [Function.update_self]
      · cases wr <;> first | rfl | cases hck
  · replace hm : (Function.update s.vans n van c).msgbufCache i = some (u, m) := hm
    show ∀ k, WaitsFor ((Function.update s.vans n van c).msgBufs i).inlineBuf k
    rcases eq_or_ne c n with rfl | hcn
    · rw [Function.update_self] at hm ⊢
      exact hwaiting i u m hm
    · rw [Function.update_of_ne hcn] at hm ⊢
      exact h.waiting c i u m hm
  · replace hctx : (Function.update s.vans n van c).addrPool.table idx = some ctx := hctx
    refine WaitsFor.mono (k := (s.vans ctx.origin.1).qpPktCount c 1) ?_ (le_update hc ..)
    show WaitsFor ((Function.update s.vans n van c).mem ctx.metaBuffer) _
    rcases eq_or_ne c n with rfl | hcn
    · rw [Function.update_self] at hctx ⊢
      exact hblocks idx ctx hctx
    · rw [Function.update_of_ne hcn] at hctx ⊢
      exact h.blocks c idx ctx hctx

theorem tail_cq (h : Counted s) {wc : Completion} {rest : List (NodeId × Completion)} (hcq : s.cq n = (ep, wc) :: rest)
    (hwc : wc.isChunk = false) : Counted { s with cq := Function.update s.cq n rest } := by
  refine ⟨fun a b => (h.balance a b).trans ?_, h.posted, h.chan, fun c ep imm himm => ?_, h.waiting, h.blocks⟩
  · simp only [chunksTo]
    rcases eq_or_ne b n with rfl | hb
    · rw [Function.update_self, hcq, List.countP_cons]
      simp [hwc]
    · rw [Function.update_of_ne hb]
  · exact h.arrived c ep imm (mem_update_tail hcq himm)

/-- What a work request does to the memory of the receiver: a meta is replaced as a whole. -/
theorem receive_mem {wr : WorkRequest} {l : Link} (hon : wr.OnLink l) (van : RdmaVan) (ram : Buf) :
    ∃ mem ram', (van.receive ram wr).1 = { van with mem := mem, ram := ram' } ∧
      ∀ blk, (∀ i < RawMeta.size, mem blk i = van.mem blk i) ∨
        ∃ bytes imm u, wr = .writeImm blk bytes imm u ∧ mem blk = (van.mem blk).store 0 bytes := by
  cases wr with
  | rendezvousStart req => exact ⟨van.mem, van.ram, rfl, fun _ => .inl fun _ _ => rfl⟩
  | rendezvousReply resp => exact ⟨van.mem, van.ram, rfl, fun _ => .inl fun _ _ => rfl⟩
  | write dst src len =>
    obtain ⟨mem, ram', heq, hmem⟩ := SplitNet.writeAt_behind hon van (ram.load src len)
    exact ⟨mem, ram', heq, fun blk => .inl (hmem blk)⟩
  | writeChunkImm dst src len imm =>
    obtain ⟨mem, ram', heq, hmem⟩ := SplitNet.writeAt_behind hon van (ram.load src len)
    exact ⟨mem, ram', heq, fun blk => .inl (hmem blk)⟩
  | writeImm dst bytes imm u =>
    refine ⟨_, van.ram, rfl, fun blk => ?_⟩
    rcases eq_or_ne blk dst with rfl | hne
    · exact .inr ⟨bytes, imm, u, rfl, Function.update_self ..⟩
    · exact .inl fun i _ => by rw [Function.update_of_ne hne]

theorem chunksTo_deliver {l : Link} {wr : WorkRequest} {rest : List WorkRequest} (h : Counted s)
    (hchan : s.chan l = wr :: rest) (vans : NodeId → RdmaVan) (a b : NodeId) :
    RdmaNet.chunksTo { s with
      vans := vans
      chan := Function.update s.chan l rest
      cq := Function.update s.cq l.dst (s.cq l.dst ++
        (((s.vans l.dst).receive (s.vans l.src).ram wr).2.map (l.src, ·)).toList) } a b = s.chunksTo a b := by
  have hmem : wr ∈ s.chan l := by rw [hchan]; exact List.mem_cons_self
  obtain ⟨hst, hback⟩ := h.chan l wr hmem
  have hlink : (s.chan ⟨a, b, 1, false⟩).countP (·.isChunk) =
      (Function.update s.chan l rest ⟨a, b, 1, false⟩).countP (·.isChunk) +
        if wr.isChunk ∧ l.src = a ∧ l.dst = b then 1 else 0 := by
    rcases eq_or_ne (⟨a, b, 1, false⟩ : Link) l with rfl | hl
    · rw [hchan, Function.update_self, List.countP_cons]
      simp
    · rw [Function.update_of_ne hl, if_neg, Nat.add_zero]
      rintro ⟨hck, rfl, rfl⟩
      cases wr with
      | writeChunkImm dst src len imm =>
        refine hl ?_
        rw [← hback rfl, ← (hst.chunk dst src len imm rfl).1]
      | _ => cases hck
  have hwc : ((((s.vans l.dst).receive (s.vans l.src).ram wr).2.map (l.src, ·)).toList).countP
      (fun e => e.1 = a ∧ e.2.isChunk) = if wr.isChunk ∧ l.src = a then 1 else 0 := by
    cases wr <;> simp [receive, Completion.isChunk, WorkRequest.isChunk, List.countP_cons]
  simp only [chunksTo]
  rw [hlink]
  rcases eq_or_ne b l.dst with rfl | hb
  · rw [Function.update_self, List.countP_append, hwc]
    simp only [and_true]
    omega
  · rw [Function.update_of_ne hb, if_neg fun hc => hb hc.2.2.symm]
    omega

theorem deliver {l : Link} {wr : WorkRequest} {rest : List WorkRequest} (h : Counted s) (hok : NetOk cfg s)
    (hchan : s.chan l = wr :: rest) :
    Counted { s.setVan l.dst ((s.vans l.dst).receive (s.vans l.src).ram wr).1 with
      chan := Function.update s.chan l rest
      cq := Function.update s.cq l.dst (s.cq l.dst ++
        (((s.vans l.dst).receive (s.vans l.src).ram wr).2.map (l.src, ·)).toList) } := by
  have hmem : wr ∈ s.chan l := by rw [hchan]; exact List.mem_cons_self
  have hon := hok.chan l wr hmem
  obtain ⟨mem, ram, hvan, hblk⟩ := receive_mem hon (s.vans l.dst) (s.vans l.src).ram
  have hsame : ∀ c, (Function.update s.vans l.dst ((s.vans l.dst).receive (s.vans l.src).ram wr).1 c).qpPktCount =
      (s.vans c).qpPktCount ∧ (Function.update s.vans l.dst ((s.vans l.dst).receive (s.vans l.src).ram wr).1
        c).incomingPktCount = (s.vans c).incomingPktCount := by
    intro c
    rw [hvan]
    rcases eq_or_ne c l.dst with rfl | hc
    · rw [Function.update_self]
      exact ⟨rfl, rfl⟩
    · rw [Function.update_of_ne hc]
      exact ⟨rfl, rfl⟩
  refine ⟨fun a b => ?_, fun a b => ?_, fun k wr' hwr' => ?_, fun c ep imm himm => ?_, fun c i u m hm => ?_,
    fun c idx ctx hctx => ?_⟩
  · refine Eq.trans ?_ (congrArg _ (h.chunksTo_deliver hchan _ a b).symm)
    show (Function.update s.vans l.dst _ a).qpPktCount b 1 = (Function.update s.vans l.dst _ b).incomingPktCount a 1 + _
    rw [(hsame a).1, (hsame b).2]
    exact h.balance a b
  · show (Function.update s.vans l.dst _ a).qpPktCount b 1 ≤ _
    rw [(hsame a).1]
    exact h.posted a b
  · obtain ⟨hst, hback⟩ := h.chan k wr' (mem_update_tail hchan hwr')
    refine ⟨?_, hback⟩
    show wr'.Stamped k.qp ((Function.update s.vans l.dst _ k.src).qpPktCount k.dst 1)
    rwa [(hsame k.src).1]
  · rcases mem_cq_deliver himm with himm | ⟨-, -, himm⟩
    · exact h.arrived c ep imm himm
    · cases wr with
      | writeChunkImm dst src len imm' =>
        obtain ⟨rfl, -⟩ := Completion.recvImm.inj (Option.some.inj himm)
        exact (((h.chan l _ hmem).1).chunk dst src len imm' rfl).2
      | writeImm => exact absurd (Option.some.inj himm) (by simp)
      | _ => cases himm
  · replace hm : (Function.update s.vans l.dst _ c).msgbufCache i = some (u, m) := hm
    show ∀ k, WaitsFor ((Function.update s.vans l.dst _ c).msgBufs i).inlineBuf k
    rw [hvan] at hm ⊢
    rcases eq_or_ne c l.dst with rfl | hc
    · rw [Function.update_self] at hm ⊢
      exact h.waiting l.dst i u m hm
    · rw [Function.update_of_ne hc] at hm ⊢
      exact h.waiting c i u m hm
  · replace hctx : (Function.update s.vans l.dst _ c).addrPool.table idx = some ctx := hctx
    show WaitsFor ((Function.update s.vans l.dst _ c).mem ctx.metaBuffer)
      ((Function.update s.vans l.dst _ ctx.origin.1).qpPktCount c 1)
    rw [(hsame ctx.origin.1).1]
    rw [hvan] at hctx ⊢
    rcases eq_or_ne c l.dst with rfl | hc
    · rw [Function.update_self] at hctx ⊢
      replace hctx : (s.vans l.dst).addrPool.table idx = some ctx := hctx
      show WaitsFor (mem ctx.metaBuffer) _
      rcases hblk ctx.metaBuffer with hold | ⟨bytes, imm, u, rfl, hnew⟩
      · exact (h.blocks l.dst idx ctx hctx).congr hold
      · -- the block is the one of the entry that was given to the sender
        obtain ⟨hlen, hw⟩ := (h.chan l _ hmem).1.writeImm _ bytes imm u rfl
        have hwrite : Rendezvous.Req.write ⟨imm, ctx.metaBuffer⟩ (bytesHead bytes) u ∈
            (s.abs cfg).out l.src l.dst := by
          refine List.mem_filterMap.mpr ⟨.writeImm ctx.metaBuffer bytes imm u, ?_, rfl⟩
          rwa [← hon.1, ← hon.2.1]
        obtain ⟨x, -, -, -, -, hslot⟩ := hok.proto.writes _ _ _ _ _ hwrite
        have hown : (s.abs cfg).slots l.dst idx = some ctx.slot := congrArg (Option.map BufferContext.slot) hctx
        obtain rfl := hok.proto.blk_inj l.dst _ _ _ _ hown hslot rfl
        have hsrc : ctx.origin.1 = l.src := congrArg Rendezvous.Slot.peer (Option.some.inj (hown.symm.trans hslot))
        rw [hnew, hsrc]
        refine hw.congr fun i hi => ?_
        have hi' : i < bytes.length := Nat.lt_of_lt_of_le hi hlen
        simp [store, hi']
    · rw [Function.update_of_ne hc] at hctx ⊢
      exact h.blocks c idx ctx hctx

theorem setVan (h : Counted s) (hcount : van.qpPktCount = (s.vans n).qpPktCount)
    (hincoming : van.incomingPktCount = (s.vans n).incomingPktCount)
    (hwaiting : ∀ i u m, van.msgbufCache i = some (u, m) → ∀ k, WaitsFor (van.msgBufs i).inlineBuf k)
    (hblocks : ∀ idx ctx, van.addrPool.table idx = some ctx →
      WaitsFor (van.mem ctx.metaBuffer) ((s.vans ctx.origin.1).qpPktCount n 1)) : Counted (s.setVan n van) := by
  rw [← post_nil (s.setVan n van) n n]
  exact h.send (counts_of_same hcount hincoming (by simp)) hwaiting hblocks

theorem sendByKind {msg : Message} {t : RemoteTuple} {van₁ : RdmaVan} {uid : Nat} (hq : cfg.qpNum ≤ 2) (h : Counted s)
    (hsend : (if isValidPushpull msg then van₁.sendByKind cfg ep msg t uid
      else some (van₁, [van₁.rdmaWriteWithImm t uid])) = some (van, out))
    (hlen : Packed van₁ t) (hw : ∀ k, WaitsFor (van₁.msgBufs t.msgBuf).inlineBuf k)
    (hcount : van₁.qpPktCount = (s.vans n).qpPktCount)
    (hincoming : van₁.incomingPktCount = (s.vans n).incomingPktCount) (hmem : van₁.mem = (s.vans n).mem)
    (hpool : van₁.addrPool = (s.vans n).addrPool) (hcache : van₁.msgbufCache = (s.vans n).msgbufCache)
    (hbufs : ∀ i, i ≠ t.msgBuf → van₁.msgBufs i = (s.vans n).msgBufs i) :
    Counted ((s.setVan n (van.releaseFirstMsg t.msgBuf)).post n ep out) := by
  have hc : Counts ep van₁ van out := by
    split_ifs at hsend
    · exact counts_sendByKind hq hlen hw hsend
    · obtain ⟨rfl, rfl⟩ := Prod.mk.inj (Option.some.inj hsend)
      exact counts_rdmaWriteWithImm hlen hw
  obtain ⟨b, count, rfl⟩ := (written_of_reply hsend).1
  refine h.send (?_ : Counts ep _ (releaseFirstMsg _ t.msgBuf) out) (fun i u m hm => ?_) fun idx ctx hctx => ?_
  · have hc' := hc.of_same hcount hincoming
    exact ⟨hc'.count, hc'.others, hc'.incoming, hc'.stamped, hc'.few⟩
  · replace hm : Function.update van₁.msgbufCache t.msgBuf none i = some (u, m) := hm
    rcases eq_or_ne i t.msgBuf with rfl | hi
    · rw [Function.update_self] at hm
      cases hm
    · rw [Function.update_of_ne hi, hcache] at hm
      have hbuf : (releaseFirstMsg { van₁.withInline t.msgBuf b with qpPktCount := count } t.msgBuf).msgBufs i =
          (s.vans n).msgBufs i := (Function.update_of_ne hi ..).trans (hbufs i hi)
      rw [hbuf]
      exact h.waiting n i u m hm
  · replace hctx : van₁.addrPool.table idx = some ctx := hctx
    show WaitsFor (van₁.mem ctx.metaBuffer) _
    rw [hmem]
    exact h.blocks n idx ctx (hpool ▸ hctx)

theorem start {req : RendezvousStart} (h : Counted s) (hok : VanOk cfg (s.vans n))
    (hreply : (s.vans n).sendRendezvousReply cfg ep req = some (van, out)) :
    Counted ((s.setVan n van).post n ep out) := by
  obtain ⟨ctx, resp, pool, hblk, -, -, hstore, -, -, ⟨keyToMr, nextGpu, rfl⟩, rfl⟩ := sendRendezvousReply_eq_some hreply
  obtain ⟨rest, -, -, rfl⟩ := AddressPool.storeAddress_eq_some.mp hstore
  refine h.send (counts_of_same rfl rfl (by simp [WorkRequest.isChunk])) (h.waiting n) fun idx c hc => ?_
  replace hc : Function.update (s.vans n).addrPool.table resp.idx (some ctx) idx = some c := hc
  show WaitsFor (Function.update (s.vans n).mem (s.vans n).nextBlock (fun _ => 0) c.metaBuffer) _
  rcases eq_or_ne idx resp.idx with rfl | hne
  · obtain rfl : ctx = c := by simpa using hc
    rw [hblk, Function.update_self]
    exact waitsFor_zero _
  · rw [Function.update_of_ne hne] at hc
    rw [Function.update_of_ne (Nat.ne_of_lt (hok.pool idx c hc).2)]
    exact h.blocks n idx c hc

theorem lt_of_small (h : Counted s) (hok : NetOk cfg s) (hsmall : s.sent.length < 2 ^ 64) (a b : NodeId) :
    (s.vans a).qpPktCount b 1 < 2 ^ 64 := by
  have hsub : s.posted a b ⊆ List.range s.sent.length := fun u hu => by
    obtain ⟨y, hy, -⟩ := hok.proto.posted_sent a b u hu
    obtain ⟨x, hx, -⟩ := of_sent_abs hy
    exact List.mem_range.mpr (List.lt_of_getElem?_eq_some hx)
  have hle := (List.subperm_of_subset (hok.proto.posted_nodup a b) hsub).length_le
  rw [List.length_range] at hle
  exact Nat.lt_of_le_of_lt ((h.posted a b).trans hle) hsmall

theorem isChunk_iff (hbits : cfg.poolSize ≤ 0x8000) (h : Counted s) (hok : NetOk cfg s) {imm : Nat} {u : Option Nat}
    (hmem : (ep, .recvImm imm u) ∈ s.cq n) : imm &&& 0x8000 ≠ 0 ↔ u = none := by
  cases u with
  | none => simpa using h.arrived n ep imm hmem
  | some v =>
    have hnote : (ep, Rendezvous.Arrival.note imm v) ∈ (s.abs cfg).cq n :=
      List.mem_filterMap.mpr ⟨_, hmem, rfl⟩
    obtain ⟨sl, hslot, -⟩ := hok.proto.notes ep n imm v hnote
    obtain ⟨ctx, hctx, -⟩ := Option.map_eq_some_iff.mp hslot
    simp [and_bit15_of_lt (Nat.lt_of_lt_of_le ((hok.van n).pool imm ctx hctx).1 hbits)]

theorem chunksTo_tail {imm : Nat} {rest : List (NodeId × Completion)} (hcq : s.cq n = (ep, .recvImm imm none) :: rest)
    (a b : NodeId) : s.chunksTo a b = RdmaNet.chunksTo { s with cq := Function.update s.cq n rest } a b +
      if ep = a ∧ n = b then 1 else 0 := by
  simp only [chunksTo]
  rcases eq_or_ne b n with rfl | hb
  · rw [Function.update_self, hcq, List.countP_cons, ← Nat.add_assoc]
    simp [Completion.isChunk]
  · rw [Function.update_of_ne hb, if_neg fun hab => hb hab.2.symm, Nat.add_zero]

theorem chunk {imm : Nat} {rest : List (NodeId × Completion)} (h : Counted s) (hok : NetOk cfg s)
    (hsmall : s.sent.length < 2 ^ 64) (hcq : s.cq n = (ep, .recvImm imm none) :: rest) :
    Counted { s.setVan n { s.vans n with
        incomingPktCount := Function.update (s.vans n).incomingPktCount ep
          (Function.update ((s.vans n).incomingPktCount ep) 1 (((s.vans n).incomingPktCount ep 1 + 1) % 2 ^ 64)) } with
      cq := Function.update s.cq n rest } := by
  have hmod : ((s.vans n).incomingPktCount ep 1 + 1) % 2 ^ 64 = (s.vans n).incomingPktCount ep 1 + 1 := by
    have hlt := h.lt_of_small hok hsmall ep n
    rw [h.balance, chunksTo_tail hcq, if_pos ⟨rfl, rfl⟩] at hlt
    exact Nat.mod_eq_of_lt (by omega)
  rw [hmod]
  -- the van differs in one counter of arrivals only
  generalize hvan : ({ s.vans n with
    incomingPktCount := Function.update (s.vans n).incomingPktCount ep
      (Function.update ((s.vans n).incomingPktCount ep) 1 ((s.vans n).incomingPktCount ep 1 + 1)) } : RdmaVan) = van
  have hsame : ∀ c, ∃ inc, Function.update s.vans n van c = { s.vans c with incomingPktCount := inc } := by
    intro c
    rcases eq_or_ne c n with rfl | hc
    · exact ⟨_, by rw [Function.update_self, ← hvan]⟩
    · exact ⟨_, Function.update_of_ne hc ..⟩
  have hinc : ∀ a b, (Function.update s.vans n van b).incomingPktCount a 1 =
      (s.vans b).incomingPktCount a 1 + if ep = a ∧ n = b then 1 else 0 := by
    intro a b
    rcases eq_or_ne b n with rfl | hb
    · rw [Function.update_self, ← hvan]
      rcases eq_or_ne a ep with rfl | ha
      · simp
      · simp [Function.update_of_ne ha, ha.symm]
    · rw [Function.update_of_ne hb, if_neg fun hab => hb hab.2.symm, Nat.add_zero]
  refine ⟨fun a b => ?_, fun a b => ?_, fun l wr hwr => ?_, fun c ep imm himm => ?_, fun c i u m hm => ?_,
    fun c idx ctx hctx => ?_⟩
  · obtain ⟨_, ha⟩ := hsame a
    show (Function.update s.vans n van a).qpPktCount b 1 = (Function.update s.vans n van b).incomingPktCount a 1 +
      RdmaNet.chunksTo { s with cq := Function.update s.cq n rest } a b
    rw [hinc, ha]
    exact (h.balance a b).trans (by rw [chunksTo_tail hcq a b]; omega)
  · obtain ⟨_, ha⟩ := hsame a
    show (Function.update s.vans n van a).qpPktCount b 1 ≤ _
    rw [ha]
    exact h.posted a b
  · obtain ⟨_, hsrc⟩ := hsame l.src
    show wr.Stamped l.qp ((Function.update s.vans n van l.src).qpPktCount l.dst 1) ∧ _
    rw [hsrc]
    exact h.chan l wr hwr
  · exact h.arrived c ep imm (mem_update_tail hcq himm)
  · obtain ⟨_, hc⟩ := hsame c
    replace hm : (Function.update s.vans n van c).msgbufCache i = some (u, m) := hm
    show ∀ k, WaitsFor ((Function.update s.vans n van c).msgBufs i).inlineBuf k
    rw [hc] at hm ⊢
    exact h.waiting c i u m hm
  · obtain ⟨_, hc⟩ := hsame c
    obtain ⟨_, hsrc⟩ := hsame ctx.origin.1
    replace hctx : (Function.update s.vans n van c).addrPool.table idx = some ctx := hctx
    show WaitsFor ((Function.update s.vans n van c).mem ctx.metaBuffer)
      ((Function.update s.vans n van ctx.origin.1).qpPktCount c 1)
    rw [hc] at hctx ⊢
    rw [hsrc]
    exact h.blocks c idx ctx hctx

theorem imm {imm : Nat} {u : Option Nat} {rest : List (NodeId × Completion)} (hbits : cfg.poolSize ≤ 0x8000)
    (h : Counted s) (hok : NetOk cfg s) (hsmall : s.sent.length < 2 ^ 64)
    (hcq : s.cq n = (ep, .recvImm imm u) :: rest) (himm : (s.vans n).recvImm ep imm u = some van) :
    Counted { s.setVan n van with cq := Function.update s.cq n rest } := by
  have hbit := isChunk_iff hbits h hok (by rw [hcq]; exact List.mem_cons_self)
  rcases recvImm_eq_some himm with ⟨hchunk, rfl⟩ | ⟨hplain, ctx, v, -, rfl, rfl⟩
  · obtain rfl := hbit.mp hchunk
    exact h.chunk hok hsmall hcq
  · exact (h.tail_cq hcq rfl).setVan rfl rfl (h.waiting n) (h.blocks n)

theorem first {m : Message} {van₀ : RdmaVan} (hq : cfg.qpNum ≤ 2) (hshape : m.msgMeta.shape.length ≤ 8)
    (h : Counted s) (hsame : (s.vans n).SameButMrs van₀) (mrs : List (Mr × Nat)) (req : RendezvousStart) (uid : Nat) :
    Counted ((s.setVan n (van₀.storeMsgBuf { prepareNewMsgBuf cfg m with mrs := mrs } m uid)).post n m.msgMeta.recver
      [(0, .rendezvousStart req)]) := by
  obtain ⟨_, _, rfl⟩ := hsame
  refine h.send (counts_of_same rfl rfl (by simp [WorkRequest.isChunk])) (fun i u m' hm' k => ?_) (h.blocks n)
  replace hm' : Function.update (s.vans n).msgbufCache (s.vans n).nextBuf (some (uid, m)) i = some (u, m') := hm'
  show WaitsFor (Function.update (s.vans n).msgBufs (s.vans n).nextBuf _ i).inlineBuf k
  rcases eq_or_ne i (s.vans n).nextBuf with rfl | hi
  · rw [Function.update_self]
    exact waitsFor_packMeta hq hshape _ k
  · rw [Function.update_of_ne hi] at hm' ⊢
    exact h.waiting n i u m' hm' k

theorem cached {m : Message} {van₀ : RdmaVan} {t : RemoteTuple} {uid : Nat} (hq : cfg.qpNum ≤ 2)
    (hshape : m.msgMeta.shape.length ≤ 8) (h : Counted s) (hok : VanOk cfg (s.vans n))
    (hsame : (s.vans n).SameButMrs van₀) (hv : isValidPushpull m = true)
    (ht : (s.vans n).remoteInfo m.msgMeta.key m.msgMeta.push m.msgMeta.recver = some t)
    (hsend : (van₀.refill cfg t m).sendByKind cfg m.msgMeta.recver m t uid = some (van, out)) :
    Counted ((s.setVan n van).post n m.msgMeta.recver out) := by
  obtain ⟨_, _, rfl⟩ := hsame
  obtain ⟨hlt, hnone⟩ := hok.info _ _ _ t ht
  have hfree : van.releaseFirstMsg t.msgBuf = van := by
    obtain ⟨b, count, rfl⟩ := (sendByKind_frame hsend).1
    exact releaseFirstMsg_of_none hnone
  rw [← hfree]
  refine h.sendByKind hq ((if_pos hv).trans hsend) ?_ (fun k => ?_) rfl rfl rfl rfl rfl
    fun i hi => Function.update_of_ne hi ..
  · simpa [Packed, refill, setMsgBuf, MessageBuffer.pack, MessageBuffer.setData] using hok.inlineLen _ hlt
  · simp only [refill, setMsgBuf, Function.update_self]
    exact waitsFor_packMeta hq hshape _ k

theorem reply {m : Message} {resp : RendezvousReply} {uid : Nat} (hq : cfg.qpNum ≤ 2) (h : Counted s)
    (hok : VanOk cfg (s.vans n)) (hcache : (s.vans n).msgbufCache resp.originAddr = some (uid, m))
    (hsend : (if isValidPushpull m then
        ((s.vans n).storeRemoteAndLocalInfo m resp.remoteTuple).sendByKind cfg ep m resp.remoteTuple uid
      else some ((s.vans n).storeRemoteAndLocalInfo m resp.remoteTuple,
        [((s.vans n).storeRemoteAndLocalInfo m resp.remoteTuple).rdmaWriteWithImm resp.remoteTuple uid])) =
      some (van, out)) : Counted ((s.setVan n (van.releaseFirstMsg resp.originAddr)).post n ep out) := by
  obtain ⟨_, _, hinfo⟩ := storeRemoteAndLocalInfo_frame (s.vans n) m resp.remoteTuple
  rw [hinfo] at hsend
  exact h.sendByKind hq hsend (hok.inlineLen _ (hok.cache _ _ _ hcache).1) (h.waiting n _ _ _ hcache) rfl rfl rfl rfl
    rfl fun _ _ => rfl

end Counted

/-- There are fewer messages than a packet counter has values, and each has at most eight dimensions. -/
structure Small (s : RdmaNet) : Prop where
  sent : s.sent.length < 2 ^ 64
  shape : ∀ x ∈ s.sent, x.msg.msgMeta.shape.length ≤ 8

theorem counted_step {act : Action} (hq : cfg.qpNum ≤ 2) (hbits : cfg.poolSize ≤ 0x8000) (h : Counted s)
    (hok : NetOk cfg s) (hsmall : Small s') (hs : step cfg s act = some s') : Counted s' := by
  have hlast : ∀ x, x ∈ s.sent ++ [x] := fun x => List.mem_append_right _ (List.mem_singleton_self x)
  cases acts_of_step hs with
  | @first n msg m van₀ mrs hm hsame hinfo hbuf =>
    have hc := h.first hq (hsmall.shape _ (hlast _)) hsame mrs ((s.vans n).startOf m) s.sent.length
    exact ⟨hc.balance, hc.posted, hc.chan, hc.arrived, hc.waiting, hc.blocks⟩
  | cached hm hsame hv ht hlen hsend =>
    have hc := h.cached hq (hsmall.shape _ (hlast _)) (hok.van _) hsame hv ht hsend
    exact ⟨hc.balance, hc.posted, hc.chan, hc.arrived, hc.waiting, hc.blocks⟩
  | deliver hchan => exact h.deliver hok hchan
  | start hcq hreply => exact (h.tail_cq hcq rfl).start (hok.van _) hreply
  | reply hcq hcache hsend => exact (h.tail_cq hcq rfl).reply hq (hok.van _) hcache hsend
  | imm hcq himm => exact h.imm hbits hok hsmall.sent hcq himm
  | @pop n note msg rest hbufs hrecv =>
    have hc : Counted (s.setVan n { s.vans n with recvBuffers := rest }) := h.setVan rfl rfl (h.waiting n) (h.blocks n)
    exact ⟨hc.balance, hc.posted, hc.chan, hc.arrived, hc.waiting, hc.blocks⟩
  | store n addr bytes => exact h.setVan rfl rfl (h.waiting n) (h.blocks n)

end RdmaNet

end StepMesh
