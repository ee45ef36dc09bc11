import StepMesh.RdmaNet
import StepMesh.RdmaVanSpec

/-!
# The payload of a push

A push request takes its payload from `mrs[0]` of its message buffer, and that region was put there
when the buffer was made, for the first push of the key. `pushes_write_own_payload_iff` says for which
sequences of pushes on one (key, receiver) each one still writes its own `data[1]`.
-/

namespace StepMesh

open Buf

/-! ### What the writes leave at the receiver -/

@[simp] theorem RemoteAddr.add_zero (dst : RemoteAddr) : dst.add 0 = dst := by
  cases dst <;> rfl

namespace RdmaVan

/-- One byte of the memory that peers write to. -/
def byteAt (van : RdmaVan) : RemoteAddr → UInt8
  | .buffer blk off => van.mem blk off
  | .user addr => van.ram addr

/-- The receiver after a list of work requests of a peer whose memory is `ram`. -/
def arrive (van : RdmaVan) (ram : Buf) (out : Posted) : RdmaVan :=
  out.foldl (fun van wr => (van.receive ram wr.2).1) van

variable {cfg : RdmaCfg} {van : RdmaVan} {ram : Buf} {dst : RemoteAddr} {src o n i : Nat}

theorem readAt_eq : van.readAt dst n = (List.range n).map fun i => van.byteAt (dst.add i) := by
  cases dst <;> rfl

theorem byteAt_writeAt : (van.writeAt (dst.add o) (ram.load (src + o) n)).byteAt (dst.add i) =
    if o ≤ i ∧ i < o + n then ram (src + i) else van.byteAt (dst.add i) := by
  have hcopy : ∀ (b : Buf) (base : Nat), b.store (base + o) (ram.load (src + o) n) (base + i) =
      if o ≤ i ∧ i < o + n then ram (src + i) else b (base + i) := by
    intro b base
    rw [store_load_apply]
    split_ifs with h₁ h₂ h₂
    · congr 1; omega
    · omega
    · omega
    · rfl
  cases dst with
  | buffer blk off => simpa [writeAt, byteAt, modifyMem, RemoteAddr.add] using hcopy _ off
  | user addr => exact hcopy _ addr

/-- `out` copies `n` bytes from `src` at the sender to `dst` at the receiver and leaves what lies
behind them there. -/
def Fills (out : Posted) (dst : RemoteAddr) (src n : Nat) : Prop :=
  ∀ van ram i, (arrive van ram out).byteAt (dst.add i) =
    if i < n then ram (src + i) else van.byteAt (dst.add i)

theorem fills_nil : Fills [] dst src 0 := by
  intro van ram i
  simp [arrive]

theorem Fills.snoc {out : Posted} {wr : Nat × WorkRequest} {k : Nat} (h : Fills out dst src n)
    (hwr : ∀ van ram, ((van : RdmaVan).receive ram wr.2).1 =
      van.writeAt (dst.add n) (ram.load (src + n) k)) : Fills (out ++ [wr]) dst src (n + k) := by
  intro van ram i
  have hout := h van ram i
  simp only [arrive, List.foldl_append, List.foldl_cons, List.foldl_nil] at hout ⊢
  rw [hwr, byteAt_writeAt, hout]
  split_ifs <;> first | rfl | omega

theorem Fills.snoc_other {out : Posted} {wr : Nat × WorkRequest} (h : Fills out dst src n)
    (hwr : ∀ van ram i, ((van : RdmaVan).receive ram wr.2).1.byteAt (dst.add i) =
      van.byteAt (dst.add i)) : Fills (out ++ [wr]) dst src n := by
  intro van ram i
  have hout := h van ram i
  simp only [arrive, List.foldl_append, List.foldl_cons, List.foldl_nil] at hout ⊢
  rw [hwr, hout]

/-! ### What a payload write posts -/

/-- How many bytes of a payload are posted. -/
def postedLen (cfg : RdmaCfg) (len : Nat) : Nat :=
  if cfg.multiQp then
    (len / cfg.qpNum % 2 ^ 32 + len % cfg.qpNum) % 2 ^ 32 + (cfg.qpNum - 1) * (len / cfg.qpNum % 2 ^ 32)
  else len % 2 ^ 32

/-- The lengths that are posted fit a `uint32_t`. -/
def LengthFits (cfg : RdmaCfg) (len : Nat) : Prop :=
  if cfg.multiQp then len / cfg.qpNum + len % cfg.qpNum < 2 ^ 32 else len < 2 ^ 32

instance (len : Nat) : Decidable (LengthFits cfg len) := by
  unfold LengthFits; infer_instance

theorem le_postedLen_iff (hq : 0 < cfg.qpNum) {len : Nat} :
    len ≤ postedLen cfg len ↔ LengthFits cfg len := by
  unfold postedLen LengthFits
  split_ifs
  · obtain ⟨k, hk⟩ := Nat.exists_eq_succ_of_ne_zero hq.ne'
    have hlen := Nat.div_add_mod len cfg.qpNum
    generalize len / cfg.qpNum = c at *
    generalize len % cfg.qpNum = r at *
    have hc : c % 2 ^ 32 ≤ c := Nat.mod_le ..
    have hf : (c % 2 ^ 32 + r) % 2 ^ 32 ≤ c % 2 ^ 32 + r := Nat.mod_le ..
    rw [hk, Nat.succ_mul] at hlen
    rw [hk, Nat.succ_sub_one]
    constructor
    · intro hle
      by_contra hbig
      rcases Nat.lt_or_ge c (2 ^ 32) with hlt | hge
      · rw [Nat.mod_eq_of_lt hlt] at hle
        have := Nat.mod_lt (c + r) (Nat.two_pow_pos 32)
        omega
      · have hlt : c % 2 ^ 32 < c := Nat.lt_of_lt_of_le (Nat.mod_lt _ (Nat.two_pow_pos 32)) hge
        have := Nat.mul_le_mul_left k hc
        omega
    · intro hfit
      rw [Nat.mod_eq_of_lt (by omega : c < 2 ^ 32), Nat.mod_eq_of_lt hfit]
      omega
  · constructor <;> intro h
    · have := Nat.mod_lt len (Nat.two_pow_pos 32)
      omega
    · rw [Nat.mod_eq_of_lt h]

theorem fills_writePayload {ep : NodeId} {t : RemoteTuple} {len uid : Nat}
    (hmeta : ∀ (peer : RdmaVan) bytes i, bytes.length = (van.msgBufs t.msgBuf).inlineLen →
      (peer.writeAt (.buffer t.metaAddr 0) bytes).byteAt (dst.add i) = peer.byteAt (dst.add i)) :
    Fills (van.writePayload cfg ep t dst src len uid).2 dst src (postedLen cfg len) := by
  have hfirst : ∀ n (van₁ : RdmaVan),
      (van₁.msgBufs t.msgBuf).inlineLen = (van.msgBufs t.msgBuf).inlineLen →
      Fills [(0, .write dst src n), van₁.rdmaWriteWithImm t uid] dst src n := by
    intro n van₁ hlen
    have hdata : Fills ([] ++ [(0, .write dst src n)]) dst src (0 + n) :=
      fills_nil.snoc fun van ram => by rw [RemoteAddr.add_zero]; rfl
    rw [Nat.zero_add] at hdata
    exact hdata.snoc_other fun van ram i => hmeta _ _ _ (by simp [hlen])
  unfold writePayload postedLen
  split_ifs
  · -- the chunks of the slave queue pairs follow on each other
    generalize cfg.qpNum - 1 = k
    dsimp only
    induction k with
    | zero => simpa using hfirst _ _ (by simp [countPackets, setMsgBuf])
    | succ k ih =>
      rw [List.range_succ, List.map_append, ← List.append_assoc, Nat.succ_mul, ← Nat.add_assoc]
      exact ih.snoc fun _ _ => rfl
  · exact hfirst _ _ rfl

/-- The payload of `msg` is at `dst` when `out` has arrived, whatever the memories hold. -/
def WritesPayload (msg : Message) (dst : RemoteAddr) (out : Posted) : Prop :=
  ∀ (peer : RdmaVan) (ram : Buf) (vals : SArray), msg.data[1]? = some vals →
    (arrive peer ram out).readAt dst vals.size = ram.load vals.ptr vals.size

theorem writesPayload_iff {out : Posted} {msg : Message} {vals : SArray} (h : Fills out dst src n)
    (hvals : msg.data[1]? = some vals) :
    WritesPayload msg dst out ↔ vals.size = 0 ∨ vals.size ≤ n ∧ vals.ptr = src := by
  have hread : WritesPayload msg dst out ↔ ∀ (peer : RdmaVan) (ram : Buf), ∀ i < vals.size,
      (if i < n then ram (src + i) else peer.byteAt (dst.add i)) = ram (vals.ptr + i) := by
    simp only [WritesPayload, hvals, Option.some.injEq, forall_eq', readAt_eq, load]
    refine forall₂_congr fun peer ram => ?_
    simp only [List.map_inj_left, List.mem_range, h peer ram]
  rw [hread]
  constructor
  · intro hall
    rcases Nat.eq_zero_or_pos vals.size with hz | hpos
    · exact .inl hz
    let ones : RdmaVan := { init { gdr := true } 0 true with mem := fun _ _ => 1, ram := fun _ => 1 }
    have hones : ∀ dst, ones.byteAt dst = 1 := by
      intro dst; cases dst <;> rfl
    have hle : vals.size ≤ n := by
      -- the first byte that no write reaches
      by_contra hlt
      have := hall ones (fun _ => 0) n (by omega)
      rw [if_neg (Nat.lt_irrefl n), hones] at this
      exact absurd this (by decide)
    refine .inr ⟨hle, ?_⟩
    -- a memory that tells the two addresses apart
    by_contra hne
    have := hall ones (fun a => if a = vals.ptr then 1 else 0) 0 hpos
    rw [if_pos (by omega), if_neg (by omega), if_pos (by omega)] at this
    exact absurd this (by decide)
  · rintro (hz | ⟨hle, heq⟩) peer ram i hi
    · omega
    · rw [if_pos (by omega), heq]

/-! ### `SendMsg` on a push request -/

/-- A push request on (key, receiver): `len` bytes of meta and `num` arrays, first the keys, which are
not empty, and then the values. -/
structure IsPush (key : Key) (recver : NodeId) (len num : Nat) (msg : Message) : Prop where
  valid : isValidPushpull msg = true
  push : msg.msgMeta.push = true
  request : msg.msgMeta.request = true
  keys : decodeKey msg.keys = key
  recver_eq : msg.msgMeta.recver = recver
  recver_ne : recver ≠ kEmpty
  metaLen : 0 < len ∧ getPackMetaLen msg.msgMeta = len
  data : ∃ k v rest, msg.data = k :: v :: rest ∧ k.size ≠ 0
  num : msg.data.length = num ∧ num ≤ kMaxDataFields

theorem registerData_of_two_le {c : Nat} (h : 2 ≤ c) (data : List SArray) :
    van.registerData c data = van := by
  induction data generalizing c with
  | nil => rfl
  | cons sa data ih =>
    rw [registerData, if_neg (by omega : ¬ c = 1)]
    split_ifs
    · exact ih h
    · exact ih (by omega)

theorem register_memMr {addr length : Nat} : (van.register addr length).memMr addr ≠ none := by
  unfold register
  split_ifs with h
  · simp
  · intro hnone
    simp [hnone] at h

theorem registerData_memMr {k v : SArray} {rest : List SArray} (hk : k.size ≠ 0) (hv : v.size ≠ 0) :
    (van.registerData 0 (k :: v :: rest)).memMr v.ptr ≠ none := by
  simp only [registerData, if_neg hk, if_neg hv, Nat.zero_ne_one, if_false, if_true, Nat.zero_add,
    registerData_of_two_le (Nat.le_refl 2)]
  exact register_memMr

variable {key : Key} {recver : NodeId} {len num uid : Nat} {msg : Message}

/-- `AddMeta` on a push request. -/
def keyed (msg : Message) : Message :=
  { msg with msgMeta := { msg.msgMeta with key := decodeKey msg.keys } }

theorem IsPush.sendMsg_eq (h : IsPush key recver len num msg) :
    van.sendMsg cfg msg uid =
      match (van.registerData 0 msg.data).pushAddr key recver with
      | none => ((van.registerData 0 msg.data).sendFirst cfg (keyed msg) uid).map fun p =>
        (p.1, p.2, keyed msg, (van.registerData 0 msg.data).nextBuf)
      | some t => ((van.registerData 0 msg.data).sendCached cfg (keyed msg) t uid).map
        fun p => (p.1, p.2, keyed msg, t.msgBuf) := by
  obtain ⟨k, v, rest, hdata, -⟩ := h.data
  have hlen : 0 < getPackMetaLen msg.msgMeta := by rw [h.metaLen.2]; exact_mod_cast h.metaLen.1
  have hrec : msg.msgMeta.recver ≠ kEmpty := h.recver_eq ▸ h.recver_ne
  have hadd : ∀ van : RdmaVan, van.addMeta msg = some (keyed msg) := by
    intro van
    simp [addMeta, messageKey, keyed, h.request, h.push, hdata, guard]
  have hvalid : isValidPushpull (keyed msg) = true := h.valid
  have hinfo : ∀ van : RdmaVan, van.remoteInfo (keyed msg).msgMeta.key (keyed msg).msgMeta.push
      (keyed msg).msgMeta.recver = van.pushAddr key recver := by
    intro van
    simp [remoteInfo, keyed, h.push, h.keys, h.recver_eq]
  cases hc : (van.registerData 0 msg.data).pushAddr key recver <;>
    simp only [sendMsg, registerMemory, h.valid, h.push, h.request, hlen, hrec, ne_eq, not_false_eq_true,
      and_self, guard, if_true, Bool.not_true, Bool.and_false, Bool.false_and, Bool.false_eq_true, if_false,
      hadd, hvalid, hinfo, hc, Option.pure_def, Option.bind_eq_bind, Option.bind_some]

/-- Where the payloads of the key go to. -/
def payloadAddr (cfg : RdmaCfg) (len : Nat) (t : RemoteTuple) : RemoteAddr :=
  if cfg.gdr then .user t.dataAddr else .buffer t.metaAddr (alignCeil len cfg.pagesize)

theorem sendPushRequest_eq {ep : NodeId} {t : RemoteTuple} {mr : Mr} {size : Nat} {vals : SArray}
    (hmrs : (van.msgBufs t.msgBuf).mrs = [(mr, size)]) (hvals : msg.data[1]? = some vals)
    (hsize : vals.size ≤ size) :
    van.sendPushRequest cfg ep msg t uid = some (van.writePayload cfg ep t
      (payloadAddr cfg (van.msgBufs t.msgBuf).inlineLen t) mr.addr vals.size uid) := by
  simp [sendPushRequest, hmrs, hvals, hsize, guard, payloadAddr]

theorem fills_payloadAddr {ep : NodeId} {t : RemoteTuple} (hp : 0 < cfg.pagesize)
    (hlen : (van.msgBufs t.msgBuf).inlineLen = len) :
    Fills (van.writePayload cfg ep t (payloadAddr cfg len t) src n uid).2 (payloadAddr cfg len t)
      src (postedLen cfg n) := by
  refine fills_writePayload fun peer bytes i hbytes => ?_
  unfold payloadAddr
  split_ifs
  · rfl
  · have hoff : bytes.length ≤ alignCeil len cfg.pagesize + i := by
      have := le_alignCeil (v := len) hp
      omega
    simp only [RemoteAddr.add, writeAt, byteAt, modifyMem, Function.update_self]
    exact store_of_disjoint (.inr (by omega))

theorem writePayload_frame (cfg : RdmaCfg) (van : RdmaVan) (ep : NodeId) (t : RemoteTuple) (dst : RemoteAddr)
    (src len uid : Nat) :
    ∃ b count, (van.writePayload cfg ep t dst src len uid).1 =
      { van.withInline t.msgBuf b with qpPktCount := count } := by
  unfold writePayload
  split_ifs
  · exact ⟨_, _, rfl⟩
  · exact ⟨_, van.qpPktCount, by rw [withInline_self]⟩

/-- The rendezvous of the key is over: its buffer sends from `addr`, at most `size` bytes. -/
structure Known (key : Key) (recver : NodeId) (len num addr size : Nat) (t : RemoteTuple)
    (van : RdmaVan) : Prop where
  tuple : van.pushAddr key recver = some t
  mrs : ∃ mr : Mr, (van.msgBufs t.msgBuf).mrs = [(mr, size)] ∧ mr.addr = addr
  inlineLen : (van.msgBufs t.msgBuf).inlineLen = len
  num : (van.msgBufs t.msgBuf).data.length = num

variable {addr size : Nat} {t : RemoteTuple} {vals : SArray}

theorem Known.of_core {van' : RdmaVan} (hk : Known key recver len num addr size t van)
    (hcore : van'.core = van.core) : Known key recver len num addr size t van' := by
  have hpush : van'.pushAddr = van.pushAddr := congrArg VanCore.pushAddr hcore
  have hbufs : van'.msgBufs = van.msgBufs := congrArg VanCore.msgBufs hcore
  exact ⟨hpush ▸ hk.tuple, hbufs ▸ hk.mrs, hbufs ▸ hk.inlineLen, hbufs ▸ hk.num⟩

theorem Known.writePayload (hk : Known key recver len num addr size t van) (cfg : RdmaCfg)
    (ep : NodeId) (dst : RemoteAddr) (src n uid : Nat) :
    Known key recver len num addr size t (van.writePayload cfg ep t dst src n uid).1 := by
  obtain ⟨b, count, hframe⟩ := writePayload_frame cfg van ep t dst src n uid
  have hbuf : (van.withInline t.msgBuf b).msgBufs t.msgBuf =
    { van.msgBufs t.msgBuf with inlineBuf := b } := Function.update_self ..
  rw [hframe]
  exact ⟨hk.tuple, by simpa [hbuf] using hk.mrs, by simpa [hbuf] using hk.inlineLen,
    by simpa [hbuf] using hk.num⟩

/-- Both paths end here: the payload is taken from the address of the buffer. -/
theorem Known.sendPushRequest (hk : Known key recver len num addr size t van)
    (hvals : msg.data[1]? = some vals) (hsize : vals.size ≤ size) (hp : 0 < cfg.pagesize) (ep : NodeId)
    (uid : Nat) :
    ∃ van' out, van.sendPushRequest cfg ep msg t uid = some (van', out) ∧
      Known key recver len num addr size t van' ∧
      Fills out (payloadAddr cfg len t) addr (postedLen cfg vals.size) := by
  obtain ⟨mr, hmr, rfl⟩ := hk.mrs
  have hfills : Fills (van.writePayload cfg ep t (payloadAddr cfg len t) mr.addr vals.size uid).2
      (payloadAddr cfg len t) mr.addr (postedLen cfg vals.size) := fills_payloadAddr hp hk.inlineLen
  have hk' := hk.writePayload cfg ep (payloadAddr cfg len t) mr.addr vals.size uid
  exact ⟨_, _, by rw [sendPushRequest_eq hmr hvals hsize, hk.inlineLen], hk', hfills⟩

theorem Known.sendCached (hk : Known key recver len num addr size t van)
    (h : IsPush key recver len num msg) (hvals : msg.data[1]? = some vals) (hsize : vals.size ≤ size)
    (hp : 0 < cfg.pagesize) (uid : Nat) :
    ∃ van' out, van.sendCached cfg (keyed msg) t uid = some (van', out) ∧
      Known key recver len num addr size t van' ∧
      Fills out (payloadAddr cfg len t) addr (postedLen cfg vals.size) := by
  have hpush : (keyed msg).msgMeta.push = true := h.push
  have hreq : (keyed msg).msgMeta.request = true := h.request
  have hnum : (keyed msg).data.length = num := h.num.1
  have hlen : getPackMetaLen (keyed msg).msgMeta = len := h.metaLen.2
  replace hvals : (keyed msg).data[1]? = some vals := hvals
  generalize keyed msg = m at *
  have hbuf : (van.refill cfg t m).msgBufs t.msgBuf =
    ((van.msgBufs t.msgBuf).setData m.data).pack cfg m := Function.update_self ..
  have hk₁ : Known key recver len num addr size t (van.refill cfg t m) := by
    refine ⟨hk.tuple, ?_, ?_, ?_⟩ <;> rw [hbuf]
    · exact hk.mrs
    · exact hk.inlineLen
    · simp [MessageBuffer.pack, MessageBuffer.setData, hnum, hk.num]
  have hsend : van.sendCached cfg m t uid =
      (van.refill cfg t m).sendPushRequest cfg m.msgMeta.recver m t uid := by
    simp [RdmaVan.sendCached, guard, hlen, hk.inlineLen, hk.num, hnum, sendByKind, hpush, hreq, refill]
  rw [hsend]
  exact hk₁.sendPushRequest hvals hsize hp _ uid

theorem Known.sendMsg (hk : Known key recver len num addr size t van)
    (h : IsPush key recver len num msg) (hvals : msg.data[1]? = some vals) (hsize : vals.size ≤ size)
    (hp : 0 < cfg.pagesize) (uid : Nat) :
    ∃ van' out, van.sendMsg cfg msg uid = some (van', out, keyed msg, t.msgBuf) ∧
      Known key recver len num addr size t van' ∧
      Fills out (payloadAddr cfg len t) addr (postedLen cfg vals.size) := by
  have hk₁ := hk.of_core (core_registerData van 0 msg.data)
  obtain ⟨van', out, hsend, hk', hfills⟩ := hk₁.sendCached h hvals hsize hp uid
  refine ⟨van', out, ?_, hk', hfills⟩
  rw [h.sendMsg_eq, hk₁.tuple]
  simp only [hsend, Option.map_some]

theorem prepareData_push {buf : MessageBuffer} (hpush : msg.msgMeta.push = true)
    (hreq : msg.msgMeta.request = true) (hvals : buf.data[1]? = some vals) (hnil : buf.mrs = [])
    (hmem : vals.size ≠ 0 → van.memMr vals.ptr ≠ none) :
    ∃ mrs, van.prepareData msg buf = some { buf with mrs := mrs } ∧
      (mrs = [] ∧ vals.size = 0 ∨
        ∃ mr : Mr, mrs = [(mr, vals.size)] ∧ mr.addr = vals.ptr ∧ vals.size ≠ 0) := by
  rcases eq_or_ne vals.size 0 with hz | hv
  · exact ⟨[], by simp [prepareData, hpush, hreq, hvals, hz, ← hnil], .inl ⟨rfl, hz⟩⟩
  · obtain ⟨mr, hmr⟩ := Option.ne_none_iff_exists'.mp (hmem hv)
    exact ⟨_, by simp [prepareData, hpush, hreq, hvals, hv, hmr, hnil], .inr ⟨mr.1, rfl, mr.2, hv⟩⟩

/-- The first push: its buffer waits for the reply and names the region of its own values. -/
theorem IsPush.sendMsg_first (h : IsPush key recver len num msg) (hnew : van.pushAddr key recver = none)
    (hvals : msg.data[1]? = some vals) (cfg : RdmaCfg) (uid : Nat) :
    ∃ van' out, van.sendMsg cfg msg uid = some (van', out, keyed msg, van.nextBuf) ∧
      van'.msgbufCache van.nextBuf = some (uid, keyed msg) ∧
      (van'.msgBufs van.nextBuf).inlineLen = len ∧ (van'.msgBufs van.nextBuf).data = msg.data ∧
      ((van'.msgBufs van.nextBuf).mrs = [] ∧ vals.size = 0 ∨
        ∃ mr : Mr, (van'.msgBufs van.nextBuf).mrs = [(mr, vals.size)] ∧ mr.addr = vals.ptr ∧
          vals.size ≠ 0) := by
  obtain ⟨k, v, rest, hdata, hk⟩ := h.data
  obtain rfl : v = vals := by simpa [hdata] using hvals
  have hmem : v.size ≠ 0 → (van.registerData 0 msg.data).memMr v.ptr ≠ none := fun hv =>
    hdata ▸ registerData_memMr hk hv
  have hcore := core_registerData van 0 msg.data
  have hnew₀ : (van.registerData 0 msg.data).pushAddr key recver = none :=
    (congrFun₂ (congrArg VanCore.pushAddr hcore) key recver).trans hnew
  have hnext : (van.registerData 0 msg.data).nextBuf = van.nextBuf := congrArg VanCore.nextBuf hcore
  have hpush : (keyed msg).msgMeta.push = true := h.push
  have hreq : (keyed msg).msgMeta.request = true := h.request
  have hvalid : isValidPushpull (keyed msg) = true := h.valid
  have hlen : getPackMetaLen (keyed msg).msgMeta = len := h.metaLen.2
  have hnum : (keyed msg).data.length ≤ kMaxDataFields := h.num.1 ▸ h.num.2
  have hkdata : (keyed msg).data = msg.data := rfl
  rw [h.sendMsg_eq, hnew₀]
  dsimp only
  generalize van.registerData 0 msg.data = van₀ at *
  generalize keyed msg = m at *
  have hsa : (prepareNewMsgBuf cfg m).data[1]? = some v := by
    rw [← hvals, ← hkdata]; rfl
  obtain ⟨mrs, hprep, hmrs⟩ := prepareData_push hpush hreq hsa rfl hmem
  obtain ⟨out, hfirst⟩ : ∃ out, van₀.sendFirst cfg m uid =
      some (van₀.storeMsgBuf { prepareNewMsgBuf cfg m with mrs := mrs } m uid, out) := by
    simp only [sendFirst, hvalid, if_true, hprep, sendRendezvousBegin, hnum, guard, Option.pure_def,
      Option.bind_eq_bind, Option.bind_some]
    exact ⟨_, rfl⟩
  have hbuf : (van₀.storeMsgBuf { prepareNewMsgBuf cfg m with mrs := mrs } m uid).msgBufs van₀.nextBuf =
    { prepareNewMsgBuf cfg m with mrs := mrs } := Function.update_self ..
  rw [hfirst, ← hnext]
  refine ⟨_, out, rfl, Function.update_self .., ?_, ?_, ?_⟩ <;> rw [hbuf]
  · simp [prepareNewMsgBuf, MessageBuffer.pack, hlen]
  · exact hkdata
  · exact hmrs

variable {resp : RendezvousReply} {m : Message}

/-- A push request of no bytes has no region and fails the check of `SendPushRequest`. -/
theorem recvReply_push_empty (hcache : van.msgbufCache resp.originAddr = some (uid, m))
    (hvalid : isValidPushpull m = true) (hpush : m.msgMeta.push = true)
    (hreq : m.msgMeta.request = true) (hmrs : (van.msgBufs resp.originAddr).mrs = []) :
    van.recvReply cfg recver resp = none := by
  have hmrs' : ((van.storeRemoteAndLocalInfo m resp.remoteTuple).msgBufs
      resp.remoteTuple.msgBuf).mrs = [] := by
    simpa [storeRemoteAndLocalInfo, hpush, RendezvousReply.remoteTuple] using hmrs
  simp [recvReply, hcache, hvalid, sendByKind, hpush, hreq, sendPushRequest, hmrs']

theorem recvReply_push (resp : RendezvousReply) {mr : Mr}
    (hcache : van.msgbufCache resp.originAddr = some (uid, m))
    (hvalid : isValidPushpull m = true) (hpush : m.msgMeta.push = true)
    (hreq : m.msgMeta.request = true) (hkey : m.msgMeta.key = key) (hrecver : m.msgMeta.recver = recver)
    (hvals : m.data[1]? = some vals)
    (hmrs : (van.msgBufs resp.originAddr).mrs = [(mr, vals.size)])
    (hlen : (van.msgBufs resp.originAddr).inlineLen = len)
    (hnum : (van.msgBufs resp.originAddr).data.length = num) (hp : 0 < cfg.pagesize) :
    ∃ van' out, van.recvReply cfg recver resp = some (van', out) ∧
      Known key recver len num mr.addr vals.size resp.remoteTuple van' ∧
      Fills out (payloadAddr cfg len resp.remoteTuple) mr.addr (postedLen cfg vals.size) := by
  have hk : Known key recver len num mr.addr vals.size resp.remoteTuple
      (van.storeRemoteAndLocalInfo m resp.remoteTuple) := by
    refine ⟨?_, ⟨mr, ?_, rfl⟩, ?_, ?_⟩ <;> simp only [storeRemoteAndLocalInfo, hpush, if_true]
    · simp [hkey, hrecver]
    · exact hmrs
    · exact hlen
    · exact hnum
  obtain ⟨van', out, hsend, hk', hfills⟩ :=
    hk.sendPushRequest hvals le_rfl hp recver uid
  refine ⟨van'.releaseFirstMsg resp.originAddr, out, ?_, ⟨hk'.tuple, hk'.mrs, hk'.inlineLen, hk'.num⟩,
    hfills⟩
  simp [recvReply, hcache, hvalid, sendByKind, hpush, hreq, hsend]

/-! ### A sequence of pushes -/

/-- The first push on (key, receiver) waits for the reply `resp`, the others follow; what each of them
posts for its payload. -/
def pushRun (cfg : RdmaCfg) (van : RdmaVan) (resp : RendezvousReply) (first : Message)
    (more : List Message) : Option (List Posted) := do
  let (van, _, msg, msgBuf) ← van.sendMsg cfg first 0
  let (van, out) ← van.recvReply cfg msg.msgMeta.recver { resp with originAddr := msgBuf }
  let (_, outs) ← Run.execOut
    (fun van msg => (van.sendMsg cfg msg 0).map fun r => (r.1, r.2.1)) van more
  return out :: outs

/-- `data[1]`. -/
def payload (msg : Message) : SArray := (msg.data[1]?).getD {}

theorem IsPush.vals_eq (h : IsPush key recver len num msg) : msg.data[1]? = some (payload msg) := by
  obtain ⟨k, v, rest, hdata, -⟩ := h.data
  simp [payload, hdata]

theorem Known.execOut (hk : Known key recver len num addr size t van) {more : List Message}
    (hq : 0 < cfg.qpNum) (hp : 0 < cfg.pagesize) (hpush : ∀ msg ∈ more, IsPush key recver len num msg)
    (hsize : ∀ msg ∈ more, (payload msg).size ≤ size) :
    ∃ van' outs, Run.execOut
        (fun van msg => (RdmaVan.sendMsg cfg van msg 0).map fun r => (r.1, r.2.1)) van more =
          some (van', outs) ∧
      (List.Forall₂ (WritesPayload · (payloadAddr cfg len t)) more outs ↔ ∀ msg ∈ more,
        (payload msg).size = 0 ∨
          LengthFits cfg (payload msg).size ∧ (payload msg).ptr = addr) := by
  induction more generalizing van with
  | nil => exact ⟨van, [], rfl, by simp⟩
  | cons msg more ih =>
    simp only [List.forall_mem_cons] at hpush hsize
    obtain ⟨van₁, out, hsend, hk₁, hfills⟩ := hk.sendMsg hpush.1 hpush.1.vals_eq hsize.1 hp 0
    obtain ⟨van₂, outs, hrun, hiff⟩ := ih hk₁ hpush.2 hsize.2
    refine ⟨van₂, out :: outs, by simp [Run.execOut, hsend, hrun], ?_⟩
    rw [List.forall₂_cons, hiff, writesPayload_iff hfills hpush.1.vals_eq, le_postedLen_iff hq,
      List.forall_mem_cons]

/-- Each push of a sequence on one (key, receiver), none longer than the first, writes its own payload
exactly when the first one is not empty and every other that is not empty starts at the same address
and has a length that can be posted. -/
theorem pushes_write_own_payload_iff (cfg : RdmaCfg) (hq : 0 < cfg.qpNum) (hp : 0 < cfg.pagesize)
    (van : RdmaVan) (key : Key) (recver : NodeId) (len num : Nat) (resp : RendezvousReply)
    (first : Message) (more : List Message) (hnew : van.pushAddr key recver = none)
    (hpush : ∀ msg ∈ first :: more, IsPush key recver len num msg)
    (hsize : ∀ msg ∈ more, (payload msg).size ≤ (payload first).size) :
    (∃ outs, pushRun cfg van resp first more = some outs ∧
        List.Forall₂ (WritesPayload · (payloadAddr cfg len resp.remoteTuple)) (first :: more) outs) ↔
      (payload first).size ≠ 0 ∧ ∀ msg ∈ first :: more, (payload msg).size = 0 ∨
        LengthFits cfg (payload msg).size ∧ (payload msg).ptr = (payload first).ptr := by
  rw [List.forall_mem_cons] at hpush
  obtain ⟨hfirst, hmore⟩ := hpush
  obtain ⟨van₁, out₁, hsend, hcache, hlen, hdata, hmrs⟩ :=
    hfirst.sendMsg_first hnew hfirst.vals_eq cfg 0
  have hrun : pushRun cfg van resp first more =
      (van₁.recvReply cfg recver { resp with originAddr := van.nextBuf }).bind fun r =>
        (Run.execOut (fun van msg => (RdmaVan.sendMsg cfg van msg 0).map fun r => (r.1, r.2.1)) r.1
          more).bind fun r' => some (r.2 :: r'.2) := by
    rw [← hfirst.recver_eq]
    simp only [pushRun, hsend, Option.bind_eq_bind, Option.bind_some, Option.pure_def]
    rfl
  rcases hmrs with ⟨hnil, hz⟩ | ⟨mr, hmr, haddr, hne⟩
  · have hnone : van₁.recvReply cfg recver { resp with originAddr := van.nextBuf } = none :=
      recvReply_push_empty hcache hfirst.valid hfirst.push hfirst.request hnil
    rw [hrun, hnone]
    simp [hz]
  · obtain ⟨van₂, out, hreply, hk, hfills⟩ := recvReply_push
      { resp with originAddr := van.nextBuf } hcache hfirst.valid hfirst.push hfirst.request
      hfirst.keys hfirst.recver_eq hfirst.vals_eq hmr hlen (hdata ▸ hfirst.num.1) hp
    obtain ⟨van₃, outs, hexec, hiff⟩ := hk.execOut hq hp hmore hsize
    rw [haddr] at hfills hiff
    have htot : pushRun cfg van resp first more = some (out :: outs) := by
      rw [hrun, hreply, Option.bind_some, hexec, Option.bind_some]
    have haddr' : payloadAddr cfg len resp.remoteTuple = payloadAddr cfg len
      (RendezvousReply.remoteTuple { resp with originAddr := van.nextBuf }) := rfl
    rw [htot, List.forall_mem_cons, haddr']
    simp only [Option.some.injEq, exists_eq_left', List.forall₂_cons, hiff,
      writesPayload_iff hfills hfirst.vals_eq, le_postedLen_iff hq, hne, ne_eq, not_false_eq_true,
      true_and]

/-- A push of key 7 to node 8. -/
def samplePush (ptr size : Nat) : Message :=
  let msg : Message := { msgMeta := { request := true, push := true, recver := 8 } }
  (msg.addKeys [7]).addData .other { ptr := ptr, size := size }

theorem isPush_samplePush (ptr size : Nat) : IsPush 7 8 296 2 (samplePush ptr size) where
  valid := rfl
  push := rfl
  request := rfl
  keys := decodeKey_singleton 7
  recver_eq := rfl
  recver_ne := by decide
  metaLen := ⟨by decide, show ((296 : Nat) : Int).bmod (2 ^ 32) = _ by decide⟩
  data := ⟨_, _, _, rfl, by decide⟩
  num := ⟨rfl, by decide⟩

def sampleCfg : RdmaCfg := { gdr := true }
def sampleReply : RendezvousReply := { metaAddr := 0, dataAddr := 4096, originAddr := 0, idx := 0 }

/-- Two pushes from one address arrive. -/
theorem pushes_write_own_payload_sample : ∃ outs,
    pushRun sampleCfg (init sampleCfg 9 false) sampleReply (samplePush 64 16) [samplePush 64 8] =
        some outs ∧
      List.Forall₂ (WritesPayload · (payloadAddr sampleCfg 296 sampleReply.remoteTuple))
        [samplePush 64 16, samplePush 64 8] outs := by
  refine (pushes_write_own_payload_iff sampleCfg (by decide) (by decide) _ 7 8 296 2 _ _ _ rfl ?_ ?_).mpr
    ⟨by decide, by decide⟩
  · simp only [List.forall_mem_cons, isPush_samplePush, true_and]
    exact fun _ h => nomatch h
  · decide

/-- Eight bytes of zeros and then ones. -/
def sampleRam : Buf := fun a => if a < 8 then 0 else 1

/-- A push from address 8 writes the bytes at address 0, where the first push was. -/
theorem second_push_writes_first_payload : ∃ outs,
    pushRun sampleCfg (init sampleCfg 9 false) sampleReply (samplePush 0 8) [samplePush 8 8] =
        some outs ∧
      ¬ List.Forall₂ (WritesPayload · (payloadAddr sampleCfg 296 sampleReply.remoteTuple))
        [samplePush 0 8, samplePush 8 8] outs := by
  have heval : (pushRun sampleCfg (init sampleCfg 9 false) sampleReply (samplePush 0 8)
      [samplePush 8 8]).map (·.map fun out => ((init sampleCfg 8 true).arrive sampleRam out).readAt
        (payloadAddr sampleCfg 296 sampleReply.remoteTuple) 8) =
      some [List.replicate 8 0, List.replicate 8 0] := by decide
  obtain ⟨outs, hrun, houts⟩ := Option.map_eq_some_iff.mp heval
  refine ⟨outs, hrun, fun hall => ?_⟩
  obtain _ | ⟨-, _ | ⟨hsecond, -⟩⟩ := hall
  have hread := hsecond (init sampleCfg 8 true) sampleRam { ptr := 8, size := 8 } rfl
  simp only [List.map_cons, List.cons.injEq] at houts
  exact absurd (houts.2.1.symm.trans hread) (by decide)

end RdmaVan

end StepMesh
