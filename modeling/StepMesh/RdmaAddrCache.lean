import StepMesh.RdmaPool
import StepMesh.KVWorker
import StepMesh.AFServer

/-!
# Who creates the entries of the address caches (`StoreRemoteAndLocalInfo`, `src/rdma_van.h`)

`PollCQ` stores the address of every message whose rendezvous is answered, under the key, the direction and
the receiver in its meta. A control or simple-app message has these fields too: it carries key 0 and no
push, so its address becomes the one for pulls of key 0, although `SendMsg` never looks up an address for
such a message. A pull of key 0 to the same receiver then takes the cached path with a message buffer that
was made for another meta.

The model is one node with any calls of `SendMsg` and any completions in any order.
-/

namespace StepMesh

/-- A data message as the key-value layer makes it: every array has its type, and there is neither a body
nor a list of nodes. -/
structure Message.IsData (msg : Message) : Prop where
  valid : isValidPushpull msg = true
  body : msg.msgMeta.body = []
  node : msg.msgMeta.control.node = []
  types : msg.msgMeta.dataType.length = msg.data.length

namespace Message.IsData

theorem addData {msg : Message} (h : msg.IsData) (dt : DataType) (val : SArray) : (msg.addData dt val).IsData := by
  unfold Message.addData
  dsimp only
  split_ifs
  · exact ⟨h.valid, h.body, h.node, by simp [h.types]⟩
  · exact ⟨h.valid, h.body, h.node, by simp [h.types]⟩

theorem addKeys {msg : Message} (h : msg.IsData) (keys : List Key) : (msg.addKeys keys).IsData :=
  let h := h.addData .uint64 { size := 8 * keys.length }
  ⟨h.valid, h.body, h.node, h.types⟩

theorem addLens {msg : Message} (h : msg.IsData) (lens : List Int) : (msg.addLens lens).IsData :=
  let h := h.addData .int32 { size := 4 * lens.length }
  ⟨h.valid, h.body, h.node, h.types⟩

theorem setDevices {msg : Message} (h : msg.IsData) (srcType dstType : DeviceType) (srcId dstId : Int) :
    Message.IsData { msg with msgMeta := { msg.msgMeta with
      srcDevType := srcType, srcDevId := srcId, dstDevType := dstType, dstDevId := dstId } } :=
  ⟨h.valid, h.body, h.node, h.types⟩

theorem getPackMetaLen_eq {msg msg' : Message} (h : msg.IsData) (h' : msg'.IsData)
    (hlen : msg'.data.length = msg.data.length) : getPackMetaLen msg'.msgMeta = getPackMetaLen msg.msgMeta := by
  have hpacked : packedLen msg'.msgMeta = packedLen msg.msgMeta := by
    simp only [packedLen, h.body, h.node, h.types, h'.body, h'.node, h'.types, hlen]
  exact congrArg (fun n : Nat => (n : Int).bmod (2 ^ 32)) hpacked

end Message.IsData

theorem AFWorker.isData_zMsg (push : Bool) (ts : Int) (kt : KeyTensor) (cmd : Int) :
    (AFWorker.zMsg push ts kt cmd).IsData := by
  unfold AFWorker.zMsg
  exact .addData (.addKeys ⟨rfl, rfl, rfl, rfl⟩ _) _ _

theorem KVWorker.isData_sendMsgOf (w : KVWorker) (ts : Int) (push : Bool) (cmd : Int) (i : Nat) (kvs : KVPairs) :
    (w.sendMsgOf ts push cmd i kvs).IsData := by
  have hdata : ∀ msg : Message, msg.IsData → ∀ vals, Message.IsData (if kvs.keys = [] then msg else
      if kvs.lens = [] then (msg.addKeys kvs.keys).addData .other vals
      else ((msg.addKeys kvs.keys).addData .other vals).addLens kvs.lens) := by
    intro msg h vals
    split_ifs
    · exact h
    · exact (h.addKeys _).addData _ _
    · exact ((h.addKeys _).addData _ _).addLens _
  unfold KVWorker.sendMsgOf
  cases push with
  | true => exact hdata _ ⟨rfl, rfl, rfl, rfl⟩ _
  | false => exact .setDevices (hdata _ ⟨rfl, rfl, rfl, rfl⟩ {}) _ _ _ _

theorem KVServer.isData_response (po : Postoffice) (appId : Int) (req : KVMeta) (res : KVPairs) :
    (KVServer.response po appId req res).IsData := by
  unfold KVServer.response
  dsimp only
  split_ifs
  · exact ⟨rfl, rfl, rfl, rfl⟩
  · exact .addData (.addKeys ⟨rfl, rfl, rfl, rfl⟩ _) _ _
  · exact .addLens (.addData (.addKeys ⟨rfl, rfl, rfl, rfl⟩ _) _ _) _

namespace RdmaVan

variable {cfg : RdmaCfg} {van van' : RdmaVan} {msg m : Message} {t : RemoteTuple} {ep : NodeId}
  {out : Posted} {uid : Nat}

/-! ### The length in a message buffer -/

theorem inlineLen_sendByKind (h : van.sendByKind cfg ep msg t uid = some (van', out)) (i : Nat) :
    (van'.msgBufs i).inlineLen = (van.msgBufs i).inlineLen := by
  obtain ⟨⟨b, count, rfl⟩, -⟩ := sendByKind_frame h
  rcases eq_or_ne i t.msgBuf with rfl | hi
  · simp [withInline, setMsgBuf]
  · simp [withInline, setMsgBuf, hi]

theorem inlineLen_refill (van : RdmaVan) (cfg : RdmaCfg) (t : RemoteTuple) (msg : Message) (i : Nat) :
    ((van.refill cfg t msg).msgBufs i).inlineLen = (van.msgBufs i).inlineLen := by
  rcases eq_or_ne i t.msgBuf with rfl | hi
  · simp [refill, setMsgBuf, MessageBuffer.pack, MessageBuffer.setData]
  · simp [refill, setMsgBuf, hi]

/-- Only the buffer of a first message is new, with the length of its meta. -/
theorem inlineLen_sendMsg {buf : Nat} (h : van.sendMsg cfg msg uid = some (van', out, m, buf)) :
    (van'.nextBuf = van.nextBuf + 1 ∧ ∀ i, (van'.msgBufs i).inlineLen =
        if i = van.nextBuf then (getPackMetaLen m.msgMeta).toNat else (van.msgBufs i).inlineLen) ∨
      van'.nextBuf = van.nextBuf ∧ ∀ i, (van'.msgBufs i).inlineLen = (van.msgBufs i).inlineLen := by
  obtain ⟨-, -, van₀, hcore, hpath⟩ := sendMsg_eq_some h
  have hbufs : van₀.msgBufs = van.msgBufs := congrArg VanCore.msgBufs hcore
  have hnext : van₀.nextBuf = van.nextBuf := congrArg VanCore.nextBuf hcore
  rcases hpath with ⟨-, -, hfirst⟩ | ⟨t, -, -, -, hcached⟩
  · obtain ⟨mrs, req, rfl, -, -⟩ := sendFirst_eq_some hfirst
    refine .inl ⟨congrArg (· + 1) hnext, fun i => ?_⟩
    split_ifs with hi
    · simp [storeMsgBuf, setMsgBuf, hnext, hi, prepareNewMsgBuf, MessageBuffer.pack]
    · simp [storeMsgBuf, setMsgBuf, hnext, hi, hbufs]
  · obtain ⟨-, -, hkind⟩ := sendCached_eq_some hcached
    refine .inr ⟨(samePool_sendByKind hkind).nextBuf.trans hnext, fun i => ?_⟩
    rw [inlineLen_sendByKind hkind, inlineLen_refill, hbufs]

theorem inlineLen_recvReply {resp : RendezvousReply} (h : van.recvReply cfg ep resp = some (van', out)) (i : Nat) :
    (van'.msgBufs i).inlineLen = (van.msgBufs i).inlineLen := by
  obtain ⟨⟨uid, m⟩, -, h⟩ := Option.bind_eq_some_iff.mp h
  obtain ⟨⟨van₁, out₁⟩, hsend, h⟩ := Option.bind_eq_some_iff.mp h
  obtain ⟨rfl, rfl⟩ := Prod.mk.inj (Option.some.inj h)
  obtain ⟨pushAddr, pullAddr, hframe⟩ := storeRemoteAndLocalInfo_frame van m resp.remoteTuple
  rw [hframe] at hsend
  show (van₁.msgBufs i).inlineLen = _
  split_ifs at hsend
  · exact inlineLen_sendByKind hsend i
  · obtain ⟨rfl, -⟩ := Prod.mk.inj (Option.some.inj hsend)
    rfl

theorem msgBufs_receive (van : RdmaVan) (ram : Buf) (wr : WorkRequest) :
    (van.receive ram wr).1.msgBufs = van.msgBufs := by
  have hwrite : ∀ dst bs, (van.writeAt dst bs).msgBufs = van.msgBufs := fun dst bs => by cases dst <;> rfl
  cases wr with
  | rendezvousStart | rendezvousReply => rfl
  | write | writeChunkImm => exact hwrite _ _
  | writeImm dst => exact hwrite (.buffer dst 0) _

end RdmaVan

/-- A node, and for each of its message buffers the message it was made for. -/
structure AddrCache where
  van : RdmaVan
  setUp : List Message := []

namespace AddrCache

inductive Action
  | sendMsg (msg : Message) (uid : Nat)
  | pollCQ (ep : NodeId) (wc : Completion)
  | recvMsg
  /-- A peer writes to the node's memory. -/
  | receive (ram : Buf) (wr : WorkRequest)

def init (cfg : RdmaCfg) (id : NodeId) (isServer : Bool) : AddrCache := { van := .init cfg id isServer }

def step (cfg : RdmaCfg) (s : AddrCache) : Action → Option AddrCache
  | .sendMsg msg uid => do
    let (van, _, msg, buf) ← s.van.sendMsg cfg msg uid
    return { van := van, setUp := if buf = s.van.nextBuf then s.setUp ++ [msg] else s.setUp }
  | .pollCQ ep wc => do
    let (van, _) ← s.van.pollCQ cfg ep wc
    return { s with van := van }
  | .recvMsg => do
    let (van, _, _) ← s.van.recvMsg cfg
    return { s with van := van }
  | .receive ram wr => some { s with van := (s.van.receive ram wr).1 }

/-- The entry for a key, a direction and a receiver, if there is one, was created by a data message with this
key, direction and receiver, and the length in its message buffer is that of the meta of any data message
with as many arrays: the check of `SendMsg` on the cached path passes. -/
def FromData (s : AddrCache) (key : Key) (push : Bool) (recver : NodeId) : Prop :=
  ∀ t, s.van.remoteInfo key push recver = some t → ∃ m, s.setUp[t.msgBuf]? = some m ∧
    isValidPushpull m ∧ m.msgMeta.key = key ∧ m.msgMeta.push = push ∧ m.msgMeta.recver = recver ∧
    ∀ m' : Message, m.IsData → m'.IsData → m'.data.length = m.data.length →
      (s.van.msgBufs t.msgBuf).inlineLen = (getPackMetaLen m'.msgMeta).toNat

/-- A reply that is processed for a message with this key, direction and receiver is for a data message. -/
def AnswersData (key : Key) (push : Bool) (recver : NodeId) (s : AddrCache) : Action → Prop
  | .pollCQ _ (.recvReply resp) => ∀ uid m, s.van.msgbufCache resp.originAddr = some (uid, m) →
    m.msgMeta.key = key → m.msgMeta.push = push → m.msgMeta.recver = recver → isValidPushpull m
  | _ => True

/-! ### Message buffers and their messages -/

/-- A message that waits is the one its buffer was made for, every buffer has the length of its first meta,
and an entry is for the key, direction and receiver of the message of its buffer. -/
structure Inv (s : AddrCache) : Prop where
  length : s.setUp.length = s.van.nextBuf
  waiting : ∀ i uid m, s.van.msgbufCache i = some (uid, m) → s.setUp[i]? = some m
  lens : ∀ (i : Nat) m, s.setUp[i]? = some m → (s.van.msgBufs i).inlineLen = (getPackMetaLen m.msgMeta).toNat
  entries : ∀ key push recver t, s.van.remoteInfo key push recver = some t → ∃ m, s.setUp[t.msgBuf]? = some m ∧
    m.msgMeta.key = key ∧ m.msgMeta.push = push ∧ m.msgMeta.recver = recver

/-- The entry was not created by a control or simple-app message. -/
def Valid (key : Key) (push : Bool) (recver : NodeId) (s : AddrCache) : Prop :=
  ∀ t, s.van.remoteInfo key push recver = some t → ∀ m, s.setUp[t.msgBuf]? = some m → isValidPushpull m

theorem inv_init (cfg : RdmaCfg) (id : NodeId) (isServer : Bool) : Inv (init cfg id isServer) where
  length := rfl
  waiting _ _ _ h := nomatch h
  lens _ _ h := nomatch h
  entries _ push _ _ h := by cases push <;> cases h

variable {cfg : RdmaCfg} {s s' : AddrCache} {key : Key} {push : Bool} {recver : NodeId}

theorem Inv.fromData_iff (h : s.Inv) : s.FromData key push recver ↔ s.Valid key push recver := by
  constructor
  · intro hfrom t ht m hm
    obtain ⟨m', hm', hvalid, -⟩ := hfrom t ht
    obtain rfl := Option.some.inj (hm.symm.trans hm')
    exact hvalid
  · intro hvalid t ht
    obtain ⟨m, hm, hkey, hpush, hrecver⟩ := h.entries key push recver t ht
    refine ⟨m, hm, hvalid t ht m hm, hkey, hpush, hrecver, fun m' hdata hdata' hlen => ?_⟩
    rw [hdata.getPackMetaLen_eq hdata' hlen]
    exact h.lens t.msgBuf m hm

theorem Inv.of_same (h : s.Inv) {van' : RdmaVan} (hsame : RdmaVan.SameBufs s.van van')
    (hlen : ∀ i, (van'.msgBufs i).inlineLen = (s.van.msgBufs i).inlineLen) : Inv { s with van := van' } where
  length := h.length.trans hsame.nextBuf.symm
  waiting i uid m hm := h.waiting i uid m (by rwa [hsame.cache] at hm)
  lens i m hm := (hlen i).trans (h.lens i m hm)
  entries key push recver t ht := h.entries key push recver t (by rwa [hsame.info] at ht)

/-- What a step changes: nothing about the message buffers, or one is made for a first message, or the address
of a message that waits is stored. -/
inductive Change (s : AddrCache) (a : Action) : AddrCache → Prop
  | same (van' : RdmaVan) (hsame : RdmaVan.SameBufs s.van van')
      (hlen : ∀ i, (van'.msgBufs i).inlineLen = (s.van.msgBufs i).inlineLen)
      (hok : ∀ key push recver, AnswersData key push recver s a) : Change s a { s with van := van' }
  | first (van' : RdmaVan) (uid : Nat) (m : Message) (hnext : van'.nextBuf = s.van.nextBuf + 1)
      (hcache : van'.msgbufCache = Function.update s.van.msgbufCache s.van.nextBuf (some (uid, m)))
      (hinfo : van'.remoteInfo = s.van.remoteInfo)
      (hlen : ∀ i, i ≠ s.van.nextBuf → (van'.msgBufs i).inlineLen = (s.van.msgBufs i).inlineLen)
      (hnew : (van'.msgBufs s.van.nextBuf).inlineLen = (getPackMetaLen m.msgMeta).toNat)
      (hok : ∀ key push recver, AnswersData key push recver s a) :
      Change s a { van := van', setUp := s.setUp ++ [m] }
  | reply (van' : RdmaVan) (ep : NodeId) (resp : RendezvousReply) (uid : Nat) (m : Message)
      (ha : a = .pollCQ ep (.recvReply resp)) (hm : s.van.msgbufCache resp.originAddr = some (uid, m))
      (hnext : van'.nextBuf = s.van.nextBuf)
      (hcache : van'.msgbufCache = Function.update s.van.msgbufCache resp.originAddr none)
      (hinfo : van'.remoteInfo = (s.van.storeRemoteAndLocalInfo m resp.remoteTuple).remoteInfo)
      (hlen : ∀ i, (van'.msgBufs i).inlineLen = (s.van.msgBufs i).inlineLen) :
      Change s a { s with van := van' }

theorem Inv.change_sendMsg (h : s.Inv) {msg : Message} {uid : Nat}
    (hs : step cfg s (.sendMsg msg uid) = some s') : Change s (.sendMsg msg uid) s' := by
  obtain ⟨⟨van', out, m, buf⟩, hsend, hs⟩ := Option.bind_eq_some_iff.mp hs
  obtain rfl := Option.some.inj hs
  have hlen := RdmaVan.inlineLen_sendMsg hsend
  rcases (RdmaVan.sendMsg_frame hsend).2 with
    ⟨-, rfl, hnext, -, hcache, hinfo, -⟩ | ⟨t, -, ht, rfl, hsame, -⟩
  · rw [if_pos rfl]
    have hlen := (hlen.resolve_right fun hsame => by omega).2
    refine .first van' uid m hnext hcache hinfo (fun i hi => ?_) ?_ fun _ _ _ => trivial
    · rw [hlen, if_neg hi]
    · rw [hlen, if_pos rfl]
  · -- a known buffer is not the next one
    obtain ⟨m₀, hm₀, -⟩ := h.entries _ _ _ t ht
    have hlt : t.msgBuf < s.van.nextBuf := h.length ▸ List.lt_of_getElem?_eq_some hm₀
    rw [if_neg (Nat.ne_of_lt hlt)]
    have hnext := hsame.nextBuf
    exact .same van' hsame.toSameBufs (hlen.resolve_left fun hfirst => by omega).2 fun _ _ _ => trivial

theorem Inv.change (h : s.Inv) {a : Action} (hs : step cfg s a = some s') : Change s a s' := by
  cases a with
  | sendMsg msg uid => exact h.change_sendMsg hs
  | pollCQ ep wc =>
    obtain ⟨⟨van', out⟩, hpoll, hs⟩ := Option.bind_eq_some_iff.mp hs
    obtain rfl := Option.some.inj hs
    cases wc with
    | recvStart req =>
      obtain ⟨ctx, resp, pool, -, -, -, -, -, -, ⟨keyToMr, nextGpu, rfl⟩, -⟩ :=
        RdmaVan.sendRendezvousReply_eq_some hpoll
      exact .same _ ⟨rfl, rfl, rfl⟩ (fun _ => rfl) fun _ _ _ => trivial
    | recvReply resp =>
      obtain ⟨uid, m, hm, hnext, -, hcache, hinfo, -⟩ := RdmaVan.recvReply_frame hpoll
      exact .reply van' ep resp uid m rfl hm hnext hcache hinfo (RdmaVan.inlineLen_recvReply hpoll)
    | recvImm imm uid =>
      obtain ⟨van'', himm, heq⟩ := Option.map_eq_some_iff.mp hpoll
      obtain ⟨rfl, -⟩ := Prod.mk.inj heq
      refine .same _ (RdmaVan.samePool_recvImm himm).toSameBufs (fun i => ?_) fun _ _ _ => trivial
      rcases RdmaVan.recvImm_eq_some himm with ⟨-, rfl⟩ | ⟨-, _, _, -, -, rfl⟩ <;> rfl
  | recvMsg =>
    obtain ⟨⟨van', note, msg⟩, hrecv, hs⟩ := Option.bind_eq_some_iff.mp hs
    obtain rfl := Option.some.inj hs
    obtain ⟨rest, m, -, rfl, -⟩ := RdmaVan.recvMsg_eq_some hrecv
    exact .same _ ⟨rfl, rfl, rfl⟩ (fun _ => rfl) fun _ _ _ => trivial
  | receive ram wr =>
    obtain rfl := Option.some.inj hs
    refine .same _ (RdmaVan.samePool_receive s.van ram wr).toSameBufs (fun i => ?_) fun _ _ _ => trivial
    rw [RdmaVan.msgBufs_receive]

theorem Inv.of_change (h : s.Inv) {a : Action} (hc : Change s a s') : s'.Inv := by
  cases hc with
  | same van' hsame hlen hok => exact h.of_same hsame hlen
  | first van' uid m hnext hcache hinfo hlen hnew hok =>
    refine ⟨by simp [h.length, hnext], fun i uid' m' hm' => ?_, fun i m' hm' => ?_,
      fun key push recver t ht => ?_⟩
    · rw [hcache] at hm'
      rcases eq_or_ne i s.van.nextBuf with rfl | hi
      · rw [Function.update_self] at hm'
        obtain ⟨-, rfl⟩ := Prod.mk.inj (Option.some.inj hm')
        rw [← h.length]
        exact List.getElem?_concat_length
      · rw [Function.update_of_ne hi] at hm'
        exact List.getElem?_snoc_of_eq_some (h.waiting i uid' m' hm') m
    · rcases List.getElem?_snoc_eq_some hm' with hm' | ⟨hi, rfl⟩
      · have hlt : i < s.van.nextBuf := h.length ▸ List.lt_of_getElem?_eq_some hm'
        rw [hlen i (Nat.ne_of_lt hlt)]
        exact h.lens i m' hm'
      · rwa [hi, h.length]
    · rw [hinfo] at ht
      obtain ⟨m₀, hm₀, hrest⟩ := h.entries key push recver t ht
      exact ⟨m₀, List.getElem?_snoc_of_eq_some hm₀ m, hrest⟩
  | reply van' ep resp uid m ha hm hnext hcache hinfo hlen =>
    refine ⟨h.length.trans hnext.symm, fun i uid' m' hm' => ?_, fun i m' hm' => (hlen i).trans (h.lens i m' hm'),
      fun key push recver t ht => ?_⟩
    · rw [hcache] at hm'
      rcases eq_or_ne i resp.originAddr with rfl | hi
      · rw [Function.update_self] at hm'
        cases hm'
      · rw [Function.update_of_ne hi] at hm'
        exact h.waiting i uid' m' hm'
    · rw [hinfo, RdmaVan.remoteInfo_storeRemoteAndLocalInfo] at ht
      split_ifs at ht with hkey
      · obtain rfl := Option.some.inj ht
        obtain ⟨rfl, rfl, rfl⟩ := hkey
        exact ⟨m, h.waiting _ uid m hm, rfl, rfl, rfl⟩
      · exact h.entries key push recver t ht

/-- One step keeps the entry valid exactly if it does not store the address of another kind of message. -/
theorem Inv.valid_iff (h : s.Inv) {a : Action} (hv : s.Valid key push recver) (hc : Change s a s') :
    s'.Valid key push recver ↔ AnswersData key push recver s a := by
  cases hc with
  | same van' hsame hlen hok =>
    refine iff_of_true (fun t ht m hm => hv t ?_ m hm) (hok key push recver)
    rwa [← hsame.info]
  | first van' uid m hnext hcache hinfo hlen hnew hok =>
    refine iff_of_true (fun t ht m' hm' => ?_) (hok key push recver)
    rw [hinfo] at ht
    obtain ⟨m₀, hm₀, -⟩ := h.entries key push recver t ht
    obtain rfl := Option.some.inj ((List.getElem?_snoc_of_eq_some hm₀ m).symm.trans hm')
    exact hv t ht m₀ hm₀
  | reply van' ep resp uid m ha hm hnext hcache hinfo hlen =>
    subst ha
    by_cases hkey : key = m.msgMeta.key ∧ push = m.msgMeta.push ∧ recver = m.msgMeta.recver
    · have hentry : van'.remoteInfo key push recver = some resp.remoteTuple := by
        rw [hinfo, RdmaVan.remoteInfo_storeRemoteAndLocalInfo, if_pos hkey]
      have hfor : s.setUp[resp.remoteTuple.msgBuf]? = some m := h.waiting resp.originAddr uid m hm
      constructor
      · intro hvalid uid' m' hm' _ _ _
        obtain ⟨-, rfl⟩ := Prod.mk.inj (Option.some.inj (hm.symm.trans hm'))
        exact hvalid _ hentry m hfor
      · intro hok t ht m' hm'
        obtain rfl := Option.some.inj (hentry.symm.trans ht)
        obtain rfl := Option.some.inj (hfor.symm.trans hm')
        exact hok uid m hm hkey.1.symm hkey.2.1.symm hkey.2.2.symm
    · refine iff_of_true (fun t ht m' hm' => hv t ?_ m' hm') fun uid' m' hm' hk hp hr => ?_
      · have ht : van'.remoteInfo key push recver = some t := ht
        rwa [hinfo, RdmaVan.remoteInfo_storeRemoteAndLocalInfo, if_neg hkey] at ht
      · obtain ⟨-, rfl⟩ := Prod.mk.inj (Option.some.inj (hm.symm.trans hm'))
        exact absurd ⟨hk.symm, hp.symm, hr.symm⟩ hkey

theorem step_isSome_of_not_answersData {a : Action} (h : ¬AnswersData key push recver s a) :
    (step cfg s a).isSome := by
  cases a with
  | pollCQ ep wc =>
    cases wc with
    | recvReply resp =>
      simp only [AnswersData, not_forall] at h
      obtain ⟨uid, m, hm, -, -, -, hvalid⟩ := h
      simp [step, RdmaVan.pollCQ, RdmaVan.recvReply, hm, hvalid]
    | recvStart | recvImm => exact absurd trivial h
  | sendMsg | recvMsg | receive => exact absurd trivial h

/-- For every run of a node, whatever it sends and whichever completions it gets: the entries for a key, a
direction and a receiver were all created by data messages with these, exactly if no reply to a control or
simple-app message with these is processed. -/
theorem entries_from_data_iff (cfg : RdmaCfg) (id : NodeId) (isServer : Bool) (as : List Action) (key : Key)
    (push : Bool) (recver : NodeId) :
    (∀ before t, before <+: as → Run.exec (step cfg) (init cfg id isServer) before = some t →
        t.FromData key push recver) ↔
      Run.EveryStep (step cfg) (AnswersData key push recver) (init cfg id isServer) as := by
  have hinit := inv_init cfg id isServer
  have hvalid : (init cfg id isServer).Valid key push recver := fun t ht => by cases push <;> cases ht
  rw [← Run.everyStep_iff Inv (Valid key push recver) (fun t a t' h hs => h.of_change (h.change hs))
    (fun t a t' h hv hs => h.valid_iff hv (h.change hs)) (fun t a _ => step_isSome_of_not_answersData) hinit hvalid]
  refine forall₄_congr fun before t hpre ht => Inv.fromData_iff ?_
  exact Run.exec_invariant Inv (fun t a t' h hs => h.of_change (h.change hs)) hinit ht

/-- A simple-app request to node 8. -/
def simpleRequest : Message :=
  { msgMeta := { head := 1, timestamp := 0, appId := 0, customerId := 0, request := true, simpleApp := true
                 recver := 8 } }

/-- A pull of key 0 from node 8. -/
def pullZero : Message :=
  let msg : Message :=
    { msgMeta := { timestamp := 1, request := true, recver := 8, addr := 64, valLen := 16 } }
  (msg.addKeys [0]).addData .other {}

/-- The request is sent and answered: its address is the one for pulls of key 0. The message buffer has no
room for the meta of a pull, and the check of `SendMsg` fails. -/
theorem simple_request_caches_pull_zero : ∃ s t,
    Run.exec (step RdmaVan.sampleCfg) (init RdmaVan.sampleCfg 9 false)
        [.sendMsg simpleRequest 0, .pollCQ 8 (.recvReply RdmaVan.sampleReply)] = some s ∧
      s.van.remoteInfo 0 false 8 = some t ∧ s.setUp[t.msgBuf]? = some simpleRequest ∧
      isValidPushpull simpleRequest = false ∧ pullZero.IsData ∧ RdmaVan.messageKey pullZero = 0 ∧
      (s.van.msgBufs t.msgBuf).inlineLen < (getPackMetaLen pullZero.msgMeta).toNat ∧
      (s.van.sendMsg RdmaVan.sampleCfg pullZero 1).isNone := by
  have heval : (Run.exec (step RdmaVan.sampleCfg) (init RdmaVan.sampleCfg 9 false)
      [.sendMsg simpleRequest 0, .pollCQ 8 (.recvReply RdmaVan.sampleReply)]).map (fun s =>
        (s.van.remoteInfo 0 false 8, s.setUp, (s.van.msgBufs 0).inlineLen,
          (s.van.sendMsg RdmaVan.sampleCfg pullZero 1).isNone)) =
      some (some RdmaVan.sampleReply.remoteTuple, [simpleRequest], 288, true) := by decide +kernel
  obtain ⟨s, hrun, hs⟩ := Option.map_eq_some_iff.mp heval
  simp only [Prod.mk.injEq] at hs
  obtain ⟨hinfo, hsetUp, hlen, hnone⟩ := hs
  have hdata : pullZero.IsData := ⟨rfl, rfl, rfl, rfl⟩
  have hpull : (getPackMetaLen pullZero.msgMeta).toNat = 296 := by decide
  refine ⟨s, _, hrun, hinfo, by rw [hsetUp]; rfl, rfl, hdata, by decide, ?_, hnone⟩
  rw [hpull]
  exact Nat.lt_of_le_of_lt (Nat.le_of_eq hlen) (by decide)

end AddrCache

end StepMesh
