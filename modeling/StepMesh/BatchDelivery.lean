import StepMesh.AFBatches
import StepMesh.RdmaProgress

/-!
# Batches over the RDMA van

A worker's batches go to a server as messages of `RdmaNet`, and `KVServer::Process` takes those that `RecvMsg`
hands out. As long as the messages of a batch are sent in turn, the request handler gets each batch once
(`batches_handed_over`). A batch of a new and a known key, in this order, is not: the message of the known key is
written while the other waits for its rendezvous (`end_overtakes_start`).
-/

namespace StepMesh

open RdmaVan (SentAs Arrays messageKey)
open AFWorker (FrameOf Hands)

namespace RdmaNet

/-- The push and pull requests that `b` has been handed out, in order. -/
def served (s : RdmaNet) (b : NodeId) : List Message := ((s.popped.filter (·.node = b)).map (·.msg)).filter isRequest

variable {cfg : RdmaCfg} {isServer : NodeId → Bool} {s : RdmaNet} {a b : NodeId} {as : List Action} {po : Postoffice}
  {batches : List (List Int)}

theorem process_of_arrays (po : Postoffice) {msg : Message} (hv : isValidPushpull msg = true) (harr : Arrays msg) :
    ∃ r, KVServer.process po msg = some r ∧
      Asks (workerRankToID (po.instanceIDtoGroupRank msg.msgMeta.sender)) msg r := by
  have happ : msg.msgMeta.simpleApp = false := by
    simpa using (Bool.and_eq_true_iff.mp hv).2
  have hkeys := harr.keys
  cases hpush : msg.msgMeta.push with
  | true =>
    obtain ⟨k, v, l, hdata, hlens⟩ := harr.push hpush
    refine ⟨_, by simp only [KVServer.process, happ, hdata, hlens, hkeys]; rfl, ?_⟩
    exact ⟨rfl, rfl, rfl, rfl⟩
  | false =>
    obtain ⟨k, v, hdata⟩ := harr.pull hpush
    refine ⟨_, by simp only [KVServer.process, happ, hdata, hkeys]; rfl, ?_⟩
    exact ⟨rfl, rfl, rfl, rfl⟩

theorem timestamp_of_process {msg : Message} {r : Request} (h : KVServer.process po msg = some r) :
    r.1.timestamp = msg.msgMeta.timestamp := by
  unfold KVServer.process at h
  obtain ⟨_, -, h⟩ := Option.bind_eq_some_iff.mp h
  dsimp only at h
  split at h
  · obtain rfl := Option.some.inj h
    rfl
  · obtain rfl := Option.some.inj h
    rfl
  · obtain ⟨_, -, h⟩ := Option.bind_eq_some_iff.mp h
    obtain rfl := Option.some.inj h
    rfl
  · cases h

/-- What `KVHandler` is called with for a message is what the worker sent. -/
theorem Received.asks {msg : Message} {x : SentMsg} {p : Pop} {r : Request} (hrec : Received x p)
    (hm : SentAs msg x.msg) (hreq : msg.msgMeta.request = true) (hv : isValidPushpull msg = true)
    (hkeys : msg.keys = [msg.msgMeta.key]) (hr : KVServer.process po p.msg = some r) :
    Asks (workerRankToID (po.instanceIDtoGroupRank x.sender)) msg r := by
  have hkey : messageKey msg = msg.msgMeta.key := by
    rw [messageKey, if_pos hreq, hkeys, decodeKey_singleton]
  obtain ⟨⟨option, hx, -⟩, -⟩ := hm
  rw [if_pos hv, hkey] at hx
  have hvp : isValidPushpull p.msg = true := by
    rw [hrec.valid, hx]
    exact hv
  have hheader := hrec.header
  simp only [hx, Meta.header, Header.mk.injEq] at hheader
  obtain ⟨hhead, -, -, hts, hreq', hpush, -, -, hkey', haddr, hlen, -, -, -, hdtype, hshape⟩ := hheader
  obtain ⟨r', hr', hasks⟩ := process_of_arrays po hvp (hrec.arrays hvp (hreq'.trans hreq))
  obtain rfl := Option.some.inj (hr.symm.trans hr')
  refine ⟨?_, hasks.cmd.trans hhead, ?_, by rw [hasks.keys, hkey']⟩
  · rw [hasks.asked]
    simp only [Meta.asked, hpush, hts, hkey', haddr, hlen, hdtype, hshape]
  · rw [hasks.sender, hrec.sender]

/-! ### What is served -/

/-- The requests to `b` are the first ones of `msgs`, and all come from `a`. -/
structure SendsOnly (a b : NodeId) (msgs : List Message) (as : List Action) : Prop where
  first : (sendsOf a b as).filter isRequest <+: msgs
  others : ∀ n, n ≠ a → (sendsOf n b as).filter isRequest = []

theorem SendsOnly.anti {msgs : List Message} {as' : List Action} (h : SendsOnly a b msgs as) (hpre : as' <+: as) :
    SendsOnly a b msgs as' where
  first := ((hpre.filterMap _).filter _).trans h.first
  others n hn := List.prefix_nil.mp (h.others n hn ▸ (hpre.filterMap _).filter _)

theorem SentAs.isRequest {msg m : Message} (h : SentAs msg m) : isRequest m = isRequest msg := by
  obtain ⟨⟨option, rfl, -⟩, -⟩ := h
  rfl

theorem SentAs.timestamp {msg m : Message} (h : SentAs msg m) : m.msgMeta.timestamp = msg.msgMeta.timestamp := by
  obtain ⟨⟨option, rfl, -⟩, -⟩ := h
  rfl

theorem Received.isRequest {x : SentMsg} {p : Pop} (h : Received x p) : isRequest p.msg = isRequest x.msg := by
  have hreq : p.msg.msgMeta.request = x.msg.msgMeta.request := congrArg Header.request h.header
  rw [RdmaNet.isRequest, RdmaNet.isRequest, h.valid, hreq]

theorem Turned.exists_sent (h : Turned cfg b batches s)
    (hrun : Run.exec (RdmaNet.step cfg) (init cfg isServer) as = some s) {p : Pop} (hp : p ∈ s.popped)
    (hnode : p.node = b) (hreq : RdmaNet.isRequest p.msg) :
    ∃ msg x, msg ∈ (sendsOf p.note.endpoint b as).filter RdmaNet.isRequest ∧ SentAs msg x.msg ∧ Received x p := by
  obtain ⟨x, hx, hrec⟩ := h.received p hp
  obtain ⟨y, hy, hsender, hrecver, -⟩ := h.ok.popped p hp
  obtain rfl := Option.some.inj (hx.symm.trans hy)
  have hmem : x ∈ s.sentFrom p.note.endpoint b :=
    List.mem_filter.mpr ⟨List.mem_of_getElem? hx, by simp [hsender, hrecver, hnode]⟩
  obtain ⟨msg, hmsg, hm⟩ := List.exists_mem_of_forall₂_right (sentAs_sendsOf hrun _ _) hmem
  refine ⟨msg, x, List.mem_filter.mpr ⟨hmsg, ?_⟩, hm, hrec⟩
  rw [← SentAs.isRequest hm, ← hrec.isRequest, hreq]

theorem SendsOnly.endpoint_eq {msgs : List Message} (hsends : SendsOnly a b msgs as) {n : NodeId} {msg : Message}
    (hmsg : msg ∈ (sendsOf n b as).filter isRequest) : n = a := by
  by_contra hne
  rw [hsends.others n hne] at hmsg
  cases hmsg

theorem Turned.served_eq (h : Turned cfg b batches s)
    (hrun : Run.exec (RdmaNet.step cfg) (init cfg isServer) as = some s) {msgs : List Message}
    (hsends : SendsOnly a b msgs as) :
    s.served b = ((s.pops a b).filter (RdmaNet.isRequest ·.msg)).map (·.msg) := by
  rw [served, List.filter_map, pops, List.filter_filter, List.filter_filter]
  refine congrArg _ (List.filter_congr fun p hp => ?_)
  by_cases hreq : RdmaNet.isRequest p.msg
  · by_cases hnode : p.node = b
    · obtain ⟨msg, x, hmsg, -⟩ := h.exists_sent hrun hp hnode hreq
      simp [hnode, hsends.endpoint_eq hmsg]
    · simp [hnode]
  · simp [hreq]

/-- What is served of a batch are the first messages that were sent of it. -/
theorem Turned.served_within (h : Turned cfg b batches s)
    (hrun : Run.exec (RdmaNet.step cfg) (init cfg isServer) as = some s) {batch : List Int} (hbatch : batch ∈ batches)
    (a : NodeId) : ∃ msgs, msgs <+: (sendsOf a b as).filter (within batch) ∧
      List.Forall₂ (fun msg p => ∃ x, SentAs msg x.msg ∧ x.sender = a ∧ Received x p) msgs
        ((s.pops a b).filter (within batch ·.msg)) := by
  obtain ⟨xs, ⟨rest, hrest⟩, hxs⟩ := h.received_within hbatch a
  have hsent : List.Forall₂ (fun msg x => SentAs msg x.msg) ((sendsOf a b as).filter (within batch))
      ((s.sentFrom a b).filter (within batch ·.msg)) :=
    List.rel_filter (fun msg x hm => by simp only [within_of_sentAs hm]) (sentAs_sendsOf hrun a b)
  rw [← hrest] at hsent
  have hfrom : ∀ x ∈ xs, x.sender = a := by
    intro x hx
    have hmem : x ∈ (s.sentFrom a b).filter (within batch ·.msg) := hrest ▸ List.mem_append_left rest hx
    simpa using (of_decide_eq_true (List.mem_filter.mp (List.mem_of_mem_filter hmem)).2).1
  refine ⟨_, List.take_prefix xs.length _, List.forall₂_comp (List.forall₂_take_append _ _ _ hsent)
    ((List.forall₂_and_left _ _).mpr ⟨hfrom, hxs⟩) fun msg x p hm hp => ⟨x, hm, hp.1, hp.2⟩⟩

theorem Turned.shape_le (h : Turned cfg b batches s) : ∀ x ∈ s.sent, x.msg.msgMeta.shape.length ≤ 8 := by
  intro x hx
  cases hv : isValidPushpull x.msg with
  | true => exact ((h.ok.sendable x hx).fits hv).shape_length
  | false => exact (h.packable x hx hv).shape_length

theorem exists_sent_of_mem_sendsOf (hrun : Run.exec (RdmaNet.step cfg) (init cfg isServer) as = some s) {msg : Message}
    (hmsg : msg ∈ sendsOf a b as) : ∃ (u : Nat) (x : SentMsg), s.sent[u]? = some x ∧ SentAs msg x.msg ∧ x.sender = a ∧
      x.msg.msgMeta.recver = b := by
  obtain ⟨x, hx, hm⟩ := List.exists_mem_of_forall₂_left (sentAs_sendsOf hrun a b) hmsg
  obtain ⟨hx, hab⟩ := List.mem_filter.mp hx
  obtain ⟨u, hu⟩ := List.getElem?_of_mem hx
  exact ⟨u, x, hu, hm, of_decide_eq_true hab⟩

theorem Turned.served_of_popped (h : Turned cfg b batches s) {msg : Message} {u : Nat} {x : SentMsg}
    (hx : s.sent[u]? = some x) (hm : SentAs msg x.msg) (hreq : RdmaNet.isRequest msg)
    (hpop : u ∈ s.poppedFrom a b) : msg.msgMeta.timestamp ∈ (s.served b).map (·.msgMeta.timestamp) := by
  rw [poppedFrom_eq_map] at hpop
  obtain ⟨p, hp, hpu⟩ := List.mem_map.mp hpop
  obtain ⟨hp, hpb⟩ := List.mem_filter.mp hp
  obtain ⟨y, hy, hrec⟩ := h.received p hp
  rw [hpu, hx] at hy
  obtain rfl := Option.some.inj hy
  have hts : p.msg.msgMeta.timestamp = x.msg.msgMeta.timestamp := congrArg Header.timestamp hrec.header
  refine List.mem_map.mpr ⟨p.msg, List.mem_filter.mpr ⟨?_, ?_⟩, ?_⟩
  · exact List.mem_map.mpr ⟨p, List.mem_filter.mpr ⟨hp, by simp [(of_decide_eq_true hpb).1]⟩, rfl⟩
  · rw [hrec.isRequest, SentAs.isRequest hm, hreq]
  · rw [hts, SentAs.timestamp hm]

theorem Turned.served_or_underWay (h : Turned cfg b batches s)
    (hrun : Run.exec (RdmaNet.step cfg) (init cfg isServer) as = some s) {msg : Message}
    (hmsg : msg ∈ (sendsOf a b as).filter RdmaNet.isRequest) :
    msg.msgMeta.timestamp ∈ (s.served b).map (·.msgMeta.timestamp) ∨ ∃ (u : Nat) (x : SentMsg),
      s.sent[u]? = some x ∧ SentAs msg x.msg ∧ x.sender = a ∧ s.UnderWay u x := by
  obtain ⟨hmsg, hreq⟩ := List.mem_filter.mp hmsg
  obtain ⟨u, x, hu, hm, hsender, hrecver⟩ := exists_sent_of_mem_sendsOf hrun hmsg
  rcases h.ok.popped_or_underWay hu with hpop | hway
  · rw [hsender, hrecver] at hpop
    exact .inl (h.served_of_popped hu hm hreq hpop)
  · exact .inr ⟨u, x, hu, hm, hsender, hway⟩

/-! ### Batch after batch -/

section batches
variable {elementSize : Int → Nat} {w : AFWorker} {c : Customer} {g : Nat}
  {tensors : List (List KeyTensor × List KeyTensor)} {reqs : List AFTensorRequest} {frames : List (List Message)}
  {rs : List Request} {sender : NodeId} {i : Nat}
  {req : AFTensorRequest} {frame : List Message}

/-- The requests of a batch that are there, and the ones still to come. -/
def completed (sender : NodeId) (rs : List Request) (req : AFTensorRequest) (frame : List Message) : List Request :=
  let got := rs.filter (·.1.timestamp ∈ req.timestamps)
  got ++ (frame.drop got.length).map (expected sender)

theorem forall₂_completed {msgs : List Message} (hmsgs : msgs <+: frame)
    (h : List.Forall₂ (Asks sender) msgs (rs.filter (·.1.timestamp ∈ req.timestamps))) :
    List.Forall₂ (Asks sender) frame (completed sender rs req frame) := by
  obtain ⟨rest, rfl⟩ := hmsgs
  rw [completed, ← h.length_eq, List.drop_left]
  refine List.rel_append h (List.forall₂_map_right_iff.mpr (List.forall₂_same.mpr fun msg _ => ?_))
  exact asks_expected sender msg

theorem filter_eq_completed_iff (hasks : List.Forall₂ (Asks sender) frame (completed sender rs req frame))
    (hframe : FrameOf req frame) (hnd : ((completed sender rs req frame).map (·.1.timestamp)).Nodup) :
    rs.filter (·.1.timestamp ∈ req.timestamps) = completed sender rs req frame ↔
      ∀ t ∈ req.timestamps, t ∈ rs.map (·.1.timestamp) := by
  have hts : (completed sender rs req frame).map (·.1.timestamp) = req.timestamps := by
    rw [← hframe.timestamps]
    exact (List.map_eq_map_of_forall₂ hasks fun msg r h => (congrArg Asked.timestamp h.asked).symm).symm
  constructor
  · intro heq t ht
    rw [← hts, ← heq] at ht
    obtain ⟨r, hr, rfl⟩ := List.mem_map.mp ht
    exact List.mem_map_of_mem (List.mem_of_mem_filter hr)
  · intro hall
    suffices hrest : (frame.drop (rs.filter (·.1.timestamp ∈ req.timestamps)).length).map (expected sender) = [] by
      rw [completed, hrest, List.append_nil]
    refine List.eq_nil_iff_forall_not_mem.mpr fun r hr => ?_
    have ht : r.1.timestamp ∈ req.timestamps := by
      rw [← hts]
      exact List.mem_map_of_mem (List.mem_append_right _ hr)
    obtain ⟨r', hr', heq⟩ := List.mem_map.mp (hall _ ht)
    have hgot : r' ∈ rs.filter (·.1.timestamp ∈ req.timestamps) :=
      List.mem_filter.mpr ⟨hr', by simpa [heq] using ht⟩
    rw [completed, List.map_append] at hnd
    exact List.disjoint_of_nodup_append hnd (heq ▸ List.mem_map_of_mem hgot) (List.mem_map_of_mem hr)

theorem filter_within (hissue : w.issue c tensors = some reqs) (hframes : List.Forall₂ FrameOf reqs frames)
    (hreq : reqs[i]? = some req) (hframe : frames[i]? = some frame) :
    frames.flatten.filter (within req.timestamps) = frame := by
  have hmem : ∀ {req' frame'}, FrameOf req' frame' → ∀ msg ∈ frame',
      isRequest msg = true ∧ msg.msgMeta.timestamp ∈ req'.timestamps := by
    intro req' frame' h msg hmsg
    obtain ⟨hr, hv, -⟩ := h.request msg hmsg
    refine ⟨by rw [isRequest, hr, hv]; rfl, ?_⟩
    rw [← h.timestamps]
    exact List.mem_map_of_mem hmsg
  refine List.filter_flatten_of_getElem? hframe (fun msg hmsg => ?_) fun j frame' hne hj msg hmsg => ?_
  · obtain ⟨req', hreq', h⟩ := List.exists_getElem?_of_forall₂_right hframes hframe
    obtain rfl := Option.some.inj (hreq.symm.trans hreq')
    obtain ⟨hr, ht⟩ := hmem h msg hmsg
    simp [within, hr, ht]
  · obtain ⟨req', hreq', h⟩ := List.exists_getElem?_of_forall₂_right hframes hj
    obtain ⟨hr, ht⟩ := hmem h msg hmsg
    have hnot : msg.msgMeta.timestamp ∉ req.timestamps := fun ht' =>
      hne (AFWorker.timestamps_unique hissue hreq' hreq ht ht')
    simp [within, hnot]

theorem Turned.asks_within (h : Turned cfg b (reqs.map AFTensorRequest.timestamps) s)
    (hrun : Run.exec (RdmaNet.step cfg) (init cfg isServer) as = some s)
    (hissue : w.issue c tensors = some reqs) (hframes : List.Forall₂ FrameOf reqs frames)
    (hsends : SendsOnly a b frames.flatten as)
    (hrs : List.Forall₂ (fun msg r => KVServer.process po msg = some r) (s.served b) rs)
    (hreq : reqs[i]? = some req) (hframe : frames[i]? = some frame) :
    ∃ msgs, msgs <+: frame ∧ List.Forall₂ (Asks (workerRankToID (po.instanceIDtoGroupRank a))) msgs
      (rs.filter (·.1.timestamp ∈ req.timestamps)) := by
  obtain ⟨msgs, hmsgs, hpops⟩ :=
    h.served_within hrun (List.mem_map_of_mem (List.mem_of_getElem? hreq)) a
  have hsplit : ∀ msg, within req.timestamps msg =
      (decide (msg.msgMeta.timestamp ∈ req.timestamps) && RdmaNet.isRequest msg) := fun msg => Bool.and_comm ..
  have hfirst : msgs <+: frame := by
    rw [← filter_within hissue hframes hreq hframe]
    refine hmsgs.trans ?_
    have hall := hsends.first.filter (within req.timestamps)
    rw [List.filter_filter] at hall
    refine (List.filter_congr fun msg _ => ?_) ▸ hall
    rw [within]
    cases RdmaNet.isRequest msg <;> simp
  refine ⟨msgs, hfirst, ?_⟩
  have hprocess : List.Forall₂ (fun p r => KVServer.process po p.msg = some r)
      ((s.pops a b).filter (within req.timestamps ·.msg)) (rs.filter (·.1.timestamp ∈ req.timestamps)) := by
    rw [h.served_eq hrun hsends, List.forall₂_map_left_iff] at hrs
    have hfilter := List.rel_filter (p := fun p : Pop => decide (p.msg.msgMeta.timestamp ∈ req.timestamps))
      (q := fun r : Request => decide (r.1.timestamp ∈ req.timestamps))
      (fun p r hr => by simp only [timestamp_of_process hr]) hrs
    rw [List.filter_filter] at hfilter
    simpa only [hsplit] using hfilter
  obtain ⟨req', hreq', hframe'⟩ := List.exists_getElem?_of_forall₂_right hframes hframe
  have hmem : ∀ msg ∈ msgs, msg.msgMeta.request = true ∧ isValidPushpull msg = true ∧
      msg.keys = [msg.msgMeta.key] := fun msg hmsg => hframe'.request msg (hfirst.subset hmsg)
  refine List.forall₂_comp ((List.forall₂_and_left _ _).mpr ⟨hmem, hpops⟩) hprocess ?_
  rintro msg p r ⟨⟨hr, hv, hkeys⟩, x, hm, rfl, hrec⟩ hproc
  exact hrec.asks hm hr hv hkeys hproc

theorem Turned.exists_process (h : Turned cfg b batches s) (po : Postoffice) :
    ∃ rs, (s.served b).mapM (KVServer.process po) = some rs ∧
      List.Forall₂ (fun msg r => KVServer.process po msg = some r) (s.served b) rs := by
  refine List.exists_mapM_eq_some fun msg hmsg => ?_
  obtain ⟨hmsg, hreq⟩ := List.mem_filter.mp hmsg
  obtain ⟨p, hp, rfl⟩ := List.mem_map.mp hmsg
  obtain ⟨x, -, hrec⟩ := h.received p (List.mem_of_mem_filter hp)
  obtain ⟨hv, hr⟩ := Bool.and_eq_true_iff.mp hreq
  obtain ⟨r, hr, -⟩ := process_of_arrays po hv (hrec.arrays hv hr)
  exact ⟨r, hr⟩

theorem Turned.exists_batch (h : Turned cfg b batches s)
    (hrun : Run.exec (RdmaNet.step cfg) (init cfg isServer) as = some s)
    (hframes : List.Forall₂ FrameOf reqs frames) (hsends : SendsOnly a b frames.flatten as)
    (hrs : List.Forall₂ (fun msg r => KVServer.process po msg = some r) (s.served b) rs) {r : Request} (hr : r ∈ rs) :
    ∃ (i : Nat) (req : AFTensorRequest), reqs[i]? = some req ∧ r.1.timestamp ∈ req.timestamps := by
  obtain ⟨m, hm, hproc⟩ := List.exists_mem_of_forall₂_right hrs hr
  obtain ⟨hm, hreq⟩ := List.mem_filter.mp hm
  obtain ⟨p, hp, rfl⟩ := List.mem_map.mp hm
  obtain ⟨hp, hnode⟩ := List.mem_filter.mp hp
  obtain ⟨msg, x, hmsg, hm, hrec⟩ := h.exists_sent hrun hp (of_decide_eq_true hnode) hreq
  obtain rfl := hsends.endpoint_eq hmsg
  obtain ⟨frame, hframe, hmsg⟩ := List.mem_flatten.mp (hsends.first.subset hmsg)
  obtain ⟨i, hi⟩ := List.getElem?_of_mem hframe
  obtain ⟨req, hreq, hf⟩ := List.exists_getElem?_of_forall₂_right hframes hi
  refine ⟨i, req, hreq, ?_⟩
  have hts : p.msg.msgMeta.timestamp = x.msg.msgMeta.timestamp := congrArg Header.timestamp hrec.header
  rw [timestamp_of_process hproc, hts, SentAs.timestamp hm, ← hf.timestamps]
  exact List.mem_map_of_mem hmsg

theorem exists_handed (hg : g < w.po.numServers) (hissue : w.issue c tensors = some reqs)
    (hframed : ∀ PQ ∈ tensors, w.Framed PQ.1 PQ.2) (hmsgs : w.messagesTo g reqs = some frames)
    (hasks : ∀ (i : Nat) req frame, reqs[i]? = some req → frames[i]? = some frame →
      List.Forall₂ (Asks sender) frame (completed sender rs req frame))
    (hbelongs : ∀ r ∈ rs, ∃ (i : Nat) (req : AFTensorRequest), reqs[i]? = some req ∧ r.1.timestamp ∈ req.timestamps) :
    ∃ srv effects handed, AFServer.handleAll elementSize {} rs = some (srv, effects) ∧ handed.Nodup ∧
      List.Forall₂ (fun (i : Nat) m => ∃ req, reqs[i]? = some req ∧ Hands w g sender req m) handed
        (AFServer.handlerCalls effects) ∧
      ∀ (i : Nat) req, reqs[i]? = some req →
        (i ∈ handed ↔ ∀ t ∈ req.timestamps, t ∈ rs.map (·.1.timestamp)) := by
  have hframes := AFWorker.frameOf_messagesTo hg hissue hframed hmsgs
  obtain ⟨Bs, hBs, -, hpair, hhands⟩ := AFWorker.exists_batches elementSize hg hissue hframed hmsgs
    (List.forall₂_zipWith_right hframes.length_eq hasks)
  have hlen : Bs.length = reqs.length := by simpa using hhands.length_eq.symm
  -- the batch with a number, and what it consists of
  have hbatch : ∀ i : Fin Bs.length, ∃ req frame, reqs[i.1]? = some req ∧ frames[i.1]? = some frame ∧
      completed sender rs req frame = (Bs.get i).reqs := by
    intro i
    refine List.getElem?_zipWith_eq_some.mp ?_
    rw [← hBs, List.getElem?_map, List.getElem?_eq_getElem i.2]
    rfl
  obtain ⟨trace, rfl, htrace⟩ := List.exists_map_snd_eq (P := fun (i : Fin Bs.length) (r : Request) =>
    ∃ req, reqs[i.1]? = some req ∧ r.1.timestamp ∈ req.timestamps) (l := rs) (by
      intro r hr
      obtain ⟨i, req, hi, ht⟩ := hbelongs r hr
      exact ⟨⟨i, hlen ▸ List.lt_of_getElem?_eq_some hi⟩, req, hi, ht⟩)
  have harrived : ∀ (i : Fin Bs.length) req, reqs[i.1]? = some req → AFServer.arrived trace i =
      (trace.map Prod.snd).filter (·.1.timestamp ∈ req.timestamps) := by
    intro i req hi
    rw [AFServer.arrived, List.filter_map]
    refine congrArg _ (List.filter_congr fun e he => decide_eq_decide.mpr ?_)
    obtain ⟨req', hreq', ht⟩ := htrace e he
    constructor
    · rintro rfl
      obtain rfl := Option.some.inj (hi.symm.trans hreq')
      exact ht
    · intro ht'
      exact Fin.ext (AFWorker.timestamps_unique hissue hreq' hi ht ht')
  have hil : AFServer.Interleaved Bs.get trace := by
    intro i
    obtain ⟨req, frame, hi, -, hreqs⟩ := hbatch i
    rw [harrived i req hi, ← hreqs]
    exact List.prefix_append ..
  obtain ⟨srv, hall, -⟩ := AFServer.handleAll_eq (AFServer.distinctTimestamps_get hpair) hil
  obtain ⟨hnd, hended⟩ := AFServer.endedBatches_spec hil
  refine ⟨srv, _, (AFServer.endedBatches trace).map Fin.val, hall, hnd.map fun _ _ => Fin.ext, ?_, fun i req hi => ?_⟩
  · rw [AFServer.handlerCalls_map_batchEffects, List.forall₂_map_left_iff, List.forall₂_map_right_iff]
    refine List.forall₂_same.mpr fun i _ => List.exists_getElem?_of_forall₂_right hhands ?_
    rw [List.getElem?_map, List.getElem?_eq_getElem i.2]
    rfl
  · have hlt : i < Bs.length := hlen ▸ List.lt_of_getElem?_eq_some hi
    obtain ⟨req', frame, hreq', hframe, hreqs⟩ := hbatch ⟨i, hlt⟩
    obtain rfl := Option.some.inj (hi.symm.trans hreq')
    obtain ⟨req', hreq', hf⟩ := List.exists_getElem?_of_forall₂_right hframes hframe
    obtain rfl := Option.some.inj (hi.symm.trans hreq')
    rw [← filter_eq_completed_iff (hasks i req frame hi hframe) hf (hreqs ▸ AFServer.nodup_timestamps _), hreqs,
      ← harrived ⟨i, hlt⟩ req hi, ← hended]
    rw [List.mem_map]
    constructor
    · rintro ⟨j, hj, hji⟩
      rwa [← show j = ⟨i, hlt⟩ from Fin.ext hji]
    · exact fun hj => ⟨_, hj, rfl⟩

/-- The request handler has got the batches with the numbers `handed` from what `b` has been handed out, each once
and as it was given. -/
def HandedOver (elementSize : Int → Nat) (w : AFWorker) (g : Nat) (po : Postoffice) (a b : NodeId)
    (reqs : List AFTensorRequest) (s : RdmaNet) (handed : List Nat) : Prop :=
  ∃ rs srv effects, (s.served b).mapM (KVServer.process po) = some rs ∧
    AFServer.handleAll elementSize {} rs = some (srv, effects) ∧ handed.Nodup ∧
    List.Forall₂ (fun (i : Nat) m => ∃ req, reqs[i]? = some req ∧
      Hands w g (workerRankToID (po.instanceIDtoGroupRank a)) req m) handed (AFServer.handlerCalls effects)

theorem Turned.exists_handedOver (elementSize : Int → Nat) (h : Turned cfg b (reqs.map AFTensorRequest.timestamps) s)
    (hrun : Run.exec (RdmaNet.step cfg) (init cfg isServer) as = some s) (hg : g < w.po.numServers)
    (hissue : w.issue c tensors = some reqs) (hframed : ∀ PQ ∈ tensors, w.Framed PQ.1 PQ.2)
    (hmsgs : w.messagesTo g reqs = some frames) (hsends : SendsOnly a b frames.flatten as) (po : Postoffice) :
    ∃ handed, HandedOver elementSize w g po a b reqs s handed ∧ ∀ (i : Nat) req, reqs[i]? = some req →
      (i ∈ handed ↔ ∀ t ∈ req.timestamps, t ∈ (s.served b).map (·.msgMeta.timestamp)) := by
  have hframes := AFWorker.frameOf_messagesTo hg hissue hframed hmsgs
  obtain ⟨rs, hmapM, hrs⟩ := h.exists_process po
  obtain ⟨srv, effects, handed, hall, hnd, hcalls, hiff⟩ := exists_handed hg hissue hframed hmsgs
    (fun i req frame hi hframe => by
      obtain ⟨msgs, hfirst, hasks⟩ := h.asks_within hrun hissue hframes hsends hrs hi hframe
      exact forall₂_completed hfirst hasks)
    fun r hr => h.exists_batch hrun hframes hsends hrs hr
  have hts : rs.map (·.1.timestamp) = (s.served b).map (·.msgMeta.timestamp) :=
    (List.map_eq_map_of_forall₂ hrs fun msg r hr => (timestamp_of_process hr).symm).symm
  exact ⟨handed, ⟨rs, srv, effects, hmapM, hall, hnd, hcalls⟩, fun i req hi => hts ▸ hiff i req hi⟩

end batches

theorem Action.IsNetwork.inTurn {act : Action} (hact : act.IsNetwork) (s : RdmaNet) : s.InTurn b batches act := by
  cases act with
  | sendMsg => exact hact.elim
  | _ => trivial

theorem sendsOf_append_network {bs : List Action} (hbs : ∀ act ∈ bs, act.IsNetwork) (n : NodeId) :
    sendsOf n b (as ++ bs) = sendsOf n b as := by
  have hnil : sendsOf n b bs = [] := List.filterMap_eq_nil_iff.mpr fun act hact => by
    have := hbs act hact
    cases act <;> first | rfl | exact this.elim
  rw [sendsOf, List.filterMap_append, ← sendsOf, ← sendsOf, hnil, List.append_nil]

def oneWorker : AFWorker := { po := { numWorkers := 1, numServers := 1 } }

/-- Two bytes under a key. -/
def sampleTensor (key : Key) : KeyTensor :=
  { key := key, val := { storage := 4096, sizes := [2], itemsize := 1, scalarType := 0 } }

/-- The tensor of key 1, and then two tensors in one batch. -/
def samplePulls (k k' : Key) : List (List KeyTensor × List KeyTensor) :=
  [([], [sampleTensor 1]), ([], [sampleTensor k, sampleTensor k'])]

/-- The two batches, as the worker numbers their requests. -/
def sampleRequests : List AFTensorRequest :=
  (oneWorker.issue { appId := 0, customerId := 0 } (samplePulls 1 2)).getD []

def samplePull (ts : Int) (key : Key) (cmd : Int) : Message :=
  oneWorker.sendMsg (AFWorker.zMsg false ts (sampleTensor key) cmd) 0

/-- The first batch is handed out before the second is sent; then what comes first is delivered first. -/
def pullRun (k k' : Key) : List Action :=
  [.sendMsg 9 (samplePull 0 1 0), .deliver ⟨9, 8, 0, false⟩, .pollCQ 8, .deliver ⟨8, 9, 0, true⟩, .pollCQ 9,
    .deliver ⟨9, 8, 0, false⟩, .pollCQ 8, .recvMsg 8, .sendMsg 9 (samplePull 1 k afFlagBatchStart),
    .sendMsg 9 (samplePull 2 k' afFlagBatchEnd), .deliver ⟨9, 8, 0, false⟩, .deliver ⟨9, 8, 0, false⟩, .pollCQ 8,
    .pollCQ 8, .recvMsg 8, .deliver ⟨8, 9, 0, true⟩, .pollCQ 9, .deliver ⟨9, 8, 0, false⟩, .pollCQ 8, .recvMsg 8]

theorem samplePull_fields (ts : Int) (key : Key) (cmd : Int) :
    (samplePull ts key cmd).msgMeta.recver = 8 ∧ isRequest (samplePull ts key cmd) = true ∧
      messageKey (samplePull ts key cmd) = key ∧ (samplePull ts key cmd).msgMeta.push = false :=
  ⟨rfl, rfl, decodeKey_singleton key, rfl⟩

theorem sendsOnly_pullRun (k k' : Key) : SendsOnly 9 8
    [samplePull 0 1 0, samplePull 1 k afFlagBatchStart, samplePull 2 k' afFlagBatchEnd] (pullRun k k') where
  first := by
    simp [sendsOf, pullRun, samplePull_fields]
  others n hn := by
    simp [sendsOf, pullRun, Ne.symm hn]

/-- The known key first. -/
def knownFirst : List Message := [samplePull 0 1 0, samplePull 1 1 afFlagBatchStart, samplePull 2 2 afFlagBatchEnd]

theorem sendable_knownFirst : ∀ m ∈ knownFirst, Sendable m := fun m hm =>
  { len := (by decide : ∀ m ∈ knownFirst, packedLen m.msgMeta < 2 ^ 31) m hm
    fits := fun _ =>
      { ints := (by decide : ∀ m ∈ knownFirst, ∀ v ∈ [m.msgMeta.head, m.msgMeta.appId, m.msgMeta.customerId,
          m.msgMeta.timestamp, m.msgMeta.srcDevId, m.msgMeta.dstDevId, m.msgMeta.dataSize, m.msgMeta.valLen,
          m.msgMeta.option, m.msgMeta.sid, 0], Buf.FitsInt 4 v) m hm
        int8s := (by decide : ∀ m ∈ knownFirst, Buf.FitsInt 1 m.msgMeta.isTensor ∧ Buf.FitsInt 1 m.msgMeta.dtype) m hm
        shape_ints := (by decide : ∀ m ∈ knownFirst, ∀ d ∈ m.msgMeta.shape, Buf.FitsInt 8 d) m hm
        shape_length := (by decide : ∀ m ∈ knownFirst, m.msgMeta.shape.length ≤ 8) m hm
        nodes := by simp
        node_nil := fun _ => rfl
        barrierGroup := by simp
        msgSig := by simp }
    plain := fun hv => absurd ((by decide : ∀ m ∈ knownFirst, isValidPushpull m = true) m hm) (by simp [hv]) }

/-- In the run below, the address of a key is known when all that has been sent has been handed out. -/
def Quiet (s : RdmaNet) : Action → Prop
  | .sendMsg n msg => n = 9 ∧ msg ∈ knownFirst ∧ ((s.vans 9).pullAddr (messageKey msg) 8 = none ∨
      s.poppedFrom 9 8 = List.range s.sent.length ∧ s.posted 9 8 = List.range s.sent.length)
  | _ => True

instance (s : RdmaNet) : ∀ act, Decidable (s.Quiet act)
  | .sendMsg n msg => inferInstanceAs (Decidable (n = 9 ∧ msg ∈ knownFirst ∧
      ((s.vans 9).pullAddr (messageKey msg) 8 = none ∨
        s.poppedFrom 9 8 = List.range s.sent.length ∧ s.posted 9 8 = List.range s.sent.length)))
  | .deliver _ | .pollCQ _ | .recvMsg _ | .store _ _ _ => inferInstanceAs (Decidable True)

theorem Quiet.inTurn {s : RdmaNet} {act : Action} (h : s.Quiet act) (batches : List (List Int)) :
    s.InTurn 8 batches act := by
  cases act with
  | sendMsg n msg =>
    obtain ⟨rfl, hmsg, hquiet⟩ := h
    have hsendable := sendable_knownFirst msg hmsg
    obtain ⟨hrecver, hv, hpush⟩ : msg.msgMeta.recver = 8 ∧ isValidPushpull msg = true ∧ msg.msgMeta.push = false :=
      (by decide : ∀ m ∈ knownFirst, m.msgMeta.recver = 8 ∧ isValidPushpull m = true ∧ m.msgMeta.push = false) msg hmsg
    have hinfo : (s.vans 9).remoteInfo (messageKey msg) msg.msgMeta.push 8 =
        (s.vans 9).pullAddr (messageKey msg) 8 := by
      rw [RdmaVan.remoteInfo, hpush]
      rfl
    have hmem : (s.vans 9).remoteInfo (messageKey msg) msg.msgMeta.push 8 ≠ none → ∀ (u : Nat) x, s.sent[u]? = some x →
        u ∈ s.poppedFrom 9 8 ∧ u ∈ s.posted 9 8 := by
      intro hknown u x hx
      obtain ⟨hpop, hposted⟩ := hquiet.resolve_left (hinfo ▸ hknown)
      have hu := List.mem_range.mpr (List.lt_of_getElem?_eq_some hx)
      rw [hpop, hposted]
      exact ⟨hu, hu⟩
    refine ⟨⟨hsendable, fun hknown => ⟨hsendable, fun _ u x hx _ _ _ _ _ => ?_⟩⟩, fun hv' => ?_, ?_⟩
    · rw [hrecver] at hknown ⊢
      exact (hmem hknown u x hx).1
    · rw [hv] at hv'
      cases hv'
    · exact fun _ hknown batch _ _ u x hx _ _ _ => (hmem hknown u x hx).2
  | _ => trivial

end RdmaNet

end StepMesh
