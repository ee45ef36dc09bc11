import StepMesh.AFServerReorder
import StepMesh.AFWorkerFrames

/-!
# Batches that arrive one after the other

What `ZBatchPushPull_` sends to a server is, message by message, what `KVHandler` takes for one batch, and the
batches of a worker have timestamps of their own (`exists_batches`). So when the messages of a worker arrive in the
order in which they were sent, the request handler gets the batches, one by one and as they were given.
-/

namespace StepMesh

/-- What a request asks for. -/
structure Asked where
  push : Bool
  timestamp : Int
  key : Key
  addr : UInt64
  valLen : Int
  dtype : Int
  shape : List Int
deriving DecidableEq, Repr

def Meta.asked (m : Meta) : Asked := ⟨m.push, m.timestamp, m.key, m.addr, m.valLen, m.dtype, m.shape⟩
def KVMeta.asked (m : KVMeta) : Asked := ⟨m.push, m.timestamp, m.key, m.addr, m.valLen, m.dtype, m.shape⟩

/-- The request for a tensor. -/
def KeyTensor.asked (push : Bool) (ts : Int) (kt : KeyTensor) : Asked :=
  ⟨push, ts, kt.key, .ofNat kt.val.dataPtr, (kt.val.nbytes : Int).bmod (2 ^ 32), kt.val.scalarType,
    kt.val.sizes.map Int.ofNat⟩

/-- `KVHandler` is called with `r` for the message. -/
structure Asks (sender : NodeId) (msg : Message) (r : Request) : Prop where
  asked : r.1.asked = msg.msgMeta.asked
  cmd : r.1.cmd = msg.msgMeta.head
  sender : r.1.sender = sender
  keys : r.2.keys = [msg.msgMeta.key]

/-- The request for a message that is still to come. -/
def expected (sender : NodeId) (msg : Message) : Request :=
  ({ cmd := msg.msgMeta.head, push := msg.msgMeta.push, sender := sender, timestamp := msg.msgMeta.timestamp
     customerId := msg.msgMeta.customerId, key := msg.msgMeta.key, addr := msg.msgMeta.addr
     valLen := msg.msgMeta.valLen, option := msg.msgMeta.option, dtype := msg.msgMeta.dtype
     shape := msg.msgMeta.shape }, { keys := [msg.msgMeta.key] })

theorem asks_expected (sender : NodeId) (msg : Message) : Asks sender msg (expected sender msg) := ⟨rfl, rfl, rfl, rfl⟩

theorem Asks.blob_key {elementSize : Int → Nat} {sender : NodeId} {msg : Message} {r : Request}
    (h : Asks sender msg r) :
    (AFServer.blob elementSize r).key = r.1.asked.key := by
  have hkey : r.1.asked.key = msg.msgMeta.key := congrArg Asked.key h.asked
  simp [AFServer.blob, AFServer.fromBlob, h.keys, hkey]

theorem Asks.blob_push (elementSize : Int → Nat) {sender : NodeId} {msg : Message} {r : Request}
    (h : Asks sender msg r) (hpush : r.1.push = true) :
    (AFServer.blob elementSize r).val.sizes = r.1.asked.shape.map Int.toNat ∧
      (AFServer.blob elementSize r).val.scalarType = r.1.asked.dtype := by
  simp [AFServer.blob, AFServer.fromBlob, h.keys, hpush, KVMeta.asked]

/-! ### The messages of a batch -/

namespace AFWorker

variable {elementSize : Int → Nat} {w : AFWorker} {req : AFTensorRequest} {g : Nat} {sent : List (Nat × Message)}

/-- The requests of a batch to server group `g`, in order. -/
def askedOf (w : AFWorker) (req : AFTensorRequest) (g : Nat) : List Asked :=
  List.zipWith (KeyTensor.asked true) req.pushTimestamps req.push ++
    List.zipWith (KeyTensor.asked false) req.pullTimestamps (w.pullBlock req.pull g)

theorem sendMsg_zMsg_fields (push : Bool) (ts : Int) (kt : KeyTensor) (cmd : Int) :
    (w.sendMsg (zMsg push ts kt cmd) g).msgMeta.asked = kt.asked push ts ∧
      (w.sendMsg (zMsg push ts kt cmd) g).msgMeta.head = cmd ∧
      (w.sendMsg (zMsg push ts kt cmd) g).msgMeta.request = true ∧
      isValidPushpull (w.sendMsg (zMsg push ts kt cmd) g) = true ∧
      (w.sendMsg (zMsg push ts kt cmd) g).keys = [(w.sendMsg (zMsg push ts kt cmd) g).msgMeta.key] := by
  simp [sendMsg, zMsg, Message.addKeys, Message.addData, Meta.asked, KeyTensor.asked, isValidPushpull]

theorem mem_requestsTo {r : Int → Message} (h : r ∈ w.requestsTo req g) :
    ∃ push ts kt, r = fun cmd => w.sendMsg (zMsg push ts kt cmd) g := by
  simp only [requestsTo, List.mem_append, ← List.map_uncurry_zip_eq_zipWith, List.mem_map] at h
  rcases h with ⟨e, -, rfl⟩ | ⟨e, -, rfl⟩
  · exact ⟨true, e.1, e.2, rfl⟩
  · exact ⟨false, e.1, e.2, rfl⟩

theorem map_asked_requestsTo : (w.requestsTo req g).map (fun r => (r 0).msgMeta.asked) = w.askedOf req g := by
  simp only [requestsTo, askedOf, List.map_append, List.map_zipWith, (sendMsg_zMsg_fields ..).1]

theorem WellFramed.map_asked (h : WellFramed w req sent) (hg : g < w.po.numServers) :
    (sentTo g sent).map (·.msgMeta.asked) = w.askedOf req g := by
  obtain ⟨cmds, -, -, hlen, hsent⟩ := h.toServer g hg
  rw [hsent, ← map_asked_requestsTo]
  apply List.ext_getElem
  · simp [hlen]
  · intro i h₁ h₂
    rw [List.length_map] at h₂
    obtain ⟨push, ts, kt, hr⟩ := mem_requestsTo (List.getElem_mem h₂)
    simp only [List.getElem_map, List.getElem_zipWith, hr, (sendMsg_zMsg_fields ..).1]

/-- The messages for a batch to one server. -/
structure FrameOf (req : AFTensorRequest) (frame : List Message) : Prop where
  timestamps : frame.map (·.msgMeta.timestamp) = req.timestamps
  request : ∀ msg ∈ frame, msg.msgMeta.request = true ∧ isValidPushpull msg = true ∧ msg.keys = [msg.msgMeta.key]

theorem map_timestamp_zipWith {push : Bool} {tss : List Int} {kts : List KeyTensor} (hlen : tss.length = kts.length) :
    (List.zipWith (KeyTensor.asked push) tss kts).map Asked.timestamp = tss := by
  rw [← List.map_uncurry_zip_eq_zipWith, List.map_map]
  exact List.map_fst_zip (Nat.le_of_eq hlen)

theorem WellFramed.frameOf (h : WellFramed w req sent) (hg : g < w.po.numServers)
    (hpush : req.pushTimestamps.length = req.push.length)
    (hpull : req.pullTimestamps.length = (w.pullBlock req.pull g).length) : FrameOf req (sentTo g sent) where
  timestamps := by
    have hasked := congrArg (List.map Asked.timestamp) (h.map_asked hg)
    rw [List.map_map, askedOf, List.map_append, map_timestamp_zipWith hpush, map_timestamp_zipWith hpull] at hasked
    exact hasked
  request msg hmsg := by
    obtain ⟨cmds, -, -, hlen, hsent⟩ := h.toServer g hg
    rw [hsent, ← List.map_uncurry_zip_eq_zipWith] at hmsg
    obtain ⟨e, he, rfl⟩ := List.mem_map.mp hmsg
    obtain ⟨push, ts, kt, hr⟩ := mem_requestsTo (List.of_mem_zip he).1
    obtain ⟨-, -, hreq, hv, hkeys⟩ := sendMsg_zMsg_fields (w := w) (g := g) push ts kt e.2
    simp only [Function.uncurry_def, hr]
    exact ⟨hreq, hv, hkeys⟩

theorem BatchFlags.getElem {cmds : List Int} (h : BatchFlags cmds) {k : Nat} (hk : k < cmds.length) :
    cmds[k] = batchFlag cmds.length k := by
  cases h with
  | single =>
    obtain rfl : k = 0 := by simpa using hk
    rfl
  | framed n =>
    simp only [framed_eq_map_range, List.getElem_map, List.getElem_range, List.length_map, List.length_range,
      batchFlag]
    split_ifs <;> first | rfl | omega

/-- The request handler is given the requests of the batch to server group `g`. -/
structure Hands (w : AFWorker) (g : Nat) (sender : NodeId) (req : AFTensorRequest) (m : AFTensorMeta) : Prop where
  sender : m.sender = sender
  push : m.pushMetas.map KVMeta.asked = List.zipWith (KeyTensor.asked true) req.pushTimestamps req.push
  pull : m.pullMetas.map KVMeta.asked =
    List.zipWith (KeyTensor.asked false) req.pullTimestamps (w.pullBlock req.pull g)
  pushTensors : m.pushTensors.map (fun t => (t.key, t.val.sizes, t.val.scalarType)) =
    req.push.map fun t => (t.key, t.val.sizes, t.val.scalarType)
  pullTensors : m.pullTensors.map (·.key) = (w.pullBlock req.pull g).map (·.key)

section requests
variable {sender : NodeId} {rs : List Request}

theorem filter_askedOf (w : AFWorker) (req : AFTensorRequest) (g : Nat) :
    (w.askedOf req g).filter (·.push) = List.zipWith (KeyTensor.asked true) req.pushTimestamps req.push ∧
      (w.askedOf req g).filter (!·.push) =
        List.zipWith (KeyTensor.asked false) req.pullTimestamps (w.pullBlock req.pull g) := by
  have hall : ∀ push tss kts, ∀ x ∈ List.zipWith (KeyTensor.asked push) tss kts, x.push = push := by
    intro push tss kts x hx
    rw [← List.map_uncurry_zip_eq_zipWith] at hx
    obtain ⟨e, -, rfl⟩ := List.mem_map.mp hx
    rfl
  have hpush := hall true req.pushTimestamps req.push
  have hpull := hall false req.pullTimestamps (w.pullBlock req.pull g)
  rw [askedOf, List.filter_append, List.filter_append]
  generalize List.zipWith (KeyTensor.asked true) req.pushTimestamps req.push = xs at *
  generalize List.zipWith (KeyTensor.asked false) req.pullTimestamps (w.pullBlock req.pull g) = ys at *
  rw [List.filter_eq_self.mpr hpush, List.filter_eq_nil_iff.mpr fun y hy => by rw [hpull y hy]; decide,
    List.filter_eq_nil_iff.mpr fun x hx => by rw [hpush x hx]; decide,
    List.filter_eq_self.mpr fun y hy => by rw [hpull y hy]; rfl]
  exact ⟨List.append_nil _, List.nil_append _⟩

theorem map_asked_eq (h : WellFramed w req sent) (hg : g < w.po.numServers)
    (hrs : List.Forall₂ (Asks sender) (sentTo g sent) rs) : rs.map (·.1.asked) = w.askedOf req g := by
  rw [← h.map_asked hg]
  exact (List.map_eq_map_of_forall₂ hrs fun _ _ hask => hask.asked.symm).symm

theorem map_zipWith_asked {β : Type*} {push : Bool} {tss : List Int} {kts : List KeyTensor}
    (hlen : tss.length = kts.length) {f : Asked → β} {g : KeyTensor → β} (hf : ∀ ts kt, f (kt.asked push ts) = g kt) :
    (List.zipWith (KeyTensor.asked push) tss kts).map f = kts.map g := by
  have hsnd : (tss.zip kts).map Prod.snd = kts := List.map_snd_zip (by omega)
  rw [← List.map_uncurry_zip_eq_zipWith, List.map_map]
  conv_rhs => rw [← hsnd, List.map_map]
  exact List.map_congr_left fun e _ => hf e.1 e.2

theorem hands_metaOf (h : WellFramed w req sent) (hg : g < w.po.numServers)
    (hpush : req.pushTimestamps.length = req.push.length)
    (hpull : req.pullTimestamps.length = (w.pullBlock req.pull g).length)
    (hrs : List.Forall₂ (Asks sender) (sentTo g sent) rs) (single : Bool) :
    Hands w g sender req (AFServer.metaOf elementSize sender single rs) := by
  have hasked := map_asked_eq h hg hrs
  obtain ⟨hpushes, hpulls⟩ := filter_askedOf w req g
  rw [← hasked, List.filter_map] at hpushes hpulls
  refine ⟨rfl, (List.map_map ..).trans hpushes, (List.map_map ..).trans hpulls, ?_, ?_⟩
  · rw [← map_zipWith_asked hpush (f := fun x => (x.key, x.shape.map Int.toNat, x.dtype)) fun ts kt => ?_,
      ← hpushes, List.map_map]
    · change ((rs.filter (·.1.push)).map (AFServer.blob elementSize)).map _ = _
      rw [List.map_map]
      refine List.map_congr_left fun r hr => ?_
      obtain ⟨hmem, hp⟩ := List.mem_filter.mp hr
      obtain ⟨msg, -, hmsg⟩ := List.exists_mem_of_forall₂_right hrs hmem
      obtain ⟨hsizes, htype⟩ := hmsg.blob_push elementSize hp
      simp only [Function.comp_apply, hmsg.blob_key, hsizes, htype]
    · simp [KeyTensor.asked, Function.comp_def]
  · rw [← map_zipWith_asked hpull (f := Asked.key) fun ts kt => rfl, ← hpulls, List.map_map]
    change ((rs.filter (!·.1.push)).map (AFServer.blob elementSize)).map _ = _
    rw [List.map_map]
    refine List.map_congr_left fun r hr => ?_
    obtain ⟨msg, -, hmsg⟩ := List.exists_mem_of_forall₂_right hrs (List.mem_filter.mp hr).1
    exact hmsg.blob_key

theorem exists_batch (h : WellFramed w req sent) (hg : g < w.po.numServers) {start : Int}
    (hts : ∀ k (hk : k < (w.askedOf req g).length), ((w.askedOf req g)[k]).timestamp = start + k)
    (hpush : req.pushTimestamps.length = req.push.length)
    (hpull : req.pullTimestamps.length = (w.pullBlock req.pull g).length)
    (hrs : List.Forall₂ (Asks sender) (sentTo g sent) rs) :
    ∃ B : Batch, B.reqs = rs ∧ B.sender = sender ∧ B.start = start ∧
      Hands w g sender req (AFServer.batchMeta elementSize B) := by
  have hasked := map_asked_eq h hg hrs
  have hcmds : rs.map (·.1.cmd) = (sentTo g sent).map (·.msgMeta.head) :=
    (List.map_eq_map_of_forall₂ hrs fun _ _ hask => hask.cmd.symm).symm
  have hflags := h.batchFlags_head hg
  rw [← hcmds] at hflags
  refine ⟨⟨sender, start, rs, ?_, fun r hr => ?_, fun k hk => ?_, fun k hk => ?_, fun r hr => ?_⟩, rfl, rfl, rfl,
    hands_metaOf h hg hpush hpull hrs _⟩
  · rintro rfl
    cases hflags
  · obtain ⟨msg, -, hmsg⟩ := List.exists_mem_of_forall₂_right hrs hr
    exact hmsg.sender
  · have hk' : k < (w.askedOf req g).length := by rw [← hasked, List.length_map]; exact hk
    rw [← hts k hk', List.getElem_of_eq hasked.symm hk', List.getElem_map]
    rfl
  · have hk' : k < (rs.map (·.1.cmd)).length := by rwa [List.length_map]
    simpa only [List.getElem_map, List.length_map] using hflags.getElem hk'
  · obtain ⟨msg, -, hmsg⟩ := List.exists_mem_of_forall₂_right hrs hr
    rw [hmsg.keys]
    exact List.cons_ne_nil _ _

end requests

/-! ### Batch after batch -/

/-- Calls of `ZBatchPushPull` with these pushes and pulls, one after the other: what they queue. -/
def issue (w : AFWorker) : Customer → List (List KeyTensor × List KeyTensor) → Option (List AFTensorRequest)
  | _, [] => some []
  | c, (P, Q) :: batches => do
    let (req, _, _, c) ← w.zBatchPushPull c P Q
    let reqs ← w.issue c batches
    return req :: reqs

/-- What `ZBatchPushPull_` sends to server group `g` for them. -/
def messagesTo (w : AFWorker) (g : Nat) (reqs : List AFTensorRequest) : Option (List (List Message)) :=
  reqs.mapM fun req => (w.zBatchPushPull_ req).map (sentTo g)

/-- The pulls are divided among the servers, and the batch is neither empty nor a single pull from each of several
servers. -/
def Framed (w : AFWorker) (P Q : List KeyTensor) : Prop :=
  w.po.numServers ∣ Q.length ∧ ¬ (P = [] ∧ Q = []) ∧
    ¬ (P = [] ∧ Q.length = w.po.numServers ∧ 2 ≤ w.po.numServers)

theorem zBatchPushPull_eq_some {c c' : Customer} {P Q : List KeyTensor} {handle : Int} {tss : List Int}
    (h : w.zBatchPushPull c P Q = some (req, handle, tss, c')) :
    0 < w.po.numServers ∧ req.push = P ∧ req.pull = Q ∧
      req.pushTimestamps = (List.range P.length).map (fun i => ((c.tracker.length + i : Nat) : Int)) ∧
      req.pullTimestamps = (List.range (Q.length / w.po.numServers)).map
        (fun i => ((c.tracker.length + P.length + i : Nat) : Int)) ∧
      c'.tracker.length = c.tracker.length + P.length + Q.length / w.po.numServers := by
  have hS := servers_of_zBatchPushPull h
  rw [zBatchPushPull_eq hS] at h
  obtain ⟨rfl, -, -, rfl⟩ : _ ∧ _ ∧ _ ∧ _ := by simpa only [Option.some.injEq, Prod.mk.injEq] using h
  exact ⟨hS, rfl, rfl, rfl, rfl, by simp [Nat.add_assoc]⟩

theorem timestamp_askedOf {c c' : Customer} {P Q : List KeyTensor} {handle : Int} {tss : List Int}
    (h : w.zBatchPushPull c P Q = some (req, handle, tss, c')) (hg : g < w.po.numServers) :
    (w.askedOf req g).length = P.length + Q.length / w.po.numServers ∧
      ∀ k (hk : k < (w.askedOf req g).length), ((w.askedOf req g)[k]).timestamp = c.tracker.length + k := by
  obtain ⟨-, rfl, rfl, hpts, hqts, -⟩ := zBatchPushPull_eq_some h
  have hlen : (w.askedOf req g).length = req.push.length + req.pull.length / w.po.numServers := by
    simp [askedOf, hpts, hqts, w.length_pullBlock hg]
  refine ⟨hlen, fun k hk => ?_⟩
  simp only [askedOf, List.getElem_append, List.getElem_zipWith, hpts, hqts]
  split_ifs with hp
  · simp [KeyTensor.asked]
  · simp only [List.length_zipWith, List.length_map, List.length_range, Nat.min_self] at hp
    simp [KeyTensor.asked]
    omega

theorem issue_cons {c : Customer} {P Q : List KeyTensor} {batches : List (List KeyTensor × List KeyTensor)}
    {reqs : List AFTensorRequest} (h : w.issue c ((P, Q) :: batches) = some reqs) :
    ∃ req handle tss c' rest, w.zBatchPushPull c P Q = some (req, handle, tss, c') ∧
      w.issue c' batches = some rest ∧ reqs = req :: rest := by
  obtain ⟨⟨req, handle, tss, c'⟩, hreq, h⟩ := Option.bind_eq_some_iff.mp h
  obtain ⟨rest, hrest, h⟩ := Option.bind_eq_some_iff.mp h
  exact ⟨req, handle, tss, c', rest, hreq, hrest, (Option.some.inj h).symm⟩

theorem messagesTo_cons {reqs : List AFTensorRequest} {frames : List (List Message)}
    (h : w.messagesTo g (req :: reqs) = some frames) :
    ∃ sent rest, w.zBatchPushPull_ req = some sent ∧ w.messagesTo g reqs = some rest ∧
      frames = sentTo g sent :: rest := by
  rw [messagesTo, List.mapM_cons] at h
  obtain ⟨frame, hframe, h⟩ := Option.bind_eq_some_iff.mp h
  obtain ⟨rest, hrest, h⟩ := Option.bind_eq_some_iff.mp h
  obtain ⟨sent, hsent, rfl⟩ := Option.map_eq_some_iff.mp hframe
  exact ⟨sent, rest, hsent, hrest, (Option.some.inj h).symm⟩

theorem Framed.wellFramed {c c' : Customer} {P Q : List KeyTensor} {handle : Int} {tss : List Int} (h : w.Framed P Q)
    (hreq : w.zBatchPushPull c P Q = some (req, handle, tss, c')) (hsent : w.zBatchPushPull_ req = some sent) :
    WellFramed w req sent := by
  obtain ⟨hS, rfl, rfl, hpts, hqts, -⟩ := zBatchPushPull_eq_some hreq
  obtain ⟨hdvd, hne, heach⟩ := h
  have hpos : 0 < req.push.length + req.pull.length := by
    by_contra hzero
    exact hne ⟨List.length_eq_zero_iff.mp (by omega), List.length_eq_zero_iff.mp (by omega)⟩
  obtain ⟨sent', hsent', hwf⟩ :=
    (exists_wellFramed_iff hS hdvd hpos (by simp [hpts]) (by simp [hqts])).mpr heach
  obtain rfl := Option.some.inj (hsent.symm.trans hsent')
  exact hwf

theorem mem_timestamps {c c' : Customer} {P Q : List KeyTensor} {handle : Int} {tss : List Int}
    (h : w.zBatchPushPull c P Q = some (req, handle, tss, c')) {t : Int} :
    t ∈ req.timestamps ↔ c.tracker.length ≤ t ∧ t < c'.tracker.length := by
  obtain ⟨-, -, -, hpts, hqts, hc'⟩ := zBatchPushPull_eq_some h
  simp only [AFTensorRequest.timestamps, hpts, hqts, List.mem_append, List.mem_map, List.mem_range, hc']
  generalize Q.length / w.po.numServers = q
  constructor
  · rintro (⟨i, hi, rfl⟩ | ⟨i, hi, rfl⟩) <;> omega
  · rintro ⟨hle, hlt⟩
    by_cases hp : t < c.tracker.length + P.length
    · exact .inl ⟨(t - c.tracker.length).toNat, by omega, by omega⟩
    · exact .inr ⟨(t - c.tracker.length - P.length).toNat, by omega, by omega⟩

/-- No two batches share a timestamp. -/
theorem timestamps_issue {batches : List (List KeyTensor × List KeyTensor)} {c : Customer}
    {reqs : List AFTensorRequest} (h : w.issue c batches = some reqs) :
    (∀ req ∈ reqs, ∀ t ∈ req.timestamps, (c.tracker.length : Int) ≤ t) ∧
      reqs.Pairwise fun req req' => ∀ t ∈ req.timestamps, t ∉ req'.timestamps := by
  induction batches generalizing c reqs with
  | nil =>
    obtain rfl := Option.some.inj h
    exact ⟨fun _ h => (nomatch h), .nil⟩
  | cons PQ batches ih =>
    obtain ⟨req, handle, tss, c', reqs, hreq, hissue, rfl⟩ := issue_cons h
    obtain ⟨hfrom, hpair⟩ := ih hissue
    have hmono : c.tracker.length ≤ c'.tracker.length := by
      obtain ⟨-, -, -, -, -, hc'⟩ := zBatchPushPull_eq_some hreq
      rw [hc', Nat.add_assoc]
      exact Nat.le_add_right ..
    refine ⟨List.forall_mem_cons.mpr ⟨fun t ht => ((mem_timestamps hreq).mp ht).1, fun req' hreq' t ht => ?_⟩,
      List.pairwise_cons.mpr ⟨fun req' hreq' t ht ht' => ?_, hpair⟩⟩
    · have := hfrom req' hreq' t ht
      omega
    · exact Int.not_le.mpr ((mem_timestamps hreq).mp ht).2 (hfrom req' hreq' t ht')

theorem timestamps_unique {batches : List (List KeyTensor × List KeyTensor)} {c : Customer}
    {reqs : List AFTensorRequest} (h : w.issue c batches = some reqs) {i j : Nat} {req req' : AFTensorRequest}
    (hi : reqs[i]? = some req) (hj : reqs[j]? = some req') {t : Int} (ht : t ∈ req.timestamps)
    (ht' : t ∈ req'.timestamps) : i = j := by
  have hpair := List.pairwise_iff_getElem.mp (timestamps_issue h).2
  obtain ⟨hil, rfl⟩ := List.getElem?_eq_some_iff.mp hi
  obtain ⟨hjl, rfl⟩ := List.getElem?_eq_some_iff.mp hj
  rcases Nat.lt_trichotomy i j with hlt | heq | hlt
  · exact absurd ht' (hpair i j hil hjl hlt t ht)
  · exact heq
  · exact absurd ht (hpair j i hjl hil hlt t ht')

theorem frameOf_messagesTo {batches : List (List KeyTensor × List KeyTensor)} {c : Customer}
    {reqs : List AFTensorRequest} {frames : List (List Message)} (hg : g < w.po.numServers)
    (hissue : w.issue c batches = some reqs) (hframed : ∀ PQ ∈ batches, w.Framed PQ.1 PQ.2)
    (hmsgs : w.messagesTo g reqs = some frames) : List.Forall₂ FrameOf reqs frames := by
  induction batches generalizing c reqs frames with
  | nil =>
    obtain rfl := Option.some.inj hissue
    obtain rfl := Option.some.inj hmsgs
    exact .nil
  | cons PQ batches ih =>
    obtain ⟨hfirst, hrest⟩ := List.forall_mem_cons.mp hframed
    obtain ⟨req, handle, tss, c', reqs, hreq, hissue', rfl⟩ := issue_cons hissue
    obtain ⟨sent, frames, hsent, hmsgs', rfl⟩ := messagesTo_cons hmsgs
    obtain ⟨-, hpush, hpull, hpts, hqts, -⟩ := zBatchPushPull_eq_some hreq
    refine .cons ((hfirst.wellFramed hreq hsent).frameOf hg (by simp [hpts, hpush]) ?_) (ih hissue' hrest hmsgs')
    simp [hqts, hpull, w.length_pullBlock hg]

/-- The messages of the batches are the requests of batches to the server. -/
theorem exists_batches (elementSize : Int → Nat) {sender : NodeId}
    {batches : List (List KeyTensor × List KeyTensor)} {c : Customer} {reqs : List AFTensorRequest}
    {frames : List (List Message)} {rss : List (List Request)}
    (hg : g < w.po.numServers) (hissue : w.issue c batches = some reqs)
    (hframed : ∀ PQ ∈ batches, w.Framed PQ.1 PQ.2) (hmsgs : w.messagesTo g reqs = some frames)
    (hrss : List.Forall₂ (List.Forall₂ (Asks sender)) frames rss) :
    ∃ Bs : List Batch, Bs.map Batch.reqs = rss ∧
      (∀ B ∈ Bs, B.sender = sender ∧ c.tracker.length ≤ B.start) ∧
      Bs.Pairwise (fun B B' : Batch => B.start + B.reqs.length ≤ B'.start) ∧
      List.Forall₂ (Hands w g sender) reqs (Bs.map (AFServer.batchMeta elementSize)) := by
  induction batches generalizing c reqs frames rss with
  | nil =>
    obtain rfl := Option.some.inj hissue
    obtain rfl := Option.some.inj hmsgs
    obtain rfl := List.forall₂_nil_left_iff.mp hrss
    exact ⟨[], rfl, fun _ h => (nomatch h), .nil, .nil⟩
  | cons PQ batches ih =>
    obtain ⟨hfirst, hrest⟩ := List.forall_mem_cons.mp hframed
    obtain ⟨req, handle, tss, c', reqs, hreq, hissue', rfl⟩ := issue_cons hissue
    obtain ⟨sent, frames, hsent, hmsgs', rfl⟩ := messagesTo_cons hmsgs
    obtain ⟨rs, rss, hrs, hrss', rfl⟩ := List.forall₂_cons_left_iff.mp hrss
    obtain ⟨Bs, rfl, hfrom, hpair, hhands⟩ := ih hissue' hrest hmsgs' hrss'
    obtain ⟨-, hpush, hpull, hpts, hqts, hc'⟩ := zBatchPushPull_eq_some hreq
    obtain ⟨hlen, hts⟩ := timestamp_askedOf hreq hg
    have hwf := hfirst.wellFramed hreq hsent
    obtain ⟨B, rfl, hsender, hstart, hhand⟩ := exists_batch hwf hg hts (by simp [hpts, hpush])
      (by simp [hqts, hpull, w.length_pullBlock hg]) hrs
    have hreqs : B.reqs.length = PQ.1.length + PQ.2.length / w.po.numServers := by
      rw [← hlen, ← map_asked_eq hwf hg hrs, List.length_map]
    refine ⟨B :: Bs, rfl, ?_, ?_, .cons hhand hhands⟩
    · refine List.forall_mem_cons.mpr ⟨⟨hsender, Int.le_of_eq hstart.symm⟩, fun B' hB' => ⟨(hfrom B' hB').1, ?_⟩⟩
      have := (hfrom B' hB').2
      omega
    · refine List.pairwise_cons.mpr ⟨fun B' hB' => ?_, hpair⟩
      have := (hfrom B' hB').2
      omega

end AFWorker

/-! ### The server -/

namespace AFServer

theorem nodup_timestamps (B : Batch) : (B.reqs.map (·.1.timestamp)).Nodup := by
  have heq : B.reqs.map (·.1.timestamp) = (List.range B.reqs.length).map fun k : Nat => B.start + k := by
    refine List.ext_getElem (by simp) fun k hk _ => ?_
    rw [List.length_map] at hk
    simpa using B.timestamp_eq k hk
  rw [heq]
  exact List.nodup_range.map fun i j (hij : B.start + (i : Int) = B.start + j) => by omega

theorem distinctTimestamps_get {Bs : List Batch}
    (h : Bs.Pairwise (fun B B' : Batch => B.start + B.reqs.length ≤ B'.start)) : DistinctTimestamps Bs.get := by
  intro i j hij _
  have hpair := List.pairwise_iff_getElem.mp h
  rcases Nat.lt_trichotomy i j with hlt | heq | hlt
  · exact .inl (hpair i j i.2 j.2 hlt)
  · exact absurd (Fin.ext heq) hij
  · exact .inr (hpair j i j.2 i.2 hlt)

end AFServer

end StepMesh
