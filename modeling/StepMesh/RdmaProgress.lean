import Mathlib.Tactic.IntervalCases
import StepMesh.Lib.Progress
import StepMesh.RdmaChecks

/-!
# Every message is handed out in the end

Each step of nodes and adapters lowers the load of the network (`load_lt`), and as long as anything is under way one
of them is possible. So a message is handed out however these steps are scheduled, unless a check fails
(`inevitably_popped`).
-/

namespace StepMesh

open Queues

/-- A bound of the steps that a work request causes: it is delivered, its completion is taken, what is posted then is
delivered, and so on. -/
def WorkRequest.weight : WorkRequest → Nat
  | .rendezvousStart _ => 13
  | .rendezvousReply _ => 11
  | _ => 3

def Completion.weight : Completion → Nat
  | .recvStart _ => 12
  | .recvReply _ => 10
  | .recvImm .. => 2

namespace RdmaVan

variable {cfg : RdmaCfg} {van van' : RdmaVan} {msg : Message} {t : RemoteTuple} {ep : NodeId} {out : Posted} {uid : Nat}

theorem weight_receive (van : RdmaVan) (ram : Buf) (wr : WorkRequest) :
    ((van.receive ram wr).2.toList.map Completion.weight).sum < wr.weight := by
  cases wr <;> simp [receive, WorkRequest.weight, Completion.weight]

/-- A payload, a meta and at most one chunk. -/
theorem weight_writePayload (hq : cfg.qpNum ≤ 2) (van : RdmaVan) (ep : NodeId) (t : RemoteTuple) (dst : RemoteAddr)
    (src len uid : Nat) : ((van.writePayload cfg ep t dst src len uid).2.map (·.2.weight)).sum ≤ 9 := by
  cases hm : cfg.multiQp with
  | false => simp [writePayload, hm, rdmaWriteWithImm, WorkRequest.weight]
  | true =>
    obtain ⟨first, chunk, -, heq⟩ := writePayload_split hm hq van ep t dst src len uid
    rw [heq]
    split_ifs <;> simp [rdmaWriteWithImm, WorkRequest.weight]

theorem weight_of_reply (hq : cfg.qpNum ≤ 2)
    (h : (if isValidPushpull msg then van.sendByKind cfg ep msg t uid else some (van, [van.rdmaWriteWithImm t uid])) =
      some (van', out)) : (out.map (·.2.weight)).sum ≤ 9 := by
  have hmeta : ([van.rdmaWriteWithImm t uid].map (·.2.weight)).sum ≤ 9 := by
    simp [rdmaWriteWithImm, WorkRequest.weight]
  split_ifs at h
  · rcases sendByKind_eq_some h with ⟨-, heq⟩ | ⟨-, dst, src, -, heq⟩
    · obtain ⟨-, rfl⟩ := Prod.mk.inj heq
      exact hmeta
    · rw [show out = _ from congrArg Prod.snd heq]
      exact weight_writePayload hq ..
  · obtain ⟨-, rfl⟩ := Prod.mk.inj (Option.some.inj h)
    exact hmeta

end RdmaVan

namespace RdmaNet

open RdmaVan

variable {cfg : RdmaCfg} {isServer : NodeId → Bool} {s s' : RdmaNet} {n a b : NodeId} {act : Action}

/-! ### The load -/

/-- Only finitely many queues hold anything. -/
structure Sparse (s : RdmaNet) : Prop where
  chan : Bounded s.chan
  cq : Bounded s.cq
  recv : Bounded fun n => (s.vans n).recvBuffers

/-- A bound of the steps that nodes and adapters can take. -/
noncomputable def load (s : RdmaNet) : Nat :=
  total WorkRequest.weight s.chan + total (fun e => e.2.weight) s.cq +
    total (fun _ => 1) fun n => (s.vans n).recvBuffers

theorem sparse_init (cfg : RdmaCfg) (isServer : NodeId → Bool) : Sparse (init cfg isServer) := by
  refine ⟨?_, ?_, ?_⟩ <;> simp [Bounded, init, RdmaVan.init]

theorem chan_post_cons (s : RdmaNet) (a b : NodeId) (p : Nat × WorkRequest) (out : Posted) :
    (s.post a b (p :: out)).chan = ((s.post a b [p]).post a b out).chan := by
  funext l
  simp only [post, List.append_assoc]
  split_ifs
  · rw [← List.map_append, ← List.filter_append, List.singleton_append]
  · rfl

theorem bounded_post (h : Bounded s.chan) (a b : NodeId) (out : Posted) : Bounded (s.post a b out).chan := by
  induction out generalizing s with
  | nil => rwa [post_nil]
  | cons p out ih =>
    rw [chan_post_cons]
    refine ih ?_
    rw [chan_post_single]
    exact h.update _ _

theorem total_post (h : Bounded s.chan) (a b : NodeId) (out : Posted) :
    total WorkRequest.weight (s.post a b out).chan = total WorkRequest.weight s.chan + (out.map (·.2.weight)).sum := by
  induction out generalizing s with
  | nil => rw [post_nil, List.map_nil, List.sum_nil, Nat.add_zero]
  | cons p out ih =>
    obtain ⟨q, wr⟩ := p
    have hone : total WorkRequest.weight (s.post a b [(q, wr)]).chan = total WorkRequest.weight s.chan + wr.weight := by
      rw [chan_post_single, total_append WorkRequest.weight h, List.map_singleton, List.sum_singleton]
    rw [chan_post_cons, ih (bounded_post h a b [(q, wr)]), hone, List.map_cons, List.sum_cons, Nat.add_assoc]

theorem recvBuffers_update (s : RdmaNet) (n : NodeId) (van : RdmaVan) :
    (fun c => (Function.update s.vans n van c).recvBuffers) =
      Function.update (fun c => (s.vans c).recvBuffers) n van.recvBuffers :=
  Function.comp_update RdmaVan.recvBuffers s.vans n van

theorem Sparse.of_step {van : RdmaVan} (h : Sparse s) (hvans : s'.vans = Function.update s.vans n van)
    (hchan : Bounded s'.chan) (hcq : Bounded s'.cq) : Sparse s' := by
  refine ⟨hchan, hcq, ?_⟩
  rw [hvans, recvBuffers_update]
  exact h.recv.update _ _

theorem sparse_step (h : Sparse s) (hs : step cfg s act = some s') : Sparse s' := by
  cases acts_of_step hs with
  | first => exact h.of_step rfl (bounded_post (s := s.setVan _ _) h.chan ..) h.cq
  | cached => exact h.of_step rfl (bounded_post (s := s.setVan _ _) h.chan ..) h.cq
  | deliver => exact h.of_step rfl (h.chan.update _ _) (h.cq.update _ _)
  | start => exact h.of_step rfl (bounded_post (s := s.setVan _ _) h.chan ..) (h.cq.update _ _)
  | reply => exact h.of_step rfl (bounded_post (s := s.setVan _ _) h.chan ..) (h.cq.update _ _)
  | imm => exact h.of_step rfl h.chan (h.cq.update _ _)
  | pop => exact h.of_step rfl h.chan h.cq
  | store => exact h.of_step rfl h.chan h.cq

theorem load_lt_of {van : RdmaVan} {c d p q : Nat} (h : Sparse s) (hvans : s'.vans = Function.update s.vans n van)
    (hchan : total WorkRequest.weight s'.chan + c = total WorkRequest.weight s.chan + d)
    (hcq : total (fun e => e.2.weight) s'.cq + p = total (fun e => e.2.weight) s.cq + q)
    (hlt : d + q + van.recvBuffers.length < c + p + (s.vans n).recvBuffers.length) : s'.load < s.load := by
  have hrecv := total_update (fun _ => 1) h.recv n van.recvBuffers
  rw [← recvBuffers_update, ← hvans] at hrecv
  simp only [List.map_const', List.sum_replicate, smul_eq_mul, Nat.mul_one] at hrecv
  simp only [load]
  omega

theorem load_lt (hq : cfg.qpNum ≤ 2) (h : Sparse s) (hact : act.IsNetwork) (hs : step cfg s act = some s') :
    s'.load < s.load := by
  cases acts_of_step hs with
  | first | cached | store => exact hact.elim
  | @deliver l wr rest hchan =>
    refine load_lt_of (c := wr.weight) (d := 0) (p := 0) h rfl (total_tail WorkRequest.weight h.chan hchan)
      (total_append (fun e => e.2.weight) h.cq ..) ?_
    rw [(receive_frame ..).1, Option.toList_map, List.map_map, Nat.zero_add]
    exact Nat.add_lt_add_right (weight_receive (s.vans l.dst) (s.vans l.src).ram wr) _
  | @start n ep req rest van out hcq hreply =>
    refine load_lt_of (c := 0) (p := 12) (q := 0) h rfl (total_post (s := s.setVan n van) h.chan n ep out)
      (total_tail (fun e => e.2.weight) h.cq hcq) ?_
    obtain ⟨_, resp, _, -, -, -, -, -, -, ⟨_, _, rfl⟩, rfl⟩ := sendRendezvousReply_eq_some hreply
    simp [WorkRequest.weight, alloc]
  | @reply n ep resp rest uid m van out hcq hcache hsend =>
    refine load_lt_of (c := 0) (p := 10) (q := 0) h rfl
      (total_post (s := s.setVan n (van.releaseFirstMsg resp.originAddr)) h.chan n ep out)
      (total_tail (fun e => e.2.weight) h.cq hcq) ?_
    have hle := weight_of_reply hq hsend
    obtain ⟨_, _, hinfo⟩ := storeRemoteAndLocalInfo_frame (s.vans n) m resp.remoteTuple
    rw [hinfo] at hsend
    obtain ⟨_, _, rfl⟩ := (written_of_reply hsend).1
    simp only [releaseFirstMsg, withInline, setMsgBuf]
    omega
  | @imm n ep imm u rest van hcq himm =>
    refine load_lt_of (c := 0) (d := 0) (p := 2) (q := 0) h rfl rfl (total_tail (fun e => e.2.weight) h.cq hcq) ?_
    rcases recvImm_eq_some himm with ⟨-, rfl⟩ | ⟨-, _, _, -, -, rfl⟩
    · simp
    · simp only [List.length_append, List.length_singleton]
      omega
  | @pop n note msg rest hbufs hrecv =>
    refine load_lt_of (c := 0) (d := 0) (p := 0) (q := 0) h rfl rfl rfl ?_
    rw [hbufs]
    simp

/-! ### Handed out in the end -/

/-- The invariant of the runs in which a known address is used after the earlier messages have been handed out. -/
structure Alive (cfg : RdmaCfg) (s : RdmaNet) : Prop where
  ok : NetOk cfg s
  ready : AllReady s
  sparse : Sparse s
  counted : cfg.qpNum ≤ 2 → Small s → Counted s

theorem alive_init (cfg : RdmaCfg) (isServer : NodeId → Bool) : Alive cfg (init cfg isServer) where
  ok := netOk_init cfg isServer
  ready := allReady_init cfg isServer
  sparse := sparse_init cfg isServer
  counted _ _ := counted_init cfg isServer

theorem Small.anti (h : Small s') (hsent : s.sent <+: s'.sent) : Small s where
  sent := Nat.lt_of_le_of_lt hsent.length_le h.sent
  shape x hx := h.shape x (hsent.subset hx)

theorem Alive.step (hp : 0 < cfg.pagesize) (hbits : cfg.poolSize ≤ 0x8000) (h : Alive cfg s)
    (hord : s.OrderedIfKnown act) (hs : step cfg s act = some s') : Alive cfg s' where
  ok := h.ok.step hp hbits hord hs
  ready := allReady_step h.ready h.ok (h.ok.step hp hbits hord hs) hs
  sparse := sparse_step h.sparse hs
  counted hq hsmall := counted_step hq hbits (h.counted hq (hsmall.anti (sent_grows hs))) h.ok hsmall hs

theorem Action.IsNetwork.ordered (hact : act.IsNetwork) (s : RdmaNet) : s.OrderedIfKnown act := by
  cases act with
  | sendMsg => exact hact.elim
  | _ => trivial

theorem Action.IsNetwork.sent_eq (hact : act.IsNetwork) (hs : RdmaNet.step cfg s act = some s') : s'.sent = s.sent := by
  cases acts_of_step hs with
  | first | cached => exact hact.elim
  | _ => rfl

/-- However nodes and adapters go on, every message is handed out, unless a check of theirs fails. -/
theorem Alive.inevitably_popped (hp : 0 < cfg.pagesize) (hbits : cfg.poolSize ≤ 0x8000) (hq : cfg.qpNum ≤ 2)
    (h : Alive cfg s) (hsmall : Small s) (hchecks : Checks cfg s) :
    Run.Inevitable (RdmaNet.step cfg) Action.IsNetwork (Checks cfg)
      (fun t => ∀ (u : Nat) x, s.sent[u]? = some x → u ∈ t.poppedFrom x.sender x.msg.msgMeta.recver) s := by
  refine .of_measure (fun t => Alive cfg t ∧ t.sent = s.sent) load (fun t act t' ht hact hs => ?_)
    (fun t ht hchecks => ?_) ⟨h, rfl⟩ hchecks
  · obtain ⟨ht, hsent⟩ := ht
    exact ⟨⟨ht.step hp hbits (hact.ordered t) hs, (hact.sent_eq hs).trans hsent⟩, load_lt hq ht.sparse hact hs⟩
  · obtain ⟨ht, hsent⟩ := ht
    have hsmall' : Small t := hsmall.anti (hsent ▸ List.prefix_refl _)
    rcases exists_step hp hbits ht.ready ht.ok (ht.counted hq hsmall') hchecks with hstep | ⟨hchan, hcq, hbufs⟩
    · exact .inr hstep
    · exact .inl fun u x hx => ht.ok.popped_of_empty hchan hcq hbufs (hsent ▸ hx)

/-- The node whose van and completion queue an action may change. -/
def Action.node : Action → NodeId
  | .sendMsg n _ | .pollCQ n | .recvMsg n | .store n _ _ => n
  | .deliver l => l.dst

theorem frame_of_step (hs : step cfg s act = some s') {c : NodeId} (hc : c ≠ act.node) :
    s'.vans c = s.vans c ∧ s'.cq c = s.cq c := by
  cases acts_of_step hs <;> first
    | exact ⟨Function.update_of_ne hc .., rfl⟩
    | exact ⟨Function.update_of_ne hc .., Function.update_of_ne hc ..⟩

theorem idle_of_exec (nodes : List NodeId) {as : List Action} (hnodes : ∀ a ∈ as, a.node ∈ nodes)
    (hrun : Run.exec (step cfg) (init cfg isServer) as = some s)
    (hidle : ∀ n ∈ nodes, s.cq n = [] ∧ (s.vans n).recvBuffers = []) (n : NodeId) :
    s.cq n = [] ∧ (s.vans n).recvBuffers = [] := by
  by_cases hn : n ∈ nodes
  · exact hidle n hn
  · refine Run.exec_induction (fun _ t => t.cq n = [] ∧ (t.vans n).recvBuffers = [])
      (fun as => ∀ a ∈ as, a.node ∈ nodes) (fun as a h a' ha' => h a' (List.mem_append_left _ ha')) ⟨rfl, rfl⟩
      (fun as a t t' has ht hs => ?_) hnodes hrun
    have hne : n ≠ a.node := fun heq => hn (heq ▸ has a (List.mem_append_right _ (List.mem_singleton_self a)))
    obtain ⟨hvan, hcq⟩ := frame_of_step hs hne
    rw [hvan, hcq]
    exact ht

theorem checks_of_idle (cfg : RdmaCfg) (h : ∀ n, s.cq n = [] ∧ (s.vans n).recvBuffers = []) : Checks cfg s where
  start n ep req rest hcq := by simp [h n] at hcq
  reply n ep resp rest uid m hcq := by simp [h n] at hcq
  recv n note rest x hbufs := by simp [h n] at hbufs

theorem sendable_samplePush : Sendable (samplePush 64 16) where
  len := by decide
  fits _ :=
    { ints := by decide, int8s := by decide, shape_ints := by decide, shape_length := by decide
      nodes := by simp, node_nil := fun _ => rfl, barrierGroup := by decide, msgSig := by decide }
  plain hv := absurd hv (by decide)

/-- Two pushes with one key, the second after the first has been handed out. -/
def twoPushes : List Action :=
  pushRun ++ [.deliver ⟨8, 9, 0, true⟩, .pollCQ 9, .deliver ⟨9, 8, 0, false⟩, .deliver ⟨9, 8, 0, false⟩, .pollCQ 8,
    .recvMsg 8, .sendMsg 9 (samplePush 64 16), .deliver ⟨9, 8, 0, false⟩, .deliver ⟨9, 8, 0, false⟩, .pollCQ 8,
    .recvMsg 8]

theorem ordered_twoPushes {before : List Action} {a : Action} {t : RdmaNet} (hpre : before ++ [a] <+: twoPushes)
    (ht : Run.exec (step sampleCfg) (init sampleCfg (· = 8)) before = some t) : t.Ordered a := by
  have hsecond : (Run.exec (step sampleCfg) (init sampleCfg (· = 8)) (twoPushes.take 9)).map
      (fun t => (t.sent.length, t.poppedFrom 9 8)) = some (1, [0]) := by decide +kernel
  cases a with
  | sendMsg n msg =>
    have hlen : before.length < 14 := by
      have hle := hpre.length_le
      rwa [List.length_append] at hle
    obtain ⟨rest, hrest⟩ := hpre
    have ha : twoPushes[before.length]? = some (.sendMsg n msg) := by simp [← hrest]
    have htake : before = twoPushes.take before.length := by simp [← hrest]
    obtain ⟨hk, rfl, rfl⟩ : (before.length = 0 ∨ before.length = 9) ∧ n = 9 ∧ msg = samplePush 64 16 := by
      clear hrest htake ht
      generalize before.length = k at *
      interval_cases k <;> simp_all [twoPushes, pushRun]
    refine ⟨sendable_samplePush, fun _ u x hx _ _ _ _ _ => ?_⟩
    rcases hk with hk | hk
    · rw [List.length_eq_zero_iff.mp hk] at ht
      obtain rfl := Option.some.inj ht
      cases hx
    · rw [htake, hk] at ht
      rw [ht] at hsecond
      obtain ⟨hone, hpop⟩ : t.sent.length = 1 ∧ t.poppedFrom 9 8 = [0] := by simpa using hsecond
      have hu := List.lt_of_getElem?_eq_some hx
      rw [hone] at hu
      obtain rfl := Nat.lt_one_iff.mp hu
      rw [show (samplePush 64 16).msgMeta.recver = 8 from rfl, hpop]
      exact List.mem_singleton_self 0
  | _ => trivial

end RdmaNet

end StepMesh
