import StepMesh.AFServer
import StepMesh.AFWorker

/-!
# Instances of a group (`include/ps/internal/postoffice.h`, `include/ps/kv_app.h`)

Workers and servers run in groups of `group_size` instances, each with its own id. Instance `i` of a worker
group sends its requests to instance `i` of every server group, which knows the worker by the rank of its
group and answers instance `i` of that group. All conversions between ids and ranks are inverse to each
other where they are used (`instance_routing`).
-/

namespace StepMesh

namespace KVServer

/-- `RegisterRecvBuffer_`: the message handed to the van, which files the buffer under its sender. -/
def registerRecvBuffer_ (workerId : NodeId) (keys : List Key) (vals : SArray) (lens : List Int)
    (cmd : Int := 0) : Option Message := do
  let msg : Message := { msgMeta := { request := true, push := true, head := cmd, sender := workerId } }
  let key ← keys.head?
  let msg := (msg.addKeys keys).addData .other vals
  guard (lens ≠ [])
  let msg := msg.addLens lens
  return { msg with msgMeta := { msg.msgMeta with key := key } }

/-- `RegisterRecvBufferWithRank`; the command is not passed on. -/
def registerRecvBufferWithRank (po : Postoffice) (workerRank : Int) (keys : List Key) (vals : SArray)
    (lens : List Int) (_cmd : Int) : Option Message :=
  registerRecvBuffer_ (po.groupWorkerRankToInstanceID workerRank po.instanceIdx) keys vals lens

end KVServer

/-! ### Ids and ranks -/

namespace Postoffice

variable (po : Postoffice)

theorem groupWorkerRankToInstanceID_eq (r i : Nat) :
    po.groupWorkerRankToInstanceID r i = workerRankToID (r * po.groupSize + i : Nat) := by
  simp [groupWorkerRankToInstanceID]

theorem groupServerRankToInstanceID_eq (r i : Nat) :
    po.groupServerRankToInstanceID r i = serverRankToID (r * po.groupSize + i : Nat) := by
  simp [groupServerRankToInstanceID]

variable {po} {r i r' i' : Nat}

theorem instanceIDtoGroupRank_groupWorkerRankToInstanceID (hi : i < po.groupSize) :
    po.instanceIDtoGroupRank (po.groupWorkerRankToInstanceID r i) = r := by
  have hpos : 0 < po.groupSize := Nat.zero_lt_of_lt hi
  rw [groupWorkerRankToInstanceID_eq, instanceIDtoGroupRank_workerRankToID, Nat.mul_comm,
    Nat.mul_add_div hpos, Nat.div_eq_of_lt hi, Nat.add_zero]

theorem instance_rank_inj (hi : i < po.groupSize) (hi' : i' < po.groupSize)
    (h : r * po.groupSize + i = r' * po.groupSize + i') : r = r' ∧ i = i' := by
  have hpos : 0 < po.groupSize := Nat.zero_lt_of_lt hi
  have hr : r = r' := by
    have := congrArg (· / po.groupSize) h
    simpa [Nat.add_comm, Nat.add_mul_div_right _ _ hpos, Nat.div_eq_of_lt hi, Nat.div_eq_of_lt hi'] using this
  subst hr
  exact ⟨rfl, Nat.add_left_cancel h⟩

theorem exists_instance_rank {n k : Nat} :
    k < n * po.groupSize ↔ ∃ r < n, ∃ i < po.groupSize, r * po.groupSize + i = k := by
  constructor
  · intro hk
    have hpos : 0 < po.groupSize := Nat.pos_of_mul_pos_left (Nat.zero_lt_of_lt hk)
    exact ⟨k / po.groupSize, (Nat.div_lt_iff_lt_mul hpos).mpr hk, k % po.groupSize, Nat.mod_lt _ hpos,
      Nat.div_add_mod' ..⟩
  · rintro ⟨r, hr, i, hi, rfl⟩
    calc r * po.groupSize + i < r * po.groupSize + po.groupSize := Nat.add_lt_add_left hi _
      _ = (r + 1) * po.groupSize := (Nat.succ_mul ..).symm
      _ ≤ n * po.groupSize := Nat.mul_le_mul_right _ hr

theorem mem_workerIds {id : NodeId} : id ∈ po.workerIds ↔
    ∃ r < po.numWorkers, ∃ i < po.groupSize, id = po.groupWorkerRankToInstanceID r i := by
  simp only [workerIds, List.mem_map, List.mem_range, exists_instance_rank, groupWorkerRankToInstanceID_eq]
  constructor
  · rintro ⟨k, ⟨r, hr, i, hi, rfl⟩, rfl⟩
    exact ⟨r, hr, i, hi, rfl⟩
  · rintro ⟨r, hr, i, hi, rfl⟩
    exact ⟨_, ⟨r, hr, i, hi, rfl⟩, rfl⟩

theorem mem_serverIds {id : NodeId} : id ∈ po.serverIds ↔
    ∃ r < po.numServers, ∃ i < po.groupSize, id = po.groupServerRankToInstanceID r i := by
  simp only [serverIds, List.mem_map, List.mem_range, exists_instance_rank, groupServerRankToInstanceID_eq]
  constructor
  · rintro ⟨k, ⟨r, hr, i, hi, rfl⟩, rfl⟩
    exact ⟨r, hr, i, hi, rfl⟩
  · rintro ⟨r, hr, i, hi, rfl⟩
    exact ⟨_, ⟨r, hr, i, hi, rfl⟩, rfl⟩

theorem mem_nodeIds_mask {mask : Nat} (hmask : 1 ≤ mask ∧ mask ≤ 7) {id : NodeId} :
    id ∈ po.nodeIds mask ↔
      (mask &&& 4 ≠ 0 ∧ id ∈ po.workerIds) ∨ (mask &&& 2 ≠ 0 ∧ id ∈ po.serverIds) ∨
        (mask &&& 1 ≠ 0 ∧ id = kScheduler) := by
  have hbits : ∀ m : Nat, m < 8 → 1 ≤ m → ((m : Int) ∈ [4, 5, 6, 7] ↔ m &&& 4 ≠ 0) ∧
      ((m : Int) ∈ [2, 3, 6, 7] ↔ m &&& 2 ≠ 0) ∧ ((m : Int) ∈ [1, 3, 5, 7] ↔ m &&& 1 ≠ 0) := by decide
  obtain ⟨hw, hs, hsch⟩ := hbits mask (by omega) hmask.1
  rw [nodeIds_group po ⟨by omega, by omega⟩]
  simp only [hw, hs, hsch, List.mem_append, List.mem_ite_nil_right, List.mem_singleton, or_assoc]

end Postoffice

/-! ### Messages -/

theorem Message.recver_addData (msg : Message) (dt : DataType) (val : SArray) :
    (msg.addData dt val).msgMeta.recver = msg.msgMeta.recver := by
  unfold addData
  dsimp only
  split_ifs <;> rfl

theorem Message.sender_addData (msg : Message) (dt : DataType) (val : SArray) :
    (msg.addData dt val).msgMeta.sender = msg.msgMeta.sender := by
  unfold addData
  dsimp only
  split_ifs <;> rfl

namespace KVServer

variable {po : Postoffice}

theorem recver_response (po : Postoffice) (appId : Int) (req : KVMeta) (res : KVPairs) :
    (response po appId req res).msgMeta.recver =
      po.groupWorkerRankToInstanceID (idToRank req.sender) po.instanceIdx := by
  unfold response
  dsimp only
  split_ifs <;> simp only [Message.addKeys, Message.addLens, Message.recver_addData]

theorem sender_of_process {msg : Message} {kvMeta : KVMeta} {kvs : KVPairs}
    (h : process po msg = some (kvMeta, kvs)) :
    kvMeta.sender = workerRankToID (po.instanceIDtoGroupRank msg.msgMeta.sender) := by
  obtain ⟨_, -, h⟩ := Option.bind_eq_some_iff.mp h
  dsimp only at h
  split at h
  · obtain ⟨rfl, -⟩ := Prod.mk.inj (Option.some.inj h)
    rfl
  · obtain ⟨rfl, -⟩ := Prod.mk.inj (Option.some.inj h)
    rfl
  · obtain ⟨_, -, h⟩ := Option.bind_eq_some_iff.mp h
    obtain ⟨rfl, -⟩ := Prod.mk.inj (Option.some.inj h)
    rfl
  · cases h

theorem sender_of_registerRecvBuffer {id : NodeId} {keys : List Key} {vals : SArray} {lens : List Int}
    {cmd : Int} {msg : Message} (h : registerRecvBuffer_ id keys vals lens cmd = some msg) :
    msg.msgMeta.sender = id := by
  obtain ⟨key, -, h⟩ := Option.bind_eq_some_iff.mp h
  obtain ⟨_, -, h⟩ := Option.bind_eq_some_iff.mp h
  obtain rfl := Option.some.inj h
  simp only [Message.addKeys, Message.addLens, Message.sender_addData]

end KVServer

/-- Instance `i` of worker group `r` and server group `s`: requests go to instance `i` of the group, which
sees rank `r` and answers the instance they came from, the one its buffers for rank `r` are registered for.
No two instances have the same id, none has that of a group, and every group lists its members once. -/
theorem instance_routing (numWorkers numServers g r i s : Nat) (hi : i < g) :
    let po : Postoffice := ⟨numWorkers, numServers, g, i, Nat.zero_lt_of_lt hi⟩
    (∀ (appId customerId : Int) (msg : Message),
      let sent := AFWorker.sendMsg ⟨po, appId, customerId⟩ msg s
      sent.msgMeta.recver = po.groupServerRankToInstanceID s i ∧
      ∀ received : Message, received = { sent with msgMeta := { sent.msgMeta with
          sender := po.groupWorkerRankToInstanceID r i } } →
        ∀ kvMeta kvs, KVServer.process po received = some (kvMeta, kvs) →
          idToRank kvMeta.sender = r ∧ ∀ appId res,
            (KVServer.response po appId kvMeta res).msgMeta.recver = po.groupWorkerRankToInstanceID r i) ∧
    (∀ keys vals lens cmd msg, KVServer.registerRecvBufferWithRank po r keys vals lens cmd = some msg →
      msg.msgMeta.sender = po.groupWorkerRankToInstanceID r i) ∧
    (∀ r₁ i₁ r₂ i₂ : Nat, i₁ < g → i₂ < g →
      (po.groupWorkerRankToInstanceID r₁ i₁ = po.groupWorkerRankToInstanceID r₂ i₂ → r₁ = r₂ ∧ i₁ = i₂) ∧
      (po.groupServerRankToInstanceID r₁ i₁ = po.groupServerRankToInstanceID r₂ i₂ → r₁ = r₂ ∧ i₁ = i₂) ∧
      po.groupWorkerRankToInstanceID r₁ i₁ ≠ po.groupServerRankToInstanceID r₂ i₂ ∧
      7 < po.groupWorkerRankToInstanceID r₁ i₁ ∧ 7 < po.groupServerRankToInstanceID r₁ i₁) ∧
    ∀ mask : Nat, 1 ≤ mask → mask ≤ 7 → (po.nodeIds mask).Nodup ∧ ∀ id, id ∈ po.nodeIds mask ↔
      (mask &&& 4 ≠ 0 ∧ ∃ r < numWorkers, ∃ i < g, id = po.groupWorkerRankToInstanceID r i) ∨
      (mask &&& 2 ≠ 0 ∧ ∃ s < numServers, ∃ i < g, id = po.groupServerRankToInstanceID s i) ∨
      (mask &&& 1 ≠ 0 ∧ id = kScheduler) := by
  intro po
  have hpo : i < po.groupSize := hi
  refine ⟨fun appId customerId msg => ⟨rfl, ?_⟩, ?_, ?_, fun mask h₁ h₇ => ⟨po.nodup_nodeIds mask, fun id => ?_⟩⟩
  · rintro received rfl kvMeta kvs hproc
    have hrank : idToRank kvMeta.sender = r := by
      rw [KVServer.sender_of_process hproc]
      rw [Postoffice.instanceIDtoGroupRank_groupWorkerRankToInstanceID hpo]
      exact idToRank_workerRankToID r
    refine ⟨hrank, fun appId res => ?_⟩
    rw [KVServer.recver_response, hrank]
  · intro keys vals lens cmd msg h
    exact KVServer.sender_of_registerRecvBuffer h
  · intro r₁ i₁ r₂ i₂ h₁ h₂
    simp only [Postoffice.groupWorkerRankToInstanceID_eq, Postoffice.groupServerRankToInstanceID_eq]
    have hinj : r₁ * g + i₁ = r₂ * g + i₂ → r₁ = r₂ ∧ i₁ = i₂ := po.instance_rank_inj h₁ h₂
    refine ⟨fun h => ?_, fun h => ?_, workerRankToID_ne_serverRankToID _ _, ?_, ?_⟩
    · exact hinj (Int.ofNat.inj (workerRankToID_inj.mp h))
    · exact hinj (Int.ofNat.inj (serverRankToID_inj.mp h))
    · show (7 : Int) < (_ : Nat) * 2 + 9
      omega
    · show (7 : Int) < (_ : Nat) * 2 + 8
      omega
  · rw [Postoffice.mem_nodeIds_mask ⟨h₁, h₇⟩, Postoffice.mem_workerIds, Postoffice.mem_serverIds]

/-- Two groups of two workers, one of two servers. -/
theorem instance_routing_two_by_two :
    Postoffice.groupWorkerRankToInstanceID ⟨2, 1, 2, 1, by decide⟩ 1 1 = 15 ∧ ∀ keys vals lens cmd msg,
      KVServer.registerRecvBufferWithRank ⟨2, 1, 2, 1, by decide⟩ 1 keys vals lens cmd = some msg →
        msg.msgMeta.sender = 15 :=
  ⟨by decide, (instance_routing 2 1 2 1 1 0 (by decide)).2.1⟩

end StepMesh
