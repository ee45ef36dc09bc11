import Mathlib.Data.List.Nodup
import Mathlib.Data.Option.Basic
import StepMesh.Barrier
import StepMesh.Lib.ListAux

/-!
# Group-level barriers

`Barrier` is meant to hold until every worker and server group of the node group has sent a request.
The scheduler compares the number of requests with the number of groups and does not look at who sent
them: two instances of one group count as two groups. A release is a proper one exactly when the
requests gathered for it come from pairwise different groups (`group_barrier_release_iff`).
-/

namespace StepMesh

/-- A worker group, a server group or the scheduler: what takes part in a group-level barrier. -/
inductive InstanceGroup
  | workers (rank : Int)
  | servers (rank : Int)
  | scheduler
deriving DecidableEq, Repr

namespace Postoffice

variable {po : Postoffice}

/-- The group of an instance id; worker ids are odd, server ids are even. -/
def groupOf (po : Postoffice) (id : NodeId) : InstanceGroup :=
  if id = kScheduler then .scheduler
  else if id % 2 = 1 then .workers (po.instanceIDtoGroupRank id)
  else .servers (po.instanceIDtoGroupRank id)

/-- The groups of a node group. -/
def instanceGroups (po : Postoffice) (g : Int) : List InstanceGroup :=
  ((if g ∈ [4, 5, 6, 7] then (List.range po.numWorkers).map fun i : Nat => .workers i else []) ++
    if g ∈ [2, 3, 6, 7] then (List.range po.numServers).map fun i : Nat => .servers i else []) ++
  if g ∈ [1, 3, 5, 7] then [.scheduler] else []

theorem groupOf_worker (po : Postoffice) (i : Nat) :
    po.groupOf (workerRankToID i) = .workers (i / po.groupSize : Nat) := by
  have hne : workerRankToID i ≠ kScheduler := by
    show (i : Int) * 2 + 9 ≠ 1
    omega
  have hodd : workerRankToID i % 2 = 1 := by
    show ((i : Int) * 2 + 9) % 2 = 1
    omega
  rw [groupOf, if_neg hne, if_pos hodd, instanceIDtoGroupRank_workerRankToID]

theorem groupOf_server (po : Postoffice) (i : Nat) :
    po.groupOf (serverRankToID i) = .servers (i / po.groupSize : Nat) := by
  have hne : serverRankToID i ≠ kScheduler := by
    show (i : Int) * 2 + 8 ≠ 1
    omega
  have heven : serverRankToID i % 2 ≠ 1 := by
    show ((i : Int) * 2 + 8) % 2 ≠ 1
    omega
  rw [groupOf, if_neg hne, if_neg heven, instanceIDtoGroupRank_serverRankToID]

theorem nodup_instanceGroups (po : Postoffice) (g : Int) : (po.instanceGroups g).Nodup := by
  have hw : ((List.range po.numWorkers).map fun i : Nat => InstanceGroup.workers i).Nodup :=
    List.nodup_range.map fun i j h => Int.ofNat.inj (InstanceGroup.workers.inj h)
  have hs : ((List.range po.numServers).map fun i : Nat => InstanceGroup.servers i).Nodup :=
    List.nodup_range.map fun i j h => Int.ofNat.inj (InstanceGroup.servers.inj h)
  have hall := (hw.append hs (by simp [List.Disjoint])).append
    (List.nodup_singleton InstanceGroup.scheduler) (by rintro u hu hu'; simp_all)
  have hsub : ∀ (p : Prop) [Decidable p] (l : List InstanceGroup),
      List.Sublist (if p then l else []) l := fun p _ l => by
    split
    · exact .refl l
    · exact List.nil_sublist l
  exact (((hsub ..).append (hsub ..)).append (hsub ..)).nodup hall

theorem mem_instanceGroups {g : Int} (hg : 1 ≤ g ∧ g ≤ 7)
    {u : InstanceGroup} : u ∈ po.instanceGroups g ↔ ∃ r ∈ po.nodeIds g, po.groupOf r = u := by
  simp only [nodeIds_group po hg, instanceGroups, workerIds, serverIds, List.mem_append,
    List.mem_ite_nil_right, List.mem_map, List.mem_range, List.mem_singleton]
  constructor
  · rintro ((⟨hw, i, hi, rfl⟩ | ⟨hs, i, hi, rfl⟩) | ⟨hsch, rfl⟩)
    · refine ⟨_, .inl (.inl ⟨hw, i * po.groupSize, ?_, rfl⟩), ?_⟩
      · exact Nat.mul_lt_mul_of_pos_right hi po.groupSize_pos
      · rw [groupOf_worker, Nat.mul_div_cancel _ po.groupSize_pos]
    · refine ⟨_, .inl (.inr ⟨hs, i * po.groupSize, ?_, rfl⟩), ?_⟩
      · exact Nat.mul_lt_mul_of_pos_right hi po.groupSize_pos
      · rw [groupOf_server, Nat.mul_div_cancel _ po.groupSize_pos]
    · exact ⟨_, .inr ⟨hsch, rfl⟩, rfl⟩
  · rintro ⟨r, (⟨hw, i, hi, rfl⟩ | ⟨hs, i, hi, rfl⟩) | ⟨hsch, rfl⟩, rfl⟩
    · exact .inl (.inl ⟨hw, i / po.groupSize, Nat.div_lt_of_lt_mul (Nat.mul_comm .. ▸ hi),
        (groupOf_worker po i).symm⟩)
    · exact .inl (.inr ⟨hs, i / po.groupSize, Nat.div_lt_of_lt_mul (Nat.mul_comm .. ▸ hi),
        (groupOf_server po i).symm⟩)
    · exact .inr ⟨hsch, rfl⟩

theorem numExpectedRequests_eq {g : Int} (hg : 1 ≤ g ∧ g ≤ 7) :
    BarrierScheduler.numExpectedRequests po g (po.nodeIds g).length = (po.instanceGroups g).length := by
  have hdiv : ∀ n, n * po.groupSize / po.groupSize = n := fun n => Nat.mul_div_cancel n po.groupSize_pos
  have hcases : g = 1 ∨ g = 2 ∨ g = 3 ∨ g = 4 ∨ g = 5 ∨ g = 6 ∨ g = 7 := by omega
  rw [nodeIds_group po hg]
  rcases hcases with rfl | rfl | rfl | rfl | rfl | rfl | rfl <;>
    simp [BarrierScheduler.numExpectedRequests, instanceGroups, workerIds, serverIds, kScheduler,
      hasBits, ← Nat.add_mul, hdiv, Nat.add_assoc]

/-- A group with more than one member is a combination of roles. -/
theorem group_of_one_lt_length {g : Int} (h : 1 < (po.nodeIds g).length) : 1 ≤ g ∧ g ≤ 7 := by
  by_contra hg
  have hall : ∀ r ∈ po.nodeIds g, r = g := fun r hr => by
    simp only [nodeIds_eq, List.mem_append, List.mem_map, List.mem_filter, workerGroups, serverGroups,
      schedulerGroups, workerRankToID, serverRankToID, kWorkerGroup, kServerGroup, kScheduler,
      List.mem_cons, List.not_mem_nil, or_false, decide_eq_true_iff, List.mem_ite_nil_right] at hr
    rcases hr with (⟨i, ⟨-, h⟩, hr⟩ | ⟨i, ⟨-, h⟩, hr⟩) | ⟨h, hr⟩
    · exact hr.symm.trans (show (i : Int) * 2 + 9 = g by omega)
    · exact hr.symm.trans (show (i : Int) * 2 + 8 = g by omega)
    · omega
  have hnd := po.nodup_nodeIds g
  rw [List.eq_replicate_of_mem hall, List.nodup_replicate] at hnd
  omega

end Postoffice

/-- Requests from as many members as there are groups: every group has sent one exactly when no group
has sent two. -/
theorem covers_iff_nodup {po : Postoffice} {g : Int} (hg : 1 ≤ g ∧ g ≤ 7)
    {requests : List NodeId} (hmem : ∀ r ∈ requests, r ∈ po.nodeIds g)
    (hlen : requests.length = (po.instanceGroups g).length) :
    (∀ r ∈ po.nodeIds g, ∃ r' ∈ requests, po.groupOf r' = po.groupOf r) ↔
      (requests.map po.groupOf).Nodup := by
  have hsub : requests.map po.groupOf ⊆ po.instanceGroups g := by
    intro u hu
    obtain ⟨r, hr, rfl⟩ := List.mem_map.mp hu
    exact (Postoffice.mem_instanceGroups hg).mpr ⟨r, hmem r hr, rfl⟩
  have hlen' : (requests.map po.groupOf).length = (po.instanceGroups g).length := by
    rw [List.length_map, hlen]
  constructor
  · intro hcover
    have hsub' : po.instanceGroups g ⊆ requests.map po.groupOf := by
      intro u hu
      obtain ⟨r, hr, rfl⟩ := (Postoffice.mem_instanceGroups hg).mp hu
      obtain ⟨r', hr', heq⟩ := hcover r hr
      exact List.mem_map.mpr ⟨r', hr', heq⟩
    have hperm := (List.subperm_of_subset (po.nodup_instanceGroups g) hsub').perm_of_length_le
      (Nat.le_of_eq hlen')
    exact hperm.nodup_iff.mp (po.nodup_instanceGroups g)
  · intro hnd r hr
    have hperm := (List.subperm_of_subset hnd hsub).perm_of_length_le (Nat.le_of_eq hlen'.symm)
    have hu := hperm.mem_iff.mpr ((Postoffice.mem_instanceGroups hg).mpr ⟨r, hr, rfl⟩)
    obtain ⟨r', hr', heq⟩ := List.mem_map.mp hu
    exact ⟨r', hr', heq⟩

namespace BarrierNet

variable {po : Postoffice} {s s' : BarrierNet}

/-- Requests for a group-level barrier come from members, and only for groups too large to return at
once. -/
structure Members (po : Postoffice) (s : BarrierNet) : Prop where
  wire : ∀ m ∈ s.wire, m.msgMeta.request = true → m.msgMeta.control.cmd = .barrier →
    m.msgMeta.sender ∈ po.nodeIds m.msgMeta.control.barrierGroup ∧
      po.groupSize < (po.nodeIds m.msgMeta.control.barrierGroup).length
  pending : ∀ g, ∀ r ∈ s.sch.groupBarrierRequests g, r ∈ po.nodeIds g

theorem processBarrier_eq_some {sch sch' : BarrierScheduler} {msg : Message} {out : List Message}
    {g : Int} (hg : msg.msgMeta.control.barrierGroup = g)
    (h : sch.processBarrierCommand po msg = some (sch', out)) :
    (∀ a ∈ out, a.msgMeta.request = false) ∧
    (∀ g' r, r ∈ sch'.groupBarrierRequests g' →
      r ∈ sch.groupBarrierRequests g' ∨ r = msg.msgMeta.sender ∧ g' = g) ∧
    (out ≠ [] → (sch.groupBarrierRequests g ++ [msg.msgMeta.sender]).length =
      BarrierScheduler.numExpectedRequests po g (po.nodeIds g).length) := by
  unfold BarrierScheduler.processBarrierCommand at h
  rw [hg] at h
  obtain ⟨ids, hids, h⟩ := Option.bind_eq_some_iff.mp h
  obtain rfl := Postoffice.getNodeIDs_eq_some hids
  dsimp only at h
  split at h
  · next hfull =>
    obtain ⟨rfl, rfl⟩ := Prod.mk.inj (Option.some.inj h)
    refine ⟨fun a ha => (BarrierScheduler.mem_answers ha).1, fun g' r hr => .inl ?_, fun _ => hfull⟩
    by_cases hgg : g' = g
    · subst hgg
      simp at hr
    · simpa [BarrierScheduler.respond, hgg] using hr
  · obtain ⟨rfl, rfl⟩ := Prod.mk.inj (Option.some.inj h)
    refine ⟨by simp, fun g' r hr => ?_, fun hne => absurd rfl hne⟩
    by_cases hgg : g' = g
    · subst hgg
      simpa using hr
    · exact .inl (by simpa [hgg] using hr)

theorem processInstance_eq_some {sch sch' : BarrierScheduler} {msg : Message} {out : List Message}
    (h : sch.processInstanceBarrierCommand po msg = some (sch', out)) :
    (∀ a ∈ out, a.msgMeta.request = false) ∧
    sch'.groupBarrierRequests = sch.groupBarrierRequests := by
  obtain ⟨_, -, h⟩ := Option.bind_eq_some_iff.mp h
  obtain ⟨_, -, h⟩ := Option.bind_eq_some_iff.mp h
  obtain ⟨_, -, h⟩ := Option.bind_eq_some_iff.mp h
  split at h
  · obtain ⟨rfl, rfl⟩ := Prod.mk.inj (Option.some.inj h)
    exact ⟨fun a ha => (BarrierScheduler.mem_answers ha).1, rfl⟩
  · obtain ⟨rfl, rfl⟩ := Prod.mk.inj (Option.some.inj h)
    exact ⟨by simp, rfl⟩

theorem members_receiveRequest (h : Members po s) {wire : List Message} {m : Message}
    (hwire : ∀ m' ∈ wire, m' ∈ s.wire) (hm : m ∈ s.wire) (hreq : m.msgMeta.request = true)
    (hs : receiveRequest po { s with wire := wire } m = some s') : Members po s' := by
  obtain ⟨_, -, hs⟩ := Option.bind_eq_some_iff.mp hs
  obtain ⟨⟨sch, out⟩, hprocess, hs⟩ := Option.bind_eq_some_iff.mp hs
  obtain rfl := Option.some.inj hs
  have hspec : (∀ a ∈ out, a.msgMeta.request = false) ∧
      ∀ g r, r ∈ sch.groupBarrierRequests g → r ∈ po.nodeIds g := by
    split at hprocess
    · obtain ⟨hans, hsame⟩ := processInstance_eq_some hprocess
      exact ⟨hans, fun g r hr => h.pending g r (hsame ▸ hr)⟩
    · next hcmd =>
      obtain ⟨hans, hpending, -⟩ := processBarrier_eq_some rfl hprocess
      refine ⟨hans, fun g r hr => ?_⟩
      rcases hpending g r hr with hr | ⟨rfl, rfl⟩
      · exact h.pending g r hr
      · exact (h.wire m hm hreq hcmd).1
    · simp at hprocess
  refine ⟨fun m' hm' hreq' hcmd' => ?_, hspec.2⟩
  rcases List.mem_append.mp hm' with hm' | hm'
  · exact h.wire m' (hwire m' hm') hreq' hcmd'
  · simp [hspec.1 m' hm'] at hreq'

theorem members_step (h : Members po s) {a : Action} (hs : step po s a = some s') : Members po s' := by
  cases a with
  | call r c g b =>
    obtain ⟨_, hg, hs⟩ := Option.bind_eq_some_iff.mp hs
    obtain ⟨-, hmem⟩ := (Option.guard_eq_some' _).mp hg
    obtain ⟨⟨p, req⟩, hcall, hs⟩ := Option.bind_eq_some_iff.mp hs
    rcases Process.doBarrier_eq_some hcall with ⟨rfl, -, -⟩ | ⟨hlarge, -, m, rfl, -, hcmd, hgroup⟩
    · obtain rfl := Option.some.inj hs
      exact ⟨h.wire, h.pending⟩
    · obtain rfl := Option.some.inj hs
      refine ⟨fun m' hm' hreq hcmd' => ?_, h.pending⟩
      rcases List.mem_append.mp hm' with hm' | hm'
      · exact h.wire m' hm' hreq hcmd'
      · obtain rfl := List.mem_singleton.mp hm'
        obtain rfl : b = false := by
          cases b
          · rfl
          · simp [hcmd] at hcmd'
        exact ⟨hgroup ▸ hmem, hgroup ▸ hlarge⟩
  | receive i =>
    obtain ⟨m, hm, hs⟩ := Option.bind_eq_some_iff.mp hs
    have hwire : ∀ m' ∈ s.wire.eraseIdx i, m' ∈ s.wire := fun _ => List.mem_of_mem_eraseIdx
    by_cases hreq : m.msgMeta.request = true
    · rw [if_pos hreq] at hs
      exact members_receiveRequest h hwire (List.mem_of_getElem? hm) hreq hs
    · rw [if_neg hreq] at hs
      obtain ⟨p, -, hs⟩ := Option.bind_eq_some_iff.mp hs
      obtain rfl := Option.some.inj hs
      exact ⟨fun m' hm' => h.wire m' (hwire m' hm'), h.pending⟩
  | wake r =>
    obtain ⟨⟨c, g⟩, -, hs⟩ := Option.bind_eq_some_iff.mp hs
    obtain ⟨_, -, hs⟩ := Option.bind_eq_some_iff.mp hs
    obtain rfl := Option.some.inj hs
    exact ⟨h.wire, h.pending⟩

theorem members_exec {procs : NodeId → Process} {run : List Action}
    (hs : Run.exec (step po) { procs := procs } run = some s) : Members po s :=
  Run.exec_invariant (Members po) (fun _ _ _ h hstep => members_step h hstep) ⟨by simp, by simp⟩ hs

/-- A group-level barrier is released when every group has sent a request exactly if no two of the
requests gathered for the release come from instances of one group. -/
theorem group_barrier_release_iff (po : Postoffice)
    (procs : NodeId → Process) (run : List Action) (s : BarrierNet)
    (hs : Run.exec (step po) { procs := procs } run = some s) (i : Nat) (m : Message)
    (hm : s.wire[i]? = some m) (hreq : m.msgMeta.request = true)
    (hcmd : m.msgMeta.control.cmd = .barrier) (s' : BarrierNet)
    (hs' : step po s (.receive i) = some s') (hreleased : s'.released ≠ s.released) :
    let g := m.msgMeta.control.barrierGroup
    let requests := s.sch.groupBarrierRequests g ++ [m.msgMeta.sender]
    (∀ r ∈ po.nodeIds g, ∃ r' ∈ requests, po.groupOf r' = po.groupOf r) ↔
      (requests.map po.groupOf).Nodup := by
  intro g requests
  have h := members_exec hs
  obtain ⟨hsender, hlarge⟩ := h.wire m (List.mem_of_getElem? hm) hreq hcmd
  have hg := Postoffice.group_of_one_lt_length (Nat.lt_of_le_of_lt po.groupSize_pos hlarge)
  refine covers_iff_nodup hg ?_ ?_
  · intro r hr
    rcases List.mem_append.mp hr with hr | hr
    · exact h.pending g r hr
    · rw [List.mem_singleton.mp hr]
      exact hsender
  · obtain ⟨m', hm', hs'⟩ := Option.bind_eq_some_iff.mp hs'
    obtain rfl := Option.some.inj (hm.symm.trans hm')
    rw [if_pos hreq] at hs'
    obtain ⟨_, -, hs'⟩ := Option.bind_eq_some_iff.mp hs'
    rw [hcmd] at hs'
    obtain ⟨⟨sch, out⟩, hprocess, hs'⟩ := Option.bind_eq_some_iff.mp hs'
    obtain rfl := Option.some.inj hs'
    obtain ⟨-, -, hfull⟩ := processBarrier_eq_some rfl hprocess
    rw [← Postoffice.numExpectedRequests_eq hg]
    exact hfull fun hnil => hreleased (by simp [hnil])

/-- One worker group and one server group, of two instances each. -/
def samplePo : Postoffice := { numWorkers := 1, numServers := 1, groupSize := 2 }

/-- A worker and a server have called a barrier on all workers and servers. -/
def sampleCalls : List Action := [.call 9 0 6 false, .call 8 0 6 false, .receive 0]

theorem group_barrier_release_iff_sample :
    ∃ s m, Run.exec (step samplePo) { procs := Process.ofId } sampleCalls = some s ∧
      s.wire[0]? = some m ∧ ∀ r ∈ samplePo.nodeIds 6,
        ∃ r' ∈ s.sch.groupBarrierRequests 6 ++ [m.msgMeta.sender],
          samplePo.groupOf r' = samplePo.groupOf r := by
  have heval : (Run.exec (step samplePo) { procs := Process.ofId } sampleCalls).map (fun s =>
      (s.sch.groupBarrierRequests 6, s.released.length, (step samplePo s (.receive 0)).map
        fun s' => s'.released.length)) = some ([9], 0, some 2) := by decide +kernel
  have hwire : (Run.exec (step samplePo) { procs := Process.ofId } sampleCalls).map (fun s =>
      s.wire.map fun m => (m.msgMeta.request, m.msgMeta.sender, m.msgMeta.control.cmd,
        m.msgMeta.control.barrierGroup)) = some [(true, 8, .barrier, 6)] := by decide +kernel
  obtain ⟨s, hs, hval⟩ := Option.map_eq_some_iff.mp heval
  simp only [Prod.mk.injEq, Option.map_eq_some_iff] at hval
  obtain ⟨hpending, hnone, s', hs', htwo⟩ := hval
  rw [hs, Option.map_some, Option.some_inj] at hwire
  obtain ⟨m, hm⟩ : ∃ m, s.wire = [m] := List.length_eq_one_iff.mp (by simpa using congrArg List.length hwire)
  rw [hm] at hwire
  simp only [List.map_cons, List.map_nil, List.cons.injEq, Prod.mk.injEq, and_true] at hwire
  obtain ⟨hreq, hsender, hcmd, hgroup⟩ := hwire
  have hm : s.wire[0]? = some m := by simp [hm]
  have h := group_barrier_release_iff samplePo Process.ofId sampleCalls s hs 0 m hm hreq
    hcmd s' hs' fun heq => by rw [heq] at htwo; omega
  simp only [hgroup, hsender, hpending] at h
  refine ⟨s, m, hs, hm, ?_⟩
  rw [hpending, hsender]
  exact h.mpr (by decide)

/-- The two instances of the worker group let each other through, no server has called. -/
theorem workers_release_each_other :
    ∃ s, Run.exec (step samplePo) { procs := Process.ofId } [.call 9 0 6 false, .call 11 0 6 false,
        .receive 0, .receive 0, .receive 0, .wake 9] = some s ∧
      s.returned 9 6 = 1 ∧ s.issued 8 6 = 0 ∧ s.issued 10 6 = 0 := by
  have heval : (Run.exec (step samplePo) { procs := Process.ofId } [.call 9 0 6 false,
      .call 11 0 6 false, .receive 0, .receive 0, .receive 0, .wake 9]).map
      (fun s => (s.returned 9 6, s.issued 8 6, s.issued 10 6)) = some (1, 0, 0) := by decide
  obtain ⟨s, hs, hval⟩ := Option.map_eq_some_iff.mp heval
  obtain ⟨hreturned, hissued⟩ := Prod.mk.inj hval
  exact ⟨s, hs, hreturned, Prod.mk.inj hissued⟩

end BarrierNet
end StepMesh
