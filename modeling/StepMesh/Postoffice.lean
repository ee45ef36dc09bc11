import Mathlib.Data.List.Nodup
import Mathlib.Logic.Function.Basic
import StepMesh.Message

/-!
# Node ids, ranks and groups (`include/ps/internal/postoffice.h`, `src/postoffice.cc`)

A `Postoffice` here is what `InitEnvironment` reads: the numbers of worker and server groups, the
size of a group, which `Init` checks, and the offset of this instance in its group. `nodeIds` replays the
loops of `Postoffice::Start` that fill `node_ids_`.
-/

namespace StepMesh

def kScheduler : Int := 1
def kServerGroup : Int := 2
def kWorkerGroup : Int := 4

structure Postoffice where
  numWorkers : Nat
  numServers : Nat
  groupSize : Nat := 1
  instanceIdx : Nat := 0
  groupSize_pos : 0 < groupSize := by first | exact Nat.zero_lt_one | exact Nat.succ_pos _
deriving DecidableEq, Repr

structure Range where
  start : UInt64
  stop : UInt64
deriving DecidableEq, Repr

def kMaxKey : UInt64 := 0xFFFFFFFFFFFFFFFF

def workerRankToID (rank : Int) : NodeId := rank * 2 + 9
def serverRankToID (rank : Int) : NodeId := rank * 2 + 8

@[simp] theorem workerRankToID_inj {i j : Int} : workerRankToID i = workerRankToID j ↔ i = j := by
  show i * 2 + 9 = j * 2 + 9 ↔ i = j
  omega

@[simp] theorem serverRankToID_inj {i j : Int} : serverRankToID i = serverRankToID j ↔ i = j := by
  show i * 2 + 8 = j * 2 + 8 ↔ i = j
  omega

theorem workerRankToID_ne_serverRankToID (i j : Int) : workerRankToID i ≠ serverRankToID j := by
  show i * 2 + 9 ≠ j * 2 + 8
  omega

/-- The division is C++'s, it rounds towards zero. -/
def idToRank (id : NodeId) : Int := max ((id - 8).tdiv 2) 0

theorem idToRank_workerRankToID (i : Nat) : idToRank (workerRankToID i) = i := by
  show max (((i : Int) * 2 + 9 - 8).tdiv 2) 0 = i
  rw [Int.tdiv_eq_ediv_of_nonneg (by omega)]
  omega

theorem idToRank_serverRankToID (i : Nat) : idToRank (serverRankToID i) = i := by
  show max (((i : Int) * 2 + 8 - 8).tdiv 2) 0 = i
  rw [Int.tdiv_eq_ediv_of_nonneg (by omega)]
  omega

namespace Postoffice

def groupWorkerRankToInstanceID (po : Postoffice) (rank instanceIdx : Int) : NodeId :=
  workerRankToID (rank * po.groupSize + instanceIdx)

def groupServerRankToInstanceID (po : Postoffice) (rank instanceIdx : Int) : NodeId :=
  serverRankToID (rank * po.groupSize + instanceIdx)

def instanceIDtoGroupRank (po : Postoffice) (id : NodeId) : Int :=
  (idToRank id).tdiv po.groupSize

theorem instanceIDtoGroupRank_workerRankToID (po : Postoffice) (i : Nat) :
    po.instanceIDtoGroupRank (workerRankToID i) = (i / po.groupSize : Nat) := by
  rw [instanceIDtoGroupRank, idToRank_workerRankToID, Int.tdiv_eq_ediv_of_nonneg (by omega)]
  rfl

theorem instanceIDtoGroupRank_serverRankToID (po : Postoffice) (i : Nat) :
    po.instanceIDtoGroupRank (serverRankToID i) = (i / po.groupSize : Nat) := by
  rw [instanceIDtoGroupRank, idToRank_serverRankToID, Int.tdiv_eq_ediv_of_nonneg (by omega)]
  rfl

def getServerKeyRanges (po : Postoffice) : List Range :=
  (List.range po.numServers).map fun i =>
    ⟨kMaxKey / .ofNat po.numServers * .ofNat i, kMaxKey / .ofNat po.numServers * .ofNat (i + 1)⟩

@[simp] theorem length_getServerKeyRanges (po : Postoffice) :
    po.getServerKeyRanges.length = po.numServers := by
  simp [getServerKeyRanges]

/-- `node_ids_[g].push_back(id)` for every `g` of a list. -/
def pushNodeIds (id : NodeId) (gs : List Int) (ids : Int → List NodeId) : Int → List NodeId :=
  gs.foldl (fun ids g => Function.update ids g (ids g ++ [id])) ids

def workerGroups (id : NodeId) : List Int :=
  [id, kWorkerGroup, kWorkerGroup + kServerGroup, kWorkerGroup + kScheduler,
    kWorkerGroup + kServerGroup + kScheduler]

def serverGroups (id : NodeId) : List Int :=
  [id, kServerGroup, kWorkerGroup + kServerGroup, kServerGroup + kScheduler,
    kWorkerGroup + kServerGroup + kScheduler]

def schedulerGroups : List Int :=
  [kScheduler, kScheduler + kServerGroup + kWorkerGroup, kScheduler + kWorkerGroup,
    kScheduler + kServerGroup]

/-- `node_ids_` as `Start` fills it. -/
def nodeIds (po : Postoffice) : Int → List NodeId :=
  let workers := (List.range (po.numWorkers * po.groupSize)).foldl
    (fun ids (i : Nat) => pushNodeIds (workerRankToID i) (workerGroups (workerRankToID i)) ids)
    fun _ => []
  let servers := (List.range (po.numServers * po.groupSize)).foldl
    (fun ids (i : Nat) => pushNodeIds (serverRankToID i) (serverGroups (serverRankToID i)) ids) workers
  pushNodeIds kScheduler schedulerGroups servers

/-- `GetNodeIDs`: a group without a member has no entry in the map. -/
def getNodeIDs (po : Postoffice) (nodeId : Int) : Option (List NodeId) :=
  if po.nodeIds nodeId = [] then none else some (po.nodeIds nodeId)

theorem getNodeIDs_eq_some {po : Postoffice} {g : Int} {ids : List NodeId} (h : po.getNodeIDs g = some ids) :
    po.nodeIds g = ids := by
  unfold getNodeIDs at h
  split at h
  · simp at h
  · exact Option.some.inj h

theorem pushNodeIds_apply (id : NodeId) (gs : List Int) (hnd : gs.Nodup)
    (ids : Int → List NodeId) (g : Int) :
    pushNodeIds id gs ids g = if g ∈ gs then ids g ++ [id] else ids g := by
  induction gs generalizing ids with
  | nil => simp [pushNodeIds]
  | cons h gs ih =>
    obtain ⟨hh, hnd⟩ := List.nodup_cons.mp hnd
    have := ih hnd (Function.update ids h (ids h ++ [id]))
    simp only [pushNodeIds, List.foldl_cons] at this ⊢
    rw [this]
    by_cases hg : g = h
    · subst hg; simp [hh]
    · simp [hg]

theorem foldl_pushNodeIds (f : Nat → NodeId) (gs : NodeId → List Int)
    (hnd : ∀ i, (gs (f i)).Nodup) (g : Int) (n : Nat) (ids : Int → List NodeId) :
    (List.range n).foldl (fun ids i => pushNodeIds (f i) (gs (f i)) ids) ids g =
      ids g ++ ((List.range n).filter fun i => g ∈ gs (f i)).map f := by
  induction n with
  | zero => simp
  | succ n ih =>
    simp only [List.range_succ, List.foldl_append, List.foldl_cons, List.foldl_nil,
      pushNodeIds_apply _ _ (hnd n), ih, List.filter_append, List.map_append]
    by_cases hg : g ∈ gs (f n) <;> simp [hg]

theorem workerGroups_nodup (i : Nat) : (workerGroups (workerRankToID i)).Nodup := by
  simp only [workerGroups, workerRankToID, kWorkerGroup, kServerGroup, kScheduler]
  simp; omega

theorem serverGroups_nodup (i : Nat) : (serverGroups (serverRankToID i)).Nodup := by
  simp only [serverGroups, serverRankToID, kWorkerGroup, kServerGroup, kScheduler]
  simp; omega

def workerIds (po : Postoffice) : List NodeId :=
  (List.range (po.numWorkers * po.groupSize)).map fun i : Nat => workerRankToID i

def serverIds (po : Postoffice) : List NodeId :=
  (List.range (po.numServers * po.groupSize)).map fun i : Nat => serverRankToID i

theorem nodeIds_eq (po : Postoffice) (g : Int) :
    po.nodeIds g =
      (((List.range (po.numWorkers * po.groupSize)).filter fun i : Nat =>
          g ∈ workerGroups (workerRankToID i)).map (fun i : Nat => workerRankToID i) ++
        ((List.range (po.numServers * po.groupSize)).filter fun i : Nat =>
          g ∈ serverGroups (serverRankToID i)).map fun i : Nat => serverRankToID i) ++
      if g ∈ schedulerGroups then [kScheduler] else [] := by
  have hw := foldl_pushNodeIds (fun i => workerRankToID i) workerGroups workerGroups_nodup g
    (po.numWorkers * po.groupSize) fun _ => []
  have hs := foldl_pushNodeIds (fun i => serverRankToID i) serverGroups serverGroups_nodup g
    (po.numServers * po.groupSize)
  rw [nodeIds, pushNodeIds_apply _ _ (by decide), hs, hw]
  split <;> simp

/-- A node group lists the workers, the servers and the scheduler, each if it is included. -/
theorem nodeIds_group (po : Postoffice) {g : Int} (hg : 1 ≤ g ∧ g ≤ 7) :
    po.nodeIds g =
      ((if g ∈ [4, 5, 6, 7] then po.workerIds else []) ++
        if g ∈ [2, 3, 6, 7] then po.serverIds else []) ++
      if g ∈ [1, 3, 5, 7] then [kScheduler] else [] := by
  have hworker : ∀ i : Nat, g ∈ workerGroups (workerRankToID i) ↔ g ∈ [4, 5, 6, 7] := fun i => by
    simp only [workerGroups, workerRankToID, kWorkerGroup, kServerGroup, kScheduler, List.mem_cons,
      List.not_mem_nil, or_false]
    omega
  have hserver : ∀ i : Nat, g ∈ serverGroups (serverRankToID i) ↔ g ∈ [2, 3, 6, 7] := fun i => by
    simp only [serverGroups, serverRankToID, kWorkerGroup, kServerGroup, kScheduler, List.mem_cons,
      List.not_mem_nil, or_false]
    omega
  have hscheduler : g ∈ schedulerGroups ↔ g ∈ [1, 3, 5, 7] := by
    simp only [schedulerGroups, kWorkerGroup, kServerGroup, kScheduler, List.mem_cons,
      List.not_mem_nil, or_false]
    omega
  have hfilter : ∀ (p : Prop) [Decidable p] (l : List Nat) (f : Nat → NodeId),
      (l.filter fun _ => p).map f = if p then l.map f else [] := fun p _ l f => by
    by_cases hp : p <;> simp [hp]
  simp only [nodeIds_eq, hworker, hserver, hscheduler, hfilter, workerIds, serverIds]

theorem nodup_ids (po : Postoffice) : ((po.workerIds ++ po.serverIds) ++ [kScheduler]).Nodup := by
  have hw : po.workerIds.Nodup :=
    List.nodup_range.map fun i j h => Int.ofNat.inj (workerRankToID_inj.mp h)
  have hs : po.serverIds.Nodup :=
    List.nodup_range.map fun i j h => Int.ofNat.inj (serverRankToID_inj.mp h)
  have hworker : ∀ i : Nat, workerRankToID i ≠ kScheduler := fun i => by
    show (i : Int) * 2 + 9 ≠ 1
    omega
  have hserver : ∀ i : Nat, serverRankToID i ≠ kScheduler := fun i => by
    show (i : Int) * 2 + 8 ≠ 1
    omega
  refine (hw.append hs fun id hid hid' => ?_).append (List.nodup_singleton _) fun id hid hid' => ?_
  · obtain ⟨i, -, rfl⟩ := List.mem_map.mp hid
    obtain ⟨j, -, h⟩ := List.mem_map.mp hid'
    exact workerRankToID_ne_serverRankToID i j h.symm
  · obtain rfl := List.mem_singleton.mp hid'
    rcases List.mem_append.mp hid with hid | hid
    · obtain ⟨i, -, h⟩ := List.mem_map.mp hid
      exact hworker i h
    · obtain ⟨i, -, h⟩ := List.mem_map.mp hid
      exact hserver i h

theorem nodup_nodeIds (po : Postoffice) (g : Int) : (po.nodeIds g).Nodup := by
  have hscheduler : List.Sublist (if g ∈ schedulerGroups then [kScheduler] else []) [kScheduler] := by
    split
    · exact .refl _
    · exact List.nil_sublist _
  rw [nodeIds_eq]
  exact ((((List.filter_sublist).map _).append ((List.filter_sublist).map _)).append
    hscheduler).nodup po.nodup_ids

theorem pos_of_mem_nodeIds {po : Postoffice} {r : NodeId} {g : Int} (h : r ∈ po.nodeIds g) : 0 < g := by
  simp only [nodeIds_eq, List.mem_append, List.mem_map, List.mem_filter, workerGroups, serverGroups,
    workerRankToID, serverRankToID, kWorkerGroup, kServerGroup, kScheduler, List.mem_cons,
    List.not_mem_nil, or_false, decide_eq_true_iff] at h
  rcases h with (⟨i, ⟨-, h⟩, -⟩ | ⟨i, ⟨-, h⟩, -⟩) | h
  · omega
  · omega
  · split at h
    · next hg =>
      simp only [schedulerGroups, kWorkerGroup, kServerGroup, kScheduler, List.mem_cons,
        List.not_mem_nil, or_false] at hg
      omega
    · simp at h

theorem nodeIds_kServerGroup (po : Postoffice) :
    po.nodeIds kServerGroup =
      (List.range (po.numServers * po.groupSize)).map fun i : Nat => serverRankToID i := by
  rw [nodeIds_group po (by decide), if_neg (by decide), if_pos (by decide), if_neg (by decide)]
  simp [serverIds]

theorem getNodeIDs_kServerGroup (po : Postoffice) :
    po.getNodeIDs kServerGroup = if po.numServers = 0 then none else some po.serverIds := by
  have hnil : po.serverIds = [] ↔ po.numServers = 0 := by
    simp [serverIds, po.groupSize_pos.ne']
  rw [getNodeIDs, nodeIds_kServerGroup]
  exact if_congr hnil rfl rfl

end Postoffice

end StepMesh
