import StepMesh.Lib.Run
import StepMesh.Postoffice

/-!
# Barriers (`src/postoffice.cc`, `src/van.cc`)

`DoBarrier` sends one request to the scheduler and waits until `Manage` has seen an answer. The
scheduler counts the requests: for an instance barrier per group in `barrier_count_`, for a
group-level barrier it lists the requesters in `group_barrier_requests_`. A failed `PS_CHECK` or an
index out of range is `none`; `Send` is taken to succeed.

`BarrierNet` puts the scheduler, one caller per node id and the messages in flight together. Messages
may arrive in any order. The transport fills in the sender of a request.
-/

namespace StepMesh

/-- `a & b` on `int`s is not zero. -/
def hasBits (a b : Int) : Bool := BitVec.ofInt 32 a &&& BitVec.ofInt 32 b ≠ 0

/-! ### A process -/

/-- The part of `Postoffice` and of its van that barriers use. `barrierDone` is `barrier_done_`, a map
from application ids to maps from customer ids. -/
structure Process where
  role : Role
  barrierDone : Int → List (Int × Bool) := fun _ => []
  timestamp : Int := 0

/-- `done[customer_id] = b` on a map kept as a list of pairs. -/
def setDone (done : List (Int × Bool)) (customerId : Int) (b : Bool) : List (Int × Bool) :=
  if (done.lookup customerId).isSome then
    done.map fun e => if e.1 = customerId then (e.1, b) else e
  else done ++ [(customerId, b)]

theorem lookup_setDone (done : List (Int × Bool)) (c : Int) (b : Bool) :
    (setDone done c b).lookup c = some b := by
  unfold setDone
  split
  · next h =>
    induction done with
    | nil => simp at h
    | cons e done ih =>
      obtain ⟨k, v⟩ := e
      by_cases hk : k = c
      · subst hk
        simp
      · have hne : (c == k) = false := by simp [Ne.symm hk]
        rw [List.lookup_cons, hne] at h
        simpa [List.lookup_cons, hk, hne] using ih h
  · next h =>
    rw [Option.not_isSome_iff_eq_none] at h
    simp [List.lookup_append, h]

namespace Process

def isDone (p : Process) (customerId : Int) : Bool :=
  (p.barrierDone 0).lookup customerId = some true

/-- `DoBarrier` up to its wait: `none` in the second component means that it returns at once. -/
def doBarrier (po : Postoffice) (p : Process) (customerId nodeGroup : Int) (instanceBarrier : Bool) :
    Option (Process × Option Message) := do
  let nodeGroupSize := (← po.getNodeIDs nodeGroup).length
  if instanceBarrier ∧ nodeGroupSize ≤ 1 then return (p, none)
  if ¬ instanceBarrier ∧ nodeGroupSize ≤ po.groupSize then return (p, none)
  guard (p.role = .scheduler → hasBits nodeGroup kScheduler)
  guard (p.role = .worker → hasBits nodeGroup kWorkerGroup)
  guard (p.role = .server → hasBits nodeGroup kServerGroup)
  return ({ p with
      barrierDone := Function.update p.barrierDone 0 (setDone (p.barrierDone 0) customerId false)
      timestamp := p.timestamp + 1 },
    some { msgMeta := {
      recver := kScheduler
      request := true
      appId := 0
      customerId := customerId
      timestamp := p.timestamp
      control := {
        cmd := if instanceBarrier then .instanceBarrier else .barrier
        barrierGroup := nodeGroup } } })

/-- A barrier on a group small enough returns at once, any other sends one request. -/
theorem doBarrier_eq_some {po : Postoffice} {p p' : Process} {c g : Int} {b : Bool}
    {req : Option Message} (h : p.doBarrier po c g b = some (p', req)) :
    (req = none ∧ p' = p ∧ (po.nodeIds g).length ≤ if b then 1 else po.groupSize) ∨
    ((if b then 1 else po.groupSize) < (po.nodeIds g).length ∧ p'.isDone c = false ∧
      ∃ m, req = some m ∧ m.msgMeta.request = true ∧
        m.msgMeta.control.cmd = (if b then .instanceBarrier else .barrier) ∧
        m.msgMeta.control.barrierGroup = g) := by
  obtain ⟨ids, hids, h⟩ := Option.bind_eq_some_iff.mp h
  obtain rfl := Postoffice.getNodeIDs_eq_some hids
  by_cases hsmall : (po.nodeIds g).length ≤ if b then 1 else po.groupSize
  · have hret : some (p, none) = some (p', req) := by
      cases b <;> simp only [Bool.false_eq_true, if_true, if_false] at hsmall <;>
        simpa [hsmall] using h
    obtain ⟨rfl, rfl⟩ := Prod.mk.inj (Option.some.inj hret)
    exact .inl ⟨rfl, rfl, hsmall⟩
  · rw [if_neg, if_neg] at h
    · obtain ⟨_, -, h⟩ := Option.bind_eq_some_iff.mp h
      obtain ⟨_, -, h⟩ := Option.bind_eq_some_iff.mp h
      obtain ⟨_, -, h⟩ := Option.bind_eq_some_iff.mp h
      obtain ⟨rfl, rfl⟩ := Prod.mk.inj (Option.some.inj h)
      refine .inr ⟨Nat.lt_of_not_le hsmall, ?_, _, rfl, rfl, rfl, rfl⟩
      simp [isDone, lookup_setDone]
    · cases b <;> simp_all
    · cases b <;> simp_all

/-- `Manage`: an answer to a barrier sets the first entries of the map, as many as it has. -/
def manage (p : Process) (recv : Message) : Option Process := do
  let ctrl := recv.msgMeta.control
  guard (ctrl.cmd ≠ .empty)
  if (ctrl.cmd = .barrier ∨ ctrl.cmd = .instanceBarrier) ∧ recv.msgMeta.request = false then
    let done := p.barrierDone recv.msgMeta.appId
    return { p with
      barrierDone := Function.update p.barrierDone recv.msgMeta.appId
        ((List.range done.length).foldl (fun done (i : Nat) => setDone done i true) done) }
  else return p

/-- A process that has just started, with the role its id stands for. -/
def ofId (r : NodeId) : Process :=
  { role := if r = kScheduler then .scheduler else if r % 2 = 0 then .server else .worker }

end Process

/-! ### The scheduler -/

structure BarrierScheduler where
  barrierCount : List Int := []
  groupBarrierRequests : Int → List NodeId := fun _ => []
  sharedNodeMapping : NodeId → Option NodeId := fun _ => none
  timestamp : Int := 0

namespace BarrierScheduler

/-- The messages of a loop that sends `m` to each of `rs`, stamped from `ts` on. -/
def answers (m : Meta) : Int → List NodeId → List Message
  | _, [] => []
  | ts, r :: rs => { msgMeta := { m with recver := r, timestamp := ts } } :: answers m (ts + 1) rs

/-- The answers to a barrier; a node that shares the connection of another gets none. -/
def respond (sch : BarrierScheduler) (msg : Message) (rs : List NodeId) :
    BarrierScheduler × List Message :=
  let rs := rs.filter fun r => (sch.sharedNodeMapping r).isNone
  ({ sch with timestamp := sch.timestamp + rs.length },
    answers {
      request := false
      appId := msg.msgMeta.appId
      customerId := msg.msgMeta.customerId
      control := { cmd := msg.msgMeta.control.cmd } } sch.timestamp rs)

theorem map_recver_answers (m : Meta) (ts : Int) (rs : List NodeId) :
    (answers m ts rs).map (·.msgMeta.recver) = rs := by
  induction rs generalizing ts with
  | nil => rfl
  | cons r rs ih => simp [answers, ih]

theorem mem_answers {m : Meta} {ts : Int} {rs : List NodeId} {a : Message}
    (h : a ∈ answers m ts rs) :
    a.msgMeta.request = m.request ∧ a.msgMeta.control = m.control := by
  induction rs generalizing ts with
  | nil => simp [answers] at h
  | cons r rs ih =>
    rcases List.mem_cons.mp h with rfl | h
    · exact ⟨rfl, rfl⟩
    · exact ih h

/-- The request branch of `ProcessInstanceBarrierCommand`. -/
def processInstanceBarrierCommand (po : Postoffice) (sch : BarrierScheduler) (msg : Message) :
    Option (BarrierScheduler × List Message) := do
  let group := msg.msgMeta.control.barrierGroup
  let barrierCount := if sch.barrierCount = [] then List.replicate 8 0 else sch.barrierCount
  guard (0 ≤ group)
  let count := (← barrierCount[group.toNat]?) + 1
  let nodeIds ← po.getNodeIDs group
  if count = nodeIds.length then
    return { sch with barrierCount := barrierCount.set group.toNat 0 }.respond msg nodeIds
  else
    return ({ sch with barrierCount := barrierCount.set group.toNat count }, [])

/-- How many requests release a group-level barrier. -/
def numExpectedRequests (po : Postoffice) (nodeGroup : Int) (numInstances : Nat) : Nat :=
  if nodeGroup = kScheduler then 1
  else if hasBits nodeGroup kScheduler then (numInstances - 1) / po.groupSize + 1
  else numInstances / po.groupSize

/-- The request branch of `ProcessBarrierCommand`. -/
def processBarrierCommand (po : Postoffice) (sch : BarrierScheduler) (msg : Message) :
    Option (BarrierScheduler × List Message) := do
  let nodeGroup := msg.msgMeta.control.barrierGroup
  let requests := sch.groupBarrierRequests nodeGroup ++ [msg.msgMeta.sender]
  let numInstances := (← po.getNodeIDs nodeGroup).length
  if requests.length = numExpectedRequests po nodeGroup numInstances then
    return { sch with
      groupBarrierRequests := Function.update sch.groupBarrierRequests nodeGroup [] }.respond msg
        requests
  else
    return ({ sch with
      groupBarrierRequests := Function.update sch.groupBarrierRequests nodeGroup requests }, [])

end BarrierScheduler

/-! ### The whole system -/

/-- The last four fields are history: how often a node has called a barrier on a group, how often the
call has returned, and the requests processed and answers sent by the scheduler, with their group. -/
structure BarrierNet where
  procs : NodeId → Process
  sch : BarrierScheduler := {}
  wire : List Message := []
  /-- the customer and the group a node waits for -/
  waiting : NodeId → Option (Int × Int) := fun _ => none
  issued : NodeId → Int → Nat := fun _ _ => 0
  returned : NodeId → Int → Nat := fun _ _ => 0
  processed : List (NodeId × Int) := []
  released : List (NodeId × Int) := []

namespace BarrierNet

inductive Action
  | call (r : NodeId) (customerId nodeGroup : Int) (instanceBarrier : Bool)
  | receive (i : Nat)
  | wake (r : NodeId)
deriving DecidableEq, Repr

/-- One more for `r` on `g`. -/
def bump (f : NodeId → Int → Nat) (r : NodeId) (g : Int) : NodeId → Int → Nat :=
  Function.update f r (Function.update (f r) g (f r g + 1))

/-- The scheduler takes a request. -/
def receiveRequest (po : Postoffice) (s : BarrierNet) (msg : Message) : Option BarrierNet := do
  guard (msg.msgMeta.recver = kScheduler)
  let (sch, out) ← (match msg.msgMeta.control.cmd with
    | .instanceBarrier => s.sch.processInstanceBarrierCommand po msg
    | .barrier => s.sch.processBarrierCommand po msg
    | _ => none)
  let group := msg.msgMeta.control.barrierGroup
  return { s with
    sch := sch
    wire := s.wire ++ out
    processed := s.processed ++ [(msg.msgMeta.sender, group)]
    released := s.released ++ out.map fun m => (m.msgMeta.recver, group) }

def step (po : Postoffice) (s : BarrierNet) : Action → Option BarrierNet
  | .call r customerId nodeGroup instanceBarrier => do
    -- a caller waits for one barrier at a time, on groups it belongs to
    guard (s.waiting r = none ∧ r ∈ po.nodeIds nodeGroup)
    let (p, req) ← (s.procs r).doBarrier po customerId nodeGroup instanceBarrier
    let s := { s with
      procs := Function.update s.procs r p
      issued := bump s.issued r nodeGroup }
    match req with
    | none => return { s with returned := bump s.returned r nodeGroup }
    | some req => return { s with
        wire := s.wire ++ [{ req with msgMeta := { req.msgMeta with sender := r } }]
        waiting := Function.update s.waiting r (some (customerId, nodeGroup)) }
  | .receive i => do
    let msg ← s.wire[i]?
    let s := { s with wire := s.wire.eraseIdx i }
    if msg.msgMeta.request then s.receiveRequest po msg
    else
      let p ← (s.procs msg.msgMeta.recver).manage msg
      return { s with procs := Function.update s.procs msg.msgMeta.recver p }
  | .wake r => do
    let (customerId, nodeGroup) ← s.waiting r
    guard ((s.procs r).isDone customerId)
    return { s with
      waiting := Function.update s.waiting r none
      returned := bump s.returned r nodeGroup }

end BarrierNet

end StepMesh
