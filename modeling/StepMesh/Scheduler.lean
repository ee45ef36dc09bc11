import Mathlib.Data.List.SplitBy
import Mathlib.Data.Nat.Digits.Defs
import StepMesh.Lib.Run
import StepMesh.Lib.StdSort
import StepMesh.Postoffice

/-!
# The scheduler's node table (`src/van.cc`, `src/postoffice.cc`)

What the receiving thread of the scheduler does with `ADD_NODE` and `HEARTBEAT` messages:
`UpdateLocalID` collects the registering nodes, `ProcessAddNodeCommandAtScheduler` assigns the ids
once all have arrived and later answers a restarted node. `nodes` and `recovery_nodes`, the two
local variables of `Receiving`, live as long as the thread, so they are part of the state. A failed
`PS_CHECK` is `none`.

`Connect` belongs to the transport; it and `Send` are recorded in `log`. `std::sort` is known by its
contract only.
-/

namespace StepMesh

/-! ### Comparing and printing addresses -/

/-- `memcmp` on the common length. -/
def memcmp : List UInt8 → List UInt8 → Int
  | a :: as, b :: bs => if a = b then memcmp as bs else a.toNat - b.toNat
  | _, _ => 0

/-- `std::string::compare`; a difference of lengths is clamped to an `int`. -/
def stringCompare (a b : List UInt8) : Int :=
  if memcmp a b = 0 then max (-2 ^ 31) (min (2 ^ 31 - 1) (a.length - b.length)) else memcmp a b

/-- `(a.hostname.compare(b.hostname) | (a.port < b.port)) > 0`, on `int`s. -/
def addressLess (a b : Node) : Bool :=
  (BitVec.ofInt 32 (stringCompare a.hostname b.hostname) ||| if a.port < b.port then 1 else 0).toInt > 0

def ascii (c : Char) : UInt8 := .ofNat c.toNat

/-- `std::to_string` of a number that is not negative. -/
def natToString (n : Nat) : List UInt8 :=
  if n = 0 then [ascii '0'] else ((Nat.digits 10 n).map fun d => .ofNat (48 + d)).reverse

/-- `std::to_string`. -/
def intToString : Int → List UInt8
  | .ofNat n => natToString n
  | .negSucc n => ascii '-' :: natToString (n + 1)

/-- `node.hostname + ":" + std::to_string(node.port)`. -/
def nodeHostIp (node : Node) : List UInt8 :=
  node.hostname ++ ascii ':' :: intToString node.port

/-! ### The state -/

/-- The configuration and the environment variables the scheduler reads. -/
structure SchedulerEnv where
  po : Postoffice
  sort : StdSort Node
  /-- `BYTEPS_ENABLE_MIXED_MODE` -/
  mixedMode : Bool := false
  /-- `BYTEPS_ORDERED_HOSTS` -/
  orderedHosts : Option (List UInt8) := none
  /-- `DMLC_RANK` is set -/
  dmlcRank : Bool := false
  heartbeatTimeout : Int := 0

inductive Scheduler.Effect
  | connect (node : Node)
  | send (msg : Message)
deriving DecidableEq, Repr

structure Scheduler where
  myNode : Node
  ready : Bool := false
  /-- `nodes.control.node` -/
  nodes : List Node := []
  /-- `recovery_nodes.control.node` -/
  recoveryNodes : List Node := []
  connectedNodes : List UInt8 → Option NodeId := fun _ => none
  sharedNodeMapping : NodeId → Option NodeId := fun _ => none
  numServers : Int := 0
  numWorkers : Int := 0
  timestamp : Int := 0
  heartbeats : NodeId → Option Int := fun _ => none
  startTime : Int := 0
  log : List Scheduler.Effect := []

namespace Scheduler

def updateHeartbeat (van : Scheduler) (id : NodeId) (t : Int) : Scheduler :=
  { van with heartbeats := Function.update van.heartbeats id (some t) }

def connect (van : Scheduler) (node : Node) : Scheduler :=
  { van with log := van.log ++ [.connect node] }

/-- Address a message to `r`, stamp it and send it. -/
def send (van : Scheduler) (r : NodeId) (m : Meta) : Scheduler :=
  { van with
    timestamp := van.timestamp + 1
    log := van.log ++ [.send { msgMeta := { m with recver := r, timestamp := van.timestamp } }] }

/-- `GetDeadNodes(t)` at the time `now`. -/
def getDeadNodes (env : SchedulerEnv) (van : Scheduler) (t now : Int) : List NodeId :=
  if !van.ready || t = 0 then []
  else (env.po.nodeIds (kWorkerGroup + kServerGroup)).filter fun r =>
    (match van.heartbeats r with
      | none => true
      | some h => h + t < now) && van.startTime + t < now

/-! ### `UpdateLocalID` -/

def numNodes (po : Postoffice) : Nat :=
  po.numServers * po.groupSize + po.numWorkers * po.groupSize

/-- The loop over the table that looks for a dead node of the role of `node`: the table with `node`
in its place, and `node` under its id. The last entry, the scheduler, is not looked at. -/
def replaceDead (dead : List NodeId) (node : Node) : List Node → List Node × Option Node
  | n :: n' :: l =>
    if n.id ∈ dead ∧ n.role = node.role then
      let recoveryNode := { node with id := n.id, isRecovery := true }
      (recoveryNode :: n' :: l, some recoveryNode)
    else
      let (l, r) := replaceDead dead node (n' :: l)
      (n :: l, r)
  | l => (l, none)

/-- The "update my id" loop. -/
def updateMyId (env : SchedulerEnv) (my : Node) (ctrl : List Node) : Node :=
  ctrl.foldl (fun my node =>
    if my.hostname = node.hostname ∧ my.port = node.port ∧ (env.dmlcRank = false ∨ my.id = kEmpty)
    then node else my) my

def updateLocalID (env : SchedulerEnv) (van : Scheduler) (msg : Message) (dead : List NodeId) :
    Option Scheduler := do
  let ctrl := msg.msgMeta.control.node
  if msg.msgMeta.sender = kEmpty then
    let [node] := ctrl | none
    if van.nodes.length < numNodes env.po then
      return { van with
        nodes := van.nodes ++ [node]
        myNode := updateMyId env van.myNode [node] }
    else
      guard van.ready
      let (nodes, recovery) := replaceDead dead node van.nodes
      return { van with
        nodes := nodes
        recoveryNodes := van.recoveryNodes ++ recovery.toList
        myNode := updateMyId env van.myNode [recovery.getD node] }
  else
    return { van with myNode := updateMyId env van.myNode ctrl }

/-! ### `ProcessAddNodeCommandAtScheduler` -/

/-- `ip_cnt` of the mixed mode: at most two nodes share an address. -/
def ipCount (nodes : List Node) : Option (List UInt8 → Nat) :=
  nodes.foldlM (fun cnt node => do
    guard (cnt node.hostname + 1 ≤ 2)
    return Function.update cnt node.hostname (cnt node.hostname + 1)) fun _ => 0

/-- `ip_pos` of the sparse mode. -/
def ipPos (hosts : List UInt8) : Option (List UInt8 → Option Nat) :=
  ((hosts.splitOn (ascii ',')).map fun h => h.takeWhile (· ≠ ascii ':')).zipIdx.foldlM
    (fun pos (ip, i) => do
      guard (pos ip = none)
      return Function.update pos ip (some i)) fun _ => none

/-- The three ways to sort the registered nodes. -/
def sortNodes (env : SchedulerEnv) (nodes : List Node) : Option (List Node) :=
  match env.mixedMode, env.orderedHosts with
  | true, some _ => none
  | true, none => do
    let cnt ← ipCount nodes
    let nodes := env.sort.sort (fun a b =>
      if cnt a.hostname = cnt b.hostname then addressLess a b
      else cnt a.hostname < cnt b.hostname) nodes
    -- a host with one node has to be a server
    guard (∀ node ∈ nodes, cnt node.hostname = 1 → node.role = .server)
    return nodes
  | false, some hosts => do
    let pos ← ipPos hosts
    return env.sort.sort (fun a b => (pos a.hostname).getD 0 < (pos b.hostname).getD 0) nodes
  | false, none => return env.sort.sort addressLess nodes

/-- The preferred ranks of the servers and of the workers; no rank may come twice. -/
def preferredRanks (nodes : List Node) : Option (List Int × List Int) :=
  nodes.foldlM (fun (servers, workers) node =>
    match node.role with
    | .server => do
      guard (node.auxId ∉ servers)
      return (servers ++ [node.auxId], workers)
    | .worker => do
      guard (node.auxId ∉ workers)
      return (servers, workers ++ [node.auxId])
    | _ => none) ([], [])

/-- The ranks are those from `0` to the number of instances. -/
def checkContinuity (ranks : List Int) (n : Nat) : Option Unit := do
  guard (∀ i < n, (i : Int) ∈ ranks)
  guard (ranks.length = n)

def checkPreferredRanks (po : Postoffice) (nodes : List Node) : Option Unit := do
  let (servers, workers) ← preferredRanks nodes
  checkContinuity servers (po.numServers * po.groupSize)
  checkContinuity workers (po.numWorkers * po.groupSize)

def withPreferredRank (nodes : List Node) : Bool := nodes.any fun node => node.auxId ≠ -1

/-- The id of a node, given how many servers and workers have got theirs. -/
def rankId (preferred : Bool) (numServers numWorkers : Int) (node : Node) : NodeId :=
  if node.role = .server then serverRankToID (if preferred then node.auxId else numServers)
  else workerRankToID (if preferred then node.auxId else numWorkers)

/-- One round of the loop that assigns ids: the node as the table keeps it. -/
def assignId (preferred : Bool) (t : Int) (van : Scheduler) (node : Node) :
    Option (Scheduler × Node) := do
  let id := rankId preferred van.numServers van.numWorkers node
  let (van, node) ← (match van.connectedNodes (nodeHostIp node) with
    | none => do
      guard (node.id = kEmpty)
      let node := { node with id := id }
      let van := (van.connect node).updateHeartbeat id t
      return ({ van with
        connectedNodes := Function.update van.connectedNodes (nodeHostIp node) (some id) }, node)
    | some shared => some ({ van with
        sharedNodeMapping := Function.update van.sharedNodeMapping id (some shared) },
      { node with id := shared }))
  return ({ van with
    numServers := van.numServers + if node.role = .server then 1 else 0
    numWorkers := van.numWorkers + if node.role = .worker then 1 else 0 }, node)

def addNodeMeta (nodes : List Node) : Meta := { control := { cmd := .addNode, node := nodes } }

/-- The branch taken when the last node has arrived. -/
def assignAll (env : SchedulerEnv) (van : Scheduler) (t : Int) : Option Scheduler := do
  let nodes ← sortNodes env van.nodes
  let preferred := withPreferredRank nodes
  if preferred then checkPreferredRanks env.po nodes
  let (van, nodes) ← Run.execOut (assignId preferred t) van nodes
  let nodes := nodes ++ [van.myNode]
  let van := ((env.po.nodeIds (kWorkerGroup + kServerGroup)).filter fun r =>
    (van.sharedNodeMapping r).isNone).foldl (fun van r => van.send r (addNodeMeta nodes)) van
  return { van with nodes := nodes, ready := true }

/-- The branch taken when there is a recovered node: all nodes go to it, it goes to the others. -/
def answerRecovery (env : SchedulerEnv) (van : Scheduler) (t now : Int) : Option Scheduler := do
  let dead := van.getDeadNodes env env.heartbeatTimeout now
  let [node] := van.recoveryNodes | none
  let van := (van.connect node).updateHeartbeat node.id t
  return ((env.po.nodeIds (kWorkerGroup + kServerGroup)).filter fun r =>
    ¬ (r ≠ node.id ∧ r ∈ dead)).foldl (fun v r => v.send r
      (addNodeMeta (if r = node.id then van.nodes else van.recoveryNodes))) van

def processAddNodeCommandAtScheduler (env : SchedulerEnv) (van : Scheduler) (t now : Int) :
    Option Scheduler :=
  if van.nodes.length = numNodes env.po then van.assignAll env t
  else if van.recoveryNodes ≠ [] then van.answerRecovery env t now
  else some van

/-! ### The receiving thread -/

/-- The readings of the clock while one message is processed, in this order. -/
structure Clock where
  onArrival : Int
  onAssign : Int
  onRecovery : Int
deriving DecidableEq, Repr

def processAddNodeCommand (env : SchedulerEnv) (van : Scheduler) (clock : Clock) (msg : Message) :
    Option Scheduler := do
  let dead := van.getDeadNodes env env.heartbeatTimeout clock.onArrival
  let van ← van.updateLocalID env msg dead
  van.processAddNodeCommandAtScheduler env clock.onAssign clock.onRecovery

def processHearbeat (van : Scheduler) (t : Int) (msg : Message) : Scheduler :=
  msg.msgMeta.control.node.foldl (fun van node => (van.updateHeartbeat node.id t).send node.id
    { control := { cmd := .heartbeat, node := [van.myNode] } }) van

/-- A message the receiving thread takes, with the clock while it processes it. -/
def receiving (env : SchedulerEnv) (van : Scheduler) : Clock × Message → Option Scheduler
  | (clock, msg) =>
    match msg.msgMeta.control.cmd with
    | .addNode => van.processAddNodeCommand env clock msg
    | .heartbeat => some (van.processHearbeat clock.onArrival msg)
    | _ => some van

/-- What `Van::Start` of a worker or a server sends. -/
def registration (node : Node) : Message :=
  { msgMeta := { recver := kScheduler, control := { cmd := .addNode, node := [node] } } }

/-- The messages of several nodes that register, one after the other, at a scheduler that has just
started. -/
def register (env : SchedulerEnv) (my : Node) (startTime : Int) (arrivals : List (Clock × Node)) :
    Option Scheduler :=
  Run.exec (receiving env) { myNode := my, startTime := startTime }
    (arrivals.map fun a => (a.1, registration a.2))

/-- The table without its last entry, the scheduler. -/
def registered (van : Scheduler) : List Node := van.nodes.dropLast

end Scheduler

end StepMesh
