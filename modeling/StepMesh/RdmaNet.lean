import StepMesh.RdmaVan
import StepMesh.Lib.Run

/-!
# The RDMA vans of a cluster and the queue pairs between them

Each queue pair is a FIFO channel per direction. A work request is carried out when it reaches the
front: the receiver's memory is written and, for a send or a write with an immediate, a completion is
queued, which `PollCQ` takes up later. So a rendezvous, the writes of other messages, the completions
and the calls of `RecvMsg` interleave in every way that keeps each channel in order.

`SendMsg` and the handling of one completion are single steps. The state also records what has been
sent, posted and popped; no step reads these records.
-/

namespace StepMesh

open Buf

/-- One direction of a queue pair of the connection that `src` made, or with `back` of the one that `dst`
made: a node has a connection of its own to every peer and answers on that of the peer. -/
structure Link where
  src : NodeId
  dst : NodeId
  qp : Nat := 0
  back : Bool := false
deriving DecidableEq, Repr

/-- `SendRendezvousReply` posts to the endpoint the request came from. -/
def WorkRequest.isReply : WorkRequest → Bool
  | .rendezvousReply _ => true
  | _ => false

/-- A message as `SendMsg` sent it and the message buffer it was sent from; its number is its place in
the record. -/
structure SentMsg where
  sender : NodeId
  msg : Message
  buf : Nat
deriving DecidableEq, Repr

/-- A message as `RecvMsg` handed it out at a node. -/
structure Pop where
  node : NodeId
  note : Notification
  msg : Message
deriving DecidableEq, Repr

structure RdmaNet where
  vans : NodeId → RdmaVan
  chan : Link → List WorkRequest := fun _ => []
  cq : NodeId → List (NodeId × Completion) := fun _ => []
  sent : List SentMsg := []
  posted : NodeId → NodeId → List Nat := fun _ _ => []
  popped : List Pop := []

/-! ### The network -/

namespace RdmaVan

/-- Bytes arrive at an address of the node. -/
def writeAt (van : RdmaVan) : RemoteAddr → List UInt8 → RdmaVan
  | .buffer blk off, bs => van.modifyMem blk (·.store off bs)
  | .user addr, bs => { van with ram := van.ram.store addr bs }

def readAt (van : RdmaVan) : RemoteAddr → Nat → List UInt8
  | .buffer blk off, n => (van.mem blk).load off n
  | .user addr, n => van.ram.load addr n

/-- The adapter carries out a work request of a peer whose memory is `ram`. -/
def receive (van : RdmaVan) (ram : Buf) : WorkRequest → RdmaVan × Option Completion
  | .rendezvousStart req => (van, some (.recvStart req))
  | .rendezvousReply resp => (van, some (.recvReply resp))
  | .write dst src len => (van.writeAt dst (ram.load src len), none)
  | .writeImm dst bytes imm uid => (van.writeAt (.buffer dst 0) bytes, some (.recvImm imm (some uid)))
  | .writeChunkImm dst src len imm => (van.writeAt dst (ram.load src len), some (.recvImm imm none))

end RdmaVan

namespace RdmaNet

inductive Action
  | sendMsg (node : NodeId) (msg : Message)
  | deliver (l : Link)
  | pollCQ (node : NodeId)
  | recvMsg (node : NodeId)
  /-- The application writes its memory. -/
  | store (node : NodeId) (addr : Nat) (bytes : List UInt8)
deriving DecidableEq, Repr

def init (cfg : RdmaCfg) (isServer : NodeId → Bool) : RdmaNet :=
  { vans := fun n => .init cfg n (isServer n) }

def setVan (s : RdmaNet) (n : NodeId) (van : RdmaVan) : RdmaNet :=
  { s with vans := Function.update s.vans n van }

/-- What one function posts goes to the ends of the channels. -/
def post (s : RdmaNet) (src dst : NodeId) (out : Posted) : RdmaNet :=
  { s with
    chan := fun l => s.chan l ++
      if l.src = src ∧ l.dst = dst then
        (out.filter fun p => p.1 = l.qp ∧ p.2.isReply = l.back).map (·.2)
      else []
    posted := fun a b => s.posted a b ++
      if a = src ∧ b = dst then out.filterMap (·.2.signal .notify) else [] }

@[simp] theorem vans_post (s : RdmaNet) (a b : NodeId) (out : Posted) : (s.post a b out).vans = s.vans := rfl
@[simp] theorem cq_post (s : RdmaNet) (a b : NodeId) (out : Posted) : (s.post a b out).cq = s.cq := rfl
@[simp] theorem sent_post (s : RdmaNet) (a b : NodeId) (out : Posted) : (s.post a b out).sent = s.sent := rfl
@[simp] theorem popped_post (s : RdmaNet) (a b : NodeId) (out : Posted) : (s.post a b out).popped = s.popped := rfl

theorem chan_post_single (s : RdmaNet) (a b : NodeId) (q : Nat) (wr : WorkRequest) :
    (s.post a b [(q, wr)]).chan = Function.update s.chan ⟨a, b, q, wr.isReply⟩
      (s.chan ⟨a, b, q, wr.isReply⟩ ++ [wr]) := by
  funext l
  obtain ⟨src, dst, qp, back⟩ := l
  simp only [post, Function.update_apply, Link.mk.injEq]
  by_cases hl : src = a ∧ dst = b ∧ qp = q ∧ back = wr.isReply
  · obtain ⟨rfl, rfl, rfl, rfl⟩ := hl
    simp
  · rw [if_neg hl]
    split_ifs with hab
    · have hq : ¬ (q = qp ∧ wr.isReply = back) := fun hq => hl ⟨hab.1, hab.2, hq.1.symm, hq.2.symm⟩
      simp [hq]
    · simp

theorem post_single (s : RdmaNet) (a b : NodeId) (q : Nat) {wr : WorkRequest} (h : wr.signal .notify = none) :
    s.post a b [(q, wr)] = { s with
      chan := Function.update s.chan ⟨a, b, q, wr.isReply⟩ (s.chan ⟨a, b, q, wr.isReply⟩ ++ [wr]) } := by
  rw [← chan_post_single]
  simp [post, h]

theorem filterMap_post {γ : Type*} (g : WorkRequest → Option γ) (s : RdmaNet) (a b : NodeId) (out : Posted)
    (l : Link) :
    ((s.post a b out).chan l).filterMap g = (s.chan l).filterMap g ++
      if l.src = a ∧ l.dst = b then
        (out.filter fun p => p.1 = l.qp ∧ p.2.isReply = l.back).filterMap (fun p => g p.2)
      else [] := by
  simp only [post, List.filterMap_append]
  split_ifs
  · rw [List.filterMap_map]
    rfl
  · rfl

def step (cfg : RdmaCfg) (s : RdmaNet) : Action → Option RdmaNet
  | .sendMsg n msg => do
    let (van, out, msg, buf) ← (s.vans n).sendMsg cfg msg s.sent.length
    return { (s.setVan n van).post n msg.msgMeta.recver out with sent := s.sent ++ [⟨n, msg, buf⟩] }
  | .deliver l => do
    let wr :: rest := s.chan l | none
    let (van, wc) := (s.vans l.dst).receive (s.vans l.src).ram wr
    return { s.setVan l.dst van with
      chan := Function.update s.chan l rest
      cq := Function.update s.cq l.dst (s.cq l.dst ++ (wc.map (l.src, ·)).toList) }
  | .pollCQ n => do
    let (ep, wc) :: rest := s.cq n | none
    let (van, out) ← (s.vans n).pollCQ cfg ep wc
    return { (s.setVan n van).post n ep out with cq := Function.update s.cq n rest }
  | .recvMsg n => do
    let (van, note, msg) ← (s.vans n).recvMsg cfg
    return { s.setVan n van with popped := s.popped ++ [⟨n, note, msg⟩] }
  | .store n addr bytes =>
    some (s.setVan n { s.vans n with ram := (s.vans n).ram.store addr bytes })

theorem step_deliver_eq_some {cfg : RdmaCfg} {s s' : RdmaNet} {l : Link} (hs : step cfg s (.deliver l) = some s') :
    ∃ wr rest, s.chan l = wr :: rest ∧
      s' = { s.setVan l.dst ((s.vans l.dst).receive (s.vans l.src).ram wr).1 with
        chan := Function.update s.chan l rest
        cq := Function.update s.cq l.dst (s.cq l.dst ++
          (((s.vans l.dst).receive (s.vans l.src).ram wr).2.map (l.src, ·)).toList) } := by
  rw [step] at hs
  split at hs
  · rename_i wr rest hchan
    exact ⟨wr, rest, hchan, (Option.some.inj hs).symm⟩
  · cases hs

/-- The messages from `a` that `b` has popped, in order. -/
def poppedFrom (s : RdmaNet) (a b : NodeId) : List Nat :=
  s.popped.filterMap fun p => if p.node = b ∧ p.note.endpoint = a then some p.note.uid else none

end RdmaNet

end StepMesh
