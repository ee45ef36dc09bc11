import Mathlib.Data.List.Nodup
import Mathlib.Data.List.Perm.Subperm
import StepMesh.Customer

/-!
# `SimpleApp` (`include/ps/simple_app.h`)

`Request` sends to every instance of the server group, but the tracker that `NewRequest` makes expects one
response per group. So `Wait` is right only where a group has one instance (`request_counted_iff`); without a
server there is no request, since `GetNodeIDs` throws.
-/

namespace StepMesh

/-- What a handle gets of a received request or response. -/
structure SimpleData where
  head : Int
  body : List UInt8
  sender : NodeId
  timestamp : Int
  customerId : Int
deriving DecidableEq, Repr

namespace SimpleApp

/-- `Request`: the timestamp, the messages in the order they are sent, and the tracker after it. -/
def request (po : Postoffice) (obj : Customer) (reqHead : Int) (reqBody : List UInt8) (recvId : Int) :
    Option (Int × List Message × Customer) := do
  -- the check of `NewRequest`
  guard (recvId = kServerGroup)
  let (ts, obj) ← obj.newRequest po
  let msgMeta : Meta :=
    { head := reqHead, body := reqBody, timestamp := ts, request := true, simpleApp := true
      appId := obj.appId, customerId := obj.customerId }
  let ids ← po.getNodeIDs recvId
  return (ts, ids.map fun r => { msgMeta := { msgMeta with recver := r } }, obj)

/-- `Process`, up to the call of a handle. -/
def process (msg : Message) : SimpleData where
  sender := msg.msgMeta.sender
  head := msg.msgMeta.head
  body := msg.msgMeta.body
  timestamp := msg.msgMeta.timestamp
  customerId := msg.msgMeta.customerId

/-- `Response`. -/
def response (appId : Int) (req : SimpleData) (resBody : List UInt8) : Message where
  msgMeta := { head := req.head, body := resBody, timestamp := req.timestamp, request := false
               simpleApp := true, appId := appId, customerId := req.customerId, recver := req.sender }

/-- `DirectProcess` as far as the tracker is concerned: the handles do not touch it. -/
def directProcess (obj : Customer) (recv : Message) : Option Customer :=
  if recv.msgMeta.control.cmd = .terminate then some obj
  else if recv.msgMeta.request then some obj
  else obj.addResponse recv.msgMeta.timestamp 1

/-- The response to message `m` of node `me`, as the recipient sends it and `me` receives it. -/
def answer (me : NodeId) (resBody : NodeId → List UInt8) (m : Message) : Message :=
  let req := process { m with msgMeta := { m.msgMeta with sender := me } }
  let res := response m.msgMeta.appId req (resBody m.msgMeta.recver)
  { res with msgMeta := { res.msgMeta with sender := m.msgMeta.recver } }

/-- The tracker of a request expects as many responses as messages were sent. Whichever messages have been
answered, each once and in any order, it has not counted more responses than it expects, and `Wait`
returns only if all messages have been answered. -/
def Counted (ts : Int) (msgs : List Message) (obj : Customer) : Prop :=
  (∃ t, obj.getTracker ts = some t ∧ t.count = msgs.length) ∧
    ∀ me resBody, ∀ answered : List Message, answered.Nodup → answered ⊆ msgs →
      ∃ obj' t, (answered.map (answer me resBody)).foldlM directProcess obj = some obj' ∧
        obj'.getTracker ts = some t ∧ t.responseCount ≤ t.count ∧
        (obj'.waitReturns ts → ∀ m ∈ msgs, m ∈ answered)

variable {po : Postoffice} {obj obj' : Customer} {reqHead ts : Int} {reqBody : List UInt8}
  {msgs : List Message}

/-- What `Request` returns: a fresh tracker, and a message for every server instance. -/
theorem request_eq_some (h : request po obj reqHead reqBody kServerGroup = some (ts, msgs, obj')) :
    0 < po.numServers ∧ obj'.getTracker ts = some { count := po.numServers } ∧
      (∀ m ∈ msgs, m.msgMeta.timestamp = ts) ∧ msgs.length = po.numServers * po.groupSize := by
  simp only [request, guard_true, Option.pure_def, Option.bind_eq_bind, Option.bind_some,
    Option.bind_eq_some_iff, Option.some.injEq, Prod.exists, Prod.mk.injEq] at h
  obtain ⟨_, _, hnew, ids, hids, rfl, rfl, rfl⟩ := h
  obtain ⟨hS, rfl, rfl⟩ := Customer.newRequest_eq_some.mp hnew
  obtain rfl := Postoffice.getNodeIDs_eq_some hids
  refine ⟨hS, ?_, ?_, ?_⟩
  · rw [Customer.getTracker_addRequest]
    exact if_pos rfl
  · simp
  · simp [Postoffice.nodeIds_kServerGroup]

theorem exists_request (hS : 0 < po.numServers) (obj : Customer) (reqHead : Int) (reqBody : List UInt8) :
    ∃ ts msgs obj', request po obj reqHead reqBody kServerGroup = some (ts, msgs, obj') := by
  have hnew : obj.newRequest po = some (↑obj.tracker.length, obj.addRequest po) :=
    Customer.newRequest_eq_some.mpr ⟨hS, rfl, rfl⟩
  have hids : po.getNodeIDs kServerGroup = some po.serverIds := by
    rw [Postoffice.getNodeIDs_kServerGroup, if_neg hS.ne']
  simp only [request, hnew, hids, guard_true, Option.pure_def, Option.bind_eq_bind, Option.bind_some]
  exact ⟨_, _, _, rfl⟩

theorem foldlM_directProcess {t : CustomerTracker} (me : NodeId) (resBody : NodeId → List UInt8)
    (answered : List Message) (hts : ∀ m ∈ answered, m.msgMeta.timestamp = ts)
    (ht : obj.getTracker ts = some t) :
    ∃ obj', (answered.map (answer me resBody)).foldlM directProcess obj = some obj' ∧
      obj'.getTracker ts = some { t with responseCount := t.responseCount + answered.length } := by
  induction answered generalizing obj t with
  | nil => exact ⟨obj, rfl, by simpa using ht⟩
  | cons m answered ih =>
    obtain ⟨hm, hts⟩ := List.forall_mem_cons.mp hts
    obtain ⟨obj₁, h₁⟩ : ∃ obj₁, obj.addResponse ts 1 = some obj₁ := by
      rw [Customer.addResponse, ht]
      exact ⟨_, rfl⟩
    have hstep : directProcess obj (answer me resBody m) = some obj₁ := by
      rw [← h₁, ← hm]
      rfl
    obtain ⟨t₀, ht₀, -, hget⟩ := Customer.addResponse_eq_some h₁
    obtain rfl := Option.some.inj (ht.symm.trans ht₀)
    have ht₁ := hget ts
    rw [if_pos rfl] at ht₁
    obtain ⟨obj', hfold, ht'⟩ := ih hts ht₁
    refine ⟨obj', ?_, ?_⟩
    · rw [List.map_cons, List.foldlM_cons, hstep]
      exact hfold
    · rw [ht', List.length_cons]
      simp only [Option.some.injEq, CustomerTracker.mk.injEq, true_and]
      omega

/-- A request to the server group is made and counted right exactly where there is a server and every group is
one instance. -/
theorem request_counted_iff (po : Postoffice) :
    (∀ obj reqHead reqBody, ∃ ts msgs obj',
      request po obj reqHead reqBody kServerGroup = some (ts, msgs, obj') ∧ Counted ts msgs obj') ↔
    0 < po.numServers ∧ po.groupSize = 1 := by
  constructor
  · intro h
    obtain ⟨ts, msgs, obj', hreq, ⟨t, ht, hcount⟩, -⟩ := h ⟨0, 0, []⟩ 0 []
    obtain ⟨hS, ht', -, hlen⟩ := request_eq_some hreq
    obtain rfl := Option.some.inj (ht.symm.trans ht')
    have hmul : po.numServers * 1 = po.numServers * po.groupSize := by
      rw [Nat.mul_one, ← hlen]
      exact Int.ofNat.inj hcount
    exact ⟨hS, (Nat.eq_of_mul_eq_mul_left hS hmul).symm⟩
  · rintro ⟨hS, hone⟩ obj reqHead reqBody
    obtain ⟨ts, msgs, obj', hreq⟩ := exists_request hS obj reqHead reqBody
    refine ⟨ts, msgs, obj', hreq, ?_⟩
    obtain ⟨-, ht, hts, hlen⟩ := request_eq_some hreq
    have hlen' : msgs.length = po.numServers := by rw [hlen, hone, Nat.mul_one]
    refine ⟨⟨_, ht, by simp [hlen']⟩, fun me resBody answered hnodup hsub => ?_⟩
    obtain ⟨obj₁, hfold, ht₁⟩ :=
      foldlM_directProcess me resBody answered (fun m hm => hts m (hsub hm)) ht
    have hperm : answered.Subperm msgs := hnodup.subperm hsub
    refine ⟨obj₁, _, hfold, ht₁, ?_, fun hwait m hm => ?_⟩
    · have := hperm.length_le
      simp only
      omega
    · have hall : msgs.length ≤ answered.length := by
        have hwait' : (po.numServers : Int) = 0 + answered.length := by
          simpa [Customer.waitReturns, ht₁] using hwait
        omega
      exact (hperm.perm_of_length_le hall).mem_iff.mpr hm

/-- One group of two servers: after one of the two has answered, `Wait` returns. -/
theorem wait_returns_early : ∃ ts msgs obj obj',
    request { numWorkers := 1, numServers := 1, groupSize := 2 } ⟨0, 0, []⟩ 7 [] kServerGroup =
        some (ts, msgs, obj) ∧
      msgs.map (·.msgMeta.recver) = [8, 10] ∧
      ((msgs.take 1).map (answer 9 fun _ => [])).foldlM directProcess obj = some obj' ∧
      obj'.waitReturns ts = true := by
  refine ⟨_, _, _, _, rfl, by decide, rfl, by decide⟩

theorem request_counted_iff_single : ∃ ts msgs obj,
    request { numWorkers := 1, numServers := 2 } ⟨0, 0, []⟩ 7 [] kServerGroup = some (ts, msgs, obj) ∧
      Counted ts msgs obj :=
  (request_counted_iff { numWorkers := 1, numServers := 2 }).mpr ⟨by decide, rfl⟩ ⟨0, 0, []⟩ 7 []

end SimpleApp

end StepMesh
