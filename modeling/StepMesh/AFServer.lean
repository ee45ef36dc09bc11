import StepMesh.Postoffice

/-!
# The server side (`KVServer`, `include/ps/kv_app.h`; `AFTensorServer`, `include/ps/af_tensor_app.h`)

`KVHandler` collects the requests of a batch in an `AFTensorMeta` that it allocates at the batch's
`START` and deletes at its `END`. `batch_data_` points to the batch a sender started last and
`reorder_buffer_` to the ones that were overtaken. The model keeps the pointers: `heap` holds the live
objects, and a null or dangling pointer that is followed gives `none`.

Left out are the tensor events and the trace points; neither decides what is answered.
-/

namespace StepMesh

namespace KVServer

/-- `KVServer::Process` up to the call of the request handle; a simple-app message goes to
`SimpleApp::Process` instead. -/
def process (po : Postoffice) (msg : Message) : Option (KVMeta × KVPairs) := do
  guard (!msg.msgMeta.simpleApp)
  let kvMeta : KVMeta := {
    cmd := msg.msgMeta.head
    push := msg.msgMeta.push
    sender := workerRankToID (po.instanceIDtoGroupRank msg.msgMeta.sender)
    timestamp := msg.msgMeta.timestamp
    customerId := msg.msgMeta.customerId
    key := msg.msgMeta.key
    addr := msg.msgMeta.addr
    valLen := msg.msgMeta.valLen
    option := msg.msgMeta.option
    isTensor := msg.msgMeta.isTensor
    dtype := msg.msgMeta.dtype
    shape := msg.msgMeta.shape }
  match msg.data with
  | [] => return (kvMeta, {})
  | [_, vals] => return (kvMeta, { keys := msg.keys, vals := vals })
  | [_, vals, _] =>
    guard (msg.lens.length = msg.keys.length)
    return (kvMeta, { keys := msg.keys, vals := vals, lens := msg.lens })
  | _ => none

/-- `KVServer::Response`: the message handed to the van. -/
def response (po : Postoffice) (appId : Int) (req : KVMeta) (res : KVPairs) : Message :=
  let msg : Message := { msgMeta := {
    appId := appId
    customerId := req.customerId
    request := false
    push := req.push
    head := req.cmd
    timestamp := req.timestamp
    recver := po.groupWorkerRankToInstanceID (idToRank req.sender) po.instanceIdx
    key := req.key
    addr := req.addr
    valLen := req.valLen
    option := req.option } }
  if res.keys.isEmpty then msg
  else
    let msg := (msg.addKeys res.keys).addData .other res.vals
    if res.lens.isEmpty then msg else msg.addLens res.lens

end KVServer

/-- Meta information about a batch of kv requests. -/
structure AFTensorMeta where
  sender : NodeId := 0
  senderRank : Int := 0
  single : Bool := false
  lastTimestamp : Int := 0
  pushMetas : List KVMeta := []
  pushTensors : List KeyTensor := []
  pullMetas : List KVMeta := []
  pullTensors : List KeyTensor := []
deriving DecidableEq, Repr

/-- `AFTensorMeta::Add`. -/
def AFTensorMeta.add (m : AFTensorMeta) (kvMeta : KVMeta) (tensor : KeyTensor) : AFTensorMeta :=
  let m := { m with lastTimestamp := kvMeta.timestamp }
  if kvMeta.push then
    { m with pushTensors := m.pushTensors ++ [tensor], pushMetas := m.pushMetas ++ [kvMeta] }
  else
    { m with pullTensors := m.pullTensors ++ [tensor], pullMetas := m.pullMetas ++ [kvMeta] }

/-- What `KVHandler` reads and writes of the server. A missing entry of `batch_data_` and a null one
are the same to the code. -/
structure AFServer where
  heap : Nat → Option AFTensorMeta := fun _ => none
  fresh : Nat := 0
  batchData : NodeId → Option Nat := fun _ => none
  reorderBuffer : List Nat := []

/-- What `KVHandler` calls: `kv_.Response` and `request_handle_`. -/
inductive Effect
  | response (req : KVMeta) (res : KVPairs)
  | handle (afMeta : AFTensorMeta)
deriving DecidableEq, Repr

namespace AFServer

/-- `FromBlob`: a push is received where `vals` lies; a pull has no tensor yet. `elementSize` is `c10::elementSize`
of an `at::ScalarType`. -/
def fromBlob (elementSize : Int → Nat) (reqMeta : KVMeta) (reqData : KVPairs) : Option KeyTensor := do
  let key ← reqData.keys[0]?
  let val : Tensor :=
    if reqMeta.push then
      { storage := reqData.vals.ptr, sizes := reqMeta.shape.map Int.toNat
        itemsize := elementSize reqMeta.dtype, scalarType := reqMeta.dtype
        dims := Strides.length_contiguous _ }
    else .undefined
  return { key := key, val := val }

/-- The first loop over `reorder_buffer_`: the parked batch that waits for this timestamp. -/
def findReorder (heap : Nat → Option AFTensorMeta) (reqMeta : KVMeta) :
    List Nat → Option (Option Nat)
  | [] => some none
  | p :: rest => do
    let m ← heap p
    if m.sender = reqMeta.sender ∧ reqMeta.timestamp = m.lastTimestamp + 1 then return some p
    else findReorder heap reqMeta rest

/-- `new AFTensorMeta` at a `START`: the batch of the same sender that is still open is parked. -/
def startBatch (s : AFServer) (reqMeta : KVMeta) : AFServer :=
  let afMeta : AFTensorMeta :=
    { sender := reqMeta.sender, senderRank := idToRank reqMeta.sender, single := false }
  { s with
    heap := Function.update s.heap s.fresh (some afMeta)
    fresh := s.fresh + 1
    reorderBuffer := s.reorderBuffer ++ (s.batchData reqMeta.sender).toList
    batchData := Function.update s.batchData reqMeta.sender (some s.fresh) }

/-- The batch a request with a batch flag goes to: the server, `af_meta` and `is_reorder`. -/
def batchOf (s : AFServer) (reqMeta : KVMeta) : Option (AFServer × Nat × Bool) :=
  if reqMeta.cmd = afFlagBatchStart then
    some (s.startBatch reqMeta, s.fresh, false)
  else do
    match ← findReorder s.heap reqMeta s.reorderBuffer with
    | some p => return (s, p, true)
    | none =>
      let p ← s.batchData reqMeta.sender
      return (s, p, false)

/-- `*p` is written. -/
def store (s : AFServer) (p : Nat) (afMeta : AFTensorMeta) : AFServer :=
  { s with heap := Function.update s.heap p (some afMeta) }

/-- The end of a batch: it leaves `reorder_buffer_` or `batch_data_` and is deleted. -/
def endBatch (s : AFServer) (reqMeta : KVMeta) (p : Nat) (isReorder : Bool) : AFServer :=
  let s := if isReorder then { s with reorderBuffer := s.reorderBuffer.erase p }
    else { s with batchData := Function.update s.batchData reqMeta.sender none }
  { s with heap := Function.update s.heap p none }

/-- `KVHandler`: the server after it and the calls it makes, in order. -/
def kvHandler (elementSize : Int → Nat) (s : AFServer) (reqMeta : KVMeta) (reqData : KVPairs) :
    Option (AFServer × List Effect) := do
  if reqMeta.cmd = 0 then
    let tensor ← fromBlob elementSize reqMeta reqData
    let afMeta := ({ sender := reqMeta.sender } : AFTensorMeta).add reqMeta tensor
    return (s, [.handle { afMeta with single := true, senderRank := idToRank reqMeta.sender }])
  else
    let ack := if reqMeta.push then [.response reqMeta {}] else []
    let (s, p, isReorder) ← s.batchOf reqMeta
    let afMeta ← s.heap p
    let tensor ← fromBlob elementSize reqMeta reqData
    let afMeta := afMeta.add reqMeta tensor
    if reqMeta.cmd = afFlagBatchEnd then
      return (s.endBatch reqMeta p isReorder, ack ++ [.handle afMeta])
    else
      return (s.store p afMeta, ack)

end AFServer

end StepMesh
