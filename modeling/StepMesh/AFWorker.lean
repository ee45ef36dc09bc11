import StepMesh.Customer

/-!
# The worker side of a batch (`AFTensorWorker`, `include/ps/af_tensor_app.h`)

`zBatchPushPull` runs in the user's thread: it allocates the timestamps and queues an
`AFTensorRequest`. `zBatchPushPull_` runs in the push-pull thread and is modelled by the messages it
hands to `KVWorker::SendMsg`, in order, each with the server group it is for. A failed check or an
index past the end of a vector is `none`.
-/

namespace StepMesh

/-- `AF request`. -/
structure AFTensorRequest where
  push : List KeyTensor
  pull : List KeyTensor
  pushTimestamps : List Int
  pullTimestamps : List Int
deriving DecidableEq, Repr

def AFTensorRequest.timestamps (req : AFTensorRequest) : List Int := req.pushTimestamps ++ req.pullTimestamps

/-- What the worker's methods read of `kv_`: the post office and the ids of its customer. -/
structure AFWorker where
  po : Postoffice
  appId : Int := 0
  customerId : Int := 0
deriving DecidableEq, Repr

namespace AFWorker

/-- `n` calls of `kv_.AllocTimestamp()`. -/
def allocTimestamps (po : Postoffice) : Nat → Customer → Option (List Int × Customer)
  | 0, c => some ([], c)
  | n + 1, c => do
    let (ts, c) ← c.newRequest po
    let (tss, c) ← allocTimestamps po n c
    return (ts :: tss, c)

/-- `ZBatchPushPull`: the queued request, the returned handle, the entry of `batch_timestamps_` and
the tracker after it. -/
def zBatchPushPull (w : AFWorker) (c : Customer) (pushTensors pullTensors : List KeyTensor) :
    Option (AFTensorRequest × Int × List Int × Customer) := do
  let serverCount := w.po.getServerKeyRanges.length
  guard (0 < serverCount)
  let (pushTimestamps, c) ← allocTimestamps w.po pushTensors.length c
  let (pullTimestamps, c) ← allocTimestamps w.po (pullTensors.length / serverCount) c
  let all := pushTimestamps ++ pullTimestamps
  return (⟨pushTensors, pullTensors, pushTimestamps, pullTimestamps⟩, all.headD 0, all.tail, c)

/-- The message of `ZPush_` (`push`) and of `ZPull_`: they differ in the direction only. -/
def zMsg (push : Bool) (ts : Int) (kt : KeyTensor) (cmd : Int) : Message :=
  let msg : Message := { msgMeta := {
    request := true
    head := cmd
    push := push
    timestamp := ts
    addr := .ofNat kt.val.dataPtr
    valLen := (kt.val.nbytes : Int).bmod (2 ^ 32)
    key := kt.key
    isTensor := 1
    dtype := kt.val.scalarType
    shape := kt.val.sizes.map Int.ofNat } }
  (msg.addKeys [kt.key]).addData .other kt.val.toSArray

/-- `KVWorker::SendMsg`: the fields it sets before the van sends the message. -/
def sendMsg (w : AFWorker) (msg : Message) (dst : Nat) : Message :=
  { msg with msgMeta := { msg.msgMeta with
    appId := w.appId
    customerId := w.customerId
    recver := w.po.groupServerRankToInstanceID dst w.po.instanceIdx } }

/-- `ZPush_`: broadcast to all servers. -/
def zPush_ (w : AFWorker) (ts : Int) (kt : KeyTensor) (cmd : Int := 0) : List (Nat × Message) :=
  (List.range w.po.getServerKeyRanges.length).map fun i => (i, w.sendMsg (zMsg true ts kt cmd) i)

/-- `ZPull_`: server `i` is asked for entry `index` of its own block of `pull_tensors`. -/
def zPull_ (w : AFWorker) (ts : Int) (pullTensors : List KeyTensor) (index : Nat) (cmd : Int := 0) :
    Option (List (Nat × Message)) :=
  let serverCount := w.po.getServerKeyRanges.length
  let pullBatchSize := pullTensors.length / serverCount
  (List.range serverCount).mapM fun i => do
    let kt ← pullTensors[i * pullBatchSize + index]?
    return (i, w.sendMsg (zMsg false ts kt cmd) i)

/-- The flag of push `i` in the push loop. -/
def pushCmd (pushCount pullCount i : Nat) : Int :=
  if i = 0 then afFlagBatchStart
  else if pullCount = 0 ∧ i = pushCount - 1 then afFlagBatchEnd
  else afFlagBatchMiddle

/-- The flag of pull `i` in the pull loop; `first` says that there was no push. -/
def pullCmd (first : Bool) (pullBatchSize i : Nat) : Int :=
  if first ∧ i = 0 then afFlagBatchStart
  else if i = pullBatchSize - 1 then afFlagBatchEnd
  else afFlagBatchMiddle

/-- `ZBatchPushPull_`. -/
def zBatchPushPull_ (w : AFWorker) (req : AFTensorRequest) : Option (List (Nat × Message)) := do
  let serverCount := w.po.getServerKeyRanges.length
  guard (1 ≤ req.push.length + req.pull.length)
  guard (0 < serverCount)
  if req.push.length + req.pull.length = 1 then
    if req.push.length = 1 then
      let kt ← req.push[0]?
      let ts ← req.pushTimestamps[0]?
      return w.zPush_ ts kt
    else
      let ts ← req.pullTimestamps[0]?
      w.zPull_ ts req.pull 0
  else
    let pushes ← (List.range req.push.length).mapM fun i => do
      let kt ← req.push[i]?
      let ts ← req.pushTimestamps[i]?
      return w.zPush_ ts kt (pushCmd req.push.length req.pull.length i)
    let first := req.push.length = 0
    let pullBatchSize := req.pull.length / serverCount
    let pulls ← (List.range pullBatchSize).mapM fun i => do
      let ts ← req.pullTimestamps[i]?
      w.zPull_ ts req.pull i (pullCmd first pullBatchSize i)
    return pushes.flatten ++ pulls.flatten

/-! ### What one server is sent -/

/-- The messages for server group `s`, in the order they are sent. -/
def sentTo (s : Nat) (sent : List (Nat × Message)) : List Message :=
  (sent.filter fun p => p.1 = s).map (·.2)

/-- The pull tensors that server `s` is asked for: `Q[s·b .. s·b+b-1]` with `b = |Q| / S`. -/
def pullBlock (w : AFWorker) (pull : List KeyTensor) (s : Nat) : List KeyTensor :=
  (pull.drop (s * (pull.length / w.po.numServers))).take (pull.length / w.po.numServers)

/-- The requests of a batch to server `s`, still without their flags: the pushes in order, then the
pulls of its block in order, with the allocated timestamps. -/
def requestsTo (w : AFWorker) (req : AFTensorRequest) (s : Nat) : List (Int → Message) :=
  List.zipWith (fun ts kt cmd => w.sendMsg (zMsg true ts kt cmd) s) req.pushTimestamps req.push ++
    List.zipWith (fun ts kt cmd => w.sendMsg (zMsg false ts kt cmd) s) req.pullTimestamps
      (w.pullBlock req.pull s)

/-- The flags a server can take for one batch: a single message with command 0, or exactly one
`START` first, one `END` last and only `MIDDLE` between. -/
inductive BatchFlags : List Int → Prop
  | single : BatchFlags [0]
  | framed (k : Nat) :
    BatchFlags (afFlagBatchStart :: (List.replicate k afFlagBatchMiddle ++ [afFlagBatchEnd]))

/-- Every server is sent its requests, framed as one closed batch, and every pull tensor is
requested from exactly one server. -/
structure WellFramed (w : AFWorker) (req : AFTensorRequest) (sent : List (Nat × Message)) : Prop where
  toServer : ∀ s < w.po.numServers, ∃ cmds, BatchFlags cmds ∧
    cmds.length = req.push.length + req.pull.length / w.po.numServers ∧
    (w.requestsTo req s).length = cmds.length ∧
    sentTo s sent = List.zipWith (fun r cmd => r cmd) (w.requestsTo req s) cmds
  pull_once : ((List.range w.po.numServers).flatMap fun s => w.pullBlock req.pull s) = req.pull

end AFWorker

end StepMesh
