import StepMesh.AFServer

/-!
# The Python server (`fserver/csrc/public.hpp`, `AFTensorServer::Response` and `ResponseWorker`)

`RequestHandler` files a batch under a handler number, the application answers it with `respond` or
`respond_vec`, and `Response` either answers at once or queues the answers for the thread that runs
`ResponseWorker`. `sent` lists the calls of `kv_.Response` in order; `KVServer.response` is the
message such a call makes.
-/

namespace StepMesh

/-- `slice(0, start, stop)`: a view of rows of a tensor, clamped to those it has, with the strides of the tensor.
A tensor without dimensions has none. -/
def Tensor.slice (t : Tensor) (start stop : Nat) : Option Tensor :=
  match h : t.sizes with
  | [] => none
  | rows :: tail =>
    let stop := min stop rows
    let start := min start stop
    some { t with
      offset := t.offset + start * t.strides.headD 0
      sizes := (stop - start) :: tail
      dims := by rw [t.dims, h, List.length_cons, List.length_cons] }

/-- An answer: the request and what is sent back for it. -/
structure AFTensorResponse where
  kvMeta : KVMeta
  kvPair : KVPairs
deriving DecidableEq, Repr

inductive ServerError
  | keyNotFound (key : Key)
  | tooManyKeys
deriving DecidableEq, Repr

/-- `ServerDataBatch`. -/
structure ServerDataBatch where
  handler : Nat
  tensors : List Tensor
  keys : List Key
deriving DecidableEq, Repr

/-- `handler_counter_` is a `uint64_t`, here a number without a bound: runs of this state are runs of the code as long
as fewer than `2 ^ 64` batches arrive. The calls of `HandlerSys` wrap it around. -/
structure FServer where
  server : AFServer := {}
  metaMap : Nat → Option AFTensorMeta := fun _ => none
  handlerCounter : Nat := 0
  q : List (List ServerDataBatch)
  qSignal : UInt64 := 0
  responseQueue : List AFTensorResponse := []
  sent : List AFTensorResponse := []
  errors : List ServerError := []

namespace FServer

/-- `1 << rank` for an `int` 1, widened to the signal word. -/
def signalBit (rank : Nat) : UInt64 := ⟨((1#32) <<< (rank % 32)).signExtend 64⟩

/-- `RequestHandler`. -/
def requestHandler (f : FServer) (reqMeta : AFTensorMeta) : Option FServer := do
  let rank := reqMeta.senderRank.toNat
  let queue ← f.q[rank]?
  let batch : ServerDataBatch := {
    handler := f.handlerCounter
    tensors := reqMeta.pushTensors.map (·.val)
    keys := reqMeta.pushTensors.map (·.key) }
  return { f with
    metaMap := Function.update f.metaMap f.handlerCounter (some reqMeta)
    q := f.q.set rank (queue ++ [batch])
    qSignal := f.qSignal ||| signalBit rank
    handlerCounter := f.handlerCounter + 1 }

/-- A call that `KVHandler` makes. -/
def effect (f : FServer) : Effect → Option FServer
  | .response req res => some { f with sent := f.sent ++ [⟨req, res⟩] }
  | .handle afMeta => f.requestHandler afMeta

/-- A request arrives: `KVHandler`. -/
def recv (elementSize : Int → Nat) (f : FServer) (r : KVMeta × KVPairs) : Option FServer := do
  let (server, effects) ← f.server.kvHandler elementSize r.1 r.2
  effects.foldlM effect { f with server := server }

/-- The data that answers a pull with a tensor. -/
def pullAnswer (kt : KeyTensor) : KVPairs := { keys := [kt.key], vals := kt.val.toSArray }

/-- The inner loop of `Response`: the first tensor with the key of the request answers it. -/
def matchPull (tensors : List KeyTensor) (kvMeta : KVMeta) : AFTensorResponse ⊕ ServerError :=
  match tensors.find? (·.key = kvMeta.key) with
  | some kt => .inl ⟨kvMeta, pullAnswer kt⟩
  | none => .inr (.keyNotFound kvMeta.key)

/-- `AFTensorServer::Response`. -/
def response (f : FServer) (afMeta : AFTensorMeta) (tensors : List KeyTensor) : Option FServer := do
  if afMeta.single then
    if afMeta.pullTensors.length = 1 then
      let kt ← tensors[0]?
      let kvMeta ← afMeta.pullMetas[0]?
      return { f with sent := f.sent ++ [⟨kvMeta, pullAnswer kt⟩] }
    else if afMeta.pushMetas.length = 1 then
      let kvMeta ← afMeta.pushMetas[0]?
      return { f with sent := f.sent ++ [⟨kvMeta, {}⟩] }
    else return f
  else
    let matches_ ← (List.range afMeta.pullTensors.length).mapM fun i => do
      let kvMeta ← afMeta.pullMetas[i]?
      return matchPull tensors kvMeta
    let responses := matches_.filterMap (·.getLeft?)
    let tooMany := if responses.length < tensors.length then [ServerError.tooManyKeys] else []
    return { f with
      responseQueue := f.responseQueue ++ responses
      errors := f.errors ++ matches_.filterMap (·.getRight?) ++ tooMany }

/-- `respond`. -/
def respond (f : FServer) (tensors : List Tensor) (handler : Nat) : Option FServer := do
  let reqMeta ← f.metaMap handler
  guard (tensors.length = reqMeta.pullTensors.length)
  let result := List.zipWith (fun kt t => KeyTensor.mk kt.key t) reqMeta.pullTensors tensors
  f.response reqMeta result

/-- `respond_vec`: every slice starts at row 0. -/
def respondVec (f : FServer) (retBuffer : Tensor) (tensorsVec : List Tensor)
    (handlerVec : List Nat) : Option FServer := do
  guard (tensorsVec.length = handlerVec.length)
  (tensorsVec.zip handlerVec).foldlM (fun f th => do
    let tensorShape0 ← th.1.sizes.head?
    let sliced ← retBuffer.slice 0 tensorShape0
    f.respond [sliced] th.2) f

/-- One round of `ResponseWorker`. -/
def responseWorker (f : FServer) : Option FServer :=
  match f.responseQueue with
  | [] => none
  | rsp :: rest => some { f with responseQueue := rest, sent := f.sent ++ [rsp] }

/-- What can happen on the server. The tag of an arriving request names its batch; the server does
not see it. -/
inductive Action (ι : Type*)
  | recv (i : ι) (r : KVMeta × KVPairs)
  | respond (handler : Nat) (tensors : List Tensor)
  | responseWorker

def step {ι : Type*} (elementSize : Int → Nat) (f : FServer) : Action ι → Option FServer
  | .recv _ r => f.recv elementSize r
  | .respond handler tensors => f.respond tensors handler
  | .responseWorker => f.responseWorker

end FServer

end StepMesh
