import Mathlib.Data.List.Sort
import StepMesh.AFWorker
import StepMesh.Lib.Threads

/-!
# The worker side of requests and responses (`KVWorker`, `include/ps/kv_app.h`)

A call of `ZPush` or `Pull_`, the push-pull thread of `AFTensorWorker` and the processing of a
response are threads (`Lib/Threads.lean`) whose operations are the accesses to what they share: the
tracker, `callbacks_`, `recv_kvs_` and the van. `step` starts such a thread or runs its next
operation. `Val` is `char`, so that lengths of values are bytes. `Postoffice::GetWorker()`, which some
functions ask instead of their own post office, has the same number of servers.
-/

namespace StepMesh

/-! ### Slicing a list of keys -/

/-- `std::lower_bound` on an increasing array. -/
def lowerBound (keys : List Key) (key : Key) : Nat := (keys.takeWhile (· < key)).length

def SArray.segment (a : SArray) (first last : Nat) : Option SArray := do
  guard (first ≤ last ∧ last ≤ a.size)
  return { a with ptr := a.ptr + first, size := last - first }

/-- Per server, whether it is sent anything and what. -/
abbrev SlicedKVs := List (Bool × KVPairs)

/-- A slicer partitions a list by the key ranges of the servers, one slice each. -/
structure Slicer where
  slice : KVPairs → List Range → Option SlicedKVs
  length_slice : ∀ {send ranges sliced}, slice send ranges = some sliced →
    sliced.length = ranges.length

/-- `pos`: where the keys of each range begin, and where the last ones end. -/
def slicePositions (keys : List Key) (ranges : List Range) : List Nat :=
  ranges.scanl (fun pos r => pos + lowerBound (keys.drop pos) r.stop)
    ((ranges.head?.map fun r => lowerBound keys r.start).getD 0)

/-- The last loop of `DefaultSlicer`, over the pairs of positions; `k` is the length of a value if
`lens` is empty, `valBegin` is where the values of the next slice begin otherwise. -/
def sliceLoop (send : KVPairs) (k : Nat) : Nat → List (Nat × Nat) → Option SlicedKVs
  | _, [] => some []
  | valBegin, (pos, pos') :: rest => do
    if pos' = pos then
      let sliced ← sliceLoop send k valBegin rest
      return (false, {}) :: sliced
    else
      let keys := (send.keys.drop pos).take (pos' - pos)
      if send.lens ≠ [] then
        let lens := (send.lens.drop pos).take (pos' - pos)
        -- a negative length wraps around in `size_t`
        let valEnd := ((valBegin + lens.sum) % 2 ^ 64).toNat
        let vals ← send.vals.segment valBegin valEnd
        let sliced ← sliceLoop send k valEnd rest
        return (true, { keys, vals, lens }) :: sliced
      else
        let vals ← send.vals.segment (pos * k) (pos' * k)
        let sliced ← sliceLoop send k valBegin rest
        return (true, { keys, vals }) :: sliced

def defaultSlice (send : KVPairs) (ranges : List Range) : Option SlicedKVs := do
  guard ((ranges.zip ranges.tail).all fun (r, r') => r.stop == r'.start)
  let pos := slicePositions send.keys ranges
  guard (pos.getLast? = some send.keys.length)
  if send.keys = [] then return ranges.map fun _ => (false, {})
  let k := if send.lens = [] then send.vals.size / send.keys.length else 0
  if send.lens = [] then guard (k * send.keys.length = send.vals.size)
  else guard (send.keys.length = send.lens.length)
  sliceLoop send k 0 (pos.zip pos.tail)

theorem length_sliceLoop {send : KVPairs} {k : Nat} {ps : List (Nat × Nat)} {valBegin : Nat}
    {sliced : SlicedKVs} (h : sliceLoop send k valBegin ps = some sliced) :
    sliced.length = ps.length := by
  induction ps generalizing valBegin sliced with
  | nil => obtain rfl := Option.some.inj h; rfl
  | cons p ps ih =>
    obtain ⟨pos, pos'⟩ := p
    unfold sliceLoop at h
    split_ifs at h
    all_goals
      simp only [Option.bind_eq_bind, Option.bind_eq_some_iff, Option.pure_def, Option.some.injEq] at h
    · obtain ⟨sliced', h', rfl⟩ := h
      simp [ih h']
    · obtain ⟨vals, -, sliced', h', rfl⟩ := h
      simp [ih h']
    · obtain ⟨vals, -, sliced', h', rfl⟩ := h
      simp [ih h']

theorem length_defaultSlice {send : KVPairs} {ranges : List Range} {sliced : SlicedKVs}
    (h : defaultSlice send ranges = some sliced) : sliced.length = ranges.length := by
  unfold defaultSlice at h
  simp only [Option.bind_eq_bind, Option.bind_eq_some_iff] at h
  obtain ⟨-, -, -, -, h⟩ := h
  split_ifs at h
  · obtain rfl := Option.some.inj h; simp
  · obtain ⟨-, -, h⟩ := Option.bind_eq_some_iff.mp h
    simp [length_sliceLoop h, slicePositions]
  · obtain ⟨-, -, h⟩ := Option.bind_eq_some_iff.mp h
    simp [length_sliceLoop h, slicePositions]

/-- `DefaultSlicer`. -/
def defaultSlicer : Slicer := ⟨defaultSlice, length_defaultSlice⟩

/-! ### Callbacks -/

/-- What the completion routine of `Pull_` leaves in the caller's `vals` and `lens`: the new size of
`vals`, the arrays copied there one after the other, and the lengths. -/
structure Pulled where
  size : Nat
  vals : List SArray := []
  lens : List Int := []
deriving DecidableEq, Repr

/-- `FindRange(keys, lower, upper).size()`. -/
def findRangeSize (keys : List Key) (lower upper : Key) : Nat :=
  if upper ≤ lower then 0 else lowerBound keys upper - lowerBound keys lower

/-- The completion routine of `Pull_`, with the sizes of the caller's `vals` and `lens`. -/
def completePull (isWorkerZpull : Bool) (keys : List Key) (vals : Nat) (lens : Option Nat)
    (kvs : List KVPairs) : Option Pulled := do
  kvs.forM fun s => do
    let front ← s.keys.head?
    let back ← s.keys.getLast?
    guard (findRangeSize keys front (back + 1) = s.keys.length)
    guard (lens.isSome → s.lens.length = s.keys.length)
  let totalVal := (kvs.map (·.vals.size)).sum
  guard ((kvs.map (·.keys.length)).sum = keys.length)
  guard (vals = 0 ∨ totalVal ≤ vals)
  let size := if vals = 0 then totalVal else vals
  if isWorkerZpull then return { size }
  guard (lens.all fun n => n == 0 || n == keys.length)
  let kvs := kvs.insertionSort fun a b => a.keys.headD 0 ≤ b.keys.headD 0
  return { size, vals := kvs.map (·.vals), lens := if lens.isSome then kvs.flatMap (·.lens) else [] }

/-- The callbacks that are ever registered: the user's one of `ZPush`, the completion routine of
`Pull_` around a user's one, and that of an AF pull. -/
inductive Callback
  | user
  | completePull (keys : List Key) (vals : Nat) (lens : Option Nat) (cb : Bool)
  | eraseRecvKvs
deriving DecidableEq, Repr

/-! ### Operations -/

structure KVWorker where
  po : Postoffice
  slicer : Slicer := defaultSlicer
  isWorkerZpull : Bool := true
  obj : Customer
  callbacks : Int → Option Callback := fun _ => none
  recvKvs : Int → Option (List KVPairs) := fun _ => none

namespace KVWorker

/-- The message of `Send` for server `i`. -/
def sendMsgOf (w : KVWorker) (ts : Int) (push : Bool) (cmd : Int) (i : Nat) (kvs : KVPairs) :
    Message :=
  let msg : Message := { msgMeta := {
    appId := w.obj.appId
    customerId := w.obj.customerId
    request := true
    push := push
    head := cmd
    timestamp := ts
    recver := w.po.groupServerRankToInstanceID i w.po.instanceIdx
    addr := .ofNat kvs.vals.ptr
    valLen := (kvs.vals.size : Int).bmod (2 ^ 32) } }
  let vals := if push then kvs.vals else {}
  let msg := if kvs.keys = [] then msg else
    let msg := (msg.addKeys kvs.keys).addData .other vals
    if kvs.lens = [] then msg else msg.addLens kvs.lens
  if push then msg else
    { msg with msgMeta := { msg.msgMeta with
      srcDevType := kvs.vals.srcDeviceType, srcDevId := kvs.vals.srcDeviceId
      dstDevType := kvs.vals.dstDeviceType, dstDevId := kvs.vals.dstDeviceId } }

/-- One access to shared state. -/
inductive Op
  | addCallback (ts : Int) (cb : Callback)
  | addResponse (ts : Int) (num : Nat)
  | send (msg : Message)
  /-- `RunCallback`, up to the call. -/
  | runCallback (ts : Int)
  | invoke (ts : Int) (cb : Callback)
  | eraseCallback (ts : Int)
  /-- `recv_kvs_[ts].push_back(kvs)`. -/
  | storeKvs (ts : Int) (kvs : KVPairs)
  /-- The end of `Process`. -/
  | checkFinished (ts : Int)
  /-- The end of `DirectProcess`; `req` is the request that was answered. -/
  | countResponse (req : Message)
deriving DecidableEq, Repr

/-- `Send`, after slicing. -/
def sendOps (w : KVWorker) (ts : Int) (push : Bool) (cmd : Int) (sliced : SlicedKVs) : List Op :=
  let skipped := sliced.countP fun s => !s.1
  [.addResponse ts skipped] ++
    (if skipped = sliced.length then [.runCallback ts] else []) ++
    (sliced.zipIdx.filter fun s => s.1.1).map fun s =>
      .send (w.sendMsgOf ts push cmd s.2 s.1.2)

/-- `DirectProcess` of a response to `req`: `Process`, then the count. `SimpleApp::Process` touches
nothing that is modelled here. -/
def directProcess (req msg : Message) : Option (List Op) := do
  let ts := msg.msgMeta.timestamp
  let kvs : KVPairs := { keys := msg.keys, vals := msg.data.getD 1 {}, lens := msg.lens }
  if msg.msgMeta.simpleApp then return [.countResponse req]
  else if msg.msgMeta.push ∨ msg.data = [] then return [.checkFinished ts, .countResponse req]
  else
    guard (2 ≤ msg.data.length)
    return [.storeKvs ts kvs, .checkFinished ts, .countResponse req]

/-- What `ZBatchPushPull_` does with the messages it sends: `ZPull_` registers a callback after each. -/
def afOps (sent : List (Nat × Message)) : List Op :=
  sent.flatMap fun p =>
    if p.2.msgMeta.push then [.send p.2]
    else [.send p.2, .addCallback p.2.msgMeta.timestamp .eraseRecvKvs]

end KVWorker

/-! ### The system -/

/-- Every timestamp of the request is allocated. -/
def AFTensorRequest.Allocated (po : Postoffice) (req : AFTensorRequest) : Prop :=
  req.pushTimestamps.length = req.push.length ∧
    req.pullTimestamps.length = req.pull.length / po.numServers

instance (po : Postoffice) (req : AFTensorRequest) : Decidable (req.Allocated po) :=
  inferInstanceAs (Decidable (_ ∧ _))

/-- A request as it was issued: whether it registers a callback and which slices are sent. -/
structure Issued where
  ts : Int
  callback : Bool
  slices : List Bool
deriving DecidableEq, Repr

/-- Everything but the threads. `calls` are the calls of `ZBatchPushPull` that still allocate
timestamps, `inFlight` the messages that no server has answered. The last group is history. -/
structure WorkerShared where
  worker : KVWorker
  calls : List AFTensorRequest := []
  pushpullQueue : List AFTensorRequest := []
  inFlight : List Message := []
  issued : List Issued := []
  sent : List Message := []
  answered : List Message := []
  ran : List Int := []
  pulled : List (Int × Pulled) := []

/-- Thread 0 is the push-pull thread. -/
abbrev WorkerSys := Threads.Sys WorkerShared KVWorker.Op

namespace KVWorker

/-- One operation: the new state and the operations called. -/
def exec (op : Op) (s : WorkerShared) : Option (WorkerShared × List Op) :=
  let w := s.worker
  match op with
  | .addCallback ts cb =>
    some ({ s with worker := { w with callbacks := Function.update w.callbacks ts (some cb) } }, [])
  | .addResponse ts num => do
    let obj ← w.obj.addResponse ts num
    return ({ s with worker := { w with obj } }, [])
  | .send msg => some ({ s with inFlight := s.inFlight ++ [msg], sent := s.sent ++ [msg] }, [])
  | .runCallback ts =>
    match w.callbacks ts with
    | none => some (s, [])
    | some cb => some (s, [.invoke ts cb, .eraseCallback ts])
  | .invoke ts cb =>
    let erased := Function.update w.recvKvs ts none
    match cb with
    | .user => some ({ s with ran := s.ran ++ [ts] }, [])
    | .eraseRecvKvs => some ({ s with worker := { w with recvKvs := erased }, ran := s.ran ++ [ts] }, [])
    | .completePull keys vals lens _ => do
      let pulled ← StepMesh.completePull w.isWorkerZpull keys vals lens ((w.recvKvs ts).getD [])
      return ({ s with
        worker := { w with recvKvs := erased }
        ran := s.ran ++ [ts]
        pulled := s.pulled ++ [(ts, pulled)] }, [])
  | .eraseCallback ts =>
    some ({ s with worker := { w with callbacks := Function.update w.callbacks ts none } }, [])
  | .storeKvs ts kvs =>
    let stored := some ((w.recvKvs ts).getD [] ++ [kvs])
    some ({ s with worker := { w with recvKvs := Function.update w.recvKvs ts stored } }, [])
  | .checkFinished ts => do
    let num ← w.obj.numResponse ts
    return (s, if num = w.po.numServers - 1 then [.runCallback ts] else [])
  | .countResponse req => do
    let obj ← w.obj.addResponse req.msgMeta.timestamp 1
    return ({ s with worker := { w with obj }, answered := s.answered ++ [req] }, [])

/-- `NewRequest`, with the slices the request will have. -/
def newRequest (s : WorkerShared) (callback : Bool) (slices : List Bool) : Option (Int × WorkerShared) := do
  let (ts, obj) ← s.worker.obj.newRequest s.worker.po
  return (ts, { s with
    worker := { s.worker with obj := obj }
    issued := s.issued ++ [⟨ts, callback, slices⟩] })

/-- `ZPush` and `Pull_`. -/
def request (s : WorkerSys) (push : Bool) (kvs : KVPairs) (cmd : Int) (cb : Option Callback) :
    Option WorkerSys := do
  let w := s.shared.worker
  let sliced ← w.slicer.slice kvs w.po.getServerKeyRanges
  let (ts, shared) ← newRequest s.shared cb.isSome (sliced.map (·.1))
  let addCallback := (cb.map (Op.addCallback ts)).toList
  return Threads.Sys.spawn { s with shared } (addCallback ++ w.sendOps ts push cmd sliced)

inductive Action
  | zPush (keys : List Key) (vals : SArray) (lens : List Int) (cmd : Int) (cb : Bool)
  | pull (keys : List Key) (vals : SArray) (lens : Option Nat) (cmd : Int) (cb : Bool)
  /-- A thread enters `ZBatchPushPull`. -/
  | zBatchPushPull (push pull : List KeyTensor)
  /-- The next `AllocTimestamp` of call `i`. -/
  | allocTimestamp (i : Nat)
  /-- Call `i` queues its request and returns. -/
  | queueRequest (i : Nat)
  /-- The idle push-pull thread takes the next request. -/
  | popRequest
  /-- The answer `msg` to message `k` of those in flight arrives. -/
  | answer (k : Nat) (msg : Message)
  | tick (i : Nat)

/-- `AllocTimestamp` of call `i`: the pushes first. An AF request goes to every server. -/
def allocTimestamp (s : WorkerShared) (i : Nat) : Option WorkerShared := do
  let req ← s.calls[i]?
  let servers := s.worker.po.numServers
  let slices := List.replicate servers true
  if req.pushTimestamps.length < req.push.length then
    let (ts, s) ← newRequest s false slices
    return { s with calls := s.calls.set i { req with pushTimestamps := req.pushTimestamps ++ [ts] } }
  else
    guard (req.pullTimestamps.length < req.pull.length / servers)
    let (ts, s) ← newRequest s true slices
    return { s with calls := s.calls.set i { req with pullTimestamps := req.pullTimestamps ++ [ts] } }

/-- The end of call `i`. -/
def queueRequest (s : WorkerShared) (i : Nat) : Option WorkerShared := do
  let req ← s.calls[i]?
  guard (req.Allocated s.worker.po)
  return { s with calls := s.calls.eraseIdx i, pushpullQueue := s.pushpullQueue ++ [req] }

def step (s : WorkerSys) : Action → Option WorkerSys
  | .zPush keys vals lens cmd cb =>
    request s true { keys, vals, lens } cmd (if cb then some .user else none)
  | .pull keys vals lens cmd cb =>
    request s false { keys, vals } cmd (some (.completePull keys vals.size lens cb))
  | .zBatchPushPull push pull => do
    guard (0 < s.shared.worker.po.numServers)
    return { s with shared := { s.shared with calls := s.shared.calls ++ [⟨push, pull, [], []⟩] } }
  | .allocTimestamp i => (allocTimestamp s.shared i).map fun shared => { s with shared }
  | .queueRequest i => (queueRequest s.shared i).map fun shared => { s with shared }
  | .popRequest => do
    let w := s.shared.worker
    guard (s.threads[0]? = some [])
    let req ← s.shared.pushpullQueue.head?
    let sent ← AFWorker.zBatchPushPull_ ⟨w.po, w.obj.appId, w.obj.customerId⟩ req
    return {
      shared := { s.shared with pushpullQueue := s.shared.pushpullQueue.tail }
      threads := s.threads.set 0 (afOps sent) }
  | .answer k msg => do
    let req ← s.shared.inFlight[k]?
    -- the server fills in the timestamp and the direction of the request
    guard (msg.msgMeta.timestamp = req.msgMeta.timestamp ∧ msg.msgMeta.push = req.msgMeta.push)
    let ops ← directProcess req msg
    return Threads.Sys.spawn
      { s with shared := { s.shared with inFlight := s.shared.inFlight.eraseIdx k } } ops
  | .tick i => Threads.tick exec s i

/-- A worker that has done nothing yet; the push-pull thread is idle. -/
def init (po : Postoffice) (slicer : Slicer) (isWorkerZpull : Bool) (appId customerId : Int) :
    WorkerSys :=
  ⟨{ worker := { po, slicer, isWorkerZpull, obj := { appId, customerId } } }, [[]]⟩

end KVWorker

end StepMesh
