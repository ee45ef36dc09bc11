import Mathlib.Data.Option.Basic
import StepMesh.AFWorkerFrames
import StepMesh.Lib.Run

/-!
# Handles (`AFTensorWorker::ZBatchPushPull`, `Wait` and `GetAllHandlers`, `include/ps/af_tensor_app.h`)

The user's thread makes a call of `ZBatchPushPull` in two steps, before and after the request is queued and
its timestamps are stored in `batch_timestamps_`; the push-pull thread sends the queued requests, responses
arrive in any order, and any number of calls of `Wait` go on at the same time. `batch_timestamps_` is a map.
`issued`, `answered` and `returned` are the calls that have returned with their handles, the responses that
have arrived with the servers they are from, and the handles whose `Wait` has returned.
-/

namespace StepMesh

/-- Where a call of `Wait(handle)` is. -/
inductive WaitCall
  | first (handle : Int)
  | lookup (handle : Int)
  /-- In the loop, with the timestamps still to wait for. -/
  | rest (handle : Int) (timestamps : List Int)

structure HandleSys where
  c : Customer
  batchTimestamps : Int → Option (List Int) := fun _ => none
  pushpullQueue : List AFTensorRequest := []
  /-- A call of `ZBatchPushPull` that has queued its request: handle, other timestamps, request. -/
  calling : Option (Int × List Int × AFTensorRequest) := none
  /-- Requests without a response, by timestamp and server. -/
  inFlight : List (Int × Nat) := []
  waits : List WaitCall := []
  issued : List (Int × AFTensorRequest) := []
  answered : List (Int × Nat) := []
  returned : List Int := []

namespace HandleSys

/-- `GetAllHandlers`. -/
def getAllHandlers (s : HandleSys) (timestamp : Int) : List Int :=
  timestamp :: (s.batchTimestamps timestamp).getD []

inductive Action
  | zBatchPushPull (push pull : List KeyTensor)
  /-- The call stores its timestamps and returns. -/
  | emplace
  /-- The push-pull thread takes a request from the queue and sends it. -/
  | send
  | response (i : Nat)
  | wait (timestamp : Int)
  | advance (i : Nat)

/-- Whom a message asks for a response to which timestamp. -/
def asks (m : Nat × Message) : Int × Nat := (m.2.msgMeta.timestamp, m.1)

/-- The next statement of a call of `Wait`; `none` is the last one. `Wait` goes through the vector in the map by a
pointer, here through a copy made at the lookup: the same as long as no second `Wait` on the handle erases the
entry in the meantime, which the code would read after its end. -/
def advanceWait (s : HandleSys) : WaitCall → Option (HandleSys × Option WaitCall)
  | .first h => do
    guard (s.c.waitReturns h)
    return (s, some (.lookup h))
  | .lookup h =>
    match s.batchTimestamps h with
    | some tss => some (s, some (.rest h tss))
    | none => some ({ s with returned := s.returned ++ [h] }, none)
  | .rest h (ts :: tss) => do
    guard (s.c.waitReturns ts)
    return (s, some (.rest h tss))
  | .rest h [] => some ({ s with
      batchTimestamps := Function.update s.batchTimestamps h none
      returned := s.returned ++ [h] }, none)

def step (w : AFWorker) (s : HandleSys) : Action → Option HandleSys
  -- at least one push, or one pull for every server
  | .zBatchPushPull push pull => do
    guard (s.calling.isNone ∧ (1 ≤ push.length ∨ w.po.numServers ≤ pull.length))
    let (req, handle, timestamps, c) ← w.zBatchPushPull s.c push pull
    return { s with c, pushpullQueue := s.pushpullQueue ++ [req], calling := some (handle, timestamps, req) }
  | .emplace => do
    let (handle, timestamps, req) ← s.calling
    return { s with
      calling := none
      batchTimestamps := Function.update s.batchTimestamps handle (some timestamps)
      issued := s.issued ++ [(handle, req)] }
  | .send => do
    let req ← s.pushpullQueue.head?
    let sent ← w.zBatchPushPull_ req
    return { s with pushpullQueue := s.pushpullQueue.tail, inFlight := s.inFlight ++ sent.map asks }
  | .response i => do
    let ask ← s.inFlight[i]?
    let c ← s.c.addResponse ask.1 1
    return { s with c, inFlight := s.inFlight.eraseIdx i, answered := s.answered ++ [ask] }
  -- with a timestamp that `ZBatchPushPull` or `GetAllHandlers` has given out
  | .wait ts => do
    guard (ts ∈ s.issued.flatMap (·.2.timestamps))
    return { s with waits := s.waits ++ [.first ts] }
  | .advance i => do
    let call ← s.waits[i]?
    let (s', call') ← s.advanceWait call
    return { s' with waits := s.waits.eraseIdx i ++ call'.toList }

/-- The worker before its first call. -/
def init (w : AFWorker) : HandleSys := { c := { appId := w.appId, customerId := w.customerId } }

/-! ### What a batch asks for -/

/-- Every server for every timestamp. -/
def asksOf (numServers : Nat) (tss : List Int) : List (Int × Nat) :=
  tss.flatMap fun ts => (List.range numServers).map fun i => (ts, i)

variable {w : AFWorker} {n : Nat}

theorem mem_asksOf {tss : List Int} {p : Int × Nat} : p ∈ asksOf n tss ↔ p.1 ∈ tss ∧ p.2 < n := by
  obtain ⟨ts, i⟩ := p
  simp [asksOf]

theorem nodup_asksOf {tss : List Int} (h : tss.Nodup) : (asksOf n tss).Nodup := by
  refine List.nodup_flatMap.mpr ⟨fun ts _ => ?_, h.imp fun {ts ts'} hne p hp hp' => ?_⟩
  · exact List.nodup_range.map fun i j hij => (Prod.mk.inj hij).2
  · obtain ⟨i, -, rfl⟩ := List.mem_map.mp hp
    obtain ⟨j, -, hj⟩ := List.mem_map.mp hp'
    exact hne (Prod.mk.inj hj).1.symm

theorem asks_zPush_ (ts : Int) (kt : KeyTensor) (cmd : Int) :
    (w.zPush_ ts kt cmd).map asks = (List.range w.po.numServers).map fun i => (ts, i) := by
  simp [AFWorker.zPush_, Postoffice.length_getServerKeyRanges, asks, AFWorker.sendMsg, AFWorker.zMsg,
    Message.addKeys, Message.addData]

theorem asks_zPull_ {ts : Int} {pull : List KeyTensor} {index : Nat} {cmd : Int} {sent : List (Nat × Message)}
    (h : w.zPull_ ts pull index cmd = some sent) :
    sent.map asks = (List.range w.po.numServers).map fun i => (ts, i) := by
  rw [AFWorker.zPull_, Postoffice.length_getServerKeyRanges] at h
  refine List.map_eq_of_mapM h fun i _ m hm => ?_
  obtain ⟨kt, -, hm⟩ := Option.bind_eq_some_iff.mp hm
  obtain rfl := Option.some.inj hm
  simp [asks, AFWorker.sendMsg, AFWorker.zMsg, Message.addKeys, Message.addData]

/-- A timestamp for every push and for every pull of a server. -/
structure Stamped (w : AFWorker) (req : AFTensorRequest) : Prop where
  push : req.pushTimestamps.length = req.push.length
  pull : req.pullTimestamps.length = req.pull.length / w.po.numServers

theorem asksOf_append (tss tss' : List Int) : asksOf n (tss ++ tss') = asksOf n tss ++ asksOf n tss' :=
  List.flatMap_append

theorem asks_loop {tss : List Int} {m : Nat} (hlen : tss.length = m) {f : Nat → Option (List (Nat × Message))}
    (hf : ∀ i sent, f i = some sent → ∃ ts, tss[i]? = some ts ∧
      sent.map asks = (List.range n).map fun j => (ts, j))
    {sents : List (List (Nat × Message))} (h : (List.range m).mapM f = some sents) :
    sents.flatten.map asks = asksOf n tss := by
  have hrounds : sents.map (·.map asks) = (List.range m).map fun i =>
      (List.range n).map fun j => (tss.getD i 0, j) := by
    refine List.map_eq_of_mapM h fun i _ sent hsent => ?_
    obtain ⟨ts, hts, hasks⟩ := hf i sent hsent
    rw [hasks, List.getD_eq_getElem?_getD, hts]
    rfl
  have htss : (List.range m).map (tss.getD · 0) = tss := by
    refine List.ext_getElem (by simp [hlen]) fun i h₁ h₂ => ?_
    simp [h₂]
  rw [List.map_flatten, hrounds, ← List.flatMap_def]
  nth_rewrite 2 [← htss]
  rw [asksOf, List.flatMap_map]

theorem eq_singleton {tss : List Int} {ts : Int} (h : tss[0]? = some ts) (hlen : tss.length ≤ 1) : tss = [ts] := by
  match tss, h, hlen with
  | [_], rfl, _ => rfl

theorem asks_zBatchPushPull_ {req : AFTensorRequest} (hreq : Stamped w req) {sent : List (Nat × Message)}
    (h : w.zBatchPushPull_ req = some sent) : sent.map asks = asksOf w.po.numServers req.timestamps := by
  obtain ⟨hpush, hpull⟩ := hreq
  obtain ⟨_, -, h⟩ := Option.bind_eq_some_iff.mp h
  obtain ⟨_, -, h⟩ := Option.bind_eq_some_iff.mp h
  split_ifs at h with hone hp
  · obtain ⟨kt, -, h⟩ := Option.bind_eq_some_iff.mp h
    obtain ⟨ts, hts, h⟩ := Option.bind_eq_some_iff.mp h
    obtain rfl := Option.some.inj h
    rw [show req.pull.length = 0 by omega, Nat.zero_div] at hpull
    rw [asks_zPush_, AFTensorRequest.timestamps, eq_singleton hts (by omega), List.length_eq_zero_iff.mp hpull]
    simp [asksOf]
  · obtain ⟨ts, hts, h⟩ := Option.bind_eq_some_iff.mp h
    have hle : req.pullTimestamps.length ≤ 1 := by
      rw [hpull, show req.pull.length = 1 by omega]
      exact Nat.div_le_self 1 _
    rw [asks_zPull_ h, AFTensorRequest.timestamps, eq_singleton hts hle,
      List.length_eq_zero_iff.mp (show req.pushTimestamps.length = 0 by omega)]
    simp [asksOf]
  · obtain ⟨pushes, hpushes, h⟩ := Option.bind_eq_some_iff.mp h
    obtain ⟨pulls, hpulls, h⟩ := Option.bind_eq_some_iff.mp h
    obtain rfl := Option.some.inj h
    rw [Postoffice.length_getServerKeyRanges] at hpulls
    rw [List.map_append, AFTensorRequest.timestamps, asksOf_append]
    congr 1
    · refine asks_loop hpush (fun i sent hi => ?_) hpushes
      obtain ⟨kt, -, hi⟩ := Option.bind_eq_some_iff.mp hi
      obtain ⟨ts, hts, hi⟩ := Option.bind_eq_some_iff.mp hi
      obtain rfl := Option.some.inj hi
      exact ⟨ts, hts, asks_zPush_ ..⟩
    · refine asks_loop hpull (fun i sent hi => ?_) hpulls
      obtain ⟨ts, hts, hi⟩ := Option.bind_eq_some_iff.mp hi
      exact ⟨ts, hts, asks_zPull_ hi⟩

/-! ### The calls -/

theorem getTracker_append_replicate (t : CustomerTracker) (m : Nat) (c : Customer) (ts : Int) :
    ({ c with tracker := c.tracker ++ List.replicate m t } : Customer).getTracker ts =
      if (c.tracker.length : Int) ≤ ts ∧ ts < c.tracker.length + m then some t else c.getTracker ts := by
  have hout : c.tracker.length ≤ ts.toNat → c.tracker[ts.toNat]? = none := List.getElem?_eq_none
  simp only [Customer.getTracker, List.getElem?_append, List.getElem?_replicate]
  split_ifs <;> first | rfl | omega | exact (hout (by omega)).symm

/-- What a call allocates: the next timestamps, with the first one as its handle. -/
structure Allocates (w : AFWorker) (c : Customer) (req : AFTensorRequest) (handle : Int) (timestamps : List Int)
    (c' : Customer) : Prop where
  stamped : Stamped w req
  handle : req.timestamps = handle :: timestamps
  next : req.timestamps = (List.range' c.tracker.length req.timestamps.length).map Int.ofNat
  length : c'.tracker.length = c.tracker.length + req.timestamps.length
  tracker : ∀ ts, c'.getTracker ts = if (c.tracker.length : Int) ≤ ts ∧ ts < c'.tracker.length then
    some { count := w.po.numServers } else c.getTracker ts

theorem allocates_zBatchPushPull {c c' : Customer} {push pull : List KeyTensor}
    (hsome : 1 ≤ push.length ∨ w.po.numServers ≤ pull.length) {req : AFTensorRequest} {handle : Int}
    {timestamps : List Int} (h : w.zBatchPushPull c push pull = some (req, handle, timestamps, c')) :
    Allocates w c req handle timestamps c' := by
  have hS := AFWorker.servers_of_zBatchPushPull h
  rw [AFWorker.zBatchPushPull_eq hS] at h
  obtain ⟨m, hm⟩ : ∃ m, pull.length / w.po.numServers = m := ⟨_, rfl⟩
  have hpos : 0 < push.length + m := by
    rcases hsome with h | h
    · omega
    · have := Nat.div_pos h hS
      omega
  rw [hm] at h
  have hnext : ((List.range push.length).map fun i => ((c.tracker.length + i : Nat) : Int)) ++
      ((List.range m).map fun i => ((c.tracker.length + push.length + i : Nat) : Int)) =
      (List.range' c.tracker.length (push.length + m)).map Int.ofNat := by
    rw [List.range'_eq_map_range, List.range_add]
    simp [Nat.add_assoc, Function.comp_def]
  obtain ⟨rfl, rfl, rfl, rfl⟩ : _ ∧ _ ∧ _ ∧ _ := by simpa only [Option.some.injEq, Prod.mk.injEq] using h
  refine ⟨⟨by simp, by simp [hm]⟩, ?_, ?_, by simp [AFTensorRequest.timestamps], fun ts => ?_⟩
  · simp only [AFTensorRequest.timestamps, hnext]
    obtain ⟨k, hk⟩ := Nat.exists_eq_succ_of_ne_zero hpos.ne'
    rw [hk, List.range'_succ]
    rfl
  · simp only [AFTensorRequest.timestamps, hnext, List.length_map, List.length_range']
  · rw [getTracker_append_replicate, List.length_append, List.length_replicate, Int.natCast_add c.tracker.length]

/-! ### The invariant -/

/-- The calls of `ZBatchPushPull`, the last of them perhaps not yet returned. -/
def calls (s : HandleSys) : List (Int × AFTensorRequest) :=
  s.issued ++ s.calling.toList.map fun call => (call.1, call.2.2)

/-- The timestamps that have been given out. -/
def given (s : HandleSys) : List Int := s.issued.flatMap (·.2.timestamps)

/-- The responses that have arrived or are still to come. -/
def asked (w : AFWorker) (s : HandleSys) : List (Int × Nat) :=
  s.answered ++ s.inFlight ++ s.pushpullQueue.flatMap fun req => asksOf w.po.numServers req.timestamps

/-- Every server has answered. -/
def AllAnswered (w : AFWorker) (s : HandleSys) (ts : Int) : Prop := ∀ i < w.po.numServers, (ts, i) ∈ s.answered

/-- What a call of `Wait` has seen so far. -/
def WaitOk (w : AFWorker) (s : HandleSys) : WaitCall → Prop
  | .first h => h ∈ s.given
  | .lookup h => h ∈ s.given ∧ s.AllAnswered w h
  | .rest h tss => ∃ p ∈ s.issued, p.1 = h ∧ ∀ ts ∈ p.2.timestamps, ts ∈ tss ∨ s.AllAnswered w ts

structure Inv (w : AFWorker) (s : HandleSys) : Prop where
  stamps : s.calls.flatMap (·.2.timestamps) = (List.range s.c.tracker.length).map Int.ofNat
  handle : ∀ p ∈ s.issued, ∃ tss, p.2.timestamps = p.1 :: tss
  calling : ∀ h tss req, s.calling = some (h, tss, req) → req.timestamps = h :: tss
  queue : ∀ req ∈ s.pushpullQueue, Stamped w req
  once : (s.asked w).Nodup
  range : ∀ p ∈ s.asked w, 0 ≤ p.1 ∧ p.1 < s.c.tracker.length ∧ p.2 < w.po.numServers
  counts : ∀ ts : Int, 0 ≤ ts → ts < s.c.tracker.length → s.c.getTracker ts =
    some { count := w.po.numServers, responseCount := s.answered.countP (·.1 = ts) }
  entries : ∀ p ∈ s.issued, p.1 ∉ s.returned → s.batchTimestamps p.1 = some p.2.timestamps.tail
  stored : ∀ h tss, s.batchTimestamps h = some tss → ∃ p ∈ s.issued, p.1 = h ∧ p.2.timestamps.tail = tss
  waits : ∀ call ∈ s.waits, s.WaitOk w call
  returned : ∀ h ∈ s.returned, h ∈ s.given
  done : ∀ p ∈ s.issued, p.1 ∈ s.returned → ∀ ts ∈ p.2.timestamps, s.AllAnswered w ts

theorem inv_init (w : AFWorker) : Inv w (init w) where
  stamps := rfl
  handle := by simp [init]
  calling := by simp [init]
  queue := by simp [init]
  once := List.nodup_nil
  range := by simp [init, asked]
  counts ts h₀ hlt := absurd h₀ (Int.not_le.mpr hlt)
  entries := by simp [init]
  stored := by simp [init]
  waits := by simp [init]
  returned := by simp [init]
  done := by simp [init]

variable {s s' : HandleSys}

theorem WaitOk.mono {call : WaitCall} (h : s.WaitOk w call) (hi : s.issued ⊆ s'.issued)
    (ha : s.answered ⊆ s'.answered) : s'.WaitOk w call := by
  have hgiven : ∀ ts ∈ s.given, ts ∈ s'.given := fun ts hts => by
    obtain ⟨p, hp, hts⟩ := List.mem_flatMap.mp hts
    exact List.mem_flatMap.mpr ⟨p, hi hp, hts⟩
  have hall : ∀ ts, s.AllAnswered w ts → s'.AllAnswered w ts := fun ts h i hi => ha (h i hi)
  cases call with
  | first h' => exact hgiven h' h
  | lookup h' => exact ⟨hgiven h' h.1, hall h' h.2⟩
  | rest h' tss =>
    obtain ⟨p, hp, hph, htss⟩ := h
    exact ⟨p, hi hp, hph, fun ts hts => (htss ts hts).imp_right (hall ts)⟩

namespace Inv

theorem nodup_stamps (h : Inv w s) : (s.calls.flatMap (·.2.timestamps)).Nodup := by
  rw [h.stamps]
  exact List.nodup_range.map fun i j hij => Int.ofNat.inj hij

theorem nodup_handles (h : Inv w s) : (s.issued.map (·.1)).Nodup := by
  have hnd := h.nodup_stamps
  rw [calls, List.flatMap_append] at hnd
  refine List.nodup_map_of_nodup_flatMap (List.nodup_append.mp hnd).1 fun p hp => ?_
  obtain ⟨tss, htss⟩ := h.handle p hp
  rw [htss]
  exact List.mem_cons_self

theorem lt_of_given (h : Inv w s) {ts : Int} (hts : ts ∈ s.given) : 0 ≤ ts ∧ ts < s.c.tracker.length := by
  have hmem : ts ∈ s.calls.flatMap (·.2.timestamps) := by
    rw [calls, List.flatMap_append]
    exact List.mem_append_left _ hts
  rw [h.stamps] at hmem
  obtain ⟨n, hn, rfl⟩ := List.mem_map.mp hmem
  have := List.mem_range.mp hn
  exact ⟨Int.natCast_nonneg n, by simpa using this⟩

/-- The loop of `WaitRequest` ends exactly when every server has answered. -/
theorem waitReturns_iff (h : Inv w s) {ts : Int} (hts : 0 ≤ ts ∧ ts < s.c.tracker.length) :
    s.c.waitReturns ts = true ↔ s.AllAnswered w ts := by
  have hnd : s.answered.Nodup := (List.nodup_append.mp (List.nodup_append.mp h.once).1).1
  have hmem : ∀ i, i ∈ (s.answered.filter (·.1 = ts)).map (·.2) ↔ (ts, i) ∈ s.answered := by
    intro i
    simp only [List.mem_map, List.mem_filter, decide_eq_true_eq, Prod.exists]
    constructor
    · rintro ⟨ts', i', ⟨hp, rfl⟩, rfl⟩
      exact hp
    · exact fun hp => ⟨ts, i, ⟨hp, rfl⟩, rfl⟩
  have hlist := List.length_eq_iff_forall_lt_mem (l := (s.answered.filter (·.1 = ts)).map (·.2))
    (n := w.po.numServers) ?_ ?_
  · simp only [hmem, List.length_map, ← List.countP_eq_length_filter] at hlist
    rw [AllAnswered, ← hlist, Customer.waitReturns, h.counts ts hts.1 hts.2]
    simp only [Option.any_some, decide_eq_true_eq]
    omega
  · refine (hnd.filter _).map_on fun p hp q hq hpq => Prod.ext ?_ hpq
    have hp := of_decide_eq_true (List.mem_filter.mp hp).2
    have hq := of_decide_eq_true (List.mem_filter.mp hq).2
    exact hp.trans hq.symm
  · intro i hi
    exact (h.range (ts, i) (List.mem_append_left _ (List.mem_append_left _ ((hmem i).mp hi)))).2.2

theorem allAnswered_of_waitReturns (h : Inv w s) {ts : Int} (hw : s.c.waitReturns ts = true) :
    s.AllAnswered w ts := by
  obtain ⟨t, ht, -⟩ := (Option.any_eq_true ..).mp hw
  exact (h.waitReturns_iff ⟨(Customer.getTracker_eq_some.mp ht).1, Customer.getTracker_lt ht⟩).mp hw

theorem zBatchPushPull (h : Inv w s) {push pull : List KeyTensor}
    (hs : s.step w (.zBatchPushPull push pull) = some s') : Inv w s' := by
  obtain ⟨_, hguard, hs⟩ := Option.bind_eq_some_iff.mp hs
  obtain ⟨⟨req, handle, tss, c⟩, hcall, hs⟩ := Option.bind_eq_some_iff.mp hs
  obtain rfl := Option.some.inj hs
  obtain ⟨hnone, hsome⟩ := (Option.guard_eq_some' _).mp hguard
  replace hnone : s.calling = none := Option.isNone_iff_eq_none.mp hnone
  have halloc := allocates_zBatchPushPull hsome hcall
  have hnew : ∀ ts ∈ req.timestamps, (s.c.tracker.length : Int) ≤ ts ∧ ts < c.tracker.length := by
    intro ts hts
    rw [halloc.next] at hts
    obtain ⟨n, hn, rfl⟩ := List.mem_map.mp hts
    have := List.mem_range'_1.mp hn
    rw [halloc.length]
    exact ⟨Int.ofNat_le.mpr this.1, Int.ofNat_lt.mpr this.2⟩
  have hlen : (s.c.tracker.length : Int) ≤ c.tracker.length := by
    rw [halloc.length]
    omega
  have hasked : asked w { s with
      c, pushpullQueue := s.pushpullQueue ++ [req], calling := some (handle, tss, req) } =
      s.asked w ++ asksOf w.po.numServers req.timestamps := by
    simp [asked]
  have hcalls : calls { s with
      c, pushpullQueue := s.pushpullQueue ++ [req], calling := some (handle, tss, req) } =
      s.calls ++ [(handle, req)] := by
    simp [calls, hnone]
  refine { h with
    stamps := ?_, calling := ?_, queue := ?_, once := ?_, range := ?_, counts := ?_ }
  · rw [hcalls, List.flatMap_append, h.stamps, List.flatMap_cons, List.flatMap_nil, List.append_nil]
    show _ = (List.range c.tracker.length).map Int.ofNat
    have hrange := List.range'_append_1 (s := 0) (m := s.c.tracker.length) (n := req.timestamps.length)
    rw [Nat.zero_add] at hrange
    rw [halloc.length, halloc.next, List.length_map, List.length_range', List.range_eq_range',
      List.range_eq_range', ← List.map_append, hrange]
  · rintro _ _ _ ⟨⟩
    exact halloc.handle
  · intro r hr
    rcases List.mem_append.mp hr with hr | hr
    · exact h.queue r hr
    · exact List.mem_singleton.mp hr ▸ halloc.stamped
  · rw [hasked]
    refine List.nodup_append.mpr ⟨h.once, nodup_asksOf ?_, fun p hp q hq hpq => ?_⟩
    · rw [halloc.next]
      exact List.Nodup.map (fun i j hij => Int.ofNat.inj hij) List.nodup_range'
    · subst hpq
      have h₁ := (h.range p hp).2.1
      have h₂ := (hnew p.1 (mem_asksOf.mp hq).1).1
      omega
  · rw [hasked]
    intro p hp
    rcases List.mem_append.mp hp with hp | hp
    · obtain ⟨h₀, hlt, hn⟩ := h.range p hp
      exact ⟨h₀, Int.lt_of_lt_of_le hlt hlen, hn⟩
    · obtain ⟨hts, hn⟩ := mem_asksOf.mp hp
      obtain ⟨h₁, h₂⟩ := hnew p.1 hts
      exact ⟨by omega, h₂, hn⟩
  · intro ts h₀ hlt
    show c.getTracker ts = _
    rw [halloc.tracker]
    split_ifs with hin
    · have hzero : s.answered.countP (·.1 = ts) = 0 := by
        refine List.countP_eq_zero.mpr fun p hp => ?_
        have := (h.range p (List.mem_append_left _ (List.mem_append_left _ hp))).2.1
        simp
        omega
      simp [hzero]
    · exact h.counts ts h₀ (by
        have hlt : ts < c.tracker.length := hlt
        omega)

theorem emplace (h : Inv w s) (hs : s.step w .emplace = some s') : Inv w s' := by
  obtain ⟨⟨handle, tss, req⟩, hcalling, hs⟩ := Option.bind_eq_some_iff.mp hs
  obtain rfl := Option.some.inj hs
  have hreq := h.calling handle tss req hcalling
  have hcalls : s.calls = s.issued ++ [(handle, req)] := by simp [calls, hcalling]
  have hfresh : handle ∉ s.given := by
    intro hmem
    have hnd := h.nodup_stamps
    rw [hcalls, List.flatMap_append] at hnd
    refine (List.nodup_append.mp hnd).2.2 handle hmem handle ?_ rfl
    simp [hreq]
  have hgiven : ∀ ts ∈ s.given, ts ∈ given { s with
      calling := none
      batchTimestamps := Function.update s.batchTimestamps handle (some tss)
      issued := s.issued ++ [(handle, req)] } := by
    intro ts hts
    rw [given, List.flatMap_append]
    exact List.mem_append_left _ hts
  have hne : ∀ p ∈ s.issued, p.1 ≠ handle := by
    rintro p hp rfl
    obtain ⟨tss', htss'⟩ := h.handle p hp
    exact hfresh (List.mem_flatMap.mpr ⟨p, hp, htss' ▸ List.mem_cons_self⟩)
  refine { h with
    stamps := ?_, handle := ?_, calling := by simp, entries := ?_, stored := ?_, waits := ?_, returned := ?_,
    done := ?_ }
  · rw [← h.stamps, hcalls]
    simp [calls]
  · intro p hp
    rcases List.mem_append.mp hp with hp | hp
    · exact h.handle p hp
    · obtain rfl := List.mem_singleton.mp hp
      exact ⟨tss, hreq⟩
  · intro p hp hret
    rcases List.mem_append.mp hp with hp | hp
    · exact (Function.update_of_ne (hne p hp) _ _).trans (h.entries p hp hret)
    · obtain rfl := List.mem_singleton.mp hp
      refine (Function.update_self ..).trans ?_
      rw [hreq]
      rfl
  · intro h' tss' hget
    rcases eq_or_ne h' handle with rfl | hne'
    · have hself : Function.update s.batchTimestamps h' (some tss) h' = some tss' := hget
      rw [Function.update_self] at hself
      obtain rfl := Option.some.inj hself
      exact ⟨(h', req), List.mem_append_right _ List.mem_cons_self, rfl, by rw [hreq]; rfl⟩
    · obtain ⟨p, hp, hph, htss'⟩ := h.stored h' tss' ((Function.update_of_ne hne' ..).symm.trans hget)
      exact ⟨p, List.mem_append_left _ hp, hph, htss'⟩
  · intro call hcall
    exact (h.waits call hcall).mono (List.subset_append_left ..) (List.Subset.refl _)
  · exact fun h' hh' => hgiven h' (h.returned h' hh')
  · intro p hp hret
    rcases List.mem_append.mp hp with hp | hp
    · exact h.done p hp hret
    · obtain rfl := List.mem_singleton.mp hp
      exact absurd (h.returned handle hret) hfresh

theorem send (h : Inv w s) (hs : s.step w .send = some s') : Inv w s' := by
  obtain ⟨req, hreq, hs⟩ := Option.bind_eq_some_iff.mp hs
  obtain ⟨sent, hsent, hs⟩ := Option.bind_eq_some_iff.mp hs
  obtain rfl := Option.some.inj hs
  obtain ⟨rest, hqueue⟩ := List.head?_eq_some_iff.mp hreq
  have hasks := asks_zBatchPushPull_ (h.queue req (hqueue ▸ List.mem_cons_self)) hsent
  have hasked : asked w { s with
      pushpullQueue := s.pushpullQueue.tail, inFlight := s.inFlight ++ sent.map asks } = s.asked w := by
    simp [asked, hqueue, hasks]
  exact { h with
    queue := fun r hr => h.queue r (List.mem_of_mem_tail hr)
    once := hasked ▸ h.once
    range := hasked ▸ h.range
    waits := fun call hcall => (h.waits call hcall).mono (List.Subset.refl _) (List.Subset.refl _) }

theorem response (h : Inv w s) {i : Nat} (hs : s.step w (.response i) = some s') : Inv w s' := by
  obtain ⟨ask, hask, hs⟩ := Option.bind_eq_some_iff.mp hs
  obtain ⟨c, hc, hs⟩ := Option.bind_eq_some_iff.mp hs
  obtain rfl := Option.some.inj hs
  obtain ⟨t, ht, hlen, hget⟩ := Customer.addResponse_eq_some hc
  have hperm : (asked w { s with
      c, inFlight := s.inFlight.eraseIdx i, answered := s.answered ++ [ask] }).Perm (s.asked w) := by
    obtain ⟨hi, rfl⟩ := List.getElem?_eq_some_iff.mp hask
    have hin := (List.getElem_cons_eraseIdx_perm hi).append_left s.answered
    simpa [asked] using hin.append_right (s.pushpullQueue.flatMap fun req => asksOf w.po.numServers req.timestamps)
  have hall : ∀ ts, s.AllAnswered w ts → AllAnswered w { s with
      c, inFlight := s.inFlight.eraseIdx i, answered := s.answered ++ [ask] } ts :=
    fun ts hts i hi => List.mem_append_left _ (hts i hi)
  refine { h with
    stamps := ?_, once := hperm.nodup_iff.mpr h.once, range := ?_, counts := ?_, waits := ?_, done := ?_ }
  · show _ = (List.range c.tracker.length).map Int.ofNat
    rw [hlen]
    exact h.stamps
  · intro p hp
    show 0 ≤ p.1 ∧ p.1 < (c.tracker.length : Int) ∧ p.2 < w.po.numServers
    rw [hlen]
    exact h.range p (hperm.mem_iff.mp hp)
  · intro ts h₀ hlt
    replace hlt : ts < (c.tracker.length : Int) := hlt
    rw [hlen] at hlt
    have hts := h.counts ts h₀ hlt
    show c.getTracker ts = some { count := w.po.numServers, responseCount := (s.answered ++ [ask]).countP (·.1 = ts) }
    rw [hget, List.countP_append]
    split_ifs with heq
    · subst heq
      obtain rfl := Option.some.inj (ht.symm.trans hts)
      simp
    · rw [hts]
      simp [Ne.symm heq]
  · intro call hcall
    exact (h.waits call hcall).mono (List.Subset.refl _) (List.subset_append_left ..)
  · exact fun p hp hret ts hts => hall ts (h.done p hp hret ts hts)

theorem wait (h : Inv w s) {ts : Int} (hs : s.step w (.wait ts) = some s') : Inv w s' := by
  obtain ⟨_, hts, hs⟩ := Option.bind_eq_some_iff.mp hs
  obtain rfl := Option.some.inj hs
  refine { h with waits := fun call hcall => ?_ }
  refine WaitOk.mono (s := s) ?_ (List.Subset.refl _) (List.Subset.refl _)
  rcases List.mem_append.mp hcall with hcall | hcall
  · exact h.waits call hcall
  · obtain rfl := List.mem_singleton.mp hcall
    have hgiven : ts ∈ s.given := (Option.guard_eq_some' _).mp hts
    exact hgiven

/-- A statement of `Wait` keeps what the call has seen; only the last one, when all timestamps of the batch
are answered, removes its entry. -/
theorem advanceWait (h : Inv w s) {call : WaitCall} {call' : Option WaitCall} (hok : s.WaitOk w call)
    (hs : s.advanceWait call = some (s', call')) :
    Inv w s' ∧ s'.waits = s.waits ∧ ∀ c ∈ call', s'.WaitOk w c := by
  cases call with
  | first h' =>
    obtain ⟨_, hw, hs⟩ := Option.bind_eq_some_iff.mp hs
    obtain ⟨rfl, rfl⟩ := Prod.mk.inj (Option.some.inj hs)
    have hans := h.allAnswered_of_waitReturns ((Option.guard_eq_some' _).mp hw)
    exact ⟨h, rfl, by rintro _ ⟨⟩; exact ⟨hok, hans⟩⟩
  | lookup h' =>
    rw [HandleSys.advanceWait] at hs
    split at hs
    · rename_i tss hget
      obtain ⟨rfl, rfl⟩ := Prod.mk.inj (Option.some.inj hs)
      obtain ⟨p, hp, hph, rfl⟩ := h.stored h' tss hget
      obtain ⟨tss, htss⟩ := h.handle p hp
      refine ⟨h, rfl, ?_⟩
      rintro _ ⟨⟩
      refine ⟨p, hp, hph, fun ts hts => ?_⟩
      rw [htss] at hts ⊢
      rcases List.mem_cons.mp hts with rfl | hts
      · exact .inr (hph ▸ hok.2)
      · exact .inl hts
    · rename_i hget
      obtain ⟨rfl, rfl⟩ := Prod.mk.inj (Option.some.inj hs)
      -- the handle of a batch has an entry unless a call of `Wait` on it has returned already
      have hmem : ∀ p ∈ s.issued, p.1 ∈ s.returned ++ [h'] → p.1 ∈ s.returned := by
        intro p hp hret
        rcases List.mem_append.mp hret with hret | hret
        · exact hret
        · by_contra hnot
          have := h.entries p hp hnot
          rw [List.mem_singleton.mp hret, hget] at this
          cases this
      refine ⟨{ h with
        entries := fun p hp hret => h.entries p hp fun hmem => hret (List.mem_append_left _ hmem)
        returned := fun h'' hh'' => ?_
        done := fun p hp hret => h.done p hp (hmem p hp hret) }, rfl, by simp⟩
      rcases List.mem_append.mp hh'' with hh'' | hh''
      · exact h.returned h'' hh''
      · exact List.mem_singleton.mp hh'' ▸ hok.1
  | rest h' tss =>
    obtain ⟨p, hp, hph, hall⟩ := hok
    cases tss with
    | cons ts tss =>
      obtain ⟨_, hw, hs⟩ := Option.bind_eq_some_iff.mp hs
      obtain ⟨rfl, rfl⟩ := Prod.mk.inj (Option.some.inj hs)
      have hans := h.allAnswered_of_waitReturns ((Option.guard_eq_some' _).mp hw)
      refine ⟨h, rfl, ?_⟩
      rintro _ ⟨⟩
      refine ⟨p, hp, hph, fun ts' hts' => ?_⟩
      rcases hall ts' hts' with hmem | hans'
      · rcases List.mem_cons.mp hmem with rfl | hmem
        · exact .inr hans
        · exact .inl hmem
      · exact .inr hans'
    | nil =>
      obtain ⟨rfl, rfl⟩ := Prod.mk.inj (Option.some.inj hs)
      have hans : ∀ ts ∈ p.2.timestamps, s.AllAnswered w ts := fun ts hts =>
        (hall ts hts).resolve_left List.not_mem_nil
      have hgiven : h' ∈ s.given := by
        obtain ⟨tss, htss⟩ := h.handle p hp
        exact List.mem_flatMap.mpr ⟨p, hp, by rw [htss, hph]; exact List.mem_cons_self⟩
      refine ⟨{ h with
        entries := fun q hq hret => ?_
        stored := fun h'' tss hget => ?_
        waits := fun c hc => (h.waits c hc).mono (List.Subset.refl _) (List.Subset.refl _)
        returned := fun h'' hh'' => ?_
        done := fun q hq hret => ?_ }, rfl, by simp⟩
      · have hne : q.1 ≠ h' := fun heq => hret (List.mem_append_right _ (heq ▸ List.mem_cons_self))
        exact (Function.update_of_ne hne ..).trans (h.entries q hq fun hmem => hret (List.mem_append_left _ hmem))
      · have hget : Function.update s.batchTimestamps h' none h'' = some tss := hget
        rcases eq_or_ne h'' h' with rfl | hne
        · rw [Function.update_self] at hget
          cases hget
        · rw [Function.update_of_ne hne] at hget
          exact h.stored h'' tss hget
      · rcases List.mem_append.mp hh'' with hh'' | hh''
        · exact h.returned h'' hh''
        · exact List.mem_singleton.mp hh'' ▸ hgiven
      · rcases List.mem_append.mp hret with hret | hret
        · exact h.done q hq hret
        · obtain rfl : q = p := List.inj_on_of_nodup_map h.nodup_handles hq hp
            ((List.mem_singleton.mp hret).trans hph.symm)
          exact hans

theorem advance (h : Inv w s) {i : Nat} (hs : s.step w (.advance i) = some s') : Inv w s' := by
  obtain ⟨call, hcall, hs⟩ := Option.bind_eq_some_iff.mp hs
  obtain ⟨⟨s₁, call'⟩, hadv, hs⟩ := Option.bind_eq_some_iff.mp hs
  obtain rfl := Option.some.inj hs
  obtain ⟨h₁, hwaits, hok⟩ := h.advanceWait (h.waits call (List.mem_of_getElem? hcall)) hadv
  refine { h₁ with waits := fun c hc => ?_ }
  refine WaitOk.mono (s := s₁) ?_ (List.Subset.refl _) (List.Subset.refl _)
  rcases List.mem_append.mp hc with hc | hc
  · exact h₁.waits c (hwaits ▸ List.mem_of_mem_eraseIdx hc)
  · exact hok c (Option.mem_toList.mp hc)

theorem step (h : Inv w s) {a : Action} (hs : s.step w a = some s') : Inv w s' := by
  cases a with
  | zBatchPushPull push pull => exact h.zBatchPushPull hs
  | emplace => exact h.emplace hs
  | send => exact h.send hs
  | response i => exact h.response hs
  | wait ts => exact h.wait hs
  | advance i => exact h.advance hs

end Inv

/-- Any calls of `ZBatchPushPull` from one thread, with responses and calls of `Wait` in between: no two
batches have the same handle, or a timestamp in common; until a `Wait` on it has returned, `GetAllHandlers`
gives the timestamps of the pushes and then of the pulls; and it returns only when every server has answered
each of them, which is also when the loops of `WaitRequest` end. The timestamps are the `int`s of the code while
there are fewer than 2³¹ of them. -/
theorem handles_identify_batches (w : AFWorker) (as : List Action) (s : HandleSys)
    (hrun : Run.exec (fun s a => s.step w a) (init w) as = some s) :
    (s.issued.map (·.1)).Nodup ∧ (s.issued.flatMap (·.2.timestamps)).Nodup ∧
    ∀ handle req, (handle, req) ∈ s.issued →
      (handle ∉ s.returned → s.getAllHandlers handle = req.pushTimestamps ++ req.pullTimestamps) ∧
      (handle ∈ s.returned → ∀ ts ∈ req.pushTimestamps ++ req.pullTimestamps,
        ∀ i < w.po.numServers, (ts, i) ∈ s.answered) ∧
      ∀ ts ∈ req.pushTimestamps ++ req.pullTimestamps,
        (s.c.waitReturns ts = true ↔ ∀ i < w.po.numServers, (ts, i) ∈ s.answered) := by
  have h : Inv w s := Run.exec_invariant (Inv w) (fun _ _ _ h hs => h.step hs) (inv_init w) hrun
  have hnd := h.nodup_stamps
  rw [calls, List.flatMap_append] at hnd
  refine ⟨h.nodup_handles, (List.nodup_append.mp hnd).1, fun handle req hp => ⟨fun hret => ?_, h.done _ hp, ?_⟩⟩
  · obtain ⟨tss, htss⟩ := h.handle _ hp
    rw [getAllHandlers, h.entries _ hp hret]
    simp only [AFTensorRequest.timestamps] at htss ⊢
    rw [htss]
    rfl
  · exact fun ts hts => h.waitReturns_iff (h.lt_of_given (List.mem_flatMap.mpr ⟨_, hp, hts⟩))

def twoServers : AFWorker := { po := { numWorkers := 1, numServers := 2 } }

/-- A batch of a push and a pull, another call, and a `Wait` on the first while the responses to it come in. -/
def sampleRun : List Action :=
  [.zBatchPushPull [{ key := 1 }] [{ key := 2 }, { key := 3 }], .emplace, .wait 0, .send, .response 1, .response 0,
    .advance 0, .zBatchPushPull [{ key := 1 }] [], .advance 0, .response 0, .emplace, .response 0, .advance 0,
    .advance 0]

theorem handles_identify_batches_two :
    ∃ s, Run.exec (fun s a => step twoServers s a) (init twoServers) sampleRun = some s ∧
      (s.issued.map (·.1) = [0, 2] ∧ s.returned = [0] ∧ s.answered = [(0, 1), (0, 0), (1, 0), (1, 1)]) ∧
      (s.issued.map (·.1)).Nodup := by
  have heval : (Run.exec (fun s a => step twoServers s a) (init twoServers) sampleRun).map
      (fun s => (s.issued.map (·.1), s.returned, s.answered)) =
      some ([0, 2], [0], [(0, 1), (0, 0), (1, 0), (1, 1)]) := by decide +kernel
  obtain ⟨s, hrun, hs⟩ := Option.map_eq_some_iff.mp heval
  obtain ⟨hissued, hs⟩ := Prod.mk.inj hs
  exact ⟨s, hrun, ⟨hissued, Prod.mk.inj hs⟩, (handles_identify_batches _ _ s hrun).1⟩

end HandleSys

end StepMesh
