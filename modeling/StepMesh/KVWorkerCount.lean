import StepMesh.KVWorker
import StepMesh.Lib.ListAux
import StepMesh.Lib.Run

/-!
# The count of responses

The balance of a timestamp: the responses counted so far and what is still owed to it (slices to be
skipped or sent, messages in flight, responses being processed, AF requests not yet sent) add up to
the count that `NewRequest` computed. `waitReturns_iff` reads from it when `WaitRequest` returns.
-/

namespace StepMesh

open Threads

/-! ### The timestamps of a batch -/

namespace AFWorker

variable (w : AFWorker)

@[simp] theorem timestamp_sendMsg (push : Bool) (ts : Int) (kt : KeyTensor) (cmd : Int) (i : Nat) :
    (w.sendMsg (zMsg push ts kt cmd) i).msgMeta.timestamp = ts := rfl

theorem timestamps_zPush_ (ts : Int) (kt : KeyTensor) (cmd : Int) :
    (w.zPush_ ts kt cmd).map (·.2.msgMeta.timestamp) = List.replicate w.po.numServers ts := by
  simp [zPush_, Function.comp_def]

theorem timestamps_zPull_ {ts : Int} {pull : List KeyTensor} {index : Nat} {cmd : Int}
    {sent : List (Nat × Message)} (h : w.zPull_ ts pull index cmd = some sent) :
    sent.map (·.2.msgMeta.timestamp) = List.replicate w.po.numServers ts := by
  unfold zPull_ at h
  rw [Postoffice.length_getServerKeyRanges] at h
  rw [List.map_eq_of_mapM (h := fun _ => ts) h, List.map_const', List.length_range]
  intro i _ p hp
  obtain ⟨kt, -, hkt⟩ := Option.bind_eq_some_iff.mp hp
  obtain rfl := Option.some.inj hkt
  exact w.timestamp_sendMsg ..

theorem timestamps_loop {tss : List Int} {n : Nat} (hn : tss.length = n)
    {f : Nat → Option (List (Nat × Message))} {sent : List (List (Nat × Message))}
    (h : (List.range n).mapM f = some sent)
    (hf : ∀ i l, f i = some l → ∃ ts, tss[i]? = some ts ∧
      l.map (·.2.msgMeta.timestamp) = List.replicate w.po.numServers ts) :
    sent.flatten.map (·.2.msgMeta.timestamp) = tss.flatMap (List.replicate w.po.numServers) := by
  have hmap : sent.map (fun l => l.map (·.2.msgMeta.timestamp)) =
      (List.range n).map fun i => List.replicate w.po.numServers (tss.getD i 0) := by
    refine List.map_eq_of_mapM h fun i _ l hl => ?_
    obtain ⟨ts, hts, hl⟩ := hf i l hl
    rw [hl, List.getD_eq_getElem?_getD, hts, Option.getD_some]
  have hrange : (List.range n).map (fun i => tss.getD i 0) = tss := by
    refine List.ext_getElem (by simp [hn]) fun i hi _ => ?_
    simp only [List.length_map, List.length_range] at hi
    simp [hn, hi]
  rw [List.map_flatten, hmap, ← List.flatMap_def]
  nth_rewrite 2 [← hrange]
  rw [List.flatMap_map]

theorem timestamps_zBatchPushPull_ {req : AFTensorRequest} (hreq : req.Allocated w.po)
    {sent : List (Nat × Message)} (h : w.zBatchPushPull_ req = some sent) :
    sent.map (·.2.msgMeta.timestamp) =
      (req.pushTimestamps ++ req.pullTimestamps).flatMap (List.replicate w.po.numServers) := by
  obtain ⟨hpush, hpull⟩ := hreq
  unfold zBatchPushPull_ at h
  simp only [Postoffice.length_getServerKeyRanges, Option.bind_eq_bind, Option.bind_eq_some_iff] at h
  obtain ⟨-, -, -, -, h⟩ := h
  rw [List.flatMap_append]
  split_ifs at h with h₁ h₂
  · have hnil : req.pullTimestamps = [] := by
      apply List.length_eq_zero_iff.mp
      rw [hpull, show req.pull.length = 0 by omega, Nat.zero_div]
    obtain ⟨ts, hts⟩ := List.length_eq_one_iff.mp (hpush.trans h₂)
    simp only [hts, List.getElem?_cons_zero, Option.bind_eq_some_iff] at h
    obtain ⟨kt, -, ts', hts', h⟩ := h
    obtain rfl := Option.some.inj hts'
    obtain rfl := Option.some.inj h
    simp [hts, hnil, timestamps_zPush_]
  · have hnil : req.pushTimestamps = [] := List.length_eq_zero_iff.mp (by omega)
    obtain ⟨ts, hts, h⟩ := Option.bind_eq_some_iff.mp h
    -- a timestamp was allocated, so there is one server
    have hle : req.pullTimestamps.length ≤ 1 := by
      rw [hpull]
      exact (Nat.div_le_self _ _).trans (by omega)
    obtain ⟨ts', hts'⟩ : ∃ ts', req.pullTimestamps = [ts'] := by
      have := (List.getElem?_eq_some_iff.mp hts).1
      exact List.length_eq_one_iff.mp (by omega)
    obtain rfl : ts' = ts := by simpa [hts'] using hts
    simp [hnil, hts', w.timestamps_zPull_ h]
  · obtain ⟨pushes, hpushes, h⟩ := Option.bind_eq_some_iff.mp h
    obtain ⟨pulls, hpulls, h⟩ := Option.bind_eq_some_iff.mp h
    obtain rfl := Option.some.inj h
    rw [List.map_append]
    congr 1
    · refine w.timestamps_loop hpush hpushes fun i l hl => ?_
      simp only [Option.bind_eq_some_iff] at hl
      obtain ⟨kt, -, ts, hts, hl⟩ := hl
      obtain rfl := Option.some.inj hl
      exact ⟨ts, hts, w.timestamps_zPush_ ts kt _⟩
    · refine w.timestamps_loop hpull hpulls fun i l hl => ?_
      obtain ⟨ts, hts, hl⟩ := Option.bind_eq_some_iff.mp hl
      exact ⟨ts, hts, w.timestamps_zPull_ hl⟩

end AFWorker

namespace KVWorker

/-! ### What is owed to a timestamp -/

/-- The slices of `ts` that an operation skips or sends. -/
def Op.issues (ts : Int) : Op → Nat
  | .addResponse ts' num => if ts' = ts then num else 0
  | .send msg => if msg.msgMeta.timestamp = ts then 1 else 0
  | _ => 0

/-- The responses to `req` that an operation counts. -/
def Op.answers (req : Message) : Op → Nat
  | .countResponse req' => if req' = req then 1 else 0
  | _ => 0

def Op.owes (ts : Int) : Op → Nat
  | .countResponse req => if req.msgMeta.timestamp = ts then 1 else 0
  | op => op.issues ts

/-- The timestamps of AF requests that the push-pull thread has not taken yet. -/
def unsent (s : WorkerShared) : List Int :=
  (s.calls ++ s.pushpullQueue).flatMap fun req => req.pushTimestamps ++ req.pullTimestamps

def owed (s : WorkerSys) (ts : Int) : Nat :=
  load (Op.owes ts) s.threads + s.shared.inFlight.countP (fun msg => msg.msgMeta.timestamp = ts) +
    s.shared.worker.po.numServers * (unsent s.shared).count ts

def responded (s : WorkerShared) (ts : Int) : Int :=
  ((s.worker.obj.getTracker ts).map (·.responseCount)).getD 0

def expected (s : WorkerShared) (ts : Int) : Int :=
  ((s.worker.obj.getTracker ts).map (·.count)).getD 0

structure Counted (po : Postoffice) (s : WorkerSys) : Prop where
  po_eq : s.shared.worker.po = po
  count_eq : ∀ ts t, s.shared.worker.obj.getTracker ts = some t → t.count = po.numServers
  balance : ∀ ts, responded s.shared ts + owed s ts = expected s.shared ts
  queued : ∀ req ∈ s.shared.pushpullQueue, req.Allocated po
  servers : s.shared.calls ≠ [] ∨ s.shared.pushpullQueue ≠ [] → 0 < po.numServers
  history : ∀ req, s.shared.sent.count req =
    s.shared.inFlight.count req + load (Op.answers req) s.threads + s.shared.answered.count req

variable {po : Postoffice} {s s' : WorkerSys} {sh sh' : WorkerShared} {op : Op} {more : List Op}

/-- What one operation does to the numbers: it passes on what it owes. -/
structure Passes (op : Op) (sh sh' : WorkerShared) (more : List Op) : Prop where
  po_eq : sh'.worker.po = sh.worker.po
  calls_eq : sh'.calls = sh.calls
  queue_eq : sh'.pushpullQueue = sh.pushpullQueue
  count_eq : ∀ ts, (sh'.worker.obj.getTracker ts).map (·.count) =
    (sh.worker.obj.getTracker ts).map (·.count)
  owes : ∀ ts, responded sh' ts + (more.map (Op.owes ts)).sum +
      sh'.inFlight.countP (fun msg => msg.msgMeta.timestamp = ts) =
    responded sh ts + op.owes ts + sh.inFlight.countP (fun msg => msg.msgMeta.timestamp = ts)
  answers : ∀ req, sh'.sent.count req + sh.inFlight.count req + sh.answered.count req + op.answers req =
    sh.sent.count req + sh'.inFlight.count req + sh'.answered.count req +
      (more.map (Op.answers req)).sum

theorem Passes.addResponse {ts num : Int} {obj : Customer}
    (h : sh.worker.obj.addResponse ts num = some obj) (ts' : Int) :
    (obj.getTracker ts').map (·.count) = (sh.worker.obj.getTracker ts').map (·.count) ∧
      responded { sh with worker := { sh.worker with obj } } ts' =
        responded sh ts' + if ts = ts' then num else 0 := by
  obtain ⟨t, ht, -, hget⟩ := Customer.addResponse_eq_some h
  by_cases hts : ts' = ts
  · subst hts
    simp [responded, hget, ht]
  · simp [responded, hget, hts, Ne.symm hts]

theorem passes_exec (h : exec op sh = some (sh', more)) : Passes op sh sh' more := by
  cases op with
  | addResponse ts num =>
    obtain ⟨obj, hobj, h⟩ := Option.bind_eq_some_iff.mp h
    obtain ⟨rfl, rfl⟩ := Prod.mk.inj (Option.some.inj h)
    have hadd := Passes.addResponse hobj
    refine ⟨rfl, rfl, rfl, fun ts' => (hadd ts').1, fun ts' => ?_, fun req => by simp [Op.answers]⟩
    rw [(hadd ts').2]
    simp only [Op.owes, Op.issues, List.map_nil, List.sum_nil]
    split_ifs <;> simp
  | countResponse req =>
    obtain ⟨obj, hobj, h⟩ := Option.bind_eq_some_iff.mp h
    obtain ⟨rfl, rfl⟩ := Prod.mk.inj (Option.some.inj h)
    have hadd := Passes.addResponse hobj
    refine ⟨rfl, rfl, rfl, fun ts' => (hadd ts').1, fun ts' => ?_, fun req' => ?_⟩
    · have := (hadd ts').2
      simp only [responded, Op.owes, List.map_nil, List.sum_nil] at this ⊢
      rw [this]
      split_ifs <;> simp
    · simp only [Op.answers, List.count_append, List.count_singleton, List.map_nil, List.sum_nil]
      by_cases hr : req = req'
      · simp [hr]; omega
      · simp [hr]
  | send msg =>
    obtain ⟨rfl, rfl⟩ := Prod.mk.inj (Option.some.inj h)
    refine ⟨rfl, rfl, rfl, fun _ => rfl, fun ts' => ?_, fun req => ?_⟩
    · simp only [responded, Op.owes, Op.issues, List.countP_append, List.countP_singleton,
        List.map_nil, List.sum_nil, decide_eq_true_eq]
      split_ifs
      · simp; omega
      · simp
    · simp only [Op.answers, List.count_append, List.map_nil, List.sum_nil]
      omega
  | runCallback ts =>
    unfold exec at h
    dsimp only at h
    split at h
    all_goals
      obtain ⟨rfl, rfl⟩ := Prod.mk.inj (Option.some.inj h)
      exact ⟨rfl, rfl, rfl, fun _ => rfl, fun _ => by simp [Op.owes, Op.issues],
        fun _ => by simp [Op.answers]⟩
  | invoke ts cb =>
    cases cb with
    | completePull keys vals lens cb =>
      obtain ⟨pulled, -, h⟩ := Option.bind_eq_some_iff.mp h
      obtain ⟨rfl, rfl⟩ := Prod.mk.inj (Option.some.inj h)
      exact ⟨rfl, rfl, rfl, fun _ => rfl, fun _ => by simp [responded, Op.owes, Op.issues],
        fun _ => by simp [Op.answers]⟩
    | _ =>
      obtain ⟨rfl, rfl⟩ := Prod.mk.inj (Option.some.inj h)
      exact ⟨rfl, rfl, rfl, fun _ => rfl, fun _ => by simp [responded, Op.owes, Op.issues],
        fun _ => by simp [Op.answers]⟩
  | checkFinished ts =>
    obtain ⟨num, -, h⟩ := Option.bind_eq_some_iff.mp h
    obtain ⟨rfl, rfl⟩ := Prod.mk.inj (Option.some.inj h)
    refine ⟨rfl, rfl, rfl, fun _ => rfl, fun _ => ?_, fun _ => ?_⟩ <;> split_ifs <;>
      simp [Op.owes, Op.issues, Op.answers]
  | _ =>
    obtain ⟨rfl, rfl⟩ := Prod.mk.inj (Option.some.inj h)
    exact ⟨rfl, rfl, rfl, fun _ => rfl, fun _ => by simp [responded, Op.owes, Op.issues],
      fun _ => by simp [Op.answers]⟩

theorem expected_eq_of_count_eq {ts : Int} (h : (sh'.worker.obj.getTracker ts).map (·.count) =
    (sh.worker.obj.getTracker ts).map (·.count)) : expected sh' ts = expected sh ts := by
  simp only [expected, h]

theorem Counted.tick (hs : Counted po s) {i : Nat} (h : Threads.tick exec s i = some s') :
    Counted po s' := by
  obtain ⟨op, ops, more, hi, hexec, hthreads⟩ := tick_eq_some h
  have hp := passes_exec hexec
  have hload := fun w => load_tick w hi more
  refine ⟨hp.po_eq.trans hs.po_eq, fun ts t ht => ?_, fun ts => ?_, ?_, ?_, fun req => ?_⟩
  · have hcount := hp.count_eq ts
    rw [ht, Option.map_some] at hcount
    obtain ⟨t', ht', hcount⟩ := Option.map_eq_some_iff.mp hcount.symm
    exact hcount ▸ hs.count_eq ts t' ht'
  · have hb := hs.balance ts
    have howes := hp.owes ts
    have hl := hload (Op.owes ts)
    rw [expected_eq_of_count_eq (hp.count_eq ts)]
    simp only [owed, unsent, hthreads, hp.po_eq, hp.calls_eq, hp.queue_eq] at hb ⊢
    omega
  · rw [hp.queue_eq]
    exact hs.queued
  · rw [hp.calls_eq, hp.queue_eq]
    exact hs.servers
  · have hh := hs.history req
    have hans := hp.answers req
    have hl := hload (Op.answers req)
    rw [hthreads]
    omega

/-! ### Starting a request -/

@[simp] theorem timestamp_sendMsgOf (w : KVWorker) (ts : Int) (push : Bool) (cmd : Int) (i : Nat)
    (kvs : KVPairs) : (w.sendMsgOf ts push cmd i kvs).msgMeta.timestamp = ts := by
  unfold sendMsgOf
  dsimp only
  split_ifs <;> simp

theorem sum_owes_sendOps (w : KVWorker) (ts : Int) (push : Bool) (cmd : Int) (sliced : SlicedKVs)
    (ts' : Int) : ((w.sendOps ts push cmd sliced).map (Op.owes ts')).sum =
      if ts = ts' then sliced.length else 0 := by
  have hsent : (sliced.zipIdx.filter fun s => s.1.1).length = sliced.countP (·.1) := by
    have hmap := List.countP_map (p := fun s : Bool × KVPairs => s.1) (f := Prod.fst)
      (l := sliced.zipIdx)
    rw [List.zipIdx_map_fst] at hmap
    rw [← List.countP_eq_length_filter, hmap]
    rfl
  have hall : sliced.length = sliced.countP (·.1) + sliced.countP fun s => !s.1 := by
    simpa using List.length_eq_countP_add_countP (fun s : Bool × KVPairs => s.1) (l := sliced)
  have hrun : ((if (sliced.countP fun s => !s.1) = sliced.length then [Op.runCallback ts]
      else []).map (Op.owes ts')).sum = 0 := by
    split_ifs <;> rfl
  simp only [sendOps, List.map_append, List.sum_append, List.map_map, Function.comp_def, Op.owes,
    Op.issues, timestamp_sendMsgOf, List.map_const', List.sum_replicate_nat, hsent, hrun, List.map_cons,
    List.map_nil, List.sum_cons, List.sum_nil]
  split_ifs <;> omega

theorem sum_answers_sendOps (w : KVWorker) (ts : Int) (push : Bool) (cmd : Int) (sliced : SlicedKVs)
    (req : Message) : ((w.sendOps ts push cmd sliced).map (Op.answers req)).sum = 0 := by
  unfold sendOps
  dsimp only
  split_ifs <;> simp [Op.answers, Function.comp_def]

theorem newRequest_eq_some {ts : Int} {callback : Bool} {slices : List Bool}
    (h : newRequest sh callback slices = some (ts, sh')) :
    ts = sh.worker.obj.tracker.length ∧ sh' = { sh with
      worker := { sh.worker with obj := sh.worker.obj.addRequest sh.worker.po }
      issued := sh.issued ++ [⟨ts, callback, slices⟩] } := by
  obtain ⟨⟨_, _⟩, hnew, h⟩ := Option.bind_eq_some_iff.mp h
  obtain ⟨-, rfl, rfl⟩ := Customer.newRequest_eq_some.mp hnew
  obtain ⟨rfl, rfl⟩ : _ ∧ _ := by simpa only [Option.pure_def, Option.some.injEq, Prod.mk.injEq] using h
  exact ⟨rfl, rfl⟩

theorem Counted.allocate (hs : Counted po s)
    (hworker : s'.shared.worker = { s.shared.worker with
      obj := s.shared.worker.obj.addRequest s.shared.worker.po })
    (howed : ∀ ts, owed s' ts = owed s ts +
      if s.shared.worker.obj.tracker.length = ts then po.numServers else 0)
    (hcalls : s'.shared.calls ≠ [] → s.shared.calls ≠ [])
    (hqueue : s'.shared.pushpullQueue = s.shared.pushpullQueue)
    (hhist : ∀ req, s'.shared.sent.count req = s'.shared.inFlight.count req +
      load (Op.answers req) s'.threads + s'.shared.answered.count req) : Counted po s' := by
  have hget : ∀ ts, s'.shared.worker.obj.getTracker ts =
      if ts = s.shared.worker.obj.tracker.length then some { count := po.numServers }
      else s.shared.worker.obj.getTracker ts := by
    rw [hworker, ← hs.po_eq]
    exact Customer.getTracker_addRequest _ s.shared.worker.obj
  have hnone : s.shared.worker.obj.getTracker s.shared.worker.obj.tracker.length = none := by
    by_contra hne
    obtain ⟨t, ht⟩ := Option.ne_none_iff_exists'.mp hne
    exact absurd (Customer.getTracker_lt ht) (Int.lt_irrefl _)
  refine ⟨by rw [hworker]; exact hs.po_eq, fun ts t ht => ?_, fun ts => ?_, hqueue ▸ hs.queued,
    fun hne => hs.servers (hne.imp hcalls (hqueue ▸ ·)), hhist⟩
  · rw [hget] at ht
    split_ifs at ht with hts
    · obtain rfl := Option.some.inj ht
      rfl
    · exact hs.count_eq ts t ht
  · have hb := hs.balance ts
    simp only [howed, responded, expected, hget] at hb ⊢
    by_cases hts : ts = s.shared.worker.obj.tracker.length
    · subst hts
      simp only [hnone, Option.map_none, Option.getD_none] at hb
      simp
      omega
    · rw [if_neg hts, if_neg (Ne.symm hts)]
      simpa using hb

theorem Counted.request (hs : Counted po s) {push : Bool} {kvs : KVPairs}
    {cmd : Int} {cb : Option Callback} (h : request s push kvs cmd cb = some s') : Counted po s' := by
  obtain ⟨sliced, hsliced, h⟩ := Option.bind_eq_some_iff.mp h
  obtain ⟨⟨_, _⟩, hnew, h⟩ := Option.bind_eq_some_iff.mp h
  obtain ⟨rfl, rfl⟩ := newRequest_eq_some hnew
  obtain rfl := Option.some.inj h
  have hlen := s.shared.worker.slicer.length_slice hsliced
  rw [Postoffice.length_getServerKeyRanges, hs.po_eq] at hlen
  -- registering a callback owes nothing
  have hload : ∀ w : Op → Nat, (∀ ts cb, w (.addCallback ts cb) = 0) → ∀ ts,
      load w (s.threads ++ [(cb.map (Op.addCallback ts)).toList ++
        s.shared.worker.sendOps ts push cmd sliced]) =
      load w s.threads + ((s.shared.worker.sendOps ts push cmd sliced).map w).sum := by
    intro w hw ts
    cases cb <;> simp [hw]
  refine hs.allocate rfl (fun ts => ?_) id rfl fun req => ?_
  · simp only [Sys.spawn, owed, hload (Op.owes ts) fun _ _ => rfl, sum_owes_sendOps, hlen]
    simp only [unsent]
    omega
  · simp only [Sys.spawn, hload (Op.answers req) fun _ _ => rfl, sum_answers_sendOps]
    exact hs.history req

/-! ### AF requests -/

theorem Counted.allocateCall (hs : Counted po s) {i : Nat}
    {req req' : AFTensorRequest} (hreq : s.shared.calls[i]? = some req) {callback : Bool}
    {slices : List Bool} {ts' : Int} {sh : WorkerShared} (hnew : newRequest s.shared callback slices = some (ts', sh))
    (hreq' : ∀ ts, (req'.pushTimestamps ++ req'.pullTimestamps).count ts =
      (req.pushTimestamps ++ req.pullTimestamps).count ts +
        if s.shared.worker.obj.tracker.length = ts then 1 else 0) :
    Counted po { s with shared := { sh with calls := sh.calls.set i req' } } := by
  obtain ⟨-, rfl⟩ := newRequest_eq_some hnew
  refine hs.allocate rfl (fun ts => ?_) (by simp) rfl hs.history
  obtain ⟨l₁, l₂, hcalls, rfl⟩ := List.exists_append_of_getElem? hreq
  have hset : (l₁ ++ req :: l₂).set l₁.length req' = l₁ ++ req' :: l₂ := by simp
  have hts := hreq' ts
  simp only [owed, unsent, hcalls, hset, List.flatMap_append, List.flatMap_cons,
    List.count_append, hs.po_eq] at hts ⊢
  have hmul := congrArg (po.numServers * ·) hts
  simp only [Nat.mul_add] at hmul ⊢
  split_ifs at hmul ⊢ <;> omega

theorem Counted.allocTimestamp (hs : Counted po s) {i : Nat}
    {shared : WorkerShared} (h : allocTimestamp s.shared i = some shared) :
    Counted po { s with shared } := by
  obtain ⟨req, hreq, h⟩ := Option.bind_eq_some_iff.mp h
  dsimp only at h
  split_ifs at h with hlt
  · obtain ⟨⟨ts', sh⟩, hnew, h⟩ := Option.bind_eq_some_iff.mp h
    obtain rfl := Option.some.inj h
    refine hs.allocateCall hreq hnew fun ts => ?_
    simp only [(newRequest_eq_some hnew).1, List.count_append, List.count_singleton, beq_iff_eq]
    omega
  · obtain ⟨-, -, h⟩ := Option.bind_eq_some_iff.mp h
    obtain ⟨⟨ts', sh⟩, hnew, h⟩ := Option.bind_eq_some_iff.mp h
    obtain rfl := Option.some.inj h
    refine hs.allocateCall hreq hnew fun ts => ?_
    simp only [(newRequest_eq_some hnew).1, List.count_append, List.count_singleton, beq_iff_eq]
    omega

theorem Counted.queueRequest (hs : Counted po s) {i : Nat} {shared : WorkerShared}
    (h : queueRequest s.shared i = some shared) : Counted po { s with shared } := by
  obtain ⟨req, hreq, h⟩ := Option.bind_eq_some_iff.mp h
  obtain ⟨_, halloc, h⟩ := Option.bind_eq_some_iff.mp h
  obtain rfl := Option.some.inj h
  obtain ⟨l₁, l₂, hcalls, rfl⟩ := List.exists_append_of_getElem? hreq
  have hS := hs.servers (.inl (by simp [hcalls]))
  refine ⟨hs.po_eq, hs.count_eq, fun ts => ?_, fun req' hreq' => ?_, fun _ => hS, hs.history⟩
  · have hb := hs.balance ts
    simp only [owed, unsent, hcalls, List.eraseIdx_of_append, List.flatMap_append, List.flatMap_cons,
      List.flatMap_nil, List.count_append, List.count_nil, Nat.mul_add, responded, expected] at hb ⊢
    omega
  · rcases List.mem_append.mp hreq' with hreq' | hreq'
    · exact hs.queued req' hreq'
    · obtain rfl := List.mem_singleton.mp hreq'
      rw [← hs.po_eq]
      simpa using halloc

theorem sum_owes_afOps (sent : List (Nat × Message)) (ts : Int) :
    ((afOps sent).map (Op.owes ts)).sum = (sent.map (·.2.msgMeta.timestamp)).count ts := by
  induction sent with
  | nil => rfl
  | cons p sent ih =>
    unfold afOps at ih ⊢
    rw [List.flatMap_cons, List.map_append, List.sum_append, ih, List.map_cons, List.count_cons]
    split_ifs <;> simp_all [Op.owes, Op.issues] <;> omega

theorem sum_answers_afOps (sent : List (Nat × Message)) (req : Message) :
    ((afOps sent).map (Op.answers req)).sum = 0 := by
  refine List.sum_eq_zero fun n hn => ?_
  obtain ⟨op, hop, rfl⟩ := List.mem_map.mp hn
  obtain ⟨p, -, hop⟩ := List.mem_flatMap.mp hop
  split_ifs at hop <;> simp only [List.mem_cons, List.not_mem_nil, or_false] at hop
  · rw [hop]; rfl
  · rcases hop with rfl | rfl <;> rfl

theorem Counted.popRequest (hs : Counted po s) (h : step s .popRequest = some s') :
    Counted po s' := by
  simp only [step, Option.bind_eq_bind, Option.bind_eq_some_iff] at h
  obtain ⟨_, hidle, req, hreq, sent, hsent, h⟩ := h
  obtain rfl := Option.some.inj h
  have hidle : s.threads[0]? = some [] := by simpa using hidle
  obtain ⟨queue, hqueue⟩ := List.head?_eq_some_iff.mp hreq
  have hload := fun w : Op → Nat => load_set w hidle (afOps sent)
  simp only [List.map_nil, List.sum_nil, Nat.add_zero] at hload
  have hS := hs.servers (.inr (by simp [hqueue]))
  refine ⟨hs.po_eq, hs.count_eq, fun ts => ?_, fun req' hreq' => ?_, fun _ => hS, fun req' => ?_⟩
  · have hb := hs.balance ts
    have htss := AFWorker.timestamps_zBatchPushPull_ _ (hs.po_eq ▸ hs.queued req (by simp [hqueue])) hsent
    simp only [owed, unsent, hload, sum_owes_afOps, htss, List.count_flatMap_replicate, hqueue,
      List.tail_cons, List.flatMap_append, List.flatMap_cons, List.count_append, Nat.mul_add,
      responded, expected] at hb ⊢
    omega
  · exact hs.queued req' (List.mem_of_mem_tail hreq')
  · rw [hload, sum_answers_afOps, Nat.add_zero]
    exact hs.history req'

theorem sum_directProcess {req msg : Message} {ops : List Op} (h : directProcess req msg = some ops)
    {w : Op → Nat} (hcheck : ∀ ts, w (.checkFinished ts) = 0)
    (hstore : ∀ ts kvs, w (.storeKvs ts kvs) = 0) : (ops.map w).sum = w (.countResponse req) := by
  unfold directProcess at h
  dsimp only at h
  split_ifs at h
  · obtain rfl := Option.some.inj h
    simp
  · obtain rfl := Option.some.inj h
    simp [hcheck]
  · obtain ⟨-, -, h⟩ := Option.bind_eq_some_iff.mp h
    obtain rfl := Option.some.inj h
    simp [hcheck, hstore]

theorem Counted.answer (hs : Counted po s) {k : Nat} {msg : Message}
    (h : step s (.answer k msg) = some s') : Counted po s' := by
  simp only [step, Option.bind_eq_bind, Option.bind_eq_some_iff] at h
  obtain ⟨req, hreq, -, -, ops, hops, h⟩ := h
  obtain rfl := Option.some.inj h
  obtain ⟨l₁, l₂, hflight, rfl⟩ := List.exists_append_of_getElem? hreq
  refine ⟨hs.po_eq, hs.count_eq, fun ts => ?_, hs.queued, hs.servers, fun req' => ?_⟩
  · have hb := hs.balance ts
    have hsum := sum_directProcess hops (w := Op.owes ts) (fun _ => rfl) fun _ _ => rfl
    simp only [Sys.spawn, owed, unsent, responded, expected, load_append, load_singleton, hsum, hflight,
      List.eraseIdx_of_append, List.countP_append, List.countP_cons, Op.owes, decide_eq_true_eq] at hb ⊢
    omega
  · have hh := hs.history req'
    have hsum := sum_directProcess hops (w := Op.answers req') (fun _ => rfl) fun _ _ => rfl
    simp only [Sys.spawn, load_append, load_singleton, hsum, hflight, List.eraseIdx_of_append, List.count_append,
      List.count_cons, Op.answers, beq_iff_eq] at hh ⊢
    omega

theorem Counted.step (hs : Counted po s) {a : Action}
    (h : step s a = some s') : Counted po s' := by
  cases a with
  | zPush keys vals lens cmd cb => exact hs.request h
  | pull keys vals lens cmd cb => exact hs.request h
  | zBatchPushPull push pull =>
    obtain ⟨_, hS, h⟩ := Option.bind_eq_some_iff.mp h
    obtain rfl := Option.some.inj h
    have hS : 0 < po.numServers := by simpa [hs.po_eq] using hS
    refine ⟨hs.po_eq, hs.count_eq, fun ts => ?_, hs.queued, fun _ => hS, hs.history⟩
    have hb := hs.balance ts
    simpa [owed, unsent, responded, expected] using hb
  | allocTimestamp i =>
    obtain ⟨shared, hsh, rfl⟩ := Option.map_eq_some_iff.mp h
    exact hs.allocTimestamp hsh
  | queueRequest i =>
    obtain ⟨shared, hsh, rfl⟩ := Option.map_eq_some_iff.mp h
    exact hs.queueRequest hsh
  | popRequest => exact hs.popRequest h
  | answer k msg => exact hs.answer h
  | tick i => exact hs.tick h

/-! ### Every run -/

theorem counted_exec {slicer : Slicer} {isWorkerZpull : Bool}
    {appId customerId : Int} {as : List Action}
    (h : Run.exec step (init po slicer isWorkerZpull appId customerId) as = some s) :
    Counted po s := by
  refine Run.exec_invariant (Counted po) (fun _ _ _ hs h => hs.step h) ?_ h
  have hnone : ∀ ts, Customer.getTracker { appId, customerId } ts = none := by
    intro ts
    simp [Customer.getTracker]
  refine ⟨rfl, fun ts t ht => ?_, fun ts => ?_, by simp [init], by simp [init], fun req => ?_⟩
  · exact absurd ht (by simp [init, hnone])
  · simp [init, owed, unsent, responded, expected, hnone]
  · simp [init]

/-- The request of `ts` has skipped or sent all its slices. -/
def AllIssued (s : WorkerSys) (ts : Int) : Prop :=
  (∀ ops ∈ s.threads, ∀ op ∈ ops, op.issues ts = 0) ∧ ts ∉ unsent s.shared

theorem owes_eq_zero_iff (op : Op) (ts : Int) : op.owes ts = 0 ↔
    op.issues ts = 0 ∧ ∀ req : Message, req.msgMeta.timestamp = ts → op.answers req = 0 := by
  cases op with
  | countResponse req =>
    simp only [Op.owes, Op.issues, Op.answers, ite_eq_right_iff, Nat.one_ne_zero, imp_false, true_and]
    exact ⟨fun hne req' hreq' heq => hne (heq ▸ hreq'), fun h hreq => h req hreq rfl⟩
  | _ => simp [Op.owes, Op.answers]

/-- A message of `ts` is missing an answer as long as it is in flight or its response is on the way
to be counted. -/
theorem Counted.perm_answered_iff (hs : Counted po s) (ts : Int) :
    (s.shared.sent.filter fun msg => msg.msgMeta.timestamp = ts).Perm
        (s.shared.answered.filter fun msg => msg.msgMeta.timestamp = ts) ↔
      ∀ req : Message, req.msgMeta.timestamp = ts →
        s.shared.inFlight.count req = 0 ∧ load (Op.answers req) s.threads = 0 := by
  rw [List.perm_iff_count]
  refine forall_congr' fun req => ?_
  have hh := hs.history req
  by_cases hreq : req.msgMeta.timestamp = ts
  · rw [List.count_filter (by simpa using hreq), List.count_filter (by simpa using hreq)]
    simp only [hreq, true_imp_iff]
    omega
  · have hnil : ∀ l : List Message, (l.filter fun msg => msg.msgMeta.timestamp = ts).count req = 0 :=
      fun l => List.count_eq_zero.mpr (by simp [hreq])
    simp [hnil, hreq]

theorem Counted.owed_eq_zero_iff (hs : Counted po s) (ts : Int) : owed s ts = 0 ↔
    AllIssued s ts ∧ (s.shared.sent.filter fun msg => msg.msgMeta.timestamp = ts).Perm
      (s.shared.answered.filter fun msg => msg.msgMeta.timestamp = ts) := by
  have hunsent : s.shared.worker.po.numServers * (unsent s.shared).count ts = 0 ↔
      ts ∉ unsent s.shared := by
    rw [Nat.mul_eq_zero, List.count_eq_zero, hs.po_eq]
    refine ⟨fun h hmem => ?_, .inr⟩
    have hS : 0 < po.numServers := by
      refine hs.servers (not_and_or.mp fun hnil => ?_)
      simp [unsent, hnil] at hmem
    exact h.elim (by omega) (· hmem)
  have hflight : s.shared.inFlight.countP (fun msg => msg.msgMeta.timestamp = ts) = 0 ↔
      ∀ req : Message, req.msgMeta.timestamp = ts → s.shared.inFlight.count req = 0 := by
    simp only [List.countP_eq_zero, List.count_eq_zero, decide_eq_true_eq]
    exact ⟨fun h req hreq hmem => h req hmem hreq, fun h req hmem hreq => h req hreq hmem⟩
  rw [hs.perm_answered_iff, owed, Nat.add_eq_zero_iff, Nat.add_eq_zero_iff, load_eq_zero_iff, hflight,
    hunsent, AllIssued]
  simp only [owes_eq_zero_iff, load_eq_zero_iff]
  constructor
  · rintro ⟨⟨hops, hflight⟩, hunsent⟩
    exact ⟨⟨fun ops hops' op hop => (hops ops hops' op hop).1, hunsent⟩, fun req hreq =>
      ⟨hflight req hreq, fun ops hops' op hop => (hops ops hops' op hop).2 req hreq⟩⟩
  · rintro ⟨⟨hissued, hunsent⟩, hans⟩
    exact ⟨⟨fun ops hops op hop => ⟨hissued ops hops op hop,
      fun req hreq => (hans req hreq).2 ops hops op hop⟩, fun req hreq => (hans req hreq).1⟩, hunsent⟩

/-- Two servers and a push of one key: one slice is skipped, the other sent and answered. -/
def samplePush : List Action :=
  [.zPush [1] { ptr := 64, size := 4 } [] 0 true, .tick 1, .tick 1, .tick 1,
    .answer 0 { msgMeta := { timestamp := 0, push := true } }, .tick 2, .tick 2]

end KVWorker

end StepMesh
