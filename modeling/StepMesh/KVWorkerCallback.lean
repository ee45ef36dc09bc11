import StepMesh.KVWorkerCount

/-!
# When a callback runs

`Process` compares `NumResponse`, the number of responses expected, with one less than the number of
servers, so a response never triggers the callback of its request. What is left is the call in `Send`
for a request of which every slice is skipped. `callback_runs_once_iff_all_skipped` says so for every
run: only there the callback runs, once, and leaves nothing behind in `callbacks_` and `recv_kvs_`.
-/

namespace StepMesh.KVWorker

open Threads

def Op.timestamp : Op → Int
  | .addCallback ts _ | .addResponse ts _ | .runCallback ts | .invoke ts _ | .eraseCallback ts
  | .storeKvs ts _ | .checkFinished ts => ts
  | .send msg | .countResponse msg => msg.msgMeta.timestamp

/-- The request of `ts` is issued and skips every slice. -/
def Skips (sh : WorkerShared) (ts : Int) : Prop :=
  ∃ r ∈ sh.issued, r.ts = ts ∧ ∀ b ∈ r.slices, b = false

/-- The request of `ts` is issued and sends some slice. -/
def Sends (sh : WorkerShared) (ts : Int) : Prop :=
  ∃ r ∈ sh.issued, r.ts = ts ∧ ∃ b ∈ r.slices, b = true

/-- Only a request that skips everything runs a callback. -/
def Op.Allowed (sh : WorkerShared) (op : Op) : Prop :=
  op.timestamp ∈ sh.issued.map (·.ts) ∧
    match op with
    | .runCallback ts | .invoke ts _ => Skips sh ts
    | .send msg => Sends sh msg.msgMeta.timestamp
    | _ => True

section mono
variable {sh sh' : WorkerShared} (h : sh.issued ⊆ sh'.issued)
include h

theorem Skips.mono {ts : Int} : Skips sh ts → Skips sh' ts
  | ⟨r, hr, hts⟩ => ⟨r, h hr, hts⟩

theorem Sends.mono {ts : Int} : Sends sh ts → Sends sh' ts
  | ⟨r, hr, hts⟩ => ⟨r, h hr, hts⟩

theorem Op.Allowed.mono {op : Op} (hop : op.Allowed sh) : op.Allowed sh' := by
  refine ⟨List.map_subset _ h hop.1, ?_⟩
  cases op with
  | runCallback ts => exact hop.2.mono h
  | invoke ts cb => exact Skips.mono h hop.2
  | send msg => exact Sends.mono h hop.2
  | _ => trivial

end mono

/-- How far a request with a callback that skips everything has come: the entry of `callbacks_`, how
often the callback ran and the operations left. -/
inductive Phase (ts : Int) (cb : Callback) (n : Nat) : Option Callback → Nat → List Op → Prop
  | issued : Phase ts cb n none 0 [.addCallback ts cb, .addResponse ts n, .runCallback ts]
  | registered : Phase ts cb n (some cb) 0 [.addResponse ts n, .runCallback ts]
  | counted : Phase ts cb n (some cb) 0 [.runCallback ts]
  | found : Phase ts cb n (some cb) 0 [.invoke ts cb, .eraseCallback ts]
  | ran : Phase ts cb n (some cb) 1 [.eraseCallback ts]
  | done : Phase ts cb n none 1 []

structure CallbackInv (s : WorkerSys) : Prop where
  fresh : ∀ r ∈ s.shared.issued, 0 ≤ r.ts ∧ r.ts < s.shared.worker.obj.tracker.length
  distinct : (s.shared.issued.map (·.ts)).Nodup
  allowed : Each (fun _ op => op.Allowed s.shared) s.threads
  inFlight : ∀ msg ∈ s.shared.inFlight, Sends s.shared msg.msgMeta.timestamp
  waiting : ∀ ts ∈ unsent s.shared, Sends s.shared ts
  ran : ∀ ts ∈ s.shared.ran, Skips s.shared ts
  untouched : ∀ ts, ts ∉ s.shared.issued.map (·.ts) →
    s.shared.worker.callbacks ts = none ∧ s.shared.worker.recvKvs ts = none
  phase : ∀ r ∈ s.shared.issued, r.callback = true → (∀ b ∈ r.slices, b = false) →
    s.shared.worker.recvKvs r.ts = none ∧ ∃ cb n i ops,
      Phase r.ts cb n (s.shared.worker.callbacks r.ts) (s.shared.ran.count r.ts) ops ∧
      Sole (fun op => op.timestamp = r.ts) s.threads i ops

variable {po : Postoffice} {s s' : WorkerSys} {sh sh' : WorkerShared} {op : Op} {more : List Op}

theorem CallbackInv.not_skips_of_sends (hs : CallbackInv s) {ts : Int} (h : Sends s.shared ts) :
    ¬ Skips s.shared ts := by
  rintro ⟨r, hr, hts, hall⟩
  obtain ⟨r', hr', hts', b, hb, rfl⟩ := h
  obtain rfl := List.inj_on_of_nodup_map hs.distinct hr hr' (hts.trans hts'.symm)
  exact absurd (hall true hb) (by decide)

/-! ### One operation -/

/-- What an operation leaves alone. -/
structure Touches (op : Op) (sh sh' : WorkerShared) (more : List Op) : Prop where
  issued_eq : sh'.issued = sh.issued
  length_eq : sh'.worker.obj.tracker.length = sh.worker.obj.tracker.length
  other : ∀ ts, ts ≠ op.timestamp → sh'.worker.callbacks ts = sh.worker.callbacks ts ∧
    sh'.worker.recvKvs ts = sh.worker.recvKvs ts ∧ sh'.ran.count ts = sh.ran.count ts
  timestamp : ∀ op' ∈ more, op'.timestamp = op.timestamp
  inFlight : ∀ msg ∈ sh'.inFlight, msg ∈ sh.inFlight ∨ op = .send msg
  ran : ∀ ts ∈ sh'.ran, ts ∈ sh.ran ∨ ∃ cb, op = .invoke ts cb

theorem count_ran_snoc {ran : List Int} {ts ts' : Int} (h : ts' ≠ ts) :
    (ran ++ [ts]).count ts' = ran.count ts' := by
  simp [h.symm]

theorem touches_exec (h : exec op sh = some (sh', more)) : Touches op sh sh' more := by
  cases op with
  | addResponse ts num =>
    obtain ⟨obj, hobj, h⟩ := Option.bind_eq_some_iff.mp h
    obtain ⟨rfl, rfl⟩ := Prod.mk.inj (Option.some.inj h)
    obtain ⟨-, -, hlen, -⟩ := Customer.addResponse_eq_some hobj
    exact ⟨rfl, hlen, fun _ _ => ⟨rfl, rfl, rfl⟩, by simp, fun _ => .inl, fun _ => .inl⟩
  | countResponse req =>
    obtain ⟨obj, hobj, h⟩ := Option.bind_eq_some_iff.mp h
    obtain ⟨rfl, rfl⟩ := Prod.mk.inj (Option.some.inj h)
    obtain ⟨-, -, hlen, -⟩ := Customer.addResponse_eq_some hobj
    exact ⟨rfl, hlen, fun _ _ => ⟨rfl, rfl, rfl⟩, by simp, fun _ => .inl, fun _ => .inl⟩
  | send msg =>
    obtain ⟨rfl, rfl⟩ := Prod.mk.inj (Option.some.inj h)
    refine ⟨rfl, rfl, fun _ _ => ⟨rfl, rfl, rfl⟩, by simp, fun msg' hmsg' => ?_, fun _ => .inl⟩
    exact (List.mem_append.mp hmsg').imp_right fun h => by rw [List.mem_singleton.mp h]
  | runCallback ts =>
    unfold exec at h
    dsimp only at h
    split at h
    all_goals
      obtain ⟨rfl, rfl⟩ := Prod.mk.inj (Option.some.inj h)
      exact ⟨rfl, rfl, fun _ _ => ⟨rfl, rfl, rfl⟩, by simp [Op.timestamp], fun _ => .inl, fun _ => .inl⟩
  | checkFinished ts =>
    obtain ⟨num, -, h⟩ := Option.bind_eq_some_iff.mp h
    obtain ⟨rfl, rfl⟩ := Prod.mk.inj (Option.some.inj h)
    refine ⟨rfl, rfl, fun _ _ => ⟨rfl, rfl, rfl⟩, ?_, fun _ => .inl, fun _ => .inl⟩
    split_ifs <;> simp [Op.timestamp]
  | invoke ts cb =>
    have hran : ∀ ts' ∈ sh.ran ++ [ts], ts' ∈ sh.ran ∨ ∃ cb', Op.invoke ts cb = .invoke ts' cb' := by
      intro ts' hts'
      exact (List.mem_append.mp hts').imp_right fun h => ⟨cb, by rw [List.mem_singleton.mp h]⟩
    cases cb with
    | user =>
      obtain ⟨rfl, rfl⟩ := Prod.mk.inj (Option.some.inj h)
      exact ⟨rfl, rfl, fun ts' hts' => ⟨rfl, rfl, count_ran_snoc hts'⟩, by simp, fun _ => .inl, hran⟩
    | eraseRecvKvs =>
      obtain ⟨rfl, rfl⟩ := Prod.mk.inj (Option.some.inj h)
      exact ⟨rfl, rfl, fun ts' hts' => ⟨rfl, Function.update_of_ne hts' .., count_ran_snoc hts'⟩,
        by simp, fun _ => .inl, hran⟩
    | completePull keys vals lens cb =>
      obtain ⟨pulled, -, h⟩ := Option.bind_eq_some_iff.mp h
      obtain ⟨rfl, rfl⟩ := Prod.mk.inj (Option.some.inj h)
      exact ⟨rfl, rfl, fun ts' hts' => ⟨rfl, Function.update_of_ne hts' .., count_ran_snoc hts'⟩,
        by simp, fun _ => .inl, hran⟩
  | storeKvs ts kvs =>
    obtain ⟨rfl, rfl⟩ := Prod.mk.inj (Option.some.inj h)
    exact ⟨rfl, rfl, fun ts' hts' => ⟨rfl, Function.update_of_ne hts' .., rfl⟩, by simp, fun _ => .inl,
      fun _ => .inl⟩
  | _ =>
    obtain ⟨rfl, rfl⟩ := Prod.mk.inj (Option.some.inj h)
    exact ⟨rfl, rfl, fun ts' hts' => ⟨Function.update_of_ne hts' .., rfl, rfl⟩, by simp, fun _ => .inl,
      fun _ => .inl⟩

/-- The operations that a pending operation calls are allowed. In particular the end of `Process`
calls nothing: the number of responses expected is the number of servers. -/
theorem Op.Allowed.of_exec (hs : Counted po s) (h : exec op s.shared = some (sh', more))
    (hop : op.Allowed s.shared) : ∀ op' ∈ more, op'.Allowed s.shared := by
  cases op with
  | runCallback ts =>
    unfold exec at h
    dsimp only at h
    split at h
    · obtain ⟨-, rfl⟩ := Prod.mk.inj (Option.some.inj h)
      simp
    · obtain ⟨-, rfl⟩ := Prod.mk.inj (Option.some.inj h)
      intro op' hop'
      rcases List.mem_pair.mp hop' with rfl | rfl
      · exact ⟨hop.1, hop.2⟩
      · exact ⟨hop.1, trivial⟩
  | checkFinished ts =>
    obtain ⟨num, hnum, h⟩ := Option.bind_eq_some_iff.mp h
    obtain ⟨-, rfl⟩ := Prod.mk.inj (Option.some.inj h)
    obtain ⟨t, ht, rfl⟩ := Option.map_eq_some_iff.mp hnum
    have hcount := hs.count_eq ts t ht
    rw [if_neg (by rw [hcount, hs.po_eq]; omega)]
    simp
  | invoke ts cb =>
    cases cb with
    | completePull keys vals lens cb =>
      obtain ⟨pulled, -, h⟩ := Option.bind_eq_some_iff.mp h
      obtain ⟨-, rfl⟩ := Prod.mk.inj (Option.some.inj h)
      simp
    | _ =>
      obtain ⟨-, rfl⟩ := Prod.mk.inj (Option.some.inj h)
      simp
  | addResponse ts num =>
    obtain ⟨obj, -, h⟩ := Option.bind_eq_some_iff.mp h
    obtain ⟨-, rfl⟩ := Prod.mk.inj (Option.some.inj h)
    simp
  | countResponse req =>
    obtain ⟨obj, -, h⟩ := Option.bind_eq_some_iff.mp h
    obtain ⟨-, rfl⟩ := Prod.mk.inj (Option.some.inj h)
    simp
  | _ =>
    obtain ⟨-, rfl⟩ := Prod.mk.inj (Option.some.inj h)
    simp

theorem Phase.tick {ts : Int} {cb : Callback} {n : Nat} {ops : List Op}
    (h : Phase ts cb n (sh.worker.callbacks ts) (sh.ran.count ts) (op :: ops))
    (hkvs : sh.worker.recvKvs ts = none) (hexec : exec op sh = some (sh', more)) :
    Phase ts cb n (sh'.worker.callbacks ts) (sh'.ran.count ts)
        ((more.filter fun op => op.timestamp = ts) ++ ops) ∧ sh'.worker.recvKvs ts = none := by
  generalize hc : sh.worker.callbacks ts = c, hr : sh.ran.count ts = k at h
  cases h with
  | issued =>
    obtain ⟨rfl, rfl⟩ := Prod.mk.inj (Option.some.inj hexec)
    simp only [Function.update_self, hr]
    exact ⟨.registered, hkvs⟩
  | registered =>
    obtain ⟨obj, -, hexec⟩ := Option.bind_eq_some_iff.mp hexec
    obtain ⟨rfl, rfl⟩ := Prod.mk.inj (Option.some.inj hexec)
    simp only [hc, hr]
    exact ⟨.counted, hkvs⟩
  | counted =>
    simp only [exec, hc] at hexec
    obtain ⟨rfl, rfl⟩ := Prod.mk.inj (Option.some.inj hexec)
    simp only [hc, hr, Op.timestamp, decide_true, List.filter_cons_of_pos, List.filter_nil]
    exact ⟨.found, hkvs⟩
  | found =>
    have hcount : (sh.ran ++ [ts]).count ts = 1 := by simp [hr]
    cases cb with
    | user =>
      obtain ⟨rfl, rfl⟩ := Prod.mk.inj (Option.some.inj hexec)
      simp only [hc, hcount]
      exact ⟨.ran, hkvs⟩
    | eraseRecvKvs =>
      obtain ⟨rfl, rfl⟩ := Prod.mk.inj (Option.some.inj hexec)
      simp only [hc, hcount]
      exact ⟨.ran, Function.update_self ..⟩
    | completePull keys vals lens cb =>
      obtain ⟨pulled, -, hexec⟩ := Option.bind_eq_some_iff.mp hexec
      obtain ⟨rfl, rfl⟩ := Prod.mk.inj (Option.some.inj hexec)
      simp only [hc, hcount]
      exact ⟨.ran, Function.update_self ..⟩
  | ran =>
    obtain ⟨rfl, rfl⟩ := Prod.mk.inj (Option.some.inj hexec)
    simp only [Function.update_self, hr]
    exact ⟨.done, hkvs⟩

theorem CallbackInv.tick (hs : CallbackInv s) (hcount : Counted po s) {i : Nat}
    (h : Threads.tick exec s i = some s') : CallbackInv s' := by
  obtain ⟨op, ops, more, hi, hexec, hthreads⟩ := tick_eq_some h
  have ht := touches_exec hexec
  have hp := passes_exec hexec
  have hop : op.Allowed s.shared := hs.allowed i _ hi op List.mem_cons_self
  have hsub : s.shared.issued ⊆ s'.shared.issued := by rw [ht.issued_eq]; exact fun _ => id
  refine ⟨?_, ht.issued_eq ▸ hs.distinct, ?_, fun msg hmsg => ?_, ?_, fun ts hts => ?_,
    fun ts hts => ?_, fun r hr hcb hall => ?_⟩
  · rw [ht.issued_eq, ht.length_eq]
    exact hs.fresh
  · rw [hthreads]
    refine Each.mono (hs.allowed.tick hi (hop.of_exec hcount hexec)) fun _ _ h => h.mono hsub
  · rcases ht.inFlight msg hmsg with hmsg | rfl
    · exact (hs.inFlight msg hmsg).mono hsub
    · exact Sends.mono hsub hop.2
  · simp only [unsent, hp.calls_eq, hp.queue_eq]
    exact fun ts hts => (hs.waiting ts hts).mono hsub
  · rcases ht.ran ts hts with hts | ⟨cb, rfl⟩
    · exact (hs.ran ts hts).mono hsub
    · exact Skips.mono hsub hop.2
  · rw [ht.issued_eq] at hts
    have hne : ts ≠ op.timestamp := fun heq => hts (heq ▸ hop.1)
    obtain ⟨hc, hk, -⟩ := ht.other ts hne
    rw [hc, hk]
    exact hs.untouched ts hts
  · rw [ht.issued_eq] at hr
    obtain ⟨hkvs, cb, n, j, rem, hphase, hsole⟩ := hs.phase r hr hcb hall
    rw [hthreads]
    by_cases hts : r.ts = op.timestamp
    · obtain ⟨rem, rfl, hsole'⟩ := hsole.tick_self hi (by simp [hts])
      obtain ⟨hphase', hkvs'⟩ := hphase.tick hkvs hexec
      exact ⟨hkvs', cb, n, j, _, hphase', hsole' more⟩
    · obtain ⟨hc, hk, hran⟩ := ht.other r.ts hts
      rw [hc, hk, hran]
      refine ⟨hkvs, cb, n, j, rem, hphase, hsole.tick_other hi (by simp [Ne.symm hts]) ?_⟩
      intro op' hop'
      simp [ht.timestamp op' hop', Ne.symm hts]

/-! ### The other steps -/

theorem CallbackInv.issue (hs : CallbackInv s) {r : Issued}
    (hr : r.ts = s.shared.worker.obj.tracker.length)
    (hissued : s'.shared.issued = s.shared.issued ++ [r])
    (hlen : s'.shared.worker.obj.tracker.length = s.shared.worker.obj.tracker.length + 1)
    (hcallbacks : s'.shared.worker.callbacks = s.shared.worker.callbacks)
    (hkvs : s'.shared.worker.recvKvs = s.shared.worker.recvKvs)
    (hran : s'.shared.ran = s.shared.ran) (hflight : s'.shared.inFlight = s.shared.inFlight)
    (hwaiting : ∀ ts ∈ unsent s'.shared, ts ∈ unsent s.shared ∨ Sends s'.shared ts)
    (hallowed : Each (fun _ op => op.Allowed s'.shared) s'.threads)
    (hsole : ∀ ts i ops, ts ≠ r.ts → Sole (fun op => op.timestamp = ts) s.threads i ops →
      Sole (fun op => op.timestamp = ts) s'.threads i ops)
    (hphase : r.callback = true → (∀ b ∈ r.slices, b = false) → ∃ cb n i,
      Sole (fun op => op.timestamp = r.ts) s'.threads i
        [.addCallback r.ts cb, .addResponse r.ts n, .runCallback r.ts]) :
    CallbackInv s' := by
  have hsub : s.shared.issued ⊆ s'.shared.issued := by rw [hissued]; exact List.subset_append_left ..
  have hfresh : r.ts ∉ s.shared.issued.map (·.ts) := by
    intro hmem
    obtain ⟨r', hr', hts⟩ := List.mem_map.mp hmem
    have := (hs.fresh r' hr').2
    omega
  refine ⟨fun r' hr' => ?_, ?_, hallowed, fun msg hmsg => ?_, fun ts hts => ?_, fun ts hts => ?_,
    fun ts hts => ?_, fun r' hr' hcb hall => ?_⟩
  · rw [hissued] at hr'
    rcases List.mem_append.mp hr' with hr' | hr'
    · have := hs.fresh r' hr'
      omega
    · obtain rfl := List.mem_singleton.mp hr'
      omega
  · rw [hissued, List.map_append, List.nodup_append]
    refine ⟨hs.distinct, by simp, fun ts hts ts' hts' heq => ?_⟩
    obtain rfl : ts' = r.ts := by simpa using hts'
    exact hfresh (heq ▸ hts)
  · rw [hflight] at hmsg
    exact (hs.inFlight msg hmsg).mono hsub
  · exact (hwaiting ts hts).elim (fun h => (hs.waiting ts h).mono hsub) id
  · rw [hran] at hts
    exact (hs.ran ts hts).mono hsub
  · rw [hcallbacks, hkvs]
    exact hs.untouched ts fun hmem => hts (List.map_subset _ hsub hmem)
  · rw [hcallbacks, hkvs, hran]
    rw [hissued] at hr'
    rcases List.mem_append.mp hr' with hr' | hr'
    · obtain ⟨hk, cb, n, i, ops, hphase, hops⟩ := hs.phase r' hr' hcb hall
      have hne : r'.ts ≠ r.ts := fun heq => hfresh (heq ▸ List.mem_map_of_mem hr')
      exact ⟨hk, cb, n, i, ops, hphase, hsole _ _ _ hne hops⟩
    · obtain rfl := List.mem_singleton.mp hr'
      obtain ⟨cb, n, i, hops⟩ := hphase hcb hall
      obtain ⟨hc, hk⟩ := hs.untouched r'.ts hfresh
      have hzero : s.shared.ran.count r'.ts = 0 := by
        rw [List.count_eq_zero]
        intro hmem
        obtain ⟨r'', hr'', hts, -⟩ := hs.ran r'.ts hmem
        exact hfresh (hts ▸ List.mem_map_of_mem hr'')
      rw [hc, hzero]
      exact ⟨hk, cb, n, i, _, .issued, hops⟩

theorem CallbackInv.hand (hs : CallbackInv s) (hissued : s'.shared.issued = s.shared.issued)
    (hworker : s'.shared.worker = s.shared.worker) (hran : s'.shared.ran = s.shared.ran)
    (hflight : s'.shared.inFlight ⊆ s.shared.inFlight)
    (hwaiting : unsent s'.shared ⊆ unsent s.shared)
    (hallowed : Each (fun _ op => op.Allowed s.shared) s'.threads)
    (hsole : ∀ ts i ops, Skips s.shared ts → Sole (fun op => op.timestamp = ts) s.threads i ops →
      Sole (fun op => op.timestamp = ts) s'.threads i ops) : CallbackInv s' := by
  have hsub : s.shared.issued ⊆ s'.shared.issued := by rw [hissued]; exact fun _ => id
  refine ⟨?_, hissued ▸ hs.distinct, hallowed.mono fun _ _ h => h.mono hsub,
    fun msg hmsg => (hs.inFlight msg (hflight hmsg)).mono hsub,
    fun ts hts => (hs.waiting ts (hwaiting hts)).mono hsub, ?_, ?_, ?_⟩
  · rw [hissued, hworker]
    exact hs.fresh
  · rw [hran]
    exact fun ts hts => (hs.ran ts hts).mono hsub
  · rw [hissued, hworker]
    exact hs.untouched
  · rw [hissued, hworker, hran]
    intro r hr hcb hall
    obtain ⟨hk, cb, n, i, ops, hphase, hops⟩ := hs.phase r hr hcb hall
    exact ⟨hk, cb, n, i, ops, hphase, hsole _ _ _ ⟨r, hr, rfl, hall⟩ hops⟩

theorem mem_sendOps {w : KVWorker} {ts : Int} {push : Bool} {cmd : Int} {sliced : SlicedKVs}
    (h : op ∈ w.sendOps ts push cmd sliced) :
    (∃ n, op = .addResponse ts n) ∨ (op = .runCallback ts ∧ ∀ s ∈ sliced, s.1 = false) ∨
      (∃ i kvs, op = .send (w.sendMsgOf ts push cmd i kvs)) ∧ ∃ s ∈ sliced, s.1 = true := by
  simp only [sendOps, List.mem_append, List.mem_map, List.mem_filter] at h
  rcases h with (h | h) | ⟨⟨⟨b, kvs⟩, i⟩, ⟨hmem, hb⟩, rfl⟩
  · exact .inl ⟨_, List.mem_singleton.mp h⟩
  · split_ifs at h with hall
    · refine .inr (.inl ⟨List.mem_singleton.mp h, fun s hs => ?_⟩)
      simpa using List.countP_eq_length.mp hall s hs
    · simp at h
  · refine .inr (.inr ⟨⟨i, kvs, rfl⟩, (b, kvs), ?_, hb⟩)
    exact List.fst_mem_of_mem_zipIdx hmem

theorem sendOps_of_all_skipped (w : KVWorker) (ts : Int) (push : Bool) (cmd : Int)
    {sliced : SlicedKVs} (h : ∀ s ∈ sliced, s.1 = false) :
    w.sendOps ts push cmd sliced = [.addResponse ts sliced.length, .runCallback ts] := by
  have hcount : (sliced.countP fun s => !s.1) = sliced.length :=
    List.countP_eq_length.mpr fun s hs => by simp [h s hs]
  have hnil : (sliced.zipIdx.filter fun s => s.1.1) = [] :=
    List.filter_eq_nil_iff.mpr fun s hs => by simp [h s.1 (List.fst_mem_of_mem_zipIdx hs)]
  simp [sendOps, hcount, hnil]

section request
variable {w : KVWorker} {ts : Int} {push : Bool} {cmd : Int} {sliced : SlicedKVs}
  {cb : Option Callback}

theorem timestamp_of_mem_request
    (hop : op ∈ (cb.map (Op.addCallback ts)).toList ++ w.sendOps ts push cmd sliced) :
    op.timestamp = ts := by
  rcases List.mem_append.mp hop with hop | hop
  · obtain ⟨cb', -, rfl⟩ : ∃ cb', cb = some cb' ∧ Op.addCallback ts cb' = op := by simpa using hop
    rfl
  · rcases mem_sendOps hop with ⟨n, rfl⟩ | ⟨rfl, -⟩ | ⟨⟨i, kvs, rfl⟩, -⟩
    · rfl
    · rfl
    · exact timestamp_sendMsgOf ..

theorem allowed_of_mem_request (hmem : ⟨ts, cb.isSome, sliced.map (·.1)⟩ ∈ sh.issued)
    (hop : op ∈ (cb.map (Op.addCallback ts)).toList ++ w.sendOps ts push cmd sliced) :
    op.Allowed sh := by
  refine ⟨timestamp_of_mem_request hop ▸ List.mem_map.mpr ⟨_, hmem, rfl⟩, ?_⟩
  rcases List.mem_append.mp hop with hop | hop
  · obtain ⟨cb', -, rfl⟩ : ∃ cb', cb = some cb' ∧ Op.addCallback ts cb' = op := by simpa using hop
    trivial
  · rcases mem_sendOps hop with ⟨n, rfl⟩ | ⟨rfl, hall⟩ | ⟨⟨i, kvs, rfl⟩, b, hb, hflag⟩
    · trivial
    · exact ⟨_, hmem, rfl, by simpa using hall⟩
    · exact ⟨_, hmem, (timestamp_sendMsgOf ..).symm, b.1, List.mem_map_of_mem hb, hflag⟩

end request

theorem CallbackInv.each_ne_fresh (hs : CallbackInv s) :
    Each (fun _ op => decide (op.timestamp = (s.shared.worker.obj.tracker.length : Int)) = false)
      s.threads := by
  refine hs.allowed.mono fun _ op hop => ?_
  obtain ⟨r, hr, hts⟩ := List.mem_map.mp hop.1
  have := (hs.fresh r hr).2
  exact decide_eq_false (by omega)

theorem CallbackInv.request (hs : CallbackInv s) {push : Bool} {kvs : KVPairs} {cmd : Int}
    {cb : Option Callback} (h : request s push kvs cmd cb = some s') : CallbackInv s' := by
  obtain ⟨sliced, -, h⟩ := Option.bind_eq_some_iff.mp h
  obtain ⟨⟨_, _⟩, hnew, h⟩ := Option.bind_eq_some_iff.mp h
  obtain ⟨rfl, rfl⟩ := newRequest_eq_some hnew
  obtain rfl := Option.some.inj h
  refine hs.issue rfl rfl (by simp [Sys.spawn, Customer.addRequest]) rfl rfl rfl rfl (fun _ => .inl) ?_ ?_ ?_
  · refine Each.spawn (hs.allowed.mono fun _ _ h => h.mono (List.subset_append_left ..)) ?_
    exact fun op hop =>
      allowed_of_mem_request (List.mem_append_right _ (List.mem_singleton.mpr rfl)) hop
  · intro ts i ops hne hsole
    refine hsole.spawn_other fun op hop => ?_
    rw [timestamp_of_mem_request hop]
    exact decide_eq_false hne.symm
  · intro hcb hall
    obtain ⟨cb, rfl⟩ := Option.isSome_iff_exists.mp hcb
    refine ⟨cb, sliced.length, s.threads.length, ?_⟩
    have hfilter : (((some cb).map (Op.addCallback s.shared.worker.obj.tracker.length)).toList ++
        s.shared.worker.sendOps s.shared.worker.obj.tracker.length push cmd sliced).filter
          (fun op => op.timestamp = (s.shared.worker.obj.tracker.length : Int)) =
        [.addCallback s.shared.worker.obj.tracker.length cb,
          .addResponse s.shared.worker.obj.tracker.length sliced.length,
          .runCallback s.shared.worker.obj.tracker.length] := by
      rw [List.filter_eq_self.mpr fun op hop => by simp [timestamp_of_mem_request hop],
        sendOps_of_all_skipped _ _ _ _ (by simpa using hall)]
      rfl
    exact hfilter ▸ Sole.spawn_new hs.each_ne_fresh

theorem CallbackInv.allocateCall (hs : CallbackInv s) (hS : 0 < s.shared.worker.po.numServers)
    {req req' : AFTensorRequest} (hreq : req ∈ s.shared.calls) (i : Nat) {callback : Bool} {ts' : Int}
    {sh : WorkerShared} (hnew : newRequest s.shared callback
      (List.replicate s.shared.worker.po.numServers true) = some (ts', sh))
    (hreq' : ∀ ts ∈ req'.pushTimestamps ++ req'.pullTimestamps,
      ts ∈ req.pushTimestamps ++ req.pullTimestamps ∨ ts = s.shared.worker.obj.tracker.length) :
    CallbackInv { s with shared := { sh with calls := sh.calls.set i req' } } := by
  obtain ⟨rfl, rfl⟩ := newRequest_eq_some hnew
  have htrue : true ∈ List.replicate s.shared.worker.po.numServers true :=
    List.mem_replicate.mpr ⟨by omega, rfl⟩
  refine hs.issue rfl rfl (by simp [Customer.addRequest]) rfl rfl rfl rfl (fun ts hts => ?_)
    (hs.allowed.mono fun _ _ h => h.mono (List.subset_append_left ..)) (fun _ _ _ _ => id) ?_
  · obtain ⟨req'', hmem, hts'⟩ := List.mem_flatMap.mp hts
    have hold : ∀ req ∈ s.shared.calls ++ s.shared.pushpullQueue,
        ts ∈ req.pushTimestamps ++ req.pullTimestamps → ts ∈ unsent s.shared :=
      fun req hreq hts => List.mem_flatMap.mpr ⟨req, hreq, hts⟩
    rcases List.mem_append.mp hmem with hmem | hmem
    · rcases List.mem_or_eq_of_mem_set hmem with hmem | rfl
      · exact .inl (hold req'' (List.mem_append_left _ hmem) hts')
      · rcases hreq' ts hts' with hts' | rfl
        · exact .inl (hold req (List.mem_append_left _ hreq) hts')
        · exact .inr ⟨_, List.mem_append_right _ (List.mem_singleton.mpr rfl), rfl, true, htrue, rfl⟩
    · exact .inl (hold req'' (List.mem_append_right _ hmem) hts')
  · intro _ hall
    exact absurd (hall true htrue) (by decide)

theorem CallbackInv.allocTimestamp (hs : CallbackInv s) (hcount : Counted po s) {i : Nat}
    {shared : WorkerShared} (h : allocTimestamp s.shared i = some shared) :
    CallbackInv { s with shared } := by
  obtain ⟨req, hreq, h⟩ := Option.bind_eq_some_iff.mp h
  have hmem := List.mem_of_getElem? hreq
  have hS : 0 < s.shared.worker.po.numServers := by
    rw [hcount.po_eq]
    exact hcount.servers (.inl (List.ne_nil_of_mem hmem))
  dsimp only at h
  split_ifs at h with hlt
  · obtain ⟨⟨ts', sh⟩, hnew, h⟩ := Option.bind_eq_some_iff.mp h
    obtain rfl := Option.some.inj h
    refine hs.allocateCall hS hmem i hnew fun ts hts => ?_
    simp only [(newRequest_eq_some hnew).1, List.mem_append, List.mem_singleton] at hts ⊢
    tauto
  · obtain ⟨-, -, h⟩ := Option.bind_eq_some_iff.mp h
    obtain ⟨⟨ts', sh⟩, hnew, h⟩ := Option.bind_eq_some_iff.mp h
    obtain rfl := Option.some.inj h
    refine hs.allocateCall hS hmem i hnew fun ts hts => ?_
    simp only [(newRequest_eq_some hnew).1, List.mem_append, List.mem_singleton] at hts ⊢
    tauto

theorem Sends.mem_issued {ts : Int} (h : Sends sh ts) : ts ∈ sh.issued.map (·.ts) := by
  obtain ⟨r, hr, hts, -⟩ := h
  exact hts ▸ List.mem_map_of_mem hr

/-- A request that sends something is not one that skips everything. -/
theorem CallbackInv.ne_of_sends (hs : CallbackInv s) {ts ts' : Int} (h : Sends s.shared ts)
    (h' : Skips s.shared ts') : decide (ts = ts') = false :=
  decide_eq_false fun heq => hs.not_skips_of_sends h (heq ▸ h')

theorem CallbackInv.popRequest (hs : CallbackInv s) (hcount : Counted po s)
    (h : KVWorker.step s .popRequest = some s') : CallbackInv s' := by
  simp only [KVWorker.step, Option.bind_eq_bind, Option.bind_eq_some_iff] at h
  obtain ⟨_, hidle, req, hreq, sent, hsent, h⟩ := h
  obtain rfl := Option.some.inj h
  have hidle : s.threads[0]? = some [] := by simpa using hidle
  have hmem : req ∈ s.shared.pushpullQueue := List.mem_of_head? hreq
  have htss := AFWorker.timestamps_zBatchPushPull_ _ (hcount.po_eq ▸ hcount.queued req hmem) hsent
  have hsends : ∀ p ∈ sent, Sends s.shared p.2.msgMeta.timestamp := by
    intro p hp
    have hp' : p.2.msgMeta.timestamp ∈ sent.map (·.2.msgMeta.timestamp) := List.mem_map_of_mem hp
    rw [htss] at hp'
    obtain ⟨ts, hts, hp'⟩ := List.mem_flatMap.mp hp'
    rw [List.eq_of_mem_replicate hp']
    exact hs.waiting ts (List.mem_flatMap.mpr ⟨req, List.mem_append_right _ hmem, hts⟩)
  have hops : ∀ op ∈ afOps sent, Sends s.shared op.timestamp ∧ op.Allowed s.shared := by
    intro op hop
    obtain ⟨p, hp, hop⟩ := List.mem_flatMap.mp hop
    have hp := hsends p hp
    split_ifs at hop
    · obtain rfl := List.mem_singleton.mp hop
      exact ⟨hp, hp.mem_issued, hp⟩
    · rcases List.mem_pair.mp hop with rfl | rfl
      · exact ⟨hp, hp.mem_issued, hp⟩
      · exact ⟨hp, hp.mem_issued, trivial⟩
  refine hs.hand rfl rfl rfl (fun _ => id) (fun ts hts => ?_) (hs.allowed.set fun op hop => (hops op hop).2)
    fun ts i ops hskips hsole => hsole.set hidle ?_
  · obtain ⟨req', hreq', hts⟩ := List.mem_flatMap.mp hts
    refine List.mem_flatMap.mpr ⟨req', List.mem_append.mpr ?_, hts⟩
    exact (List.mem_append.mp hreq').imp_right List.mem_of_mem_tail
  · rw [List.filter_nil, List.filter_eq_nil_iff]
    intro op hop
    simpa using hs.ne_of_sends (hops op hop).1 hskips

theorem mem_directProcess {req msg : Message} {ops : List Op} (h : directProcess req msg = some ops)
    (hop : op ∈ ops) : op = .countResponse req ∨ op = .checkFinished msg.msgMeta.timestamp ∨
      ∃ kvs, op = .storeKvs msg.msgMeta.timestamp kvs := by
  unfold directProcess at h
  dsimp only at h
  split_ifs at h
  · obtain rfl := Option.some.inj h
    exact .inl (List.mem_singleton.mp hop)
  · obtain rfl := Option.some.inj h
    rcases List.mem_pair.mp hop with rfl | rfl
    · exact .inr (.inl rfl)
    · exact .inl rfl
  · obtain ⟨-, -, h⟩ := Option.bind_eq_some_iff.mp h
    obtain rfl := Option.some.inj h
    rcases List.mem_cons.mp hop with rfl | hop
    · exact .inr (.inr ⟨_, rfl⟩)
    · rcases List.mem_pair.mp hop with rfl | rfl
      · exact .inr (.inl rfl)
      · exact .inl rfl

theorem CallbackInv.answer (hs : CallbackInv s) {k : Nat} {msg : Message}
    (h : KVWorker.step s (.answer k msg) = some s') : CallbackInv s' := by
  simp only [KVWorker.step, Option.bind_eq_bind, Option.bind_eq_some_iff] at h
  obtain ⟨req, hreq, _, hts, ops, hops, h⟩ := h
  obtain rfl := Option.some.inj h
  have hts : msg.msgMeta.timestamp = req.msgMeta.timestamp ∧ msg.msgMeta.push = req.msgMeta.push := by
    simpa using hts
  have hsends := hs.inFlight req (List.mem_of_getElem? hreq)
  have hnew : ∀ op ∈ ops, op.timestamp = req.msgMeta.timestamp ∧ op.Allowed s.shared := by
    intro op hop
    have hids := hsends.mem_issued
    rcases mem_directProcess hops hop with rfl | rfl | ⟨kvs, rfl⟩
    · exact ⟨rfl, hids, trivial⟩
    · exact ⟨hts.1, hts.1 ▸ hids, trivial⟩
    · exact ⟨hts.1, hts.1 ▸ hids, trivial⟩
  refine hs.hand rfl rfl rfl (fun _ => List.mem_of_mem_eraseIdx) (fun _ => id)
    (hs.allowed.spawn fun op hop => (hnew op hop).2) fun ts i ops' hskips hsole => ?_
  refine hsole.spawn_other fun op hop => ?_
  rw [(hnew op hop).1]
  exact hs.ne_of_sends hsends hskips

theorem CallbackInv.step (hs : CallbackInv s) (hcount : Counted po s) {a : Action}
    (h : step s a = some s') : CallbackInv s' := by
  cases a with
  | zPush keys vals lens cmd cb => exact hs.request h
  | pull keys vals lens cmd cb => exact hs.request h
  | zBatchPushPull push pull =>
    obtain ⟨-, -, h⟩ := Option.bind_eq_some_iff.mp h
    obtain rfl := Option.some.inj h
    exact hs.hand rfl rfl rfl (fun _ => id) (by simp [unsent]) hs.allowed fun _ _ _ _ => id
  | allocTimestamp i =>
    obtain ⟨shared, hsh, rfl⟩ := Option.map_eq_some_iff.mp h
    exact hs.allocTimestamp hcount hsh
  | queueRequest i =>
    obtain ⟨shared, hsh, rfl⟩ := Option.map_eq_some_iff.mp h
    obtain ⟨req, hreq, hsh⟩ := Option.bind_eq_some_iff.mp hsh
    obtain ⟨-, -, hsh⟩ := Option.bind_eq_some_iff.mp hsh
    obtain rfl := Option.some.inj hsh
    refine hs.hand rfl rfl rfl (fun _ => id) (fun ts hts => ?_) hs.allowed fun _ _ _ _ => id
    obtain ⟨req', hreq', hts⟩ := List.mem_flatMap.mp hts
    refine List.mem_flatMap.mpr ⟨req', List.mem_append.mpr ?_, hts⟩
    rcases List.mem_append.mp hreq' with hreq' | hreq'
    · exact .inl (List.mem_of_mem_eraseIdx hreq')
    · rcases List.mem_append.mp hreq' with hreq' | hreq'
      · exact .inr hreq'
      · exact .inl (List.mem_singleton.mp hreq' ▸ List.mem_of_getElem? hreq)
  | popRequest => exact hs.popRequest hcount h
  | answer k msg => exact hs.answer h
  | tick i => exact hs.tick hcount h

/-! ### Every run -/

theorem callbackInv_exec {slicer : Slicer}
    {isWorkerZpull : Bool} {appId customerId : Int} {as : List Action}
    (h : Run.exec KVWorker.step (init po slicer isWorkerZpull appId customerId) as = some s) :
    CallbackInv s := by
  refine (Run.exec_invariant_of_inputs (fun as s => Run.exec KVWorker.step (init po slicer isWorkerZpull appId
    customerId) as = some s ∧ CallbackInv s) ⟨rfl, ?_⟩ ?_ h).2
  · refine ⟨by simp [init], by simp [init], fun i ops hi op hop => ?_, by simp [init],
      by simp [init, unsent], by simp [init], fun _ _ => ⟨rfl, rfl⟩, by simp [init]⟩
    have hnil : ops ∈ [[]] := List.mem_of_getElem? hi
    rw [List.mem_singleton.mp hnil] at hop
    cases hop
  · rintro as a t t' ⟨hexec, ht⟩ hstep
    exact ⟨Run.exec_snoc_eq_some.mpr ⟨t, hexec, hstep⟩, ht.step (counted_exec hexec) hstep⟩

/-- Nothing is left to do for `ts`: its call has returned and every response has been processed. -/
def Settled (s : WorkerSys) (ts : Int) : Prop :=
  (∀ ops ∈ s.threads, ∀ op ∈ ops, op.timestamp ≠ ts) ∧
    (∀ msg ∈ s.shared.inFlight, msg.msgMeta.timestamp ≠ ts) ∧ ts ∉ unsent s.shared

instance (s : WorkerSys) (ts : Int) : Decidable (Settled s ts) :=
  inferInstanceAs (Decidable (_ ∧ _ ∧ _))

theorem owes_of_ne {ts : Int} (h : op.timestamp ≠ ts) : op.owes ts = 0 := by
  cases op <;> simp_all [Op.owes, Op.issues, Op.timestamp]

theorem Settled.owed_eq_zero {ts : Int} (h : Settled s ts) : owed s ts = 0 := by
  obtain ⟨hops, hflight, hunsent⟩ := h
  have hload : load (Op.owes ts) s.threads = 0 :=
    load_eq_zero_iff.mpr fun ops hmem op hop => owes_of_ne (hops ops hmem op hop)
  have hcount : s.shared.inFlight.countP (fun msg => msg.msgMeta.timestamp = ts) = 0 :=
    List.countP_eq_zero.mpr fun msg hmsg => by simpa using hflight msg hmsg
  rw [owed, hload, hcount, List.count_eq_zero.mpr hunsent, Nat.mul_zero]

/-- When nothing is left to do for a request with a callback, `WaitRequest` returns. The callback has
run exactly once and left no entry in `callbacks_` and `recv_kvs_` if and only if every slice of the
request was skipped. -/
theorem callback_runs_once_iff_all_skipped (po : Postoffice)
    (slicer : Slicer) (isWorkerZpull : Bool) (appId customerId : Int) (as : List Action)
    (s : WorkerSys)
    (h : Run.exec KVWorker.step (init po slicer isWorkerZpull appId customerId) as = some s)
    (r : Issued) (hr : r ∈ s.shared.issued) (hcb : r.callback = true) (hdone : Settled s r.ts) :
    s.shared.worker.obj.waitReturns r.ts = true ∧
      ((s.shared.ran.count r.ts = 1 ∧ s.shared.worker.callbacks r.ts = none ∧
          s.shared.worker.recvKvs r.ts = none) ↔ ∀ b ∈ r.slices, b = false) := by
  have hcount := counted_exec h
  have hinv := callbackInv_exec h
  refine ⟨?_, fun ⟨hran, _⟩ b hb => ?_, fun hall => ?_⟩
  · obtain ⟨h₀, hlt⟩ := hinv.fresh r hr
    have hb := hcount.balance r.ts
    rw [hdone.owed_eq_zero] at hb
    have hget : s.shared.worker.obj.tracker[r.ts.toNat]? =
        some (s.shared.worker.obj.tracker[r.ts.toNat]) := List.getElem?_eq_getElem (by omega)
    have hget := Customer.getTracker_eq_some.mpr ⟨h₀, hget⟩
    simp only [responded, expected, hget, Option.map_some, Option.getD_some] at hb
    simp only [Customer.waitReturns, hget, Option.any_some, decide_eq_true_eq]
    omega
  · -- a request that sends something never runs its callback
    by_contra hne
    have hmem : r.ts ∈ s.shared.ran := List.count_pos_iff.mp (by omega)
    exact hinv.not_skips_of_sends ⟨r, hr, rfl, b, hb, by simpa using hne⟩ (hinv.ran r.ts hmem)
  · obtain ⟨hkvs, cb, n, i, ops, hphase, hlt, hsole⟩ := hinv.phase r hr hcb hall
    have hnil : ops = [] := by
      have hops := hsole i _ (List.getElem?_eq_getElem hlt)
      rw [if_pos rfl] at hops
      rw [← hops, List.filter_eq_nil_iff]
      intro op hop
      simpa using hdone.1 _ (List.getElem_mem hlt) op hop
    subst hnil
    generalize s.shared.worker.callbacks r.ts = c, s.shared.ran.count r.ts = k at hphase ⊢
    cases hphase
    exact ⟨rfl, rfl, hkvs⟩

/-- A push of no keys. -/
def sampleEmptyPush : List Action :=
  [.zPush [] {} [] 0 true, .tick 1, .tick 1, .tick 1, .tick 1, .tick 1]

theorem callback_runs_once_iff_all_skipped_push :
    ∃ s, Run.exec KVWorker.step (init { numWorkers := 1, numServers := 1 } defaultSlicer true 0 0)
        sampleEmptyPush = some s ∧
      s.shared.ran.count 0 = 1 ∧ s.shared.worker.callbacks 0 = none := by
  refine ⟨_, rfl, ?_⟩
  have h := callback_runs_once_iff_all_skipped { numWorkers := 1, numServers := 1 }
    defaultSlicer true 0 0 sampleEmptyPush _ rfl ⟨0, true, [false]⟩ (by decide) rfl (by decide)
  exact ⟨(h.2.mpr (by decide)).1, (h.2.mpr (by decide)).2.1⟩

/-- A pull of one key from one server: the response is stored and counted, `WaitRequest` returns, but
the callback has not run, and its entry and the stored response stay. -/
theorem pull_callback_never_runs :
    ∃ s, Run.exec KVWorker.step (init { numWorkers := 1, numServers := 1 } defaultSlicer true 0 0)
        [.pull [1] { ptr := 64, size := 4 } none 0 true, .tick 1, .tick 1, .tick 1,
          .answer 0 { msgMeta := { timestamp := 0 }, data := [{ size := 8 }, { size := 4 }], keys := [1] },
          .tick 2, .tick 2, .tick 2] = some s ∧
      Settled s 0 ∧ s.shared.worker.obj.waitReturns 0 = true ∧ s.shared.ran = [] ∧
      s.shared.worker.callbacks 0 = some (.completePull [1] 4 none true) ∧
      s.shared.worker.recvKvs 0 = some [{ keys := [1], vals := { size := 4 } }] :=
  ⟨_, rfl, by decide, by decide, rfl, rfl, rfl⟩

end StepMesh.KVWorker
