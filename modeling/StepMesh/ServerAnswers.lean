import StepMesh.AFServerReorder
import StepMesh.FServerRespond

/-!
# Every request is answered once

A run of the server mixes arriving requests, calls of `respond` and rounds of `ResponseWorker` in any
order. `Accounted` keeps the books: what has been sent or queued is, up to order, the
acknowledgements of the batched pushes that have arrived and the answers the application has given. A run has
fewer than `2 ^ 64` batches, so that every one has a handler number of its own.
-/

namespace StepMesh.FServer

open AFServer

variable {ι : Type*} {B : ι → Batch} {elementSize : Int → Nat}

/-- The requests that arrive in a run. -/
def recvs (as : List (Action ι)) : List (ι × Request) :=
  as.filterMap fun
    | .recv i r => some (i, r)
    | _ => none

/-- The answers the application gives in a run. -/
def answersGiven (as : List (Action ι)) : List (Nat × List Tensor) :=
  as.filterMap fun
    | .respond handler tensors => some (handler, tensors)
    | _ => none

def pushes (b : Batch) : List Request := b.reqs.filter (·.1.push)
def pulls (b : Batch) : List Request := b.reqs.filter (!·.1.push)

/-- All answers to a batch: an acknowledgement for every push, the `i`-th tensor for the `i`-th
pull. -/
def batchAnswers (b : Batch) (ts : List Tensor) : List AFTensorResponse :=
  (pushes b).map (⟨·.1, {}⟩) ++ List.zipWith (fun r t => answerPull r.1 t) (pulls b) ts

/-- The acknowledgement `KVHandler` sends itself. -/
def ack (r : Request) : List AFTensorResponse :=
  if r.1.cmd ≠ 0 ∧ r.1.push then [⟨r.1, {}⟩] else []

/-- The answers that `respond` adds for a batch. -/
def handlerAnswers (b : Batch) (ts : List Tensor) : List AFTensorResponse :=
  (if b.reqs.length = 1 then (pushes b).map (⟨·.1, {}⟩) else []) ++
    List.zipWith (fun r t => answerPull r.1 t) (pulls b) ts

/-- The same, for the handler number that `respond` was given. -/
def answersFor (B : ι → Batch) (ended : List ι) (p : Nat × List Tensor) : List AFTensorResponse :=
  match ended[p.1]? with
  | some i => handlerAnswers (B i) p.2
  | none => []

/-- The batches that `respond` can match: a pull carries its key in its data, and no two pulls of a
batch have the same key. -/
structure MatchableBatches (B : ι → Batch) : Prop where
  keys : ∀ i, ∀ r ∈ pulls (B i), r.2.keys.head? = some r.1.key
  nodup : ∀ i, ((pulls (B i)).map (·.1.key)).Nodup

theorem answerable_batchMeta (elementSize : Int → Nat) (hB : MatchableBatches B) (i : ι) :
    Answerable (batchMeta elementSize (B i)) where
  keys := by
    simp only [batchMeta, metaOf, List.map_map]
    refine List.map_congr_left fun r hr => ?_
    have hk := hB.keys i r hr
    obtain ⟨k, ks, hks⟩ := List.exists_cons_of_ne_nil (l := r.2.keys) (by rintro h; simp [h] at hk)
    have : k = r.1.key := by simpa [hks] using hk
    simp [blob, fromBlob, hks, this]
  nodup := by
    have := hB.nodup i
    simpa [batchMeta, metaOf, pulls, Function.comp_def] using this
  single hs := by
    have hone : (B i).reqs.length = 1 := by simpa [batchMeta, metaOf] using hs
    simp only [batchMeta, metaOf, List.length_map]
    rw [← List.length_append, (List.filter_append_perm (·.1.push) (B i).reqs).length_eq, hone]

/-! ### The books -/

section
variable [DecidableEq ι]

/-- The state of the server after a run. -/
structure Accounted (elementSize : Int → Nat) (B : ι → Batch) (as : List (Action ι)) (f : FServer) : Prop where
  tracked : Tracked elementSize B (recvs as) f.server
  counter : f.handlerCounter = (endedBatches (recvs as)).length
  filed : ∀ h, f.metaMap h = ((endedBatches (recvs as))[h]?).map fun i => batchMeta elementSize (B i)
  given : ∀ p ∈ answersGiven as, ∃ i, (endedBatches (recvs as))[p.1]? = some i ∧
    p.2.length = (pulls (B i)).length
  account : (f.sent ++ f.responseQueue).Perm ((recvs as).flatMap (fun a => ack a.2) ++
    (answersGiven as).flatMap (answersFor B (endedBatches (recvs as))))

theorem accounted_init (q : List (List ServerDataBatch)) : Accounted elementSize B [] { q := q } where
  tracked := tracked_init
  counter := rfl
  filed _ := rfl
  given := by simp [answersGiven]
  account := by simp [recvs, answersGiven]

omit [DecidableEq ι] in
theorem requestHandler_some {f f' : FServer} {m : AFTensorMeta} (h : f.requestHandler m = some f') :
    f'.server = f.server ∧ f'.responseQueue = f.responseQueue ∧ f'.sent = f.sent ∧
    f'.handlerCounter = f.handlerCounter + 1 ∧
    f'.metaMap = Function.update f.metaMap f.handlerCounter (some m) := by
  simp only [requestHandler, Option.bind_eq_bind, Option.bind_eq_some_iff, Option.pure_def,
    Option.some.injEq] at h
  obtain ⟨queue, -, rfl⟩ := h
  exact ⟨rfl, rfl, rfl, rfl, rfl⟩

omit [DecidableEq ι] in
/-- What `KVHandler`'s calls do: the acknowledgement is sent, an ended batch is filed. -/
theorem effects_eq {f f' : FServer} {b : Batch} {r : Request}
    (h : (batchEffects elementSize b r).foldlM effect f = some f') :
    f'.server = f.server ∧ f'.responseQueue = f.responseQueue ∧ f'.sent = f.sent ++ ack r ∧
    if r.1.cmd = 0 ∨ r.1.cmd = afFlagBatchEnd then
      f'.handlerCounter = f.handlerCounter + 1 ∧
      f'.metaMap = Function.update f.metaMap f.handlerCounter (some (batchMeta elementSize b))
    else f'.handlerCounter = f.handlerCounter ∧ f'.metaMap = f.metaMap := by
  rw [batchEffects, List.foldlM_append] at h
  have hack : (if r.1.cmd ≠ 0 ∧ r.1.push then [Effect.response r.1 {}] else []).foldlM effect f =
      some { f with sent := f.sent ++ ack r } := by
    unfold ack
    split_ifs <;> simp [effect]
  rw [hack, Option.bind_eq_bind, Option.bind_some] at h
  split_ifs at h ⊢
  · rw [List.foldlM_cons] at h
    simp only [effect, List.foldlM_nil, Option.pure_def, Option.bind_eq_bind, Option.bind_fun_some] at h
    exact requestHandler_some h
  · obtain rfl := Option.some.inj h
    exact ⟨rfl, rfl, rfl, rfl, rfl⟩

omit [DecidableEq ι] in
theorem answersFor_append {ended more : List ι} {p : Nat × List Tensor} {i : ι}
    (h : ended[p.1]? = some i) : answersFor B (ended ++ more) p = answersFor B ended p := by
  have hlt := (List.getElem?_eq_some_iff.mp h).1
  simp only [answersFor, List.getElem?_append_left hlt]

namespace Accounted

variable {as : List (Action ι)} {f f' : FServer} {i : ι} {r : Request}

theorem recv (h : Accounted elementSize B as f) (hdist : DistinctTimestamps B)
    (hil : Interleaved B (recvs (as ++ [.recv i r]))) (hstep : f.recv elementSize r = some f') :
    Accounted elementSize B (as ++ [.recv i r]) f' := by
  have hrecvs : recvs (as ++ [.recv i r]) = recvs as ++ [(i, r)] := by simp [recvs]
  have hgiven : answersGiven (as ++ [.recv i r]) = answersGiven as := by simp [answersGiven]
  rw [hrecvs] at hil
  obtain ⟨s', hkv, htr⟩ := h.tracked.step hdist hil
  simp only [FServer.recv, hkv, Option.bind_eq_bind, Option.bind_some] at hstep
  obtain ⟨hserver, hqueue, hsent, hfile⟩ := effects_eq hstep
  set ended := endedBatches (recvs as) with hended
  have hsnoc : endedBatches (recvs as ++ [(i, r)]) =
      ended ++ if r.1.cmd = 0 ∨ r.1.cmd = afFlagBatchEnd then [i] else [] := endedBatches_snoc
  have hold : ∀ p ∈ answersGiven as, ∀ more,
      answersFor B (ended ++ more) p = answersFor B ended p := by
    intro p hp more
    obtain ⟨j, hj, -⟩ := h.given p hp
    exact answersFor_append hj
  refine ⟨?_, ?_, fun n => ?_, fun p hp => ?_, ?_⟩
  · rw [hrecvs, hserver]; exact htr
  · rw [hrecvs, hsnoc]
    split_ifs at hfile ⊢ with hc
    · simp [hfile.1, h.counter, ended]
    · simp [hfile.1, h.counter, ended]
  · rw [hrecvs, hsnoc]
    split_ifs at hfile ⊢ with hc
    · rw [hfile.2]
      show Function.update f.metaMap f.handlerCounter _ n = _
      rw [h.counter, ← hended]
      by_cases hn : n = ended.length
      · subst hn; simp
      · rw [Function.update_of_ne hn, h.filed, ← hended]
        rcases Nat.lt_or_ge n ended.length with hlt | hge
        · rw [List.getElem?_append_left hlt]
        · rw [List.getElem?_eq_none hge, List.getElem?_eq_none (by simp; omega)]
    · rw [hfile.2, List.append_nil]; exact h.filed n
  · rw [hgiven] at hp
    obtain ⟨j, hj, hlen⟩ := h.given p hp
    refine ⟨j, ?_, hlen⟩
    rw [hrecvs, hsnoc, List.getElem?_append_left (List.getElem?_eq_some_iff.mp hj).1]
    exact hj
  · rw [hrecvs, hgiven, hsnoc, List.flatMap_congr fun p hp => hold p hp _, hsent, hqueue,
      List.flatMap_append]
    simp only [List.flatMap_cons, List.flatMap_nil, List.append_nil, List.append_assoc]
    exact (List.perm_append_comm_assoc ..).trans
      ((h.account.append_left _).trans (List.perm_append_comm_assoc ..))

theorem respond {handler : Nat} {ts : List Tensor} (h : Accounted elementSize B as f) (hB : MatchableBatches B)
    (hstep : f.respond ts handler = some f') : Accounted elementSize B (as ++ [.respond handler ts]) f' := by
  have hrecvs : recvs (as ++ [.respond handler ts]) = recvs as := by simp [recvs]
  have hgiven : answersGiven (as ++ [.respond handler ts]) = answersGiven as ++ [(handler, ts)] := by
    simp [answersGiven]
  obtain ⟨i, hi, hts⟩ : ∃ i, (endedBatches (recvs as))[handler]? = some i ∧
      ts.length = (batchMeta elementSize (B i)).pullTensors.length := by
    simp only [FServer.respond, h.filed, Option.bind_eq_bind, Option.bind_eq_some_iff,
      Option.map_eq_some_iff] at hstep
    obtain ⟨m, ⟨i, hi, rfl⟩, u, hg, -⟩ := hstep
    refine ⟨i, hi, ?_⟩
    by_contra hne
    simp [guard, hne] at hg
  have hm : f.metaMap handler = some (batchMeta elementSize (B i)) := by rw [h.filed, hi]; rfl
  have ha := answerable_batchMeta elementSize hB i
  rw [respond_eq hm ha (hts.trans ha.length_eq)] at hstep
  have hanswers : List.zipWith answerPull (batchMeta elementSize (B i)).pullMetas ts =
      List.zipWith (fun r t => answerPull r.1 t) (pulls (B i)) ts := by
    simp [batchMeta, metaOf, pulls, List.zipWith_map_left]
  have hperm : (f'.sent ++ f'.responseQueue).Perm
      (f.sent ++ f.responseQueue ++ handlerAnswers (B i) ts) := by
    obtain rfl := Option.some.inj hstep
    rw [hanswers]
    by_cases hone : (B i).reqs.length = 1
    · have hs : (batchMeta elementSize (B i)).single = true := by simp [batchMeta, metaOf, hone]
      have hp : (batchMeta elementSize (B i)).pushMetas.map (fun km => AFTensorResponse.mk km {}) =
          (pushes (B i)).map (⟨·.1, {}⟩) := by simp [batchMeta, metaOf, pushes]
      simp only [hs, if_true, handlerAnswers, hone, hp, List.append_assoc]
      exact List.Perm.append_left _ (List.append_assoc .. ▸ List.perm_append_comm)
    · have hs : (batchMeta elementSize (B i)).single = false := by simp [batchMeta, metaOf, hone]
      simp [hs, handlerAnswers, hone]
  have hsame : f'.server = f.server ∧ f'.handlerCounter = f.handlerCounter ∧
      f'.metaMap = f.metaMap := by
    obtain rfl := Option.some.inj hstep
    split <;> exact ⟨rfl, rfl, rfl⟩
  refine ⟨?_, ?_, fun n => ?_, fun p hp => ?_, ?_⟩
  · rw [hrecvs, hsame.1]; exact h.tracked
  · rw [hrecvs, hsame.2.1]; exact h.counter
  · rw [hrecvs, hsame.2.2]; exact h.filed n
  · rw [hgiven] at hp
    rw [hrecvs]
    rcases List.mem_append.mp hp with hp | hp
    · exact h.given p hp
    · obtain rfl := List.mem_singleton.mp hp
      exact ⟨i, hi, by simpa [batchMeta, metaOf, pulls] using hts⟩
  · rw [hrecvs, hgiven, List.flatMap_append, ← List.append_assoc]
    refine hperm.trans ((h.account.append_right _).trans ?_)
    simp [answersFor, hi]

theorem responseWorker (h : Accounted elementSize B as f) (hstep : f.responseWorker = some f') :
    Accounted elementSize B (as ++ [.responseWorker]) f' := by
  have hrecvs : recvs (as ++ [.responseWorker]) = recvs as := by simp [recvs]
  have hgiven : answersGiven (as ++ [.responseWorker]) = answersGiven as := by simp [answersGiven]
  unfold FServer.responseWorker at hstep
  split at hstep
  · cases hstep
  · next rsp rest hq =>
    obtain rfl := Option.some.inj hstep
    refine ⟨hrecvs ▸ h.tracked, hrecvs ▸ h.counter, hrecvs ▸ h.filed, ?_, ?_⟩
    · rw [hrecvs, hgiven]; exact h.given
    · rw [hrecvs, hgiven]
      simpa [hq] using h.account

end Accounted

theorem accounted_exec {as : List (Action ι)} {f : FServer} (hB : MatchableBatches B)
    (hdist : DistinctTimestamps B) (q : List (List ServerDataBatch))
    (hil : Interleaved B (recvs as)) (hrun : Run.exec (step elementSize) { q := q } as = some f) :
    Accounted elementSize B as f := by
  refine Run.exec_induction (Accounted elementSize B) (fun as => Interleaved B (recvs as)) ?_ (accounted_init q) ?_
    hil hrun
  · intro as a h
    cases a with
    | recv i r =>
      have hrecvs : recvs (as ++ [.recv i r]) = recvs as ++ [(i, r)] := by simp [recvs]
      rw [hrecvs] at h
      exact h.of_snoc
    | respond handler ts => simpa [recvs] using h
    | responseWorker => simpa [recvs] using h
  · intro as a t t' hil h hstep
    cases a with
    | recv i r => exact h.recv hdist hil hstep
    | respond handler ts => exact h.respond hB hstep
    | responseWorker => exact h.responseWorker hstep

/-! ### Complete runs -/

omit [DecidableEq ι] in
/-- Only the pushes of a batch of several requests are acknowledged by `KVHandler`. -/
theorem flatMap_ack (b : Batch) :
    b.reqs.flatMap ack = if b.reqs.length = 1 then [] else (pushes b).map (⟨·.1, {}⟩) := by
  have hcmd : ∀ r ∈ b.reqs, (r.1.cmd = 0 ↔ b.reqs.length = 1) := by
    intro r hr
    obtain ⟨k, hk, rfl⟩ := List.getElem_of_mem hr
    rw [b.cmd_eq k hk]
    unfold batchFlag afFlagBatchStart afFlagBatchEnd afFlagBatchMiddle
    split_ifs <;> simp_all
  split_ifs with hone
  · refine List.flatMap_eq_nil_iff.mpr fun r hr => ?_
    simp [ack, (hcmd r hr).mpr hone]
  · rw [List.flatMap_congr (g := fun r => if r.1.push then [⟨r.1, {}⟩] else []) fun r hr => by
      have : r.1.cmd ≠ 0 := fun h => hone ((hcmd r hr).mp h)
      simp [ack, this]]
    clear hcmd hone
    unfold pushes
    induction b.reqs with
    | nil => rfl
    | cons r rs ih => cases hp : r.1.push <;> simp [hp, ih]

theorem perm_flatMap_reqs {trace : List (ι × Request)} (hil : Interleaved B trace)
    (hended : ∀ i, arrived trace i = [] ∨ arrived trace i = (B i).reqs) :
    (trace.map (·.2)).Perm ((endedBatches trace).flatMap fun i => (B i).reqs) := by
  obtain ⟨hnd, hmem⟩ := endedBatches_spec hil
  have htags : ∀ a ∈ trace, a.1 ∈ endedBatches trace := by
    intro a ha
    refine (hmem a.1).mpr ((hended a.1).resolve_left fun hnil => ?_)
    have : a.2 ∈ arrived trace a.1 := List.mem_map.mpr ⟨a, List.mem_filter.mpr ⟨ha, by simp⟩, rfl⟩
    simp [hnil] at this
  refine ((List.perm_flatMap_filter_eq Prod.fst hnd htags).map _).trans (.of_eq ?_)
  rw [List.map_flatMap]
  exact List.flatMap_congr fun i hi => (hmem i).mp hi

omit [DecidableEq ι] in
theorem flatMap_answersFor_range (ended : List ι) (reply : Nat → List Tensor) :
    ((List.range ended.length).map fun h => (h, reply h)).flatMap (answersFor B ended) =
      ended.zipIdx.flatMap fun p => handlerAnswers (B p.1) (reply p.2) := by
  rw [List.flatMap_map, List.flatMap_def, List.flatMap_def]
  congr 1
  apply List.ext_getElem
  · simp
  · intro i h₁ h₂
    have hi : i < ended.length := by simpa using h₁
    simp [answersFor, hi]

omit [DecidableEq ι] in
theorem batchAnswers_eq (b : Batch) (ts : List Tensor) :
    b.reqs.flatMap ack ++ handlerAnswers b ts = batchAnswers b ts := by
  rw [flatMap_ack, handlerAnswers, batchAnswers]
  split_ifs <;> simp

/-- What a message says about the request it answers or is. -/
def replyHeader (m : Meta) : Int × Key × Int × Bool × Bool :=
  (m.timestamp, m.key, m.customerId, m.push, m.request)

omit [DecidableEq ι] in
theorem replyHeader_response (po : Postoffice) (appId : Int) (req : KVMeta) (res : KVPairs) :
    replyHeader (KVServer.response po appId req res).msgMeta =
      (req.timestamp, req.key, req.customerId, req.push, false) := by
  unfold KVServer.response
  split_ifs <;> rfl

omit [DecidableEq ι] in
theorem batchAnswers_kvMeta (b : Batch) {ts : List Tensor} (hts : ts.length = (pulls b).length) :
    ((batchAnswers b ts).map (·.kvMeta)).Perm (b.reqs.map (·.1)) := by
  have hzip : (List.zipWith (fun r t => answerPull r.1 t) (pulls b) ts).map (·.kvMeta) =
      (pulls b).map (·.1) := by
    apply List.ext_getElem
    · simp [hts]
    · intro i _ _; simp [answerPull]
  rw [batchAnswers, List.map_append, hzip, List.map_map]
  simpa [pushes, pulls, Function.comp_def] using
    (List.filter_append_perm (fun r : Request => r.1.push) b.reqs).map (·.1)

end

end StepMesh.FServer
