import StepMesh.AFWorker
import StepMesh.Lib.ListAux

/-!
# The frames a batch is sent in

`zBatchPushPull_frames_iff`: what `ZBatchPushPull_` sends is well framed for every server, except for
a pull-only batch with one pull per server and at least two servers. There the pull loop runs once
per server, `first && i == 0` wins over `i == pull_batch_size - 1`, and the batch is opened and never
closed.
-/

namespace StepMesh.AFWorker

/-! ### Timestamps -/

theorem allocTimestamps_eq {po : Postoffice} (hS : 0 < po.numServers) (n : Nat) (c : Customer) :
    allocTimestamps po n c = some ((List.range n).map (fun i => ((c.tracker.length + i : Nat) : Int)),
      { c with tracker := c.tracker ++ List.replicate n { count := po.numServers } }) := by
  induction n generalizing c with
  | zero => simp [allocTimestamps]
  | succ n ih =>
    have hnew : c.newRequest po = some (↑c.tracker.length, c.addRequest po) :=
      Customer.newRequest_eq_some.mpr ⟨hS, rfl, rfl⟩
    simp only [allocTimestamps, hnew, ih, Option.bind_eq_bind, Option.bind_some, Option.pure_def]
    simp only [Customer.addRequest, List.length_append, List.length_singleton, List.append_assoc,
      List.range_succ_eq_map, List.map_cons, List.map_map, Nat.add_zero, List.replicate_succ, List.singleton_append]
    congr 2
    refine congrArg _ (List.map_congr_left fun i _ => ?_)
    simp only [Function.comp_apply]
    omega

theorem zBatchPushPull_eq {w : AFWorker} (hS : 0 < w.po.numServers) (c : Customer) (P Q : List KeyTensor) :
    w.zBatchPushPull c P Q =
      let pts := (List.range P.length).map fun i => ((c.tracker.length + i : Nat) : Int)
      let qts := (List.range (Q.length / w.po.numServers)).map fun i =>
        ((c.tracker.length + P.length + i : Nat) : Int)
      some (⟨P, Q, pts, qts⟩, (pts ++ qts).headD 0, (pts ++ qts).tail,
        { c with tracker := c.tracker ++
            List.replicate (P.length + Q.length / w.po.numServers) { count := w.po.numServers } }) := by
  simp only [zBatchPushPull, Postoffice.length_getServerKeyRanges, allocTimestamps_eq hS, hS, guard_true,
    Option.bind_eq_bind, Option.bind_some, Option.pure_def, List.length_append, List.length_replicate,
    List.append_assoc, List.replicate_append_replicate]

theorem servers_of_zBatchPushPull {w : AFWorker} {c : Customer} {P Q : List KeyTensor}
    {r : AFTensorRequest × Int × List Int × Customer} (h : w.zBatchPushPull c P Q = some r) :
    0 < w.po.numServers := by
  obtain ⟨_, hg, -⟩ := Option.bind_eq_some_iff.mp h
  simpa using (Option.guard_eq_some' _).mp hg

/-! ### The messages for one server -/

section
variable (w : AFWorker) {s : Nat}

theorem sentTo_append (l l' : List (Nat × Message)) :
    sentTo s (l ++ l') = sentTo s l ++ sentTo s l' := by
  simp [sentTo]

theorem sentTo_flatten (L : List (List (Nat × Message))) :
    sentTo s L.flatten = L.flatMap (sentTo s) := by
  induction L with
  | nil => rfl
  | cons l L ih => rw [List.flatten_cons, sentTo_append, ih, List.flatMap_cons]

theorem sentTo_map_range {n : Nat} (hs : s < n) (f : Nat → Message) :
    sentTo s ((List.range n).map fun i => (i, f i)) = [f s] := by
  rw [sentTo, List.filter_map_pair_range n s hs f]; rfl

theorem sentTo_zPush_ (hs : s < w.po.numServers) (ts : Int) (kt : KeyTensor) (cmd : Int) :
    sentTo s (w.zPush_ ts kt cmd) = [w.sendMsg (zMsg true ts kt cmd) s] := by
  rw [zPush_, Postoffice.length_getServerKeyRanges]
  exact sentTo_map_range hs _

theorem zPull_eq (ts : Int) (pull : List KeyTensor) (index : Nat) (cmd : Int)
    (hi : index < pull.length / w.po.numServers) :
    w.zPull_ ts pull index cmd = some ((List.range w.po.numServers).map fun i =>
      (i, w.sendMsg
        (zMsg false ts (pull.getD (i * (pull.length / w.po.numServers) + index) {}) cmd) i)) := by
  simp only [zPull_, Postoffice.length_getServerKeyRanges]
  refine List.mapM_eq_some_map fun i hi' => ?_
  have hlt : i * (pull.length / w.po.numServers) + index < pull.length := by
    have h₁ : (i + 1) * (pull.length / w.po.numServers) ≤
        w.po.numServers * (pull.length / w.po.numServers) :=
      Nat.mul_le_mul_right _ (List.mem_range.mp hi')
    have h₂ := Nat.mul_div_le pull.length w.po.numServers
    rw [Nat.add_mul, Nat.one_mul] at h₁
    omega
  simp [List.getElem?_eq_getElem hlt]

/-- The flags of a batch of two or more requests, in sending order. -/
def batchCmds (pushCount pullCount pullBatchSize : Nat) : List Int :=
  (List.range pushCount).map (pushCmd pushCount pullCount) ++
    (List.range pullBatchSize).map (pullCmd (pushCount = 0) pullBatchSize)

theorem length_pullBlock (hs : s < w.po.numServers) (Q : List KeyTensor) :
    (w.pullBlock Q s).length = Q.length / w.po.numServers := by
  have h₁ : (s + 1) * (Q.length / w.po.numServers) ≤ w.po.numServers * (Q.length / w.po.numServers) :=
    Nat.mul_le_mul_right _ hs
  have h₂ := Nat.mul_div_le Q.length w.po.numServers
  rw [Nat.add_mul, Nat.one_mul] at h₁
  simp only [pullBlock, List.length_take, List.length_drop]
  omega

theorem requestsTo_eq (req : AFTensorRequest) (hs : s < w.po.numServers)
    (hpush : req.pushTimestamps.length = req.push.length)
    (hpull : req.pullTimestamps.length = req.pull.length / w.po.numServers) :
    w.requestsTo req s =
      ((List.range req.push.length).map fun i cmd =>
        w.sendMsg (zMsg true (req.pushTimestamps.getD i 0) (req.push.getD i {}) cmd) s) ++
      ((List.range (req.pull.length / w.po.numServers)).map fun i cmd =>
        w.sendMsg (zMsg false (req.pullTimestamps.getD i 0)
          (req.pull.getD (s * (req.pull.length / w.po.numServers) + i) {}) cmd) s) := by
  set b := req.pull.length / w.po.numServers with hb
  have hblock : (w.pullBlock req.pull s).length = b := w.length_pullBlock hs req.pull
  unfold requestsTo
  congr 1
  · symm
    refine List.map_range_getElem_eq_zipWith _ hpush rfl fun i h₁ h₂ => ?_
    simp [h₁, h₂]
  · symm
    refine List.map_range_getElem_eq_zipWith _ hpull hblock fun i h₁ h₂ => ?_
    have hlt : s * b + i < req.pull.length := by
      simp only [pullBlock, List.length_take, List.length_drop, ← hb] at h₂
      omega
    simp [pullBlock, ← hb, h₁, hlt]

theorem pushLoop (req : AFTensorRequest)
    (hpush : req.pushTimestamps.length = req.push.length) :
    ∃ pushes, ((List.range req.push.length).mapM fun i => do
        let kt ← req.push[i]?
        let ts ← req.pushTimestamps[i]?
        return w.zPush_ ts kt (pushCmd req.push.length req.pull.length i)) = some pushes ∧
      ∀ s < w.po.numServers, pushes.flatMap (sentTo s) = (List.range req.push.length).map fun i =>
        w.sendMsg (zMsg true (req.pushTimestamps.getD i 0) (req.push.getD i {})
          (pushCmd req.push.length req.pull.length i)) s := by
  refine ⟨_, List.mapM_eq_some_map (g := fun i => w.zPush_ (req.pushTimestamps.getD i 0)
    (req.push.getD i {}) (pushCmd req.push.length req.pull.length i)) fun i hi => ?_, fun s hs => ?_⟩
  · have hi := List.mem_range.mp hi
    simp [List.getElem?_eq_getElem hi, List.getElem?_eq_getElem (hpush ▸ hi)]
  · simp only [List.flatMap_map, w.sentTo_zPush_ hs]
    rw [List.map_eq_flatMap]

theorem pullLoop (req : AFTensorRequest) (first : Bool) {b : Nat}
    (hb : req.pull.length / w.po.numServers = b) (hpull : req.pullTimestamps.length = b) :
    ∃ pulls, ((List.range b).mapM fun i => do
        let ts ← req.pullTimestamps[i]?
        w.zPull_ ts req.pull i (pullCmd first b i)) = some pulls ∧
      ∀ s < w.po.numServers, pulls.flatMap (sentTo s) = (List.range b).map fun i =>
        w.sendMsg (zMsg false (req.pullTimestamps.getD i 0) (req.pull.getD (s * b + i) {})
          (pullCmd first b i)) s := by
  refine ⟨_, List.mapM_eq_some_map (g := fun i => (List.range w.po.numServers).map fun j =>
    (j, w.sendMsg (zMsg false (req.pullTimestamps.getD i 0) (req.pull.getD (j * b + i) {})
      (pullCmd first b i)) j)) fun i hi => ?_, fun s hs => ?_⟩
  · have hi := List.mem_range.mp hi
    simp only [List.getElem?_eq_getElem (hpull ▸ hi), Option.bind_eq_bind, Option.bind_some]
    rw [w.zPull_eq _ _ _ _ (hb ▸ hi)]
    simp [hpull, hi, hb]
  · simp only [List.flatMap_map, sentTo_map_range hs]
    rw [List.map_eq_flatMap]

/-- Two or more requests: the loops give each server its requests with the flags `batchCmds`. -/
theorem sentTo_zBatchPushPull_loops (req : AFTensorRequest) (hS : 0 < w.po.numServers)
    (hlen : 2 ≤ req.push.length + req.pull.length)
    (hpush : req.pushTimestamps.length = req.push.length)
    (hpull : req.pullTimestamps.length = req.pull.length / w.po.numServers) :
    ∃ sent, w.zBatchPushPull_ req = some sent ∧ ∀ s < w.po.numServers,
      sentTo s sent = List.zipWith (fun r cmd => r cmd) (w.requestsTo req s)
        (batchCmds req.push.length req.pull.length (req.pull.length / w.po.numServers)) := by
  obtain ⟨pushes, hpushes, hsp⟩ := w.pushLoop req hpush
  obtain ⟨pulls, hpulls, hsq⟩ := w.pullLoop req (req.push.length = 0) rfl hpull
  refine ⟨pushes.flatten ++ pulls.flatten, ?_, fun s hs => ?_⟩
  · have h₁ : 1 ≤ req.push.length + req.pull.length := by omega
    have h₂ : ¬ req.push.length + req.pull.length = 1 := by omega
    simp only [zBatchPushPull_, Postoffice.length_getServerKeyRanges, hS, h₁, h₂, guard_true,
      Option.pure_def, Option.bind_eq_bind, Option.bind_some, ite_false]
    simp only [Option.bind_eq_bind, Option.pure_def] at hpushes hpulls
    rw [hpushes, Option.bind_some, hpulls, Option.bind_some]
  · rw [sentTo_append, sentTo_flatten, sentTo_flatten, hsp s hs, hsq s hs,
      w.requestsTo_eq req hs hpush hpull, batchCmds, List.zipWith_append (by simp)]
    simp [List.zipWith_map_left, List.zipWith_map_right, List.zipWith_self]

end

/-! ### The flags -/

theorem framed_eq_map_range (k : Nat) :
    afFlagBatchStart :: (List.replicate k afFlagBatchMiddle ++ [afFlagBatchEnd]) =
      (List.range (k + 2)).map fun i =>
        if i = 0 then afFlagBatchStart
        else if i = k + 1 then afFlagBatchEnd else afFlagBatchMiddle := by
  apply List.ext_getElem
  · simp
  · intro i h₁ h₂
    simp only [List.length_map, List.length_range] at h₂
    rcases i with _ | i
    · simp
    · by_cases hi : i = k
      · subst hi; simp
      · simp [hi, show i < k by omega]

theorem batchCmds_eq_map_range (pushCount pullCount b : Nat) :
    batchCmds pushCount pullCount b = (List.range (pushCount + b)).map fun i =>
      if i < pushCount then pushCmd pushCount pullCount i
      else pullCmd (pushCount = 0) b (i - pushCount) := by
  rw [batchCmds, List.range_add, List.map_append, List.map_map]
  congr 1
  · exact List.map_congr_left fun i hi => by simp [List.mem_range.mp hi]
  · exact List.map_congr_left fun i _ => by simp [show ¬ pushCount + i < pushCount by omega]

/-- The two loops close the batch unless it is a single pull per server. -/
theorem batchFlags_batchCmds {pushCount pullCount b : Nat} (hlen : 2 ≤ pushCount + b)
    (hb : b = 0 ↔ pullCount = 0) : BatchFlags (batchCmds pushCount pullCount b) := by
  have h : batchCmds pushCount pullCount b =
      afFlagBatchStart :: (List.replicate (pushCount + b - 2) afFlagBatchMiddle ++
        [afFlagBatchEnd]) := by
    rw [framed_eq_map_range, batchCmds_eq_map_range, show pushCount + b - 2 + 2 = pushCount + b by omega]
    refine List.map_congr_left fun i hi => ?_
    have hi := List.mem_range.mp hi
    simp only [pushCmd, pullCmd, decide_eq_true_eq]
    split_ifs <;> first | rfl | omega
  exact h ▸ .framed _

theorem not_batchFlags_start : ¬ BatchFlags [afFlagBatchStart] := by
  intro h
  generalize hl : [afFlagBatchStart] = l at h
  cases h with
  | single => simp [afFlagBatchStart] at hl
  | framed k => simp at hl

/-! ### The batches that are closed -/

theorem requestsTo_length (w : AFWorker) (req : AFTensorRequest) {s : Nat} (hs : s < w.po.numServers)
    (hpush : req.pushTimestamps.length = req.push.length)
    (hpull : req.pullTimestamps.length = req.pull.length / w.po.numServers) :
    (w.requestsTo req s).length = req.push.length + req.pull.length / w.po.numServers := by
  rw [w.requestsTo_eq req hs hpush hpull]; simp

theorem sentTo_zBatchPushPull_single (w : AFWorker) (req : AFTensorRequest) (hS : 0 < w.po.numServers)
    (hdvd : w.po.numServers ∣ req.pull.length) (hlen : req.push.length + req.pull.length = 1)
    (hpush : req.pushTimestamps.length = req.push.length)
    (hpull : req.pullTimestamps.length = req.pull.length / w.po.numServers) :
    req.push.length + req.pull.length / w.po.numServers = 1 ∧
    ∃ sent, w.zBatchPushPull_ req = some sent ∧ ∀ s < w.po.numServers,
      sentTo s sent = List.zipWith (fun r cmd => r cmd) (w.requestsTo req s) [0] := by
  have hS₁ : req.pull.length = 1 → w.po.numServers = 1 := fun h => Nat.dvd_one.mp (h ▸ hdvd)
  obtain ⟨hp, hq⟩ | ⟨hp, hq⟩ : (req.push.length = 1 ∧ req.pull.length = 0) ∨
      (req.push.length = 0 ∧ req.pull.length = 1) := by omega
  · have hts : 0 < req.pushTimestamps.length := by omega
    refine ⟨by simp [hp, hq], w.zPush_ (req.pushTimestamps.getD 0 0) (req.push.getD 0 {}), ?_,
      fun s hs => ?_⟩
    · simp [zBatchPushPull_, hS, hp, hq, hts]
    · rw [w.sentTo_zPush_ hs, w.requestsTo_eq req hs hpush hpull]
      simp [hp, hq]
  · have h₁ := hS₁ hq
    have hts : 0 < req.pullTimestamps.length := by rw [hpull, hq, h₁]; decide
    have hpulls := w.zPull_eq req.pullTimestamps[0] req.pull 0 0 (by rw [hq, h₁]; decide)
    refine ⟨by simp [hp, hq, h₁], _, Eq.trans ?_ hpulls, fun s hs => ?_⟩
    · simp [zBatchPushPull_, hS, hp, hq, hts]
    · rw [sentTo_map_range hs, w.requestsTo_eq req hs hpush hpull]
      simp [hp, hq, h₁, hts]

section
variable {w : AFWorker} {req : AFTensorRequest}

theorem WellFramed.of_sentTo {cmds : List Int} {sent : List (Nat × Message)}
    (hdvd : w.po.numServers ∣ req.pull.length)
    (hpush : req.pushTimestamps.length = req.push.length)
    (hpull : req.pullTimestamps.length = req.pull.length / w.po.numServers)
    (hlen : cmds.length = req.push.length + req.pull.length / w.po.numServers)
    (hflags : BatchFlags cmds)
    (hsent : ∀ s < w.po.numServers,
      sentTo s sent = List.zipWith (fun r cmd => r cmd) (w.requestsTo req s) cmds) :
    WellFramed w req sent where
  toServer s hs :=
    ⟨cmds, hflags, hlen, (w.requestsTo_length req hs hpush hpull).trans hlen.symm, hsent s hs⟩
  pull_once := List.flatMap_blocks _ _ _ (Nat.mul_div_cancel' hdvd).symm

theorem WellFramed.batchFlags_head {sent : List (Nat × Message)} (h : WellFramed w req sent) {s : Nat}
    (hs : s < w.po.numServers) : BatchFlags ((sentTo s sent).map (·.msgMeta.head)) := by
  obtain ⟨cmds, hflags, _, hlen, hsent⟩ := h.toServer s hs
  have hhead : ∀ r ∈ w.requestsTo req s, ∀ cmd, (r cmd).msgMeta.head = cmd := by
    intro r hr cmd
    simp only [requestsTo, List.mem_append, ← List.map_uncurry_zip_eq_zipWith, List.mem_map] at hr
    rcases hr with ⟨_, _, rfl⟩ | ⟨_, _, rfl⟩ <;> rfl
  have : (sentTo s sent).map (·.msgMeta.head) = cmds := by
    rw [hsent]
    apply List.ext_getElem
    · simp [hlen]
    · intro i h₁ h₂
      simp [hhead _ (List.getElem_mem _)]
  exact this ▸ hflags

theorem exists_wellFramed_iff (hS : 0 < w.po.numServers)
    (hdvd : w.po.numServers ∣ req.pull.length) (hne : 0 < req.push.length + req.pull.length)
    (hpush : req.pushTimestamps.length = req.push.length)
    (hpull : req.pullTimestamps.length = req.pull.length / w.po.numServers) :
    (∃ sent, w.zBatchPushPull_ req = some sent ∧ WellFramed w req sent) ↔
      ¬ (req.push = [] ∧ req.pull.length = w.po.numServers ∧ 2 ≤ w.po.numServers) := by
  have hb : req.pull.length / w.po.numServers = 0 ↔ req.pull.length = 0 := by
    obtain ⟨b, hb⟩ := hdvd
    rw [hb, Nat.mul_div_cancel_left _ hS, Nat.mul_eq_zero]
    omega
  by_cases hone : req.push.length + req.pull.length = 1
  · obtain ⟨hlen, sent, hsent, hto⟩ :=
      w.sentTo_zBatchPushPull_single req hS hdvd hone hpush hpull
    have hcmds : ([0] : List Int).length = _ := hlen.symm
    refine iff_of_true ⟨sent, hsent, .of_sentTo hdvd hpush hpull hcmds .single hto⟩ ?_
    rintro ⟨-, h, h₂⟩; omega
  · obtain ⟨sent, hsent, hto⟩ :=
      w.sentTo_zBatchPushPull_loops req hS (by omega) hpush hpull
    have hcmds : (batchCmds req.push.length req.pull.length
        (req.pull.length / w.po.numServers)).length =
        req.push.length + req.pull.length / w.po.numServers := by simp [batchCmds]
    by_cases hbad : req.push = [] ∧ req.pull.length = w.po.numServers
    · obtain ⟨hp, hq⟩ := hbad
      have hdiv : req.pull.length / w.po.numServers = 1 := by rw [hq, Nat.div_self hS]
      refine iff_of_false ?_ fun h => h ⟨hp, hq, by simp [hp] at hone; omega⟩
      rintro ⟨sent', hsent', hwf⟩
      obtain rfl : sent = sent' := by simpa [hsent] using hsent'
      -- the only message of server 0 opens the batch
      have h := hwf.batchFlags_head hS
      rw [hto 0 hS, w.requestsTo_eq req hS hpush hpull, hdiv, hp] at h
      simp only [batchCmds, List.length_nil, List.range_zero, List.range_one, List.map_nil,
        List.map_cons, List.nil_append, List.zipWith_cons_cons, List.zipWith_nil_left] at h
      exact not_batchFlags_start h
    · refine iff_of_true ⟨sent, hsent, .of_sentTo hdvd hpush hpull hcmds
        (batchFlags_batchCmds ?_ hb) hto⟩ fun h => hbad ⟨h.1, h.2.1⟩
      obtain ⟨b, hQ⟩ := hdvd
      rw [hQ, Nat.mul_div_cancel_left _ hS] at hb ⊢
      by_contra hlt
      obtain ⟨hp, rfl⟩ | ⟨hp, rfl⟩ : (req.push.length = 0 ∧ b = 1) ∨ (req.push.length ≤ 1 ∧ b = 0) := by
        omega
      · exact hbad ⟨List.length_eq_zero_iff.mp hp, by omega⟩
      · omega

end

/-- Every batch is sent well framed, except one that pulls a single tensor from each of several
servers and pushes nothing. -/
theorem zBatchPushPull_frames_iff (w : AFWorker) (c : Customer) (P Q : List KeyTensor)
    (hS : 0 < w.po.numServers) (hdvd : w.po.numServers ∣ Q.length) (hne : ¬ (P = [] ∧ Q = [])) :
    ∃ req handle tss c', w.zBatchPushPull c P Q = some (req, handle, tss, c') ∧
      req.push = P ∧ req.pull = Q ∧
      handle :: tss = req.pushTimestamps ++ req.pullTimestamps ∧
      ((∃ sent, w.zBatchPushPull_ req = some sent ∧ WellFramed w req sent) ↔
        ¬ (P = [] ∧ Q.length = w.po.numServers ∧ 2 ≤ w.po.numServers)) := by
  set pts := (List.range P.length).map fun i => ((c.tracker.length + i : Nat) : Int) with hpts
  set qts := (List.range (Q.length / w.po.numServers)).map fun i =>
    ((c.tracker.length + P.length + i : Nat) : Int) with hqts
  have hpl : pts.length = P.length := by simp [hpts]
  have hql : qts.length = Q.length / w.po.numServers := by simp [hqts]
  have hPQ : 0 < P.length + Q.length := by
    rcases P with _ | ⟨p, P⟩
    · rcases Q with _ | ⟨q, Q⟩
      · exact absurd ⟨rfl, rfl⟩ hne
      · simp
    · simp only [List.length_cons]; omega
  refine ⟨⟨P, Q, pts, qts⟩, (pts ++ qts).headD 0, (pts ++ qts).tail, _, zBatchPushPull_eq hS c P Q, rfl, rfl, ?_,
    exists_wellFramed_iff hS hdvd hPQ hpl hql⟩
  have : pts ++ qts ≠ [] := by
    intro h
    obtain ⟨b, hb⟩ := hdvd
    rw [hb, Nat.mul_div_cancel_left _ hS] at hql
    simp only [List.append_eq_nil_iff] at h
    rw [h.1, List.length_nil] at hpl
    rw [h.2, List.length_nil] at hql
    rw [hb, ← hpl, ← hql] at hPQ
    simp at hPQ
  obtain ⟨t, ts, hts⟩ := List.exists_cons_of_ne_nil this
  simp [hts]

/-- One push and two pulls per server, for two servers. -/
theorem zBatchPushPull_frames_iff_two_servers :
    let w : AFWorker := { po := { numWorkers := 1, numServers := 2 } }
    let Q : List KeyTensor := [{ key := 2 }, { key := 3 }, { key := 4 }, { key := 5 }]
    ∃ req handle tss c', w.zBatchPushPull { appId := 0, customerId := 0 } [{ key := 1 }] Q =
        some (req, handle, tss, c') ∧
      req.push = [{ key := 1 }] ∧ req.pull = Q ∧
      handle :: tss = req.pushTimestamps ++ req.pullTimestamps ∧
      ((∃ sent, w.zBatchPushPull_ req = some sent ∧ WellFramed w req sent) ↔
        ¬ ([{ key := 1 }] = ([] : List KeyTensor) ∧ Q.length = w.po.numServers ∧
          2 ≤ w.po.numServers)) :=
  zBatchPushPull_frames_iff _ _ _ _ (by decide) (by decide) (by simp)

/-- Two servers and a pull from each: both servers are sent `START` and nothing after it. -/
theorem zBatchPushPull_pull_each_unclosed :
    let w : AFWorker := { po := { numWorkers := 1, numServers := 2 } }
    ∃ req handle tss c', w.zBatchPushPull { appId := 0, customerId := 0 } []
        [{ key := 1 }, { key := 2 }] = some (req, handle, tss, c') ∧
      (∃ sent, w.zBatchPushPull_ req = some sent ∧
        ∀ s < 2, (sentTo s sent).map (·.msgMeta.head) = [afFlagBatchStart]) ∧
      ¬ ∃ sent, w.zBatchPushPull_ req = some sent ∧ WellFramed w req sent := by
  refine ⟨_, _, _, _, rfl, ⟨_, rfl, by decide⟩, ?_⟩
  rintro ⟨sent, hsent, hwf⟩
  obtain rfl := Option.some.inj hsent
  exact not_batchFlags_start (hwf.batchFlags_head (show 0 < 2 by decide))

end StepMesh.AFWorker
