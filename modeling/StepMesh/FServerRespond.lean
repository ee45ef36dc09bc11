import Mathlib.Algebra.Order.BigOperators.Group.List
import Mathlib.Algebra.Order.Group.Nat
import Mathlib.Data.List.Nodup
import Mathlib.Data.List.Perm.Basic
import StepMesh.FServer
import StepMesh.Lib.ListAux

/-!
# What `respond` and `respond_vec` answer

`respond_eq`: the `i`-th tensor given to `respond` answers the `i`-th pull of the batch, provided that
the pulls have different keys and carry them in their data. `respondVec_splits_rows_iff`:
`respond_vec` gives every handler the first rows of `ret_buffer`, so the merged output is split back
only where no earlier handler has rows.
-/

namespace StepMesh

/-- The addresses of the bytes an answer is sent from. -/
def AFTensorResponse.bytes (rsp : AFTensorResponse) : List Nat :=
  List.range' rsp.kvPair.vals.ptr rsp.kvPair.vals.size

namespace Tensor

def rowBytes (t : Tensor) : Nat := t.sizes.tail.prod * t.itemsize

/-- The addresses of the bytes of the rows `[start, stop)`. -/
def rowsAt (t : Tensor) (start stop : Nat) : List Nat :=
  Strides.addresses t.itemsize (t.dataPtr + start * t.strides.headD 0 * t.itemsize) ((stop - start) :: t.sizes.tail)
    t.strides

variable (t : Tensor) {rows : Nat} {tail : List Nat}

theorem slice_eq_some (ht : t.sizes = rows :: tail) {start stop : Nat} (hle : start ≤ stop) (hrows : stop ≤ rows) :
    ∃ t', t.slice start stop = some t' ∧ t'.dataPtr = t.dataPtr + start * t.strides.headD 0 * t.itemsize ∧
      t'.nbytes = (stop - start) * t.rowBytes := by
  unfold slice
  split
  · next hnil => rw [ht] at hnil; cases hnil
  · next _ _ hcons =>
    obtain ⟨rfl, rfl⟩ := List.cons.inj (ht.symm.trans hcons)
    refine ⟨_, rfl, ?_, ?_⟩
    · simp only [dataPtr, Nat.min_eq_left hrows, Nat.min_eq_left hle, Nat.add_mul, Nat.add_assoc]
    · simp only [nbytes, numel, rowBytes, ht, List.tail_cons, List.prod_cons, Nat.min_eq_left hrows,
        Nat.min_eq_left hle, Nat.mul_assoc]

theorem length_rowsAt (ht : t.sizes = rows :: tail) (start stop : Nat) :
    (t.rowsAt start stop).length = (stop - start) * t.rowBytes := by
  have hdims : t.strides.length = ((stop - start) :: tail).length := by
    rw [t.dims, ht, List.length_cons, List.length_cons]
  rw [rowsAt, ht, List.tail_cons, Strides.length_addresses _ hdims, List.prod_cons, rowBytes, ht, List.tail_cons,
    Nat.mul_assoc]

/-- What is sent for a slice of the first rows is another range of rows if there is nothing to send, or if the
range starts where the tensor does and the rows lie in one piece. -/
theorem range'_eq_rowsAt_iff (ht : t.sizes = rows :: tail) (start n : Nat) :
    List.range' t.dataPtr (n * t.rowBytes) = t.rowsAt start (start + n) ↔
      n = 0 ∨ t.rowBytes = 0 ∨
        (start = 0 ∨ t.strides.head? = some 0) ∧ Strides.IsContiguous (n :: tail) t.strides := by
  have hdims : t.strides.length = (n :: tail).length := by rw [t.dims, ht, List.length_cons, List.length_cons]
  obtain ⟨s, strides, hs⟩ := List.exists_cons_of_length_eq_add_one hdims
  have hbytes : (n :: tail).prod * t.itemsize = n * t.rowBytes := by
    rw [List.prod_cons, rowBytes, ht, List.tail_cons, Nat.mul_assoc]
  have hrowsAt : t.rowsAt start (start + n) =
      Strides.addresses t.itemsize (t.dataPtr + start * s * t.itemsize) (n :: tail) t.strides := by
    rw [rowsAt, ht, Nat.add_sub_cancel_left, hs, List.headD_cons, List.tail_cons]
  have hlen : (Strides.addresses t.itemsize (t.dataPtr + start * s * t.itemsize) (n :: tail) t.strides).length =
      (n :: tail).prod * t.itemsize := Strides.length_addresses _ hdims
  rw [hrowsAt, ← hbytes]
  rcases Nat.eq_zero_or_pos ((n :: tail).prod * t.itemsize) with hzero | hpos
  · rw [hzero] at hlen ⊢
    rw [List.length_eq_zero_iff.mp hlen]
    refine iff_of_true rfl ?_
    rw [hbytes] at hzero
    exact (Nat.mul_eq_zero.mp hzero).imp_right .inl
  · have hitem : 0 < t.itemsize := Nat.pos_of_mul_pos_left hpos
    have hprod : 0 < (n :: tail).prod := Nat.pos_of_mul_pos_right hpos
    have hn : n ≠ 0 ∧ t.rowBytes ≠ 0 := Nat.mul_ne_zero_iff.mp (hbytes ▸ hpos.ne')
    have hhead := Strides.head?_addresses hitem (t.dataPtr + start * s * t.itemsize) hdims hprod
    simp only [hn.1, hn.2, false_or, hs, List.head?_cons, Option.some.injEq]
    rw [hs] at hhead hdims
    constructor
    · intro heq
      have hstart : start * s = 0 := by
        rw [← heq, List.head?_range', if_neg hpos.ne', Option.some.injEq] at hhead
        have : start * s * t.itemsize = 0 := by omega
        exact (Nat.mul_eq_zero.mp this).resolve_right hitem.ne'
      rw [hstart, Nat.zero_mul, Nat.add_zero] at heq
      exact ⟨Nat.mul_eq_zero.mp hstart, (Strides.addresses_eq_range' hitem _ hdims hprod).mp heq.symm⟩
    · rintro ⟨hstart, hcontiguous⟩
      rw [Nat.mul_eq_zero.mpr hstart, Nat.zero_mul, Nat.add_zero]
      exact ((Strides.addresses_eq_range' hitem _ hdims hprod).mpr hcontiguous).symm

end Tensor

namespace FServer

variable {f : FServer} {m : AFTensorMeta} {handler : Nat} {ts : List Tensor}

/-- The answer to a pull with a tensor. -/
def answerPull (kvMeta : KVMeta) (t : Tensor) : AFTensorResponse :=
  ⟨kvMeta, pullAnswer ⟨kvMeta.key, t⟩⟩

/-- What `KVHandler` files for a batch: as many pull tensors as pull metas, with the same keys, no key
twice; a single request is one push or one pull. -/
structure Answerable (m : AFTensorMeta) : Prop where
  keys : m.pullTensors.map (·.key) = m.pullMetas.map (·.key)
  nodup : (m.pullMetas.map (·.key)).Nodup
  single : m.single = true → m.pushMetas.length + m.pullMetas.length = 1

theorem Answerable.length_eq (h : Answerable m) : m.pullTensors.length = m.pullMetas.length := by
  simpa using congrArg List.length h.keys

theorem matchPull_eq (h : Answerable m) {i : Nat} (hi : i < m.pullMetas.length) (hts : i < ts.length) :
    matchPull (List.zipWith (fun kt t => KeyTensor.mk kt.key t) m.pullTensors ts) m.pullMetas[i] =
      .inl (answerPull m.pullMetas[i] ts[i]) := by
  have hkey : ∀ j (hj : j < m.pullTensors.length) (hj' : j < m.pullMetas.length),
      m.pullTensors[j].key = m.pullMetas[j].key := by
    intro j hj hj'
    have := List.getElem_of_eq h.keys (by simpa using hj)
    simpa using this
  have hfind : (List.zipWith (fun kt t => KeyTensor.mk kt.key t) m.pullTensors ts).find?
      (·.key = m.pullMetas[i].key) = some ⟨m.pullMetas[i].key, ts[i]⟩ := by
    have hi' : i < m.pullTensors.length := h.length_eq ▸ hi
    refine List.find?_eq_some_iff_getElem.mpr ⟨by simp, i, by simp; omega, ?_, fun j hj => ?_⟩
    · simp [hkey i hi' hi]
    · simp only [List.getElem_zipWith, hkey j (by omega) (by omega), Bool.not_eq_true',
        decide_eq_false_iff_not]
      have hne := List.pairwise_iff_getElem.mp h.nodup j i (by simp; omega) (by simpa using hi) hj
      rwa [List.getElem_map, List.getElem_map] at hne
  rw [matchPull, hfind]; rfl

theorem respond_eq (hm : f.metaMap handler = some m) (h : Answerable m)
    (hts : ts.length = m.pullMetas.length) :
    f.respond ts handler = some (
      if m.single then
        { f with sent := f.sent ++ m.pushMetas.map (⟨·, {}⟩) ++ List.zipWith answerPull m.pullMetas ts }
      else
        { f with responseQueue := f.responseQueue ++ List.zipWith answerPull m.pullMetas ts }) := by
  have hlen := h.length_eq
  simp only [respond, hm, Option.bind_eq_bind, Option.bind_some, hts, hlen, guard_true,
    Option.pure_def, response]
  by_cases hs : m.single = true
  · simp only [hs, if_true]
    rcases hp : m.pullMetas with _ | ⟨km, _ | ⟨km', rest⟩⟩
    · obtain ⟨pm, hpm⟩ := List.length_eq_one_iff.mp (by simpa [hp] using h.single hs)
      simp [hpm]
    · obtain ⟨kt, hkt⟩ := List.length_eq_one_iff.mp (hlen.trans (by simp [hp]))
      obtain ⟨t, ht⟩ := List.length_eq_one_iff.mp (hts.trans (by simp [hp]))
      have hnil : m.pushMetas = [] := List.length_eq_zero_iff.mp (by
        have := h.single hs; simp only [hp, List.length_cons, List.length_nil] at this; omega)
      have hkey : kt.key = km.key := by simpa [hkt, hp] using h.keys
      simp [hkt, ht, hnil, answerPull, hkey]
    · have := h.single hs
      simp only [hp, List.length_cons] at this; omega
  · have hmatch : (List.range m.pullMetas.length).mapM (fun i => do
        let kvMeta ← m.pullMetas[i]?
        return matchPull (List.zipWith (fun kt t => KeyTensor.mk kt.key t) m.pullTensors ts) kvMeta) =
        some ((List.zipWith answerPull m.pullMetas ts).map Sum.inl) := by
      rw [List.map_zipWith, ← List.map_range_getElem_eq_zipWith (fun km t => Sum.inl (answerPull km t))
        rfl hts (g := fun i => Sum.inl (answerPull (m.pullMetas.getD i default) (ts.getD i .undefined)))]
      · refine List.mapM_eq_some_map fun i hi => ?_
        have hi := List.mem_range.mp hi
        simp [List.getElem?_eq_getElem hi, matchPull_eq h hi (hts ▸ hi), List.getElem?_eq_getElem (hts ▸ hi)]
      · intro i hi hi'
        simp [hi, hi']
    simp only [Option.bind_eq_bind, Option.pure_def] at hmatch
    have hanswers : (List.zipWith answerPull m.pullMetas ts).length = m.pullMetas.length := by
      simp [hts]
    simp only [hs, hmatch, Option.bind_some]
    generalize List.zipWith answerPull m.pullMetas ts = answers at hanswers
    simp [hlen, hts, hanswers, List.filterMap_map, Function.comp_def]

/-! ### `respond_vec` -/

/-- The new answers of `f'`, in the order of the handlers, are sent from consecutive rows of
`ret_buffer`: handler `i` gets `ns[i]` rows, after those of the handlers before it. -/
def SplitsRows (f f' : FServer) (ret : Tensor) (pulls : List KVMeta) (ns : List Nat) : Prop :=
  ∃ answers : List AFTensorResponse, answers.map (·.kvMeta) = pulls ∧
    (f'.sent ++ f'.responseQueue).Perm (f.sent ++ f.responseQueue ++ answers) ∧
    ∀ i (h : i < answers.length),
      answers[i].bytes = ret.rowsAt (ns.take i).sum (ns.take (i + 1)).sum

/-- Handler `handler` is a batch with the one pull `km`. -/
def OnePull (f : FServer) (handler : Nat) (km : KVMeta) : Prop :=
  ∃ m, f.metaMap handler = some m ∧ Answerable m ∧ m.pullMetas = [km]

theorem respond_onePull {km : KVMeta} (h : OnePull f handler km) (t : Tensor) :
    ∃ f', f.respond [t] handler = some f' ∧ f'.metaMap = f.metaMap ∧
      (f'.sent ++ f'.responseQueue).Perm (f.sent ++ f.responseQueue ++ [answerPull km t]) := by
  obtain ⟨m, hm, ha, hp⟩ := h
  refine ⟨_, respond_eq hm ha (by simp [hp]), ?_, ?_⟩
  · split <;> rfl
  · by_cases hs : m.single = true
    · have hnil : m.pushMetas = [] := by simpa [hp] using ha.single hs
      simp only [hs, if_true, hp, hnil, List.map_nil, List.append_nil, List.zipWith_cons_cons,
        List.zipWith_nil_left, List.append_assoc]
      exact List.perm_append_comm.append_left f.sent
    · simp [hs, hp]

/-- The loop of `respond_vec`: every answer starts at the first byte of `ret_buffer`. -/
theorem respondVec_loop {ret : Tensor} {rows : Nat} {tail : List Nat} (hret : ret.sizes = rows :: tail)
    {ths : List (Tensor × Nat)} {ns : List Nat} {pulls : List KVMeta}
    (hns : List.Forall₂ (fun th n => th.1.sizes.head? = some n) ths ns) (hrows : ∀ n ∈ ns, n ≤ rows)
    (hpulls : List.Forall₂ (fun th km => OnePull f th.2 km) ths pulls) :
    ∃ f' answers, ths.foldlM (fun f th => do
        let tensorShape0 ← th.1.sizes.head?
        let sliced ← ret.slice 0 tensorShape0
        f.respond [sliced] th.2) f = some f' ∧
      answers.map (·.kvMeta) = pulls ∧
      answers.map (·.bytes) = ns.map (fun n => List.range' ret.dataPtr (n * ret.rowBytes)) ∧
      (f'.sent ++ f'.responseQueue).Perm (f.sent ++ f.responseQueue ++ answers) := by
  induction ths generalizing f ns pulls with
  | nil =>
    cases hns; cases hpulls
    exact ⟨f, [], rfl, rfl, rfl, by simp⟩
  | cons th ths ih =>
    obtain ⟨n, ns, hn, hns', rfl⟩ := List.forall₂_cons_left_iff.mp hns
    obtain ⟨km, pulls, hkm, hpulls', rfl⟩ := List.forall₂_cons_left_iff.mp hpulls
    obtain ⟨sliced, hsl, hptr, hnb⟩ :=
      ret.slice_eq_some hret (Nat.zero_le n) (hrows n (by simp))
    obtain ⟨f₁, hf₁, hmap, hperm₁⟩ := respond_onePull hkm sliced
    have hpulls₁ : List.Forall₂ (fun th km => OnePull f₁ th.2 km) ths pulls := by
      unfold OnePull at hpulls' ⊢; rwa [hmap]
    obtain ⟨f', answers, hf', hmetas, hbytes, hperm⟩ :=
      ih hns' (fun n hn => hrows n (by simp [hn])) hpulls₁
    refine ⟨f', answerPull km sliced :: answers, ?_, by simp [hmetas, answerPull], ?_, ?_⟩
    · simp [List.foldlM_cons, hn, hsl, hf₁, ← hf']
    · have hsliced : (answerPull km sliced).bytes = List.range' ret.dataPtr (n * ret.rowBytes) := by
        simp [AFTensorResponse.bytes, answerPull, pullAnswer, Tensor.toSArray, hptr, hnb]
      simp [hbytes, hsliced]
    · refine hperm.trans ((hperm₁.append_right answers).trans ?_)
      simp

/-- `respond_vec` splits the merged output back exactly where every handler with rows has no rows before it, or
all rows are one, and its rows lie in one piece. -/
theorem respondVec_splits_rows_iff (f : FServer) (ret : Tensor) (rows : Nat) (tail : List Nat)
    (hret : ret.sizes = rows :: tail) (tensorsVec : List Tensor) (handlerVec : List Nat)
    (ns : List Nat) (pulls : List KVMeta)
    (hns : List.Forall₂ (fun t n => t.sizes.head? = some n) tensorsVec ns)
    (hpulls : List.Forall₂ (OnePull f) handlerVec pulls)
    (hlen : tensorsVec.length = handlerVec.length) (hsum : ns.sum ≤ rows) :
    ∃ f', f.respondVec ret tensorsVec handlerVec = some f' ∧
      (SplitsRows f f' ret pulls ns ↔
        ∀ i (h : i < ns.length), ns[i] = 0 ∨ ret.rowBytes = 0 ∨
          ((ns.take i).sum = 0 ∨ ret.strides.head? = some 0) ∧
            Strides.IsContiguous (ns[i] :: tail) ret.strides) := by
  have hths : List.Forall₂ (fun (th : Tensor × Nat) n => th.1.sizes.head? = some n)
      (tensorsVec.zip handlerVec) ns := by
    refine List.forall₂_iff_get.mpr ⟨by simp [← hlen, hns.length_eq], fun i h₁ h₂ => ?_⟩
    simpa using hns.get (by simpa [← hlen] using h₁) h₂
  have hreg : List.Forall₂ (fun (th : Tensor × Nat) km => OnePull f th.2 km)
      (tensorsVec.zip handlerVec) pulls := by
    refine List.forall₂_iff_get.mpr ⟨by simp [hlen, hpulls.length_eq], fun i h₁ h₂ => ?_⟩
    simpa using hpulls.get (by simpa [hlen] using h₁) h₂
  have hrows : ∀ n ∈ ns, n ≤ rows := fun n hn => (List.le_sum_of_mem hn).trans hsum
  obtain ⟨f', answers, hf', hmetas, hbytes, hperm⟩ := respondVec_loop hret hths hrows hreg
  refine ⟨f', by simpa [respondVec, hlen] using hf', ?_⟩
  have hcount : answers.length = ns.length := by simpa using congrArg List.length hbytes
  have hget : ∀ i (h : i < answers.length) (h' : i < ns.length),
      answers[i].bytes = List.range' ret.dataPtr (ns[i] * ret.rowBytes) := by
    intro i h h'
    have := List.getElem_of_eq hbytes (by simpa using h)
    simpa using this
  have hown : ∀ i (h : i < ns.length), List.range' ret.dataPtr (ns[i] * ret.rowBytes) =
      ret.rowsAt (ns.take i).sum (ns.take (i + 1)).sum ↔ ns[i] = 0 ∨ ret.rowBytes = 0 ∨
        ((ns.take i).sum = 0 ∨ ret.strides.head? = some 0) ∧
          Strides.IsContiguous (ns[i] :: tail) ret.strides := fun i h => by
    rw [List.sum_take_succ _ _ h]
    exact ret.range'_eq_rowsAt_iff hret (ns.take i).sum ns[i]
  constructor
  · rintro ⟨answers', -, hperm', hbytes'⟩ i hi
    have hpp : answers'.Perm answers := (List.perm_append_left_iff _).mp (hperm'.symm.trans hperm)
    have hi' : i < answers'.length := by rw [hpp.length_eq, hcount]; exact hi
    refine (hown i hi).mp ?_
    -- every answer of the loop starts at the first byte of the buffer, so its length says which it is
    obtain ⟨j, hj, hji⟩ := List.getElem_of_mem (hpp.mem_iff.mp (List.getElem_mem hi'))
    have hb := hbytes' i hi'
    rw [← hji, hget j hj (hcount ▸ hj)] at hb
    have hlenb := congrArg List.length hb
    rw [List.length_range', ret.length_rowsAt hret, List.sum_take_succ _ _ hi, Nat.add_sub_cancel_left] at hlenb
    rw [← hlenb, hb]
  · intro h
    refine ⟨answers, hmetas, hperm, fun i hi => ?_⟩
    have hi' := hcount ▸ hi
    rw [hget i hi hi']
    exact (hown i hi').mpr (h i hi')

/-- The pull of handler `h` on key `h`. -/
def samplePull (h : Nat) : KVMeta :=
  { cmd := afFlagBatchEnd, push := false, sender := 9, timestamp := h, customerId := 0,
    key := .ofNat h, addr := 0, valLen := 4, option := 0 }

/-- Two batches with one pull each wait for their answers. -/
def sampleTwoPulls : FServer :=
  { q := [[]], handlerCounter := 2
    metaMap := fun h => if h < 2 then
      some { sender := 9, pullMetas := [samplePull h], pullTensors := [{ key := .ofNat h }] } else none }

/-- Two rows of one element. -/
def sampleRows : Tensor := { storage := 0, sizes := [2, 1], itemsize := 4, scalarType := 6 }

/-- One row: the answer for a single handler is split right. -/
theorem respondVec_splits_rows_iff_one :
    ∃ f', sampleTwoPulls.respondVec sampleRows [{ sampleRows with sizes := [1, 1] }] [0] = some f' ∧
      SplitsRows sampleTwoPulls f' sampleRows [samplePull 0] [1] := by
  obtain ⟨f', hf', hiff⟩ := respondVec_splits_rows_iff sampleTwoPulls sampleRows 2 [1] rfl
    [{ sampleRows with sizes := [1, 1] }] [0] [1] [samplePull 0] (by simp)
    (List.forall₂_cons.mpr ⟨⟨_, rfl, ⟨rfl, by simp, by simp⟩, rfl⟩, List.Forall₂.nil⟩) rfl (by decide)
  exact ⟨f', hf', hiff.mpr (by decide)⟩

/-- One row each for two handlers: both are answered with the first row. -/
theorem respondVec_two_handlers_same_row :
    ∃ f', sampleTwoPulls.respondVec sampleRows
        [{ sampleRows with sizes := [1, 1] }, { sampleRows with sizes := [1, 1] }] [0, 1] = some f' ∧
      f'.responseQueue.map (·.bytes) = [sampleRows.rowsAt 0 1, sampleRows.rowsAt 0 1] ∧
      ¬ SplitsRows sampleTwoPulls f' sampleRows [samplePull 0, samplePull 1] [1, 1] := by
  refine ⟨_, rfl, by decide, ?_⟩
  rintro ⟨answers, hmetas, hperm, hbytes⟩
  have hlen : answers.length = 2 := by simpa using congrArg List.length hmetas
  have hmem := hperm.symm.subset (List.mem_append_right _ (List.getElem_mem (show 1 < _ by omega)))
  have hrow := hbytes 1 (by omega)
  have hall : ∀ a ∈ ([] : List AFTensorResponse) ++ [answerPull (samplePull 0)
      { sampleRows with sizes := [1, 1] }, answerPull (samplePull 1) { sampleRows with sizes := [1, 1] }],
      a.bytes ≠ sampleRows.rowsAt 1 2 := by decide
  exact hall _ hmem hrow

end FServer

end StepMesh
