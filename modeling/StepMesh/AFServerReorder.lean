import StepMesh.AFServer
import StepMesh.Lib.ListAux
import StepMesh.Lib.Run

/-!
# Overlapping batches (`AFTensorServer::KVHandler`)

The messages that arrive are tagged with the batch they belong to, a tag the server does not see.
`Interleaved` says that the messages of each batch arrive in order, and nothing about how those of
different batches mix. `Tracks` is the invariant: every open batch has its own object, which holds
exactly what has arrived of it, and is either parked or the last one its sender has started. The
search in `reorder_buffer_` is right because the timestamp that precedes a request is the one of its
own batch's last request, and of no other's (`findReorder_eq`).
-/

namespace StepMesh

abbrev Request := KVMeta × KVPairs

/-- The flag of request `k` in a batch of `n`. -/
def batchFlag (n k : Nat) : Int :=
  if n = 1 then 0
  else if k = 0 then afFlagBatchStart
  else if k + 1 = n then afFlagBatchEnd
  else afFlagBatchMiddle

/-- The requests of one batch: one sender, consecutive timestamps, the flags of a closed batch. -/
structure Batch where
  sender : NodeId
  start : Int
  reqs : List Request
  ne_nil : reqs ≠ []
  sender_eq : ∀ r ∈ reqs, r.1.sender = sender
  timestamp_eq : ∀ k (h : k < reqs.length), reqs[k].1.timestamp = start + k
  cmd_eq : ∀ k (h : k < reqs.length), reqs[k].1.cmd = batchFlag reqs.length k
  keys_ne_nil : ∀ r ∈ reqs, r.2.keys ≠ []

namespace AFServer

/-- The tensor of a request. -/
def blob (elementSize : Int → Nat) (r : Request) : KeyTensor := (fromBlob elementSize r.1 r.2).getD {}

/-- What the request handler is given for the requests `rs` of a sender. -/
def metaOf (elementSize : Int → Nat) (sender : NodeId) (single : Bool) (rs : List Request) : AFTensorMeta where
  sender := sender
  senderRank := idToRank sender
  single := single
  lastTimestamp := (rs.getLast?.map (·.1.timestamp)).getD 0
  pushMetas := (rs.filter (·.1.push)).map (·.1)
  pushTensors := (rs.filter (·.1.push)).map (blob elementSize)
  pullMetas := (rs.filter (!·.1.push)).map (·.1)
  pullTensors := (rs.filter (!·.1.push)).map (blob elementSize)

/-- What the request handler is given for a whole batch. -/
def batchMeta (elementSize : Int → Nat) (b : Batch) : AFTensorMeta :=
  metaOf elementSize b.sender (b.reqs.length = 1) b.reqs

/-- The calls `KVHandler` has to make for request `r` of batch `b`. -/
def batchEffects (elementSize : Int → Nat) (b : Batch) (r : Request) : List Effect :=
  (if r.1.cmd ≠ 0 ∧ r.1.push then [.response r.1 {}] else []) ++
    if r.1.cmd = 0 ∨ r.1.cmd = afFlagBatchEnd then [.handle (batchMeta elementSize b)] else []

/-! ### Requests and metas -/

variable {elementSize : Int → Nat}

theorem fromBlob_eq_blob {r : Request} (h : r.2.keys ≠ []) :
    fromBlob elementSize r.1 r.2 = some (blob elementSize r) := by
  obtain ⟨k, ks, hk⟩ := List.exists_cons_of_ne_nil h
  simp [blob, fromBlob, hk]

theorem metaOf_add (sender : NodeId) (single : Bool) (rs : List Request) (r : Request) :
    (metaOf elementSize sender single rs).add r.1 (blob elementSize r) =
      metaOf elementSize sender single (rs ++ [r]) := by
  cases h : r.1.push <;> simp [metaOf, AFTensorMeta.add, h]

end AFServer

namespace Batch

variable {elementSize : Int → Nat} {b : Batch} {rs : List Request} {r : Request}

theorem getElem_of_snoc_prefix (h : rs ++ [r] <+: b.reqs) :
    ∃ hlt : rs.length < b.reqs.length, b.reqs[rs.length] = r := by
  obtain ⟨t, ht⟩ := h
  refine ⟨by simp [← ht], ?_⟩
  simp [← ht]

theorem mem_of_snoc_prefix (h : rs ++ [r] <+: b.reqs) : r ∈ b.reqs :=
  h.subset (by simp)

theorem lastTimestamp_prefix {single : Bool} (h : rs <+: b.reqs) (hne : rs ≠ []) :
    (AFServer.metaOf elementSize b.sender single rs).lastTimestamp = b.start + rs.length - 1 := by
  obtain rfl | ⟨rs, r, rfl⟩ := List.eq_nil_or_concat' rs
  · exact absurd rfl hne
  obtain ⟨hlt, hr⟩ := getElem_of_snoc_prefix h
  have := b.timestamp_eq rs.length hlt
  rw [hr] at this
  simp [AFServer.metaOf, this]
  omega

end Batch

namespace AFServer

variable {ι : Type*} [DecidableEq ι] {B : ι → Batch} {trace : List (ι × Request)} {i j : ι}
  {r : Request} {s : AFServer} {elementSize : Int → Nat}

/-! ### Interleavings -/

/-- What has arrived of batch `i`. -/
def arrived (trace : List (ι × Request)) (i : ι) : List Request :=
  (trace.filter (·.1 = i)).map (·.2)

/-- The messages of each batch arrive in order. -/
def Interleaved (B : ι → Batch) (trace : List (ι × Request)) : Prop :=
  ∀ i, arrived trace i <+: (B i).reqs

/-- Batches of one sender have different timestamps, as `ZBatchPushPull` allocates them. -/
def DistinctTimestamps (B : ι → Batch) : Prop :=
  ∀ i j, i ≠ j → (B i).sender = (B j).sender →
    (B i).start + (B i).reqs.length ≤ (B j).start ∨ (B j).start + (B j).reqs.length ≤ (B i).start

/-- Batch `i` has begun and has not ended. -/
def Open (B : ι → Batch) (trace : List (ι × Request)) (i : ι) : Prop :=
  arrived trace i ≠ [] ∧ arrived trace i ≠ (B i).reqs

theorem arrived_snoc_self : arrived (trace ++ [(i, r)]) i = arrived trace i ++ [r] := by
  simp [arrived]

theorem arrived_snoc_ne (h : j ≠ i) : arrived (trace ++ [(i, r)]) j = arrived trace j := by
  simp [arrived, Ne.symm h]

theorem Interleaved.of_snoc {a : ι × Request} (h : Interleaved B (trace ++ [a])) :
    Interleaved B trace := by
  intro j
  obtain ⟨i, r⟩ := a
  by_cases hj : j = i
  · subst hj
    have hp := h j
    rw [arrived_snoc_self] at hp
    exact (List.prefix_append _ _).trans hp
  · have hp := h j
    rwa [arrived_snoc_ne hj] at hp

theorem Interleaved.snoc_prefix (h : Interleaved B (trace ++ [(i, r)])) :
    arrived trace i ++ [r] <+: (B i).reqs := by
  have hp := h i
  rwa [arrived_snoc_self] at hp

theorem open_snoc_ne (h : j ≠ i) : Open B (trace ++ [(i, r)]) j ↔ Open B trace j := by
  rw [Open, Open, arrived_snoc_ne h]

theorem Interleaved.next (h : Interleaved B (trace ++ [(i, r)])) :
    (arrived trace i).length < (B i).reqs.length ∧ r.1.sender = (B i).sender ∧
    r.1.timestamp = (B i).start + (arrived trace i).length ∧
    r.1.cmd = batchFlag (B i).reqs.length (arrived trace i).length ∧
    ∀ elementSize, fromBlob elementSize r.1 r.2 = some (blob elementSize r) := by
  have hp := h.snoc_prefix
  obtain ⟨hlt, hr⟩ := Batch.getElem_of_snoc_prefix hp
  have hmem := Batch.mem_of_snoc_prefix hp
  refine ⟨hlt, (B i).sender_eq r hmem, ?_, ?_, fun _ => fromBlob_eq_blob ((B i).keys_ne_nil r hmem)⟩
  · rw [← (B i).timestamp_eq _ hlt, hr]
  · rw [← (B i).cmd_eq _ hlt, hr]

theorem Interleaved.snoc_eq_reqs_iff (h : Interleaved B (trace ++ [(i, r)])) :
    arrived trace i ++ [r] = (B i).reqs ↔ (arrived trace i).length + 1 = (B i).reqs.length := by
  have hp := h.snoc_prefix
  refine ⟨fun he => by rw [← he]; simp, fun hl => hp.eq_of_length (by simp [hl])⟩

/-! ### The invariant -/

/-- The server has seen `trace`: open batch `i` is the object `ptr i`, the batches `parked` are in
`reorder_buffer_` and `cur` says which one each entry of `batch_data_` points to. -/
structure Tracks (elementSize : Int → Nat) (B : ι → Batch) (trace : List (ι × Request)) (s : AFServer)
    (ptr : ι → Nat) (parked : List ι) (cur : NodeId → Option ι) : Prop where
  heap_open : ∀ i, Open B trace i →
    s.heap (ptr i) = some (metaOf elementSize (B i).sender false (arrived trace i))
  heap_only : ∀ p, s.heap p ≠ none → p < s.fresh ∧ ∃ i, Open B trace i ∧ ptr i = p
  ptr_inj : ∀ i j, Open B trace i → Open B trace j → ptr i = ptr j → i = j
  buffer : s.reorderBuffer = parked.map ptr
  current : ∀ snd, s.batchData snd = (cur snd).map ptr
  parked_nodup : parked.Nodup
  open_iff : ∀ i, Open B trace i ↔ i ∈ parked ∨ cur (B i).sender = some i
  cur_sender : ∀ snd i, cur snd = some i → (B i).sender = snd
  cur_not_parked : ∀ snd i, cur snd = some i → i ∉ parked

/-- `Tracks` for some ghosts. -/
def Tracked (elementSize : Int → Nat) (B : ι → Batch) (trace : List (ι × Request)) (s : AFServer) : Prop :=
  ∃ ptr parked cur, Tracks elementSize B trace s ptr parked cur

theorem tracked_init : Tracked elementSize B [] {} := by
  refine ⟨fun _ => 0, [], fun _ => none, ?_⟩
  constructor <;> simp [Open, arrived]

namespace Tracks

variable {ptr : ι → Nat} {parked : List ι} {cur : NodeId → Option ι}

theorem open_of_parked (h : Tracks elementSize B trace s ptr parked cur) (hj : j ∈ parked) : Open B trace j :=
  (h.open_iff j).mpr (.inl hj)

theorem open_of_cur (h : Tracks elementSize B trace s ptr parked cur) {snd : NodeId} (hj : cur snd = some j) :
    Open B trace j :=
  (h.open_iff j).mpr (.inr (by rw [h.cur_sender snd j hj, hj]))

theorem ptr_lt (h : Tracks elementSize B trace s ptr parked cur) (hj : Open B trace j) : ptr j < s.fresh :=
  (h.heap_only (ptr j) (by rw [h.heap_open j hj]; simp)).1

/-- Of the parked batches, the request's own is the only one that waits for its timestamp. -/
theorem waits_iff (h : Tracks elementSize B trace s ptr parked cur) (hdist : DistinctTimestamps B)
    (hil : Interleaved B (trace ++ [(i, r)])) (hi : arrived trace i ≠ []) (hj : j ∈ parked) :
    ((metaOf elementSize (B j).sender false (arrived trace j)).sender = r.1.sender ∧ r.1.timestamp =
      (metaOf elementSize (B j).sender false (arrived trace j)).lastTimestamp + 1) ↔ j = i := by
  obtain ⟨hlt, hsnd, hts, -⟩ := hil.next
  have hjp := hil.of_snoc j
  have hjne := (h.open_of_parked hj).1
  rw [Batch.lastTimestamp_prefix hjp hjne, hsnd, hts, show (metaOf _ _ _ _).sender = (B j).sender from rfl]
  have hjl := hjp.length_le
  have hj1 := List.length_pos_iff.mpr hjne
  have hi1 := List.length_pos_iff.mpr hi
  refine ⟨fun ⟨hs, ht⟩ => ?_, ?_⟩
  · by_contra hne
    rcases hdist j i hne hs with hd | hd <;> omega
  · rintro rfl; exact ⟨rfl, by omega⟩

theorem findReorder_eq (h : Tracks elementSize B trace s ptr parked cur) (hdist : DistinctTimestamps B)
    (hil : Interleaved B (trace ++ [(i, r)])) (hi : arrived trace i ≠ []) :
    findReorder s.heap r.1 s.reorderBuffer = some (if i ∈ parked then some (ptr i) else none) := by
  rw [h.buffer]
  suffices ∀ l : List ι, (∀ j ∈ l, j ∈ parked) →
      findReorder s.heap r.1 (l.map ptr) = some (if i ∈ l then some (ptr i) else none) from
    this parked fun _ hj => hj
  intro l hl
  induction l with
  | nil => rfl
  | cons j l ih =>
    have hj := hl j (by simp)
    have hw := h.waits_iff hdist hil hi hj
    simp only [List.map_cons, findReorder, h.heap_open j (h.open_of_parked hj), Option.bind_eq_bind,
      Option.bind_some, Option.pure_def]
    by_cases hji : j = i
    · rw [if_pos (hw.mpr hji)]; simp [hji]
    · rw [if_neg fun hc => hji (hw.mp hc), ih fun k hk => hl k (by simp [hk])]
      simp [Ne.symm hji]

/-! ### The steps -/

theorem step_single (h : Tracks elementSize B trace s ptr parked cur)
    (hil : Interleaved B (trace ++ [(i, r)])) (hone : (B i).reqs.length = 1) :
    s.kvHandler elementSize r.1 r.2 = some (s, batchEffects elementSize (B i) r) ∧
      Tracks elementSize B (trace ++ [(i, r)]) s ptr parked cur := by
  obtain ⟨hlt, hsnd, -, hcmd, hblob⟩ := hil.next
  have hnil : arrived trace i = [] := List.length_eq_zero_iff.mp (by omega)
  have hreqs : [r] = (B i).reqs := by simpa [hnil, hone] using hil.snoc_eq_reqs_iff
  have hcmd0 : r.1.cmd = 0 := by simp [hcmd, batchFlag, hone]
  have hopen : ∀ j, Open B (trace ++ [(i, r)]) j ↔ Open B trace j := by
    intro j
    by_cases hj : j = i
    · subst hj
      simp [Open, arrived_snoc_self, hnil, hreqs]
    · exact open_snoc_ne hj
  refine ⟨?_, ?_⟩
  · have hmeta : batchMeta elementSize (B i) = metaOf elementSize (B i).sender true [r] := by
      simp [batchMeta, ← hreqs]
    simp only [kvHandler, hcmd0, hblob, batchEffects, hmeta, ← hsnd]
    cases hp : r.1.push <;> simp [AFTensorMeta.add, metaOf, hp]
  · refine { h with
      heap_open := fun j hj => ?_
      heap_only := fun p hp => ?_
      ptr_inj := fun j k hj hk => h.ptr_inj j k ((hopen j).mp hj) ((hopen k).mp hk)
      open_iff := fun j => (hopen j).trans (h.open_iff j) }
    · have hj' := (hopen j).mp hj
      rw [h.heap_open j hj', arrived_snoc_ne]
      rintro rfl; exact hj'.1 hnil
    · obtain ⟨hlt, j, hj, hpj⟩ := h.heap_only p hp
      exact ⟨hlt, j, (hopen j).mpr hj, hpj⟩

/-- A `START` opens the batch and parks the one its sender had open. -/
theorem step_start (h : Tracks elementSize B trace s ptr parked cur)
    (hil : Interleaved B (trace ++ [(i, r)])) (hlen : (B i).reqs.length ≠ 1)
    (hnil : arrived trace i = []) :
    ∃ s', s.kvHandler elementSize r.1 r.2 = some (s', batchEffects elementSize (B i) r) ∧
      Tracks elementSize B (trace ++ [(i, r)]) s' (Function.update ptr i s.fresh)
        (parked ++ (cur (B i).sender).toList) (Function.update cur (B i).sender (some i)) := by
  obtain ⟨hlt, hsnd, -, hcmd, hblob⟩ := hil.next
  have hcmd1 : r.1.cmd = afFlagBatchStart := by simp [hcmd, batchFlag, hlen, hnil]
  have hnot : ¬ Open B trace i := fun ho => ho.1 hnil
  have hopen_i : Open B (trace ++ [(i, r)]) i := by
    refine ⟨by simp [arrived_snoc_self], fun he => hlen ?_⟩
    rw [← he, arrived_snoc_self, hnil]; rfl
  have hptr : ∀ j, Open B trace j → Function.update ptr i s.fresh j = ptr j := by
    intro j hj
    refine Function.update_of_ne ?_ _ _
    rintro rfl; exact hnot hj
  refine ⟨(s.startBatch r.1).store s.fresh (metaOf elementSize (B i).sender false [r]), ?_, ?_⟩
  · have hadd : (metaOf elementSize (B i).sender false []).add r.1 (blob elementSize r) =
        metaOf elementSize (B i).sender false [r] :=
      metaOf_add _ _ [] r
    simp only [metaOf, List.getLast?_nil, List.filter_nil, List.map_nil, Option.map_none,
      Option.getD_none] at hadd
    simp [kvHandler, batchOf, startBatch, hcmd1, hblob, batchEffects, afFlagBatchStart,
      afFlagBatchEnd, hsnd, hadd, metaOf]
  · have hold : ∀ j, j ≠ i → Open B (trace ++ [(i, r)]) j → Open B trace j :=
      fun j hj ho => (open_snoc_ne hj).mp ho
    refine ⟨fun j hj => ?_, fun p hp => ?_, fun j k hj hk he => ?_, ?_, fun snd => ?_, ?_, fun j => ?_,
      fun snd j hj => ?_, fun snd j hj => ?_⟩
    · by_cases hji : j = i
      · subst hji; simp [store, arrived_snoc_self, hnil]
      · have ho := hold j hji hj
        have hne : ptr j ≠ s.fresh := Nat.ne_of_lt (h.ptr_lt ho)
        simp [store, startBatch, hji, hne, arrived_snoc_ne hji, h.heap_open j ho]
    · by_cases hpf : p = s.fresh
      · exact ⟨by simp [store, startBatch, hpf], i, hopen_i, by simp [hpf]⟩
      · obtain ⟨hlt, j, hj, rfl⟩ := h.heap_only p (by simpa [store, startBatch, hpf] using hp)
        have hji : j ≠ i := by rintro rfl; exact hnot hj
        exact ⟨Nat.lt_succ_of_lt hlt, j, (open_snoc_ne hji).mpr hj, hptr j hj⟩
    · by_cases hji : j = i <;> by_cases hki : k = i
      · rw [hji, hki]
      · have := h.ptr_lt (hold k hki hk)
        simp [hji, hki] at he; omega
      · have := h.ptr_lt (hold j hji hj)
        simp [hji, hki] at he; omega
      · exact h.ptr_inj j k (hold j hji hj) (hold k hki hk) (by simpa [hji, hki] using he)
    · have hmap : parked.map (Function.update ptr i s.fresh) = parked.map ptr :=
        List.map_congr_left fun j hj => hptr j (h.open_of_parked hj)
      simp only [store, startBatch, List.map_append, hmap, h.buffer, hsnd, h.current]
      cases hc : cur (B i).sender with
      | none => simp
      | some j => simp [hptr j (h.open_of_cur hc)]
    · by_cases hs : snd = (B i).sender
      · simp [store, startBatch, hsnd, hs]
      · simp only [store, startBatch, hsnd, ne_eq, hs, not_false_eq_true, Function.update_of_ne, h.current]
        cases hc : cur snd with
        | none => rfl
        | some j => simp [hptr j (h.open_of_cur hc)]
    · refine List.nodup_append.mpr ⟨h.parked_nodup, ?_, fun j hj k hk => ?_⟩
      · cases cur (B i).sender <;> simp
      · rintro rfl
        exact h.cur_not_parked _ j (by simpa using hk) hj
    · by_cases hji : j = i
      · subst hji; simp [hopen_i]
      · rw [open_snoc_ne hji, h.open_iff j]
        by_cases hs : (B j).sender = (B i).sender
        · simp [hs, Ne.symm hji]
        · have : cur (B i).sender ≠ some j := fun hc => hs (h.cur_sender _ j hc)
          simp [hs, this]
    · by_cases hs : snd = (B i).sender
      · obtain rfl : i = j := by simpa [hs] using hj
        exact hs.symm
      · exact h.cur_sender snd j (by simpa [hs] using hj)
    · by_cases hs : snd = (B i).sender
      · obtain rfl : i = j := by simpa [hs] using hj
        intro hmem
        rcases List.mem_append.mp hmem with hm | hm
        · exact hnot (h.open_of_parked hm)
        · exact hnot (h.open_of_cur (by simpa using hm))
      · have hc : cur snd = some j := by simpa [hs] using hj
        intro hmem
        rcases List.mem_append.mp hmem with hm | hm
        · exact h.cur_not_parked snd j hc hm
        · exact hs ((h.cur_sender snd j hc).symm.trans (h.cur_sender _ j (by simpa using hm)))

theorem batchOf_eq (h : Tracks elementSize B trace s ptr parked cur) (hdist : DistinctTimestamps B)
    (hil : Interleaved B (trace ++ [(i, r)])) (hi : arrived trace i ≠ []) :
    r.1.cmd ≠ afFlagBatchStart ∧ Open B trace i ∧
      s.batchOf r.1 = some (s, ptr i, decide (i ∈ parked)) := by
  obtain ⟨hlt, hsnd, -, hcmd, -⟩ := hil.next
  have hi1 := List.length_pos_iff.mpr hi
  have hne : r.1.cmd ≠ afFlagBatchStart := by
    rw [hcmd]; unfold batchFlag afFlagBatchStart afFlagBatchEnd afFlagBatchMiddle
    split_ifs <;> omega
  have ho : Open B trace i := ⟨hi, fun he => by rw [he] at hlt; omega⟩
  refine ⟨hne, ho, ?_⟩
  rw [batchOf, if_neg hne, h.findReorder_eq hdist hil hi]
  by_cases hp : i ∈ parked
  · simp [hp]
  · have hc : cur r.1.sender = some i := by
      rw [hsnd]; exact ((h.open_iff i).mp ho).resolve_left hp
    simp [hp, h.current, hc]

theorem kvHandler_later (h : Tracks elementSize B trace s ptr parked cur) (hdist : DistinctTimestamps B)
    (hil : Interleaved B (trace ++ [(i, r)])) (hlen : (B i).reqs.length ≠ 1)
    (hi : arrived trace i ≠ []) :
    s.kvHandler elementSize r.1 r.2 = some (
      if (arrived trace i).length + 1 = (B i).reqs.length then
        s.endBatch r.1 (ptr i) (i ∈ parked)
      else s.store (ptr i) (metaOf elementSize (B i).sender false (arrived trace i ++ [r])),
      batchEffects elementSize (B i) r) := by
  obtain ⟨hlt, hsnd, -, hcmd, hblob⟩ := hil.next
  obtain ⟨-, ho, hbatch⟩ := h.batchOf_eq hdist hil hi
  have hpos : (arrived trace i).length ≠ 0 := by simpa using hi
  have hcmd0 : r.1.cmd ≠ 0 := by
    rw [hcmd]; unfold batchFlag afFlagBatchStart afFlagBatchEnd afFlagBatchMiddle
    split_ifs <;> omega
  have hend : r.1.cmd = afFlagBatchEnd ↔ (arrived trace i).length + 1 = (B i).reqs.length := by
    rw [hcmd]; unfold batchFlag afFlagBatchStart afFlagBatchEnd afFlagBatchMiddle
    split_ifs <;> simp_all
  simp only [kvHandler, hcmd0, hbatch, h.heap_open i ho, hblob, metaOf_add, if_false,
    Option.bind_eq_bind, Option.bind_some, Option.pure_def, batchEffects, ne_eq, not_false_eq_true,
    true_and, false_or]
  by_cases he : (arrived trace i).length + 1 = (B i).reqs.length
  · have hreqs := hil.snoc_eq_reqs_iff.mpr he
    rw [if_pos (hend.mpr he), if_pos (hend.mpr he), if_pos he, hreqs]
    simp [batchMeta, hlen]
  · rw [if_neg fun hc => he (hend.mp hc), if_neg fun hc => he (hend.mp hc), if_neg he, List.append_nil]

theorem step_middle (h : Tracks elementSize B trace s ptr parked cur)
    (hil : Interleaved B (trace ++ [(i, r)])) (ho : Open B trace i)
    (hend : (arrived trace i).length + 1 ≠ (B i).reqs.length) :
    Tracks elementSize B (trace ++ [(i, r)])
      (s.store (ptr i) (metaOf elementSize (B i).sender false (arrived trace i ++ [r]))) ptr parked cur := by
  have hopen : ∀ j, Open B (trace ++ [(i, r)]) j ↔ Open B trace j := by
    intro j
    by_cases hj : j = i
    · subst hj
      refine iff_of_true ⟨by simp [arrived_snoc_self], fun he => hend ?_⟩ ho
      rw [arrived_snoc_self] at he
      exact hil.snoc_eq_reqs_iff.mp he
    · exact open_snoc_ne hj
  refine { h with
    heap_open := fun j hj => ?_
    heap_only := fun p hp => ?_
    ptr_inj := fun j k hj hk => h.ptr_inj j k ((hopen j).mp hj) ((hopen k).mp hk)
    open_iff := fun j => (hopen j).trans (h.open_iff j) }
  · by_cases hji : j = i
    · subst hji; simp [store, arrived_snoc_self]
    · have hj' := (hopen j).mp hj
      have hne : ptr j ≠ ptr i := fun he => hji (h.ptr_inj j i hj' ho he)
      simp [store, hne, arrived_snoc_ne hji, h.heap_open j hj']
  · by_cases hpi : p = ptr i
    · exact ⟨hpi ▸ h.ptr_lt ho, i, (hopen i).mpr ho, hpi.symm⟩
    · obtain ⟨hlt, j, hj, hpj⟩ := h.heap_only p (by simpa [store, hpi] using hp)
      exact ⟨hlt, j, (hopen j).mpr hj, hpj⟩

theorem step_end (h : Tracks elementSize B trace s ptr parked cur)
    (hil : Interleaved B (trace ++ [(i, r)])) (ho : Open B trace i)
    (hend : (arrived trace i).length + 1 = (B i).reqs.length) :
    Tracks elementSize B (trace ++ [(i, r)]) (s.endBatch r.1 (ptr i) (i ∈ parked)) ptr (parked.erase i)
      (if i ∈ parked then cur else Function.update cur (B i).sender none) := by
  obtain ⟨-, hsnd, -⟩ := hil.next
  have hopen : ∀ j, Open B (trace ++ [(i, r)]) j ↔ j ≠ i ∧ Open B trace j := by
    intro j
    by_cases hj : j = i
    · subst hj
      simp [Open, arrived_snoc_self, hil.snoc_eq_reqs_iff.mpr hend]
    · simp [open_snoc_ne hj, hj]
  have hinj : ∀ j ∈ parked, ptr j = ptr i → j = i :=
    fun j hj => h.ptr_inj j i (h.open_of_parked hj) ho
  have hcur : ∀ snd j,
      (if i ∈ parked then cur else Function.update cur (B i).sender none) snd = some j →
      cur snd = some j := by
    intro snd j hj
    by_cases hp : i ∈ parked
    · rwa [if_pos hp] at hj
    · rw [if_neg hp] at hj
      by_cases hs : snd = (B i).sender
      · simp [hs] at hj
      · rwa [Function.update_of_ne hs] at hj
  have hheap : (s.endBatch r.1 (ptr i) (i ∈ parked)).heap = Function.update s.heap (ptr i) none := by
    unfold endBatch; split <;> rfl
  have hfresh : (s.endBatch r.1 (ptr i) (i ∈ parked)).fresh = s.fresh := by
    unfold endBatch; split <;> rfl
  refine ⟨fun j hj => ?_, fun p hp => ?_, fun j k hj hk => ?_, ?_, fun snd => ?_,
    h.parked_nodup.erase i, fun j => ?_, fun snd j hj => ?_, fun snd j hj => ?_⟩
  · obtain ⟨hji, hj'⟩ := (hopen j).mp hj
    have hne : ptr j ≠ ptr i := fun he => hji (h.ptr_inj j i hj' ho he)
    rw [hheap, Function.update_of_ne hne, arrived_snoc_ne hji, h.heap_open j hj']
  · rw [hheap] at hp
    by_cases hpi : p = ptr i
    · simp [hpi] at hp
    · obtain ⟨hlt, j, hj, rfl⟩ := h.heap_only p (by simpa [hpi] using hp)
      exact ⟨hfresh ▸ hlt, j, (hopen j).mpr ⟨fun he => hpi (he ▸ rfl), hj⟩, rfl⟩
  · exact h.ptr_inj j k ((hopen j).mp hj).2 ((hopen k).mp hk).2
  · by_cases hp : i ∈ parked
    · simp [endBatch, hp, h.buffer, List.map_erase_of_injOn ptr hinj]
    · simp [endBatch, hp, h.buffer, List.erase_of_not_mem]
  · by_cases hp : i ∈ parked
    · simp [endBatch, hp, h.current]
    · by_cases hs : snd = (B i).sender
      · simp [endBatch, hp, hsnd, hs]
      · simp [endBatch, hp, hsnd, hs, h.current]
  · rw [hopen j, h.open_iff j, h.parked_nodup.mem_erase_iff]
    by_cases hp : i ∈ parked
    · have hc : cur (B j).sender = some j → j ≠ i := by
        rintro hc rfl; exact h.cur_not_parked _ j hc hp
      rw [if_pos hp]; tauto
    · have hc := ((h.open_iff i).mp ho).resolve_left hp
      rw [if_neg hp]
      by_cases hs : (B j).sender = (B i).sender
      · rw [hs, hc, Function.update_self]
        constructor
        · rintro ⟨hji, hj | hj⟩
          · exact .inl ⟨hji, hj⟩
          · exact absurd (Option.some.inj hj).symm hji
        · rintro (⟨hji, hj⟩ | hj)
          · exact ⟨hji, .inl hj⟩
          · cases hj
      · have hji : j ≠ i := by rintro rfl; exact hs rfl
        rw [Function.update_of_ne hs]; tauto
  · exact h.cur_sender snd j (hcur snd j hj)
  · exact fun hm => h.cur_not_parked snd j (hcur snd j hj) (List.mem_of_mem_erase hm)

end Tracks

/-- One request: the step is possible, makes the calls it has to make and keeps the invariant. -/
theorem Tracked.step (h : Tracked elementSize B trace s) (hdist : DistinctTimestamps B)
    (hil : Interleaved B (trace ++ [(i, r)])) :
    ∃ s', s.kvHandler elementSize r.1 r.2 = some (s', batchEffects elementSize (B i) r) ∧
      Tracked elementSize B (trace ++ [(i, r)]) s' := by
  obtain ⟨ptr, parked, cur, h⟩ := h
  by_cases hone : (B i).reqs.length = 1
  · obtain ⟨hs, h'⟩ := h.step_single hil hone
    exact ⟨s, hs, _, _, _, h'⟩
  by_cases hnil : arrived trace i = []
  · obtain ⟨s', hs, h'⟩ := h.step_start hil hone hnil
    exact ⟨s', hs, _, _, _, h'⟩
  obtain ⟨-, ho, -⟩ := h.batchOf_eq hdist hil hnil
  refine ⟨_, h.kvHandler_later hdist hil hone hnil, ?_⟩
  by_cases hend : (arrived trace i).length + 1 = (B i).reqs.length
  · rw [if_pos hend]
    exact ⟨_, _, _, h.step_end hil ho hend⟩
  · rw [if_neg hend]
    exact ⟨_, _, _, h.step_middle hil ho hend⟩

theorem Tracked.empty_of_ended (h : Tracked elementSize B trace s)
    (hended : ∀ i, arrived trace i = [] ∨ arrived trace i = (B i).reqs) :
    s.batchData = (fun _ => none) ∧ s.reorderBuffer = [] ∧ s.heap = fun _ => none := by
  obtain ⟨ptr, parked, cur, h⟩ := h
  have hno : ∀ i, ¬ Open B trace i := fun i ho => (hended i).elim ho.1 ho.2
  refine ⟨funext fun snd => ?_, ?_, funext fun p => ?_⟩
  · rw [h.current]
    cases hc : cur snd with
    | none => rfl
    | some i => exact absurd (h.open_of_cur hc) (hno i)
  · rw [h.buffer, List.eq_nil_iff_forall_not_mem.mpr fun i hi => hno i (h.open_of_parked hi)]
    rfl
  · by_contra hp
    obtain ⟨-, i, ho, -⟩ := h.heap_only p hp
    exact hno i ho

/-! ### Whole runs -/

/-- `KVHandler` on one request after the other. -/
def handleAll (elementSize : Int → Nat) (s : AFServer) (rs : List Request) :
    Option (AFServer × List (List Effect)) :=
  Run.execOut (fun s r => s.kvHandler elementSize r.1 r.2) s rs

/-- The calls of the request handler among the effects of a run. -/
def handlerCalls (effects : List (List Effect)) : List AFTensorMeta :=
  effects.flatten.filterMap fun
    | .handle afMeta => some afMeta
    | .response .. => none

/-- The batches whose last request has arrived, in the order in which they ended. -/
def endedBatches (trace : List (ι × Request)) : List ι :=
  (trace.filter fun a => a.2.1.cmd = 0 ∨ a.2.1.cmd = afFlagBatchEnd).map (·.1)

omit [DecidableEq ι] in
theorem endedBatches_snoc : endedBatches (trace ++ [(i, r)]) =
    endedBatches trace ++ if r.1.cmd = 0 ∨ r.1.cmd = afFlagBatchEnd then [i] else [] := by
  simp only [endedBatches, List.filter_append, List.map_append]
  congr 1
  split_ifs with hc <;> simp [hc]

theorem handleAll_eq (hdist : DistinctTimestamps B) (hil : Interleaved B trace) :
    ∃ s', handleAll elementSize {} (trace.map (·.2)) =
        some (s', trace.map fun a => batchEffects elementSize (B a.1) a.2) ∧ Tracked elementSize B trace s' := by
  rw [handleAll, Run.execOut_map]
  exact Run.execOut_eq_map (Tracked elementSize B) (Interleaved B) (fun _ _ h => h.of_snoc)
    tracked_init (fun _ _ _ hil h => h.step hdist hil) hil

omit [DecidableEq ι] in
theorem handlerCalls_map_batchEffects :
    handlerCalls (trace.map fun a => batchEffects elementSize (B a.1) a.2) =
      (endedBatches trace).map fun i => batchMeta elementSize (B i) := by
  induction trace with
  | nil => rfl
  | cons a trace ih =>
    simp only [handlerCalls, endedBatches, List.map_cons, List.flatten_cons, List.filterMap_append,
      List.filter_cons] at ih ⊢
    rw [ih]
    unfold batchEffects
    split_ifs <;> simp_all

theorem Interleaved.ends_iff (h : Interleaved B (trace ++ [(i, r)])) :
    (r.1.cmd = 0 ∨ r.1.cmd = afFlagBatchEnd) ↔ arrived trace i ++ [r] = (B i).reqs := by
  obtain ⟨hlt, -, -, hcmd, -⟩ := h.next
  rw [h.snoc_eq_reqs_iff, hcmd]
  unfold batchFlag afFlagBatchStart afFlagBatchEnd afFlagBatchMiddle
  split_ifs <;> simp <;> omega

theorem endedBatches_spec (h : Interleaved B trace) :
    (endedBatches trace).Nodup ∧ ∀ i, i ∈ endedBatches trace ↔ arrived trace i = (B i).reqs := by
  induction trace using List.reverseRecOn with
  | nil =>
    refine ⟨by simp [endedBatches], fun i => ?_⟩
    simpa [endedBatches, arrived] using (B i).ne_nil
  | append_singleton trace a ih =>
    obtain ⟨i, r⟩ := a
    obtain ⟨hnd, hmem⟩ := ih h.of_snoc
    have hi : i ∉ endedBatches trace := fun hm => by
      have := h.next.1
      rw [(hmem i).mp hm] at this
      omega
    have hends := h.ends_iff
    rw [endedBatches_snoc]
    refine ⟨?_, fun j => ?_⟩
    · split_ifs
      · simpa [List.nodup_append] using ⟨hnd, fun j hj he => hi (he ▸ hj)⟩
      · simpa using hnd
    · by_cases hj : j = i
      · subst hj
        rw [arrived_snoc_self, ← hends]
        split_ifs with hc <;> simp [hi, hc]
      · rw [arrived_snoc_ne hj, ← hmem j]
        split_ifs <;> simp [hj]

/-- Overlapping batches are told apart: request by request `KVHandler` acknowledges the pushes and
calls the request handler at the end of a batch, once for each batch and with what belongs to it, and
when all batches have ended it holds nothing. -/
theorem kvHandler_overlapping_batches (elementSize : Int → Nat) (B : ι → Batch) (hdist : DistinctTimestamps B)
    (trace : List (ι × Request)) (hil : Interleaved B trace) :
    ∃ s' effects, handleAll elementSize {} (trace.map (·.2)) = some (s', effects) ∧
      effects = trace.map (fun a => batchEffects elementSize (B a.1) a.2) ∧
      handlerCalls effects = (endedBatches trace).map (fun i => batchMeta elementSize (B i)) ∧
      (endedBatches trace).Nodup ∧
      (∀ i, i ∈ endedBatches trace ↔ arrived trace i = (B i).reqs) ∧
      ((∀ i, arrived trace i = [] ∨ arrived trace i = (B i).reqs) →
        s'.batchData = (fun _ => none) ∧ s'.reorderBuffer = [] ∧ s'.heap = fun _ => none) := by
  obtain ⟨s', hrun, htr⟩ := handleAll_eq hdist hil
  obtain ⟨hnd, hmem⟩ := endedBatches_spec hil
  exact ⟨s', _, hrun, rfl, handlerCalls_map_batchEffects, hnd, hmem, htr.empty_of_ended⟩

/-- A request on key `k`, for the runs below. -/
def sampleRequest (cmd : Int) (push : Bool) (ts : Int) (k : Key) : Request :=
  ({ cmd := cmd, push := push, sender := 9, timestamp := ts, customerId := 0, key := k, addr := 0,
     valLen := 0, option := 0 }, { keys := [k] })

/-- A push and a pull of sender 9, with timestamps `2n` and `2n + 1`. -/
def sampleBatch (n : Nat) : Batch where
  sender := 9
  start := 2 * n
  reqs := [sampleRequest afFlagBatchStart true (2 * n) 1, sampleRequest afFlagBatchEnd false (2 * n + 1) 2]
  ne_nil := by simp
  sender_eq := by simp [sampleRequest]
  timestamp_eq k h := by
    match k, h with
    | 0, _ | 1, _ => simp [sampleRequest]
  cmd_eq k h := by
    match k, h with
    | 0, _ | 1, _ => rfl
  keys_ne_nil := by simp [sampleRequest]

/-- Two batches of one sender, the second started before the first has ended. -/
theorem kvHandler_overlapping_batches_two :
    let B : Fin 2 → Batch := fun i => sampleBatch i
    let trace : List (Fin 2 × Request) :=
      [(0, sampleRequest afFlagBatchStart true 0 1), (1, sampleRequest afFlagBatchStart true 2 1),
       (0, sampleRequest afFlagBatchEnd false 1 2), (1, sampleRequest afFlagBatchEnd false 3 2)]
    ∃ s' effects, handleAll (fun _ => 1) {} (trace.map (·.2)) = some (s', effects) ∧
      effects = trace.map (fun a => batchEffects (fun _ => 1) (B a.1) a.2) ∧
      handlerCalls effects = [batchMeta (fun _ => 1) (B 0), batchMeta (fun _ => 1) (B 1)] ∧
      s'.batchData = (fun _ => none) ∧ s'.reorderBuffer = [] := by
  intro B trace
  have hdist : DistinctTimestamps B := by
    intro i j hij _
    have : (i : Nat) ≠ j := fun h => hij (Fin.ext h)
    simp only [B, sampleBatch, List.length_cons, List.length_nil]
    omega
  have hil : Interleaved B trace := by
    unfold Interleaved; decide
  obtain ⟨s', effects, hrun, heff, hcalls, -, -, hend⟩ :=
    kvHandler_overlapping_batches _ B hdist trace hil
  obtain ⟨hb, hr, -⟩ := hend (by decide)
  exact ⟨s', effects, hrun, heff, hcalls, hb, hr⟩

end AFServer

end StepMesh
