import StepMesh.KVWorker
import StepMesh.Lib.Cut

/-!
# `DefaultSlicer` partitions a list (`include/ps/kv_app.h`)

The positions that `DefaultSlicer` finds are the cuts of the sorted keys at the bounds of the ranges, so a
slice is the piece between two cuts. The values of a key are known by their addresses, `entries` pairs
each key with its own; a slice has the entries of its keys (`entries_slice`).
-/

namespace StepMesh

open List (cut between)

/-! ### Ranges -/

def Range.Contains (r : Range) (key : Key) : Prop := r.start ≤ key ∧ key < r.stop

instance (r : Range) (key : Key) : Decidable (r.Contains key) := inferInstanceAs (Decidable (_ ∧ _))

/-- Each range ends where the next begins, the first begins at `b`. -/
def Contiguous : UInt64 → List Range → Prop
  | _, [] => True
  | b, r :: ranges => r.start = b ∧ r.start ≤ r.stop ∧ Contiguous r.stop ranges

/-- Where ranges from `b` on end. -/
def lastStop (b : UInt64) (ranges : List Range) : UInt64 := ranges.foldl (fun _ r => r.stop) b

variable {ranges : List Range} {b : UInt64}

theorem Contiguous.le_lastStop (h : Contiguous b ranges) : b ≤ lastStop b ranges := by
  induction ranges generalizing b with
  | nil => exact UInt64.le_refl b
  | cons r ranges ih =>
    obtain ⟨rfl, hle, h⟩ := h
    exact UInt64.le_trans hle (ih h)

theorem Contiguous.exists_contains_iff (h : Contiguous b ranges) (key : Key) :
    (∃ r ∈ ranges, r.Contains key) ↔ b ≤ key ∧ key < lastStop b ranges := by
  induction ranges generalizing b with
  | nil => simp [lastStop, UInt64.not_lt]
  | cons r ranges ih =>
    obtain ⟨rfl, hle, h⟩ := h
    have hlast := h.le_lastStop
    rw [List.exists_mem_cons_iff, ih h, Range.Contains]
    show _ ↔ r.start ≤ key ∧ key < lastStop r.stop ranges
    simp only [UInt64.le_iff_toNat_le, UInt64.lt_iff_toNat_lt] at *
    omega

theorem Contiguous.zip_all (h : Contiguous b ranges) :
    ((ranges.zip ranges.tail).all fun (r, r') => r.stop == r'.start) = true := by
  induction ranges generalizing b with
  | nil => rfl
  | cons r ranges ih =>
    obtain ⟨-, -, h⟩ := h
    cases ranges with
    | nil => rfl
    | cons r' ranges =>
      have := ih h
      simpa [h.1] using this

/-! ### Positions -/

theorem lowerBound_eq_cut (keys : List Key) (key : Key) :
    lowerBound keys key = keys.cut UInt64.toNat key.toNat := by
  simp [lowerBound, cut, UInt64.lt_iff_toNat_lt]

theorem lowerBound_zero (keys : List Key) : lowerBound keys 0 = 0 := by
  rw [lowerBound_eq_cut]
  exact List.cut_eq_zero fun _ _ => Nat.zero_le _

theorem lowerBound_le_lowerBound {a b : UInt64} (h : a ≤ b) (keys : List Key) :
    lowerBound keys a ≤ lowerBound keys b := by
  rw [lowerBound_eq_cut, lowerBound_eq_cut]
  exact List.cut_le_cut (UInt64.le_iff_toNat_le.mp h) keys

theorem lowerBound_le_length (keys : List Key) (b : UInt64) : lowerBound keys b ≤ keys.length := by
  rw [lowerBound_eq_cut]
  exact List.cut_le_length ..

theorem lowerBound_add_drop {a b : UInt64} (h : a ≤ b) (keys : List Key) :
    lowerBound keys a + lowerBound (keys.drop (lowerBound keys a)) b = lowerBound keys b := by
  simp only [lowerBound_eq_cut]
  exact List.cut_add_cut_drop (UInt64.le_iff_toNat_le.mp h) keys

/-- The positions of a range, both searched for in the whole list. -/
def Range.positions (keys : List Key) (r : Range) : Nat × Nat :=
  (lowerBound keys r.start, lowerBound keys r.stop)

theorem Contiguous.scanl_eq (h : Contiguous b ranges) (keys : List Key) :
    ranges.scanl (fun pos r => pos + lowerBound (keys.drop pos) r.stop) (lowerBound keys b) =
      lowerBound keys b :: ranges.map fun r => lowerBound keys r.stop := by
  induction ranges generalizing b with
  | nil => rfl
  | cons r ranges ih =>
    obtain ⟨rfl, hle, h⟩ := h
    rw [List.scanl_cons, lowerBound_add_drop hle, ih h, List.map_cons]

theorem Contiguous.slicePositions_eq (h : Contiguous 0 ranges) (keys : List Key) :
    slicePositions keys ranges = 0 :: ranges.map fun r => lowerBound keys r.stop := by
  have hstart : (ranges.head?.map fun r => lowerBound keys r.start).getD 0 = lowerBound keys 0 := by
    cases ranges with
    | nil => exact (lowerBound_zero keys).symm
    | cons r ranges => simp [h.1]
  rw [slicePositions, hstart, h.scanl_eq, lowerBound_zero]

theorem Contiguous.zip_positions (h : Contiguous b ranges) (keys : List Key) :
    (lowerBound keys b :: ranges.map fun r => lowerBound keys r.stop).zip
      (ranges.map fun r => lowerBound keys r.stop) = ranges.map (·.positions keys) := by
  induction ranges generalizing b with
  | nil => rfl
  | cons r ranges ih =>
    obtain ⟨rfl, hle, h⟩ := h
    rw [List.map_cons, List.zip_cons_cons, ih h, List.map_cons, Range.positions]

theorem Contiguous.getLast_positions (h : Contiguous b ranges) (keys : List Key) :
    (lowerBound keys b :: ranges.map fun r => lowerBound keys r.stop).getLast? =
      some (lowerBound keys (lastStop b ranges)) := by
  induction ranges generalizing b with
  | nil => rfl
  | cons r ranges ih =>
    obtain ⟨rfl, hle, h⟩ := h
    rw [List.map_cons, List.getLast?_cons_cons, ih h]
    rfl

theorem Contiguous.flatMap_between {α : Type*} (h : Contiguous b ranges) (keys : List Key) (l : List α) :
    ranges.flatMap (fun r => l.between (lowerBound keys r.start) (lowerBound keys r.stop)) =
      l.between (lowerBound keys b) (lowerBound keys (lastStop b ranges)) := by
  induction ranges generalizing b with
  | nil => exact (List.between_self ..).symm
  | cons r ranges ih =>
    obtain ⟨rfl, hle, h⟩ := h
    rw [List.flatMap_cons, ih h]
    exact List.between_append l (lowerBound_le_lowerBound hle keys)
      (lowerBound_le_lowerBound h.le_lastStop keys)

/-! ### Keys and their values -/

/-- The addresses of the elements. -/
def SArray.elems (a : SArray) : List Nat := List.range' a.ptr a.size

/-- Consecutive blocks of addresses of the given widths. -/
def blocks : Nat → List Nat → List (List Nat)
  | _, [] => []
  | ptr, w :: ws => List.range' ptr w :: blocks (ptr + w) ws

@[simp] theorem length_blocks (ptr : Nat) (ws : List Nat) : (blocks ptr ws).length = ws.length := by
  induction ws generalizing ptr with
  | nil => rfl
  | cons w ws ih => simp [blocks, ih]

theorem flatten_blocks (ptr : Nat) (ws : List Nat) : (blocks ptr ws).flatten = List.range' ptr ws.sum := by
  induction ws generalizing ptr with
  | nil => rfl
  | cons w ws ih =>
    rw [blocks, List.flatten_cons, ih, List.sum_cons]
    have := @List.range'_append ptr w ws.sum 1
    rwa [Nat.one_mul] at this

theorem drop_blocks (ptr : Nat) (ws : List Nat) (p : Nat) :
    (blocks ptr ws).drop p = blocks (ptr + (ws.take p).sum) (ws.drop p) := by
  induction ws generalizing ptr p with
  | nil => simp [blocks]
  | cons w ws ih =>
    cases p with
    | zero => simp
    | succ p => simp [blocks, ih, Nat.add_assoc]

theorem take_blocks (ptr : Nat) (ws : List Nat) (n : Nat) :
    (blocks ptr ws).take n = blocks ptr (ws.take n) := by
  induction ws generalizing ptr n with
  | nil => simp [blocks]
  | cons w ws ih =>
    cases n with
    | zero => rfl
    | succ n => simp [blocks, ih]

theorem between_blocks (ptr : Nat) (ws : List Nat) (p q : Nat) :
    (blocks ptr ws).between p q = blocks (ptr + (ws.take p).sum) (ws.between p q) := by
  rw [between, between, drop_blocks, take_blocks]

theorem between_zip {α β : Type*} (l : List α) (m : List β) (p q : Nat) :
    (l.zip m).between p q = (l.between p q).zip (m.between p q) := by
  simp only [between, List.zip, List.drop_zipWith, List.take_zipWith]

namespace KVPairs

/-- How many values each key has. -/
def widths (kv : KVPairs) : List Nat :=
  if kv.lens = [] then List.replicate kv.keys.length (kv.vals.size / kv.keys.length)
  else kv.lens.map Int.toNat

/-- Every key with the addresses of its values. -/
def entries (kv : KVPairs) : List (Key × List Nat) := kv.keys.zip (blocks kv.vals.ptr kv.widths)

/-- Either every key has the same number of values, or `lens` says how many. -/
structure Valued (kv : KVPairs) : Prop where
  size : kv.vals.size < 2 ^ 64
  given : (kv.lens = [] ∧ kv.keys.length ∣ kv.vals.size) ∨
    (kv.lens.length = kv.keys.length ∧ (∀ l ∈ kv.lens, 0 ≤ l) ∧ kv.lens.sum = kv.vals.size)

/-- The part of the list at the places from `p` up to `q`. -/
def slice (kv : KVPairs) (p q : Nat) : KVPairs where
  keys := kv.keys.between p q
  vals := { kv.vals with
    ptr := kv.vals.ptr + (kv.widths.take p).sum
    size := (kv.widths.between p q).sum }
  lens := kv.lens.between p q

/-- An empty slice is not sent. -/
def sliceOf (kv : KVPairs) (pos : Nat × Nat) : Bool × KVPairs :=
  if pos.2 = pos.1 then (false, {}) else (true, kv.slice pos.1 pos.2)

variable {kv : KVPairs} {p q : Nat}

theorem sum_map_toNat {ls : List Int} (h : ∀ l ∈ ls, 0 ≤ l) : (((ls.map Int.toNat).sum : Nat) : Int) = ls.sum := by
  induction ls with
  | nil => rfl
  | cons l ls ih =>
    obtain ⟨hl, h⟩ := List.forall_mem_cons.mp h
    rw [List.map_cons, List.sum_cons, List.sum_cons, Int.natCast_add, ih h, Int.toNat_of_nonneg hl]

theorem Valued.length_widths (h : kv.Valued) : kv.widths.length = kv.keys.length := by
  unfold widths
  split_ifs with hl
  · exact List.length_replicate
  · rcases h.given with ⟨hnil, -⟩ | ⟨hlen, -⟩
    · exact absurd hnil hl
    · rw [List.length_map, hlen]

theorem Valued.sum_widths (h : kv.Valued) : kv.widths.sum = kv.vals.size := by
  unfold widths
  split_ifs with hl
  · rcases h.given with ⟨-, hdvd⟩ | ⟨hlen, -, hsum⟩
    · rw [List.sum_replicate_nat, Nat.mul_div_cancel' hdvd]
    · have hk : kv.keys.length = 0 := by rw [← hlen, hl]; rfl
      have hv : kv.vals.size = 0 := by
        rw [hl] at hsum
        exact Int.ofNat.inj hsum.symm
      simp [hk, hv]
  · rcases h.given with ⟨hnil, -⟩ | ⟨-, hpos, hsum⟩
    · exact absurd hnil hl
    · exact Int.ofNat.inj ((sum_map_toNat hpos).trans hsum)

theorem sum_between_le (ws : List Nat) (p q : Nat) (h : p ≤ q) :
    (ws.take p).sum + (ws.between p q).sum = (ws.take q).sum := by
  rw [← List.sum_append, List.take_append_between ws h]

theorem Valued.sum_take_le (h : kv.Valued) (q : Nat) : (kv.widths.take q).sum ≤ kv.vals.size := by
  rw [← h.sum_widths]
  conv => rhs; rw [← List.take_append_drop q kv.widths, List.sum_append]
  exact Nat.le_add_right ..

theorem widths_slice (h : kv.Valued) (hpq : p < q) (hq : q ≤ kv.keys.length) :
    (kv.slice p q).widths = kv.widths.between p q := by
  have hlen : (kv.keys.between p q).length = q - p := List.length_between hq
  by_cases hl : kv.lens = []
  · have hbetween : kv.widths.between p q = List.replicate (q - p) (kv.vals.size / kv.keys.length) := by
      rw [widths, if_pos hl, between, List.drop_replicate, List.take_replicate]
      congr 1
      omega
    have hnil : (kv.slice p q).lens = [] := by simp [slice, hl, between]
    rw [widths, if_pos hnil]
    show List.replicate (kv.keys.between p q).length ((kv.widths.between p q).sum /
      (kv.keys.between p q).length) = _
    rw [hbetween, hlen, List.sum_replicate_nat, Nat.mul_div_cancel_left _ (by omega)]
  · have hle : kv.lens.length = kv.keys.length := by
      have := h.length_widths
      rwa [widths, if_neg hl, List.length_map] at this
    have hnil : (kv.slice p q).lens ≠ [] := by
      refine List.ne_nil_of_length_pos ?_
      show 0 < (kv.lens.between p q).length
      rw [List.length_between (hle ▸ hq)]
      omega
    rw [widths, if_neg hnil, widths, if_neg hl]
    exact List.map_between ..

theorem entries_slice (h : kv.Valued) (hpq : p < q) (hq : q ≤ kv.keys.length) :
    (kv.slice p q).entries = kv.entries.between p q := by
  rw [entries, widths_slice h hpq hq, entries, between_zip, between_blocks]
  rfl

theorem elems_slice (kv : KVPairs) (p q : Nat) :
    (kv.slice p q).vals.elems = ((blocks kv.vals.ptr kv.widths).between p q).flatten := by
  rw [between_blocks, flatten_blocks]
  rfl

theorem map_fst_entries (h : kv.Valued) : kv.entries.map (·.1) = kv.keys := by
  rw [entries, List.map_fst_zip]
  rw [length_blocks, h.length_widths]

end KVPairs

/-! ### The slicer -/

theorem SArray.segment_eq_some {a : SArray} {first last : Nat} (h : first ≤ last) (hlast : last ≤ a.size) :
    a.segment first last = some { a with ptr := a.ptr + first, size := last - first } := by
  simp [SArray.segment, h, hlast]

section slicer
variable {send : KVPairs} {valBegin : Nat}

theorem segment_lens (hv : send.Valued) (hl : send.lens ≠ []) {p q : Nat} (hpq : p ≤ q) :
    let valEnd := (((send.widths.take p).sum + ((send.lens.drop p).take (q - p)).sum) % 2 ^ 64 : Int).toNat
    valEnd = (send.widths.take q).sum ∧
      send.vals.segment (send.widths.take p).sum valEnd = some (send.slice p q).vals := by
  have hpos : ∀ l ∈ send.lens, 0 ≤ l := by
    rcases hv.given with ⟨hnil, -⟩ | ⟨-, hpos, -⟩
    · exact absurd hnil hl
    · exact hpos
  have hsum : ((send.lens.drop p).take (q - p)).sum = ((send.widths.between p q).sum : Nat) := by
    rw [KVPairs.widths, if_neg hl, ← List.map_between]
    exact (KVPairs.sum_map_toNat fun l h => hpos l (List.mem_of_mem_drop (List.mem_of_mem_take h))).symm
  have htake := KVPairs.sum_between_le send.widths p q hpq
  have hle := hv.sum_take_le q
  have hsize := hv.size
  have hend : (((send.widths.take p).sum + ((send.lens.drop p).take (q - p)).sum) % 2 ^ 64 : Int).toNat =
      (send.widths.take q).sum := by
    rw [hsum]
    omega
  refine ⟨hend, ?_⟩
  rw [hend, SArray.segment_eq_some (by omega) hle, KVPairs.slice]
  simp only [Option.some.injEq, SArray.mk.injEq, and_true, true_and]
  omega

theorem segment_uniform (hv : send.Valued) (hl : send.lens = []) {p q : Nat} (hpq : p ≤ q)
    (hq : q ≤ send.keys.length) :
    send.vals.segment (p * (send.vals.size / send.keys.length)) (q * (send.vals.size / send.keys.length)) =
      some (send.slice p q).vals := by
  have htake : ∀ n ≤ send.keys.length,
      (send.widths.take n).sum = n * (send.vals.size / send.keys.length) := by
    intro n hn
    rw [KVPairs.widths, if_pos hl, List.take_replicate, List.sum_replicate_nat, Nat.min_eq_left hn]
  have hsum := KVPairs.sum_between_le send.widths p q hpq
  have hle := hv.sum_take_le q
  have hp := htake p (Nat.le_trans hpq hq)
  rw [← hp, ← htake q hq, SArray.segment_eq_some (by omega) hle, KVPairs.slice]
  simp only [Option.some.injEq, SArray.mk.injEq, and_true, true_and]
  omega

theorem Contiguous.sliceLoop_eq (h : Contiguous b ranges) (hv : send.Valued)
    (hbegin : send.lens ≠ [] → valBegin = (send.widths.take (lowerBound send.keys b)).sum) :
    sliceLoop send (if send.lens = [] then send.vals.size / send.keys.length else 0) valBegin
        (ranges.map (·.positions send.keys)) =
      some (ranges.map fun r => send.sliceOf (r.positions send.keys)) := by
  induction ranges generalizing b valBegin with
  | nil => rfl
  | cons r ranges ih =>
    obtain ⟨rfl, hle, h⟩ := h
    have hpq := lowerBound_le_lowerBound hle send.keys
    rw [List.map_cons, List.map_cons, Range.positions, sliceLoop]
    by_cases heq : lowerBound send.keys r.stop = lowerBound send.keys r.start
    · rw [if_pos heq, ih h fun hl => by rw [heq]; exact hbegin hl]
      simp [KVPairs.sliceOf, heq]
    · rw [if_neg heq]
      by_cases hl : send.lens = []
      · have hseg := segment_uniform hv hl hpq (lowerBound_le_length send.keys r.stop)
        simp only [hl, ne_eq, not_true_eq_false, if_false, if_true] at ih ⊢
        rw [hseg, Option.bind_eq_bind, Option.bind_some, ih h False.elim]
        simp [KVPairs.sliceOf, heq, KVPairs.slice, hl, between]
      · obtain ⟨hend, hseg⟩ := segment_lens hv hl hpq
        obtain rfl := hbegin hl
        rw [if_pos hl]
        simp only [hend] at hseg ⊢
        rw [hseg, Option.bind_eq_bind, Option.bind_some, ih h fun _ => rfl]
        simp [KVPairs.sliceOf, heq, KVPairs.slice, between]

/-- With all keys in the ranges, slice `i` is what lies between the positions of range `i`; a key outside
fails the check on the last position. -/
theorem Contiguous.defaultSlice_eq (h : Contiguous 0 ranges) (hv : send.Valued) :
    defaultSlice send ranges =
      if lowerBound send.keys (lastStop 0 ranges) = send.keys.length then
        some (ranges.map fun r => send.sliceOf (r.positions send.keys))
      else none := by
  have hlast := h.getLast_positions send.keys
  have hzip := h.zip_positions send.keys
  rw [lowerBound_zero] at hlast hzip
  simp only [defaultSlice, h.zip_all, h.slicePositions_eq, hlast, List.tail_cons, hzip]
  by_cases hall : lowerBound send.keys (lastStop 0 ranges) = send.keys.length
  · simp only [hall, if_true, guard_true, Option.pure_def, Option.bind_eq_bind, Option.bind_some]
    by_cases hkeys : send.keys = []
    · rw [if_pos hkeys]
      simp [KVPairs.sliceOf, Range.positions, lowerBound, hkeys]
    · have hloop := h.sliceLoop_eq hv (fun _ : send.lens ≠ [] => show 0 = _ by simp [lowerBound_zero])
      rw [if_neg hkeys]
      by_cases hl : send.lens = []
      · have hdvd : send.vals.size / send.keys.length * send.keys.length = send.vals.size := by
          rcases hv.given with ⟨-, hdvd⟩ | ⟨hlen, -⟩
          · exact Nat.div_mul_cancel hdvd
          · exact absurd (List.length_eq_zero_iff.mp (by rw [← hlen, hl]; rfl)) hkeys
        simp only [hl, if_true, hdvd, guard_true, Option.pure_def, Option.bind_some] at hloop ⊢
        exact hloop
      · have hlen : send.keys.length = send.lens.length := by
          rcases hv.given with ⟨hnil, -⟩ | ⟨hlen, -⟩
          · exact absurd hnil hl
          · exact hlen.symm
        simp only [hl, if_false, hlen, guard_true, Option.pure_def, Option.bind_some] at hloop ⊢
        exact hloop
  · simp [hall]

theorem Contiguous.all_contained_iff (h : Contiguous 0 ranges) (keys : List Key) :
    lowerBound keys (lastStop 0 ranges) = keys.length ↔ ∀ key ∈ keys, ∃ r ∈ ranges, r.Contains key := by
  rw [lowerBound_eq_cut, List.cut_eq_length_iff]
  refine forall₂_congr fun key _ => ?_
  rw [h.exists_contains_iff, UInt64.lt_iff_toNat_lt, UInt64.le_iff_toNat_le]
  exact (and_iff_right (Nat.zero_le _)).symm

theorem filter_contains {α : Type*} {f : α → Key} {l : List α} (hl : (l.map f).Pairwise (· < ·)) {r : Range}
    (hr : r.start ≤ r.stop) :
    l.filter (fun a => r.Contains (f a)) =
      l.between (lowerBound (l.map f) r.start) (lowerBound (l.map f) r.stop) := by
  have hsorted : l.Pairwise fun a b => (f a).toNat < (f b).toNat :=
    (List.pairwise_map.mp hl).imp fun h => UInt64.lt_iff_toNat_lt.mp h
  rw [lowerBound_eq_cut, lowerBound_eq_cut, List.cut_map, List.cut_map,
    ← List.filter_eq_between hsorted (UInt64.le_iff_toNat_le.mp hr)]
  refine List.filter_congr fun a _ => ?_
  simp only [Range.Contains, UInt64.lt_iff_toNat_lt, UInt64.le_iff_toNat_le]

theorem Contiguous.start_le_stop (h : Contiguous b ranges) {r : Range} (hr : r ∈ ranges) :
    r.start ≤ r.stop := by
  induction ranges generalizing b with
  | nil => cases hr
  | cons r' ranges ih =>
    rcases List.mem_cons.mp hr with rfl | hr
    · exact h.2.1
    · exact ih h.2.2 hr

/-- A slice: the keys of the range, each with its own values and length. -/
structure IsSlice (send : KVPairs) (r : Range) (s : Bool × KVPairs) : Prop where
  keys : s.2.keys = send.keys.filter fun key => r.Contains key
  entries : s.2.entries = send.entries.filter fun e => r.Contains e.1
  lens : s.2.keys.zip s.2.lens = (send.keys.zip send.lens).filter fun e => r.Contains e.1
  lens_length : send.lens ≠ [] → s.2.lens.length = s.2.keys.length
  flag : s.1 = true ↔ s.2.keys ≠ []

theorem isSlice_sliceOf (hv : send.Valued) (hkeys : send.keys.Pairwise (· < ·)) {r : Range}
    (hr : r.start ≤ r.stop) : IsSlice send r (send.sliceOf (r.positions send.keys)) := by
  have hle := lowerBound_le_lowerBound hr send.keys
  have hstop := lowerBound_le_length send.keys r.stop
  have hk := filter_contains (f := id) (by simpa using hkeys) hr
  have he := filter_contains (f := Prod.fst) (l := send.entries)
    (by rwa [KVPairs.map_fst_entries hv]) hr
  rw [KVPairs.map_fst_entries hv] at he
  simp only [id, List.map_id] at hk
  have hl : (send.keys.zip send.lens).filter (fun e => r.Contains e.1) =
      (send.keys.zip send.lens).between (lowerBound send.keys r.start) (lowerBound send.keys r.stop) := by
    rcases hv.given with ⟨hnil, -⟩ | ⟨hlen, -⟩
    · simp [hnil, between]
    · have hmap : (send.keys.zip send.lens).map Prod.fst = send.keys := List.map_fst_zip (by omega)
      have := filter_contains (f := Prod.fst) (l := send.keys.zip send.lens) (by rwa [hmap]) hr
      rwa [hmap] at this
  by_cases heq : lowerBound send.keys r.stop = lowerBound send.keys r.start
  · rw [show send.sliceOf (r.positions send.keys) = (false, {}) from if_pos heq]
    rw [heq, List.between_self] at hk he hl
    exact ⟨hk.symm, he.symm, hl.symm, fun _ => rfl, by simp⟩
  · rw [show send.sliceOf (r.positions send.keys) = (true, send.slice (lowerBound send.keys r.start)
      (lowerBound send.keys r.stop)) from if_neg heq]
    have hlen : (send.keys.between (lowerBound send.keys r.start) (lowerBound send.keys r.stop)).length =
        lowerBound send.keys r.stop - lowerBound send.keys r.start := List.length_between hstop
    refine ⟨hk.symm, ?_, ?_, fun hne => ?_, ?_⟩
    · rw [he]
      exact KVPairs.entries_slice hv (by omega) hstop
    · rw [hl, between_zip]
      rfl
    · have hlens : send.lens.length = send.keys.length := by
        rcases hv.given with ⟨hnil, -⟩ | ⟨hlens, -⟩
        · exact absurd hnil hne
        · exact hlens
      show (send.lens.between _ _).length = _
      rw [List.length_between (hlens ▸ hstop)]
      exact hlen.symm
    · refine iff_of_true rfl (List.ne_nil_of_length_pos ?_)
      show 0 < (send.keys.between _ _).length
      rw [hlen]
      omega

theorem snd_sliceOf {β : Type*} (f : KVPairs → β) (hf : ∀ p, f (send.slice p p) = f {}) (pos : Nat × Nat) :
    f (send.sliceOf pos).2 = f (send.slice pos.1 pos.2) := by
  unfold KVPairs.sliceOf
  split_ifs with heq
  · rw [heq, hf]
  · rfl

theorem keys_sliceOf (send : KVPairs) (pos : Nat × Nat) :
    (send.sliceOf pos).2.keys = send.keys.between pos.1 pos.2 :=
  snd_sliceOf (·.keys) (fun p => List.between_self _ p) pos

theorem lens_sliceOf (send : KVPairs) (pos : Nat × Nat) :
    (send.sliceOf pos).2.lens = send.lens.between pos.1 pos.2 :=
  snd_sliceOf (·.lens) (fun p => List.between_self _ p) pos

theorem elems_sliceOf (send : KVPairs) (pos : Nat × Nat) :
    (send.sliceOf pos).2.vals.elems = ((blocks send.vals.ptr send.widths).between pos.1 pos.2).flatten := by
  rw [snd_sliceOf (·.vals.elems) (fun p => ?_) pos, KVPairs.elems_slice]
  rw [KVPairs.elems_slice, List.between_self]
  rfl

theorem Contiguous.flatMap_positions {α : Type*} (h : Contiguous 0 ranges) {keys : List Key}
    (hall : lowerBound keys (lastStop 0 ranges) = keys.length) {l : List α} (hl : l.length = keys.length) :
    ranges.flatMap (fun r => l.between (r.positions keys).1 (r.positions keys).2) = l := by
  rw [show (fun r : Range => l.between (r.positions keys).1 (r.positions keys).2) = fun r =>
    l.between (lowerBound keys r.start) (lowerBound keys r.stop) from rfl, h.flatMap_between keys l,
    lowerBound_zero, hall, ← hl, List.between_zero_length]

theorem Contiguous.flatMap_sliceOf (h : Contiguous 0 ranges) (hv : send.Valued)
    (hall : lowerBound send.keys (lastStop 0 ranges) = send.keys.length) :
    ranges.flatMap (fun r => (send.sliceOf (r.positions send.keys)).2.keys) = send.keys ∧
      ranges.flatMap (fun r => (send.sliceOf (r.positions send.keys)).2.vals.elems) = send.vals.elems ∧
      ranges.flatMap (fun r => (send.sliceOf (r.positions send.keys)).2.lens) = send.lens := by
  refine ⟨?_, ?_, ?_⟩
  · simp only [keys_sliceOf]
    exact h.flatMap_positions hall rfl
  · simp only [elems_sliceOf]
    have hblocks := h.flatMap_positions hall
      (show (blocks send.vals.ptr send.widths).length = send.keys.length by
        rw [length_blocks, hv.length_widths])
    rw [SArray.elems, ← hv.sum_widths, ← flatten_blocks, ← hblocks, ← List.flatMap_id, List.flatMap_assoc]
    simp only [List.flatMap_id, hblocks]
  · simp only [lens_sliceOf]
    rcases hv.given with ⟨hnil, -⟩ | ⟨hlen, -⟩
    · simp [hnil, between]
    · exact h.flatMap_positions hall hlen

end slicer

/-- `DefaultSlicer` on increasing keys and consecutive ranges from 0: if the ranges contain all keys, slice
`i` has the keys in range `i` with their own values and lengths and is sent if there are any, and the slices
in order make up the list; a key outside fails a check. -/
theorem defaultSlice_partitions (send : KVPairs) (ranges : List Range) (hkeys : send.keys.Pairwise (· < ·))
    (hranges : Contiguous 0 ranges) (hvals : send.Valued) :
    ((∀ key ∈ send.keys, ∃ r ∈ ranges, r.Contains key) →
      ∃ sliced, defaultSlice send ranges = some sliced ∧ sliced.length = ranges.length ∧
        (∀ (i : Nat) r s, ranges[i]? = some r → sliced[i]? = some s → IsSlice send r s) ∧
        sliced.flatMap (·.2.keys) = send.keys ∧
        sliced.flatMap (·.2.vals.elems) = send.vals.elems ∧
        sliced.flatMap (·.2.lens) = send.lens) ∧
    ((∃ key ∈ send.keys, ∀ r ∈ ranges, ¬ r.Contains key) → defaultSlice send ranges = none) := by
  rw [hranges.defaultSlice_eq hvals, ← hranges.all_contained_iff]
  constructor
  · intro hall
    obtain ⟨hk, he, hl⟩ := hranges.flatMap_sliceOf hvals hall
    refine ⟨_, if_pos hall, List.length_map _, fun i r s hr hs => ?_, ?_⟩
    · rw [List.getElem?_map, hr] at hs
      obtain rfl := Option.some.inj hs
      exact isSlice_sliceOf hvals hkeys (hranges.start_le_stop (List.mem_of_getElem? hr))
    · simp only [List.flatMap_map]
      exact ⟨hk, he, hl⟩
  · rintro ⟨key, hkey, hout⟩
    refine if_neg fun hall => ?_
    obtain ⟨r, hr, hin⟩ := (hranges.all_contained_iff send.keys).mp hall key hkey
    exact hout r hr hin

/-- Two keys to the first of three servers, whose second has no range, one to the last. -/
theorem defaultSlice_partitions_three :
    ∃ sliced, defaultSlice { keys := [3, 7, 9], vals := { ptr := 64, size := 3 }, lens := [1, 0, 2] }
        [⟨0, 8⟩, ⟨8, 8⟩, ⟨8, 20⟩] = some sliced ∧
      sliced.map (fun s => (s.1, s.2.keys)) = [(true, [3, 7]), (false, []), (true, [9])] ∧
      sliced.flatMap (·.2.vals.elems) = [64, 65, 66] := by
  obtain ⟨sliced, hs, -, -, -, hvals, -⟩ := (defaultSlice_partitions
    { keys := [3, 7, 9], vals := { ptr := 64, size := 3 }, lens := [1, 0, 2] } [⟨0, 8⟩, ⟨8, 8⟩, ⟨8, 20⟩]
    (by decide) (by simp [Contiguous]) ⟨by decide, .inr (by decide)⟩).1 (by simp [Range.Contains])
  refine ⟨sliced, hs, ?_, hvals⟩
  have heval : (defaultSlice { keys := [3, 7, 9], vals := { ptr := 64, size := 3 }, lens := [1, 0, 2] }
      [⟨0, 8⟩, ⟨8, 8⟩, ⟨8, 20⟩]).map (·.map fun s => (s.1, s.2.keys)) =
      some [(true, [3, 7]), (false, []), (true, [9])] := by decide
  rw [hs] at heval
  exact Option.some.inj heval

/-! ### The ranges of the servers -/

namespace Postoffice

theorem contiguous_map_range' (f : Nat → UInt64) (j m : Nat) (hf : ∀ i, j ≤ i → i < j + m → f i ≤ f (i + 1)) :
    Contiguous (f j) ((List.range' j m).map fun i => ⟨f i, f (i + 1)⟩) ∧
      lastStop (f j) ((List.range' j m).map fun i => ⟨f i, f (i + 1)⟩) = f (j + m) := by
  induction m generalizing j with
  | zero => exact ⟨trivial, rfl⟩
  | succ m ih =>
    obtain ⟨hcont, hlast⟩ := ih (j + 1) fun i hi hi' => hf i (by omega) (by omega)
    rw [List.range'_succ, List.map_cons]
    refine ⟨⟨rfl, hf j (Nat.le_refl j) (by omega), hcont⟩, hlast.trans ?_⟩
    congr 1
    omega

variable {po : Postoffice}

theorem toNat_keyBound (hn : po.numServers < 2 ^ 31) {i : Nat} (hi : i ≤ po.numServers) :
    (kMaxKey / .ofNat po.numServers * .ofNat i).toNat = (2 ^ 64 - 1) / po.numServers * i := by
  have hle : (2 ^ 64 - 1) / po.numServers * i ≤ 2 ^ 64 - 1 :=
    Nat.le_trans (Nat.mul_le_mul_left _ hi) (Nat.div_mul_le_self ..)
  have hmax : kMaxKey.toNat = 2 ^ 64 - 1 := by decide
  rw [UInt64.toNat_mul, UInt64.toNat_div, UInt64.toNat_ofNat', UInt64.toNat_ofNat', hmax,
    Nat.mod_eq_of_lt (by omega : po.numServers < 2 ^ 64), Nat.mod_eq_of_lt (by omega : i < 2 ^ 64),
    Nat.mod_eq_of_lt (by omega)]

theorem getElem?_getServerKeyRanges {i : Nat} {r : Range} (h : po.getServerKeyRanges[i]? = some r) :
    i < po.numServers ∧ r = ⟨kMaxKey / .ofNat po.numServers * .ofNat i,
      kMaxKey / .ofNat po.numServers * .ofNat (i + 1)⟩ := by
  have hi : i < po.numServers := by
    have := (List.getElem?_eq_some_iff.mp h).1
    rwa [length_getServerKeyRanges] at this
  refine ⟨hi, ?_⟩
  rw [getServerKeyRanges, List.getElem?_map, List.getElem?_range hi] at h
  exact (Option.some.inj h).symm

theorem contiguous_getServerKeyRanges (hn : po.numServers < 2 ^ 31) :
    Contiguous 0 po.getServerKeyRanges ∧
      lastStop 0 po.getServerKeyRanges = kMaxKey / .ofNat po.numServers * .ofNat po.numServers := by
  have h := contiguous_map_range' (fun i => kMaxKey / .ofNat po.numServers * .ofNat i) 0 po.numServers
    fun i _ hi => by
      rw [UInt64.le_iff_toNat_le, toNat_keyBound hn (by omega), toNat_keyBound hn (by omega)]
      exact Nat.mul_le_mul_left _ (Nat.le_succ i)
  have hzero : kMaxKey / .ofNat po.numServers * UInt64.ofNat 0 = 0 := by simp
  simpa only [getServerKeyRanges, List.range_eq_range', hzero, Nat.zero_add] using h

/-- The key ranges of `n` servers do not overflow and are consecutive and disjoint, but they end below
`kMaxKey`: a key is in one of them, and can be sliced, exactly if it is less than the largest multiple of
`kMaxKey / n` up to `n`. -/
theorem getServerKeyRanges_cover_iff (po : Postoffice) (hn : po.numServers < 2 ^ 31) :
    (∀ (i : Nat) r, po.getServerKeyRanges[i]? = some r →
      r.start.toNat = (2 ^ 64 - 1) / po.numServers * i ∧
      r.stop.toNat = (2 ^ 64 - 1) / po.numServers * (i + 1)) ∧
    Contiguous 0 po.getServerKeyRanges ∧
    (∀ (i j : Nat) (r r' : Range) key, po.getServerKeyRanges[i]? = some r →
      po.getServerKeyRanges[j]? = some r' → r.Contains key → r'.Contains key → i = j) ∧
    ∀ key : Key,
      ((∃! i : Nat, ∃ r, po.getServerKeyRanges[i]? = some r ∧ r.Contains key) ↔
        key.toNat < (2 ^ 64 - 1) / po.numServers * po.numServers) ∧
      ∀ vals : SArray, vals.size < 2 ^ 64 →
        ((∃ sliced, defaultSlice { keys := [key], vals := vals } po.getServerKeyRanges = some sliced) ↔
          key.toNat < (2 ^ 64 - 1) / po.numServers * po.numServers) := by
  obtain ⟨hcont, hlast⟩ := contiguous_getServerKeyRanges hn
  have hbounds : ∀ (i : Nat) r, po.getServerKeyRanges[i]? = some r →
      r.start.toNat = (2 ^ 64 - 1) / po.numServers * i ∧
      r.stop.toNat = (2 ^ 64 - 1) / po.numServers * (i + 1) := by
    intro i r hr
    obtain ⟨hi, rfl⟩ := getElem?_getServerKeyRanges hr
    exact ⟨toNat_keyBound hn (by omega), toNat_keyBound hn (by omega)⟩
  have hindex : ∀ (i : Nat) (r : Range) key, po.getServerKeyRanges[i]? = some r → r.Contains key →
      key.toNat / ((2 ^ 64 - 1) / po.numServers) = i := by
    intro i r key hr hkey
    obtain ⟨hstart, hstop⟩ := hbounds i r hr
    rw [Range.Contains, UInt64.le_iff_toNat_le, UInt64.lt_iff_toNat_lt, hstart, hstop] at hkey
    exact Nat.div_eq_of_lt_le (by rw [Nat.mul_comm]; exact hkey.1) (by rw [Nat.mul_comm]; exact hkey.2)
  have hcover : ∀ key : Key, (∃ r ∈ po.getServerKeyRanges, r.Contains key) ↔
      key.toNat < (2 ^ 64 - 1) / po.numServers * po.numServers := by
    intro key
    rw [hcont.exists_contains_iff, hlast, UInt64.lt_iff_toNat_lt, toNat_keyBound hn (Nat.le_refl _),
      UInt64.le_iff_toNat_le]
    exact and_iff_right (Nat.zero_le _)
  have hdisj : ∀ (i j : Nat) (r r' : Range) key, po.getServerKeyRanges[i]? = some r →
      po.getServerKeyRanges[j]? = some r' → r.Contains key → r'.Contains key → i = j :=
    fun i j r r' key hr hr' h h' => (hindex i r key hr h).symm.trans (hindex j r' key hr' h')
  refine ⟨hbounds, hcont, hdisj, fun key => ⟨?_, fun vals hvals => ?_⟩⟩
  · rw [← hcover]
    constructor
    · rintro ⟨i, ⟨r, hr, hkey⟩, -⟩
      exact ⟨r, List.mem_of_getElem? hr, hkey⟩
    · rintro ⟨r, hr, hkey⟩
      obtain ⟨i, hi⟩ := List.mem_iff_getElem?.mp hr
      exact ⟨i, ⟨r, hi, hkey⟩, fun j ⟨r', hj, hkey'⟩ => hdisj j i r' r key hj hi hkey' hkey⟩
  · have hvalued : KVPairs.Valued { keys := [key], vals := vals } := ⟨hvals, .inl ⟨rfl, Nat.one_dvd _⟩⟩
    rw [hcont.defaultSlice_eq hvalued, ← hcover]
    have hall := hcont.all_contained_iff [key]
    rw [List.forall_mem_singleton] at hall
    constructor
    · rintro ⟨sliced, hs⟩
      split_ifs at hs with h
      exact hall.mp h
    · intro h
      exact ⟨_, if_pos (hall.mpr h)⟩

/-- A key of the last of three servers. -/
theorem getServerKeyRanges_cover_three :
    ∃! i : Nat, ∃ r, ({ numWorkers := 1, numServers := 3 } : Postoffice).getServerKeyRanges[i]? = some r ∧
      r.Contains 18446744073709551614 :=
  ((getServerKeyRanges_cover_iff { numWorkers := 1, numServers := 3 } (by decide)).2.2.2 _).1.mpr (by decide)

/-- `kMaxKey` itself is in no range. -/
theorem kMaxKey_not_covered :
    (∀ r ∈ ({ numWorkers := 1, numServers := 1 } : Postoffice).getServerKeyRanges, ¬ r.Contains kMaxKey) ∧
      defaultSlice { keys := [kMaxKey], vals := { ptr := 0, size := 1 } }
        ({ numWorkers := 1, numServers := 1 } : Postoffice).getServerKeyRanges = none := by
  decide

end Postoffice

end StepMesh
