import StepMesh.KVSlice
import StepMesh.Lib.ListAux
import StepMesh.Lib.StdSort

/-!
# What the completion routine of `Pull_` puts together (`include/ps/kv_app.h`)

The replies to a pull hold consecutive parts of its keys (`Parts`) and were stored in the order they arrived.
The check of a reply asks for its keys in the half-open range that ends after its last key, so it fails on
the largest key, whose successor is 0 (`findRangeSize_eq`). Without it, the checks pass and the sort on first
keys brings the parts back in order (`completePull_eq`).
-/

namespace StepMesh

/-- Replies that hold the consecutive parts of `keys`. -/
structure Parts (keys : List Key) (parts : List KVPairs) : Prop where
  nonempty : ∀ s ∈ parts, s.keys ≠ []
  keys : parts.flatMap (·.keys) = keys

/-- Room for what the replies hold in the `vals` and `lens` of the caller; a zero-copy worker does not look
at `lens`. -/
def HasRoom (isWorkerZpull : Bool) (keys : List Key) (vals : Nat) (lens : Option Nat) (parts : List KVPairs) :
    Prop :=
  (vals = 0 ∨ (parts.map (·.vals.size)).sum ≤ vals) ∧
    (isWorkerZpull = true ∨ lens.all fun n => n == 0 || n == keys.length)

instance (isWorkerZpull : Bool) (keys : List Key) (vals : Nat) (lens : Option Nat) (parts : List KVPairs) :
    Decidable (HasRoom isWorkerZpull keys vals lens parts) := inferInstanceAs (Decidable (_ ∧ _))

/-- What the caller is to get: `vals` and `lens`, if it asked for them, hold those of the replies one after the
other. -/
structure Fills (vals : Nat) (lens : Option Nat) (parts : List KVPairs) (pulled : Pulled) : Prop where
  size : pulled.size = if vals = 0 then (parts.map (·.vals.size)).sum else vals
  vals : pulled.vals.flatMap (·.elems) = parts.flatMap (·.vals.elems)
  lens : pulled.lens = if lens.isSome then parts.flatMap (·.lens) else []

/-- The routine of a zero-copy worker copies nothing, which is right when there is nothing to copy. -/
def Copies (isWorkerZpull : Bool) (keys : List Key) (lens : Option Nat) (parts : List KVPairs) : Prop :=
  isWorkerZpull = false ∨ (parts.map (·.vals.size)).sum = 0 ∧ (lens = none ∨ keys = [])

instance (isWorkerZpull : Bool) (keys : List Key) (lens : Option Nat) (parts : List KVPairs) :
    Decidable (Copies isWorkerZpull keys lens parts) := inferInstanceAs (Decidable (_ ∨ _ ∧ _))

/-! ### One reply -/

theorem lt_succ_iff {key back : Key} (h : back ≠ kMaxKey) : key < back + 1 ↔ key ≤ back := by
  have hlt := back.toNat_lt
  have hne : back.toNat ≠ 2 ^ 64 - 1 := fun heq => h (UInt64.toNat_inj.mp heq)
  rw [UInt64.lt_iff_toNat_lt, UInt64.le_iff_toNat_le, UInt64.toNat_add, UInt64.toNat_one,
    Nat.mod_eq_of_lt (by omega), Nat.lt_succ_iff]

theorem eq_kMaxKey_of_le {key : Key} (h : kMaxKey ≤ key) : key = kMaxKey := by
  have hlt := key.toNat_lt
  have hle : 2 ^ 64 - 1 ≤ key.toNat := UInt64.le_iff_toNat_le.mp h
  exact UInt64.toNat_inj.mp (show key.toNat = 2 ^ 64 - 1 by omega)

theorem le_getLast {part : List Key} (hpart : part.Pairwise (· < ·)) {back : Key}
    (hback : part.getLast? = some back) {key : Key} (hkey : key ∈ part) : key ≤ back := by
  obtain ⟨init, rfl⟩ := List.getLast?_eq_some_iff.mp hback
  rcases List.mem_append.mp hkey with hkey | hkey
  · exact UInt64.le_of_lt ((List.pairwise_append.mp hpart).2.2 key hkey back List.mem_cons_self)
  · exact List.mem_singleton.mp hkey ▸ UInt64.le_refl _

theorem head_le {part : List Key} (hpart : part.Pairwise (· < ·)) {front : Key}
    (hfront : part.head? = some front) {key : Key} (hkey : key ∈ part) : front ≤ key := by
  obtain ⟨tail, rfl⟩ := List.head?_eq_some_iff.mp hfront
  rcases List.mem_cons.mp hkey with rfl | hkey
  · exact UInt64.le_refl _
  · exact UInt64.le_of_lt ((List.pairwise_cons.mp hpart).1 key hkey)

theorem findRangeSize_eq {pre part post : List Key} (hkeys : (pre ++ (part ++ post)).Pairwise (· < ·))
    {front back : Key} (hfront : part.head? = some front) (hback : part.getLast? = some back) :
    findRangeSize (pre ++ (part ++ post)) front (back + 1) = if back = kMaxKey then 0 else part.length := by
  split_ifs with hmax
  · subst hmax
    exact if_pos (UInt64.le_iff_toNat_le.mpr (Nat.zero_le _))
  obtain ⟨-, hsuffix, hpre⟩ := List.pairwise_append.mp hkeys
  obtain ⟨hpart, -, hpost⟩ := List.pairwise_append.mp hsuffix
  have hfm := List.mem_of_head? hfront
  have hbm := List.mem_of_getLast? hback
  have hlt : front < back + 1 := (lt_succ_iff hmax).mpr (head_le hpart hfront hbm)
  have hfilter : (pre ++ (part ++ post)).filter (fun key => (⟨front, back + 1⟩ : Range).Contains key) = part := by
    have hall : ∀ key ∈ part, (⟨front, back + 1⟩ : Range).Contains key := fun key hkey =>
      ⟨head_le hpart hfront hkey, (lt_succ_iff hmax).mpr (le_getLast hpart hback hkey)⟩
    have hbefore : ∀ key ∈ pre, ¬ (⟨front, back + 1⟩ : Range).Contains key := fun key hkey h =>
      UInt64.not_lt.mpr h.1 (hpre key hkey front (List.mem_append_left _ hfm))
    have hafter : ∀ key ∈ post, ¬ (⟨front, back + 1⟩ : Range).Contains key := fun key hkey h =>
      UInt64.not_lt.mpr ((lt_succ_iff hmax).mp h.2) (hpost back hbm key hkey)
    rw [List.filter_append, List.filter_append, List.filter_eq_nil_iff.mpr (by simpa using hbefore),
      List.filter_eq_self.mpr (by simpa using hall), List.filter_eq_nil_iff.mpr (by simpa using hafter)]
    simp
  have hbetween := filter_contains (f := id) (r := ⟨front, back + 1⟩) (by simpa using hkeys)
    (UInt64.le_of_lt hlt)
  simp only [id, List.map_id, hfilter] at hbetween
  rw [findRangeSize, if_neg (UInt64.not_le.mpr hlt)]
  have hlen := congrArg List.length hbetween
  rw [List.length_between (lowerBound_le_length _ _)] at hlen
  exact hlen.symm

/-! ### The routine -/

section
variable {keys : List Key} {parts kvs : List KVPairs}

theorem Parts.check_eq (hparts : Parts keys parts) (hkeys : keys.Pairwise (· < ·)) {s : KVPairs}
    (hs : s ∈ parts) {lens : Option Nat} (hlens : lens.isSome → s.lens.length = s.keys.length) :
    (do let front ← s.keys.head?
        let back ← s.keys.getLast?
        guard (findRangeSize keys front (back + 1) = s.keys.length)
        guard (lens.isSome → s.lens.length = s.keys.length) : Option Unit) =
      if kMaxKey ∉ s.keys then some () else none := by
  obtain ⟨before, after, rfl⟩ := List.append_of_mem hs
  have hne := hparts.nonempty s hs
  obtain rfl := hparts.keys
  rw [List.flatMap_append, List.flatMap_cons] at hkeys ⊢
  have hpart := (List.pairwise_append.mp (List.pairwise_append.mp hkeys).2.1).1
  have hfront := List.head?_eq_some_head hne
  have hback := List.getLast?_eq_some_getLast hne
  have hmax : s.keys.getLast hne = kMaxKey ↔ kMaxKey ∈ s.keys := by
    constructor
    · exact fun h => h ▸ List.getLast_mem hne
    · exact fun h => eq_kMaxKey_of_le (le_getLast hpart hback h)
  have hpos : s.keys.length ≠ 0 := fun h => hne (List.length_eq_zero_iff.mp h)
  rw [hfront, hback]
  simp only [Option.bind_eq_bind, Option.bind_some, findRangeSize_eq hkeys hfront hback, hmax]
  by_cases hm : kMaxKey ∈ s.keys
  · simp [hm, Ne.symm hpos]
  · simp only [hm, if_false, not_false_eq_true, if_true, guard_true, Option.pure_def, Option.bind_some]
    simpa using hlens

theorem Parts.pairwise_head (hparts : Parts keys parts) (hkeys : keys.Pairwise (· < ·)) :
    parts.Pairwise fun a b => (a.keys.headD 0).toNat < (b.keys.headD 0).toNat := by
  obtain rfl := hparts.keys
  refine (List.pairwise_flatMap.mp hkeys).2.imp_of_mem fun {a b} ha hb h => ?_
  have hhead : ∀ s ∈ parts, s.keys.headD 0 ∈ s.keys := fun s hs => by
    cases hk : s.keys with
    | nil => exact absurd hk (hparts.nonempty s hs)
    | cons => exact List.mem_cons_self
  exact UInt64.lt_iff_toNat_lt.mp (h _ (hhead a ha) _ (hhead b hb))

/-- Whatever order the replies came in and whatever the sort does with equal ones. -/
theorem Parts.sort_eq (hparts : Parts keys parts) (hkeys : keys.Pairwise (· < ·)) (hperm : kvs.Perm parts)
    (S : StdSort KVPairs) : S.sort (fun a b => a.keys.headD 0 < b.keys.headD 0) kvs = parts := by
  have hweak : StrictWeak fun a b : KVPairs => decide (a.keys.headD 0 < b.keys.headD 0) :=
    .of_key (fun s => (s.keys.headD 0).toNat) fun a b => by simp [UInt64.lt_iff_toNat_lt]
  have hsorted := hparts.pairwise_head hkeys
  have hnodup : (parts.map fun s => (s.keys.headD 0).toNat).Nodup :=
    List.pairwise_map.mpr (hsorted.imp Nat.ne_of_lt)
  refine List.Perm.eq_of_pairwise ?_ (S.pairwise hweak kvs) (hsorted.imp fun {a b} h => ?_)
    ((S.perm hweak kvs).trans hperm)
  · intro a b ha hb hba hab
    simp only [decide_eq_false_iff_not, UInt64.not_lt, UInt64.le_iff_toNat_le] at hab hba
    exact List.inj_on_of_nodup_map hnodup (((S.perm hweak kvs).trans hperm).mem_iff.mp ha) hb
      (Nat.le_antisymm hba hab)
  · simp only [decide_eq_false_iff_not, UInt64.lt_iff_toNat_lt]
    omega

/-- The routine fails its checks exactly on the largest key or for lack of room. -/
theorem completePull_eq (hkeys : keys.Pairwise (· < ·)) (hparts : Parts keys parts) (hperm : kvs.Perm parts)
    (isWorkerZpull : Bool) (vals : Nat) {lens : Option Nat}
    (hlens : lens.isSome → ∀ s ∈ parts, s.lens.length = s.keys.length) :
    completePull isWorkerZpull keys vals lens kvs =
      if kMaxKey ∉ keys ∧ HasRoom isWorkerZpull keys vals lens parts then
        let size := if vals = 0 then (parts.map (·.vals.size)).sum else vals
        some (if isWorkerZpull then { size } else
          { size, vals := parts.map (·.vals), lens := if lens.isSome then parts.flatMap (·.lens) else [] })
      else none := by
  have hchecks := List.forM_option_eq_ite (l := kvs) (fun s => kMaxKey ∉ s.keys) fun s hs =>
    hparts.check_eq hkeys (hperm.mem_iff.mp hs) fun hl => hlens hl s (hperm.mem_iff.mp hs)
  have hmax : (∀ s ∈ kvs, kMaxKey ∉ s.keys) ↔ kMaxKey ∉ keys := by
    rw [← hparts.keys, List.mem_flatMap]
    simp only [hperm.mem_iff, not_exists, not_and]
  have htotal : (kvs.map (·.keys.length)).sum = keys.length := by
    rw [(hperm.map _).sum_eq, ← hparts.keys, List.length_flatMap]
  have hsort : (kvs.insertionSort fun a b => a.keys.headD 0 ≤ b.keys.headD 0) = parts := by
    have := hparts.sort_eq hkeys hperm .insertion
    simpa only [StdSort.insertion, decide_eq_false_iff_not, UInt64.not_lt] using this
  rw [completePull, hchecks]
  simp only [hmax, htotal, (hperm.map _).sum_eq, hsort, guard_true, HasRoom]
  by_cases h : kMaxKey ∈ keys
  · simp [h]
  by_cases hv : vals = 0 ∨ (parts.map (·.vals.size)).sum ≤ vals
  · cases isWorkerZpull with
    | true => simp [h, hv]
    | false => by_cases hl : lens.all fun n => n == 0 || n == keys.length <;> simp [h, hv, hl]
  · simp [h, hv]

end

/-! ### After slicing -/

/-- What is sent of a sliced list. -/
def sentSlices (sliced : List (Bool × KVPairs)) : List KVPairs := (sliced.filter (·.1)).map (·.2)

theorem flatMap_sentSlices {β : Type*} {sliced : List (Bool × KVPairs)} (f : KVPairs → List β)
    (h : ∀ s ∈ sliced, s.1 = false → f s.2 = []) :
    (sentSlices sliced).flatMap f = sliced.flatMap fun s => f s.2 := by
  induction sliced with
  | nil => rfl
  | cons s sliced ih =>
    obtain ⟨hs, hrest⟩ := List.forall_mem_cons.mp h
    have := ih hrest
    rw [sentSlices] at this ⊢
    cases hflag : s.1 with
    | true => rw [List.filter_cons_of_pos hflag, List.map_cons, List.flatMap_cons, this, List.flatMap_cons]
    | false => rw [List.filter_cons_of_neg (by simp [hflag]), this, List.flatMap_cons, hs hflag, List.nil_append]

section
variable {send : KVPairs} {ranges : List Range} {sliced : List (Bool × KVPairs)}

theorem sliceOf_of_flag (pos : Nat × Nat) (h : (send.sliceOf pos).1 = false) : (send.sliceOf pos).2 = {} := by
  unfold KVPairs.sliceOf at h ⊢
  split_ifs at h ⊢
  rfl

theorem parts_sentSlices (hkeys : send.keys.Pairwise (· < ·)) (hranges : Contiguous 0 ranges)
    (hvals : send.Valued) (hs : defaultSlice send ranges = some sliced) :
    Parts send.keys (sentSlices sliced) ∧ (∀ key ∈ send.keys, ∃ r ∈ ranges, r.Contains key) ∧
      (sentSlices sliced).flatMap (·.vals.elems) = send.vals.elems ∧
      (sentSlices sliced).flatMap (·.lens) = send.lens ∧
      (send.lens ≠ [] → ∀ s ∈ sentSlices sliced, s.lens.length = s.keys.length) := by
  rw [hranges.defaultSlice_eq hvals] at hs
  split_ifs at hs with hall
  obtain rfl := Option.some.inj hs
  obtain ⟨hk, he, hl⟩ := hranges.flatMap_sliceOf hvals hall
  have hnil : ∀ s ∈ ranges.map fun r => send.sliceOf (r.positions send.keys), s.1 = false → s.2 = {} := by
    intro s hs hflag
    obtain ⟨r, -, rfl⟩ := List.mem_map.mp hs
    exact sliceOf_of_flag _ hflag
  have hslice : ∀ s ∈ sentSlices (ranges.map fun r => send.sliceOf (r.positions send.keys)),
      ∃ r, IsSlice send r (true, s) := by
    intro s hs
    obtain ⟨⟨flag, _⟩, hmem, rfl⟩ := List.mem_map.mp hs
    obtain ⟨hmem, hflag⟩ := List.mem_filter.mp hmem
    obtain rfl : flag = true := hflag
    obtain ⟨r, hr, hs⟩ := List.mem_map.mp hmem
    exact ⟨r, hs ▸ isSlice_sliceOf hvals hkeys (hranges.start_le_stop hr)⟩
  refine ⟨⟨fun s hs => ?_, ?_⟩, (hranges.all_contained_iff _).mp hall, ?_, ?_, fun hne s hs => ?_⟩
  · obtain ⟨r, h⟩ := hslice s hs
    exact h.flag.mp rfl
  · rw [flatMap_sentSlices _ fun s hs hflag => by rw [hnil s hs hflag], List.flatMap_map]
    exact hk
  · rw [flatMap_sentSlices _ fun s hs hflag => by rw [hnil s hs hflag]; rfl, List.flatMap_map]
    exact he
  · rw [flatMap_sentSlices _ fun s hs hflag => by rw [hnil s hs hflag], List.flatMap_map]
    exact hl
  · obtain ⟨r, h⟩ := hslice s hs
    exact h.lens_length hne

/-- A pull with the keys of a sliced list puts it together again. -/
theorem completePull_sentSlices (hkeys : send.keys.Pairwise (· < ·)) (hranges : Contiguous 0 ranges)
    (hvals : send.Valued) (hs : defaultSlice send ranges = some sliced) {kvs : List KVPairs}
    (hperm : kvs.Perm (sentSlices sliced)) :
    ∃ pulled, completePull false send.keys 0 (if send.lens = [] then none else some 0) kvs = some pulled ∧
      pulled.size = send.vals.size ∧ pulled.vals.flatMap (·.elems) = send.vals.elems ∧
      pulled.lens = send.lens := by
  obtain ⟨hparts, hin, he, hl, hll⟩ := parts_sentSlices hkeys hranges hvals hs
  have hmax : kMaxKey ∉ send.keys := by
    intro hmem
    obtain ⟨r, -, -, hstop⟩ := hin _ hmem
    exact absurd (eq_kMaxKey_of_le (UInt64.le_of_lt hstop)) (UInt64.ne_of_lt hstop).symm
  have hsize : ((sentSlices sliced).map (·.vals.size)).sum = send.vals.size := by
    have := congrArg List.length he
    simpa [List.length_flatMap, SArray.elems] using this
  by_cases hnil : send.lens = []
  · rw [if_pos hnil, completePull_eq hkeys hparts hperm false 0 (by simp)]
    refine ⟨_, if_pos ⟨hmax, .inl rfl, .inr rfl⟩, hsize, ?_, hnil.symm⟩
    simpa [List.flatMap_map] using he
  · rw [if_neg hnil, completePull_eq hkeys hparts hperm false 0 fun _ => hll hnil]
    refine ⟨_, if_pos ⟨hmax, .inl rfl, .inr rfl⟩, hsize, ?_, hl⟩
    simpa [List.flatMap_map] using he

end

theorem Parts.eq_nil_iff {keys : List Key} {parts : List KVPairs} (hparts : Parts keys parts) :
    keys = [] ↔ parts = [] := by
  rw [← hparts.keys, List.flatMap_eq_nil_iff]
  refine ⟨fun h => List.eq_nil_iff_forall_not_mem.mpr fun s hs => hparts.nonempty s hs (h s hs), ?_⟩
  rintro rfl s hs
  cases hs

theorem Parts.fills_nil_iff {keys : List Key} {parts : List KVPairs} (hparts : Parts keys parts) (vals : Nat)
    {lens : Option Nat} (hlens : lens.isSome → ∀ s ∈ parts, s.lens.length = s.keys.length) :
    Fills vals lens parts { size := if vals = 0 then (parts.map (·.vals.size)).sum else vals } ↔
      (parts.map (·.vals.size)).sum = 0 ∧ (lens = none ∨ keys = []) := by
  have hvals : parts.flatMap (·.vals.elems) = [] ↔ (parts.map (·.vals.size)).sum = 0 := by
    rw [← List.length_eq_zero_iff, List.length_flatMap]
    simp [SArray.elems]
  have hnil : lens.isSome → (parts.flatMap (·.lens) = [] ↔ keys = []) := by
    intro hsome
    rw [hparts.eq_nil_iff, List.flatMap_eq_nil_iff]
    refine ⟨fun h => List.eq_nil_iff_forall_not_mem.mpr fun s hs => hparts.nonempty s hs ?_, ?_⟩
    · rw [← List.length_eq_zero_iff, ← hlens hsome s hs, h s hs, List.length_nil]
    · rintro rfl s hs
      cases hs
  constructor
  · rintro ⟨-, hv, hl⟩
    refine ⟨hvals.mp hv.symm, ?_⟩
    cases lens with
    | none => exact .inl rfl
    | some n => exact .inr ((hnil rfl).mp hl.symm)
  · rintro ⟨hv, hl⟩
    refine ⟨rfl, (hvals.mpr hv).symm, ?_⟩
    cases lens with
    | none => rfl
    | some n => exact ((hnil rfl).mpr (hl.resolve_left (Option.some_ne_none n))).symm

/-- Replies with the consecutive parts of increasing keys, in any order: the completion routine of `Pull_`
passes its checks and fills `vals` and `lens` in the order of the keys exactly if the largest key is not
among them, what the caller passed has room and the worker is none that copies nothing, for any sort; it puts
together what `DefaultSlicer` cut. -/
theorem completePull_fills_iff (keys : List Key) (hkeys : keys.Pairwise (· < ·)) (parts kvs : List KVPairs)
    (hparts : Parts keys parts) (hperm : kvs.Perm parts) (isWorkerZpull : Bool) (vals : Nat) (lens : Option Nat)
    (hlens : lens.isSome → ∀ s ∈ parts, s.lens.length = s.keys.length) :
    ((∃ pulled, completePull isWorkerZpull keys vals lens kvs = some pulled ∧ Fills vals lens parts pulled) ↔
      kMaxKey ∉ keys ∧ HasRoom isWorkerZpull keys vals lens parts ∧ Copies isWorkerZpull keys lens parts) ∧
    (∀ S : StdSort KVPairs, S.sort (fun a b => a.keys.headD 0 < b.keys.headD 0) kvs = parts) ∧
    ∀ (send : KVPairs) (ranges : List Range) (sliced : List (Bool × KVPairs)), send.keys = keys →
      Contiguous 0 ranges → send.Valued → defaultSlice send ranges = some sliced →
      ∀ kvs' : List KVPairs, kvs'.Perm (sentSlices sliced) →
        ∃ pulled, completePull false keys 0 (if send.lens = [] then none else some 0) kvs' = some pulled ∧
          pulled.size = send.vals.size ∧ pulled.vals.flatMap (·.elems) = send.vals.elems ∧
          pulled.lens = send.lens := by
  refine ⟨?_, hparts.sort_eq hkeys hperm, ?_⟩
  · rw [completePull_eq hkeys hparts hperm isWorkerZpull vals hlens, ← and_assoc]
    simp only [Option.ite_none_right_eq_some, Option.some.injEq, and_assoc, exists_and_left, exists_eq_left']
    refine and_congr_right fun _ => and_congr_right fun _ => ?_
    cases isWorkerZpull with
    | true => simpa [Copies] using hparts.fills_nil_iff vals hlens
    | false => exact iff_of_true ⟨rfl, List.flatMap_map .., rfl⟩ (.inl rfl)
  · rintro send ranges sliced rfl hranges hvals hs kvs' hperm'
    exact completePull_sentSlices hkeys hranges hvals hs hperm'

/-- Two replies that came in the wrong order. -/
theorem completePull_fills_two : ∃ pulled,
    completePull false [3, 7, 9] 0 (some 0)
        [{ keys := [9], vals := { ptr := 80, size := 2 }, lens := [2] },
          { keys := [3, 7], vals := { ptr := 64, size := 1 }, lens := [1, 0] }] = some pulled ∧
      Fills 0 (some 0) [{ keys := [3, 7], vals := { ptr := 64, size := 1 }, lens := [1, 0] },
        { keys := [9], vals := { ptr := 80, size := 2 }, lens := [2] }] pulled :=
  (completePull_fills_iff [3, 7, 9] (by decide)
    [{ keys := [3, 7], vals := { ptr := 64, size := 1 }, lens := [1, 0] },
      { keys := [9], vals := { ptr := 80, size := 2 }, lens := [2] }] _ ⟨by decide, by decide⟩ (.swap ..)
    false 0 (some 0) (by decide)).1.mpr (by decide)

/-- The reply to a pull of the largest key fails the check on the number of its keys, and a zero-copy worker is
left without values and lengths. -/
theorem completePull_kMaxKey :
    (Parts [kMaxKey] [{ keys := [kMaxKey], vals := { ptr := 64, size := 1 }, lens := [1] }] ∧
      completePull false [kMaxKey] 0 (some 0)
        [{ keys := [kMaxKey], vals := { ptr := 64, size := 1 }, lens := [1] }] = none) ∧
    Parts [3, 7] [{ keys := [3, 7], vals := { ptr := 64, size := 2 }, lens := [1, 1] }] ∧
      completePull true [3, 7] 0 (some 0)
        [{ keys := [3, 7], vals := { ptr := 64, size := 2 }, lens := [1, 1] }] = some { size := 2 } :=
  ⟨⟨⟨by decide, by decide⟩, by decide⟩, ⟨by decide, by decide⟩, by decide⟩

end StepMesh
