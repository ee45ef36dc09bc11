import StepMesh.HashMapSpec

/-!
# The calls of the hash map

`Inv` holds between calls. What a call does is said in terms of the pairs: a new one comes at the end, and the last
one goes to the place of one that is erased.
-/

namespace StepMesh.Emhash8

namespace HashMap

variable {K V : Type} {hashKey : K → Nat} {t : HashMap K V}

/-! ### Rehashing -/

/-- The hashes of the pairs by their places. -/
def occOf (hashKey : K → Nat) (pairs : List (K × V)) (i : Nat) : Option Nat := pairs[i]?.map fun kv => hashKey kv.1

theorem occOf_eq_some {pairs : List (K × V)} {i h : Nat} :
    occOf hashKey pairs i = some h ↔ ∃ kv, pairs[i]? = some kv ∧ hashKey kv.1 = h := by
  simp [occOf]

theorem occOf_concat (pairs : List (K × V)) (kv : K × V) :
    occOf hashKey (pairs ++ [kv]) = Function.update (occOf hashKey pairs) pairs.length (some (hashKey kv.1)) := by
  funext i
  by_cases hi : i = pairs.length
  · subst hi
    simp [occOf]
  · rw [Function.update_of_ne hi]
    rcases Nat.lt_or_gt_of_ne hi with hlt | hgt
    · simp [occOf, List.getElem?_append_left hlt]
    · simp [occOf, List.getElem?_eq_none (show (pairs ++ [kv]).length ≤ i by simp; omega),
        List.getElem?_eq_none (show pairs.length ≤ i by omega)]

theorem Stored.exists_isEmpty {pairs : List (K × V)} {cell : Nat → Option (Nat × Nat)} {chain : Nat → List Nat}
    (hst : Stored hashKey t (occOf hashKey pairs) cell chain) (hlt : pairs.length < t.numBuckets) :
    ∃ e < t.numBuckets, (t.index e).isEmpty := by
  refine hst.laid.exists_isEmpty hlt (fun b i h hc => ?_) (fun b b' i h h' hc hc' => hst.placed.inj hc hc')
  obtain ⟨kv, hkv, -⟩ := occOf_eq_some.mp (hst.placed.sound hc)
  exact (List.getElem?_eq_some_iff.mp hkv).1

theorem double_spec {required : Nat} (hreq : required ≤ 2 ^ 31) : ∀ fuel k, k ≤ 31 → 32 - k ≤ fuel →
    ∃ k', k ≤ k' ∧ k' ≤ 31 ∧ double required fuel (2 ^ k) = some (2 ^ k') ∧ required ≤ 2 ^ k' := by
  intro fuel
  induction fuel with
  | zero => intro k hk hfuel; omega
  | succ fuel ih =>
    intro k hk hfuel
    rw [double]
    split_ifs with hlt
    · have hk31 : k ≠ 31 := by rintro rfl; omega
      obtain ⟨k', hle, hle', heq, hge⟩ := ih (k + 1) (by omega) (by omega)
      exact ⟨k', by omega, hle', by rwa [Nat.pow_succ] at heq, hge⟩
    · exact ⟨k, le_refl k, hk, rfl, not_lt.mp hlt⟩

theorem rehashSlot_spec {j : Nat} {kv : K × V} {cell : Nat → Option (Nat × Nat)} {chain : Nat → List Nat}
    (hst : Stored hashKey t (occOf hashKey (t.pairs.take j)) cell chain) (hkv : t.pairs[j]? = some kv)
    (hlt : t.numFilled ≤ t.numBuckets) :
    ∃ index last cell chain, t.rehashSlot hashKey j = some { t with index, last } ∧
      Stored hashKey { t with index, last } (occOf hashKey (t.pairs.take (j + 1))) cell chain := by
  have hj : j < t.pairs.length := (List.getElem?_eq_some_iff.mp hkv).1
  have hjnb : j < t.numBuckets := lt_of_lt_of_le hj hlt
  have hlen : (t.pairs.take j).length = j := by simp; omega
  obtain ⟨b, index, last, hfind, hready⟩ :=
    findUniqueBucket_spec hst (hst.exists_isEmpty (by rw [hlen]; exact hjnb)) (hashKey kv.1)
  obtain ⟨cell', chain', hl, hp, hcell⟩ := hready.fill j hjnb (by simp [occOf])
  have hb : b < t.numBuckets := hready.lt
  have hocc : occOf hashKey (t.pairs.take (j + 1))
      = Function.update (occOf hashKey (t.pairs.take j)) j (some (hashKey kv.1)) := by
    rw [List.take_add_one, hkv, Option.toList_some, occOf_concat, hlen]
  refine ⟨Function.update index b (LaidOut.entry t.numBuckets b j (hashKey kv.1)), last, cell', chain',
    ?_, ?_, hl, ?_, ?_⟩
  · simp only [rehashSlot, hkv, Option.bind_eq_bind, Option.bind_some, hfind]
    rw [setIndex_eq]
    · simp [LaidOut.entry, hst.shape.mask]
    · exact hb
  · refine hready.shape.of_index rfl rfl fun x hx => Function.update_of_ne ?_ _ _
    exact (lt_of_lt_of_le hb hx).ne'
  · rwa [hocc]
  · intro i h hi
    obtain ⟨kv', hkv', hh⟩ := occOf_eq_some.mp hi
    rw [List.getElem?_take] at hkv'
    split_ifs at hkv'
    exact ⟨kv', hkv', hh⟩

theorem foldlM_rehashSlot_spec (hashKey : K → Nat) (hsh : Shape t) (hempty : ∀ b < t.numBuckets, (t.index b).isEmpty)
    (hlt : t.numFilled ≤ t.numBuckets) : ∀ j ≤ t.numFilled,
    ∃ index last cell chain, (List.range j).foldlM (rehashSlot hashKey) t = some { t with index, last } ∧
      Stored hashKey { t with index, last } (occOf hashKey (t.pairs.take j)) cell chain := by
  intro j
  induction j with
  | zero =>
    have hocc : occOf hashKey (t.pairs.take 0) = fun _ => none := by
      funext i
      simp [occOf]
    refine fun _ => ⟨t.index, t.last, fun _ => none, fun _ => [], rfl, hsh, LaidOut.empty hempty, ?_, ?_⟩
    · exact hocc ▸ Placed.empty
    · intro i h hi
      rw [hocc] at hi
      cases hi
  | succ j ih =>
    intro hj
    obtain ⟨index, last, cell, chain, hfold, hst⟩ := ih (by omega)
    have hkv : t.pairs[j]? = some (t.pairs.get ⟨j, hj⟩) := List.getElem?_eq_getElem hj
    obtain ⟨index', last', cell', chain', hslot, hst'⟩ := rehashSlot_spec hst hkv hlt
    refine ⟨index', last', cell', chain', ?_, hst'⟩
    rw [List.range_succ, List.foldlM_append, hfold]
    simpa using hslot

/-- What holds between calls. -/
structure Inv (hashKey : K → Nat) (t : HashMap K V) : Prop where
  stored : ∃ cell chain, Stored hashKey t (occOf hashKey t.pairs) cell chain ∧
    -- `_etail`, if it is set, is the bucket of the last pair
    (t.etail = INACTIVE ∨ ∃ h, cell t.etail = some (t.numFilled - 1, h))
  capacity : t.capacity = 13421773 * t.numBuckets / 2 ^ 24 + 4
  keys : (t.pairs.map Prod.fst).Nodup

/-- The map with empty buckets, which `rehash` fills. -/
def rebuilt (t : HashMap K V) (nb : Nat) : HashMap K V where
  index b := if b < nb then ⟨INACTIVE, INACTIVE⟩ else ⟨0, 0⟩
  pairs := t.pairs
  capacity := 13421773 * nb / 2 ^ 24 + 4
  mask := nb - 1
  numBuckets := nb
  last := 0
  etail := INACTIVE

theorem rehash_spec (hashKey : K → Nat) (required : Nat) (hkeys : (t.pairs.map Prod.fst).Nodup)
    (hle : t.numFilled ≤ required) (hreq : required < 2 ^ 31) (hfit : 5 * t.numFilled ≤ 4 * required) :
    ∃ t', t.rehash hashKey required = some t' ∧ Inv hashKey t' ∧ t'.pairs = t.pairs ∧ required ≤ t'.numBuckets := by
  obtain ⟨k, hk, hk31, hdouble, hge⟩ : ∃ k, 2 ≤ k ∧ k ≤ 31 ∧
      double required 32 (if t.numFilled > 2 ^ 16 then 2 ^ 16 else 4) = some (2 ^ k) ∧ required ≤ 2 ^ k := by
    split_ifs
    · obtain ⟨k, hk, hk31, hd, hge⟩ := double_spec hreq.le 32 16 (by decide) (by decide)
      exact ⟨k, by omega, hk31, hd, hge⟩
    · exact double_spec hreq.le 32 2 (by decide) (by decide)
  have hshape : Shape (t.rebuilt (2 ^ k)) :=
    ⟨⟨k, hk, hk31, rfl⟩, rfl, fun b hb => by simp [rebuilt, Index.isEmpty, show ¬ b < 2 ^ k from not_lt.mpr hb]⟩
  have hempty : ∀ b < 2 ^ k, ((t.rebuilt (2 ^ k)).index b).isEmpty := by
    intro b hb
    simp [rebuilt, Index.isEmpty, INACTIVE, hb]
  obtain ⟨index, last, cell, chain, hfold, hst⟩ :=
    foldlM_rehashSlot_spec hashKey hshape hempty (hle.trans hge) t.numFilled (le_refl _)
  have hpairs : (t.rebuilt (2 ^ k)).pairs.take t.numFilled = (t.rebuilt (2 ^ k)).pairs := List.take_length
  rw [hpairs] at hst
  refine ⟨_, ?_, ⟨⟨cell, chain, hst, Or.inl rfl⟩, rfl, hkeys⟩, rfl, hge⟩
  have hroom : t.numFilled ≤ 13421773 * 2 ^ k / 2 ^ 24 + 4 := by omega
  have hrebuild : { t with last := 0, mask := 2 ^ k - 1, numBuckets := 2 ^ k }.rebuild (2 ^ k)
      = some { t.rebuilt (2 ^ k) with etail := t.etail } := by
    have hguard : { t with last := 0, mask := 2 ^ k - 1, numBuckets := 2 ^ k }.numFilled
        ≤ 13421773 * 2 ^ k / 2 ^ 24 + 4 := hroom
    simp only [rebuild, guard, hguard, if_true]
    rfl
  simp only [rehash, if_neg (not_lt.mpr hle), guard, hreq, if_true, hdouble, Option.bind_eq_bind, Option.bind_some,
    hrebuild]
  exact hfold

namespace Inv

variable (hinv : Inv hashKey t)
include hinv

theorem shape : Shape t := by
  obtain ⟨cell, chain, hst, -⟩ := hinv.stored
  exact hst.shape

theorem numFilled_le : t.numFilled ≤ t.numBuckets := by
  obtain ⟨cell, chain, hst, -⟩ := hinv.stored
  by_contra hlt
  have hpos : t.numFilled - 1 < t.pairs.length := by
    have : t.numFilled = t.pairs.length := rfl
    omega
  obtain ⟨b, hb⟩ := hst.placed.complete (occOf_eq_some.mpr ⟨_, List.getElem?_eq_getElem hpos, rfl⟩)
  have := (hst.laid.lt hb).2
  omega

end Inv

/-- There is room for one more pair. -/
structure Room (t : HashMap K V) : Prop where
  buckets : t.numFilled < t.numBuckets
  pairs : t.numFilled < t.capacity

theorem checkExpandNeed_spec (hinv : Inv hashKey t) (hlt : t.numFilled < 2 ^ 30) :
    ∃ t', t.checkExpandNeed hashKey = some t' ∧ Inv hashKey t' ∧ t'.pairs = t.pairs ∧ Room t' := by
  have hshift : (167772160 * t.numFilled) >>> 27 = t.numFilled * 5 / 4 := by
    rw [Nat.shiftRight_eq_div_pow]
    omega
  have hroom : ∀ t' : HashMap K V, Inv hashKey t' → t'.pairs = t.pairs → t.numFilled * 5 / 4 + 1 < t'.numBuckets →
      Room t' := by
    intro t' hinv' hpairs hnb
    have hn : t'.numFilled = t.numFilled := by rw [numFilled, hpairs]; rfl
    have hcap := hinv'.capacity
    constructor <;> rw [hn] <;> omega
  simp only [checkExpandNeed, reserve, hshift]
  split_ifs with hmask
  · refine ⟨t, rfl, hinv, rfl, hroom t hinv rfl ?_⟩
    rw [hinv.shape.mask] at hmask
    omega
  · obtain ⟨t', hrehash, hinv', hpairs, hge⟩ := rehash_spec hashKey (t.numFilled * 5 / 4 + 2)
      hinv.keys (by omega) (by omega) (by omega)
    exact ⟨t', hrehash, hinv', hpairs, hroom t' hinv' hpairs (by omega)⟩

theorem init_spec (hashKey : K → Nat) :
    ∃ t : HashMap K V, init hashKey 2 = some t ∧ Inv hashKey t ∧ t.pairs = [] := by
  obtain ⟨t, hrehash, hinv, hpairs, -⟩ := rehash_spec hashKey 2
    (t := { index := fun _ => ⟨0, 0⟩, pairs := [], capacity := 0, mask := 0, numBuckets := 0, last := 0,
            etail := INACTIVE }) List.nodup_nil (Nat.zero_le _) (by decide) (Nat.zero_le _)
  exact ⟨t, hrehash, hinv, hpairs⟩

/-! ### New pairs -/

theorem emhNew_spec {key : K} {b : Nat} (val : V) (hinv : Inv hashKey t) (hroom : Room t) (index : Nat → Index)
    (last : Nat) (hready : Ready { t with index, last } (occOf hashKey t.pairs) b (hashKey key))
    (hkey : key ∉ t.pairs.map Prod.fst) :
    ∃ t', { t with index, last }.emhNew key val b (hashKey key) = some t' ∧ Inv hashKey t' ∧
      t'.pairs = t.pairs ++ [(key, val)] ∧ t'.slotAt b = some t.numFilled := by
  obtain ⟨cell, chain, hl, hp, hcell⟩ := hready.fill t.numFilled hroom.buckets (by simp [occOf, numFilled])
  have hlt : b < t.numBuckets := hready.lt
  have hst : Stored hashKey
      { t with index := Function.update index b (LaidOut.entry t.numBuckets b t.numFilled (hashKey key)), last,
               pairs := t.pairs ++ [(key, val)], etail := b }
      (occOf hashKey (t.pairs ++ [(key, val)])) cell chain := by
    refine ⟨hready.shape.of_index rfl rfl fun x hx => Function.update_of_ne (lt_of_lt_of_le hlt hx).ne' _ _, hl, ?_,
      fun hi => occOf_eq_some.mp hi⟩
    rw [occOf_concat]
    exact hp
  refine ⟨_, ?_, ⟨⟨cell, chain, hst, Or.inr ⟨hashKey key, ?_⟩⟩, hinv.capacity, ?_⟩, rfl, slotAt_cell hl hst.shape hcell⟩
  · have hguard : { t with index, last }.numFilled < t.capacity := hroom.pairs
    simp only [emhNew, guard, hguard, if_true]
    rw [setIndex_eq]
    · simp [LaidOut.entry, hinv.shape.mask, numFilled]
    · exact hlt
  · simpa [numFilled] using hcell
  · rw [List.map_append]
    refine List.nodup_append.mpr ⟨hinv.keys, List.nodup_singleton _, fun a ha b hb => ?_⟩
    rw [List.mem_singleton.mp hb]
    rintro rfl
    exact hkey ha

theorem insertUnique_spec {key : K} (hinv : Inv hashKey t) (hlt : t.numFilled < 2 ^ 30)
    (hkey : key ∉ t.pairs.map Prod.fst) (val : V) :
    ∃ t' b, t.insertUnique hashKey key val = some (t', b) ∧ Inv hashKey t' ∧ t'.pairs = t.pairs ++ [(key, val)] := by
  obtain ⟨t₁, hexpand, hinv₁, hpairs, hroom⟩ := checkExpandNeed_spec hinv hlt
  obtain ⟨cell, chain, hst, -⟩ := hinv₁.stored
  obtain ⟨b, index, last, hfind, hready⟩ :=
    findUniqueBucket_spec hst (hst.exists_isEmpty hroom.buckets) (hashKey key)
  obtain ⟨t₂, hnew, hinv₂, hpairs₂, -⟩ := emhNew_spec val hinv₁ hroom index last hready (by rwa [hpairs])
  refine ⟨t₂, b, ?_, hinv₂, by rw [hpairs₂, hpairs]⟩
  simp [insertUnique, hexpand, hfind, hnew]

section calls
variable {key : K}

theorem HasKey.slotAt {cell : Nat → Option (Nat × Nat)} {chain : Nat → List Nat} {b : Nat}
    (hst : Stored hashKey t (occOf hashKey t.pairs) cell chain) (hk : HasKey t cell key b) :
    ∃ i v, t.slotAt b = some i ∧ t.pairs[i]? = some (key, v) := by
  obtain ⟨i, h, kv, hc, hkv, rfl⟩ := hk
  exact ⟨i, kv.2, slotAt_cell hst.laid hst.shape hc, hkv⟩

theorem notMem_keys {cell : Nat → Option (Nat × Nat)} {chain : Nat → List Nat}
    (hst : Stored hashKey t (occOf hashKey t.pairs) cell chain) (hk : ∀ b, ¬ HasKey t cell key b) :
    key ∉ t.pairs.map Prod.fst := by
  intro hmem
  obtain ⟨kv, hkv, rfl⟩ := List.mem_map.mp hmem
  obtain ⟨i, hi⟩ := List.mem_iff_getElem?.mp hkv
  obtain ⟨b, hb⟩ := hst.placed.complete (occOf_eq_some.mpr ⟨kv, hi, rfl⟩)
  exact hk b ⟨i, _, kv, hb, hi, rfl⟩

private theorem map_set_eq {α β : Type} {f : α → β} {l : List α} {i : Nat} {x y : α} (hi : l[i]? = some x)
    (hf : f y = f x) : (l.set i y).map f = l.map f := by
  refine List.ext_getElem? fun j => ?_
  by_cases hij : i = j
  · subst hij
    obtain ⟨hlt, rfl⟩ := List.getElem?_eq_some_iff.mp hi
    simp [hlt, hf]
  · simp [List.getElem?_set_ne hij]

theorem Inv.set (hinv : Inv hashKey t) {i : Nat} {v : V} (hi : t.pairs[i]? = some (key, v)) (val : V) :
    Inv hashKey { t with pairs := t.pairs.set i (key, val) } := by
  obtain ⟨cell, chain, hst, hetail⟩ := hinv.stored
  have hocc : occOf hashKey (t.pairs.set i (key, val)) = occOf hashKey t.pairs := by
    funext j
    rw [occOf, occOf, ← List.getElem?_map, ← List.getElem?_map,
      map_set_eq (f := fun kv : K × V => hashKey kv.1) (y := (key, val)) hi rfl]
  refine ⟨⟨cell, chain, ⟨hst.shape.of_index rfl rfl fun _ _ => rfl, hst.laid, ?_, ?_⟩, ?_⟩, hinv.capacity, ?_⟩
  · exact hocc ▸ hst.placed
  · exact fun h => occOf_eq_some.mp h
  · simpa [numFilled] using hetail
  · have hmap := map_set_eq (f := Prod.fst) (y := (key, val)) hi rfl
    rw [hmap]
    exact hinv.keys

/-! ### Erasing a pair -/

section erase
variable {pairs : List (K × V)} {kv : K × V} {b i h : Nat} {cell : Nat → Option (Nat × Nat)}
  {chain : Nat → List Nat}

theorem occOf_take_last (hashKey : K → Nat) (hlast : pairs[pairs.length - 1]? = some kv) :
    occOf hashKey (pairs.take (pairs.length - 1))
      = Function.update (occOf hashKey pairs) (pairs.length - 1) none := by
  have hpos := (List.getElem?_eq_some_iff.mp hlast).1
  funext j
  by_cases hj : j = pairs.length - 1
  · subst hj
    simp [occOf]
  · rw [Function.update_of_ne hj, occOf, occOf, List.getElem?_take]
    split_ifs
    · rfl
    · rw [List.getElem?_eq_none (by omega)]

theorem occOf_swap (hlast : pairs[pairs.length - 1]? = some kv) (hi : i < pairs.length - 1) :
    occOf hashKey ((pairs.set i kv).take (pairs.length - 1))
      = Function.update (Function.update (Function.update (occOf hashKey pairs) i none) (pairs.length - 1) none) i
          (some (hashKey kv.1)) := by
  have hlast' : (pairs.set i kv)[(pairs.set i kv).length - 1]? = some kv := by
    rw [List.length_set, List.getElem?_set_ne (by omega), hlast]
  have htake := occOf_take_last hashKey hlast'
  rw [List.length_set] at htake
  rw [htake]
  funext j
  by_cases hj : j = pairs.length - 1
  · subst hj
    have hne : pairs.length - 1 ≠ i := by omega
    simp [hne]
  by_cases hji : j = i
  · subst hji
    have hlt : j < pairs.length := by omega
    simp [hj, occOf, hlt]
  · simp [hj, hji, occOf, List.getElem?_set_ne (Ne.symm hji)]

theorem swap_perm_eraseIdx (hlast : pairs[pairs.length - 1]? = some kv) (hi : i < pairs.length - 1) :
    ((pairs.set i kv).take (pairs.length - 1)).Perm (pairs.eraseIdx i) := by
  obtain ⟨hpos, hkv⟩ := List.getElem?_eq_some_iff.mp hlast
  obtain ⟨front, z, rfl⟩ := (List.eq_nil_or_concat' pairs).resolve_left (by rintro rfl; simp at hpos)
  have hz : kv = z := by simpa using hkv.symm
  subst hz
  have hif : i < front.length := by simpa using hi
  rw [List.set_append_left _ _ hif, List.eraseIdx_append_of_lt_length hif]
  have htake : (front.set i kv ++ [kv]).take ((front ++ [kv]).length - 1) = front.set i kv := by
    simp
  rw [htake]
  exact (List.set_perm_cons_eraseIdx hif kv).trans (List.perm_append_singleton _ _).symm

theorem moveLast_spec {e hL : Nat} {index : Nat → Index} {occ : Nat → Option Nat} {lb : Nat}
    (hsh : Shape { t with index }) (hl : LaidOut t.numBuckets (Function.update index e ⟨INACTIVE, 0⟩) cell chain)
    (hp : Placed occ cell) (hce : cell e = none) (hlb : cell lb = some (t.numFilled - 1, hL))
    (hkv : t.pairs[t.numFilled - 1]? = some kv) (hh : hashKey kv.1 = hL)
    (hetail : t.etail = INACTIVE ∨ e = t.etail ∨ ∃ h, cell t.etail = some (t.numFilled - 1, h)) :
    { t with index }.moveLast hashKey i (t.numFilled - 1) e = some { t with
      index := Function.update index lb { index lb with slot := i ||| highBits (t.numBuckets - 1) hL }
      pairs := t.pairs.set i kv } := by
  have hne : ∀ x j h, cell x = some (j, h) → x ≠ e := by
    rintro x j h hx rfl
    rw [hce] at hx
    cases hx
  have hagree : ∀ x j h, cell x = some (j, h) → index x = Function.update index e ⟨INACTIVE, 0⟩ x :=
    fun x j h hx => (Function.update_of_ne (hne x j h hx) _ _).symm
  have hlblt := (hl.lt hlb).1
  have hbucket : (if t.etail = INACTIVE ∨ e = t.etail then
      ({ t with index }.findSlotBucket hashKey (t.numFilled - 1)).map Prod.fst else some t.etail) = some lb := by
    split_ifs with hcond
    · rw [findSlotBucket_cell (t := { t with index }) hsh hl hagree hp hlb hkv hh]
      rfl
    · rcases hetail with h₁ | h₂ | ⟨h, hc⟩
      · exact absurd (Or.inl h₁) hcond
      · exact absurd (Or.inr h₂) hcond
      · rw [hp.inj hc hlb]
  have hslot : (index lb).slot &&& (2 ^ 32 - 1 - t.mask) = highBits (t.numBuckets - 1) hL := by
    rw [hagree lb _ _ hlb, hl.slot hlb, show t.mask = t.numBuckets - 1 from hsh.mask,
      hsh.size.slot_and_high (hl.lt hlb).2]
  simp only [moveLast]
  rw [hbucket, Option.bind_eq_bind, Option.bind_some, hkv, Option.bind_eq_bind, Option.bind_some, indexAt_eq,
    Option.bind_eq_bind, Option.bind_some, setIndex_eq]
  · simp only [hslot]
  · exact hlblt
  · exact Nat.lt_add_right 2 hlblt

theorem Inv.erased {index : Nat → Index} (hinv : Inv hashKey t)
    (hsh : ∀ x, t.numBuckets ≤ x → (index x).isEmpty = false) (hl : LaidOut t.numBuckets index cell chain)
    (hp : Placed (occOf hashKey pairs) cell) (hperm : pairs.Perm (t.pairs.eraseIdx i)) :
    Inv hashKey { t with index, pairs, etail := INACTIVE } where
  stored := ⟨cell, chain, ⟨⟨hinv.shape.size, hinv.shape.mask, hsh⟩, hl, hp, fun hj => occOf_eq_some.mp hj⟩, Or.inl rfl⟩
  capacity := hinv.capacity
  keys := (hperm.map Prod.fst).nodup_iff.mpr (hinv.keys.sublist ((List.eraseIdx_sublist t.pairs i).map Prod.fst))

/-- `erase_slot` puts the last pair into the place of the erased one. -/
theorem eraseSlot_spec (hinv : Inv hashKey t) (hst : Stored hashKey t (occOf hashKey t.pairs) cell chain)
    (hetail : t.etail = INACTIVE ∨ ∃ h, cell t.etail = some (t.numFilled - 1, h)) (hc : cell b = some (i, h)) :
    ∃ t', t.eraseSlot hashKey b (h % t.numBuckets) = some t' ∧ Inv hashKey t' ∧
      t'.pairs.Perm (t.pairs.eraseIdx i) := by
  obtain ⟨e, index, cell', chain', herase, helt, hl, hp, hce, hsh, hkeep⟩ := eraseBucket_spec hst hc
  have hslot := slotAt_cell hst.laid hst.shape hc
  obtain ⟨kvi, hkvi, -⟩ := occOf_eq_some.mp (hst.placed.sound hc)
  have hi : i < t.pairs.length := (List.getElem?_eq_some_iff.mp hkvi).1
  have hpos : t.pairs.length - 1 < t.pairs.length := by omega
  have hkv : t.pairs[t.pairs.length - 1]? = some (t.pairs.get ⟨_, hpos⟩) := List.getElem?_eq_getElem hpos
  generalize t.pairs.get ⟨_, hpos⟩ = kv at hkv
  have hends : ∀ x, t.numBuckets ≤ x → (Function.update index e ⟨INACTIVE, 0⟩ x).isEmpty = false := by
    intro x hx
    rw [Function.update_of_ne (lt_of_lt_of_le helt hx).ne']
    exact hsh.ends x hx
  by_cases hlast : i = t.pairs.length - 1
  · -- the pair is the last one
    have hperm : (t.pairs.take (t.pairs.length - 1)).Perm (t.pairs.eraseIdx i) := by
      rw [List.eraseIdx_eq_take_drop_succ, hlast, List.drop_eq_nil_of_le (by omega), List.append_nil]
    have hp' : Placed (occOf hashKey (t.pairs.take (t.pairs.length - 1))) cell' := by
      rw [occOf_take_last hashKey hkv, ← hlast]
      exact hp
    refine ⟨_, ?_, hinv.erased hends hl hp' hperm, hperm⟩
    have hnot : ¬ i ≠ { t with index }.numFilled - 1 := by simpa [numFilled] using hlast
    simp only [eraseSlot, hslot, herase, Option.bind_eq_bind, Option.bind_some, if_neg hnot]
    rw [setIndex_eq]
    · rfl
    · exact helt
  · have hilt : i < t.pairs.length - 1 := by omega
    have hoccL : Function.update (occOf hashKey t.pairs) i none (t.pairs.length - 1) = some (hashKey kv.1) := by
      rw [Function.update_of_ne (Ne.symm hlast)]
      exact occOf_eq_some.mpr ⟨kv, hkv, rfl⟩
    obtain ⟨lb, hlb⟩ := hp.complete hoccL
    have hlbe : lb ≠ e := by
      rintro rfl
      rw [hce] at hlb
      cases hlb
    have hetail' : t.etail = INACTIVE ∨ e = t.etail ∨ ∃ h, cell' t.etail = some (t.numFilled - 1, h) := by
      rcases hetail with h₁ | ⟨h', hc'⟩
      · exact Or.inl h₁
      by_cases hee : t.etail = e
      · exact Or.inr (Or.inl hee.symm)
      · exact Or.inr (Or.inr ⟨h', hkeep _ _ _ hee (Ne.symm hlast) hc'⟩)
    have hmove := moveLast_spec (i := i) hsh hl hp hce hlb hkv rfl hetail'
    have hperm := swap_perm_eraseIdx hkv hilt
    have hp' : Placed (occOf hashKey ((t.pairs.set i kv).take (t.pairs.length - 1)))
        (Function.update cell' lb (some (i, hashKey kv.1))) := by
      rw [occOf_swap hkv hilt]
      have hins := (hp.remove hlb).insert (n := i) (b := lb) (h := hashKey kv.1)
        (by simp [hlast]) (by simp)
      rwa [Function.update_idem] at hins
    have hl' := hl.relabel (lt_of_lt_of_le hi hinv.numFilled_le) hlb
    have hindex : Function.update (Function.update index lb { index lb with
          slot := i ||| highBits (t.numBuckets - 1) (hashKey kv.1) }) e ⟨INACTIVE, 0⟩
        = Function.update (Function.update index e ⟨INACTIVE, 0⟩) lb { Function.update index e ⟨INACTIVE, 0⟩ lb with
          slot := i ||| highBits (t.numBuckets - 1) (hashKey kv.1) } := by
      rw [Function.update_comm hlbe, Function.update_of_ne hlbe]
    have hends' : ∀ x, t.numBuckets ≤ x → (Function.update (Function.update index e ⟨INACTIVE, 0⟩) lb
        { Function.update index e ⟨INACTIVE, 0⟩ lb with
          slot := i ||| highBits (t.numBuckets - 1) (hashKey kv.1) } x).isEmpty = false := by
      intro x hx
      rw [Function.update_of_ne (lt_of_lt_of_le (hl.lt hlb).1 hx).ne']
      exact hends x hx
    refine ⟨_, ?_, hinv.erased hends' hl' hp' hperm, hperm⟩
    have hne : i ≠ { t with index }.numFilled - 1 := hlast
    simp only [eraseSlot, hslot, herase, Option.bind_eq_bind, Option.bind_some, if_pos hne]
    have hmove' : { t with index }.moveLast hashKey i ({ t with index }.numFilled - 1) e = _ := hmove
    rw [hmove', Option.bind_some, setIndex_eq]
    · rw [← hindex]
      rfl
    · exact helt

end erase

variable [DecidableEq K]

theorem findFilledSlot_spec (hinv : Inv hashKey t) (key : K) :
    (∃ i v, t.findFilledSlot hashKey key = some i ∧ t.pairs[i]? = some (key, v)) ∨
    (t.findFilledSlot hashKey key = some t.numFilled ∧ key ∉ t.pairs.map Prod.fst) := by
  obtain ⟨cell, chain, hst, -⟩ := hinv.stored
  rcases findFilledBucket_spec hst key with ⟨b, hfind, hk⟩ | ⟨hfind, hno⟩
  · obtain ⟨i, v, hslot, hkv⟩ := hk.slotAt hst
    exact Or.inl ⟨i, v, by simp [findFilledSlot, hfind, hslot], hkv⟩
  · exact Or.inr ⟨by simp [findFilledSlot, hfind], notMem_keys hst hno⟩

theorem findOrNew_spec (hinv : Inv hashKey t) (hlt : t.numFilled < 2 ^ 30) (key : K) (val : V) :
    (∃ t' i v, t.findOrNew hashKey key val = some (t', i, false) ∧ Inv hashKey t' ∧ t'.pairs = t.pairs ∧
      t.pairs[i]? = some (key, v)) ∨
    (∃ t', t.findOrNew hashKey key val = some (t', t.numFilled, true) ∧ Inv hashKey t' ∧
      t'.pairs = t.pairs ++ [(key, val)] ∧ key ∉ t.pairs.map Prod.fst) := by
  obtain ⟨t₁, hexpand, hinv₁, hpairs, hroom⟩ := checkExpandNeed_spec hinv hlt
  obtain ⟨cell, chain, hst, -⟩ := hinv₁.stored
  rcases findOrAllocate_spec hst (hst.exists_isEmpty hroom.buckets) key with
    ⟨b, hfind, hk⟩ | ⟨b, index, last, hfind, hready, hno⟩
  · obtain ⟨i, h, kv, hc, hkv, rfl⟩ := hk
    have hb := (hst.laid.lt hc).1
    have hempty : t₁.emptyAt b = some false := by
      rw [emptyAt_eq (by omega), hst.laid.isEmpty_eq hst.shape.size hb, hc]
      rfl
    have hslot := slotAt_cell hst.laid hst.shape hc
    refine Or.inl ⟨t₁, i, kv.2, ?_, hinv₁, hpairs, hpairs ▸ hkv⟩
    simp [findOrNew, hexpand, hfind, hempty, hslot]
  · have hkey := notMem_keys hst hno
    have hn : t₁.numFilled = t.numFilled := by rw [numFilled, hpairs]; rfl
    obtain ⟨t₂, hnew, hinv₂, hpairs₂, hslot⟩ := emhNew_spec val hinv₁ hroom index last hready hkey
    have hempty : { t₁ with index, last }.emptyAt b = some true := by
      rw [emptyAt_eq]
      · exact congrArg some hready.isEmpty
      · exact Nat.lt_add_right 2 hready.lt
    refine Or.inr ⟨t₂, ?_, hinv₂, by rw [hpairs₂, hpairs], hpairs ▸ hkey⟩
    simp [findOrNew, hexpand, hfind, hempty, hnew, hslot, hn]

theorem erase_spec (hinv : Inv hashKey t) (key : K) :
    (∃ t' i v, t.erase hashKey key = some (t', true) ∧ Inv hashKey t' ∧ t.pairs[i]? = some (key, v) ∧
      t'.pairs.Perm (t.pairs.eraseIdx i)) ∨
    (t.erase hashKey key = some (t, false) ∧ key ∉ t.pairs.map Prod.fst) := by
  obtain ⟨cell, chain, hst, hetail⟩ := hinv.stored
  rcases findFilledBucket_spec hst key with ⟨b, hfind, i, h, kv, hc, hkv, rfl⟩ | ⟨hfind, hno⟩
  · obtain ⟨kv', hkv', rfl⟩ := occOf_eq_some.mp (hst.placed.sound hc)
    rw [hkv] at hkv'
    rw [← Option.some.inj hkv'] at hc
    obtain ⟨t', herase, hinv', hperm⟩ := eraseSlot_spec hinv hst hetail hc
    refine Or.inl ⟨t', i, kv.2, ?_, hinv', hkv, hperm⟩
    simp [erase, hfind, hst.shape.and_mask, herase]
  · exact Or.inr ⟨by simp [erase, hfind], notMem_keys hst hno⟩

omit [DecidableEq K] in
theorem Inv.clear (hinv : Inv hashKey t) : Inv hashKey t.clear where
  stored := by
    have hocc : occOf hashKey (HashMap.clear t).pairs = fun _ => none := by
      funext i
      simp [occOf, HashMap.clear]
    have hempty : ∀ b < t.numBuckets, ((HashMap.clear t).index b).isEmpty := by
      intro b hb
      simp [HashMap.clear, hb, Index.isEmpty, INACTIVE]
    refine ⟨fun _ => none, fun _ => [], ⟨?_, LaidOut.empty hempty, hocc ▸ Placed.empty, ?_⟩, Or.inl rfl⟩
    · exact hinv.shape.of_index rfl rfl fun b hb => by simp [HashMap.clear, not_lt.mpr hb]
    · intro i h hi
      rw [hocc] at hi
      cases hi
  capacity := hinv.capacity
  keys := List.nodup_nil

end calls

end HashMap

end StepMesh.Emhash8
