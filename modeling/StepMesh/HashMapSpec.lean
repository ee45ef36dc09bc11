import StepMesh.HashMapLayout

/-!
# What the functions of the hash map do

One lemma for each: that it ends, reads and writes inside its arrays, and what it leaves.
-/

namespace StepMesh.Emhash8

open Chains (Linked)

namespace HashMap

variable {K V : Type} {t : HashMap K V} {a b c e m : Nat} {p q l : List Nat}

/-- The sizes of the arrays, and the entries after the last bucket. -/
structure Shape (t : HashMap K V) : Prop where
  size : Size t.numBuckets
  mask : t.mask = t.numBuckets - 1
  ends : ∀ b, t.numBuckets ≤ b → (t.index b).isEmpty = false

namespace Shape

variable (hsh : Shape t)
include hsh

theorem lt_of_isEmpty (hb : (t.index b).isEmpty) : b < t.numBuckets := by
  by_contra hlt
  rw [hsh.ends b (by omega)] at hb
  cases hb

theorem and_mask (x : Nat) : x &&& t.mask = x % t.numBuckets := by rw [hsh.mask, hsh.size.and_mask]

theorem and_mask_lt (x : Nat) : x &&& t.mask < t.numBuckets := by
  rw [hsh.and_mask]
  exact hsh.size.mod_lt x

theorem of_index {t' : HashMap K V} (hnb : t'.numBuckets = t.numBuckets) (hmask : t'.mask = t.mask)
    (hindex : ∀ b, t.numBuckets ≤ b → t'.index b = t.index b) : Shape t' where
  size := hnb ▸ hsh.size
  mask := by rw [hmask, hnb, hsh.mask]
  ends b hb := by
    rw [hnb] at hb
    rw [hindex b hb]
    exact hsh.ends b hb

end Shape

theorem indexAt_eq (hb : b < t.numBuckets + 2) : t.indexAt b = some (t.index b) := by
  simp [indexAt, EAD, hb]

theorem emptyAt_eq (hb : b < t.numBuckets + 2) : t.emptyAt b = some (t.index b).isEmpty := by
  simp [emptyAt, indexAt_eq hb]

theorem slotAt_eq (hb : b < t.numBuckets) : t.slotAt b = some ((t.index b).slot &&& t.mask) := by
  simp [slotAt, indexAt_eq (Nat.lt_add_right 2 hb)]

theorem setIndex_eq (hb : b < t.numBuckets) (i : Index) :
    t.setIndex b i = some { t with index := Function.update t.index b i } := by
  simp [setIndex, EAD, Nat.lt_add_right 2 hb]

theorem setNext_eq (hb : b < t.numBuckets) (n : Nat) :
    t.setNext b n = some { t with index := Function.update t.index b { t.index b with next := n } } := by
  simp [setNext, indexAt_eq (Nat.lt_add_right 2 hb), setIndex_eq hb]

/-! ### Looking for an empty bucket -/

theorem quadraticProbe_spec (hsh : Shape t) (b : Nat) : ∀ left offset,
    ∃ r, t.quadraticProbe b left offset = some r ∧ ∀ e ∈ r, (t.index e).isEmpty := by
  intro left
  induction left with
  | zero => exact fun offset => ⟨none, rfl, by simp⟩
  | succ left ih =>
    intro offset
    have hlt := hsh.and_mask_lt (b + offset)
    rw [quadraticProbe, emptyAt_eq (by omega), emptyAt_eq (by omega)]
    cases h₁ : (t.index ((b + offset) &&& t.mask)).isEmpty with
    | true => exact ⟨_, rfl, by simpa using h₁⟩
    | false =>
      cases h₂ : (t.index (((b + offset) &&& t.mask) + 1)).isEmpty with
      | true => exact ⟨_, rfl, by simpa using h₂⟩
      | false => exact ih _

/-- The loop comes to every bucket but the first, and to the first from the one in the middle. -/
theorem linearProbe_spec (hsh : Shape t) : ∀ fuel last,
    (∃ j < fuel, (t.index ((last + j) % t.numBuckets + 1)).isEmpty ∨
      (t.index ((t.numBuckets / 2 + ((last + j) % t.numBuckets + 1)) % t.numBuckets)).isEmpty) →
    ∃ r last', t.linearProbe fuel last = some (r, last') ∧ (t.index r).isEmpty := by
  intro fuel
  induction fuel with
  | zero =>
    rintro last ⟨j, hj, -⟩
    cases hj
  | succ fuel ih =>
    rintro last ⟨j, hj, hempty⟩
    have hlt := hsh.and_mask_lt last
    have hlt' := hsh.and_mask_lt (t.numBuckets / 2 + ((last &&& t.mask) + 1))
    rw [linearProbe, emptyAt_eq (by omega)]
    simp only []
    rw [emptyAt_eq (by omega)]
    cases h₁ : (t.index ((last &&& t.mask) + 1)).isEmpty with
    | true => exact ⟨_, _, rfl, h₁⟩
    | false =>
      cases h₂ : (t.index ((t.numBuckets / 2 + ((last &&& t.mask) + 1)) &&& t.mask)).isEmpty with
      | true => exact ⟨_, _, rfl, h₂⟩
      | false =>
        refine ih _ ?_
        cases j with
        | zero =>
          rw [hsh.and_mask] at h₁
          rw [hsh.and_mask, hsh.and_mask] at h₂
          simp [h₁, h₂] at hempty
        | succ j =>
          refine ⟨j, by omega, ?_⟩
          have hmod : ((last &&& t.mask) + 1 + j) % t.numBuckets = (last + (j + 1)) % t.numBuckets := by
            rw [hsh.and_mask, Nat.add_assoc, Nat.mod_add_mod, Nat.add_comm 1 j]
          rwa [hmod]

/-- `_last` reaches any bucket but the first within as many rounds as there are buckets. -/
private theorem exists_round {nb x : Nat} (last : Nat) (hx : x < nb) : ∃ j < nb, (last + j) % nb = x := by
  have hlt : last % nb < nb := Nat.mod_lt _ (by omega)
  have hsum : nb * (last / nb) + last % nb = last := Nat.div_add_mod last nb
  by_cases hle : last % nb ≤ x
  · refine ⟨x - last % nb, by omega, ?_⟩
    rw [show last + (x - last % nb) = x + nb * (last / nb) by omega, Nat.add_mul_mod_self_left, Nat.mod_eq_of_lt hx]
  · refine ⟨x + nb - last % nb, by omega, ?_⟩
    rw [show last + (x + nb - last % nb) = x + nb + nb * (last / nb) by omega, Nat.add_mul_mod_self_left,
      Nat.add_mod_right, Nat.mod_eq_of_lt hx]

theorem findEmptyBucket_spec (hsh : Shape t) (hb : b < t.numBuckets) (hex : ∃ e < t.numBuckets, (t.index e).isEmpty)
    (csize : Nat) : ∃ r last, t.findEmptyBucket b csize = some (r, { t with last }) ∧ r < t.numBuckets ∧
      (t.index r).isEmpty := by
  suffices h : ∃ r last, t.findEmptyBucket b csize = some (r, { t with last }) ∧ (t.index r).isEmpty by
    obtain ⟨r, last, hfind, hr⟩ := h
    exact ⟨r, last, hfind, hsh.lt_of_isEmpty hr, hr⟩
  rw [findEmptyBucket, emptyAt_eq (by omega), emptyAt_eq (by omega)]
  cases h₁ : (t.index (b + 1)).isEmpty with
  | true => exact ⟨_, t.last, rfl, h₁⟩
  | false =>
  cases h₂ : (t.index (b + 2)).isEmpty with
  | true => exact ⟨_, t.last, rfl, h₂⟩
  | false =>
  obtain ⟨r, hr, hempty⟩ := quadraticProbe_spec hsh b 3 (1 + csize)
  cases r with
  | some r => exact ⟨r, t.last, by simp [hr], hempty r rfl⟩
  | none =>
    obtain ⟨e, helt, he⟩ := hex
    have hfour := hsh.size.four_le
    obtain ⟨r, last, hr', hempty'⟩ := linearProbe_spec hsh t.numBuckets t.last (by
      cases e with
      | zero =>
        obtain ⟨j, hj, hround⟩ := exists_round t.last (show t.numBuckets / 2 - 1 < t.numBuckets by omega)
        refine ⟨j, hj, Or.inr ?_⟩
        obtain ⟨k, hk, -, hnb⟩ := hsh.size
        have heven : t.numBuckets = t.numBuckets / 2 + t.numBuckets / 2 := by
          have hdvd : 2 ∣ t.numBuckets := hnb ▸ dvd_pow_self 2 (by omega)
          omega
        rw [hround, show t.numBuckets / 2 + (t.numBuckets / 2 - 1 + 1) = t.numBuckets by omega, Nat.mod_self]
        exact he
      | succ e =>
        obtain ⟨j, hj, hround⟩ := exists_round t.last (show e < t.numBuckets by omega)
        exact ⟨j, hj, Or.inl (by rwa [hround])⟩)
    exact ⟨r, last, by simp [hr, hr'], hempty'⟩

/-! ### Walking a chain -/

theorem followUntil_spec {stop : Nat → Index → Bool} : ∀ {l : List Nat} {b fuel : Nat},
    Linked (nexts t.index) (b :: l) → (∀ x ∈ b :: l, x < t.numBuckets) →
    (b :: l).find? (fun x => stop x (t.index x)) = some c → (b :: l).length ≤ fuel →
    t.followUntil stop fuel b = some c := by
  intro l
  induction l with
  | nil =>
    intro b fuel hlinked hlt hfind hfuel
    obtain ⟨fuel, rfl⟩ : ∃ f, fuel = f + 1 := ⟨fuel - 1, by simp at hfuel; omega⟩
    have hb := hlt b (by simp)
    rw [followUntil, indexAt_eq (by omega)]
    cases hs : stop b (t.index b) with
    | true => simpa [hs] using hfind
    | false => simp [hs] at hfind
  | cons d l ih =>
    intro b fuel hlinked hlt hfind hfuel
    obtain ⟨fuel, rfl⟩ : ∃ f, fuel = f + 1 := ⟨fuel - 1, by simp at hfuel; omega⟩
    have hb := hlt b (by simp)
    obtain ⟨hnext, hrest⟩ := Chains.linked_cons_cons.mp hlinked
    rw [followUntil, indexAt_eq (by omega)]
    cases hs : stop b (t.index b) with
    | true => simpa [hs] using hfind
    | false =>
      rw [List.find?_cons_of_neg (by simp [hs])] at hfind
      have hih := ih hrest (fun x hx => hlt x (by simp [hx])) hfind (by simpa using hfuel)
      simpa [hs, show (t.index b).next = d from hnext] using hih

section layout
variable {cell : Nat → Option (Nat × Nat)} {chain : Nat → List Nat}
  (hl : LaidOut t.numBuckets t.index cell chain)
include hl

theorem findLastBucket_eq (hchain : chain m = p ++ b :: q) (hlast : b :: q = l ++ [a]) :
    t.findLastBucket b = some a := by
  have hlinked := hl.linked m
  have hnodup := hl.nodup m
  have hlen : (chain m).length ≤ t.numBuckets := hl.length_le
  have hlt : ∀ x ∈ b :: q, x < t.numBuckets := fun x hx =>
    hl.lt_of_mem (m := m) (hchain ▸ List.mem_append_right p hx)
  rw [hchain] at hlinked hnodup hlen
  refine followUntil_spec hlinked.of_append_cons hlt ?_ (by simp at hlen ⊢; omega)
  have hself : ∀ x ∈ l, nexts t.index x ≠ x := by
    intro x hx hxx
    obtain ⟨r, s, rfl⟩ := List.append_of_mem hx
    rw [hlast] at hlinked hnodup
    have hsplit : p ++ (r ++ x :: s ++ [a]) = (p ++ r) ++ x :: (s ++ [a]) := by simp
    rw [hsplit] at hlinked hnodup
    simpa using (hlinked.next_eq_self_iff hnodup).mp hxx
  have ha : nexts t.index a = a := by
    rw [hlast, ← List.append_assoc] at hlinked
    exact hlinked.next_last
  rw [hlast, List.find?_append, List.find?_eq_none.mpr (fun x hx => by simpa [nexts] using hself x hx)]
  simpa [nexts] using ha

theorem findLastBucket_main (hchain : chain m = m :: q) (hlast : m :: q = l ++ [a]) :
    (if (t.index m).next ≠ m then t.findLastBucket (t.index m).next else some (t.index m).next) = some a := by
  have hlinked := hl.linked m
  have hnodup := hl.nodup m
  rw [hchain] at hlinked hnodup
  have hself := hlinked.next_eq_self_iff (p := []) hnodup
  cases q with
  | nil =>
    have hnext : (t.index m).next = m := hself.mpr rfl
    have hma : m = a := by
      rcases List.append_eq_singleton_iff.mp hlast.symm with ⟨-, ha⟩ | ⟨-, ha⟩
      · exact (List.cons.inj ha).1.symm
      · cases ha
    subst hma
    simp [hnext]
  | cons d q =>
    have hnext : (t.index m).next = d := hlinked.next_eq (p := [])
    have hdm : d ≠ m := by
      rintro rfl
      simp at hnodup
    obtain ⟨l', hl'⟩ : ∃ l', d :: q = l' ++ [a] := by
      cases l with
      | nil => simp at hlast
      | cons x l => exact ⟨l, (List.cons.inj hlast).2⟩
    rw [hnext, if_pos hdm]
    exact findLastBucket_eq hl (p := [m]) hchain hl'

theorem findPrevBucket_eq (hchain : chain m = p ++ a :: b :: q) : t.findPrevBucket m b = some a := by
  have hlinked := hl.linked m
  have hnodup := hl.nodup m
  have hlen : (chain m).length ≤ t.numBuckets := hl.length_le
  obtain ⟨r, hr⟩ := hl.head_splice hchain (b :: q)
  have hlt : ∀ x ∈ m :: r, x < t.numBuckets := fun x hx => hl.lt_of_mem (m := m) (by rw [hchain, hr]; exact hx)
  have hnext : ∀ x ∈ p, nexts t.index x ≠ b := by
    rw [hchain] at hlinked hnodup
    exact fun x hx => hlinked.next_ne hnodup hx
  have ha : nexts t.index a = b := by
    rw [hchain] at hlinked
    exact hlinked.next_eq
  rw [hchain, hr] at hlinked hlen
  refine followUntil_spec hlinked hlt ?_ hlen
  rw [← hr, List.find?_append, List.find?_eq_none.mpr (fun x hx => by simpa [nexts] using hnext x hx)]
  simp [show (t.index a).next = b from ha]

variable (hsh : Shape t) {i h : Nat}
include hsh

theorem slotAt_cell (hc : cell b = some (i, h)) : t.slotAt b = some i := by
  have hlt := hl.lt hc
  rw [slotAt_eq hlt.1, hl.slot hc, hsh.mask, hsh.size.slot_and_mask hlt.2]

variable {hashKey : K → Nat} {kv : K × V} {occ : Nat → Option Nat}

theorem hashMain_cell (hc : cell b = some (i, h)) (hkv : t.pairs[i]? = some kv) (hh : hashKey kv.1 = h) :
    t.hashMain hashKey b = some (h % t.numBuckets) := by
  simp [hashMain, slotAt_cell hl hsh hc, hkv, hh, hsh.mask, ← hsh.size.mod_and_mask h]

end layout

/-- The chains need to be right only in the buckets that are in them. -/
theorem findSlotBucket_cell {index : Nat → Index} {cell : Nat → Option (Nat × Nat)} {chain : Nat → List Nat}
    {occ : Nat → Option Nat} {hashKey : K → Nat} {kv : K × V} {i h : Nat} (hsh : Shape t)
    (hl : LaidOut t.numBuckets index cell chain) (hagree : ∀ x i h, cell x = some (i, h) → t.index x = index x)
    (hp : Placed occ cell) (hc : cell b = some (i, h)) (hkv : t.pairs[i]? = some kv) (hh : hashKey kv.1 = h) :
    t.findSlotBucket hashKey i = some (b, h % t.numBuckets) := by
  obtain ⟨r, hr⟩ := hl.chain_eq_cons hc
  have hagree' : ∀ x ∈ chain (h % t.numBuckets), t.index x = index x := by
    intro x hx
    obtain ⟨i', h', hcx, -⟩ := hl.mem.mp hx
    exact hagree x i' h' hcx
  have hlinked : Linked (nexts t.index) (chain (h % t.numBuckets)) :=
    (hl.linked _).congr fun x hx => by rw [nexts, nexts, hagree' x hx]
  have hlen : (chain (h % t.numBuckets)).length ≤ t.numBuckets := hl.length_le
  have hslot : ∀ x ∈ chain (h % t.numBuckets), (i = (t.index x).slot &&& t.mask ↔ x = b) := by
    intro x hx
    obtain ⟨i', h', hcx, -⟩ := hl.mem.mp hx
    rw [hagree' x hx, hl.slot hcx, hsh.mask, hsh.size.slot_and_mask (hl.lt hcx).2]
    constructor
    · rintro rfl
      exact hp.inj hcx hc
    · rintro rfl
      rw [hc] at hcx
      exact (Prod.mk.inj (Option.some.inj hcx)).1
  have hfollow : t.followUntil (fun _ e => i = e.slot &&& t.mask) t.numBuckets (h % t.numBuckets) = some b := by
    refine followUntil_spec (hr ▸ hlinked) (fun x hx => hl.lt_of_mem (m := h % t.numBuckets) (hr ▸ hx)) ?_
      (by rwa [hr] at hlen)
    rw [← hr]
    obtain ⟨r₁, r₂, hsplit⟩ := List.append_of_mem (hl.mem_chain hc)
    have hnodup := hl.nodup (h % t.numBuckets)
    have hbr : b ∉ r₁ := by
      rw [hsplit] at hnodup
      exact fun hbr => (List.nodup_append.mp hnodup).2.2 b hbr b (by simp) rfl
    rw [hsplit] at hslot
    rw [hsplit, List.find?_append, List.find?_eq_none.mpr]
    · simp [(hslot b (by simp)).mpr rfl]
    · intro x hx
      have hne : x ≠ b := by rintro rfl; exact hbr hx
      simpa [hslot x (by simp [hx])] using hne
  simp only [findSlotBucket, hkv, Option.bind_eq_bind, Option.bind_some, hh, hsh.and_mask h, hfollow]
  rfl

/-! ### Looking for a key -/

/-- The pairs at the places of `occ`, which may be fewer than are constructed, are in the buckets of `cell`. -/
structure Stored (hashKey : K → Nat) (t : HashMap K V) (occ : Nat → Option Nat) (cell : Nat → Option (Nat × Nat))
    (chain : Nat → List Nat) : Prop where
  shape : Shape t
  laid : LaidOut t.numBuckets t.index cell chain
  placed : Placed occ cell
  read : ∀ {i h}, occ i = some h → ∃ kv, t.pairs[i]? = some kv ∧ hashKey kv.1 = h

section keys
variable {hashKey : K → Nat} {occ : Nat → Option Nat} {cell : Nat → Option (Nat × Nat)}
  {chain : Nat → List Nat} {key : K} {keyHash i h : Nat}

/-- The bucket holds a pair with the key. -/
def HasKey (t : HashMap K V) (cell : Nat → Option (Nat × Nat)) (key : K) (b : Nat) : Prop :=
  ∃ i h kv, cell b = some (i, h) ∧ t.pairs[i]? = some kv ∧ kv.1 = key

theorem HasKey.mem_chain (hst : Stored hashKey t occ cell chain) (hk : HasKey t cell key b) :
    b ∈ chain (hashKey key % t.numBuckets) := by
  obtain ⟨i, h, kv, hc, hkv, rfl⟩ := hk
  obtain ⟨kv', hkv', rfl⟩ := hst.read (hst.placed.sound hc)
  rw [hkv] at hkv'
  rw [Option.some.inj hkv']
  exact hst.laid.mem_chain hc

theorem HasKey.mem_suffix (hst : Stored hashKey t occ cell chain) (hk : HasKey t cell key b)
    (hchain : chain m = p ++ hashKey key % t.numBuckets :: q) : b ∈ hashKey key % t.numBuckets :: q := by
  have hb := hk.mem_chain hst
  rcases hst.laid.head (hashKey key % t.numBuckets) with hnil | ⟨l, hl⟩
  · rw [hnil] at hb
    cases hb
  · -- the main bucket is in its own chain
    have hm : m = hashKey key % t.numBuckets :=
      hst.laid.home_unique (b := hashKey key % t.numBuckets) (by simp [hchain]) (by simp [hl])
    rw [hm] at hchain
    rw [hst.laid.eq_nil_of_main hchain] at hchain
    rwa [hchain] at hb

section find
variable [DecidableEq K]

theorem holdsKey_spec (hst : Stored hashKey t occ cell chain) (key : K) (hc : cell b = some (i, h)) :
    ∃ r, t.holdsKey key (hashKey key) b = some r ∧ (r = true ↔ HasKey t cell key b) := by
  obtain ⟨kv, hkv, hh⟩ := hst.read (hst.placed.sound hc)
  have hlt := hst.laid.lt hc
  have hiff : HasKey t cell key b ↔ kv.1 = key := by
    constructor
    · rintro ⟨i', h', kv', hc', hkv', rfl⟩
      rw [hc] at hc'
      obtain ⟨rfl, -⟩ := Prod.mk.inj (Option.some.inj hc')
      rw [hkv] at hkv'
      rw [Option.some.inj hkv']
    · exact fun hk => ⟨i, h, kv, hc, hkv, hk⟩
  rw [holdsKey, indexAt_eq (by omega)]
  simp only [Option.bind_eq_bind, Option.bind_some, hst.laid.slot hc, hst.shape.mask,
    hst.shape.size.slot_and_mask hlt.2, hst.shape.size.slot_and_high hlt.2, hkv]
  by_cases hkey : kv.1 = key
  · exact ⟨true, by simp [hkey, ← hh], by simp [hiff, hkey]⟩
  · refine ⟨false, ?_, by simp [hiff, hkey]⟩
    split_ifs <;> simp [hkey]

theorem keyLoop_spec (hst : Stored hashKey t occ cell chain) (key : K) : ∀ {l : List Nat} {b fuel : Nat} (csize : Nat),
    Linked (nexts t.index) (b :: l) → (b :: l).Nodup → (∀ x ∈ b :: l, ∃ i h, cell x = some (i, h)) →
    (b :: l).length ≤ fuel →
    (∃ x ∈ b :: l, HasKey t cell key x ∧ t.keyLoop key (hashKey key) fuel csize b = some (.inl x)) ∨
    (∃ r a n, b :: l = r ++ [a] ∧ (∀ x ∈ b :: l, ¬ HasKey t cell key x) ∧
      t.keyLoop key (hashKey key) fuel csize b = some (.inr (a, n))) := by
  intro l
  induction l with
  | nil =>
    intro b fuel csize hlinked hnodup hcell hfuel
    obtain ⟨fuel, rfl⟩ : ∃ f, fuel = f + 1 := ⟨fuel - 1, by simp at hfuel; omega⟩
    obtain ⟨i, h, hc⟩ := hcell b (by simp)
    have hb := (hst.laid.lt hc).1
    obtain ⟨r, hr, hiff⟩ := holdsKey_spec hst key hc
    have hnext : (t.index b).next = b := Chains.linked_singleton.mp hlinked
    cases r with
    | true => exact Or.inl ⟨b, by simp, hiff.mp rfl, by simp [keyLoop, hr]⟩
    | false =>
      refine Or.inr ⟨[], b, csize + 1, rfl, ?_, ?_⟩
      · simpa using fun hk => Bool.false_ne_true (hiff.mpr hk)
      · rw [keyLoop, hr, indexAt_eq (by omega)]
        simp [hnext]
  | cons d l ih =>
    intro b fuel csize hlinked hnodup hcell hfuel
    obtain ⟨fuel, rfl⟩ : ∃ f, fuel = f + 1 := ⟨fuel - 1, by simp at hfuel; omega⟩
    obtain ⟨i, h, hc⟩ := hcell b (by simp)
    have hb := (hst.laid.lt hc).1
    obtain ⟨r, hr, hiff⟩ := holdsKey_spec hst key hc
    obtain ⟨hnext, hrest⟩ := Chains.linked_cons_cons.mp hlinked
    have hdb : d ≠ b := by rintro rfl; simp at hnodup
    cases r with
    | true => exact Or.inl ⟨b, by simp, hiff.mp rfl, by simp [keyLoop, hr]⟩
    | false =>
      have hstep : t.keyLoop key (hashKey key) (fuel + 1) csize b
          = t.keyLoop key (hashKey key) fuel (csize + 1) d := by
        rw [keyLoop, hr, indexAt_eq (by omega)]
        simp [show (t.index b).next = d from hnext, hdb]
      have hih := ih (csize + 1) hrest (List.nodup_cons.mp hnodup).2 (fun x hx => hcell x (by simp [hx]))
        (by simpa using hfuel)
      rw [hstep]
      rcases hih with ⟨x, hx, hk, hloop⟩ | ⟨r, a, n, hl, hno, hloop⟩
      · exact Or.inl ⟨x, by simp [hx], hk, hloop⟩
      · refine Or.inr ⟨b :: r, a, n, by rw [hl]; rfl, ?_, hloop⟩
        intro x hx
        rcases List.mem_cons.mp hx with rfl | hx
        · exact fun hk => Bool.false_ne_true (hiff.mpr hk)
        · exact hno x hx

theorem findFilledBucket_spec (hst : Stored hashKey t occ cell chain) (key : K) :
    (∃ b, t.findFilledBucket key (hashKey key) = some (some b) ∧ HasKey t cell key b) ∨
    (t.findFilledBucket key (hashKey key) = some none ∧ ∀ b, ¬ HasKey t cell key b) := by
  have hmain := hst.shape.size.mod_lt (hashKey key)
  have hand := hst.shape.and_mask (hashKey key)
  have hempty := hst.laid.isEmpty_eq hst.shape.size hmain
  rw [findFilledBucket, hand, emptyAt_eq (by omega), hempty]
  cases hc : cell (hashKey key % t.numBuckets) with
  | none =>
    refine Or.inr ⟨by simp, fun b hk => ?_⟩
    have hb := hk.mem_chain hst
    rw [hst.laid.chain_eq_nil (hst.laid.notMem_chain hc)] at hb
    cases hb
  | some ih =>
    have hmem := hst.laid.mem_chain (i := ih.1) (h := ih.2) hc
    obtain ⟨p, q, hsplit⟩ := List.append_of_mem hmem
    have hlinked := hst.laid.linked (ih.2 % t.numBuckets)
    have hnodup := hst.laid.nodup (ih.2 % t.numBuckets)
    have hlen : (chain (ih.2 % t.numBuckets)).length ≤ t.numBuckets := hst.laid.length_le
    rw [hsplit] at hlinked hnodup hlen
    have hcells : ∀ x ∈ hashKey key % t.numBuckets :: q, ∃ i h, cell x = some (i, h) := by
      intro x hx
      obtain ⟨i, h, hcx, -⟩ := hst.laid.mem.mp (show x ∈ chain (ih.2 % t.numBuckets) by
        rw [hsplit]
        exact List.mem_append_right p hx)
      exact ⟨i, h, hcx⟩
    rcases keyLoop_spec hst key 0 hlinked.of_append_cons (List.nodup_append.mp hnodup).2.1 hcells
      (show _ ≤ t.numBuckets by simp at hlen ⊢; omega) with ⟨x, -, hk, hloop⟩ | ⟨-, a, n, -, hno, hloop⟩
    · exact Or.inl ⟨x, by simp [hloop], hk⟩
    · refine Or.inr ⟨by simp [hloop], fun b hk => ?_⟩
      exact hno b (hk.mem_suffix hst hsplit) hk

end find

/-! ### Making room for a key -/

/-- The bucket is empty, and with the entry of a pair at a free place the pair is stored. -/
structure Ready (t : HashMap K V) (occ : Nat → Option Nat) (b h : Nat) : Prop where
  shape : Shape t
  lt : b < t.numBuckets
  isEmpty : (t.index b).isEmpty
  fill : ∀ n < t.numBuckets, occ n = none → ∃ cell chain,
    LaidOut t.numBuckets (Function.update t.index b (LaidOut.entry t.numBuckets b n h)) cell chain ∧
    Placed (Function.update occ n (some h)) cell ∧ cell b = some (n, h)

theorem ready_main (hsh : Shape t) (hl : LaidOut t.numBuckets t.index cell chain) (hp : Placed occ cell)
    (hempty : (t.index (h % t.numBuckets)).isEmpty) : Ready t occ (h % t.numBuckets) h where
  shape := hsh
  lt := hsh.size.mod_lt h
  isEmpty := hempty
  fill n hn hocc := by
    have hc := hl.cell_eq_none hsh.size (hsh.size.mod_lt h) hempty
    exact ⟨_, _, hl.insert_main hsh.size hn rfl hempty, hp.insert hocc hc, by simp⟩

theorem ready_tail (hst : Stored hashKey t occ cell chain) (hchain : chain (h % t.numBuckets) = p ++ [a])
    (helt : e < t.numBuckets) (hempty : (t.index e).isEmpty) (last : Nat) :
    Ready { t with index := Function.update t.index a { t.index a with next := e }, last } occ e h := by
  have hsh := hst.shape
  have hl := hst.laid
  have hc := hl.cell_eq_none hsh.size helt hempty
  have halt : a < t.numBuckets := hl.lt_of_mem (m := h % t.numBuckets) (by simp [hchain])
  have hae : e ≠ a := by
    rintro rfl
    exact hl.notMem_chain (m := h % t.numBuckets) hc (by simp [hchain])
  refine ⟨hsh.of_index rfl rfl fun b hb => ?_, helt, ?_, fun n hn hocc => ?_⟩
  · exact Function.update_of_ne (by omega) _ _
  · simpa [hae] using hempty
  · exact ⟨_, _, hl.insert_tail hsh.size hn rfl hchain helt hempty, hst.placed.insert hocc hc, by simp⟩

theorem kickoutBucket_spec (hst : Stored hashKey t occ cell chain) (hc : cell (h % t.numBuckets) = some (i, keyHash))
    (hmain : keyHash % t.numBuckets ≠ h % t.numBuckets) (hex : ∃ e < t.numBuckets, (t.index e).isEmpty) :
    ∃ index last, t.kickoutBucket (keyHash % t.numBuckets) (h % t.numBuckets)
        = some (h % t.numBuckets, { t with index, last }) ∧
      Ready { t with index, last } occ (h % t.numBuckets) h := by
  have hsh := hst.shape
  have hl := hst.laid
  have hb := hl.mem_chain hc
  have hblt := hl.lt_of_mem hb
  obtain ⟨p, a, q, hchain⟩ := hl.exists_prev hc hmain
  have halt : a < t.numBuckets := hl.lt_of_mem (m := keyHash % t.numBuckets) (by simp [hchain])
  have hnextlt : (t.index (h % t.numBuckets)).next < t.numBuckets := hl.lt_of_mem ((hl.linked _).next_mem hb)
  obtain ⟨e, last, hfind, helt, hempty⟩ := findEmptyBucket_spec hsh hnextlt hex 2
  have hec := hl.cell_eq_none hsh.size helt hempty
  have hprev : { t with last }.findPrevBucket (keyHash % t.numBuckets) (h % t.numBuckets) = some a :=
    findPrevBucket_eq (t := { t with last }) hl hchain
  have hae : a ≠ e := by
    rintro rfl
    exact hl.notMem_chain (m := keyHash % t.numBuckets) hec (by simp [hchain])
  have hbe : h % t.numBuckets ≠ e := by
    intro hbe
    rw [← hbe, hc] at hec
    cases hec
  have hab : a ≠ h % t.numBuckets := by
    intro hab
    have hnodup := hl.nodup (keyHash % t.numBuckets)
    rw [hchain, hab] at hnodup
    simp [List.nodup_append] at hnodup
  refine ⟨LaidOut.moved t.index a (h % t.numBuckets) e, last, ?_, ?_⟩
  · have hset := setIndex_eq (t := { t with last }) helt
      ⟨if (t.index (h % t.numBuckets)).next = h % t.numBuckets then e else (t.index (h % t.numBuckets)).next,
        (t.index (h % t.numBuckets)).slot⟩
    simp only [kickoutBucket, indexAt_eq (Nat.lt_add_right 2 hblt), Option.bind_eq_bind, Option.bind_some, hfind,
      hprev, hset]
    rw [setNext_eq, Option.bind_some, setNext_eq]
    · simp [LaidOut.moved, hae, hbe, hab.symm]
    · exact hblt
    · exact halt
  · refine ready_main (hsh.of_index rfl rfl fun x hx => ?_) (hl.move hsh.size hchain helt hempty)
      (hst.placed.move hc hec) (by simp [LaidOut.moved, Index.isEmpty, INACTIVE])
    have hxa : x ≠ a := by omega
    have hxe : x ≠ e := by omega
    have hxb : x ≠ h % t.numBuckets := by omega
    simp [LaidOut.moved, hxa, hxe, hxb]

theorem findUniqueBucket_spec (hst : Stored hashKey t occ cell chain)
    (hex : ∃ e < t.numBuckets, (t.index e).isEmpty) (h : Nat) :
    ∃ b index last, t.findUniqueBucket hashKey h = some (b, { t with index, last }) ∧
      Ready { t with index, last } occ b h := by
  have hsh := hst.shape
  have hl := hst.laid
  have hmain := hsh.size.mod_lt h
  have hempty := hl.isEmpty_eq hsh.size hmain
  rw [findUniqueBucket, hsh.and_mask, indexAt_eq (by omega)]
  simp only [Option.bind_eq_bind, Option.bind_some, hempty]
  cases hc : cell (h % t.numBuckets) with
  | none =>
    refine ⟨_, t.index, t.last, by simp, ready_main hsh hl hst.placed ?_⟩
    rw [hempty, hc]
    rfl
  | some ih =>
    obtain ⟨i, h'⟩ := ih
    obtain ⟨kv, hkv, hh⟩ := hst.read (hst.placed.sound hc)
    rw [hashMain_cell hl hsh hc hkv hh]
    by_cases hhome : h' % t.numBuckets = h % t.numBuckets
    · -- the main bucket is the first of its chain
      obtain ⟨l, hcons⟩ := hl.chain_eq_cons hc
      rw [hhome] at hcons
      obtain ⟨r, a, hr⟩ := (List.eq_nil_or_concat' (h % t.numBuckets :: l)).resolve_left (by simp)
      have hlast := findLastBucket_main hl hcons hr
      have halt : a < t.numBuckets := hl.lt_of_mem (m := h % t.numBuckets) (by simp [hcons, hr])
      obtain ⟨e, last, hfind, helt, he⟩ := findEmptyBucket_spec hsh halt hex 2
      refine ⟨e, _, last, ?_, ready_tail hst (hcons.trans hr) helt he last⟩
      simp only [Option.isNone_some, Bool.false_eq_true, if_false, hhome, ne_eq, not_true_eq_false, Option.bind_some]
      simp only [ne_eq] at hlast
      rw [hlast, Option.bind_some, hfind, Option.bind_some, setNext_eq]
      · rfl
      · exact halt
    · obtain ⟨index, last, hkick, hready⟩ := kickoutBucket_spec hst hc hhome hex
      exact ⟨_, index, last, by simp [hhome, hkick], hready⟩

theorem findOrAllocate_spec [DecidableEq K] (hst : Stored hashKey t occ cell chain)
    (hex : ∃ e < t.numBuckets, (t.index e).isEmpty) (key : K) :
    (∃ b, t.findOrAllocate hashKey key (hashKey key) = some (b, t) ∧ HasKey t cell key b) ∨
    (∃ b index last, t.findOrAllocate hashKey key (hashKey key) = some (b, { t with index, last }) ∧
      Ready { t with index, last } occ b (hashKey key) ∧ ∀ b, ¬ HasKey t cell key b) := by
  have hsh := hst.shape
  have hl := hst.laid
  have hmain := hsh.size.mod_lt (hashKey key)
  have hempty := hl.isEmpty_eq hsh.size hmain
  rw [findOrAllocate, hsh.and_mask, indexAt_eq (by omega)]
  simp only [Option.bind_eq_bind, Option.bind_some, hempty]
  generalize hm : hashKey key % t.numBuckets = m at *
  have hnone : chain m = [] → ∀ b, ¬ HasKey t cell key b := by
    intro hnil b hk
    have hb := hk.mem_chain hst
    rw [hm, hnil] at hb
    cases hb
  cases hc : cell m with
  | none =>
    have hready := ready_main (h := hashKey key) hsh hl hst.placed (by rw [hm, hempty, hc]; rfl)
    rw [hm] at hready
    exact Or.inr ⟨m, t.index, t.last, by simp, hready, hnone (hl.chain_eq_nil (hl.notMem_chain hc))⟩
  | some ih =>
    obtain ⟨i, h'⟩ := ih
    obtain ⟨kv, hkv, hh⟩ := hst.read (hst.placed.sound hc)
    obtain ⟨r, hr, hiff⟩ := holdsKey_spec hst key hc
    rw [hr, hashMain_cell hl hsh hc hkv hh]
    cases r with
    | true => exact Or.inl ⟨m, by simp, hiff.mp rfl⟩
    | false =>
    have hnot : ¬ HasKey t cell key m := fun hk => Bool.false_ne_true (hiff.mpr hk)
    by_cases hhome : h' % t.numBuckets = m
    · -- the main bucket is the first of its chain
      obtain ⟨l, hcons⟩ := hl.chain_eq_cons hc
      rw [hhome] at hcons
      have hlinked := hl.linked m
      have hnodup := hl.nodup m
      have hlen : (chain m).length ≤ t.numBuckets := hl.length_le
      rw [hcons] at hlinked hnodup hlen
      have hkeys : ∀ b, HasKey t cell key b → b ∈ m :: l := by
        intro b hk
        rw [← hcons, ← hm]
        exact hk.mem_chain hst
      cases l with
      | nil =>
        have hnext : (t.index m).next = m := Chains.linked_singleton.mp hlinked
        obtain ⟨e, last, hfind, helt, he⟩ := findEmptyBucket_spec hsh hmain hex 1
        refine Or.inr ⟨e, _, last, ?_, ready_tail (p := []) (a := m) hst (by rw [hm]; exact hcons) helt he last,
          fun b hk => ?_⟩
        · simp only [Option.isNone_some, Bool.false_eq_true, if_false, hhome, ne_eq, not_true_eq_false,
            Option.bind_some, hnext, if_true, hfind]
          rw [setNext_eq]
          · rfl
          · exact hmain
        · have hb := hkeys b hk
          simp only [List.mem_singleton] at hb
          exact hnot (hb ▸ hk)
      | cons d l =>
        have hnext : (t.index m).next = d := hlinked.next_eq (p := [])
        have hdm : d ≠ m := by
          rintro rfl
          simp at hnodup
        have hcells : ∀ x ∈ d :: l, ∃ i h, cell x = some (i, h) := by
          intro x hx
          obtain ⟨i, h, hcx, -⟩ := hl.mem.mp (show x ∈ chain m by rw [hcons]; exact List.mem_cons_of_mem m hx)
          exact ⟨i, h, hcx⟩
        rcases keyLoop_spec hst key 1 (Chains.linked_cons_cons.mp hlinked).2 (List.nodup_cons.mp hnodup).2 hcells
          (show _ ≤ t.numBuckets by simp at hlen ⊢; omega) with ⟨x, -, hk, hloop⟩ | ⟨r, a, n, hlast, hno, hloop⟩
        · exact Or.inl ⟨x, by simp [hhome, hnext, hdm, hloop], hk⟩
        · have halt : a < t.numBuckets := hl.lt_of_mem (m := m) (by simp [hcons, hlast])
          obtain ⟨e, last, hfind, helt, he⟩ := findEmptyBucket_spec hsh halt hex n
          have hchain : chain m = (m :: r) ++ [a] := by rw [hcons, hlast]; rfl
          refine Or.inr ⟨e, _, last, ?_, ready_tail hst (by rw [hm]; exact hchain) helt he last, fun b hk => ?_⟩
          · simp only [Option.isNone_some, Bool.false_eq_true, if_false, hhome, ne_eq, not_true_eq_false,
              Option.bind_some, hnext, hdm, hloop, hfind]
            rw [setNext_eq]
            · rfl
            · exact halt
          · rcases List.mem_cons.mp (hkeys b hk) with rfl | hb
            · exact hnot hk
            · exact hno b hb hk
    · obtain ⟨index, last, hkick, hready⟩ :=
        kickoutBucket_spec (h := hashKey key) hst (hm ▸ hc) (fun hh => hhome (hh.trans hm)) hex
      rw [hm] at hkick hready
      refine Or.inr ⟨m, index, last, by simp [hhome, hkick], hready, hnone (hl.chain_eq_nil fun hmem => ?_)⟩
      exact hhome (hl.home_unique (hl.mem_chain hc) hmem)

/-! ### Taking a bucket out of its chain -/

/-- `erase_bucket`: with the entry of the bucket that it returns made empty, the pair is gone, and the others are
where they were unless they were in that bucket. -/
theorem eraseBucket_spec (hst : Stored hashKey t occ cell chain) (hc : cell b = some (i, h)) :
    ∃ e index cell' chain', t.eraseBucket b (h % t.numBuckets) = some (e, { t with index }) ∧ e < t.numBuckets ∧
      LaidOut t.numBuckets (Function.update index e ⟨INACTIVE, 0⟩) cell' chain' ∧
      Placed (Function.update occ i none) cell' ∧ cell' e = none ∧ Shape { t with index } ∧
      ∀ x j h', x ≠ e → j ≠ i → cell x = some (j, h') → cell' x = some (j, h') := by
  have hsh := hst.shape
  have hl := hst.laid
  have hb := hl.mem_chain hc
  have hblt := hl.lt_of_mem hb
  by_cases hmain : b = h % t.numBuckets
  · obtain ⟨q, hcons⟩ := hl.chain_eq_cons hc
    rw [← hmain] at hcons ⊢
    have hlinked := hl.linked b
    have hnodup := hl.nodup b
    rw [hcons] at hlinked hnodup
    cases q with
    | nil =>
      have hnext : (t.index b).next = b := Chains.linked_singleton.mp hlinked
      refine ⟨b, t.index, _, _, ?_, hblt, hl.unlink_only hcons, hst.placed.remove hc, by simp, hsh, ?_⟩
      · rw [eraseBucket, indexAt_eq (by omega)]
        simp [hnext]
      · intro x j h' hx _ hcx
        rwa [Function.update_of_ne hx]
    | cons c q =>
      have hnext : (t.index b).next = c := hlinked.next_eq (p := [])
      have hbc : b ≠ c := by
        rintro rfl
        simp at hnodup
      obtain ⟨j, h', hcc, -⟩ := hl.mem.mp (show c ∈ chain b by simp [hcons])
      have hclt := (hl.lt hcc).1
      have hplaced : Placed (Function.update occ i none)
          (Function.update (Function.update cell b (cell c)) c none) := by
        have hmove := (hst.placed.remove hc).move (b := c) (e := b) (by simpa [hbc.symm] using hcc) (by simp)
        simpa [hbc.symm, Function.update_idem] using hmove
      refine ⟨c, _, _, _, ?_, hclt, hl.unlink_main hcons, hplaced, by simp, ?_, ?_⟩
      · rw [eraseBucket, indexAt_eq (by omega)]
        simp only [Option.bind_eq_bind, Option.bind_some, hnext, if_true, ne_eq, hbc, not_false_eq_true]
        rw [indexAt_eq (by omega), Option.bind_some, setIndex_eq hblt]
        rfl
      · exact hsh.of_index rfl rfl fun x hx => Function.update_of_ne (by omega) _ _
      · intro x k h'' hxc hki hcx
        have hxb : x ≠ b := by
          rintro rfl
          rw [hc] at hcx
          exact hki (Prod.mk.inj (Option.some.inj hcx)).1.symm
        simpa [hxc, hxb] using hcx
  · obtain ⟨p, a, q, hchain⟩ := hl.exists_prev hc (Ne.symm hmain)
    have halt : a < t.numBuckets := hl.lt_of_mem (m := h % t.numBuckets) (by simp [hchain])
    refine ⟨b, _, _, _, ?_, hblt, hl.unlink hchain, hst.placed.remove hc, by simp, ?_, ?_⟩
    · rw [eraseBucket, indexAt_eq (by omega)]
      simp only [Option.bind_eq_bind, Option.bind_some, hmain, if_false, findPrevBucket_eq hl hchain]
      rw [setNext_eq halt]
      simp [eq_comm]
    · exact hsh.of_index rfl rfl fun x hx => Function.update_of_ne (by omega) _ _
    · intro x j h' hx _ hcx
      rwa [Function.update_of_ne hx]

end keys

end HashMap

end StepMesh.Emhash8
