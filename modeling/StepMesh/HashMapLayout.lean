import Mathlib.Data.Finset.Card
import StepMesh.Lib.Chains
import StepMesh.HashMap

/-!
# The buckets of the hash map

`LaidOut` relates `_index` to what the buckets hold, each the place of a pair with its hash: the buckets of the
pairs with one main bucket are a chain that starts there, and the others are empty. It is kept when a pair is put
into its main bucket or at the end of a chain, when a bucket's pair moves to an empty bucket, and when a bucket is
taken out of its chain.
-/

namespace StepMesh.Emhash8

open Chains (Linked)

/-! ### Places and hashes in one word -/

/-- The number of buckets is a power of two, and `int` has room for it. -/
def Size (nb : Nat) : Prop := ∃ k, 2 ≤ k ∧ k ≤ 31 ∧ nb = 2 ^ k

namespace Size

variable {nb i h x : Nat}

theorem four_le (hs : Size nb) : 4 ≤ nb := by
  obtain ⟨k, hk, -, rfl⟩ := hs
  exact Nat.pow_le_pow_right (n := 2) (by decide) hk

theorem le (hs : Size nb) : nb ≤ 2 ^ 31 := by
  obtain ⟨k, -, hk, rfl⟩ := hs
  exact Nat.pow_le_pow_right (by decide) hk

theorem and_mask (hs : Size nb) (x : Nat) : x &&& (nb - 1) = x % nb := by
  obtain ⟨k, -, -, rfl⟩ := hs
  exact Nat.and_two_pow_sub_one_eq_mod x k

theorem mod_and_mask (hs : Size nb) (x : Nat) : x % 2 ^ 32 &&& (nb - 1) = x % nb := by
  rw [hs.and_mask]
  obtain ⟨k, -, hk, rfl⟩ := hs
  exact Nat.mod_mod_of_dvd x (Nat.pow_dvd_pow 2 (by omega))

theorem mod_lt (hs : Size nb) (x : Nat) : x % nb < nb := Nat.mod_lt _ (by have := hs.four_le; omega)

/-- The bits of `~_mask` are those above the mask. -/
private theorem testBit_high {k j : Nat} (hk : k ≤ 31) (hj : j < k) : (2 ^ 32 - 1 - (2 ^ k - 1)).testBit j = false := by
  have hle : 2 ^ k ≤ 2 ^ 32 := Nat.pow_le_pow_right (by decide) (by omega)
  have hpos : 0 < 2 ^ k := Nat.two_pow_pos k
  have hsub : 2 ^ 32 - 1 - (2 ^ k - 1) = 2 ^ 32 - 2 ^ k := by omega
  have hdvd : 2 ^ k ∣ 2 ^ 32 - 2 ^ k := Nat.dvd_sub (Nat.pow_dvd_pow 2 (by omega)) (dvd_refl _)
  have hmod := Nat.testBit_mod_two_pow (2 ^ 32 - 2 ^ k) k j
  rw [Nat.mod_eq_zero_of_dvd hdvd] at hmod
  rw [hsub]
  simpa [hj] using hmod.symm

theorem slot_and_mask (hs : Size nb) (hi : i < nb) : (i ||| highBits (nb - 1) h) &&& (nb - 1) = i := by
  obtain ⟨k, -, hk, rfl⟩ := hs
  refine Nat.eq_of_testBit_eq fun j => ?_
  simp only [highBits, Nat.testBit_and, Nat.testBit_or, Nat.testBit_two_pow_sub_one]
  by_cases hj : j < k
  · rw [testBit_high hk hj]
    simp [hj]
  · simp [hj, Nat.testBit_lt_two_pow (lt_of_lt_of_le hi (Nat.pow_le_pow_right (by decide) (not_lt.mp hj)))]

theorem slot_and_high (hs : Size nb) (hi : i < nb) :
    (i ||| highBits (nb - 1) h) &&& (2 ^ 32 - 1 - (nb - 1)) = highBits (nb - 1) h := by
  obtain ⟨k, -, hk, rfl⟩ := hs
  refine Nat.eq_of_testBit_eq fun j => ?_
  simp only [highBits, Nat.testBit_and, Nat.testBit_or]
  by_cases hj : j < k
  · rw [testBit_high hk hj]
    simp
  · simp [Nat.testBit_lt_two_pow (lt_of_lt_of_le hi (Nat.pow_le_pow_right (by decide) (not_lt.mp hj)))]

end Size

/-! ### The layout -/

/-- The links of the buckets. -/
def nexts (index : Nat → Index) (bucket : Nat) : Nat := (index bucket).next

theorem nexts_update (index : Nat → Index) (b : Nat) (i : Index) :
    nexts (Function.update index b i) = Function.update (nexts index) b i.next := by
  funext x
  by_cases hx : x = b
  · subst hx; simp [nexts]
  · simp [nexts, hx]

/-- `cell` is what each bucket holds, the place of its pair and the hash of the key; `chain` is the buckets of each
main bucket. -/
structure LaidOut (nb : Nat) (index : Nat → Index) (cell : Nat → Option (Nat × Nat)) (chain : Nat → List Nat) :
    Prop where
  lt : ∀ {b i h}, cell b = some (i, h) → b < nb ∧ i < nb
  slot : ∀ {b i h}, cell b = some (i, h) → (index b).slot = i ||| highBits (nb - 1) h
  dead : ∀ {b}, b < nb → cell b = none → (index b).isEmpty
  mem : ∀ {m b}, b ∈ chain m ↔ ∃ i h, cell b = some (i, h) ∧ h % nb = m
  linked : ∀ m, Linked (nexts index) (chain m)
  nodup : ∀ m, (chain m).Nodup
  head : ∀ m, chain m = [] ∨ ∃ l, chain m = m :: l

namespace LaidOut

variable {nb : Nat} {index : Nat → Index} {cell : Nat → Option (Nat × Nat)} {chain : Nat → List Nat}
  {a b c e m n i j h : Nat} {p q : List Nat}

section facts
variable (hl : LaidOut nb index cell chain)
include hl

theorem lt_of_mem (hb : b ∈ chain m) : b < nb := by
  obtain ⟨i, h, hc, -⟩ := hl.mem.mp hb
  exact (hl.lt hc).1

theorem length_le : (chain m).length ≤ nb := by
  have hsub : chain m ⊆ List.range nb := fun b hb => List.mem_range.mpr (hl.lt_of_mem hb)
  simpa using ((hl.nodup m).subperm hsub).length_le

theorem mem_chain (hc : cell b = some (i, h)) : b ∈ chain (h % nb) := hl.mem.mpr ⟨i, h, hc, rfl⟩

theorem home_unique (hb : b ∈ chain m) (hb' : b ∈ chain n) : m = n := by
  obtain ⟨i, h, hc, rfl⟩ := hl.mem.mp hb
  obtain ⟨i', h', hc', rfl⟩ := hl.mem.mp hb'
  rw [hc] at hc'
  obtain ⟨rfl, rfl⟩ := Prod.mk.inj (Option.some.inj hc')
  rfl

theorem isEmpty_eq (hs : Size nb) (hb : b < nb) : (index b).isEmpty = (cell b).isNone := by
  cases hc : cell b with
  | none => simpa using hl.dead hb hc
  | some p =>
    have hmem : b ∈ chain (p.2 % nb) := hl.mem_chain (i := p.1) hc
    have hnext := hl.lt_of_mem ((hl.linked _).next_mem hmem)
    have hle := hs.le
    simp only [nexts] at hnext
    simp only [Index.isEmpty, Option.isNone_some, decide_eq_false_iff_not]
    omega

theorem cell_eq_none (hs : Size nb) (hb : b < nb) (he : (index b).isEmpty) : cell b = none := by
  rw [hl.isEmpty_eq hs hb] at he
  simpa using he

theorem notMem_chain (hc : cell b = none) : b ∉ chain m := by
  rw [hl.mem, hc]
  simp

theorem chain_eq_nil (hm : m ∉ chain m) : chain m = [] := by
  rcases hl.head m with hnil | ⟨l, hcons⟩
  · exact hnil
  · rw [hcons] at hm
    simp at hm

theorem chain_eq_cons (hc : cell b = some (i, h)) : ∃ l, chain (h % nb) = h % nb :: l := by
  rcases hl.head (h % nb) with hnil | hcons
  · have hb := hl.mem_chain hc
    rw [hnil] at hb
    cases hb
  · exact hcons

theorem eq_nil_of_main (hchain : chain m = p ++ m :: q) : p = [] := by
  cases p with
  | nil => rfl
  | cons x p =>
    rcases hl.head m with hnil | ⟨r, hr⟩
    · simp [hchain] at hnil
    · have hnodup := hl.nodup m
      obtain ⟨rfl, -⟩ := List.cons.inj (hchain.symm.trans hr)
      rw [hchain] at hnodup
      simp at hnodup

theorem head_splice (hchain : chain m = p ++ a :: q) (l : List Nat) : ∃ r, p ++ a :: l = m :: r := by
  rcases hl.head m with hnil | ⟨r, hr⟩
  · simp [hchain] at hnil
  · cases p with
    | nil =>
      obtain ⟨rfl, -⟩ := List.cons.inj (hchain.symm.trans hr)
      exact ⟨l, rfl⟩
    | cons x p =>
      obtain ⟨rfl, -⟩ := List.cons.inj (hchain.symm.trans hr)
      exact ⟨p ++ a :: l, rfl⟩

theorem exists_prev (hc : cell b = some (i, h)) (hmain : h % nb ≠ b) :
    ∃ p a q, chain (h % nb) = p ++ a :: b :: q := by
  obtain ⟨p, q, hsplit⟩ := List.append_of_mem (hl.mem_chain hc)
  rcases List.eq_nil_or_concat' p with rfl | ⟨p, a, rfl⟩
  · obtain ⟨l, hcons⟩ := hl.chain_eq_cons hc
    exact absurd (List.cons.inj (hcons.symm.trans hsplit)).1 hmain
  · exact ⟨p, a, q, by simpa using hsplit⟩

theorem exists_isEmpty (hn : n < nb) (hlt : ∀ b i h, cell b = some (i, h) → i < n)
    (hinj : ∀ b b' i h h', cell b = some (i, h) → cell b' = some (i, h') → b = b') :
    ∃ e < nb, (index e).isEmpty := by
  by_contra hfull
  push Not at hfull
  have hcell : ∀ b < nb, ∃ i h, cell b = some (i, h) := by
    intro b hb
    cases hc : cell b with
    | none => exact absurd (hl.dead hb hc) (hfull b hb)
    | some p => exact ⟨p.1, p.2, rfl⟩
  have hcard := Finset.card_le_card_of_injOn (s := Finset.range nb) (t := Finset.range n)
    (fun b => ((cell b).map Prod.fst).getD 0) ?_ ?_
  · simp at hcard
    omega
  · intro b hb
    obtain ⟨i, h, hc⟩ := hcell b (by simpa using hb)
    simpa [hc] using hlt b i h hc
  · intro b hb b' hb' heq
    obtain ⟨i, h, hc⟩ := hcell b (by simpa using hb)
    obtain ⟨i', h', hc'⟩ := hcell b' (by simpa using hb')
    simp only [hc, hc', Option.map_some, Option.getD_some] at heq
    subst heq
    exact hinj _ _ _ _ _ hc hc'

end facts

theorem empty (hempty : ∀ b < nb, (index b).isEmpty) : LaidOut nb index (fun _ => none) fun _ => [] where
  lt hc := by cases hc
  slot hc := by cases hc
  dead hb _ := hempty _ hb
  mem := by simp
  linked _ := Chains.linked_nil
  nodup _ := List.nodup_nil
  head _ := Or.inl rfl

/-! ### Changes to one chain -/

variable {index' : Nat → Index} {cell' : Nat → Option (Nat × Nat)} {l : List Nat}

theorem relink (hl : LaidOut nb index cell chain) (S : Nat → Prop)
    (hindex : ∀ b, ¬ S b → index' b = index b) (hcell : ∀ b, ¬ S b → cell' b = cell b)
    (hold : ∀ b i h, S b → cell b = some (i, h) → h % nb = m)
    (hnew : ∀ b i h, S b → cell' b = some (i, h) →
      h % nb = m ∧ b < nb ∧ i < nb ∧ (index' b).slot = i ||| highBits (nb - 1) h)
    (hdead : ∀ b, S b → b < nb → cell' b = none → (index' b).isEmpty)
    (hmem : ∀ b, b ∈ l ↔ ∃ i h, cell' b = some (i, h) ∧ h % nb = m)
    (hlinked : Linked (nexts index') l) (hnodup : l.Nodup) (hhead : l = [] ∨ ∃ r, l = m :: r) :
    LaidOut nb index' cell' (Function.update chain m l) where
  lt {b i h} hc := by
    by_cases hb : S b
    · have := hnew b i h hb hc
      exact ⟨this.2.1, this.2.2.1⟩
    · exact hl.lt (hcell b hb ▸ hc)
  slot {b i h} hc := by
    by_cases hb : S b
    · exact (hnew b i h hb hc).2.2.2
    · rw [hindex b hb]
      exact hl.slot (hcell b hb ▸ hc)
  dead {b} hlt hc := by
    by_cases hb : S b
    · exact hdead b hb hlt hc
    · rw [hindex b hb]
      exact hl.dead hlt (hcell b hb ▸ hc)
  mem {m' b} := by
    by_cases hm : m' = m
    · subst hm
      simpa using hmem b
    rw [Function.update_of_ne hm, hl.mem]
    by_cases hb : S b
    · -- such a bucket is in no other chain, before and after
      constructor
      · rintro ⟨i, h, hc, rfl⟩
        exact absurd (hold b i h hb hc) hm
      · rintro ⟨i, h, hc, rfl⟩
        exact absurd (hnew b i h hb hc).1 hm
    · rw [hcell b hb]
  linked m' := by
    by_cases hm : m' = m
    · subst hm
      simpa using hlinked
    rw [Function.update_of_ne hm]
    refine (hl.linked m').congr fun b hb => ?_
    have hS : ¬ S b := by
      intro hS
      obtain ⟨i, h, hc, rfl⟩ := hl.mem.mp hb
      exact hm (hold b i h hS hc)
    simp [nexts, hindex b hS]
  nodup m' := by
    by_cases hm : m' = m
    · subst hm
      simpa using hnodup
    · rw [Function.update_of_ne hm]
      exact hl.nodup m'
  head m' := by
    by_cases hm : m' = m
    · subst hm
      simpa using hhead
    · rw [Function.update_of_ne hm]
      exact hl.head m'

/-- The entry of a new pair. -/
def entry (nb next n h : Nat) : Index := ⟨next, n ||| highBits (nb - 1) h⟩

theorem insert_main (hl : LaidOut nb index cell chain) (hs : Size nb) (hn : n < nb) (hm : h % nb = m)
    (he : (index m).isEmpty) :
    LaidOut nb (Function.update index m (entry nb m n h)) (Function.update cell m (some (n, h)))
      (Function.update chain m [m]) := by
  have hlt : m < nb := hm ▸ hs.mod_lt h
  have hc := hl.cell_eq_none hs hlt he
  have hnil : chain m = [] := hl.chain_eq_nil (hl.notMem_chain hc)
  refine hl.relink (· = m) (fun b hb => by simp [hb]) (fun b hb => by simp [hb]) ?_ ?_ ?_ ?_ ?_ (by simp)
    (Or.inr ⟨[], rfl⟩)
  · rintro b i h' rfl hb
    rw [hc] at hb
    cases hb
  · rintro b i h' rfl hb
    simp only [Function.update_self, Option.some.injEq, Prod.mk.injEq] at hb
    obtain ⟨rfl, rfl⟩ := hb
    simp [hm, hlt, hn, entry]
  · rintro b rfl - hb
    simp at hb
  · intro b
    by_cases hb : b = m
    · subst hb
      simp [hm]
    · have hmem := hl.mem (m := m) (b := b)
      rw [hnil] at hmem
      simpa [hb] using hmem
  · rw [nexts_update]
    exact Chains.linked_singleton.mpr (by simp [entry])

theorem insert_tail (hl : LaidOut nb index cell chain) (hs : Size nb) (hn : n < nb) (hm : h % nb = m)
    (hchain : chain m = p ++ [a]) (helt : e < nb) (he : (index e).isEmpty) :
    LaidOut nb (Function.update (Function.update index a { index a with next := e }) e (entry nb e n h))
      (Function.update cell e (some (n, h))) (Function.update chain m (p ++ [a, e])) := by
  have hc := hl.cell_eq_none hs helt he
  have hnotMem : e ∉ p ++ [a] := hchain ▸ hl.notMem_chain hc
  have hamem : a ∈ chain m := by simp [hchain]
  have hae : a ≠ e := by rintro rfl; simp at hnotMem
  have hlinked := hl.linked m
  have hnodup := hl.nodup m
  rw [hchain] at hlinked hnodup
  refine hl.relink (fun b => b = a ∨ b = e) (fun b hb => ?_) (fun b hb => ?_) ?_ ?_ ?_ ?_ ?_ ?_ ?_
  · simp only [not_or] at hb
    simp [hb.1, hb.2]
  · simp only [not_or] at hb
    simp [hb.2]
  · rintro b i h' (rfl | rfl) hb
    · exact hl.home_unique (hl.mem_chain hb) hamem
    · rw [hc] at hb
      cases hb
  · rintro b i h' (rfl | rfl) hb
    · rw [Function.update_of_ne hae] at hb
      have hlt := hl.lt hb
      refine ⟨hl.home_unique (hl.mem_chain hb) hamem, hlt.1, hlt.2, ?_⟩
      simp [hae, hl.slot hb]
    · simp only [Function.update_self, Option.some.injEq, Prod.mk.injEq] at hb
      obtain ⟨rfl, rfl⟩ := hb
      simp [hm, helt, hn, entry]
  · rintro b (rfl | rfl) hlt hb
    · rw [Function.update_of_ne hae] at hb
      exact absurd hamem (hl.notMem_chain hb)
    · simp at hb
  · intro b
    by_cases hb : b = e
    · subst hb
      simp [hm]
    · have hmem := hl.mem (m := m) (b := b)
      rw [hchain] at hmem
      simpa [hb] using hmem
  · rw [nexts_update, nexts_update]
    exact hlinked.concat hnodup hnotMem
  · have hperm : (p ++ [a, e]).Perm (e :: (p ++ [a])) := by
      rw [show p ++ [a, e] = (p ++ [a]) ++ [e] by simp]
      exact List.perm_append_singleton e _
    exact hperm.nodup_iff.mpr (List.nodup_cons.mpr ⟨hnotMem, hnodup⟩)
  · exact Or.inr (hl.head_splice hchain [e])

/-- The entries after what is in `b`, behind `a`, has moved to `e`. -/
def moved (index : Nat → Index) (a b e : Nat) : Nat → Index :=
  Function.update (Function.update (Function.update index e
      ⟨if (index b).next = b then e else (index b).next, (index b).slot⟩) a { index a with next := e })
    b { index b with next := INACTIVE }

theorem move (hl : LaidOut nb index cell chain) (hs : Size nb) (hchain : chain m = p ++ a :: b :: q)
    (helt : e < nb) (he : (index e).isEmpty) :
    LaidOut nb (moved index a b e)
      (Function.update (Function.update cell e (cell b)) b none)
      (Function.update chain m (p ++ a :: e :: q)) := by
  have hc := hl.cell_eq_none hs helt he
  have hnotMem : e ∉ p ++ a :: b :: q := hchain ▸ hl.notMem_chain hc
  have hamem : a ∈ chain m := by simp [hchain]
  have hbmem : b ∈ chain m := by simp [hchain]
  have hlinked := hl.linked m
  have hnodup := hl.nodup m
  rw [hchain] at hlinked hnodup
  have hae : a ≠ e := by rintro rfl; simp at hnotMem
  have hbe : b ≠ e := by rintro rfl; simp at hnotMem
  have hsplit : (b :: (p ++ a :: q)).Nodup := by
    have := List.nodup_middle.mp (show ((p ++ [a]) ++ b :: q).Nodup by simpa using hnodup)
    simpa using this
  obtain ⟨hbrest, hrest⟩ := List.nodup_cons.mp hsplit
  have hab : a ≠ b := by rintro rfl; simp at hbrest
  have herest : e ∉ p ++ a :: q := fun hmem => hnotMem (by simp at hmem ⊢; tauto)
  unfold moved
  refine hl.relink (fun x => x = a ∨ x = b ∨ x = e) (fun x hx => ?_) (fun x hx => ?_) ?_ ?_ ?_ ?_ ?_ ?_ ?_
  · simp only [not_or] at hx
    simp [hx.1, hx.2.1, hx.2.2]
  · simp only [not_or] at hx
    simp [hx.2.1, hx.2.2]
  · rintro x i h' (rfl | rfl | rfl) hx
    · exact hl.home_unique (hl.mem_chain hx) hamem
    · exact hl.home_unique (hl.mem_chain hx) hbmem
    · rw [hc] at hx
      cases hx
  · rintro x i h' (rfl | rfl | rfl) hx
    · simp only [ne_eq, hab, not_false_eq_true, Function.update_of_ne, hae] at hx
      have hlt := hl.lt hx
      exact ⟨hl.home_unique (hl.mem_chain hx) hamem, hlt.1, hlt.2, by simp [hab, hl.slot hx]⟩
    · simp at hx
    · simp only [ne_eq, hbe.symm, not_false_eq_true, Function.update_of_ne, Function.update_self] at hx
      exact ⟨hl.home_unique (hl.mem_chain hx) hbmem, helt, (hl.lt hx).2, by simp [hbe.symm, hae.symm, hl.slot hx]⟩
  · rintro x (rfl | rfl | rfl) hlt hx
    · simp only [ne_eq, hab, not_false_eq_true, Function.update_of_ne, hae] at hx
      exact absurd hamem (hl.notMem_chain hx)
    · simp [Index.isEmpty, INACTIVE]
    · simp only [ne_eq, hbe.symm, not_false_eq_true, Function.update_of_ne, Function.update_self] at hx
      exact absurd hbmem (hl.notMem_chain hx)
  · intro x
    have hmem := hl.mem (m := m) (b := x)
    rw [hchain] at hmem
    by_cases hxb : x = b
    · subst hxb
      have hx : x ∉ p ++ a :: e :: q := fun hx => hbrest (by simp [hbe] at hx ⊢; tauto)
      simp [hx]
    by_cases hxe : x = e
    · subst hxe
      obtain ⟨i, h, hcb, hh⟩ := hl.mem.mp hbmem
      simp [hbe.symm, hcb, hh]
    · simpa [hxb, hxe] using hmem
  · rw [nexts_update, nexts_update, nexts_update]
    exact (hlinked.replace hnodup hnotMem).update fun hx => hbrest (by simp [hbe] at hx ⊢; tauto)
  · have hperm : (p ++ a :: e :: q).Perm (e :: (p ++ a :: q)) := by
      rw [show p ++ a :: e :: q = (p ++ [a]) ++ e :: q by simp, show p ++ a :: q = (p ++ [a]) ++ q by simp]
      exact List.perm_middle
    exact hperm.nodup_iff.mpr (List.nodup_cons.mpr ⟨herest, hrest⟩)
  · exact Or.inr (hl.head_splice hchain (e :: q))

theorem unlink (hl : LaidOut nb index cell chain) (hchain : chain m = p ++ a :: b :: q) :
    LaidOut nb
      (Function.update (Function.update index a
        { index a with next := if (index b).next = b then a else (index b).next }) b ⟨INACTIVE, 0⟩)
      (Function.update cell b none) (Function.update chain m (p ++ a :: q)) := by
  have hamem : a ∈ chain m := by simp [hchain]
  have hbmem : b ∈ chain m := by simp [hchain]
  have hlinked := hl.linked m
  have hnodup := hl.nodup m
  rw [hchain] at hlinked hnodup
  have hsplit : (b :: (p ++ a :: q)).Nodup := by
    have := List.nodup_middle.mp (show ((p ++ [a]) ++ b :: q).Nodup by simpa using hnodup)
    simpa using this
  obtain ⟨hbrest, hrest⟩ := List.nodup_cons.mp hsplit
  have hab : a ≠ b := by rintro rfl; simp at hbrest
  refine hl.relink (fun x => x = a ∨ x = b) (fun x hx => ?_) (fun x hx => ?_) ?_ ?_ ?_ ?_ ?_ hrest
    (Or.inr (hl.head_splice hchain q))
  · simp only [not_or] at hx
    simp [hx.1, hx.2]
  · simp only [not_or] at hx
    simp [hx.2]
  · rintro x i h' (rfl | rfl) hx
    · exact hl.home_unique (hl.mem_chain hx) hamem
    · exact hl.home_unique (hl.mem_chain hx) hbmem
  · rintro x i h' (rfl | rfl) hx
    · rw [Function.update_of_ne hab] at hx
      have hlt := hl.lt hx
      exact ⟨hl.home_unique (hl.mem_chain hx) hamem, hlt.1, hlt.2, by simp [hab, hl.slot hx]⟩
    · simp at hx
  · rintro x (rfl | rfl) hlt hx
    · rw [Function.update_of_ne hab] at hx
      exact absurd hamem (hl.notMem_chain hx)
    · simp [Index.isEmpty, INACTIVE]
  · intro x
    have hmem := hl.mem (m := m) (b := x)
    rw [hchain] at hmem
    by_cases hxb : x = b
    · subst hxb
      simpa using hbrest
    · simpa [hxb] using hmem
  · rw [nexts_update, nexts_update]
    exact (hlinked.remove hnodup).update hbrest

/-- The pair of a main bucket goes, and that of the next bucket takes its place. -/
theorem unlink_main (hl : LaidOut nb index cell chain) (hchain : chain m = m :: c :: q) :
    LaidOut nb
      (Function.update (Function.update index m
        ⟨if (index c).next = c then m else (index c).next, (index c).slot⟩) c ⟨INACTIVE, 0⟩)
      (Function.update (Function.update cell m (cell c)) c none) (Function.update chain m (m :: q)) := by
  have hmmem : m ∈ chain m := by simp [hchain]
  have hcmem : c ∈ chain m := by simp [hchain]
  have hlinked := hl.linked m
  have hnodup := hl.nodup m
  rw [hchain] at hlinked hnodup
  have hsplit : (c :: m :: q).Nodup := (List.Perm.swap c m q).nodup_iff.mp hnodup
  obtain ⟨hcrest, hrest⟩ := List.nodup_cons.mp hsplit
  have hmc : m ≠ c := by rintro rfl; simp at hcrest
  refine hl.relink (fun x => x = m ∨ x = c) (fun x hx => ?_) (fun x hx => ?_) ?_ ?_ ?_ ?_ ?_ hrest
    (Or.inr ⟨q, rfl⟩)
  · simp only [not_or] at hx
    simp [hx.1, hx.2]
  · simp only [not_or] at hx
    simp [hx.1, hx.2]
  · rintro x i h' (rfl | rfl) hx
    · exact hl.home_unique (hl.mem_chain hx) hmmem
    · exact hl.home_unique (hl.mem_chain hx) hcmem
  · rintro x i h' (rfl | rfl) hx
    · simp only [ne_eq, hmc, not_false_eq_true, Function.update_of_ne, Function.update_self] at hx
      exact ⟨hl.home_unique (hl.mem_chain hx) hcmem, hl.lt_of_mem hmmem, (hl.lt hx).2, by simp [hmc, hl.slot hx]⟩
    · simp at hx
  · rintro x (rfl | rfl) hlt hx
    · simp only [ne_eq, hmc, not_false_eq_true, Function.update_of_ne, Function.update_self] at hx
      exact absurd hcmem (hl.notMem_chain hx)
    · simp [Index.isEmpty, INACTIVE]
  · intro x
    have hmem := hl.mem (m := m) (b := x)
    rw [hchain] at hmem
    by_cases hxc : x = c
    · subst hxc
      simpa using hcrest
    by_cases hxm : x = m
    · subst hxm
      obtain ⟨i, h, hc, hh⟩ := hl.mem.mp hcmem
      simp [hxc, hc, hh]
    · simpa [hxc, hxm] using hmem
  · rw [nexts_update, nexts_update]
    exact (hlinked.remove (p := []) hnodup).update hcrest

theorem unlink_only (hl : LaidOut nb index cell chain) (hchain : chain m = [m]) :
    LaidOut nb (Function.update index m ⟨INACTIVE, 0⟩) (Function.update cell m none)
      (Function.update chain m []) := by
  refine hl.relink (· = m) (fun x hx => by simp [hx]) (fun x hx => by simp [hx]) ?_ ?_ ?_ ?_ Chains.linked_nil
    List.nodup_nil (Or.inl rfl)
  · rintro x i h' rfl hx
    exact hl.home_unique (hl.mem_chain hx) (show x ∈ chain x by simp [hchain])
  · rintro x i h' rfl hx
    simp at hx
  · rintro x rfl - -
    simp [Index.isEmpty, INACTIVE]
  · intro x
    have hmem := hl.mem (m := m) (b := x)
    rw [hchain] at hmem
    by_cases hx : x = m
    · subst hx
      simp
    · simpa [hx] using hmem

theorem relabel (hl : LaidOut nb index cell chain) (hi : i < nb) (hc : cell b = some (j, h)) :
    LaidOut nb (Function.update index b { index b with slot := i ||| highBits (nb - 1) h })
      (Function.update cell b (some (i, h))) chain := by
  have hb := hl.mem_chain hc
  rw [← Function.update_eq_self (h % nb) chain]
  refine hl.relink (· = b) (fun x hx => by simp [hx]) (fun x hx => by simp [hx]) ?_ ?_ ?_ ?_ ?_ (hl.nodup _)
    (hl.head _)
  · rintro x i' h' rfl hx
    exact hl.home_unique (hl.mem_chain hx) hb
  · rintro x i' h' rfl hx
    simp only [Function.update_self, Option.some.injEq, Prod.mk.injEq] at hx
    obtain ⟨rfl, rfl⟩ := hx
    exact ⟨rfl, (hl.lt hc).1, hi, by simp⟩
  · rintro x rfl - hx
    simp at hx
  · intro x
    by_cases hx : x = b
    · subst hx
      simpa using hb
    · simpa [hx] using hl.mem (m := h % nb) (b := x)
  · rw [nexts_update]
    exact (Function.update_eq_self b (nexts index)).symm ▸ hl.linked _

end LaidOut

/-! ### Places and buckets -/

/-- Each place with a pair, whose hash is `occ`, is in one bucket. -/
structure Placed (occ : Nat → Option Nat) (cell : Nat → Option (Nat × Nat)) : Prop where
  sound : ∀ {b i h}, cell b = some (i, h) → occ i = some h
  complete : ∀ {i h}, occ i = some h → ∃ b, cell b = some (i, h)
  inj : ∀ {b b' i h h'}, cell b = some (i, h) → cell b' = some (i, h') → b = b'

namespace Placed

variable {occ : Nat → Option Nat} {cell : Nat → Option (Nat × Nat)} {b e i j h n : Nat}

theorem empty : Placed (fun _ => none) fun _ => none where
  sound hc := by cases hc
  complete hc := by cases hc
  inj hc := by cases hc

theorem insert (hp : Placed occ cell) (hn : occ n = none) (hb : cell b = none) :
    Placed (Function.update occ n (some h)) (Function.update cell b (some (n, h))) where
  sound {x i h'} hx := by
    by_cases hxb : x = b
    · subst hxb
      simp only [Function.update_self, Option.some.injEq, Prod.mk.injEq] at hx
      simp [← hx.1, hx.2]
    · rw [Function.update_of_ne hxb] at hx
      have hocc := hp.sound hx
      have hin : i ≠ n := by rintro rfl; simp [hn] at hocc
      rwa [Function.update_of_ne hin]
  complete {i h'} hi := by
    by_cases hin : i = n
    · subst hin
      exact ⟨b, by simpa using hi⟩
    · rw [Function.update_of_ne hin] at hi
      obtain ⟨x, hx⟩ := hp.complete hi
      have hxb : x ≠ b := by rintro rfl; simp [hb] at hx
      exact ⟨x, by rwa [Function.update_of_ne hxb]⟩
  inj {x x' i h' h''} hx hx' := by
    have hne : ∀ y h, cell y = some (n, h) → False := fun y h hy => by
      have := hp.sound hy
      simp [hn] at this
    by_cases hxb : x = b <;> by_cases hxb' : x' = b
    · rw [hxb, hxb']
    · subst hxb
      simp only [Function.update_self, Option.some.injEq, Prod.mk.injEq] at hx
      rw [Function.update_of_ne hxb', ← hx.1] at hx'
      exact absurd hx' (hne x' h'')
    · subst hxb'
      simp only [Function.update_self, Option.some.injEq, Prod.mk.injEq] at hx'
      rw [Function.update_of_ne hxb, ← hx'.1] at hx
      exact absurd hx (hne x h')
    · rw [Function.update_of_ne hxb] at hx
      rw [Function.update_of_ne hxb'] at hx'
      exact hp.inj hx hx'

theorem remove (hp : Placed occ cell) (hb : cell b = some (i, h)) :
    Placed (Function.update occ i none) (Function.update cell b none) where
  sound {x i' h'} hx := by
    have hxb : x ≠ b := by rintro rfl; simp at hx
    rw [Function.update_of_ne hxb] at hx
    have hne : i' ≠ i := by rintro rfl; exact hxb (hp.inj hx hb)
    rw [Function.update_of_ne hne]
    exact hp.sound hx
  complete {i' h'} hi := by
    have hne : i' ≠ i := by rintro rfl; simp at hi
    rw [Function.update_of_ne hne] at hi
    obtain ⟨x, hx⟩ := hp.complete hi
    have hxb : x ≠ b := by
      rintro rfl
      rw [hb] at hx
      exact hne (Prod.mk.inj (Option.some.inj hx)).1.symm
    exact ⟨x, by rwa [Function.update_of_ne hxb]⟩
  inj {x x' i' h' h''} hx hx' := by
    have hxb : x ≠ b := by rintro rfl; simp at hx
    have hxb' : x' ≠ b := by rintro rfl; simp at hx'
    rw [Function.update_of_ne hxb] at hx
    rw [Function.update_of_ne hxb'] at hx'
    exact hp.inj hx hx'

theorem move (hp : Placed occ cell) (hb : cell b = some (i, h)) (he : cell e = none) :
    Placed occ (Function.update (Function.update cell e (cell b)) b none) := by
  have hbe : b ≠ e := by rintro rfl; simp [hb] at he
  have hmove := (hp.remove hb).insert (n := i) (b := e) (h := h) (by simp) (by simp [hbe.symm, he])
  have hocc : Function.update (Function.update occ i none) i (some h) = occ := by
    rw [Function.update_idem, ← hp.sound hb, Function.update_eq_self]
  rwa [hocc, ← hb, Function.update_comm hbe] at hmove

end Placed

end StepMesh.Emhash8
