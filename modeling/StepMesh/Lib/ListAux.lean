import Mathlib.Algebra.Order.Ring.Int
import Mathlib.Data.List.Forall2
import Mathlib.Data.List.Nodup
import Mathlib.Data.List.Perm.Basic
import Mathlib.Data.List.Perm.Subperm

/-!
# Lists: loops over an index, blocks, groups

Facts about `List` that the loop models need and the library does not state: an `Option` loop whose
every round succeeds, a loop over indices as a zip, cutting a list into blocks of equal length,
grouping it by a tag.
-/

namespace List

variable {α β γ : Type*}

theorem mapM_eq_some_map {l : List α} {f : α → Option β} {g : α → β}
    (h : ∀ a ∈ l, f a = some (g a)) : l.mapM f = some (l.map g) := by
  induction l with
  | nil => rfl
  | cons a l ih =>
    rw [mapM_cons, h a mem_cons_self, ih fun b hb => h b (mem_cons_of_mem a hb)]
    rfl

theorem map_eq_of_mapM {l : List α} {f : α → Option β} {r : List β} {g : β → γ} {h : α → γ}
    (hr : l.mapM f = some r) (hg : ∀ a ∈ l, ∀ b, f a = some b → g b = h a) : r.map g = l.map h := by
  induction l generalizing r with
  | nil => obtain rfl : [] = r := by simpa using hr
           rfl
  | cons a l ih =>
    simp only [mapM_cons, Option.bind_eq_bind, Option.bind_eq_some_iff, Option.pure_def,
      Option.some.injEq] at hr
    obtain ⟨b, hb, bs, hbs, rfl⟩ := hr
    rw [map_cons, map_cons, hg a mem_cons_self b hb,
      ih hbs fun a' ha' => hg a' (mem_cons_of_mem a ha')]

theorem exists_mapM_eq_some {l : List α} {f : α → Option β} (h : ∀ a ∈ l, ∃ b, f a = some b) :
    ∃ bs, l.mapM f = some bs ∧ Forall₂ (fun a b => f a = some b) l bs := by
  induction l with
  | nil => exact ⟨[], rfl, .nil⟩
  | cons a l ih =>
    obtain ⟨⟨b, hb⟩, hl⟩ := forall_mem_cons.mp h
    obtain ⟨bs, hbs, hall⟩ := ih hl
    exact ⟨b :: bs, by rw [mapM_cons, hb, hbs]; rfl, .cons hb hall⟩

theorem forM_option_eq_ite {l : List α} {f : α → Option PUnit} (p : α → Prop) [DecidablePred p]
    (h : ∀ a ∈ l, f a = if p a then some ⟨⟩ else none) :
    l.forM f = if ∀ a ∈ l, p a then some ⟨⟩ else none := by
  induction l with
  | nil => rfl
  | cons a l ih =>
    obtain ⟨ha, hl⟩ := forall_mem_cons.mp h
    show (f a >>= fun _ => l.forM f) = _
    rw [ha, ih hl]
    by_cases hp : p a <;> simp [hp]

theorem exists_append_of_getElem? {l : List α} {i : Nat} {a : α} (h : l[i]? = some a) :
    ∃ l₁ l₂, l = l₁ ++ a :: l₂ ∧ l₁.length = i := by
  obtain ⟨hi, rfl⟩ := getElem?_eq_some_iff.mp h
  exact ⟨l.take i, l.drop (i + 1), by simp, by simp; omega⟩

theorem eraseIdx_of_append {l₁ l₂ : List α} {a : α} : (l₁ ++ a :: l₂).eraseIdx l₁.length = l₁ ++ l₂ := by
  simp [eraseIdx_append_of_length_le]

theorem countP_update [DecidableEq α] {l : List α} (hnd : l.Nodup) (f : α → β) (a : α) (b : β)
    (p : β → Bool) :
    l.countP (fun x => p (Function.update f a b x)) + (if a ∈ l then (p (f a)).toNat else 0) =
      l.countP (fun x => p (f x)) + if a ∈ l then (p b).toNat else 0 := by
  induction l with
  | nil => rfl
  | cons c l ih =>
    obtain ⟨hc, hnd⟩ := nodup_cons.mp hnd
    have ih := ih hnd
    by_cases hac : a = c
    · subst hac
      simp only [hc, if_false, Nat.add_zero] at ih
      simp only [countP_cons, ih, mem_cons_self, if_true, Function.update_self]
      cases p (f a) <;> cases p b <;> simp
    · simp only [countP_cons, Function.update_of_ne (Ne.symm hac), mem_cons, hac, false_or]
      omega

theorem count_flatMap_replicate [DecidableEq α] (l : List α) (n : Nat) (a : α) :
    (l.flatMap (replicate n)).count a = n * l.count a := by
  induction l with
  | nil => simp
  | cons b l ih =>
    rw [flatMap_cons, count_append, ih, count_replicate, count_cons, Nat.mul_add]
    by_cases hb : b = a <;> simp [hb, Nat.add_comm]

theorem map_range_getElem_eq_zipWith (f : α → β → γ) {as : List α} {bs : List β} {n : Nat}
    (ha : as.length = n) (hb : bs.length = n) {g : Nat → γ}
    (hg : ∀ i (hia : i < as.length) (hib : i < bs.length), g i = f as[i] bs[i]) :
    (range n).map g = zipWith f as bs := by
  apply ext_getElem
  · simp [ha, hb]
  · intro i hi _
    simp only [length_map, length_range] at hi
    simp [hg i (by omega) (by omega)]

/-- The blocks `[s·b, s·b + b)` of a list of length `n·b`, for `s < n`, are the whole list. -/
theorem flatMap_blocks (l : List α) (n b : Nat) (h : l.length = n * b) :
    ((range n).flatMap fun s => (l.drop (s * b)).take b) = l := by
  induction n generalizing l with
  | zero => simp_all
  | succ n ih =>
    rw [range_succ_eq_map, flatMap_cons, flatMap_map, Nat.zero_mul, drop_zero]
    have hd : (l.drop b).length = n * b := by
      rw [length_drop, h, Nat.add_mul, Nat.one_mul, Nat.add_sub_cancel]
    have hrest := ih (l.drop b) hd
    simp only [drop_drop] at hrest
    calc l.take b ++ ((range n).flatMap fun s => (l.drop ((s + 1) * b)).take b)
        = l.take b ++ ((range n).flatMap fun s => (l.drop (b + s * b)).take b) := by
          congr 2; funext s; rw [Nat.add_mul, Nat.one_mul, Nat.add_comm]
      _ = l.take b ++ l.drop b := by rw [hrest]
      _ = l := take_append_drop b l

theorem filter_map_pair_range (n s : Nat) (hs : s < n) (f : Nat → α) :
    (((range n).map fun i => (i, f i)).filter fun p => p.1 = s) = [(s, f s)] := by
  rw [filter_map]
  have : (range n).filter ((fun p : Nat × α => decide (p.1 = s)) ∘ fun i => (i, f i)) = [s] := by
    show (range n).filter (fun i => decide (i = s)) = [s]
    have := (nodup_range (n := n)).filter (fun i => decide (i = s))
    have hmem : ∀ i, i ∈ (range n).filter (fun i => decide (i = s)) ↔ i = s := by
      intro i; simp; omega
    match hl : (range n).filter (fun i => decide (i = s)) with
    | [] => simp [hl] at hmem
    | [i] => rw [hl] at hmem; rw [(hmem i).mp (by simp)]
    | i :: j :: rest =>
      rw [hl] at hmem this
      have hi := (hmem i).mp (by simp)
      have hj := (hmem j).mp (by simp)
      subst hi; subst hj; simp at this
  rw [this]; rfl

theorem map_erase_of_injOn [DecidableEq α] [DecidableEq β] (f : α → β) {l : List α} {a : α}
    (h : ∀ b ∈ l, f b = f a → b = a) : (l.map f).erase (f a) = (l.erase a).map f := by
  induction l with
  | nil => rfl
  | cons b l ih =>
    by_cases hb : b = a
    · simp [hb]
    · have hf : f b ≠ f a := fun he => hb (h b mem_cons_self he)
      rw [map_cons, erase_cons_tail (by simpa using hf), erase_cons_tail (by simpa using hb), map_cons,
        ih fun c hc => h c (mem_cons_of_mem b hc)]

theorem lt_of_getElem?_eq_some {l : List α} {a : α} {i : Nat} (h : l[i]? = some a) : i < l.length :=
  (getElem?_eq_some_iff.mp h).1

theorem IsPrefix.getElem?_some {l l' : List α} (h : l <+: l') {a : α} {i : Nat} (ha : l[i]? = some a) :
    l'[i]? = some a := by
  obtain ⟨r, rfl⟩ := h
  rw [getElem?_append_left (lt_of_getElem?_eq_some ha), ha]

theorem getElem?_snoc_of_eq_some {l : List α} {a : α} {i : Nat} (h : l[i]? = some a) (b : α) :
    (l ++ [b])[i]? = some a :=
  (prefix_append l [b]).getElem?_some h

theorem getElem?_snoc_eq_some {l : List α} {a b : α} {i : Nat} (h : (l ++ [a])[i]? = some b) :
    l[i]? = some b ∨ i = l.length ∧ a = b := by
  rw [getElem?_append] at h
  split_ifs at h with hi
  · exact .inl h
  · rw [getElem?_singleton] at h
    split_ifs at h with hz
    exact .inr ⟨by omega, Option.some.inj h⟩

theorem perm_flatten_set {ls : List (List α)} {i : Nat} {l : List α} (h : ls[i]? = some l) (l' : List α) :
    ((ls.set i l').flatten ++ l).Perm (ls.flatten ++ l') := by
  induction ls generalizing i with
  | nil => simp at h
  | cons x ls ih =>
    cases i with
    | zero =>
      obtain rfl : x = l := by simpa using h
      simp only [set_cons_zero, flatten_cons, append_assoc]
      refine perm_append_comm.trans ?_
      rw [append_assoc]
      exact perm_append_comm_assoc ..
    | succ i =>
      simp only [set_cons_succ, flatten_cons, append_assoc]
      exact (ih (by simpa using h)).append_left x

theorem perm_flatMap_filter_eq [DecidableEq β] (tag : α → β) {tags : List β} (hnd : tags.Nodup)
    {l : List α} (h : ∀ a ∈ l, tag a ∈ tags) :
    l.Perm (tags.flatMap fun t => l.filter (tag · = t)) := by
  induction tags generalizing l with
  | nil =>
    obtain rfl : l = [] := eq_nil_iff_forall_not_mem.mpr fun a ha => by simpa using h a ha
    rfl
  | cons t tags ih =>
    obtain ⟨ht, hnd⟩ := nodup_cons.mp hnd
    have hrest : ∀ a ∈ l.filter (fun a => !decide (tag a = t)), tag a ∈ tags := by
      intro a ha
      obtain ⟨hal, hne⟩ := mem_filter.mp ha
      exact (mem_cons.mp (h a hal)).resolve_left (by simpa using hne)
    have hgroups : (tags.flatMap fun t' => (l.filter fun a => !decide (tag a = t)).filter (tag · = t')) =
        tags.flatMap fun t' => l.filter (tag · = t') := by
      refine flatMap_congr fun t' ht' => ?_
      rw [filter_filter]
      refine filter_congr fun a _ => ?_
      by_cases hat : tag a = t'
      · have : t' ≠ t := fun he => ht (he ▸ ht')
        simp [hat, this]
      · simp [hat]
    rw [flatMap_cons, ← hgroups]
    exact (filter_append_perm (fun a => decide (tag a = t)) l).symm.trans ((ih hnd hrest).append_left _)

theorem length_eq_iff_forall_lt_mem {l : List Nat} {n : Nat} (hnd : l.Nodup) (hlt : ∀ i ∈ l, i < n) :
    l.length = n ↔ ∀ i < n, i ∈ l := by
  have hsub : l.Subperm (range n) := hnd.subperm fun i hi => mem_range.mpr (hlt i hi)
  constructor
  · intro hlen i hi
    exact (hsub.perm_of_length_le (by simp [hlen])).mem_iff.mpr (mem_range.mpr hi)
  · intro hall
    have hsup : (range n).Subperm l := nodup_range.subperm fun i hi => hall i (mem_range.mp hi)
    simpa using (hsub.antisymm hsup).length_eq

/-- If nothing is in two of the lists, an element of each tells them apart. -/
theorem nodup_map_of_nodup_flatMap {l : List α} {f : α → β} {g : α → List β} (h : (l.flatMap g).Nodup)
    (hf : ∀ a ∈ l, f a ∈ g a) : (l.map f).Nodup := by
  refine pairwise_map.mpr ((nodup_flatMap.mp h).2.imp_of_mem fun {a b} ha hb hd heq => ?_)
  exact hd (hf a ha) (heq ▸ hf b hb)

theorem set_of_append {l₁ l₂ : List α} {a b : α} : (l₁ ++ a :: l₂).set l₁.length b = l₁ ++ b :: l₂ := by
  simp

theorem filterMap_set_of_eq {f : α → Option β} {l : List α} {i : Nat} {a b : α} (h : l[i]? = some a)
    (hf : f b = f a) : (l.set i b).filterMap f = l.filterMap f := by
  obtain ⟨l₁, l₂, rfl, rfl⟩ := exists_append_of_getElem? h
  rw [set_of_append, filterMap_append, filterMap_append, filterMap_cons, filterMap_cons, hf]

theorem eq_of_nodup_filterMap {f : α → Option β} {l : List α} (h : (l.filterMap f).Nodup) {i j : Nat} {a b : α}
    {c : β} (hi : l[i]? = some a) (hj : l[j]? = some b) (ha : f a = some c) (hb : f b = some c) : i = j := by
  have hpair := pairwise_iff_getElem.mp (pairwise_filterMap.mp h)
  obtain ⟨hi', rfl⟩ := getElem?_eq_some_iff.mp hi
  obtain ⟨hj', rfl⟩ := getElem?_eq_some_iff.mp hj
  rcases Nat.lt_trichotomy i j with hlt | heq | hlt
  · exact absurd rfl (hpair i j hi' hj' hlt c ha c hb)
  · exact heq
  · exact absurd rfl (hpair j i hj' hi' hlt c hb c ha)

theorem filterMap_set_none {f : α → Option β} {l : List α} {i : Nat} {a b : α} {c : β} (h : l[i]? = some a)
    (ha : f a = some c) (hb : f b = none) : (l.filterMap f).Perm (c :: (l.set i b).filterMap f) := by
  obtain ⟨l₁, l₂, rfl, rfl⟩ := exists_append_of_getElem? h
  rw [set_of_append, filterMap_append, filterMap_append, filterMap_cons, filterMap_cons, ha, hb]
  exact perm_middle

theorem filterMap_getElem?_zipIdx (l : List α) (p : α → Prop) [DecidablePred p] :
    (l.zipIdx.filterMap fun e => if p e.1 then some e.2 else none).filterMap (l[·]?) = l.filter p := by
  have hget : ∀ e ∈ l.zipIdx, (if p e.1 then some e.2 else none).bind (l[·]?) = if p e.1 then some e.1 else none := by
    intro e he
    have hl : l[e.2]? = some e.1 := mem_zipIdx_iff_getElem?.mp he
    split_ifs
    · exact hl
    · rfl
  rw [filterMap_filterMap, filterMap_congr hget]
  conv_rhs => rw [← zipIdx_map_fst 0 l, filter_map, ← filterMap_eq_map, filterMap_filter]
  refine filterMap_congr fun e _ => ?_
  simp only [Function.comp_apply, decide_eq_true_eq]

theorem forall₂_replicate {R : α → β → Prop} {x : α} {y : β} (n : Nat) (h : R x y) :
    Forall₂ R (replicate n x) (replicate n y) := by
  induction n with
  | zero => exact .nil
  | succ n ih => exact .cons h ih

theorem forall₂_filterMap_left {R : β → α → Prop} {f : α → Option β} {l : List α}
    (h : ∀ x ∈ l, ∃ y, f x = some y ∧ R y x) : Forall₂ R (l.filterMap f) l := by
  induction l with
  | nil => exact .nil
  | cons x l ih =>
    obtain ⟨⟨y, hy, hR⟩, hl⟩ := forall_mem_cons.mp h
    rw [filterMap_cons_some hy]
    exact .cons hR (ih hl)

theorem map_eq_map_of_forall₂ {R : α → β → Prop} {l : List α} {m : List β} {f : α → γ} {g : β → γ}
    (h : Forall₂ R l m) (hfg : ∀ x y, R x y → f x = g y) : l.map f = m.map g := by
  induction h with
  | nil => rfl
  | cons hxy _ ih => rw [map_cons, map_cons, hfg _ _ hxy, ih]

theorem forall₂_comp {R : α → β → Prop} {S : β → γ → Prop} {T : α → γ → Prop} {l : List α} {m : List β} {n : List γ}
    (h : Forall₂ R l m) (h' : Forall₂ S m n) (hT : ∀ x y z, R x y → S y z → T x z) : Forall₂ T l n := by
  induction h generalizing n with
  | nil => cases h'; exact .nil
  | cons hxy _ ih =>
    obtain ⟨z, n, hyz, hrest, rfl⟩ := forall₂_cons_left_iff.mp h'
    exact .cons (hT _ _ _ hxy hyz) (ih hrest)

theorem exists_getElem?_of_forall₂_left {R : α → β → Prop} {l : List α} {m : List β} (h : Forall₂ R l m) {i : Nat}
    {x : α} (hx : l[i]? = some x) : ∃ y, m[i]? = some y ∧ R x y := by
  obtain ⟨hi, rfl⟩ := getElem?_eq_some_iff.mp hx
  exact ⟨_, getElem?_eq_getElem (h.length_eq ▸ hi), h.get hi (h.length_eq ▸ hi)⟩

theorem exists_getElem?_of_forall₂_right {R : α → β → Prop} {l : List α} {m : List β} (h : Forall₂ R l m) {i : Nat}
    {y : β} (hy : m[i]? = some y) : ∃ x, l[i]? = some x ∧ R x y := by
  obtain ⟨hi, rfl⟩ := getElem?_eq_some_iff.mp hy
  exact ⟨_, getElem?_eq_getElem (h.length_eq ▸ hi), h.get (h.length_eq ▸ hi) hi⟩

theorem exists_mem_of_forall₂_left {R : α → β → Prop} {l : List α} {m : List β} (h : Forall₂ R l m) {x : α}
    (hx : x ∈ l) : ∃ y ∈ m, R x y := by
  obtain ⟨i, hi⟩ := getElem?_of_mem hx
  obtain ⟨y, hy, hR⟩ := exists_getElem?_of_forall₂_left h hi
  exact ⟨y, mem_of_getElem? hy, hR⟩

theorem exists_mem_of_forall₂_right {R : α → β → Prop} {l : List α} {m : List β} (h : Forall₂ R l m) {y : β}
    (hy : y ∈ m) : ∃ x ∈ l, R x y := by
  obtain ⟨i, hi⟩ := getElem?_of_mem hy
  obtain ⟨x, hx, hR⟩ := exists_getElem?_of_forall₂_right h hi
  exact ⟨x, mem_of_getElem? hx, hR⟩

theorem forall₂_zipWith_right {R : β → γ → Prop} {f : α → β → γ} {l : List α} {m : List β} (hlen : l.length = m.length)
    (h : ∀ (i : Nat) x y, l[i]? = some x → m[i]? = some y → R y (f x y)) : Forall₂ R m (zipWith f l m) := by
  refine forall₂_iff_get.mpr ⟨by simp [hlen], fun i hi _ => ?_⟩
  have hil : i < l.length := hlen ▸ hi
  simpa using h i _ _ (getElem?_eq_getElem hil) (getElem?_eq_getElem hi)

theorem filter_flatten_of_getElem? {ls : List (List α)} {i : Nat} {l : List α} (hl : ls[i]? = some l) {p : α → Bool}
    (hin : ∀ x ∈ l, p x) (hout : ∀ (j : Nat) l', j ≠ i → ls[j]? = some l' → ∀ x ∈ l', p x = false) :
    ls.flatten.filter p = l := by
  obtain ⟨l₁, l₂, rfl, rfl⟩ := exists_append_of_getElem? hl
  have h₁ : l₁.flatten.filter p = [] := by
    refine filter_eq_nil_iff.mpr fun x hx => ?_
    obtain ⟨l', hl', hx⟩ := mem_flatten.mp hx
    obtain ⟨j, hj⟩ := getElem?_of_mem hl'
    have hlt := lt_of_getElem?_eq_some hj
    simp [hout j l' (Nat.ne_of_lt hlt) (by rw [getElem?_append_left hlt, hj]) x hx]
  have h₂ : l₂.flatten.filter p = [] := by
    refine filter_eq_nil_iff.mpr fun x hx => ?_
    obtain ⟨l', hl', hx⟩ := mem_flatten.mp hx
    obtain ⟨j, hj⟩ := getElem?_of_mem hl'
    have hget : (l₁ ++ l :: l₂)[l₁.length + (j + 1)]? = some l' := by
      rw [getElem?_append_right (Nat.le_add_right ..), Nat.add_sub_cancel_left, getElem?_cons_succ, hj]
    simp [hout _ l' (by omega) hget x hx]
  rw [flatten_append, flatten_cons, filter_append, filter_append, h₁, h₂, filter_eq_self.mpr hin, nil_append,
    append_nil]

theorem exists_map_snd_eq {P : γ → α → Prop} {l : List α} (h : ∀ x ∈ l, ∃ i, P i x) :
    ∃ t : List (γ × α), t.map Prod.snd = l ∧ ∀ e ∈ t, P e.1 e.2 := by
  induction l with
  | nil => exact ⟨[], rfl, fun _ h => nomatch h⟩
  | cons x l ih =>
    obtain ⟨⟨i, hi⟩, hl⟩ := forall_mem_cons.mp h
    obtain ⟨t, rfl, ht⟩ := ih hl
    exact ⟨(i, x) :: t, rfl, forall_mem_cons.mpr ⟨hi, ht⟩⟩

end List
