import Mathlib.Algebra.Order.Ring.Int
import Mathlib.Data.List.AList

/-!
# Putting numbered items back in order

The items of `xs` arrive in any order, `seen` says which have. Everything in front of the first missing one,
number `k`, has been passed on; the ones behind it that have arrived are parked under their numbers.
-/

namespace Resequencer

variable {β : Type*} {xs : List β} {seen : Nat → Prop} {k : Nat} {parked parked' : AList fun _ : Int => β}

/-- Parked are the items seen from behind number `k` on. -/
def Parked (xs : List β) (seen : Nat → Prop) (k : Nat) (parked : AList fun _ : Int => β) : Prop :=
  ∀ sid x, parked.lookup sid = some x ↔ ∃ j : Nat, sid = j ∧ k < j ∧ seen j ∧ xs[j]? = some x

theorem Parked.congr {seen' : Nat → Prop} (h : Parked xs seen k parked) (hseen : ∀ j, k < j → (seen j ↔ seen' j)) :
    Parked xs seen' k parked := by
  intro sid x
  rw [h sid x]
  refine exists_congr fun j => and_congr_right fun _ => and_congr_right fun hj => ?_
  rw [hseen j hj]

theorem Parked.seen_of_lookup {x : β} (h : Parked xs seen k parked)
    (hl : parked.lookup ((k + 1 : Nat) : Int) = some x) : seen (k + 1) ∧ xs[k + 1]? = some x := by
  obtain ⟨j, hj, -, hs, hx⟩ := (h _ _).mp hl
  obtain rfl : k + 1 = j := by omega
  exact ⟨hs, hx⟩

theorem Parked.not_seen_of_lookup (h : Parked xs seen k parked) (hlt : ∀ j, seen j → j < xs.length)
    (hl : parked.lookup ((k + 1 : Nat) : Int) = none) : ¬ seen (k + 1) := by
  intro hs
  obtain ⟨x, hx⟩ : ∃ x, xs[k + 1]? = some x := ⟨_, List.getElem?_eq_getElem (hlt _ hs)⟩
  have hsome := (h _ _).mpr ⟨k + 1, rfl, by omega, hs, hx⟩
  rw [hl] at hsome
  cases hsome

theorem Parked.erase_next (h : Parked xs seen k parked) :
    Parked xs seen (k + 1) (parked.erase ((k + 1 : Nat) : Int)) := by
  intro sid x
  by_cases hsid : sid = ((k + 1 : Nat) : Int)
  · rw [hsid, AList.lookup_erase]
    refine iff_of_false (fun hn => by cases hn) ?_
    rintro ⟨j, hj, hlt, -⟩
    omega
  · rw [AList.lookup_erase_ne hsid, h sid x]
    refine exists_congr fun j => and_congr_right fun hj => and_congr_left fun _ => ?_
    omega

theorem Parked.of_missing (h : Parked xs seen k parked) (hmiss : ¬ seen (k + 1)) :
    Parked xs seen (k + 1) parked := by
  intro sid x
  rw [h sid x]
  refine exists_congr fun j => and_congr_right fun _ => ?_
  constructor
  · rintro ⟨hlt, hs, hx⟩
    have hne : j ≠ k + 1 := fun heq => hmiss (heq ▸ hs)
    exact ⟨by omega, hs, hx⟩
  · rintro ⟨hlt, hs, hx⟩
    exact ⟨by omega, hs, hx⟩

/-- Number `k` is the first missing one, and the rest of what was seen is parked. -/
structure Resequenced (xs : List β) (seen : Nat → Prop) (k : Nat) (parked : AList fun _ : Int => β) : Prop where
  seen_lt : ∀ j, seen j → j < xs.length
  before : ∀ j < k, seen j
  missing : ¬ seen k
  parked : Parked xs seen k parked

namespace Resequenced

theorem le_length (h : Resequenced xs seen k parked) : k ≤ xs.length := by
  cases k with
  | zero => exact Nat.zero_le _
  | succ k => exact h.seen_lt k (h.before k (Nat.lt_succ_self k))

theorem congr {seen' : Nat → Prop} (h : Resequenced xs seen k parked) (hseen : ∀ j, seen j ↔ seen' j) :
    Resequenced xs seen' k parked where
  seen_lt j hj := h.seen_lt j ((hseen j).mpr hj)
  before j hj := (hseen j).mp (h.before j hj)
  missing hk := h.missing ((hseen k).mpr hk)
  parked := h.parked.congr fun j _ => hseen j

theorem append (h : Resequenced xs seen k parked) (x : β) : Resequenced (xs ++ [x]) seen k parked where
  seen_lt j hj := by
    rw [List.length_append]
    exact Nat.lt_add_right _ (h.seen_lt j hj)
  before := h.before
  missing := h.missing
  parked sid y := by
    rw [h.parked sid y]
    refine exists_congr fun j => and_congr_right fun _ => and_congr_right fun _ => and_congr_right fun hs => ?_
    rw [List.getElem?_append_left (h.seen_lt j hs)]

theorem park (h : Resequenced xs seen k parked) {j : Nat} {x : β} (hj : ¬ seen j) (hne : j ≠ k)
    (hx : xs[j]? = some x) :
    Resequenced xs (fun i => seen i ∨ i = j) k (parked.insert (j : Int) x) where
  seen_lt i hi := by
    rcases hi with hi | rfl
    · exact h.seen_lt i hi
    · exact (List.getElem?_eq_some_iff.mp hx).1
  before i hi := .inl (h.before i hi)
  missing hk := hk.elim h.missing fun hk => hne hk.symm
  parked sid y := by
    have hlt : k < j := by
      rcases Nat.lt_or_ge j k with hlt | hge
      · exact absurd (h.before j hlt) hj
      · omega
    by_cases hsid : sid = (j : Int)
    · subst hsid
      rw [AList.lookup_insert, Option.some.injEq]
      constructor
      · rintro rfl
        exact ⟨j, rfl, hlt, .inr rfl, hx⟩
      · rintro ⟨i, hi, -, -, hy⟩
        obtain rfl : j = i := by omega
        exact Option.some.inj (hx.symm.trans hy)
    · rw [AList.lookup_insert_ne hsid, h.parked sid y]
      refine exists_congr fun i => and_congr_right fun hi => and_congr_right fun _ => ?_
      have hij : i ≠ j := fun heq => hsid (heq ▸ hi)
      simp only [hij, or_false]

/-- The missing item arrives, and everything up to number `k'` is passed on. -/
theorem advance (h : Resequenced xs seen k parked) {k' : Nat} (hk : k < xs.length) (hlt : k < k')
    (hbetween : ∀ j, k < j → j < k' → seen j) (hmiss : ¬ seen k') (hp : Parked xs seen k' parked') :
    Resequenced xs (fun i => seen i ∨ i = k) k' parked' where
  seen_lt i hi := by
    rcases hi with hi | rfl
    · exact h.seen_lt i hi
    · exact hk
  before i hi := by
    rcases Nat.lt_trichotomy i k with hik | rfl | hik
    · exact .inl (h.before i hik)
    · exact .inr rfl
    · exact .inl (hbetween i hik hi)
  missing hk' := hk'.elim hmiss fun heq => by omega
  parked := hp.congr fun j hj => by
    have hne : j ≠ k := by omega
    simp only [hne, or_false]

end Resequenced

end Resequencer
