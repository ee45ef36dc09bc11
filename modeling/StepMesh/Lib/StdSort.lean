import Mathlib.Algebra.Order.Ring.Int
import Mathlib.Data.List.Sort

/-!
# A sort known by its contract

The order `std::sort` leaves equivalent elements in is unspecified. A `StdSort` is any function that
keeps the contract: for a comparison that is a strict weak order, the result is a permutation of the
input without inversions.
-/

variable {α κ : Type*}

/-- The requirement on the comparison of a sort. -/
structure StrictWeak (lt : α → α → Bool) : Prop where
  asymm : ∀ a b, lt a b → lt b a = false
  negTrans : ∀ a b c, lt a c → lt a b ∨ lt b c

theorem StrictWeak.of_key [LinearOrder κ] (f : α → κ) {lt : α → α → Bool}
    (h : ∀ a b, lt a b ↔ f a < f b) : StrictWeak lt where
  asymm a b hab := by
    rw [Bool.eq_false_iff, ne_eq, h]
    exact (h a b |>.mp hab).asymm
  negTrans a b c hac := by
    rcases lt_or_ge (f a) (f b) with hab | hba
    · exact .inl ((h a b).mpr hab)
    · exact .inr ((h b c).mpr (hba.trans_lt ((h a c).mp hac)))

structure StdSort (α : Type*) where
  sort : (α → α → Bool) → List α → List α
  perm : ∀ {lt}, StrictWeak lt → ∀ l, (sort lt l).Perm l
  pairwise : ∀ {lt}, StrictWeak lt → ∀ l, (sort lt l).Pairwise fun a b => lt b a = false

namespace StdSort

variable {lt : α → α → Bool} {l l' : List α}

/-- Where the comparison tells any two elements apart, the contract leaves one result: neither the
implementation nor the order of the input shows. -/
theorem sort_eq_of_perm (S S' : StdSort α) (h : StrictWeak lt) (hp : l.Perm l')
    (htot : ∀ a ∈ l, ∀ b ∈ l, lt a b = false → lt b a = false → a = b) :
    S.sort lt l = S'.sort lt l' := by
  have hl := S.perm h l
  have hl' := S'.perm h l'
  refine List.Perm.eq_of_pairwise ?_ (S.pairwise h l) (S'.pairwise h l')
    (hl.trans (hp.trans hl'.symm))
  intro a b ha hb hba hab
  exact htot a (hl.mem_iff.mp ha) b (hp.mem_iff.mpr (hl'.mem_iff.mp hb)) hab hba

def insertion : StdSort α where
  sort lt := List.insertionSort fun a b => lt b a = false
  perm _ l := List.perm_insertionSort _ l
  pairwise {lt} h l := by
    have : Std.Total fun a b => lt b a = false := ⟨fun a b => by
      by_cases hba : lt b a
      · exact .inr (h.asymm b a hba)
      · exact .inl (Bool.eq_false_iff.mpr hba)⟩
    have : IsTrans α fun a b => lt b a = false := ⟨fun a b c hab hbc => by
      by_contra hac
      rcases h.negTrans c b a (Bool.not_eq_false _ ▸ hac) with hcb | hba
      · simp [hbc] at hcb
      · simp [hab] at hba⟩
    exact List.pairwise_insertionSort _ l

end StdSort
