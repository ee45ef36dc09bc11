import Mathlib.Algebra.BigOperators.Finprod
import StepMesh.Lib.Run

/-!
# What comes about in the end

`Inevitable` says of a state that a property comes about however the steps of some kind are scheduled. It follows
from two facts: as long as the property does not hold one of the steps is possible, and each of them lowers a
measure (`Inevitable.of_measure`).

The measure of a system of queues is the weight of all that they hold, `Queues.total`. There may be infinitely many
queues as long as only finitely many hold anything.
-/

namespace Run

variable {σ α : Type*}

/-- However the steps that `moves` selects are scheduled, a state with `P` comes, unless one comes that is not
`safe`. -/
inductive Inevitable (step : σ → α → Option σ) (moves : α → Prop) (safe P : σ → Prop) : σ → Prop
  | now {s : σ} (h : P s) : Inevitable step moves safe P s
  | later {s : σ} (hcan : ∃ a t, moves a ∧ step s a = some t)
      (hall : ∀ a t, moves a → step s a = some t → safe t → Inevitable step moves safe P t) :
      Inevitable step moves safe P s

namespace Inevitable

variable {step : σ → α → Option σ} {moves : α → Prop} {safe P Q : σ → Prop} {s : σ}

theorem of_measure (Inv : σ → Prop) (μ : σ → Nat)
    (hstep : ∀ s a t, Inv s → moves a → step s a = some t → Inv t ∧ μ t < μ s)
    (hcan : ∀ s, Inv s → safe s → P s ∨ ∃ a t, moves a ∧ step s a = some t) (hs : Inv s) (hsafe : safe s) :
    Inevitable step moves safe P s := by
  induction hμ : μ s using Nat.strong_induction_on generalizing s with
  | h n ih =>
    rcases hcan s hs hsafe with hP | hmove
    · exact .now hP
    · refine .later hmove fun a t ha ht hsafe' => ?_
      obtain ⟨hinv, hlt⟩ := hstep s a t hs ha ht
      exact ih (μ t) (hμ ▸ hlt) hinv hsafe' rfl

/-- What the steps keep may be used to get from one property to another. -/
theorem imp (Inv : σ → Prop) (hstep : ∀ s a t, Inv s → moves a → step s a = some t → Inv t)
    (himp : ∀ s, Inv s → P s → Q s) (h : Inevitable step moves safe P s) (hs : Inv s) :
    Inevitable step moves safe Q s := by
  induction h with
  | now hP => exact .now (himp _ hs hP)
  | later hcan _ ih => exact .later hcan fun a t ha ht hsafe => ih a t ha ht hsafe (hstep _ a t hs ha ht)

end Inevitable

end Run

namespace Queues

open Function

variable {α β : Type*}

/-- Only finitely many queues hold anything. -/
def Bounded (f : α → List β) : Prop := {a | f a ≠ []}.Finite

/-- The weight of all that the queues hold. -/
noncomputable def total (weight : β → Nat) (f : α → List β) : Nat := ∑ᶠ a, ((f a).map weight).sum

variable {f : α → List β}

theorem total_eq_sum (weight : β → Nat) {s : Finset α} (hs : ∀ a, f a ≠ [] → a ∈ s) :
    total weight f = ∑ a ∈ s, ((f a).map weight).sum := by
  refine finsum_eq_sum_of_support_subset _ fun a ha => hs a fun hnil => ha ?_
  show ((f a).map weight).sum = 0
  rw [hnil, List.map_nil, List.sum_nil]

variable [DecidableEq α]

theorem Bounded.update (h : Bounded f) (a : α) (l : List β) : Bounded (update f a l) := by
  refine (h.insert a).subset fun b hb => ?_
  rcases eq_or_ne b a with rfl | hne
  · exact Set.mem_insert ..
  · exact Set.mem_insert_of_mem _ (by rwa [Set.mem_ofPred_eq, update_of_ne hne] at hb)

theorem total_update (weight : β → Nat) (h : Bounded f) (a : α) (l : List β) :
    total weight (update f a l) + ((f a).map weight).sum = total weight f + (l.map weight).sum := by
  have hmem : ∀ b, f b ≠ [] → b ∈ insert a h.toFinset := fun b hb =>
    Finset.mem_insert_of_mem (h.mem_toFinset.mpr hb)
  have hmem' : ∀ b, update f a l b ≠ [] → b ∈ insert a h.toFinset := fun b hb => by
    rcases eq_or_ne b a with rfl | hne
    · exact Finset.mem_insert_self ..
    · exact hmem b (by rwa [update_of_ne hne] at hb)
  have hweight : (fun b => ((update f a l b).map weight).sum) =
      update (fun b => ((f b).map weight).sum) a (l.map weight).sum :=
    comp_update (fun l : List β => (l.map weight).sum) f a l
  have ha : a ∈ insert a h.toFinset := Finset.mem_insert_self ..
  rw [total_eq_sum weight hmem, total_eq_sum weight hmem', hweight, Finset.sum_update_of_mem ha,
    ← Finset.add_sum_erase _ _ ha, Finset.sdiff_singleton_eq_erase]
  omega

theorem total_tail (weight : β → Nat) (h : Bounded f) {a : α} {y : β} {rest : List β} (ha : f a = y :: rest) :
    total weight (update f a rest) + weight y = total weight f := by
  have htotal := total_update weight h a rest
  rw [ha, List.map_cons, List.sum_cons] at htotal
  omega

theorem total_append (weight : β → Nat) (h : Bounded f) (a : α) (l : List β) :
    total weight (update f a (f a ++ l)) = total weight f + (l.map weight).sum := by
  have htotal := total_update weight h a (f a ++ l)
  rw [List.map_append, List.sum_append] at htotal
  omega

end Queues
