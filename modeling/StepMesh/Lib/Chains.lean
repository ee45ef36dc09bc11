import Mathlib.Algebra.Order.Ring.Int
import Mathlib.Data.List.Chain
import Mathlib.Data.List.Nodup
import Mathlib.Logic.Function.Basic

/-!
# Chains of links

A chain is a list of cells that is kept in the cells themselves: each has a link to the one after it, and the
last to itself. A cell is put at the end of a chain, in the place of another, or taken out, by setting one or
two links.
-/

namespace Chains

variable {ι : Type*}

/-- `next` leads from each cell of the list to the one after it, and from the last to itself. -/
structure Linked (next : ι → ι) (l : List ι) : Prop where
  step : l.IsChain fun a b => next a = b
  stop : ∀ b ∈ l.getLast?, next b = b

variable {next next' : ι → ι} {l p q : List ι} {a b c e : ι}

theorem linked_nil : Linked next [] := ⟨.nil, by simp⟩

theorem linked_singleton : Linked next [b] ↔ next b = b :=
  ⟨fun h => h.stop b (by simp), fun h => ⟨.singleton b, by simpa using h⟩⟩

theorem linked_cons_cons : Linked next (b :: c :: l) ↔ next b = c ∧ Linked next (c :: l) := by
  constructor
  · intro h
    have hs := List.isChain_cons_cons.mp h.step
    exact ⟨hs.1, hs.2, fun x hx => h.stop x (by rwa [List.getLast?_cons_cons])⟩
  · rintro ⟨hb, h⟩
    exact ⟨List.isChain_cons_cons.mpr ⟨hb, h.step⟩, fun x hx => h.stop x (by rwa [List.getLast?_cons_cons] at hx)⟩

theorem linked_append_cons :
    Linked next (p ++ b :: q) ↔ (p ++ [b]).IsChain (fun a b => next a = b) ∧ Linked next (b :: q) := by
  have hlast : (p ++ b :: q).getLast? = (b :: q).getLast? := by
    simp [List.getLast?_append, List.getLast?_cons]
  constructor
  · intro h
    have hs := List.isChain_split.mp h.step
    exact ⟨hs.1, hs.2, fun x hx => h.stop x (hlast ▸ hx)⟩
  · rintro ⟨hp, h⟩
    exact ⟨List.isChain_split.mpr ⟨hp, h.step⟩, fun x hx => h.stop x (hlast ▸ hx)⟩

theorem Linked.of_append_cons (h : Linked next (p ++ b :: q)) : Linked next (b :: q) :=
  (linked_append_cons.mp h).2

theorem Linked.next_eq (h : Linked next (p ++ b :: c :: q)) : next b = c :=
  (linked_cons_cons.mp h.of_append_cons).1

theorem Linked.next_last (h : Linked next (p ++ [b])) : next b = b := linked_singleton.mp h.of_append_cons

/-- Only the last cell has a link to itself. -/
theorem Linked.next_eq_self_iff (h : Linked next (p ++ b :: q)) (hnd : (p ++ b :: q).Nodup) :
    next b = b ↔ q = [] := by
  cases q with
  | nil => simp [h.next_last]
  | cons c q =>
    have hne : b ≠ c := by
      rintro rfl
      simp [List.nodup_append] at hnd
    simp [h.next_eq, hne.symm]

theorem Linked.next_mem (h : Linked next l) (hb : b ∈ l) : next b ∈ l := by
  obtain ⟨p, q, rfl⟩ := List.append_of_mem hb
  cases q with
  | nil => simp [h.next_last]
  | cons c q => simp [h.next_eq]

theorem Linked.next_ne (h : Linked next (p ++ a :: b :: q)) (hnd : (p ++ a :: b :: q).Nodup) (hc : c ∈ p) :
    next c ≠ b := by
  obtain ⟨r, s, rfl⟩ := List.append_of_mem hc
  intro hcb
  cases s with
  | nil =>
    have hca : next c = a := Linked.next_eq (p := r) (q := b :: q) (by simpa using h)
    have hab : a = b := hca.symm.trans hcb
    subst hab
    simp [List.nodup_append] at hnd
  | cons d s =>
    have hcd : next c = d := Linked.next_eq (p := r) (q := s ++ a :: b :: q) (by simpa using h)
    have hdb : d = b := hcd.symm.trans hcb
    subst hdb
    simp [List.nodup_append] at hnd

theorem Linked.congr (h : Linked next l) (hl : ∀ b ∈ l, next' b = next b) : Linked next' l := by
  refine ⟨h.step.imp_of_mem_imp fun x y hx _ hxy => ?_, fun b hb => ?_⟩
  · rw [hl x hx, hxy]
  · rw [hl b (List.mem_of_getLast? hb), h.stop b hb]

theorem Linked.splice (h : Linked next (p ++ a :: q)) (hp : ∀ b ∈ p, next' b = next b)
    (hr : Linked next' (a :: l)) : Linked next' (p ++ a :: l) := by
  obtain ⟨hstep, -, hlast⟩ := List.isChain_append.mp (linked_append_cons.mp h).1
  refine linked_append_cons.mpr ⟨List.isChain_append.mpr ⟨?_, .singleton a, fun x hx y hy => ?_⟩, hr⟩
  · exact hstep.imp_of_mem_imp fun x y hx _ hxy => by rw [hp x hx, hxy]
  · rw [hp x (List.mem_of_getLast? hx), hlast x hx y hy]

variable [DecidableEq ι]

/-- Where the chain goes on after a cell; `e` is what a last cell is to have instead of itself. -/
theorem Linked.onward (h : Linked next (p ++ b :: q)) (hnd : (p ++ b :: q).Nodup) :
    (if next b = b then e else next b) = q.head?.getD e := by
  simp only [h.next_eq_self_iff hnd]
  cases q with
  | nil => simp
  | cons c q => simp [h.next_eq]

theorem Linked.update (h : Linked next l) (hb : b ∉ l) : Linked (Function.update next b c) l :=
  h.congr fun x hx => Function.update_of_ne (by rintro rfl; exact hb hx) _ _

theorem Linked.concat (h : Linked next (p ++ [a])) (hnd : (p ++ [a]).Nodup) (he : e ∉ p ++ [a]) :
    Linked (Function.update (Function.update next a e) e e) (p ++ [a, e]) := by
  have hea : e ≠ a := by rintro rfl; simp at he
  have hap : a ∉ p := by
    intro ha
    exact (List.nodup_append.mp hnd).2.2 a ha a (by simp) rfl
  refine h.splice (fun b hb => ?_) (linked_cons_cons.mpr ⟨?_, linked_singleton.mpr (by simp)⟩)
  · have hbe : b ≠ e := by rintro rfl; exact he (by simp [hb])
    have hba : b ≠ a := by rintro rfl; exact hap hb
    simp [hbe, hba]
  · simp [hea.symm]

theorem Linked.remove (h : Linked next (p ++ a :: b :: q)) (hnd : (p ++ a :: b :: q).Nodup) :
    Linked (Function.update next a (if next b = b then a else next b)) (p ++ a :: q) := by
  obtain ⟨-, hndab, hdisj⟩ := List.nodup_append.mp hnd
  have haq : a ∉ q := fun ha => (List.nodup_cons.mp hndab).1 (by simp [ha])
  refine h.splice (fun x hx => Function.update_of_ne (hdisj x hx a (by simp)) _ _) ?_
  have hbq : Linked next ((p ++ [a]) ++ b :: q) := by simpa using h
  rw [hbq.onward (by simpa using hnd)]
  cases q with
  | nil => exact linked_singleton.mpr (by simp)
  | cons c q => exact linked_cons_cons.mpr ⟨by simp, (linked_cons_cons.mp hbq.of_append_cons).2.update haq⟩

theorem Linked.replace (h : Linked next (p ++ a :: b :: q)) (hnd : (p ++ a :: b :: q).Nodup)
    (he : e ∉ p ++ a :: b :: q) :
    Linked (Function.update (Function.update next e (if next b = b then e else next b)) a e)
      (p ++ a :: e :: q) := by
  obtain ⟨-, hndab, hdisj⟩ := List.nodup_append.mp hnd
  have haq : a ∉ q := fun ha => (List.nodup_cons.mp hndab).1 (by simp [ha])
  have hea : e ≠ a := by rintro rfl; simp at he
  have heq : e ∉ q := fun hq => he (by simp [hq])
  have hbq : Linked next ((p ++ [a]) ++ b :: q) := by simpa using h
  rw [hbq.onward (by simpa using hnd)]
  refine h.splice (fun x hx => ?_) (linked_cons_cons.mpr ⟨by simp, ?_⟩)
  · have hxe : x ≠ e := by rintro rfl; exact he (by simp [hx])
    simp [hdisj x hx a (by simp), hxe]
  · cases q with
    | nil => exact linked_singleton.mpr (by simp [hea])
    | cons c q =>
      refine linked_cons_cons.mpr ⟨by simp [hea], ?_⟩
      exact ((linked_cons_cons.mp hbq.of_append_cons).2.update heq).update haq

end Chains
