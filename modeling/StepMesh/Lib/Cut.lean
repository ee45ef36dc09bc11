import Mathlib.Algebra.Order.Ring.Int
import Mathlib.Data.List.Basic
import Mathlib.Order.Basic

/-!
# Cutting a sorted list at keys

`cut f l x` is where a binary search for `x` ends in a list sorted by `f`. Between the cuts at two keys lie
exactly the elements with keys from the one up to the other (`filter_eq_between`), and the pieces between
consecutive cuts make up the list (`between_append`).
-/

namespace List

variable {α β κ : Type*} [LinearOrder κ] {f : α → κ} {l : List α} {x y : κ} {i j k : Nat}

/-- The number of leading elements with keys below `x`. -/
def cut (f : α → κ) (l : List α) (x : κ) : Nat := (l.takeWhile (f · < x)).length

/-- The elements at the places from `i` up to `j`. -/
def between (l : List α) (i j : Nat) : List α := (l.drop i).take (j - i)

/-! ### Cuts -/

@[simp] theorem cut_nil : cut f [] x = 0 := rfl

theorem cut_cons_of_lt {a : α} (h : f a < x) : cut f (a :: l) x = cut f l x + 1 := by
  simp [cut, h]

theorem cut_cons_of_le {a : α} (h : x ≤ f a) : cut f (a :: l) x = 0 := by
  simp [cut, h]

theorem cut_eq_zero (h : ∀ a ∈ l, x ≤ f a) : cut f l x = 0 := by
  cases l with
  | nil => rfl
  | cons a l => exact cut_cons_of_le (h a mem_cons_self)

theorem cut_map (g : β → α) (l : List β) : cut f (l.map g) x = cut (fun b => f (g b)) l x := by
  simp [cut, takeWhile_map, Function.comp_def]

/-- A search may go on from where the search for a smaller key ended. -/
theorem cut_add_cut_drop (hxy : x ≤ y) (l : List α) :
    cut f l x + cut f (l.drop (cut f l x)) y = cut f l y := by
  induction l with
  | nil => rfl
  | cons a l ih =>
    rcases lt_or_ge (f a) x with h | h
    · rw [cut_cons_of_lt h, cut_cons_of_lt (h.trans_le hxy), drop_succ_cons, ← ih]
      omega
    · rw [cut_cons_of_le h, drop_zero, Nat.zero_add]

theorem cut_le_cut (hxy : x ≤ y) (l : List α) : cut f l x ≤ cut f l y :=
  Nat.le.intro (cut_add_cut_drop hxy l)

theorem cut_le_length (f : α → κ) (l : List α) (x : κ) : cut f l x ≤ l.length :=
  (takeWhile_sublist _).length_le

theorem cut_eq_length_iff : cut f l x = l.length ↔ ∀ a ∈ l, f a < x := by
  induction l with
  | nil => simp
  | cons a l ih =>
    rcases lt_or_ge (f a) x with h | h
    · rw [cut_cons_of_lt h, length_cons, Nat.add_right_cancel_iff, ih]
      simp [h]
    · rw [cut_cons_of_le h]
      simp [h.not_gt]

/-! ### Pieces -/

theorem between_self (l : List α) (i : Nat) : l.between i i = [] := by
  simp [between]

theorem between_zero_length (l : List α) : l.between 0 l.length = l := by
  simp [between]

theorem length_between (h : j ≤ l.length) : (l.between i j).length = j - i := by
  simp only [between, length_take, length_drop]
  omega

theorem map_between (g : α → β) (l : List α) (i j : Nat) :
    (l.between i j).map g = (l.map g).between i j := by
  simp [between, map_take, map_drop]

theorem between_append (l : List α) (hij : i ≤ j) (hjk : j ≤ k) :
    l.between i j ++ l.between j k = l.between i k := by
  obtain ⟨m, rfl⟩ := Nat.exists_eq_add_of_le hij
  obtain ⟨n, rfl⟩ := Nat.exists_eq_add_of_le hjk
  have hj : i + m - i = m := by omega
  have hk : i + m + n - (i + m) = n := by omega
  have hik : i + m + n - i = m + n := by omega
  rw [between, between, between, hj, hk, hik, ← drop_drop, take_add]

theorem take_append_between (l : List α) (hij : i ≤ j) : l.take i ++ l.between i j = l.take j := by
  have h := between_append l (Nat.zero_le i) hij
  simpa [between] using h

theorem filter_eq_between (hl : l.Pairwise (f · < f ·)) (hxy : x ≤ y) :
    l.filter (fun a => decide (x ≤ f a ∧ f a < y)) = l.between (cut f l x) (cut f l y) := by
  induction l with
  | nil => rfl
  | cons a l ih =>
    obtain ⟨ha, hl⟩ := pairwise_cons.mp hl
    rcases lt_or_ge (f a) x with hx | hx
    · rw [filter_cons_of_neg (by simp [hx.not_ge]), ih hl, cut_cons_of_lt hx, cut_cons_of_lt (hx.trans_le hxy),
        between, between, drop_succ_cons, Nat.add_sub_add_right]
    · have hzero : cut f l x = 0 := cut_eq_zero fun b hb => hx.trans (ha b hb).le
      rcases lt_or_ge (f a) y with hy | hy
      · rw [filter_cons_of_pos (by simp [hx, hy]), ih hl, hzero, cut_cons_of_le hx, cut_cons_of_lt hy]
        simp [between]
      · have hnone : ∀ b ∈ l, ¬ (x ≤ f b ∧ f b < y) := fun b hb h => h.2.not_ge (hy.trans (ha b hb).le)
        rw [filter_cons_of_neg (by simp [hy.not_gt]), cut_cons_of_le hx, cut_cons_of_le hy, between_self,
          filter_eq_nil_iff]
        simpa using hnone

end List
