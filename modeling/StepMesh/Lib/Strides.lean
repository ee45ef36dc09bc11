import Mathlib.Algebra.Order.Ring.Int
import Mathlib.Data.List.Flatten

/-!
# Strided arrays

An array of several dimensions in memory: `sizes` says how many indices each dimension has and `strides` how many
elements it is from one index to the next. `addresses` lists the bytes of the elements in the order of the
indices; they are one block exactly if the strides are those of a contiguous array (`addresses_eq_range'`).
-/

namespace Strides

/-- The strides of a contiguous array: an index of a dimension is as long as all dimensions after it. -/
def contiguous : List Nat → List Nat
  | [] => []
  | _ :: sizes => sizes.prod :: contiguous sizes

@[simp] theorem length_contiguous (sizes : List Nat) : (contiguous sizes).length = sizes.length := by
  induction sizes with
  | nil => rfl
  | cons _ sizes ih => rw [contiguous, List.length_cons, List.length_cons, ih]

/-- The addresses of the bytes of the elements with the given sizes and strides, in the order of the indices. -/
def addresses (itemsize : Nat) : Nat → List Nat → List Nat → List Nat
  | base, n :: sizes, s :: strides =>
    (List.range n).flatMap fun i => addresses itemsize (base + i * s * itemsize) sizes strides
  | base, _, _ => List.range' base itemsize

/-- The elements follow each other without gaps, if there are any: the stride of a dimension of one index does not
matter. -/
def IsContiguous : List Nat → List Nat → Prop
  | n :: sizes, s :: strides => (n = 1 ∨ s = sizes.prod) ∧ IsContiguous sizes strides
  | _, _ => True

instance decidableIsContiguous : ∀ sizes strides, Decidable (IsContiguous sizes strides)
  | n :: sizes, s :: strides =>
    have := decidableIsContiguous sizes strides
    inferInstanceAs (Decidable ((n = 1 ∨ s = sizes.prod) ∧ IsContiguous sizes strides))
  | [], _ => inferInstanceAs (Decidable True)
  | _ :: _, [] => inferInstanceAs (Decidable True)

variable {itemsize : Nat}

theorem length_flatMap_range {n len : Nat} {f : Nat → List Nat} (hlen : ∀ i < n, (f i).length = len) :
    ((List.range n).flatMap f).length = n * len := by
  induction n with
  | zero => simp
  | succ n ih =>
    rw [List.range_succ, List.flatMap_append, List.flatMap_singleton, List.length_append,
      ih fun i hi => hlen i (Nat.lt_succ_of_lt hi), hlen n (Nat.lt_succ_self n), Nat.succ_mul]

theorem length_addresses (base : Nat) {sizes strides : List Nat} (h : strides.length = sizes.length) :
    (addresses itemsize base sizes strides).length = sizes.prod * itemsize := by
  induction sizes generalizing base strides with
  | nil => simp [addresses]
  | cons n sizes ih =>
    obtain ⟨s, strides, rfl⟩ := List.exists_cons_of_length_eq_add_one h
    rw [addresses, length_flatMap_range fun i _ => ih _ (Nat.succ.inj h), List.prod_cons, Nat.mul_assoc]

theorem head?_addresses (hitem : 0 < itemsize) (base : Nat) {sizes strides : List Nat}
    (h : strides.length = sizes.length) (hpos : 0 < sizes.prod) :
    (addresses itemsize base sizes strides).head? = some base := by
  induction sizes generalizing base strides with
  | nil => simp [addresses, List.head?_range', hitem.ne']
  | cons n sizes ih =>
    obtain ⟨s, strides, rfl⟩ := List.exists_cons_of_length_eq_add_one h
    rw [List.prod_cons] at hpos
    obtain ⟨k, rfl⟩ := Nat.exists_eq_succ_of_ne_zero (Nat.pos_of_mul_pos_right hpos).ne'
    have hfirst := ih (base + 0 * s * itemsize) (Nat.succ.inj h) (Nat.pos_of_mul_pos_left hpos)
    rw [addresses, List.range_succ_eq_map, List.flatMap_cons, List.head?_append, hfirst]
    simp

theorem flatMap_eq_range' {n len base : Nat} {f : Nat → List Nat} (hlen : ∀ i < n, (f i).length = len) :
    (List.range n).flatMap f = List.range' base (n * len) ↔ ∀ i < n, f i = List.range' (base + i * len) len := by
  induction n with
  | zero => simp
  | succ n ih =>
    have hsplit : List.range' base ((n + 1) * len) =
        List.range' base (n * len) ++ List.range' (base + n * len) len := by
      rw [List.range'_append_1, Nat.succ_mul]
    have hleft : ((List.range n).flatMap f).length = (List.range' base (n * len)).length := by
      rw [length_flatMap_range fun i hi => hlen i (Nat.lt_succ_of_lt hi), List.length_range']
    have happend : (List.range n).flatMap f ++ f n = List.range' base (n * len) ++ List.range' (base + n * len) len ↔
        (List.range n).flatMap f = List.range' base (n * len) ∧ f n = List.range' (base + n * len) len :=
      ⟨fun h => List.append_inj h hleft, fun h => by rw [h.1, h.2]⟩
    rw [List.range_succ, List.flatMap_append, List.flatMap_singleton, hsplit, happend,
      ih fun i hi => hlen i (Nat.lt_succ_of_lt hi)]
    exact Nat.forall_lt_succ_right.symm

/-- The bytes are one block exactly for contiguous strides. -/
theorem addresses_eq_range' (hitem : 0 < itemsize) (base : Nat) {sizes strides : List Nat}
    (h : strides.length = sizes.length) (hpos : 0 < sizes.prod) :
    addresses itemsize base sizes strides = List.range' base (sizes.prod * itemsize) ↔
      IsContiguous sizes strides := by
  induction sizes generalizing base strides with
  | nil => simp [addresses, IsContiguous]
  | cons n sizes ih =>
    obtain ⟨s, strides, rfl⟩ := List.exists_cons_of_length_eq_add_one h
    have hdims := Nat.succ.inj h
    rw [List.prod_cons] at hpos ⊢
    have hn : 0 < n := Nat.pos_of_mul_pos_right hpos
    have hrow : 0 < sizes.prod := Nat.pos_of_mul_pos_left hpos
    have hbytes : 0 < sizes.prod * itemsize := Nat.mul_pos hrow hitem
    rw [addresses, Nat.mul_assoc, flatMap_eq_range' fun i _ => length_addresses _ hdims, IsContiguous]
    have hstart : ∀ i < n, addresses itemsize (base + i * s * itemsize) sizes strides =
        List.range' (base + i * (sizes.prod * itemsize)) (sizes.prod * itemsize) →
        i * s * itemsize = i * (sizes.prod * itemsize) := by
      intro i _ heq
      have hhead := congrArg List.head? heq
      rw [head?_addresses hitem _ hdims hrow, List.head?_range', if_neg hbytes.ne'] at hhead
      exact Nat.add_left_cancel (Option.some.inj hhead)
    constructor
    · intro hall
      refine ⟨?_, (ih _ hdims hrow).mp (by simpa using hall 0 hn)⟩
      rcases Nat.lt_or_ge 1 n with hmany | hone
      · have := hstart 1 hmany (hall 1 hmany)
        rw [Nat.one_mul, Nat.one_mul] at this
        exact .inr (Nat.eq_of_mul_eq_mul_right hitem this)
      · exact .inl (by omega)
    · rintro ⟨hs, hcontiguous⟩ i hi
      rw [(ih _ hdims hrow).mpr hcontiguous]
      rcases hs with rfl | rfl
      · rw [Nat.lt_one_iff.mp hi, Nat.zero_mul, Nat.zero_mul, Nat.zero_mul]
      · rw [Nat.mul_assoc]

end Strides
