import Mathlib.Algebra.Order.Ring.Int
import Mathlib.Data.List.TakeWhile
import Mathlib.Tactic.Zify

/-!
# Byte buffers and little-endian integers

A buffer is the memory behind a pointer, read and written at byte offsets. What was stored is loaded
back as long as nothing is stored over it (`load_store_self`, `load_store_of_disjoint`); what is stored
are the bytes of a value, and each kind of value has its own round trip.
-/

/-- Memory behind a pointer. -/
abbrev Buf := Nat → UInt8

namespace Buf

variable {b : Buf} {o p n w : Nat} {bs : List UInt8} {v : Int} {vs : List Int}

/-! ### Bytes -/

/-- `memcpy(b + o, bs)`. -/
def store (b : Buf) (o : Nat) (bs : List UInt8) : Buf :=
  fun i => if o ≤ i then (bs[i - o]?).getD (b i) else b i

/-- The `n` bytes from `b + o`. -/
def load (b : Buf) (o n : Nat) : List UInt8 := (List.range n).map fun i => b (o + i)

@[simp] theorem length_load : (b.load o n).length = n := by simp [load]

theorem store_of_disjoint {i : Nat} (h : i < o ∨ o + bs.length ≤ i) : b.store o bs i = b i := by
  unfold store
  split_ifs with ho
  · rw [List.getElem?_eq_none (by omega), Option.getD_none]
  · rfl

theorem store_of_mem {i : Nat} (h : i < bs.length) : b.store o bs (o + i) = bs[i] := by
  simp [store, h]

theorem load_store_self : (b.store o bs).load o bs.length = bs := by
  apply List.ext_getElem
  · simp
  · intro i _ h
    simp [load, store_of_mem h]

theorem load_store_of_length (h : bs.length = n) : (b.store o bs).load o n = bs := by
  rw [← h, load_store_self]

theorem load_store_of_disjoint (h : p + n ≤ o ∨ o + bs.length ≤ p) :
    (b.store o bs).load p n = b.load p n := by
  apply List.map_congr_left
  intro i hi
  have := List.mem_range.mp hi
  exact store_of_disjoint (by omega)

/-- Two ranges of addresses have none in common. -/
def Apart (a n b m : Nat) : Prop := n = 0 ∨ m = 0 ∨ a + n ≤ b ∨ b + m ≤ a

instance (a n b m : Nat) : Decidable (Apart a n b m) := inferInstanceAs (Decidable (_ ∨ _))

theorem Apart.symm {a n b m : Nat} (h : Apart a n b m) : Apart b m a n := by
  unfold Apart at h ⊢
  omega

theorem load_store_of_apart (h : Apart o bs.length p n) : (b.store o bs).load p n = b.load p n := by
  rcases h with hbs | rfl | h
  · obtain rfl := List.length_eq_zero_iff.mp hbs
    exact List.map_congr_left fun i _ => store_of_disjoint (by simp; omega)
  · rfl
  · exact load_store_of_disjoint h.symm

theorem store_congr {b' : Buf} {i : Nat} (h : b i = b' i) : b.store o bs i = b'.store o bs i := by
  unfold store
  rw [h]

theorem store_load_apply (b c : Buf) (i : Nat) :
    b.store o (c.load p n) i = if o ≤ i ∧ i < o + n then c (p + (i - o)) else b i := by
  split_ifs with h
  · obtain ⟨j, rfl⟩ := Nat.exists_eq_add_of_le h.1
    rw [store_of_mem (by rw [length_load]; omega)]
    simp [load]
  · exact store_of_disjoint (by rw [length_load]; omega)

/-- `bzero(b + o, n)`. -/
def bzero (b : Buf) (o n : Nat) : Buf := b.store o (List.replicate n 0)

theorem load_bzero_of_disjoint {k : Nat} (h : p + n ≤ o ∨ o + k ≤ p) :
    (b.bzero o k).load p n = b.load p n :=
  load_store_of_disjoint (by rwa [List.length_replicate])

theorem load_bzero_of_le {k : Nat} (h : o ≤ p ∧ p + n ≤ o + k) :
    (b.bzero o k).load p n = List.replicate n 0 := by
  obtain ⟨⟨j, rfl⟩, h⟩ := h.imp_left Nat.exists_eq_add_of_le
  apply List.ext_getElem
  · simp
  · intro i h₁ _
    have hi : i < n := by simpa using h₁
    have hlt : j + i < (List.replicate k (0 : UInt8)).length := by rw [List.length_replicate]; omega
    have hx := store_of_mem (b := b) (o := o) hlt
    simp only [bzero, load, List.getElem_map, List.getElem_range, List.getElem_replicate] at hx ⊢
    rw [Nat.add_assoc, hx]

/-- `bzero(b + o, n)` and then `memcpy(b + o, bs)`. -/
def storePadded (b : Buf) (o n : Nat) (bs : List UInt8) : Buf := (b.bzero o n).store o bs

theorem load_storePadded_of_disjoint {k : Nat} (hk : bs.length ≤ k) (h : p + n ≤ o ∨ o + k ≤ p) :
    (b.storePadded o k bs).load p n = b.load p n := by
  rw [storePadded, load_store_of_disjoint (by omega), load_bzero_of_disjoint h]

theorem load_storePadded_of_le {k : Nat} (h : p + n ≤ o) : (b.storePadded o k bs).load p n = b.load p n := by
  rw [storePadded, load_store_of_disjoint (.inl h), load_bzero_of_disjoint (.inl h)]

theorem load_add {k : Nat} : b.load o (n + k) = b.load o n ++ b.load (o + n) k := by
  rw [load, List.range_add, List.map_append, List.map_map, load, load]
  congr 1
  refine List.map_congr_left fun i _ => ?_
  rw [Function.comp_apply, Nat.add_assoc]

theorem load_congr {b' : Buf} (h : ∀ i, o ≤ i → i < o + n → b i = b' i) : b.load o n = b'.load o n := by
  apply List.map_congr_left
  intro i hi
  have := List.mem_range.mp hi
  exact h _ (by omega) (by omega)

/-! ### Integers -/

/-- `n` bytes, the lowest first. -/
def leBytes : Nat → Nat → List UInt8
  | 0, _ => []
  | n + 1, v => UInt8.ofNat v :: leBytes n (v / 256)

def ofLE : List UInt8 → Nat
  | [] => 0
  | x :: xs => x.toNat + 256 * ofLE xs

@[simp] theorem length_leBytes (n v : Nat) : (leBytes n v).length = n := by
  induction n generalizing v with
  | zero => rfl
  | succ n ih => simp [leBytes, ih]

theorem ofLE_leBytes (n v : Nat) : ofLE (leBytes n v) = v % 256 ^ n := by
  induction n generalizing v with
  | zero => simp [leBytes, ofLE, Nat.mod_one]
  | succ n ih =>
    rw [leBytes, ofLE, ih, Nat.pow_succ, Nat.mul_comm (256 ^ n), Nat.mod_mul]
    simp

theorem ofLE_append (xs ys : List UInt8) : ofLE (xs ++ ys) = ofLE xs + 256 ^ xs.length * ofLE ys := by
  induction xs with
  | nil => simp [ofLE]
  | cons x xs ih =>
    simp only [List.cons_append, ofLE, ih, List.length_cons, Nat.pow_succ]
    rw [Nat.mul_add, ← Nat.mul_assoc, Nat.mul_comm 256 (256 ^ xs.length), Nat.add_assoc]

/-- The two's complement of an integer in `w` bytes. -/
def intBytes (w : Nat) (v : Int) : List UInt8 := leBytes w (v % 256 ^ w).toNat

/-- The signed value of `w` bytes. -/
def ofIntBytes (w : Nat) (bs : List UInt8) : Int := (ofLE bs : Int).bmod (256 ^ w)

/-- `v` is a value of the signed type of `w` bytes. -/
def FitsInt (w : Nat) (v : Int) : Prop := -(256 ^ w / 2 : Int) ≤ v ∧ v < 256 ^ w / 2

instance : Decidable (FitsInt w v) := inferInstanceAs (Decidable (_ ∧ _))

theorem fitsInt_bmod (x : Int) : FitsInt 4 (x.bmod (2 ^ 32)) := by
  have := Int.le_bmod (x := x) (m := 2 ^ 32) (by decide)
  have := Int.bmod_lt (x := x) (m := 2 ^ 32) (by decide)
  unfold FitsInt
  omega

@[simp] theorem length_intBytes : (intBytes w v).length = w := by simp [intBytes]

theorem ofIntBytes_intBytes (h : FitsInt w v) : ofIntBytes w (intBytes w v) = v := by
  obtain ⟨hl, hu⟩ := h
  have hpos : (0 : Int) < 256 ^ w := Int.pow_pos (by decide)
  have hnn := Int.emod_nonneg v (Int.ne_of_gt hpos)
  have hlt := Int.emod_lt_of_pos v hpos
  have hnat : (v % 256 ^ w).toNat % 256 ^ w = (v % 256 ^ w).toNat := by
    refine Nat.mod_eq_of_lt ?_
    zify
    rwa [Int.toNat_of_nonneg hnn]
  rw [ofIntBytes, intBytes, ofLE_leBytes, hnat, Int.toNat_of_nonneg hnn]
  have hcast : (256 ^ w : Int) = ((256 ^ w : Nat) : Int) := by push_cast; rfl
  rw [hcast, Int.emod_bmod]
  refine Int.bmod_eq_of_le ?_ ?_ <;> rw [hcast] at hl hu <;> omega

/-! ### Booleans, arrays and strings -/

def boolBytes (x : Bool) : List UInt8 := [if x then 1 else 0]
def ofBoolBytes (bs : List UInt8) : Bool := bs.head? != some 0

@[simp] theorem length_boolBytes {x : Bool} : (boolBytes x).length = 1 := by
  cases x <;> rfl

theorem ofBoolBytes_boolBytes {x : Bool} : ofBoolBytes (boolBytes x) = x := by
  cases x <;> rfl

/-- The integers of an array, one behind the other. -/
def intsBytes (w : Nat) (vs : List Int) : List UInt8 := vs.flatMap (intBytes w)

/-- The first `n` integers of an array. -/
def ofIntsBytes (w : Nat) : Nat → List UInt8 → List Int
  | 0, _ => []
  | n + 1, bs => ofIntBytes w (bs.take w) :: ofIntsBytes w n (bs.drop w)

@[simp] theorem length_intsBytes : (intsBytes w vs).length = w * vs.length := by
  induction vs with
  | nil => rfl
  | cons v vs ih =>
    simp only [intsBytes, List.flatMap_cons, List.length_append, length_intBytes] at ih ⊢
    rw [ih, List.length_cons, Nat.mul_succ, Nat.add_comm]

@[simp] theorem length_ofIntsBytes : (ofIntsBytes w n bs).length = n := by
  induction n generalizing bs with
  | zero => rfl
  | succ n ih => rw [ofIntsBytes, List.length_cons, ih]

theorem ofIntsBytes_intsBytes (h : ∀ v ∈ vs, FitsInt w v) :
    ofIntsBytes w vs.length (intsBytes w vs) = vs := by
  induction vs with
  | nil => rfl
  | cons v vs ih =>
    have hw : w = (intBytes w v).length := length_intBytes.symm
    rw [intsBytes, List.flatMap_cons, List.length_cons, ofIntsBytes]
    rw [List.take_left' hw.symm, List.drop_left' hw.symm, ofIntBytes_intBytes (h v (by simp))]
    congr 1
    exact ih fun v hv => h v (by simp [hv])

/-- The C string that starts a byte sequence. -/
def ofCStr (bs : List UInt8) : List UInt8 := bs.takeWhile (· != 0)

theorem ofCStr_load_of_le {k : Nat} (hk : k ≤ n) (hz : 0 ∈ b.load o k) :
    ofCStr (b.load o n) = ofCStr (b.load o k) := by
  obtain ⟨j, rfl⟩ := Nat.exists_eq_add_of_le hk
  rw [ofCStr, load_add, List.takeWhile_append, if_neg]
  · rfl
  · intro hall
    have heq := (List.takeWhile_prefix (l := b.load o k) (· != 0)).eq_of_length hall
    have := List.takeWhile_eq_self_iff.mp heq 0 hz
    simp at this

theorem load_storePadded_self {k : Nat} (hk : bs.length ≤ k) :
    (b.storePadded o k bs).load o k = bs ++ List.replicate (k - bs.length) 0 := by
  obtain ⟨j, rfl⟩ := Nat.exists_eq_add_of_le hk
  rw [load_add, storePadded, load_store_self, load_store_of_disjoint (by omega), Nat.add_sub_cancel_left]
  rw [load_bzero_of_le (by omega)]

/-- A string is read back whole if and only if a zero follows it. -/
theorem ofCStr_append_cons_eq_iff {x : UInt8} {rest : List UInt8} (hnul : ∀ x ∈ bs, x ≠ 0) :
    ofCStr (bs ++ x :: rest) = bs ↔ x = 0 := by
  rw [ofCStr, List.takeWhile_append_of_pos (by simpa using hnul), List.takeWhile_cons]
  by_cases hx : x = 0 <;> simp [hx]

theorem ofCStr_append_zeros {k : Nat} (hnul : ∀ x ∈ bs, x ≠ 0) :
    ofCStr (bs ++ List.replicate k 0) = bs := by
  rw [ofCStr, List.takeWhile_append_of_pos (by simpa using hnul)]
  cases k <;> simp [List.replicate_succ]

end Buf
