import Mathlib.Algebra.Order.Ring.Int
import Mathlib.Data.Nat.ModEq

/-!
# Ring buffers

A ring of `cap` slots with the places of its first element and of the first free slot; one slot always
stays free, so that equal places mean an empty ring. `Holds` says which list a ring holds. Writing the free
slot changes nothing (`write`) until the tail moves over it (`push`).
-/

namespace Ring

variable {α : Type*} {cap : Nat} {buf : Nat → α} {head tail : Nat} {l : List α} {a : α}

structure Holds (cap : Nat) (buf : Nat → α) (head tail : Nat) (l : List α) : Prop where
  head_lt : head < cap
  length_lt : l.length < cap
  tail_eq : tail = (head + l.length) % cap
  get : ∀ i < l.length, l[i]? = some (buf ((head + i) % cap))

theorem add_mod_inj {i j : Nat} (hi : i < cap) (hj : j < cap) (h : (head + i) % cap = (head + j) % cap) : i = j :=
  (Nat.ModEq.add_left_cancel' head h).eq_of_lt_of_lt hi hj

theorem holds_nil (hcap : 0 < cap) (buf : Nat → α) : Holds cap buf 0 0 [] where
  head_lt := hcap
  length_lt := hcap
  tail_eq := (Nat.zero_mod cap).symm
  get i hi := absurd hi (Nat.not_lt_zero i)

namespace Holds

theorem head_eq (h : Holds cap buf head tail l) : head = (head + 0) % cap := (Nat.mod_eq_of_lt h.head_lt).symm

theorem head_eq_tail_iff (h : Holds cap buf head tail l) : head = tail ↔ l = [] := by
  constructor
  · intro heq
    have hmod : (head + 0) % cap = (head + l.length) % cap := by rw [← h.head_eq, ← h.tail_eq, heq]
    exact List.length_eq_zero_iff.mp (add_mod_inj (Nat.zero_lt_of_lt h.head_lt) h.length_lt hmod).symm
  · rintro rfl
    rw [h.tail_eq]
    exact h.head_eq

theorem succ_tail (h : Holds cap buf head tail l) : (tail + 1) % cap = (head + (l.length + 1)) % cap := by
  rw [h.tail_eq, Nat.mod_add_mod, Nat.add_assoc]

theorem full_iff (h : Holds cap buf head tail l) : (tail + 1) % cap = head ↔ l.length + 1 = cap := by
  rw [h.succ_tail]
  constructor
  · intro heq
    by_contra hne
    have hlt : l.length + 1 < cap := Nat.lt_of_le_of_ne h.length_lt hne
    have := add_mod_inj hlt (Nat.zero_lt_of_lt h.head_lt) (heq.trans h.head_eq)
    omega
  · intro heq
    rw [heq, Nat.add_mod_right]
    exact Nat.mod_eq_of_lt h.head_lt

/-- The places tell how many elements there are, also when the tail has wrapped and the head has not. -/
theorem length_eq (h : Holds cap buf head tail l) :
    l.length = if head ≤ tail then tail - head else cap - (head - tail) := by
  have hhead := h.head_lt
  have hlen := h.length_lt
  have htail := h.tail_eq
  rcases Nat.lt_or_ge (head + l.length) cap with hlt | hge
  · rw [Nat.mod_eq_of_lt hlt] at htail
    rw [if_pos (by omega)]
    omega
  · rw [Nat.mod_eq_sub_mod hge, Nat.mod_eq_of_lt (by omega)] at htail
    rw [if_neg (by omega)]
    omega

theorem slot_ne_tail (h : Holds cap buf head tail l) {i : Nat} (hi : i < l.length) : (head + i) % cap ≠ tail :=
  fun heq => Nat.ne_of_lt hi (add_mod_inj (Nat.lt_trans hi h.length_lt) h.length_lt (heq.trans h.tail_eq))

theorem write (h : Holds cap buf head tail l) (a : α) : Holds cap (Function.update buf tail a) head tail l :=
  { h with
    get := fun i hi => by rw [Function.update_of_ne (h.slot_ne_tail hi), h.get i hi] }

theorem push (h : Holds cap buf head tail l) (ha : buf tail = a) (hfull : (tail + 1) % cap ≠ head) :
    Holds cap buf head ((tail + 1) % cap) (l ++ [a]) where
  head_lt := h.head_lt
  length_lt := by
    rw [List.length_append]
    exact Nat.lt_of_le_of_ne h.length_lt fun heq => hfull (h.full_iff.mpr heq)
  tail_eq := by
    rw [List.length_append]
    exact h.succ_tail
  get i hi := by
    rcases Nat.lt_or_eq_of_le (Nat.le_of_lt_succ (by simpa using hi)) with hlt | rfl
    · rw [List.getElem?_append_left hlt, h.get i hlt]
    · rw [← h.tail_eq, ha]
      simp

theorem front (h : Holds cap buf head tail (a :: l)) : buf head = a := by
  have := h.get 0 (Nat.zero_lt_succ _)
  rw [← h.head_eq] at this
  exact (Option.some.inj this).symm

theorem pop (h : Holds cap buf head tail (a :: l)) : Holds cap buf ((head + 1) % cap) tail l where
  head_lt := Nat.mod_lt _ (Nat.zero_lt_of_lt h.head_lt)
  length_lt := Nat.lt_of_succ_lt h.length_lt
  tail_eq := by
    rw [h.tail_eq, Nat.mod_add_mod, List.length_cons, Nat.add_assoc, Nat.add_comm 1]
  get i hi := by
    have := h.get (i + 1) (Nat.succ_lt_succ hi)
    rw [List.getElem?_cons_succ] at this
    rw [this, Nat.mod_add_mod, Nat.add_assoc, Nat.add_comm 1]

end Holds

end Ring
