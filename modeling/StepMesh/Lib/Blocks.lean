import Mathlib.Algebra.Order.Ring.Int
import Mathlib.Data.List.Basic
import Mathlib.Logic.Function.Basic

/-!
# Memory in blocks

A block is allocated with a number of cells that are not written yet. An access lies inside a block or is a
fault, and so is a copy between ranges that overlap. What a write puts into a range is read back from it, and a
range apart from it keeps its cells.
-/

namespace Blocks

/-- A cell of a block. -/
structure Ptr where
  block : Nat := 0
  offset : Nat := 0
deriving DecidableEq, Repr

def Ptr.add (p : Ptr) (n : Nat) : Ptr := { p with offset := p.offset + n }

inductive Fault
  /-- There is no memory, or a check has failed, and nothing has changed. -/
  | refused
  | outside
  | overlap
deriving DecidableEq, Repr

/-- A block that is not allocated has no cells. -/
structure Mem (α : Type*) where
  cells : Nat → List (Option α)
  next : Nat

variable {α : Type*}

/-- `xs` in the place of as many elements of `l`. -/
def overwrite (l : List α) (o : Nat) (xs : List α) : List α := l.take o ++ xs ++ l.drop (o + xs.length)

/-- The ranges have no cell in common. -/
def Apart (p : Ptr) (n : Nat) (q : Ptr) (k : Nat) : Prop :=
  n = 0 ∨ k = 0 ∨ p.block ≠ q.block ∨ p.offset + n ≤ q.offset ∨ q.offset + k ≤ p.offset

instance (p : Ptr) (n : Nat) (q : Ptr) (k : Nat) : Decidable (Apart p n q k) :=
  inferInstanceAs (Decidable (n = 0 ∨ k = 0 ∨ p.block ≠ q.block ∨ p.offset + n ≤ q.offset ∨ q.offset + k ≤ p.offset))

namespace Mem

variable (m : Mem α)

/-- The `n` cells from `p` on are allocated. -/
def Inside (p : Ptr) (n : Nat) : Prop := n = 0 ∨ p.offset + n ≤ (m.cells p.block).length

instance (p : Ptr) (n : Nat) : Decidable (m.Inside p n) :=
  inferInstanceAs (Decidable (n = 0 ∨ p.offset + n ≤ (m.cells p.block).length))

def slice (p : Ptr) (n : Nat) : List (Option α) := ((m.cells p.block).drop p.offset).take n

def write (p : Ptr) (xs : List (Option α)) : Mem α :=
  { m with cells := Function.update m.cells p.block (overwrite (m.cells p.block) p.offset xs) }

def load (p : Ptr) (n : Nat) : Except Fault (List (Option α)) :=
  if m.Inside p n then .ok (m.slice p n) else .error .outside

def store (p : Ptr) (xs : List (Option α)) : Except Fault (Mem α) :=
  if m.Inside p xs.length then .ok (m.write p xs) else .error .outside

/-- With a new block of `n` cells. -/
def fresh (n : Nat) : Mem α where
  cells := Function.update m.cells m.next (List.replicate n none)
  next := m.next + 1

/-- A block of `n` cells, if there is room for it. -/
def alloc (room n : Nat) : Except Fault (Ptr × Mem α) :=
  if n ≤ room then .ok (⟨m.next, 0⟩, m.fresh n) else .error .refused

/-- `memcpy`. -/
def copy (dst src : Ptr) (n : Nat) : Except Fault (Mem α) := do
  let xs ← m.load src n
  let m ← m.store dst xs
  if Apart dst n src n then return m else throw .overlap

/-- Cell after cell. -/
def fill (m : Mem α) (p : Ptr) (v : α) : Nat → Except Fault (Mem α)
  | 0 => .ok m
  | n + 1 => do
    let m ← m.store p [some v]
    fill m (p.add 1) v n

end Mem

universe u in
theorem ok_bind {β γ : Type u} (x : β) (f : β → Except Fault γ) : (Except.ok x >>= f) = f x := rfl

/-! ### Ranges -/

variable {m : Mem α} {p q : Ptr} {n k : Nat} {xs ys : List (Option α)}

theorem Apart.mono (h : Apart p n q k) {n' k' : Nat} (hn : n' ≤ n) (hk : k' ≤ k) : Apart p n' q k' := by
  unfold Apart at *
  omega

theorem getElem?_overwrite {l xs : List α} {o : Nat} (h : xs.length = 0 ∨ o + xs.length ≤ l.length) (i : Nat) :
    (overwrite l o xs)[i]? = if o ≤ i ∧ i < o + xs.length then xs[i - o]? else l[i]? := by
  rcases h with h | h
  · rw [overwrite, List.length_eq_zero_iff.mp h, List.append_nil, List.length_nil, Nat.add_zero, List.take_append_drop,
      if_neg (by omega)]
  · have ho : (l.take o).length = o := List.length_take_of_le (by omega)
    rw [overwrite, List.getElem?_append, List.getElem?_append, List.length_append, ho, List.getElem?_take,
      List.getElem?_drop]
    split_ifs <;> first | rfl | omega | (congr 1; omega)

theorem length_overwrite {l xs : List α} {o : Nat} (h : xs.length = 0 ∨ o + xs.length ≤ l.length) :
    (overwrite l o xs).length = l.length := by
  rw [overwrite, List.length_append, List.length_append, List.length_take, List.length_drop]
  omega

namespace Mem

theorem Inside.mono (h : m.Inside p n) (hk : k ≤ n) : m.Inside p k := by
  unfold Inside at *
  omega

theorem Inside.add (h : m.Inside p n) {i : Nat} (hk : i + k ≤ n) : m.Inside (p.add i) k := by
  unfold Inside Ptr.add at *
  dsimp only
  omega

theorem getElem?_slice (i : Nat) : (m.slice p n)[i]? = if i < n then (m.cells p.block)[p.offset + i]? else none := by
  rw [slice, List.getElem?_take, List.getElem?_drop]

theorem length_slice (h : m.Inside p n) : (m.slice p n).length = n := by
  unfold Inside at h
  rw [slice, List.length_take, List.length_drop]
  omega

theorem slice_add (n k : Nat) : m.slice p (n + k) = m.slice p n ++ m.slice (p.add n) k := by
  rw [slice, List.take_add, List.drop_drop]
  rfl

theorem slice_take (hk : k ≤ n) : (m.slice p n).take k = m.slice p k := by
  rw [slice, List.take_take, Nat.min_eq_left hk]
  rfl

theorem slice_drop_take {i : Nat} (hk : i + k ≤ n) : ((m.slice p n).drop i).take k = m.slice (p.add i) k := by
  rw [slice, List.drop_take, List.drop_drop, List.take_take, Nat.min_eq_left (by omega)]
  rfl

theorem cells_write (h : m.Inside p xs.length) (b i : Nat) : ((m.write p xs).cells b)[i]? =
    if b = p.block ∧ p.offset ≤ i ∧ i < p.offset + xs.length then xs[i - p.offset]? else (m.cells b)[i]? := by
  rw [write]
  by_cases hb : b = p.block
  · subst hb
    simp only [Function.update_self, getElem?_overwrite h, true_and]
  · simp only [Function.update_of_ne hb, hb, false_and, if_false]

theorem length_cells_write (h : m.Inside p xs.length) (b : Nat) :
    ((m.write p xs).cells b).length = (m.cells b).length := by
  rw [write]
  by_cases hb : b = p.block
  · subst hb
    simp only [Function.update_self, length_overwrite h]
  · simp only [Function.update_of_ne hb]

theorem inside_write (h : m.Inside p xs.length) : (m.write p xs).Inside q k ↔ m.Inside q k := by
  rw [Inside, Inside, length_cells_write h]

theorem slice_write_self (h : m.Inside p xs.length) : (m.write p xs).slice p xs.length = xs := by
  refine List.ext_getElem? fun i => ?_
  rw [getElem?_slice, cells_write h]
  split_ifs with hi hin
  · rw [Nat.add_sub_cancel_left]
  · omega
  · exact (List.getElem?_eq_none (Nat.le_of_not_lt hi)).symm

theorem slice_write_of_apart (h : m.Inside p xs.length) (hapart : Apart p xs.length q k) :
    (m.write p xs).slice q k = m.slice q k := by
  refine List.ext_getElem? fun i => ?_
  rw [getElem?_slice, getElem?_slice, cells_write h]
  split_ifs with hi hin
  · unfold Apart at hapart
    omega
  · rfl
  · rfl

theorem slice_write_add (h : m.Inside (p.add n) xs.length) :
    (m.write (p.add n) xs).slice p (n + xs.length) = m.slice p n ++ xs := by
  rw [slice_add, slice_write_self h, slice_write_of_apart h]
  simp only [Apart, Ptr.add]
  omega

theorem write_nil : m.write p [] = m := by
  rw [write, overwrite, List.append_nil, List.length_nil, Nat.add_zero, List.take_append_drop,
    Function.update_eq_self]

theorem write_write (h : m.Inside p (xs ++ ys).length) :
    (m.write p xs).write (p.add xs.length) ys = m.write p (xs ++ ys) := by
  have hx : m.Inside p xs.length := h.mono (by simp)
  have hy : (m.write p xs).Inside (p.add xs.length) ys.length := by
    rw [inside_write hx]
    exact h.add (by simp)
  have hcells : ((m.write p xs).write (p.add xs.length) ys).cells = (m.write p (xs ++ ys)).cells := by
    funext b
    refine List.ext_getElem? fun i => ?_
    rw [cells_write hy, cells_write hx, cells_write h, List.getElem?_append, List.length_append]
    by_cases hb : b = p.block
    · simp only [Ptr.add, hb, true_and]
      split_ifs <;> first | rfl | omega | (congr 1; omega)
    · simp only [Ptr.add, hb, false_and, if_false]
  simp only [write] at hcells ⊢
  rw [hcells]

theorem store_of_inside (h : m.Inside p xs.length) : m.store p xs = .ok (m.write p xs) := if_pos h

theorem fill_eq (v : α) (h : m.Inside p n) : m.fill p v n = .ok (m.write p (List.replicate n (some v))) := by
  induction n generalizing m p with
  | zero => rw [fill, List.replicate_zero, write_nil]
  | succ n ih =>
    have hone : m.Inside p [some v].length := h.mono (by simp)
    have hrest : (m.write p [some v]).Inside (p.add 1) n := by
      rw [inside_write hone]
      exact h.add (by omega)
    have hsplit : (m.write p [some v]).write (p.add 1) (List.replicate n (some v)) =
        m.write p ([some v] ++ List.replicate n (some v)) :=
      write_write (by rwa [List.singleton_append, List.length_cons, List.length_replicate])
    rw [fill, store_of_inside hone, ok_bind, ih hrest, hsplit, List.singleton_append, List.replicate_succ]

theorem copy_of_inside {dst src : Ptr} (hdst : m.Inside dst n) (hsrc : m.Inside src n)
    (hapart : Apart dst n src n) : m.copy dst src n = .ok (m.write dst (m.slice src n)) := by
  have hlen : (m.slice src n).length = n := length_slice hsrc
  rw [copy, load, if_pos hsrc, ok_bind, store_of_inside (by rwa [hlen]), ok_bind, if_pos hapart]
  rfl

theorem inside_fresh (h : k ≤ n) : (m.fresh n).Inside ⟨m.next, 0⟩ k := by
  refine .inr ?_
  simp only [fresh, Function.update_self, List.length_replicate]
  omega

/-- Every cell of the range has been written. -/
def Written (m : Mem α) (p : Ptr) (n : Nat) : Prop := ∀ c ∈ m.slice p n, c.isSome

theorem Written.mono (h : m.Written p n) (hk : k ≤ n) : m.Written p k :=
  fun c hc => h c (List.mem_of_mem_take (slice_take hk ▸ hc))

theorem Written.add (h : m.Written p n) {i : Nat} (hk : i + k ≤ n) : m.Written (p.add i) k :=
  fun c hc => h c (List.mem_of_mem_drop (List.mem_of_mem_take (slice_drop_take hk ▸ hc)))

end Mem

/-! ### What a change leaves alone -/

/-- `m'` has the blocks of `m` and new ones, and differs on the old ones in the range only, where it has written. -/
structure ChangedIn (p : Ptr) (n : Nat) (m m' : Mem α) : Prop where
  next_le : m.next ≤ m'.next
  length_eq : ∀ b < m.next, (m'.cells b).length = (m.cells b).length
  cell : ∀ b < m.next, ∀ i, (m'.cells b)[i]? = (m.cells b)[i]? ∨
    (b = p.block ∧ p.offset ≤ i ∧ i < p.offset + n) ∧ ∃ v, (m'.cells b)[i]? = some (some v)

namespace ChangedIn

variable {m' : Mem α}

theorem refl : ChangedIn p n m m := ⟨Nat.le_refl _, fun _ _ => rfl, fun _ _ _ => .inl rfl⟩

theorem fresh (k : Nat) : ChangedIn p n m (m.fresh k) where
  next_le := Nat.le_succ _
  length_eq b hb := by simp only [Mem.fresh, Function.update_of_ne (Nat.ne_of_lt hb)]
  cell b hb i := .inl (by simp only [Mem.fresh, Function.update_of_ne (Nat.ne_of_lt hb)])

theorem write (h : ChangedIn p n m m') (hin : m'.Inside q xs.length) (hxs : ∀ c ∈ xs, c.isSome)
    (hq : m.next ≤ q.block ∨ q.block = p.block ∧ p.offset ≤ q.offset ∧ q.offset + xs.length ≤ p.offset + n) :
    ChangedIn p n m (m'.write q xs) where
  next_le := h.next_le
  length_eq b hb := (Mem.length_cells_write hin b).trans (h.length_eq b hb)
  cell b hb i := by
    rw [Mem.cells_write hin]
    split_ifs with hi
    · have hlt : i - q.offset < xs.length := by omega
      obtain ⟨v, hv⟩ := Option.isSome_iff_exists.mp (hxs _ (List.getElem_mem hlt))
      exact .inr ⟨by omega, v, by rw [List.getElem?_eq_getElem hlt, hv]⟩
    · exact h.cell b hb i

theorem inside_iff (h : ChangedIn p n m m') (hq : q.block < m.next) : m'.Inside q k ↔ m.Inside q k := by
  rw [Mem.Inside, Mem.Inside, h.length_eq _ hq]

theorem slice_eq (h : ChangedIn p n m m') (hq : q.block < m.next) (hapart : Apart p n q k) :
    m'.slice q k = m.slice q k := by
  refine List.ext_getElem? fun i => ?_
  rw [Mem.getElem?_slice, Mem.getElem?_slice]
  split_ifs with hi
  · refine (h.cell _ hq _).resolve_right fun hin => ?_
    unfold Apart at hapart
    omega
  · rfl

theorem written (h : ChangedIn p n m m') (hq : q.block < m.next) (hw : m.Written q k) : m'.Written q k := by
  intro c hc
  obtain ⟨i, hi⟩ := List.mem_iff_getElem?.mp hc
  rw [Mem.getElem?_slice] at hi
  split_ifs at hi with hik
  rcases h.cell _ hq (q.offset + i) with heq | ⟨-, v, hv⟩
  · refine hw c (List.mem_iff_getElem?.mpr ⟨i, ?_⟩)
    rw [Mem.getElem?_slice, if_pos hik, ← heq, hi]
  · obtain rfl := Option.some.inj (hi.symm.trans hv)
    rfl

end ChangedIn

end Blocks
