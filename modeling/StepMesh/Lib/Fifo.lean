import Mathlib.Algebra.Order.Ring.Int
import Mathlib.Data.List.Basic

/-!
# Bounded queues

A queue is the list of what is in it. It takes an element while it has room, and gives the one at its front. After
any operations on an empty queue, what went in is what came out followed by what is in it.
-/

namespace Fifo

inductive Op (α : Type*)
  | enq (a : α)
  | deq (a : α)
deriving DecidableEq, Repr

variable {α : Type*} {cap : Nat} {l : List α} {ops : List (Op α)}

inductive Step (cap : Nat) : List α → Op α → List α → Prop
  | enq {l : List α} (a : α) (h : l.length < cap) : Step cap l (.enq a) (l ++ [a])
  | deq (a : α) (l : List α) : Step cap (a :: l) (.deq a) l

inductive Steps (cap : Nat) (l : List α) : List (Op α) → List α → Prop
  | nil : Steps cap l [] l
  | snoc {ops : List (Op α)} {m n : List α} {op : Op α} (h : Steps cap l ops m) (hs : Step cap m op n) :
    Steps cap l (ops ++ [op]) n

/-- What went in, in order. -/
def enqueued (ops : List (Op α)) : List α :=
  ops.filterMap fun
    | .enq a => some a
    | .deq _ => none

/-- What came out, in order. -/
def dequeued (ops : List (Op α)) : List α :=
  ops.filterMap fun
    | .enq _ => none
    | .deq a => some a

theorem Steps.enqueued_eq (h : Steps cap [] ops l) : enqueued ops = dequeued ops ++ l := by
  induction h with
  | nil => rfl
  | snoc h hs ih =>
    rw [enqueued, dequeued, List.filterMap_append, List.filterMap_append, ← enqueued, ← dequeued, ih]
    cases hs with
    | enq a hlt => simp
    | deq a l => simp

theorem Steps.length_le (h : Steps cap [] ops l) : l.length ≤ cap := by
  induction h with
  | nil => exact Nat.zero_le cap
  | snoc h hs ih =>
    cases hs with
    | enq a hlt =>
      rw [List.length_append]
      exact hlt
    | deq a l => exact Nat.le_of_succ_le ih

end Fifo
