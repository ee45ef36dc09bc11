import Mathlib.Algebra.BigOperators.Group.List.Basic
import Mathlib.Algebra.Order.BigOperators.Group.List
import Mathlib.Algebra.Order.Group.Nat
import Mathlib.Algebra.Order.Ring.Int

/-!
# Interleaved threads

A thread is the list of operations it has still to do. An operation acts on the shared state and may
call others: these come next in its thread. `tick` runs the next operation of one thread. The rules
say what a tick does to a quantity that the pending operations carry (`load`) and to a property that
all of them have.
-/

namespace Threads

variable {σ Op : Type*}

structure Sys (σ Op : Type*) where
  shared : σ
  threads : List (List Op)

/-- One more thread. -/
def Sys.spawn (s : Sys σ Op) (ops : List Op) : Sys σ Op := { s with threads := s.threads ++ [ops] }

/-- The next operation of thread `i`. -/
def tick (exec : Op → σ → Option (σ × List Op)) (s : Sys σ Op) (i : Nat) : Option (Sys σ Op) :=
  match s.threads[i]? with
  | some (op :: ops) => do
    let (shared, more) ← exec op s.shared
    return ⟨shared, s.threads.set i (more ++ ops)⟩
  | _ => none

theorem tick_eq_some {exec : Op → σ → Option (σ × List Op)} {s s' : Sys σ Op} {i : Nat}
    (h : tick exec s i = some s') : ∃ op ops more, s.threads[i]? = some (op :: ops) ∧
      exec op s.shared = some (s'.shared, more) ∧ s'.threads = s.threads.set i (more ++ ops) := by
  unfold tick at h
  split at h
  · rename_i op ops hops
    obtain ⟨⟨shared, more⟩, hexec, hs'⟩ := Option.bind_eq_some_iff.mp h
    obtain rfl := Option.some.inj hs'
    exact ⟨op, ops, more, hops, hexec, rfl⟩
  · exact absurd h (by simp)

/-! ### Quantities -/

/-- The sum of a weight over all pending operations. -/
def load (w : Op → Nat) (threads : List (List Op)) : Nat :=
  (threads.map fun ops => (ops.map w).sum).sum

variable {w : Op → Nat} {threads : List (List Op)}

@[simp] theorem load_append (threads' : List (List Op)) :
    load w (threads ++ threads') = load w threads + load w threads' := by
  simp [load]

@[simp] theorem load_singleton (ops : List Op) : load w [ops] = (ops.map w).sum := by
  simp [load]

theorem load_set (w : Op → Nat) {i : Nat} {ops : List Op} (h : threads[i]? = some ops)
    (ops' : List Op) :
    load w (threads.set i ops') + (ops.map w).sum = load w threads + (ops'.map w).sum := by
  induction threads generalizing i with
  | nil => simp at h
  | cons t threads ih =>
    cases i with
    | zero =>
      obtain rfl : t = ops := by simpa using h
      simp only [load, List.set_cons_zero, List.map_cons, List.sum_cons]
      omega
    | succ i =>
      have := ih (by simpa using h)
      simp only [load, List.set_cons_succ, List.map_cons, List.sum_cons] at this ⊢
      omega

/-- A tick replaces the weight of one operation by the weights of those it calls. -/
theorem load_tick (w : Op → Nat) {i : Nat} {op : Op} {ops : List Op}
    (h : threads[i]? = some (op :: ops)) (more : List Op) :
    load w (threads.set i (more ++ ops)) + w op = load w threads + (more.map w).sum := by
  have := load_set w h (more ++ ops)
  simp only [List.map_cons, List.sum_cons, List.map_append, List.sum_append] at this
  omega

theorem load_eq_zero_iff : load w threads = 0 ↔ ∀ ops ∈ threads, ∀ op ∈ ops, w op = 0 := by
  simp [load, List.sum_eq_zero_iff]

/-! ### Properties of all pending operations -/

/-- Every pending operation satisfies `p`, which may depend on the thread. -/
def Each (p : Nat → Op → Prop) (threads : List (List Op)) : Prop :=
  ∀ i ops, threads[i]? = some ops → ∀ op ∈ ops, p i op

variable {p : Nat → Op → Prop}

theorem Each.spawn {ops : List Op} (h : Each p threads) (hops : ∀ op ∈ ops, p threads.length op) :
    Each p (threads ++ [ops]) := by
  intro i ops' hi op hop
  rcases Nat.lt_trichotomy i threads.length with hlt | rfl | hgt
  · rw [List.getElem?_append_left hlt] at hi
    exact h i ops' hi op hop
  · obtain rfl : ops = ops' := by simpa using hi
    exact hops op hop
  · rw [List.getElem?_append_right (by omega), List.getElem?_eq_none (by simp; omega)] at hi
    cases hi

theorem Each.set {i : Nat} {ops : List Op} (h : Each p threads) (hops : ∀ op ∈ ops, p i op) :
    Each p (threads.set i ops) := by
  intro j ops' hj op hop
  rw [List.getElem?_set] at hj
  split_ifs at hj with hij hlt
  · subst hij
    obtain rfl := Option.some.inj hj
    exact hops op hop
  · exact h j ops' hj op hop

theorem Each.tick {i : Nat} {op : Op} {ops more : List Op} (h : Each p threads)
    (hi : threads[i]? = some (op :: ops)) (hmore : ∀ op' ∈ more, p i op') :
    Each p (threads.set i (more ++ ops)) := by
  refine h.set fun op' hop' => ?_
  rcases List.mem_append.mp hop' with hop' | hop'
  · exact hmore op' hop'
  · exact h i _ hi op' (List.mem_cons_of_mem _ hop')

theorem Each.mono {q : Nat → Op → Prop} (h : Each p threads) (hpq : ∀ i op, p i op → q i op) :
    Each q threads :=
  fun i ops hi op hop => hpq i op (h i ops hi op hop)

/-! ### Operations of one kind that all lie in one thread -/

/-- The pending operations of the kind `q` are `ops`, all in thread `i`. -/
def Sole (q : Op → Bool) (threads : List (List Op)) (i : Nat) (ops : List Op) : Prop :=
  i < threads.length ∧
    ∀ j ops', threads[j]? = some ops' → ops'.filter q = if j = i then ops else []

variable {q : Op → Bool} {i j : Nat} {ops rest more : List Op} {op : Op}

theorem Sole.spawn_other (h : Sole q threads i ops) (hrest : ∀ op ∈ rest, q op = false) :
    Sole q (threads ++ [rest]) i ops := by
  refine ⟨by have := h.1; simp; omega, fun j ops' hj => ?_⟩
  rcases Nat.lt_trichotomy j threads.length with hlt | rfl | hgt
  · rw [List.getElem?_append_left hlt] at hj
    exact h.2 j ops' hj
  · obtain rfl : rest = ops' := by simpa using hj
    rw [if_neg (by have := h.1; omega)]
    simpa using hrest
  · rw [List.getElem?_eq_none (by simp; omega)] at hj
    cases hj

theorem Sole.spawn_new (h : Each (fun _ op => q op = false) threads) :
    Sole q (threads ++ [ops]) threads.length (ops.filter q) := by
  refine ⟨by simp, fun j ops' hj => ?_⟩
  rcases Nat.lt_trichotomy j threads.length with hlt | rfl | hgt
  · rw [List.getElem?_append_left hlt] at hj
    rw [if_neg (by omega)]
    simpa using h j ops' hj
  · obtain rfl : ops = ops' := by simpa using hj
    simp
  · rw [List.getElem?_eq_none (by simp; omega)] at hj
    cases hj

theorem Sole.set (h : Sole q threads i ops) {old new : List Op} (hj : threads[j]? = some old)
    (hnew : new.filter q = old.filter q) : Sole q (threads.set j new) i ops := by
  refine ⟨by simpa using h.1, fun k ops' hk => ?_⟩
  rw [List.getElem?_set] at hk
  split_ifs at hk with hjk hlt
  · subst hjk
    obtain rfl := Option.some.inj hk
    rw [hnew]
    exact h.2 j old hj
  · exact h.2 k ops' hk

theorem Sole.tick_other (h : Sole q threads i ops) (hj : threads[j]? = some (op :: rest))
    (hop : q op = false) (hmore : ∀ op ∈ more, q op = false) :
    Sole q (threads.set j (more ++ rest)) i ops := by
  refine h.set hj ?_
  rw [List.filter_append, List.filter_eq_nil_iff.mpr (by simpa using hmore), List.filter_cons, hop]
  rfl

theorem Sole.tick_self (h : Sole q threads i ops) (hj : threads[j]? = some (op :: rest))
    (hop : q op = true) : ∃ ops', ops = op :: ops' ∧
      ∀ more : List Op, Sole q (threads.set j (more ++ rest)) i (more.filter q ++ ops') := by
  have hfilter := h.2 j _ hj
  rw [List.filter_cons_of_pos hop] at hfilter
  split_ifs at hfilter with hji
  subst hji
  refine ⟨rest.filter q, hfilter.symm, fun more => ⟨by simpa using h.1, fun k ops' hk => ?_⟩⟩
  rw [List.getElem?_set] at hk
  split_ifs at hk with hjk hlt
  · subst hjk
    obtain rfl := Option.some.inj hk
    simp
  · rw [h.2 k ops' hk, if_neg (Ne.symm hjk), if_neg (Ne.symm hjk)]

end Threads
