import StepMesh.VanCommon
import StepMesh.Lib.Run

/-!
# Calls on an `AddressPool` (`src/van_common.h`)

The queue of free indices and the table are changed one after the other, and an index goes round: out of the
front of the queue with `StoreAddress`, back to its end with `GetAddressAndRelease`. `Partition` is what every
call keeps: the queue lists the indices without an entry, each once. An index past the table has no entry, and
asking for one counts as a failed check.
-/

namespace StepMesh.AddressPool

variable {α : Type*} {n idx : Nat} {p : α} {pool pool' : AddressPool α}

def getAddressAndRelease (pool : AddressPool α) (idx : Nat) : Option (α × AddressPool α) := do
  let p ← pool.table idx
  return (p, { table := Function.update pool.table idx none, indices := pool.indices ++ [idx] })

inductive Call (α : Type*)
  | storeAddress (p : α)
  | getAddress (idx : Nat)
  | getAddressAndRelease (idx : Nat)
deriving DecidableEq, Repr

/-- A call that has returned, with what it was given and what it returned. -/
inductive Event (α : Type*)
  | storeAddress (p : α) (idx : Nat)
  | getAddress (idx : Nat) (p : α)
  | getAddressAndRelease (idx : Nat) (p : α)
deriving DecidableEq, Repr

/-- One call; a failed check gives `none`. -/
def call (pool : AddressPool α) : Call α → Option (AddressPool α × Event α)
  | .storeAddress p => (pool.storeAddress p).map fun (idx, pool') => (pool', .storeAddress p idx)
  | .getAddress idx => (pool.getAddress idx).map fun p => (pool, .getAddress idx p)
  | .getAddressAndRelease idx =>
    (pool.getAddressAndRelease idx).map fun (p, pool') => (pool', .getAddressAndRelease idx p)

/-- What a call that has returned makes of the pointer stored at `idx`. -/
def Event.stored (idx : Nat) (cur : Option α) : Event α → Option α
  | .storeAddress p i => if i = idx then some p else cur
  | .getAddress _ _ => cur
  | .getAddressAndRelease i _ => if i = idx then none else cur

/-- The pointer that was stored at `idx` last and has not been released since, if there is one. -/
def lastStored (events : List (Event α)) (idx : Nat) : Option α := events.foldl (Event.stored idx) none

theorem lastStored_snoc (events : List (Event α)) (e : Event α) (idx : Nat) :
    lastStored (events ++ [e]) idx = e.stored idx (lastStored events idx) := by
  rw [lastStored, List.foldl_append]
  rfl

/-- The queue lists the indices that have no entry, and the entries are those that were stored. -/
structure Partition (n : Nat) (events : List (Event α)) (pool : AddressPool α) : Prop where
  nodup : pool.indices.Nodup
  mem_indices : ∀ idx, idx ∈ pool.indices ↔ idx < n ∧ pool.table idx = none
  table : ∀ idx, pool.table idx = lastStored events idx
  bound : ∀ idx, pool.table idx ≠ none → idx < n

theorem partition_init (n : Nat) : Partition n [] (init n : AddressPool α) where
  nodup := List.nodup_range
  mem_indices idx := by simp [init]
  table _ := rfl
  bound _ h := absurd rfl h

theorem getAddressAndRelease_eq_some : pool.getAddressAndRelease idx = some (p, pool') ↔
    pool.table idx = some p ∧
      pool' = { table := Function.update pool.table idx none, indices := pool.indices ++ [idx] } := by
  rw [getAddressAndRelease, Option.bind_eq_bind, Option.bind_eq_some_iff]
  constructor
  · rintro ⟨q, hq, heq⟩
    obtain ⟨rfl, rfl⟩ : q = p ∧ _ = pool' := by simpa using heq
    exact ⟨hq, rfl⟩
  · rintro ⟨hp, rfl⟩
    exact ⟨p, hp, rfl⟩

namespace Partition

variable {events : List (Event α)}

theorem storeAddress (h : Partition n events pool) (hs : pool.storeAddress p = some (idx, pool')) :
    idx < n ∧ lastStored events idx = none ∧ Partition n (events ++ [.storeAddress p idx]) pool' := by
  obtain ⟨rest, hind, hnone, rfl⟩ := storeAddress_eq_some.mp hs
  have hlt : idx < n := ((h.mem_indices idx).mp (hind ▸ List.mem_cons_self)).1
  have hnodup := h.nodup
  rw [hind] at hnodup
  obtain ⟨hnot, hrest⟩ := List.nodup_cons.mp hnodup
  refine ⟨hlt, (h.table idx).symm.trans hnone, hrest, fun i => ?_, fun i => ?_, fun i hi => ?_⟩
  · have hi := h.mem_indices i
    rw [hind, List.mem_cons] at hi
    rcases eq_or_ne i idx with rfl | hne
    · simp [hnot]
    · simpa [hne] using hi
  · rw [lastStored_snoc, ← h.table i]
    rcases eq_or_ne i idx with rfl | hne
    · simp [Event.stored]
    · simp [Event.stored, hne, hne.symm]
  · rcases eq_or_ne i idx with rfl | hne
    · exact hlt
    · exact h.bound i (by simpa [hne] using hi)

theorem getAddress (h : Partition n events pool) (hs : pool.getAddress idx = some p) :
    lastStored events idx = some p ∧ Partition n (events ++ [.getAddress idx p]) pool := by
  refine ⟨(h.table idx).symm.trans hs, h.nodup, h.mem_indices, fun i => ?_, h.bound⟩
  rw [lastStored_snoc]
  exact h.table i

theorem getAddressAndRelease (h : Partition n events pool)
    (hs : pool.getAddressAndRelease idx = some (p, pool')) :
    lastStored events idx = some p ∧ Partition n (events ++ [.getAddressAndRelease idx p]) pool' := by
  obtain ⟨hp, rfl⟩ := getAddressAndRelease_eq_some.mp hs
  have hn : idx < n := h.bound idx (by simp [hp])
  have hnot : idx ∉ pool.indices := by
    rw [h.mem_indices, hp]
    simp
  refine ⟨(h.table idx).symm.trans hp, ?_, fun i => ?_, fun i => ?_, fun i hi => ?_⟩
  · exact List.nodup_append_comm.mp (List.nodup_cons.mpr ⟨hnot, h.nodup⟩)
  · rw [List.mem_append, List.mem_singleton, h.mem_indices]
    rcases eq_or_ne i idx with rfl | hne
    · simp [hn]
    · simp [hne]
  · rw [lastStored_snoc, ← h.table i]
    rcases eq_or_ne i idx with rfl | hne
    · simp [Event.stored]
    · simp [Event.stored, hne, hne.symm]
  · rcases eq_or_ne i idx with rfl | hne
    · exact hn
    · exact h.bound i (by simpa [hne] using hi)

theorem call (h : Partition n events pool) {c : Call α} {e : Event α} (hc : pool.call c = some (pool', e)) :
    Partition n (events ++ [e]) pool' := by
  cases c with
  | storeAddress p =>
    obtain ⟨⟨idx, pool₁⟩, hs, heq⟩ := Option.map_eq_some_iff.mp hc
    obtain ⟨rfl, rfl⟩ := Prod.mk.inj heq
    exact (h.storeAddress hs).2.2
  | getAddress idx =>
    obtain ⟨p, hs, heq⟩ := Option.map_eq_some_iff.mp hc
    obtain ⟨rfl, rfl⟩ := Prod.mk.inj heq
    exact (h.getAddress hs).2
  | getAddressAndRelease idx =>
    obtain ⟨⟨p, pool₁⟩, hs, heq⟩ := Option.map_eq_some_iff.mp hc
    obtain ⟨rfl, rfl⟩ := Prod.mk.inj heq
    exact (h.getAddressAndRelease hs).2

end Partition

/-- After any calls that pass their checks the queue of free indices has no duplicate and lists exactly the
indices whose entry is null. The next `StoreAddress` returns an index not in use; the other two calls return the
pointer that was stored at their index last, and fail when it has been released. -/
theorem calls_partition (n : Nat) (calls : List (Call α)) (pool : AddressPool α) (events : List (Event α))
    (hrun : Run.execOut call (init n) calls = some (pool, events)) :
    pool.indices.Nodup ∧ (∀ idx, idx ∈ pool.indices ↔ idx < n ∧ pool.table idx = none) ∧
      (∀ p idx pool', pool.storeAddress p = some (idx, pool') →
        idx < n ∧ lastStored events idx = none ∧ pool'.getAddress idx = some p) ∧
      (∀ idx, pool.getAddress idx = lastStored events idx) ∧
      ∀ idx, (pool.getAddressAndRelease idx).map (·.1) = lastStored events idx := by
  have h : Partition n events pool := Run.execOut_invariant (Partition n) (partition_init n)
    (fun _ _ _ _ _ h hc => h.call hc) hrun
  refine ⟨h.nodup, h.mem_indices, fun p idx pool' hs => ?_, h.table, fun idx => ?_⟩
  · obtain ⟨hlt, hfree, -⟩ := h.storeAddress hs
    obtain ⟨_, -, -, rfl⟩ := storeAddress_eq_some.mp hs
    exact ⟨hlt, hfree, Function.update_self ..⟩
  · rw [← h.table idx, AddressPool.getAddressAndRelease]
    cases pool.table idx <;> rfl

/-- A pool of two entries; index 1 is released and handed out again. -/
theorem calls_partition_two : ∃ (pool : AddressPool Nat) (events : List (Event Nat)),
    Run.execOut call (init 2) [.storeAddress 7, .storeAddress 8, .getAddressAndRelease 1, .storeAddress 9,
      .getAddress 0, .getAddressAndRelease 0] = some (pool, events) ∧ lastStored events 1 = some 9 ∧
      pool.getAddress 1 = some 9 ∧ pool.indices.Nodup := by
  refine ⟨_, _, rfl, rfl, ?_⟩
  obtain ⟨hnodup, -, -, hget, -⟩ := calls_partition (α := Nat) 2 [.storeAddress 7, .storeAddress 8,
    .getAddressAndRelease 1, .storeAddress 9, .getAddress 0, .getAddressAndRelease 0] _ _ rfl
  exact ⟨hget 1, hnodup⟩

end StepMesh.AddressPool
