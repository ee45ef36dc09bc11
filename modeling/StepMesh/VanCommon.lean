import Mathlib.Data.Finset.Card
import Mathlib.Logic.Function.Basic
import StepMesh.Codec

/-!
# What the vans share (`src/van_common.h`)

The key of a data message is computed from the bytes of its first array, and the buffers a node has
announced to its peers are found again by their index in an `AddressPool`.
-/

namespace StepMesh

open Buf

/-- `align_ceil`. -/
def alignCeil (v align : Nat) : Nat := v + align - 1 - (v + align - 1) % align

theorem le_alignCeil {v align : Nat} (h : 0 < align) : v ≤ alignCeil v align := by
  have := Nat.mod_lt (v + align - 1) h
  unfold alignCeil
  omega

/-- `kMaxDataFields`: the number of lengths a `RendezvousStart` has room for. -/
def kMaxDataFields : Nat := 4

/-! ### `DecodeKey` -/

/-- The loop over the bytes, with `coef` and `key`. -/
def decodeKeyLoop : List UInt8 → UInt64 → UInt64 → UInt64
  | [], _, key => key
  | x :: xs, coef, key => decodeKeyLoop xs (coef * 256) (key + coef * x.toUInt64)

def decodeKey (keys : List Key) : Key := decodeKeyLoop (keys.flatMap uint64Bytes) 1 0

theorem decodeKeyLoop_eq (xs : List UInt8) (coef key : UInt64) :
    decodeKeyLoop xs coef key = key + coef * .ofNat (ofLE xs) := by
  induction xs generalizing coef key with
  | nil => simp [decodeKeyLoop, ofLE]
  | cons x xs ih =>
    have hx : UInt64.ofNat x.toNat = x.toUInt64 := UInt64.toNat.inj (by simp)
    rw [decodeKeyLoop, ih, ofLE, UInt64.ofNat_add, UInt64.ofNat_mul, hx]
    have h256 : UInt64.ofNat 256 = 256 := rfl
    rw [h256]
    grind

/-- The bytes after the first key are multiplied by a power of 2⁶⁴. -/
theorem decodeKey_cons (k : Key) (ks : List Key) : decodeKey (k :: ks) = k := by
  have hk : ofLE (uint64Bytes k) = k.toNat := by
    rw [uint64Bytes, ofLE_leBytes, Nat.mod_eq_of_lt (by simpa using k.toNat_lt)]
  have hlen : 256 ^ (uint64Bytes k).length = 2 ^ 64 := by
    rw [uint64Bytes, length_leBytes]
    rfl
  have hzero : UInt64.ofNat (2 ^ 64) = 0 := rfl
  rw [decodeKey, List.flatMap_cons, decodeKeyLoop_eq, ofLE_append, hk, hlen, UInt64.ofNat_add,
    UInt64.ofNat_mul, hzero, UInt64.ofNat_toNat]
  simp

theorem decodeKey_singleton (k : Key) : decodeKey [k] = k := decodeKey_cons k []

/-! ### `AddressPool` -/

/-- The free indices in the order in which they are handed out, and the entry of each index. -/
structure AddressPool (α : Type*) where
  table : Nat → Option α := fun _ => none
  indices : List Nat

namespace AddressPool

variable {α : Type*} {pool pool' : AddressPool α} {p : α} {idx : Nat}

/-- The constructor; `kMaxEntries` is `BYTEPS_ADDRESS_POOL_SIZE`. -/
def init (kMaxEntries : Nat) : AddressPool α := { indices := List.range kMaxEntries }

/-- `StoreAddress`; an exhausted pool fails its check. -/
def storeAddress (pool : AddressPool α) (p : α) : Option (Nat × AddressPool α) :=
  match pool.indices with
  | [] => none
  | idx :: rest =>
    if pool.table idx = none then
      some (idx, { table := Function.update pool.table idx (some p), indices := rest })
    else none

/-- `GetAddress`. -/
def getAddress (pool : AddressPool α) (idx : Nat) : Option α := pool.table idx

theorem storeAddress_eq_some : pool.storeAddress p = some (idx, pool') ↔
    ∃ rest, pool.indices = idx :: rest ∧ pool.table idx = none ∧
      pool' = { table := Function.update pool.table idx (some p), indices := rest } := by
  unfold storeAddress
  split
  · simp_all
  · rename_i i rest heq
    split_ifs with hnone
    · simp only [Option.some.injEq, Prod.mk.injEq, heq, List.cons.injEq]
      constructor
      · rintro ⟨rfl, rfl⟩
        exact ⟨rest, ⟨rfl, rfl⟩, hnone, rfl⟩
      · rintro ⟨_, ⟨rfl, rfl⟩, -, rfl⟩
        exact ⟨rfl, rfl⟩
    · simp only [heq, List.cons.injEq]
      constructor
      · intro h; cases h
      · rintro ⟨_, ⟨rfl, rfl⟩, h, -⟩
        exact absurd h hnone

/-- The indices below `n` that have an entry. -/
def occupied (pool : AddressPool α) (n : Nat) : Finset Nat :=
  (Finset.range n).filter fun idx => (pool.table idx).isSome

/-- Every index of the pool is free or has an entry. -/
structure Ok (pool : AddressPool α) (n : Nat) : Prop where
  free : ∀ idx ∈ pool.indices, idx < n
  card : (pool.occupied n).card + pool.indices.length = n

theorem ok_init (n : Nat) : (init n : AddressPool α).Ok n where
  free _ h := List.mem_range.mp h
  card := by simp [occupied, init]

theorem occupied_storeAddress {n : Nat} (hidx : idx < n) (h : pool.storeAddress p = some (idx, pool')) :
    idx ∉ pool.occupied n ∧ pool'.occupied n = insert idx (pool.occupied n) := by
  obtain ⟨rest, -, hnone, rfl⟩ := storeAddress_eq_some.mp h
  refine ⟨by simp [occupied, hnone], ?_⟩
  ext i
  rcases eq_or_ne i idx with rfl | hi
  · simp [occupied, hidx]
  · simp [occupied, hi]

theorem Ok.storeAddress {n : Nat} (hok : pool.Ok n) (h : pool.storeAddress p = some (idx, pool')) :
    pool'.Ok n := by
  obtain ⟨rest, hind, -, hpool⟩ := storeAddress_eq_some.mp h
  have hidx : idx < n := hok.free idx (hind ▸ List.mem_cons_self)
  obtain ⟨hnot, hocc⟩ := occupied_storeAddress hidx h
  have hrest : pool'.indices = rest := congrArg indices hpool
  refine ⟨fun i hi => hok.free i ?_, ?_⟩
  · rw [hind]
    exact List.mem_cons_of_mem idx (hrest ▸ hi)
  · have hcard := hok.card
    rw [hind, List.length_cons] at hcard
    rw [hocc, Finset.card_insert_of_notMem hnot, hrest]
    omega

end AddressPool

end StepMesh
