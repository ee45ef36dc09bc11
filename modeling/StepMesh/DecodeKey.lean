import StepMesh.UcxVan
import StepMesh.VanCommon

/-!
# The loop of `DecodeKey` (`src/van_common.h`)

`decodeKey` is what the loop has computed when it ends. It counts in an `unsigned int` up to the `size_t` size of
the array, so it ends on fewer than `2 ^ 32` bytes only: the first of up to `2 ^ 29 - 1` keys is returned, and no
key of more. The UCX van has a `DecodeKey` of its own, for one key.
-/

namespace StepMesh

open Buf

/-- The loop from round `i` on; it has not ended after `fuel` rounds if that is `none`. -/
def decodeKeyFrom (keys : List UInt8) : Nat → UInt32 → UInt64 → UInt64 → Option UInt64
  | 0, _, _, _ => none
  | fuel + 1, i, coef, key =>
    if h : i.toNat < keys.length then
      decodeKeyFrom keys fuel (i + 1) (coef * 256) (key + coef * keys[i.toNat].toUInt64)
    else some key

/-- `DecodeKey` on the bytes of the array. -/
def decodeKeyBytes (fuel : Nat) (keys : List UInt8) : Option UInt64 := decodeKeyFrom keys fuel 0 1 0

/-- `UCXVan::DecodeKey`: the eight bytes read as one word. -/
def UcxVan.decodeKeyBytes (keys : List UInt8) : Option UInt64 := do
  guard (keys.length = 8)
  return ofUint64Bytes keys

theorem length_flatMap_uint64Bytes (keys : List Key) : (keys.flatMap uint64Bytes).length = 8 * keys.length := by
  induction keys with
  | nil => rfl
  | cons k keys ih =>
    rw [List.flatMap_cons, List.length_append, ih, uint64Bytes, length_leBytes, List.length_cons]
    omega

theorem decodeKeyFrom_eq (done rest : List UInt8) {i : UInt32} (hi : i.toNat = done.length)
    (hlen : (done ++ rest).length < 2 ^ 32) (coef key : UInt64) :
    decodeKeyFrom (done ++ rest) (rest.length + 1) i coef key = some (decodeKeyLoop rest coef key) := by
  induction rest generalizing done i coef key with
  | nil =>
    rw [decodeKeyFrom, dif_neg (by simp [hi])]
    rfl
  | cons x rest ih =>
    have hlt : i.toNat < (done ++ x :: rest).length := by simp [hi]
    have hx : (done ++ x :: rest)[i.toNat] = x := by simp [hi]
    have hnext : (i + 1).toNat = (done ++ [x]).length := by
      rw [List.length_append, List.length_cons] at hlen
      rw [UInt32.toNat_add, hi, UInt32.toNat_one, List.length_append, List.length_singleton]
      omega
    rw [decodeKeyFrom, dif_pos hlt, hx, decodeKeyLoop]
    simpa using ih (done ++ [x]) hnext (by simpa using hlen) (coef * 256) (key + coef * x.toUInt64)

/-- The counter never reaches `2 ^ 32`. -/
theorem decodeKeyFrom_eq_none {keys : List UInt8} (hlen : 2 ^ 32 ≤ keys.length) (fuel : Nat) (i : UInt32)
    (coef key : UInt64) : decodeKeyFrom keys fuel i coef key = none := by
  induction fuel generalizing i coef key with
  | zero => rfl
  | succ fuel ih =>
    have hlt : i.toNat < keys.length := Nat.lt_of_lt_of_le i.toNat_lt hlen
    rw [decodeKeyFrom, dif_pos hlt, ih]

theorem decodeKeyBytes_eq (keys : List Key) (hlen : keys.length < 2 ^ 29) :
    decodeKeyBytes (8 * keys.length + 1) (keys.flatMap uint64Bytes) = some (decodeKey keys) := by
  have h := decodeKeyFrom_eq [] (keys.flatMap uint64Bytes) (i := 0) rfl
    (by rw [List.nil_append, length_flatMap_uint64Bytes]; omega) 1 0
  rwa [List.nil_append, length_flatMap_uint64Bytes] at h

theorem decodeKeyBytes_eq_none (keys : List Key) (hlen : 2 ^ 29 ≤ keys.length) (fuel : Nat) :
    decodeKeyBytes fuel (keys.flatMap uint64Bytes) = none :=
  decodeKeyFrom_eq_none (by rw [length_flatMap_uint64Bytes]; omega) fuel 0 1 0

theorem ucxDecodeKey_eq {msg : Message} {k : Key} {arr : SArray} (hkeys : msg.keys = [k])
    (hdata : msg.data[0]? = some arr) (hsize : arr.size = 8) :
    ucxDecodeKey msg = UcxVan.decodeKeyBytes (msg.keys.flatMap uint64Bytes) := by
  have hlen : (uint64Bytes k).length = 8 := length_leBytes 8 _
  simp [ucxDecodeKey, UcxVan.decodeKeyBytes, hdata, hsize, hkeys, hlen, ofUint64Bytes_uint64Bytes, guard]

/-- `DecodeKey` returns the first of the keys exactly if these are fewer than `2 ^ 29`, and on one key what the UCX
van returns. -/
theorem decodeKeyBytes_first_iff (k : Key) (keys : List Key) :
    ((∃ fuel, decodeKeyBytes fuel ((k :: keys).flatMap uint64Bytes) = some k) ↔ (k :: keys).length < 2 ^ 29) ∧
      (∃ fuel, decodeKeyBytes fuel (uint64Bytes k) = UcxVan.decodeKeyBytes (uint64Bytes k)) ∧
      UcxVan.decodeKeyBytes (uint64Bytes k) = some k := by
  have hucx : UcxVan.decodeKeyBytes (uint64Bytes k) = some k := by
    rw [UcxVan.decodeKeyBytes, guard, if_pos (by simp [uint64Bytes]), ofUint64Bytes_uint64Bytes]
    rfl
  refine ⟨⟨?_, fun hlen => ⟨8 * (k :: keys).length + 1, ?_⟩⟩, ⟨9, ?_⟩, hucx⟩
  · rintro ⟨fuel, h⟩
    by_contra hlen
    rw [decodeKeyBytes_eq_none (k :: keys) (Nat.le_of_not_lt hlen)] at h
    cases h
  · rw [decodeKeyBytes_eq (k :: keys) hlen, decodeKey_cons]
  · have h := decodeKeyBytes_eq [k] (by simp)
    rw [decodeKey_singleton, List.flatMap_singleton] at h
    rw [hucx, ← h]
    rfl

/-- `2 ^ 29` keys: the counter is back at 0 before the array ends. -/
theorem decodeKeyBytes_never_ends :
    ¬ ∃ fuel, decodeKeyBytes fuel ((List.replicate (2 ^ 29) 7).flatMap uint64Bytes) = some 7 := by
  rintro ⟨fuel, h⟩
  rw [decodeKeyBytes_eq_none _ (by rw [List.length_replicate])] at h
  cases h

end StepMesh
