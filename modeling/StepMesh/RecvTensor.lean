import Mathlib.Data.Option.Basic
import StepMesh.Lib.ListAux
import StepMesh.Routing

/-!
# Parts of a tensor as receive buffers (`include/ps/af_tensor_app.h`)

`RegisterRecvTensor` splits a tensor evenly over the given worker ranks. The length of a part is an `int` and
its offset a product in 32 bits, so the parts are those of the tensor only while both hold what they are
meant to (`PartsFit`).
-/

namespace StepMesh

namespace AFServer

/-- `RegisterRecvBuffer_`; the length becomes the `size_t` of the array. -/
def registerRecvBuffer_ (po : Postoffice) (workerRank : Int) (k : Key) (data : Nat) (dataLen : Int) :
    Option Message :=
  KVServer.registerRecvBufferWithRank po workerRank [k]
    { ptr := data, size := (dataLen % 2 ^ 64).toNat } [dataLen] 0

/-- `RegisterRecvTensor`: `chunk_size` is an `int`, `chunk_size * i` an `unsigned`, which is what `i` is as
well: with 2³² ranks or more the loop would not end. -/
def registerRecvTensor (po : Postoffice) (tensor : Tensor) (workerRanks : List Int) (keys : List Key) :
    Option (List Message) := do
  guard (0 < workerRanks.length)
  guard (workerRanks.length = keys.length)
  let dataSize := tensor.nbytes % 2 ^ 64
  let chunkSize := Int.bmod (dataSize / workerRanks.length : Nat) (2 ^ 32)
  guard (dataSize % workerRanks.length = 0)
  guard (workerRanks.length < 2 ^ 32)
  (List.range workerRanks.length).mapM fun i => do
    let rank ← workerRanks[i]?
    let k ← keys[i]?
    registerRecvBuffer_ po rank k (tensor.dataPtr + (chunkSize % 2 ^ 32).toNat * i % 2 ^ 32) chunkSize

end AFServer

/-- The bytes `[i·size/n, (i+1)·size/n)` of a tensor. -/
def Tensor.part (t : Tensor) (n i : Nat) : SArray :=
  { ptr := t.dataPtr + i * t.nbytes / n, size := (i + 1) * t.nbytes / n - i * t.nbytes / n }

/-- What the registrations of a tensor are to be: for the `i`-th rank and key, the `i`-th part. -/
structure PartsRegistered (po : Postoffice) (tensor : Tensor) (workerRanks : List Int) (keys : List Key)
    (msgs : List Message) : Prop where
  length : msgs.length = workerRanks.length
  part : ∀ (i : Nat) rank k msg, workerRanks[i]? = some rank → keys[i]? = some k → msgs[i]? = some msg →
    msg.msgMeta.sender = po.groupWorkerRankToInstanceID rank po.instanceIdx ∧ msg.msgMeta.key = k ∧
      msg.data[1]? = some (tensor.part workerRanks.length i)
  ordered : ∀ (i j : Nat) msg msg' vals vals', i < j → msgs[i]? = some msg → msgs[j]? = some msg' →
    msg.data[1]? = some vals → msg'.data[1]? = some vals' → vals.ptr + vals.size ≤ vals'.ptr
  covered : ∀ b < tensor.nbytes, ∃ (i : Nat) (msg : Message) (vals : SArray), msgs[i]? = some msg ∧
    msg.data[1]? = some vals ∧ vals.ptr ≤ tensor.dataPtr + b ∧ tensor.dataPtr + b < vals.ptr + vals.size

/-- A part of `size / n` bytes has an `int` for its length and 32 bits for every offset; the one part of a
tensor within 2 GiB of 2⁶⁴ bytes has a length that is right again after it was negative. -/
def PartsFit (size n : Nat) : Prop :=
  n < 2 ^ 32 ∧ (size / n < 2 ^ 31 ∧ (n - 1) * (size / n) < 2 ^ 32 ∨ n = 1 ∧ 2 ^ 64 - 2 ^ 31 ≤ size)

instance (size n : Nat) : Decidable (PartsFit size n) := by unfold PartsFit; infer_instance

namespace Tensor

variable {t : Tensor} {n : Nat}

theorem part_eq (hdvd : n ∣ t.nbytes) (i : Nat) :
    t.part n i = { ptr := t.dataPtr + i * (t.nbytes / n), size := t.nbytes / n } := by
  have hmul : ∀ j, j * t.nbytes / n = j * (t.nbytes / n) := fun j => Nat.mul_div_assoc j hdvd
  rw [part, hmul, hmul, Nat.succ_mul, Nat.add_sub_cancel_left]

end Tensor

namespace AFServer

variable {po : Postoffice} {tensor : Tensor} {workerRanks : List Int} {keys : List Key}

theorem registerRecvBuffer_eq_some (po : Postoffice) (workerRank : Int) (k : Key) (data : Nat)
    (dataLen : Int) : ∃ msg, registerRecvBuffer_ po workerRank k data dataLen = some msg ∧
      msg.msgMeta.sender = po.groupWorkerRankToInstanceID workerRank po.instanceIdx ∧
      msg.msgMeta.key = k ∧ msg.data[1]? = some { ptr := data, size := (dataLen % 2 ^ 64).toNat } :=
  ⟨_, rfl, rfl, rfl, rfl⟩

/-- What is registered for the `i`-th rank and key, whatever the widths do to it. -/
theorem registerRecvTensor_eq_some (hpos : 0 < workerRanks.length) (hlen : workerRanks.length = keys.length)
    (hdvd : workerRanks.length ∣ tensor.nbytes) (hsize : tensor.nbytes < 2 ^ 64)
    (hn : workerRanks.length < 2 ^ 32) :
    let chunkSize := Int.bmod (tensor.nbytes / workerRanks.length : Nat) (2 ^ 32)
    ∃ msgs, registerRecvTensor po tensor workerRanks keys = some msgs ∧ msgs.length = workerRanks.length ∧
      ∀ (i : Nat) rank k msg, workerRanks[i]? = some rank → keys[i]? = some k → msgs[i]? = some msg →
        msg.msgMeta.sender = po.groupWorkerRankToInstanceID rank po.instanceIdx ∧ msg.msgMeta.key = k ∧
          msg.data[1]? = some { ptr := tensor.dataPtr + (chunkSize % 2 ^ 32).toNat * i % 2 ^ 32
                                size := (chunkSize % 2 ^ 64).toNat } := by
  intro chunkSize
  let data := fun i : Nat => tensor.dataPtr + (chunkSize % 2 ^ 32).toNat * i % 2 ^ 32
  choose msgOf hmsg hspec using fun rank k i => registerRecvBuffer_eq_some po rank k (data i) chunkSize
  refine ⟨(List.range workerRanks.length).map fun i => msgOf (workerRanks.getD i 0) (keys.getD i 0) i,
    ?_, by simp, ?_⟩
  · simp only [registerRecvTensor, guard, Nat.mod_eq_of_lt hsize, if_pos hpos, if_pos hlen, if_pos hn,
      if_pos (Nat.mod_eq_zero_of_dvd hdvd), Option.bind_eq_bind, Option.pure_def, Option.bind_some]
    refine List.mapM_eq_some_map fun i hi => ?_
    have hi : i < workerRanks.length := List.mem_range.mp hi
    simp only [List.getElem?_eq_getElem hi, List.getElem?_eq_getElem (hlen ▸ hi), Option.bind_some,
      List.getD_eq_getElem?_getD, Option.getD_some]
    exact hmsg _ _ i
  · intro i rank k msg hrank hk hi
    have hlt : i < workerRanks.length := List.lt_of_getElem?_eq_some hrank
    rw [List.getElem?_map, List.getElem?_range hlt, Option.map_some, List.getD_eq_getElem?_getD, hrank,
      List.getD_eq_getElem?_getD, hk] at hi
    obtain rfl := Option.some.inj hi
    exact hspec rank k i

theorem bmod_emod_eq_iff {q : Nat} (hq : q < 2 ^ 64) :
    (Int.bmod q (2 ^ 32) % 2 ^ 64).toNat = q ↔ q < 2 ^ 31 ∨ 2 ^ 64 - 2 ^ 31 ≤ q := by
  rw [Int.bmod_def]
  split_ifs with h <;> omega

/-- The offset of every part survives the product in 32 bits. -/
theorem offsets_eq_iff {q n : Nat} (hq : q < 2 ^ 31) (hn : 0 < n) :
    (∀ i < n, (Int.bmod q (2 ^ 32) % 2 ^ 32).toNat * i % 2 ^ 32 = i * q) ↔ (n - 1) * q < 2 ^ 32 := by
  have hmod : (Int.bmod q (2 ^ 32) % 2 ^ 32).toNat = q := by
    rw [Int.bmod_def]
    split_ifs with h <;> omega
  rw [hmod]
  constructor
  · intro h
    rw [← h (n - 1) (by omega)]
    exact Nat.mod_lt _ (Nat.two_pow_pos 32)
  · intro h i hi
    have hle : i * q ≤ (n - 1) * q := Nat.mul_le_mul_right q (by omega)
    rw [Nat.mul_comm, Nat.mod_eq_of_lt (by omega)]

theorem partsFit_iff {size n : Nat} (hn : 0 < n) (hdvd : n ∣ size) (hsize : size < 2 ^ 64) :
    PartsFit size n ↔ n < 2 ^ 32 ∧ ∀ i < n,
      (Int.bmod (size / n : Nat) (2 ^ 32) % 2 ^ 32).toNat * i % 2 ^ 32 = i * (size / n) ∧
      (Int.bmod (size / n : Nat) (2 ^ 32) % 2 ^ 64).toNat = size / n := by
  have hmul : n * (size / n) = size := Nat.mul_div_cancel' hdvd
  have hq : size / n < 2 ^ 64 := Nat.lt_of_le_of_lt (Nat.div_le_self _ _) hsize
  rw [PartsFit, and_congr_right_iff]
  intro _
  constructor
  · rintro (⟨hq31, hoff⟩ | ⟨rfl, hbig⟩) i hi
    · exact ⟨(offsets_eq_iff hq31 hn).mpr hoff i hi, (bmod_emod_eq_iff hq).mpr (.inl hq31)⟩
    · obtain rfl : i = 0 := by omega
      refine ⟨by rw [Nat.mul_zero, Nat.zero_mod, Nat.zero_mul], (bmod_emod_eq_iff hq).mpr (.inr ?_)⟩
      rwa [Nat.div_one]
  · intro h
    rcases (bmod_emod_eq_iff hq).mp (h 0 hn).2 with hq31 | hbig
    · exact .inl ⟨hq31, (offsets_eq_iff hq31 hn).mp fun i hi => (h i hi).1⟩
    · -- two parts of that length would not be a tensor of 64 bits
      have hone : n = 1 := by
        by_contra hne
        have : 2 * (size / n) ≤ n * (size / n) := Nat.mul_le_mul_right _ (by omega)
        omega
      subst hone
      exact .inr ⟨rfl, by rwa [Nat.div_one] at hbig⟩

theorem exists_part {size n b : Nat} (hdvd : n ∣ size) (hb : b < size) :
    ∃ i < n, i * (size / n) ≤ b ∧ b < i * (size / n) + size / n := by
  have hmul : n * (size / n) = size := Nat.mul_div_cancel' hdvd
  have hq : 0 < size / n := Nat.pos_of_ne_zero fun h => by rw [h] at hmul; omega
  refine ⟨b / (size / n), ?_, Nat.div_mul_le_self _ _, ?_⟩
  · exact Nat.div_lt_of_lt_mul (by rwa [Nat.mul_comm, hmul])
  · rw [← Nat.succ_mul]
    exact Nat.lt_mul_of_div_lt (Nat.lt_succ_self _) hq

end AFServer

end StepMesh
