import Mathlib.Data.UInt
import StepMesh.AFWorker
import StepMesh.RdmaPayload
import StepMesh.RdmaSplit

/-!
# The length of a pushed tensor

`ZPush_` computes the length of a tensor as a 64-bit product and puts it into an `int`, the meta carries an
`int`, a scatter entry has a `uint32_t`, and `RecvPushRequest` reads the `int` as unsigned. The length stays
what it was for every tensor whose bytes, with the eight of its key, fit an `int` (`push_length_kept_iff`).
There is no check for the others: one of 4 GiB travels as an empty one (`push_length_lost`).
-/

namespace StepMesh

open Buf RdmaVan AFWorker

/-- The bytes of payload among what is posted. -/
def postedBytes (out : Posted) : Nat := ((out.filterMap (·.2.piece)).map (·.2.2)).sum

theorem postedBytes_writePayload (cfg : RdmaCfg) (van : RdmaVan) (ep : NodeId) (t : RemoteTuple)
    (dst : RemoteAddr) (src len uid : Nat) :
    postedBytes (van.writePayload cfg ep t dst src len uid).2 = postedLen cfg len := by
  have hmeta : ∀ van₁ : RdmaVan, (van₁.rdmaWriteWithImm t uid).2.piece = none := fun _ => rfl
  unfold postedBytes writePayload postedLen
  split_ifs
  · simp [hmeta, List.filterMap_map, Function.comp_def]
  · simp [hmeta]

theorem postedLen_of_lt (cfg : RdmaCfg) {len : Nat} (h : len < 2 ^ 31) : postedLen cfg len = len := by
  unfold postedLen
  split_ifs
  · obtain hq | ⟨k, hq⟩ : cfg.qpNum = 0 ∨ ∃ k, cfg.qpNum = k + 1 := by
      cases cfg.qpNum <;> simp
    · rw [hq, Nat.div_zero, Nat.mod_zero]
      omega
    · have hlen := Nat.div_add_mod len cfg.qpNum
      have hdiv : len / cfg.qpNum ≤ len := Nat.div_le_self ..
      have hmod : len % cfg.qpNum ≤ len := Nat.mod_le ..
      rw [Nat.mod_eq_of_lt (by omega : len / cfg.qpNum < 2 ^ 32),
        Nat.mod_eq_of_lt (by omega : len / cfg.qpNum + len % cfg.qpNum < 2 ^ 32)]
      rw [hq] at hlen ⊢
      rw [Nat.succ_mul] at hlen
      rw [Nat.succ_sub_one]
      omega
  · exact Nat.mod_eq_of_lt (by omega)

/-- The message `msg` of `n` bytes, as the van sends it, keeps that length: in its own fields (`data_size`
counts the key as well), in what is posted for it, on the wire, and in the value array and the `lens` that
the receiver makes. -/
structure KeepsLength (cfg : RdmaCfg) (msg : Message) (n : Nat) : Prop where
  valLen : msg.msgMeta.valLen = n
  dataSize : msg.msgMeta.dataSize = 8 + n
  posted : ∀ (van : RdmaVan) ep t uid van' out,
    van.sendPushRequest cfg ep msg t uid = some (van', out) → postedBytes out = n
  wire : ∀ b, ofIntBytes 4 ((packMeta cfg.qpNum msg.msgMeta b).load RawMeta.valLen 4) = n ∧
    ofIntBytes 4 ((packMeta cfg.qpNum msg.msgMeta b).load RawMeta.dataSize 4) = 8 + n
  rebuilt : ∀ (van : RdmaVan) b len m ctx r,
    unpackMeta (packMeta cfg.qpNum msg.msgMeta b) len = some m → van.recvData cfg ctx m = some r →
      (∃ vals, r.data[1]? = some vals ∧ vals.size = n) ∧ r.lens = [(n : Int)]

variable {cfg : RdmaCfg} {msg : Message}

theorem unpackMeta_kind {m m' : Meta} {b : Buf} {len : Nat}
    (h : unpackMeta (packMeta cfg.qpNum m b) len = some m') :
    m'.push = m.push ∧ m'.request = m.request ∧ m'.valLen = ofIntBytes 4 (intBytes 4 m.valLen) := by
  have hfixed := load_fixedFields (m := m) (b := b) cfg.qpNum
  have hpush := hfixed (RawMeta.push, boolBytes m.push) (by simp [fixedFields])
  have hrequest := hfixed (RawMeta.request, boolBytes m.request) (by simp [fixedFields])
  have hval := hfixed (RawMeta.valLen, intBytes 4 m.valLen) (by simp [fixedFields])
  rw [length_boolBytes] at hpush hrequest
  rw [length_intBytes] at hval
  simp only [unpackMeta, Option.bind_eq_bind, Option.bind_eq_some_iff, Option.pure_def,
    Option.some.injEq] at h
  obtain ⟨-, -, rfl⟩ := h
  simp only [hpush, hrequest, hval, ofBoolBytes_boolBytes, and_self]

theorem keepsLength_of_lt {n : Nat} (vals : SArray) (hpush : msg.msgMeta.push = true)
    (hrequest : msg.msgMeta.request = true)
    (hval : msg.msgMeta.valLen = n) (hsize : msg.msgMeta.dataSize = 8 + n)
    (hvals : msg.data[1]? = some vals) (hn : vals.size = n) (hlt : 8 + n < 2 ^ 31) :
    KeepsLength cfg msg n := by
  have hfit : FitsInt 4 (n : Int) := fitsInt_length (by omega)
  refine ⟨hval, hsize, ?_, ?_, ?_⟩
  · intro van ep t uid van' out hsend
    have hout : postedBytes out = postedLen cfg (payloadLen msg) := by
      have hkind : van.sendByKind cfg ep msg t uid = some (van', out) := by
        rw [sendByKind, hpush, hrequest]
        exact hsend
      rcases sendByKind_eq_some hkind with ⟨hne, -⟩ | ⟨-, dst, src, -, hw⟩
      · exact absurd (hpush.trans hrequest.symm) hne
      · have hout : out = _ := congrArg Prod.snd hw
        rw [hout]
        exact postedBytes_writePayload ..
    rw [hout, payloadLen, if_pos hpush, hvals, Option.getD_some, hn]
    exact postedLen_of_lt cfg (by omega)
  · intro b
    have hfixed := load_fixedFields (m := msg.msgMeta) (b := b) cfg.qpNum
    have hval' := hfixed (RawMeta.valLen, intBytes 4 msg.msgMeta.valLen) (by simp [fixedFields])
    have hsize' := hfixed (RawMeta.dataSize, intBytes 4 msg.msgMeta.dataSize) (by simp [fixedFields])
    rw [length_intBytes] at hval' hsize'
    rw [hval', hsize', hval, hsize]
    have hfit' : FitsInt 4 (8 + n : Int) := by unfold FitsInt; omega
    exact ⟨ofIntBytes_intBytes hfit, ofIntBytes_intBytes hfit'⟩
  · intro van b len m ctx r hunpack hrecv
    obtain ⟨hp, hr, hv⟩ := unpackMeta_kind hunpack
    rw [hval, ofIntBytes_intBytes hfit] at hv
    simp only [recvData, hp, hr, hpush, hrequest, hv, Option.bind_eq_bind, Option.bind_eq_some_iff,
      Option.pure_def, Option.some.injEq] at hrecv
    obtain ⟨-, -, rfl⟩ := hrecv
    exact ⟨⟨_, rfl, by dsimp only; omega⟩, rfl⟩

theorem addData_fields (msg : Message) (dt : DataType) (val : SArray) :
    (msg.addData dt val).data = msg.data ++ [val] ∧
      (msg.addData dt val).msgMeta.push = msg.msgMeta.push ∧
      (msg.addData dt val).msgMeta.request = msg.msgMeta.request ∧
      (msg.addData dt val).msgMeta.valLen = msg.msgMeta.valLen ∧
      (msg.addData dt val).msgMeta.dataSize = (msg.msgMeta.dataSize + val.size).bmod (2 ^ 32) := by
  unfold Message.addData
  dsimp only
  split_ifs <;> exact ⟨rfl, rfl, rfl, rfl, rfl⟩

theorem addMeta_pushRequest (van : RdmaVan) (hpush : msg.msgMeta.push = true) (hdata : msg.data ≠ []) :
    van.addMeta msg = some { msg with msgMeta := { msg.msgMeta with key := messageKey msg } } := by
  simp [addMeta, hpush, hdata, guard]

theorem push_length_kept_iff (cfg : RdmaCfg) (van : RdmaVan) (w : AFWorker) (ts : Int) (kt : KeyTensor)
    (cmd : Int) (dst : Nat) :
    ∃ msg, van.addMeta (w.sendMsg (zMsg true ts kt cmd) dst) = some msg ∧
      (KeepsLength cfg msg kt.val.nbytes ↔ 8 + kt.val.nbytes < 2 ^ 31) := by
  obtain ⟨hdata, hpush, hrequest, hval, hsize⟩ :
      (zMsg true ts kt cmd).data = [{ size := 8 }, kt.val.toSArray] ∧
        (zMsg true ts kt cmd).msgMeta.push = true ∧ (zMsg true ts kt cmd).msgMeta.request = true ∧
        (zMsg true ts kt cmd).msgMeta.valLen = (kt.val.nbytes : Int).bmod (2 ^ 32) ∧
        (zMsg true ts kt cmd).msgMeta.dataSize = (8 + kt.val.nbytes : Int).bmod (2 ^ 32) := by
    simp only [zMsg, Message.addKeys, addData_fields, Int.bmod_add_bmod]
    simp [Tensor.toSArray]
  generalize zMsg true ts kt cmd = msg at *
  refine ⟨_, addMeta_pushRequest van hpush (by simp [AFWorker.sendMsg, hdata]), ?_⟩
  constructor
  · intro h
    have hkept : (8 + kt.val.nbytes : Int).bmod (2 ^ 32) = 8 + kt.val.nbytes := hsize.symm.trans h.dataSize
    have hlt : (8 + kt.val.nbytes : Int).bmod (2 ^ 32) < (2 ^ 32 + 1) / 2 := Int.bmod_lt (by decide)
    omega
  · intro hlt
    refine keepsLength_of_lt kt.val.toSArray hpush hrequest ?_ ?_ ?_ rfl hlt
    · exact hval.trans (Int.bmod_eq_of_le (by omega) (by omega))
    · exact hsize.trans (Int.bmod_eq_of_le (by omega) (by omega))
    · simp [AFWorker.sendMsg, hdata]

/-- A tensor of 4 GiB. -/
def largeTensor : KeyTensor :=
  { val := { storage := 4096, sizes := [2 ^ 32], itemsize := 1, scalarType := 0 } }

/-- Nothing of it is written, and the server makes an empty array for it. -/
theorem push_length_lost :
    largeTensor.val.nbytes = 2 ^ 32 ∧ (zMsg true 0 largeTensor 0).msgMeta.valLen = 0 ∧
      (zMsg true 0 largeTensor 0).msgMeta.dataSize = 8 ∧
      postedBytes ((init { gdr := true } 9 false).writePayload { gdr := true } 8
        { metaAddr := 0, dataAddr := 64, idx := 0, msgBuf := 0 } (.user 64) 4096
        largeTensor.val.nbytes 0).2 = 0 ∧
      ((unpackMeta (packMeta 1 (zMsg true 0 largeTensor 0).msgMeta 0) 288).bind fun m =>
          (init { gdr := true } 8 true).recvData { gdr := true }
            { metaBuffer := 0, gpuDataBuffer := 64, metaLen := 288, dataNum := 2, origin := (9, 0) } m).map
        (fun r => (r.data.map (·.size), r.lens)) = some ([8, 0, 4], [0]) := by
  decide +kernel

end StepMesh
