import StepMesh.Codec

/-!
# Packing and unpacking a meta

`unpackMeta_packMeta`: decoding restores what was packed. The proof follows the layout: a field is
read back because every later store lies elsewhere (`load_packBody`, `load_packControl` and
`load_packNodes` say where the variable parts are). The length of the record has to fit an `int`, the
type of `GetPackMetaLen`, of `body_size` and of `node_size`.
-/

namespace StepMesh

open Buf

variable {b b' : Buf} {m : Meta} {nd : Node} {nodes : List Node} {o p n bufSize : Nat}

theorem enumOf_enumCode {α : Type*} [DecidableEq α] {all : List α} {x y : α} (h : x ∈ all) :
    enumOf all y (enumCode all x) = x := by
  simp [enumOf, enumCode, List.getElem?_eq_getElem (List.idxOf_lt_length_of_mem h)]

theorem fitsInt_enumCode {α : Type*} [DecidableEq α] {all : List α} {x : α} (h : all.length < 128) :
    FitsInt 4 (enumCode all x) := by
  have := List.idxOf_le_length (a := x) (l := all)
  unfold FitsInt enumCode; omega

theorem enumOf_ofIntBytes {α : Type*} [DecidableEq α] {all : List α} {x y : α} (h : x ∈ all)
    (hlen : all.length < 128) : enumOf all y (ofIntBytes 4 (intBytes 4 (enumCode all x))) = x := by
  rw [ofIntBytes_intBytes (fitsInt_enumCode hlen), enumOf_enumCode h]

theorem DataType.mem_all (d : DataType) : d ∈ DataType.all := by cases d <;> decide
theorem DeviceType.mem_all (d : DeviceType) : d ∈ DeviceType.all := by cases d <;> decide
theorem Role.mem_all (r : Role) : r ∈ Role.all := by cases r <;> decide
theorem Command.mem_all (c : Command) : c ∈ Command.all := by cases c <;> decide

theorem ofUint64Bytes_uint64Bytes {x : UInt64} : ofUint64Bytes (uint64Bytes x) = x := by
  rw [ofUint64Bytes, uint64Bytes, ofLE_leBytes, Nat.mod_eq_of_lt (by simpa using x.toNat_lt),
    UInt64.ofNat_toNat]

@[simp] theorem length_uint64Bytes {x : UInt64} : (uint64Bytes x).length = 8 := by simp [uint64Bytes]

/-! ### Nodes -/

/-- What the types of `Node` promise, and a hostname that fits its field. -/
structure NodeOk (nd : Node) : Prop where
  hostname_length : nd.hostname.length ≤ 63
  hostname_nul : ∀ x ∈ nd.hostname, x ≠ 0
  ints : ∀ v ∈ [nd.id, nd.port, nd.numPorts, nd.customerId, nd.auxId], FitsInt 4 v
  arrays : ∀ v ∈ nd.ports.toList ++ nd.devTypes.toList ++ nd.devIds.toList, FitsInt 4 v

theorem load_packNode (h : nd.hostname.length ≤ 64) (hd : p + n ≤ o ∨ o + RawNode.size ≤ p) :
    (packNode b o nd).load p n = b.load p n := by
  simp only [RawNode.size] at hd
  simp only [packNode, RawNode.id, RawNode.role, RawNode.port, RawNode.numPorts, RawNode.ports,
    RawNode.devTypes, RawNode.devIds, RawNode.hostname, RawNode.endpointName,
    RawNode.endpointNameLen, RawNode.isRecovery, RawNode.customerId, RawNode.auxId]
  simp (disch := first | omega | (simp; done) | (simp; omega)) only [load_store_of_disjoint,
    load_storePadded_of_disjoint]

theorem vector_mk_toList {α : Type*} {k : Nat} (v : Vector α k) (h : v.toList.toArray.size = k) :
    (⟨v.toList.toArray, h⟩ : Vector α k) = v := by
  rcases v with ⟨a, ha⟩
  simp

theorem ofIntArray_intsBytes {vs : Vector Int 32} (h : ∀ v ∈ vs.toList, FitsInt 4 v) :
    ofIntArray (intsBytes 4 vs.toList ++ List.replicate (128 - (intsBytes 4 vs.toList).length) 0) =
      vs := by
  have hlen : vs.toList.length = 32 := by simp
  have hints := ofIntsBytes_intsBytes h
  rw [hlen] at hints
  have hnil : List.replicate (128 - (intsBytes 4 vs.toList).length) (0 : UInt8) = [] := by simp
  rw [hnil, List.append_nil]
  unfold ofIntArray
  simp only [hints]
  exact vector_mk_toList vs _

theorem load_hostname_packNode (hlen : nd.hostname.length ≤ 64) :
    (packNode b o nd).load (o + RawNode.hostname) 64 =
      nd.hostname ++ List.replicate (64 - nd.hostname.length) 0 := by
  simp only [packNode, RawNode.id, RawNode.role, RawNode.port, RawNode.numPorts, RawNode.ports,
    RawNode.devTypes, RawNode.devIds, RawNode.hostname, RawNode.endpointName,
    RawNode.endpointNameLen, RawNode.isRecovery, RawNode.customerId, RawNode.auxId]
  simp (disch := first | omega | (simp; done) | (simp; omega)) only [load_store_of_disjoint,
    load_storePadded_of_disjoint]
  exact load_storePadded_self hlen

theorem unpackNode_packNode (h : NodeOk nd) (hsize : o + RawNode.size ≤ bufSize) :
    unpackNode (packNode b o nd) bufSize o = nd := by
  have hlen := h.hostname_length
  have hhost := load_hostname_packNode (b := b) (o := o) (Nat.le_succ_of_le hlen)
  have hname : ofCStr ((packNode b o nd).load (o + RawNode.hostname)
      (bufSize - (o + RawNode.hostname))) = nd.hostname := by
    rw [ofCStr_load_of_le (k := 64), hhost, ofCStr_append_zeros h.hostname_nul]
    · simp only [RawNode.size, RawNode.hostname] at hsize ⊢; omega
    · rw [hhost]
      exact List.mem_append_right _ (List.mem_replicate.mpr ⟨by omega, rfl⟩)
  have hints := h.ints
  simp only [List.forall_mem_cons] at hints
  obtain ⟨hid, hport, hnum, hcust, haux, -⟩ := hints
  have harr := h.arrays
  simp only [List.forall_mem_append] at harr
  obtain ⟨⟨hports, htypes⟩, hids⟩ := harr
  have hrole := fun y => enumOf_ofIntBytes (y := y) (Role.mem_all nd.role) (by decide)
  unfold unpackNode
  rw [hname]
  simp only [packNode, RawNode.id, RawNode.role, RawNode.port, RawNode.numPorts, RawNode.ports,
    RawNode.devTypes, RawNode.devIds, RawNode.hostname, RawNode.endpointName,
    RawNode.endpointNameLen, RawNode.isRecovery, RawNode.customerId, RawNode.auxId]
  simp (disch := first | omega | (simp; done) | (simp; omega)) only [load_store_of_disjoint,
    load_storePadded_of_disjoint, load_store_of_length, load_storePadded_self]
  simp only [ofIntBytes_intBytes hid, ofIntBytes_intBytes hport, ofIntBytes_intBytes hnum,
    ofIntBytes_intBytes hcust, ofIntBytes_intBytes haux, hrole, ofBoolBytes_boolBytes, ofUint64Bytes_uint64Bytes,
    ofIntArray_intsBytes hports, ofIntArray_intsBytes htypes, ofIntArray_intsBytes hids,
    Vector.length_toList, Nat.sub_self, List.replicate_zero, List.append_nil, vector_mk_toList]

theorem load_packNodes (h : ∀ nd ∈ nodes, nd.hostname.length ≤ 64)
    (hd : p + n ≤ o ∨ o + RawNode.size * nodes.length ≤ p) :
    (packNodes b o nodes).load p n = b.load p n := by
  induction nodes generalizing b o with
  | nil => rfl
  | cons nd nodes ih =>
    rw [List.length_cons, Nat.mul_succ] at hd
    rw [packNodes, ih (fun nd hnd => h nd (by simp [hnd])) (by omega),
      load_packNode (h nd (by simp)) (by omega)]

theorem unpackNode_congr (hb : ∀ p n, o ≤ p → p + n ≤ o + RawNode.size → b.load p n = b'.load p n)
    (hz : 0 ∈ b'.load (o + RawNode.hostname) 64) (hsize : o + RawNode.size ≤ bufSize) :
    unpackNode b bufSize o = unpackNode b' bufSize o := by
  have hhost : ofCStr (b.load (o + RawNode.hostname) (bufSize - (o + RawNode.hostname))) =
      ofCStr (b'.load (o + RawNode.hostname) (bufSize - (o + RawNode.hostname))) := by
    have h64 := hb (o + RawNode.hostname) 64 (by omega) (by simp only [RawNode.hostname, RawNode.size]; omega)
    have hle : 64 ≤ bufSize - (o + RawNode.hostname) := by
      simp only [RawNode.hostname, RawNode.size] at hsize ⊢; omega
    rw [ofCStr_load_of_le hle hz, ofCStr_load_of_le hle (h64 ▸ hz), h64]
  unfold unpackNode
  rw [hhost]
  simp only [RawNode.id, RawNode.role, RawNode.port, RawNode.numPorts, RawNode.ports,
    RawNode.devTypes, RawNode.devIds, RawNode.endpointName, RawNode.endpointNameLen,
    RawNode.isRecovery, RawNode.customerId, RawNode.auxId, RawNode.size] at hb ⊢
  simp (disch := omega) only [hb]

theorem unpackNodes_packNodes (h : ∀ nd ∈ nodes, NodeOk nd)
    (hsize : o + RawNode.size * nodes.length ≤ bufSize) :
    unpackNodes (packNodes b o nodes) bufSize o nodes.length = nodes := by
  induction nodes generalizing b o with
  | nil => rfl
  | cons nd nodes ih =>
    have hnd := h nd (by simp)
    rw [List.length_cons, Nat.mul_succ] at hsize
    have hrest : ∀ nd ∈ nodes, nd.hostname.length ≤ 64 :=
      fun nd hnd => Nat.le_succ_of_le (h nd (by simp [hnd])).hostname_length
    rw [packNodes, List.length_cons, unpackNodes, ih (fun nd hnd => h nd (by simp [hnd])) (by omega)]
    refine congrArg (· :: nodes) ?_
    refine Eq.trans (unpackNode_congr (fun p n _ hp => load_packNodes hrest (.inl hp)) ?_ (by omega))
      (unpackNode_packNode hnd (by omega))
    rw [load_hostname_packNode (Nat.le_succ_of_le hnd.hostname_length)]
    exact List.mem_append_right _ (List.mem_replicate.mpr ⟨by have := hnd.hostname_length; omega, rfl⟩)

/-! ### The fixed part -/

theorem load_packBody (h₁ : p + n ≤ 4 ∨ 8 ≤ p) (h₂ : p + n ≤ 288 ∨ 288 + m.body.length ≤ p) :
    (packBody m b).load p n = b.load p n := by
  unfold packBody
  split_ifs
  · rw [load_store_of_disjoint (by simpa [RawMeta.bodySize] using h₁),
      load_store_of_disjoint (by simpa [RawMeta.size] using h₂)]
  · rfl

theorem load_packControl (h : ∀ nd ∈ m.control.node, nd.hostname.length ≤ 64)
    (h₁ : p + n ≤ 8 ∨ 32 ≤ p)
    (h₂ : p + n ≤ 288 + m.body.length + 4 * m.dataType.length ∨ packedLen m ≤ p) :
    (packControl m b).load p n = b.load p n := by
  have hat : p + n ≤ rawNodeAt m ∨ rawNodeAt m + RawNode.size * m.control.node.length ≤ p := h₂
  unfold packControl
  split_ifs <;> simp only [RawMeta.controlCmd, RawMeta.controlNodeSize, RawMeta.controlBarrierGroup,
    RawMeta.controlMsgSig] <;>
  simp (disch := first | omega | assumption | (simp; done) | (simp; omega)) only
    [load_packNodes, load_store_of_disjoint]

/-- A node that is too long for its record reaches into what follows, not into what comes before. -/
theorem load_packNodes_of_le (h : p + n ≤ o) : (packNodes b o nodes).load p n = b.load p n := by
  induction nodes generalizing b o with
  | nil => rfl
  | cons nd nodes ih =>
    rw [packNodes, ih (by omega)]
    simp only [packNode]
    simp (disch := omega) only [load_store_of_disjoint, load_storePadded_of_le]

theorem load_packControl_of_le (h₁ : p + n ≤ 8 ∨ 32 ≤ p) (h₂ : p + n ≤ 288) :
    (packControl m b).load p n = b.load p n := by
  have hat : p + n ≤ rawNodeAt m := by simp only [rawNodeAt, RawMeta.size]; omega
  unfold packControl
  split_ifs <;> simp only [RawMeta.controlCmd, RawMeta.controlNodeSize, RawMeta.controlBarrierGroup,
    RawMeta.controlMsgSig] <;>
  simp (disch := first | omega | (simp; done) | (simp; omega)) only [load_packNodes_of_le,
    load_store_of_disjoint]

theorem load_packControl_cmd :
    (packControl m b).load RawMeta.controlCmd 4 = intBytes 4 (enumCode Command.all m.control.cmd) := by
  have hat : 12 ≤ rawNodeAt m := by simp only [rawNodeAt, RawMeta.size]; omega
  unfold packControl
  simp only [RawMeta.controlCmd, RawMeta.controlNodeSize, RawMeta.controlBarrierGroup, RawMeta.controlMsgSig]
  split_ifs with hcmd
  iterate 3
    simp (disch := first | omega | (simp; done) | (simp; omega)) only [load_packNodes_of_le,
      load_store_of_disjoint, load_store_of_length]
  rw [not_ne_iff.mp hcmd]
  exact load_store_of_length (by simp)

/-- The fields of `RawMeta` that every meta sets, with the bytes they get. -/
def fixedFields (m : Meta) : List (Nat × List UInt8) :=
  [(RawMeta.head, intBytes 4 m.head), (RawMeta.appId, intBytes 4 m.appId),
   (RawMeta.timestamp, intBytes 4 m.timestamp), (RawMeta.push, boolBytes m.push),
   (RawMeta.request, boolBytes m.request), (RawMeta.simpleApp, boolBytes m.simpleApp),
   (RawMeta.customerId, intBytes 4 m.customerId),
   (RawMeta.dataTypeSize, intBytes 4 m.dataType.length),
   (RawMeta.srcDevType, intBytes 4 (enumCode DeviceType.all m.srcDevType)),
   (RawMeta.srcDevId, intBytes 4 m.srcDevId),
   (RawMeta.dstDevType, intBytes 4 (enumCode DeviceType.all m.dstDevType)),
   (RawMeta.dstDevId, intBytes 4 m.dstDevId), (RawMeta.dataSize, intBytes 4 m.dataSize),
   (RawMeta.key, uint64Bytes m.key), (RawMeta.addr, uint64Bytes m.addr),
   (RawMeta.valLen, intBytes 4 m.valLen), (RawMeta.option, intBytes 4 m.option),
   (RawMeta.sid, intBytes 4 m.sid), (RawMeta.isTensor, intBytes 4 m.isTensor),
   (RawMeta.dtype, intBytes 4 m.dtype), (RawMeta.dim, intBytes 4 m.shape.length)]

/-- These come before everything that may be too long for its place. -/
theorem load_fixedFields (qpNum : Nat) :
    ∀ f ∈ fixedFields m, (packMeta qpNum m b).load f.1 f.2.length = f.2 := by
  simp only [fixedFields, List.forall_mem_cons, length_intBytes, length_boolBytes, length_uint64Bytes]
  simp only [packMeta, RawMeta.head, RawMeta.appId, RawMeta.timestamp, RawMeta.push, RawMeta.request,
    RawMeta.simpleApp, RawMeta.customerId, RawMeta.dataTypeSize, RawMeta.srcDevType, RawMeta.srcDevId,
    RawMeta.dstDevType, RawMeta.dstDevId, RawMeta.dataSize, RawMeta.key, RawMeta.addr, RawMeta.valLen,
    RawMeta.option, RawMeta.sid, RawMeta.isTensor, RawMeta.dtype, RawMeta.dim, RawMeta.shape,
    RawMeta.slaveQpNum, RawMeta.slaveQpCounter, RawMeta.size]
  and_intros
  all_goals first
    | exact fun _ h => nomatch h
    | simp (disch := first | omega | assumption | (simp; done) | (simp; omega)) only
        [load_store_of_disjoint, load_store_of_length, load_bzero_of_disjoint, load_packBody,
          load_packControl_of_le]

theorem load_packMeta_cmd (qpNum : Nat) : (packMeta qpNum m b).load RawMeta.controlCmd 4 =
    intBytes 4 (enumCode Command.all m.control.cmd) := by
  simp only [packMeta, RawMeta.controlCmd, RawMeta.dataSize, RawMeta.key, RawMeta.addr, RawMeta.valLen,
    RawMeta.option, RawMeta.sid, RawMeta.isTensor, RawMeta.dtype, RawMeta.dim, RawMeta.shape,
    RawMeta.slaveQpNum, RawMeta.slaveQpCounter]
  simp (disch := first | omega | (simp; done) | (simp; omega)) only [load_store_of_disjoint,
    load_bzero_of_disjoint]
  exact load_packControl_cmd

/-! ### The variable parts -/

/-- The ranges of the fields' types, hostnames that fit, at most eight dimensions, and nothing set that
the command does not carry. -/
structure Packable (m : Meta) : Prop where
  ints : ∀ v ∈ [m.head, m.appId, m.customerId, m.timestamp, m.srcDevId, m.dstDevId, m.dataSize,
    m.valLen, m.option, m.sid, m.control.barrierGroup], FitsInt 4 v
  int8s : FitsInt 1 m.isTensor ∧ FitsInt 1 m.dtype
  shape_ints : ∀ d ∈ m.shape, FitsInt 8 d
  shape_length : m.shape.length ≤ 8
  nodes : ∀ nd ∈ m.control.node, NodeOk nd
  node_nil : m.control.cmd = .empty → m.control.node = []
  barrierGroup : m.control.barrierGroup ≠ 0 →
    m.control.cmd = .barrier ∨ m.control.cmd = .instanceBarrier
  msgSig : m.control.msgSig ≠ 0 → m.control.cmd = .ack

theorem Packable.hostname_length (h : Packable m) : ∀ nd ∈ m.control.node, nd.hostname.length ≤ 64 :=
  fun nd hnd => Nat.le_succ_of_le (h.nodes nd hnd).hostname_length

theorem load_packBody_bodySize (hzero : b.load 4 4 = intBytes 4 0) :
    (packBody m b).load 4 4 = intBytes 4 m.body.length := by
  unfold packBody
  split_ifs with h
  · exact load_store_of_length (by simp)
  · rw [hzero, show m.body.length = 0 by omega]; rfl

theorem load_packBody_body : (packBody m b).load 288 m.body.length = m.body := by
  unfold packBody
  split_ifs with h
  · rw [load_store_of_disjoint (by simp [RawMeta.bodySize]), RawMeta.size, load_store_self]
  · have hnil : m.body = [] := List.length_eq_zero_iff.mp (by omega)
    rw [hnil]; rfl

theorem load_packControl_control (h : Packable m)
    (hzero : ∀ p n, 8 ≤ p ∧ p + n ≤ 32 → b.load p n = List.replicate n 0) :
    (packControl m b).load 8 4 = intBytes 4 (enumCode Command.all m.control.cmd) ∧
    (packControl m b).load 12 4 = intBytes 4 m.control.node.length ∧
    (packControl m b).load 16 4 = intBytes 4 m.control.barrierGroup ∧
    (packControl m b).load 24 8 = uint64Bytes m.control.msgSig := by
  have hlen := h.hostname_length
  have hat : 32 ≤ rawNodeAt m := by simp only [rawNodeAt, RawMeta.size]; omega
  have hz4 : List.replicate 4 0 = intBytes 4 0 := rfl
  have hz8 : List.replicate 8 0 = uint64Bytes 0 := rfl
  have hgroup : ¬ (m.control.cmd = .barrier ∨ m.control.cmd = .instanceBarrier) →
      m.control.barrierGroup = 0 := fun hc => by_contra fun hg => hc (h.barrierGroup hg)
  have hsig : m.control.cmd ≠ .ack → m.control.msgSig = 0 := fun hc => by_contra fun hs => hc (h.msgSig hs)
  unfold packControl
  simp only [RawMeta.controlCmd, RawMeta.controlNodeSize, RawMeta.controlBarrierGroup,
    RawMeta.controlMsgSig]
  -- a field that the command does not carry keeps the zeros of `bzero`
  split_ifs with hne hbar hack
  · have hs := hsig (by rcases hbar with hc | hc <;> simp [hc])
    simp (disch := first | omega | assumption | (simp; done) | (simp; omega)) only [load_packNodes,
      load_store_of_disjoint, load_store_of_length, hzero, hs, hz8, and_self]
  · have hg := hgroup hbar
    simp (disch := first | omega | assumption | (simp; done) | (simp; omega)) only [load_packNodes,
      load_store_of_disjoint, load_store_of_length, hzero, hg, hz4, and_self]
  · have hg := hgroup hbar
    have hs := hsig hack
    simp (disch := first | omega | assumption | (simp; done) | (simp; omega)) only [load_packNodes,
      load_store_of_disjoint, load_store_of_length, hzero, hg, hs, hz4, hz8, and_self]
  · have hc : m.control.cmd = .empty := by simpa using hne
    have hg := hgroup (by simp [hc])
    have hs := hsig (by simp [hc])
    have hn : (m.control.node.length : Int) = 0 := by simp [h.node_nil hc]
    simp (disch := first | omega | assumption | (simp; done) | (simp; omega)) only [hc, hn, load_store_of_disjoint,
      load_store_of_length, hzero, hg, hs, hz4, hz8, and_self]

theorem load_packMeta_control (h : Packable m) (qpNum : Nat) :
    (packMeta qpNum m b).load RawMeta.controlCmd 4 = intBytes 4 (enumCode Command.all m.control.cmd) ∧
    (packMeta qpNum m b).load RawMeta.controlNodeSize 4 = intBytes 4 m.control.node.length ∧
    (packMeta qpNum m b).load RawMeta.controlBarrierGroup 4 = intBytes 4 m.control.barrierGroup ∧
    (packMeta qpNum m b).load RawMeta.controlMsgSig 8 = uint64Bytes m.control.msgSig := by
  simp only [packMeta, RawMeta.controlCmd, RawMeta.controlNodeSize, RawMeta.controlBarrierGroup,
    RawMeta.controlMsgSig, RawMeta.dataSize, RawMeta.key, RawMeta.addr, RawMeta.valLen,
    RawMeta.option, RawMeta.sid, RawMeta.isTensor, RawMeta.dtype, RawMeta.dim, RawMeta.shape,
    RawMeta.slaveQpNum, RawMeta.slaveQpCounter]
  simp (disch := first | omega | (simp; done) | (simp; omega)) only [load_store_of_disjoint,
    load_bzero_of_disjoint]
  refine load_packControl_control h fun p n hp => ?_
  simp only [RawMeta.head, RawMeta.appId, RawMeta.timestamp, RawMeta.push, RawMeta.request,
    RawMeta.simpleApp, RawMeta.customerId, RawMeta.dataTypeSize, RawMeta.srcDevType,
    RawMeta.srcDevId, RawMeta.dstDevType, RawMeta.dstDevId, RawMeta.size]
  simp (disch := first | omega | (simp; done) | (simp; omega)) only [load_store_of_disjoint,
    load_packBody, load_bzero_of_le]

theorem load_packMeta_bodySize (qpNum : Nat) :
    (packMeta qpNum m b).load RawMeta.bodySize 4 = intBytes 4 m.body.length := by
  simp only [packMeta, RawMeta.bodySize, RawMeta.dataSize, RawMeta.key, RawMeta.addr, RawMeta.valLen,
    RawMeta.option, RawMeta.sid, RawMeta.isTensor, RawMeta.dtype, RawMeta.dim, RawMeta.shape,
    RawMeta.slaveQpNum, RawMeta.slaveQpCounter, RawMeta.head, RawMeta.appId, RawMeta.timestamp,
    RawMeta.push, RawMeta.request, RawMeta.simpleApp, RawMeta.customerId, RawMeta.dataTypeSize,
    RawMeta.srcDevType, RawMeta.srcDevId, RawMeta.dstDevType, RawMeta.dstDevId, RawMeta.size]
  simp (disch := first | omega | (simp; done) | (simp; omega)) only
    [load_store_of_disjoint, load_bzero_of_disjoint, load_packControl_of_le]
  refine load_packBody_bodySize ?_
  simp (disch := first | omega | (simp; done) | (simp; omega)) only [load_store_of_disjoint,
    load_bzero_of_le]
  rfl

theorem load_packMeta_tail (hlen : ∀ nd ∈ m.control.node, nd.hostname.length ≤ 64)
    (hshape : m.shape.length ≤ 8) {qpNum : Nat} (hq : qpNum ≤ 2) :
    (packMeta qpNum m b).load RawMeta.bodySize 4 = intBytes 4 m.body.length ∧
    (packMeta qpNum m b).load RawMeta.size m.body.length = m.body ∧
    (packMeta qpNum m b).load (RawMeta.size + m.body.length) (4 * m.dataType.length) =
      intsBytes 4 (m.dataType.map (enumCode DataType.all)) ∧
    (packMeta qpNum m b).load RawMeta.shape (8 * m.shape.length) = intsBytes 8 m.shape := by
  refine ⟨load_packMeta_bodySize qpNum, ?_⟩
  simp only [packMeta, RawMeta.dataSize, RawMeta.key, RawMeta.addr, RawMeta.valLen,
    RawMeta.option, RawMeta.sid, RawMeta.isTensor, RawMeta.dtype, RawMeta.dim, RawMeta.shape,
    RawMeta.slaveQpNum, RawMeta.slaveQpCounter, RawMeta.head, RawMeta.appId, RawMeta.timestamp,
    RawMeta.push, RawMeta.request, RawMeta.simpleApp, RawMeta.customerId, RawMeta.dataTypeSize,
    RawMeta.srcDevType, RawMeta.srcDevId, RawMeta.dstDevType, RawMeta.dstDevId, RawMeta.size]
  refine ⟨?_, ?_, ?_⟩
  · simp (disch := first | omega | assumption | (simp; done) | (simp; omega)) only
      [load_store_of_disjoint, load_bzero_of_disjoint, load_packControl]
    exact load_packBody_body
  · simp (disch := first | omega | assumption | (simp; done) | (simp; omega)) only
      [load_store_of_disjoint, load_bzero_of_disjoint, load_packControl, load_store_of_length]
  · exact load_store_of_length (by simp)

theorem unpackNodes_congr {k : Nat} (hb : ∀ p n, o ≤ p → b.load p n = b'.load p n) :
    unpackNodes b bufSize o k = unpackNodes b' bufSize o k := by
  induction k generalizing o with
  | zero => rfl
  | succ k ih =>
    rw [unpackNodes, unpackNodes, ih fun p n hp => hb p n (by omega)]
    refine congrArg (· :: _) ?_
    simp (disch := omega) only [unpackNode, hb]

theorem load_packMeta_behind (hcmd : m.control.cmd ≠ .empty) (hshape : m.shape.length ≤ 8) {qpNum : Nat}
    (hq : qpNum ≤ 2) : ∃ b', ∀ p n, rawNodeAt m ≤ p →
      (packMeta qpNum m b).load p n = (packNodes b' (rawNodeAt m) m.control.node).load p n := by
  have hat : 288 ≤ rawNodeAt m := by simp only [rawNodeAt, RawMeta.size]; omega
  simp only [packMeta, packControl, if_pos hcmd, RawMeta.dataSize, RawMeta.key, RawMeta.addr,
    RawMeta.valLen, RawMeta.option, RawMeta.sid, RawMeta.isTensor, RawMeta.dtype, RawMeta.dim,
    RawMeta.shape, RawMeta.slaveQpNum, RawMeta.slaveQpCounter]
  exact ⟨_, fun p n hp => by
    simp (disch := first | omega | (simp; done) | (simp; omega)) only [load_store_of_disjoint,
      load_bzero_of_disjoint]
    rfl⟩

theorem unpackNodes_packMeta (h : Packable m) {qpNum : Nat} (hq : qpNum ≤ 2)
    (hsize : packedLen m ≤ bufSize) :
    unpackNodes (packMeta qpNum m b) bufSize (rawNodeAt m) m.control.node.length = m.control.node := by
  rcases hnil : m.control.node with _ | ⟨nd, nodes⟩
  · rfl
  rw [← hnil]
  have hcmd : m.control.cmd ≠ .empty := fun hc => by simp [h.node_nil hc] at hnil
  obtain ⟨b', hb'⟩ := load_packMeta_behind (b := b) hcmd h.shape_length hq
  rw [unpackNodes_congr hb']
  exact unpackNodes_packNodes h.nodes hsize

theorem packMeta_of_ge (h : Packable m) {qpNum : Nat} (hq : qpNum ≤ 2) {i : Nat}
    (hi : packedLen m ≤ i) : packMeta qpNum m b i = b i := by
  have hshape := h.shape_length
  have hlen := h.hostname_length
  have hbytes : 288 + m.body.length + 4 * m.dataType.length ≤ i := by
    simp only [packedLen, RawMeta.size] at hi; omega
  have hload : (packMeta qpNum m b).load i 1 = b.load i 1 := by
    simp only [packMeta, RawMeta.head, RawMeta.appId, RawMeta.timestamp, RawMeta.push,
      RawMeta.request, RawMeta.simpleApp, RawMeta.customerId, RawMeta.dataTypeSize,
      RawMeta.srcDevType, RawMeta.srcDevId, RawMeta.dstDevType, RawMeta.dstDevId, RawMeta.dataSize,
      RawMeta.key, RawMeta.addr, RawMeta.valLen, RawMeta.option, RawMeta.sid, RawMeta.isTensor,
      RawMeta.dtype, RawMeta.dim, RawMeta.shape, RawMeta.slaveQpNum, RawMeta.slaveQpCounter,
      RawMeta.size]
    simp (disch := first | omega | assumption | (simp; done) | (simp; omega)) only
      [load_store_of_disjoint, load_bzero_of_disjoint, load_packBody, load_packControl]
  simpa [load] using hload

theorem getPackMetaLen_eq (h : packedLen m < 2 ^ 31) : getPackMetaLen m = packedLen m := by
  unfold getPackMetaLen
  exact Int.bmod_eq_of_le (by omega) (by omega)

theorem fitsInt_length {k : Nat} (h : k < 2 ^ 31) : FitsInt 4 k := by
  unfold FitsInt; omega

theorem exists_unpackMeta_of_sizes {raw : Buf} (hlen : packedLen m < 2 ^ 31)
    (hbody : raw.load RawMeta.bodySize 4 = intBytes 4 m.body.length)
    (htypes : raw.load RawMeta.dataTypeSize 4 = intBytes 4 m.dataType.length) (len : Nat) :
    ∃ m', unpackMeta raw len = some m' := by
  have hparts : m.body.length < 2 ^ 31 ∧ m.dataType.length < 2 ^ 31 := by
    simp only [packedLen] at hlen
    omega
  simp only [unpackMeta, hbody, htypes, ofIntBytes_intBytes (fitsInt_length hparts.1),
    ofIntBytes_intBytes (fitsInt_length hparts.2), Int.natCast_nonneg, and_self, guard_true, Option.pure_def,
    Option.bind_eq_bind, Option.bind_some]
  exact ⟨_, rfl⟩

theorem load_packMeta_dataTypeSize (qpNum : Nat) :
    (packMeta qpNum m b).load RawMeta.dataTypeSize 4 = intBytes 4 m.dataType.length := by
  have hfield := load_fixedFields (b := b) (m := m) qpNum (RawMeta.dataTypeSize, intBytes 4 m.dataType.length)
    (by simp [fixedFields])
  rwa [length_intBytes] at hfield

/-! ### The round trip -/

/-- Decoding a packed meta restores it, and the length that the receiver computes again is the number
of bytes that were written. -/
theorem unpackMeta_packMeta (qpNum : Nat) (hq : qpNum ≤ qpMaxNum) (m : Meta) (h : Packable m)
    (hlen : packedLen m < 2 ^ 31) (b : Buf) :
    unpackMeta (packMeta qpNum m b) (packedLen m) =
        some { m with sender := kEmpty, recver := kEmpty } ∧
      getPackMetaLen { m with sender := kEmpty, recver := kEmpty } = getPackMetaLen m ∧
      getPackMetaLen m = packedLen m ∧
      ∀ i, packedLen m ≤ i → packMeta qpNum m b i = b i := by
  refine ⟨?_, rfl, getPackMetaLen_eq hlen, fun i hi => packMeta_of_ge h hq hi⟩
  have hpart : m.body.length < 2 ^ 31 ∧ m.dataType.length < 2 ^ 31 ∧ m.control.node.length < 2 ^ 31 := by
    simp only [packedLen, RawMeta.size, RawNode.size] at hlen; omega
  obtain ⟨hb₁, hb₂, hb₃⟩ := hpart
  have hshape := h.shape_length
  have hfixed := load_fixedFields (m := m) (b := b) qpNum
  simp only [fixedFields, List.forall_mem_cons, length_intBytes, length_boolBytes,
    length_uint64Bytes] at hfixed
  obtain ⟨f₁, f₂, f₃, f₄, f₅, f₆, f₇, f₈, f₉, f₁₀, f₁₁, f₁₂, f₁₃, f₁₄, f₁₅, f₁₆, f₁₇, f₁₈, f₁₉, f₂₀,
    f₂₁, -⟩ := hfixed
  obtain ⟨c₁, c₂, c₃, c₄⟩ := load_packMeta_control (b := b) h qpNum
  obtain ⟨t₁, t₂, t₃, t₄⟩ := load_packMeta_tail (b := b) h.hostname_length h.shape_length hq
  have hnodes := unpackNodes_packMeta (b := b) h hq (Nat.le_refl (packedLen m))
  have hints := h.ints
  simp only [List.forall_mem_cons] at hints
  obtain ⟨i₁, i₂, i₃, i₄, i₅, i₆, i₇, i₈, i₉, i₁₀, i₁₁, -⟩ := hints
  have hint8 : ∀ {v : Int}, FitsInt 1 v → FitsInt 4 v := by
    intro v hv; unfold FitsInt at *; omega
  have hdts : (ofIntsBytes 4 m.dataType.length
      (intsBytes 4 (m.dataType.map (enumCode DataType.all)))).map (enumOf DataType.all .other) =
      m.dataType := by
    have hfits : ∀ v ∈ m.dataType.map (enumCode DataType.all), FitsInt 4 v := by
      intro v hv
      obtain ⟨d, -, rfl⟩ := List.mem_map.mp hv
      exact fitsInt_enumCode (by decide)
    have hcodes := ofIntsBytes_intsBytes hfits
    rw [List.length_map] at hcodes
    rw [hcodes, List.map_map]
    exact (List.map_congr_left fun d _ => enumOf_enumCode (DataType.mem_all d)).trans (List.map_id _)
  have hdev := fun d y => enumOf_ofIntBytes (y := y) (DeviceType.mem_all d) (by decide)
  have hcmd := fun y => enumOf_ofIntBytes (y := y) (Command.mem_all m.control.cmd) (by decide)
  have hat : RawMeta.size + m.body.length + 4 * m.dataType.length = rawNodeAt m := rfl
  simp only [unpackMeta, f₁, f₂, f₃, f₄, f₅, f₆, f₇, f₈, f₉, f₁₀, f₁₁, f₁₂, f₁₃, f₁₄, f₁₅, f₁₆, f₁₇,
    f₁₈, f₁₉, f₂₀, f₂₁, c₁, c₂, c₃, c₄, t₁, ofIntBytes_intBytes (fitsInt_length hb₁),
    ofIntBytes_intBytes (fitsInt_length hb₂), ofIntBytes_intBytes (fitsInt_length hb₃),
    ofIntBytes_intBytes (fitsInt_length (show m.shape.length < 2 ^ 31 by omega)), Int.toNat_natCast,
    t₂, t₃, t₄, hdts, hdev, hcmd, hat, hnodes, ofIntsBytes_intsBytes h.shape_ints,
    ofIntBytes_intBytes i₁, ofIntBytes_intBytes i₂, ofIntBytes_intBytes i₃, ofIntBytes_intBytes i₄,
    ofIntBytes_intBytes i₅, ofIntBytes_intBytes i₆, ofIntBytes_intBytes i₇, ofIntBytes_intBytes i₈,
    ofIntBytes_intBytes i₉, ofIntBytes_intBytes i₁₀, ofIntBytes_intBytes i₁₁,
    ofIntBytes_intBytes (hint8 h.int8s.1), ofIntBytes_intBytes (hint8 h.int8s.2),
    ofBoolBytes_boolBytes, ofUint64Bytes_uint64Bytes, Int.natCast_nonneg, and_self, guard_true,
    Option.pure_def, Option.bind_eq_bind, Option.bind_some]

/-- A node with its ports and devices at 0. -/
def sampleNode : Node where
  role := .worker
  customerId := 0
  hostname := [49, 48]
  numPorts := 1
  ports := Vector.replicate 32 0
  devTypes := Vector.replicate 32 0
  devIds := Vector.replicate 32 0
  endpointName := Vector.replicate 64 0

/-- A control message with a body, data types, a shape and a node. -/
def sampleMeta : Meta where
  head := -1
  timestamp := 5
  request := true
  body := [1, 2, 3]
  dataType := [.uint64, .other]
  control := { cmd := .addNode, node := [sampleNode] }
  key := 7
  isTensor := 1
  shape := [2, -3]

theorem packable_sampleMeta : Packable sampleMeta where
  ints := by decide
  int8s := by decide
  shape_ints := by decide
  shape_length := by decide
  nodes nd hnd := by
    obtain rfl : nd = sampleNode := by simpa [sampleMeta] using hnd
    exact ⟨by decide, by simp [sampleNode], by decide, by decide⟩
  node_nil := by decide
  barrierGroup := by decide
  msgSig := by decide

theorem unpackMeta_packMeta_sample :
    unpackMeta (packMeta 2 sampleMeta fun _ => 7) (packedLen sampleMeta) = some sampleMeta :=
  (unpackMeta_packMeta 2 (by decide) sampleMeta packable_sampleMeta (by decide) _).1

theorem packable_body (bs : List UInt8) : Packable { body := bs } where
  ints := by
    simp only [List.forall_mem_cons, List.not_mem_nil, false_imp_iff, implies_true]
    decide
  int8s := ⟨by simp only; decide, by simp only; decide⟩
  shape_ints d hd := nomatch hd
  shape_length := Nat.zero_le _
  nodes nd hnd := nomatch hnd
  node_nil _ := rfl
  barrierGroup hg := absurd rfl hg
  msgSig hs := absurd rfl hs

theorem packedLen_body (bs : List UInt8) : packedLen { body := bs } = 288 + bs.length := by
  simp [packedLen, RawMeta.size]

/-- A body of 2 GiB, whose length is no `int`. -/
def longBody : List UInt8 := List.replicate (2 ^ 31) 0

/-- The length function does not give the number of bytes of its record, and `std::string` throws on
the decoded length, which is negative. -/
theorem packMeta_long_body :
    Packable { body := longBody } ∧
      getPackMetaLen { body := longBody } ≠ packedLen { body := longBody } ∧
      ∀ b, unpackMeta (packMeta 2 { body := longBody } b) (packedLen { body := longBody }) = none := by
  have hlen : longBody.length = 2 ^ 31 := List.length_replicate
  -- nothing below may compute the body
  generalize longBody = bs at hlen
  refine ⟨packable_body bs, ?_, fun b => ?_⟩
  · have hlt : getPackMetaLen { body := bs } < (2 ^ 32 + 1) / 2 := Int.bmod_lt (by decide)
    have hpacked := packedLen_body bs
    omega
  · have hsize := (load_packMeta_tail (m := { body := bs }) (b := b) (fun _ h => nomatch h) (Nat.zero_le 8)
      (Nat.le_refl 2)).1
    have hneg : ofIntBytes 4 (intBytes 4 (bs.length : Int)) = -2 ^ 31 := by rw [hlen]; decide
    simp only [unpackMeta, hsize, hneg]
    rfl

end StepMesh
