import StepMesh.CodecRoundTrip

/-!
# What `PackMeta` writes, and where

`packWrites` lists the assignments, `memcpy`s and `bzero`s of `PackMeta` with the field each one is meant
for; `packMeta` carries them out (`packMeta_eq_foldl`). Three of them have a length that nothing bounds: the
shape of a tensor (`shape[8]`), a hostname (`hostname[64]`), and one slave counter per queue pair
(`slave_qp_counter[QP_MAX_NUM]`). The only length that is refused is a negative one, by `new`.

`packMeta_bounds_iff` says for which metas every write stays in its field and the shape, the hostnames and
the ports are read back. A hostname of 64 bytes fits its field but not the zero that ends it: it is read
back only if the number of ports, which follows, begins with a zero byte.
-/

namespace StepMesh

open Buf

variable {b b' : Buf} {m : Meta} {nd : Node} {nodes : List Node} {o bufSize qpNum : Nat}

/-! ### The writes -/

/-- The field a write is meant for, which begins at `off` and has `room` bytes, and what is written from
its beginning on. -/
structure Write where
  off : Nat
  room : Nat
  bytes : List UInt8

def Write.run (b : Buf) (w : Write) : Buf := b.store w.off w.bytes

/-- Nothing behind the field is hit. -/
def Write.Inside (w : Write) : Prop := w.bytes.length ≤ w.room

instance (w : Write) : Decidable w.Inside := inferInstanceAs (Decidable (_ ≤ _))

@[simp] theorem Write.inside_mk {off room : Nat} {bytes : List UInt8} :
    (Write.mk off room bytes).Inside ↔ bytes.length ≤ room := Iff.rfl

def nodeWrites (o : Nat) (n : Node) : List Write :=
  [⟨o + RawNode.id, 4, intBytes 4 n.id⟩,
   ⟨o + RawNode.role, 4, intBytes 4 (enumCode Role.all n.role)⟩,
   ⟨o + RawNode.port, 4, intBytes 4 n.port⟩,
   ⟨o + RawNode.numPorts, 4, intBytes 4 n.numPorts⟩,
   ⟨o + RawNode.ports, 128, List.replicate 128 0⟩,
   ⟨o + RawNode.ports, 128, intsBytes 4 n.ports.toList⟩,
   ⟨o + RawNode.devTypes, 128, List.replicate 128 0⟩,
   ⟨o + RawNode.devTypes, 128, intsBytes 4 n.devTypes.toList⟩,
   ⟨o + RawNode.devIds, 128, List.replicate 128 0⟩,
   ⟨o + RawNode.devIds, 128, intsBytes 4 n.devIds.toList⟩,
   ⟨o + RawNode.hostname, 64, List.replicate 64 0⟩,
   ⟨o + RawNode.hostname, 64, n.hostname⟩,
   ⟨o + RawNode.endpointName, 64, List.replicate 64 0⟩,
   ⟨o + RawNode.endpointName, 64, n.endpointName.toList⟩,
   ⟨o + RawNode.endpointNameLen, 8, uint64Bytes n.endpointNameLen⟩,
   ⟨o + RawNode.isRecovery, 1, boolBytes n.isRecovery⟩,
   ⟨o + RawNode.customerId, 4, intBytes 4 n.customerId⟩,
   ⟨o + RawNode.auxId, 4, intBytes 4 n.auxId⟩]

def nodesWrites (o : Nat) : List Node → List Write
  | [] => []
  | n :: ns => nodeWrites o n ++ nodesWrites (o + RawNode.size) ns

def bodyWrites (m : Meta) : List Write :=
  if m.body.length ≠ 0 then
    [⟨RawMeta.size, m.body.length, m.body⟩, ⟨RawMeta.bodySize, 4, intBytes 4 m.body.length⟩]
  else []

def controlWrites (m : Meta) : List Write :=
  if m.control.cmd ≠ .empty then
    [⟨RawMeta.controlCmd, 4, intBytes 4 (enumCode Command.all m.control.cmd)⟩] ++
      (if m.control.cmd = .barrier ∨ m.control.cmd = .instanceBarrier then
        [⟨RawMeta.controlBarrierGroup, 4, intBytes 4 m.control.barrierGroup⟩]
      else if m.control.cmd = .ack then [⟨RawMeta.controlMsgSig, 8, uint64Bytes m.control.msgSig⟩]
      else []) ++
      [⟨RawMeta.controlNodeSize, 4, intBytes 4 m.control.node.length⟩] ++
      nodesWrites (rawNodeAt m) m.control.node
  else [⟨RawMeta.controlCmd, 4, intBytes 4 (enumCode Command.all .empty)⟩]

/-- The writes of `PackMeta`, in order. A loop over an array is one of them. -/
def packWrites (qpNum : Nat) (m : Meta) : List Write :=
  [⟨0, RawMeta.size, List.replicate RawMeta.size 0⟩,
   ⟨RawMeta.head, 4, intBytes 4 m.head⟩,
   ⟨RawMeta.appId, 4, intBytes 4 m.appId⟩,
   ⟨RawMeta.timestamp, 4, intBytes 4 m.timestamp⟩] ++
  bodyWrites m ++
  [⟨RawMeta.push, 1, boolBytes m.push⟩,
   ⟨RawMeta.request, 1, boolBytes m.request⟩,
   ⟨RawMeta.simpleApp, 1, boolBytes m.simpleApp⟩,
   ⟨RawMeta.customerId, 4, intBytes 4 m.customerId⟩,
   ⟨RawMeta.size + m.body.length, 4 * m.dataType.length,
    intsBytes 4 (m.dataType.map (enumCode DataType.all))⟩,
   ⟨RawMeta.dataTypeSize, 4, intBytes 4 m.dataType.length⟩,
   ⟨RawMeta.srcDevType, 4, intBytes 4 (enumCode DeviceType.all m.srcDevType)⟩,
   ⟨RawMeta.srcDevId, 4, intBytes 4 m.srcDevId⟩,
   ⟨RawMeta.dstDevType, 4, intBytes 4 (enumCode DeviceType.all m.dstDevType)⟩,
   ⟨RawMeta.dstDevId, 4, intBytes 4 m.dstDevId⟩] ++
  controlWrites m ++
  [⟨RawMeta.dataSize, 4, intBytes 4 m.dataSize⟩,
   ⟨RawMeta.key, 8, uint64Bytes m.key⟩,
   ⟨RawMeta.addr, 8, uint64Bytes m.addr⟩,
   ⟨RawMeta.valLen, 4, intBytes 4 m.valLen⟩,
   ⟨RawMeta.option, 4, intBytes 4 m.option⟩,
   ⟨RawMeta.sid, 4, intBytes 4 m.sid⟩,
   ⟨RawMeta.slaveQpNum, 4, intBytes 4 0⟩,
   ⟨RawMeta.slaveQpCounter, 8 * qpMaxNum, List.replicate (8 * qpNum) 0⟩,
   ⟨RawMeta.isTensor, 4, intBytes 4 m.isTensor⟩,
   ⟨RawMeta.dtype, 4, intBytes 4 m.dtype⟩,
   ⟨RawMeta.dim, 4, intBytes 4 m.shape.length⟩,
   ⟨RawMeta.shape, 8 * 8, intsBytes 8 m.shape⟩]

theorem packNodes_eq_foldl : packNodes b o nodes = (nodesWrites o nodes).foldl Write.run b := by
  induction nodes generalizing b o with
  | nil => rfl
  | cons nd nodes ih =>
    rw [packNodes, ih, nodesWrites, List.foldl_append]
    rfl

theorem packBody_eq_foldl : packBody m b = (bodyWrites m).foldl Write.run b := by
  unfold packBody bodyWrites
  split_ifs <;> rfl

theorem packControl_eq_foldl : packControl m b = (controlWrites m).foldl Write.run b := by
  unfold packControl controlWrites
  dsimp only
  rw [packNodes_eq_foldl]
  split_ifs
  · simp only [List.foldl_append]
    rfl
  · simp only [List.foldl_append]
    rfl
  · simp only [List.foldl_append]
    rfl
  · rfl

/-- `PackMeta` does these writes and nothing else. -/
theorem packMeta_eq_foldl : packMeta qpNum m b = (packWrites qpNum m).foldl Write.run b := by
  simp only [packMeta, packBody_eq_foldl, packControl_eq_foldl, packWrites, List.foldl_append]
  rfl

/-- The nodes that are packed: a data message packs none. -/
def packedNodes (m : Meta) : List Node := if m.control.cmd = .empty then [] else m.control.node

theorem inside_nodesWrites : (∀ w ∈ nodesWrites o nodes, w.Inside) ↔ ∀ nd ∈ nodes, nd.hostname.length ≤ 64 := by
  induction nodes generalizing o with
  | nil => simp [nodesWrites]
  | cons nd nodes ih =>
    rw [nodesWrites, List.forall_mem_append, ih, List.forall_mem_cons]
    simp [nodeWrites]

theorem inside_packWrites : (∀ w ∈ packWrites qpNum m, w.Inside) ↔
    qpNum ≤ qpMaxNum ∧ m.shape.length ≤ 8 ∧ ∀ nd ∈ packedNodes m, nd.hostname.length ≤ 64 := by
  have hbody : ∀ w ∈ bodyWrites m, w.Inside := by
    unfold bodyWrites
    split_ifs <;> simp
  have hcontrol : (∀ w ∈ controlWrites m, w.Inside) ↔ ∀ nd ∈ packedNodes m, nd.hostname.length ≤ 64 := by
    rw [← inside_nodesWrites (o := rawNodeAt m)]
    unfold controlWrites packedNodes
    split_ifs <;> simp_all [nodesWrites]
  simp only [packWrites, List.forall_mem_append, hcontrol, iff_true_intro hbody]
  simp only [List.mem_cons, List.not_mem_nil, or_false, forall_eq_or_imp, Write.inside_mk, List.length_replicate,
    Std.le_refl, length_intBytes, forall_eq, and_self, length_boolBytes, length_intsBytes, List.length_map, true_and,
    Nat.reduceMul, length_uint64Bytes]
  constructor
  · rintro ⟨hnodes, hq, hshape⟩
    exact ⟨by omega, by omega, hnodes⟩
  · rintro ⟨hq, hshape, hnodes⟩
    exact ⟨hnodes, by omega, by omega⟩

/-! ### Reading the nodes back -/

/-- What a node says about where it listens. -/
def Node.address (nd : Node) : List UInt8 × Int × Vector Int 32 × Int :=
  (nd.hostname, nd.numPorts, nd.ports, nd.port)

/-- The ranges of the types; the hostname is a C string of the environment. -/
structure NodeRanges (nd : Node) : Prop where
  hostname : ∀ x ∈ nd.hostname, x ≠ 0
  numPorts : FitsInt 4 nd.numPorts
  ports : ∀ v ∈ nd.ports.toList, FitsInt 4 v
  port : FitsInt 4 nd.port

/-- A zero follows the hostname: one of its own field, or the low byte of the number of ports. -/
def HostnameEnds (nd : Node) : Prop :=
  nd.hostname.length ≤ 63 ∨ nd.hostname.length = 64 ∧ nd.numPorts % 256 = 0

instance (nd : Node) : Decidable (HostnameEnds nd) := inferInstanceAs (Decidable (_ ∨ _))

theorem intBytes_four (v : Int) : ∃ bs, intBytes 4 v = UInt8.ofNat (v % 256 ^ 4).toNat :: bs := ⟨_, rfl⟩

theorem ofNat_emod_eq_zero_iff (v : Int) : UInt8.ofNat (v % 256 ^ 4).toNat = 0 ↔ v % 256 = 0 := by
  rw [← UInt8.toNat_inj, UInt8.toNat_ofNat', UInt8.toNat_zero]
  simp only [Int.reducePow, Nat.reducePow]
  omega

theorem address_unpackNode_iff (hr : NodeRanges nd) (hlen : nd.hostname.length ≤ 64)
    (hsize : o + RawNode.size ≤ bufSize)
    (hb : ∀ p n, o ≤ p → p + n ≤ o + RawNode.size → b'.load p n = (packNode b o nd).load p n) :
    (unpackNode b' bufSize o).address = nd.address ↔ HostnameEnds nd := by
  have hhost : b'.load (o + RawNode.hostname) 64 =
      nd.hostname ++ List.replicate (64 - nd.hostname.length) 0 := by
    rw [hb _ _ (by omega) (by simp only [RawNode.hostname, RawNode.size]; omega)]
    exact load_hostname_packNode hlen
  obtain ⟨hnum, hports, hport⟩ : b'.load (o + RawNode.numPorts) 4 = intBytes 4 nd.numPorts ∧
      b'.load (o + RawNode.ports) 128 = intsBytes 4 nd.ports.toList ∧
      b'.load (o + RawNode.port) 4 = intBytes 4 nd.port := by
    simp only [RawNode.numPorts, RawNode.ports, RawNode.port, RawNode.size] at hb ⊢
    rw [hb _ _ (by omega) (by omega), hb _ _ (by omega) (by omega), hb _ _ (by omega) (by omega)]
    simp only [packNode, RawNode.id, RawNode.role, RawNode.port, RawNode.numPorts, RawNode.ports,
      RawNode.devTypes, RawNode.devIds, RawNode.hostname, RawNode.endpointName,
      RawNode.endpointNameLen, RawNode.isRecovery, RawNode.customerId, RawNode.auxId]
    simp (disch := first | omega | (simp; done) | (simp; omega)) only [load_store_of_disjoint,
      load_storePadded_of_disjoint, load_store_of_length, load_storePadded_self, true_and, and_true]
    simp
  have hname : (unpackNode b' bufSize o).hostname = nd.hostname ↔ HostnameEnds nd := by
    obtain ⟨bs, hbs⟩ := intBytes_four nd.numPorts
    obtain ⟨k, hk⟩ : ∃ k, bufSize - (o + RawNode.hostname) = 64 + (4 + k) := by
      simp only [RawNode.size, RawNode.hostname] at hsize ⊢
      exact ⟨bufSize - (o + 8) - 68, by omega⟩
    have hload : b'.load (o + RawNode.hostname) (bufSize - (o + RawNode.hostname)) =
        nd.hostname ++ (List.replicate (64 - nd.hostname.length) 0 ++
          UInt8.ofNat (nd.numPorts % 256 ^ 4).toNat :: (bs ++ b'.load (o + RawNode.numPorts + 4) k)) := by
      rw [hk, load_add, hhost, List.append_assoc, show o + RawNode.hostname + 64 = o + RawNode.numPorts from rfl,
        load_add, hnum, hbs, List.cons_append]
    change ofCStr (b'.load (o + RawNode.hostname) (bufSize - (o + RawNode.hostname))) = nd.hostname ↔ _
    rw [hload, HostnameEnds]
    rcases Nat.lt_or_ge nd.hostname.length 64 with hlt | hge
    · -- the field ends the name itself
      obtain ⟨j, hj⟩ := Nat.exists_eq_add_of_lt hlt
      rw [show 64 - nd.hostname.length = j + 1 by omega, List.replicate_succ, List.cons_append,
        ofCStr_append_cons_eq_iff hr.hostname]
      exact ⟨fun _ => .inl (by omega), fun _ => rfl⟩
    · rw [show 64 - nd.hostname.length = 0 by omega, List.replicate_zero, List.nil_append,
        ofCStr_append_cons_eq_iff hr.hostname, ofNat_emod_eq_zero_iff]
      exact ⟨fun h => .inr ⟨by omega, h⟩, fun h => h.elim (by omega) And.right⟩
  have hrest : (unpackNode b' bufSize o).address =
      ((unpackNode b' bufSize o).hostname, nd.numPorts, nd.ports, nd.port) := by
    have hints := ofIntArray_intsBytes hr.ports
    rw [show 128 - (intsBytes 4 nd.ports.toList).length = 0 by simp, List.replicate_zero,
      List.append_nil] at hints
    simp only [Node.address, unpackNode, hnum, hports, hport, ofIntBytes_intBytes hr.numPorts,
      ofIntBytes_intBytes hr.port, hints]
  rw [hrest, Node.address, Prod.mk.injEq, hname, and_iff_left rfl]

theorem address_unpackNodes_iff (hr : ∀ nd ∈ nodes, NodeRanges nd)
    (hlen : ∀ nd ∈ nodes, nd.hostname.length ≤ 64) (hsize : o + RawNode.size * nodes.length ≤ bufSize)
    (hb : ∀ p n, o ≤ p → p + n ≤ o + RawNode.size * nodes.length →
      b'.load p n = (packNodes b o nodes).load p n) :
    (unpackNodes b' bufSize o nodes.length).map Node.address = nodes.map Node.address ↔
      ∀ nd ∈ nodes, HostnameEnds nd := by
  induction nodes generalizing b o with
  | nil => simp [unpackNodes]
  | cons nd nodes ih =>
    rw [List.forall_mem_cons] at hr hlen
    rw [List.length_cons, Nat.mul_succ] at hsize hb
    have hhead : (unpackNode b' bufSize o).address = nd.address ↔ HostnameEnds nd := by
      refine address_unpackNode_iff (b := b) hr.1 hlen.1 (by omega) fun p n hp hn => ?_
      rw [hb p n hp (by omega), packNodes]
      exact load_packNodes hlen.2 (.inl hn)
    have htail := ih (b := packNode b o nd) (o := o + RawNode.size) hr.2 hlen.2 (by omega)
      fun p n hp hn => hb p n (by omega) (by omega)
    rw [List.length_cons, unpackNodes, List.map_cons, List.map_cons, List.cons.injEq, hhead, htail,
      List.forall_mem_cons]

/-! ### The whole record -/

/-- Data messages have no nodes, so the ones of a meta without a command do not matter. -/
theorem packMeta_packedNodes :
    packMeta qpNum { m with control := { m.control with node := packedNodes m } } b = packMeta qpNum m b := by
  have hcontrol : ∀ b, packControl { m with control := { m.control with node := packedNodes m } } b =
      packControl m b := by
    intro b
    by_cases hc : m.control.cmd = .empty
    · simp [packControl, hc]
    · simp [packControl, packedNodes, hc, rawNodeAt]
  simp only [packMeta, hcontrol]
  rfl

theorem load_packMeta_nodeSize (hnil : m.control.cmd = .empty → m.control.node = [])
    (hlen : ∀ nd ∈ m.control.node, nd.hostname.length ≤ 64) (qpNum : Nat) :
    (packMeta qpNum m b).load RawMeta.controlNodeSize 4 = intBytes 4 m.control.node.length := by
  simp only [packMeta, RawMeta.controlNodeSize, RawMeta.dataSize, RawMeta.key, RawMeta.addr, RawMeta.valLen,
    RawMeta.option, RawMeta.sid, RawMeta.isTensor, RawMeta.dtype, RawMeta.dim, RawMeta.shape,
    RawMeta.slaveQpNum, RawMeta.slaveQpCounter]
  simp (disch := first | omega | (simp; done) | (simp; omega)) only [load_store_of_disjoint,
    load_bzero_of_disjoint]
  have hat : 32 ≤ rawNodeAt m := by simp only [rawNodeAt, RawMeta.size]; omega
  unfold packControl
  simp only [RawMeta.controlCmd, RawMeta.controlNodeSize]
  split_ifs with hc
  iterate 3
    simp (disch := first | omega | assumption | (simp; done) | (simp; omega)) only [load_packNodes,
      load_store_of_length]
  -- a data message keeps the zeros of `bzero`
  rw [hnil (by simpa using hc), load_store_of_disjoint (by simp)]
  simp only [RawMeta.head, RawMeta.appId, RawMeta.timestamp, RawMeta.push, RawMeta.request,
    RawMeta.simpleApp, RawMeta.customerId, RawMeta.dataTypeSize, RawMeta.srcDevType,
    RawMeta.srcDevId, RawMeta.dstDevType, RawMeta.dstDevId, RawMeta.size]
  simp (disch := first | omega | (simp; done) | (simp; omega)) only [load_store_of_disjoint,
    load_packBody, load_bzero_of_le]
  rfl

theorem unpackMeta_packed (hnil : m.control.cmd = .empty → m.control.node = [])
    (hints : ∀ d ∈ m.shape, FitsInt 8 d) (hr : ∀ nd ∈ m.control.node, NodeRanges nd)
    (hlen : ∀ nd ∈ m.control.node, nd.hostname.length ≤ 64) (hshape : m.shape.length ≤ 8)
    (hq : qpNum ≤ 2) (hlt : packedLen m < 2 ^ 31) (hsize : packedLen m ≤ bufSize) :
    ∃ m', unpackMeta (packMeta qpNum m b) bufSize = some m' ∧ m'.shape = m.shape ∧
      (m'.control.node.map Node.address = m.control.node.map Node.address ↔
        ∀ nd ∈ m.control.node, HostnameEnds nd) := by
  have hpart : m.body.length < 2 ^ 31 ∧ m.dataType.length < 2 ^ 31 ∧ m.control.node.length < 2 ^ 31 := by
    simp only [packedLen, RawMeta.size, RawNode.size] at hlt
    omega
  obtain ⟨hbody, -, -, hdims⟩ := load_packMeta_tail (b := b) hlen hshape hq
  have hfixed := load_fixedFields (m := m) (b := b) qpNum
  have htypes := hfixed (RawMeta.dataTypeSize, intBytes 4 m.dataType.length) (by simp [fixedFields])
  have hdim := hfixed (RawMeta.dim, intBytes 4 m.shape.length) (by simp [fixedFields])
  rw [length_intBytes] at htypes hdim
  have hnodeSize := load_packMeta_nodeSize (b := b) hnil hlen qpNum
  have hnodes : (unpackNodes (packMeta qpNum m b) bufSize (rawNodeAt m) m.control.node.length).map
      Node.address = m.control.node.map Node.address ↔ ∀ nd ∈ m.control.node, HostnameEnds nd := by
    by_cases hc : m.control.cmd = .empty
    · simp [hnil hc, unpackNodes]
    · obtain ⟨b', hb'⟩ := load_packMeta_behind (b := b) hc hshape hq
      exact address_unpackNodes_iff hr hlen hsize fun p n hp _ => hb' p n hp
  simp only [unpackMeta, hbody, htypes, hdim, hnodeSize, ofIntBytes_intBytes (fitsInt_length hpart.1),
    ofIntBytes_intBytes (fitsInt_length hpart.2.1), ofIntBytes_intBytes (fitsInt_length hpart.2.2),
    ofIntBytes_intBytes (fitsInt_length (show m.shape.length < 2 ^ 31 by omega)), Int.toNat_natCast, hdims,
    ofIntsBytes_intsBytes hints, Int.natCast_nonneg, and_self, guard_true, Option.pure_def,
    Option.bind_eq_bind, Option.bind_some]
  exact ⟨_, rfl, rfl, hnodes⟩

/-- The ranges of the types of what is read back. -/
structure Ranges (m : Meta) : Prop where
  shape : ∀ d ∈ m.shape, FitsInt 8 d
  nodes : ∀ nd ∈ packedNodes m, NodeRanges nd

/-- Packing stays in bounds: the buffer, `GetPackMetaLen` bytes, has room for the record, every write stays
inside its field, and the shape and the addresses of the nodes are read back. -/
structure InBounds (qpNum : Nat) (m : Meta) : Prop where
  room : (packedLen m : Int) ≤ getPackMetaLen m
  inside : ∀ w ∈ packWrites qpNum m, w.Inside
  decoded : ∀ b, ∃ m', unpackMeta (packMeta qpNum m b) (packedLen m) = some m' ∧ m'.shape = m.shape ∧
    m'.control.node.map Node.address = (packedNodes m).map Node.address

/-- `new char[*buf_size + 1]` throws on a negative size. -/
def NewThrows (m : Meta) : Prop := getPackMetaLen m + 1 < 0

theorem packedLen_le_getPackMetaLen_iff : (packedLen m : Int) ≤ getPackMetaLen m ↔ packedLen m < 2 ^ 31 := by
  constructor
  · intro h
    have hlt : getPackMetaLen m < (2 ^ 32 + 1) / 2 := Int.bmod_lt (by decide)
    omega
  · intro h
    exact Int.le_of_eq (getPackMetaLen_eq h).symm

theorem packMeta_bounds_iff (qpNum : Int) (m : Meta) (h : Ranges m) :
    NewThrows m ∨ InBounds qpNum.toNat m ↔
      NewThrows m ∨ packedLen m < 2 ^ 31 ∧ qpNum ≤ qpMaxNum ∧ m.shape.length ≤ 8 ∧
        ∀ nd ∈ packedNodes m, HostnameEnds nd := by
  refine or_congr_right ?_
  -- the nodes of a data message are not packed
  have hcore : packedLen m < 2 ^ 31 → qpNum.toNat ≤ 2 → m.shape.length ≤ 8 →
      (∀ nd ∈ packedNodes m, nd.hostname.length ≤ 64) → ∀ b, ∃ m',
        unpackMeta (packMeta qpNum.toNat m b) (packedLen m) = some m' ∧ m'.shape = m.shape ∧
          (m'.control.node.map Node.address = (packedNodes m).map Node.address ↔
            ∀ nd ∈ packedNodes m, HostnameEnds nd) := by
    intro hlt hq hshape hlen b
    have hle : packedLen { m with control := { m.control with node := packedNodes m } } ≤ packedLen m := by
      have : (packedNodes m).length ≤ m.control.node.length := by
        unfold packedNodes
        split_ifs <;> simp
      exact Nat.add_le_add_left (Nat.mul_le_mul_left _ this) _
    rw [← packMeta_packedNodes]
    refine unpackMeta_packed ?_ h.shape h.nodes hlen hshape hq (by omega) hle
    intro hc
    exact if_pos hc
  have hends : ∀ nd : Node, HostnameEnds nd → nd.hostname.length ≤ 64 := by
    rintro nd (hle | ⟨heq, -⟩) <;> omega
  constructor
  · rintro ⟨hroom, hinside, hdecoded⟩
    have hlt := packedLen_le_getPackMetaLen_iff.mp hroom
    obtain ⟨hq, hshape, hlen⟩ := inside_packWrites.mp hinside
    obtain ⟨m', hm', -, hiff⟩ := hcore hlt hq hshape hlen (fun _ => 0)
    obtain ⟨m'', hm'', -, haddr⟩ := hdecoded fun _ => 0
    obtain rfl := Option.some.inj (hm'.symm.trans hm'')
    exact ⟨hlt, by omega, hshape, hiff.mp haddr⟩
  · rintro ⟨hlt, hq, hshape, hnodes⟩
    have hq' : qpNum.toNat ≤ qpMaxNum := by omega
    have hlen : ∀ nd ∈ packedNodes m, nd.hostname.length ≤ 64 := fun nd hnd => hends nd (hnodes nd hnd)
    refine ⟨packedLen_le_getPackMetaLen_iff.mpr hlt, inside_packWrites.mpr ⟨hq', hshape, hlen⟩, fun b => ?_⟩
    obtain ⟨m', hm', hs, hiff⟩ := hcore hlt hq' hshape hlen b
    exact ⟨m', hm', hs, hiff.mpr hnodes⟩

theorem packMeta_bounds_iff_sample :
    NewThrows sampleMeta ∨ InBounds (2 : Int).toNat sampleMeta :=
  (packMeta_bounds_iff 2 sampleMeta ⟨by decide, fun nd hnd => by
    obtain rfl : nd = sampleNode := by simpa [sampleMeta, packedNodes] using hnd
    exact ⟨by simp [sampleNode], by decide, by decide, by decide⟩⟩).mpr (.inr (by decide))

/-- A scheduler is told of a node with a hostname of 65 bytes and one port. -/
def longHostname : Meta where
  control := { cmd := .addNode, node := [{ sampleNode with hostname := List.replicate 65 97 }] }

/-- A tensor of nine dimensions overwrites the trace of the request behind `shape`; a third queue pair the
number of queue pairs, and a fourth the data types behind the header; a hostname of 65 bytes the number of
ports. -/
theorem packMeta_overflows :
    (¬ ∀ w ∈ packWrites 2 { shape := List.replicate 9 1 }, w.Inside) ∧
      (¬ ∀ w ∈ packWrites 3 {}, w.Inside) ∧
      (unpackMeta (packMeta 4 { dataType := [.uint64, .other] } fun _ => 0) 296).map (·.dataType) =
        some [.char, .char] ∧
      ((unpackMeta (packMeta 2 longHostname fun _ => 0) 840).map fun m => m.control.node.map (·.numPorts)) =
        some [97] := by
  decide +kernel

end StepMesh
