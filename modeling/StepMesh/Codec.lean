import StepMesh.Lib.ByteBuf
import StepMesh.Message

/-!
# The wire format of a meta (`src/meta.h`, `Van::PackMeta`, `Van::UnpackMeta`, `Van::GetPackMetaLen`)

A packed meta is a `RawMeta`, the body, the data types and one `RawNode` per node. The offsets are
those of the C++ structs on a 64-bit platform. `packMeta` is the sequence of stores of `PackMeta`, in
order, into a buffer with arbitrary contents; storing past the end of an array hits what lies behind
it, as it does in the code. The trace points, which take the bytes 184 to 263, are left out.
-/

namespace StepMesh

open Buf

section enums
variable {α : Type*}

/-- The value of an enumerator. -/
def enumCode [DecidableEq α] (all : List α) (x : α) : Int := all.idxOf x

/-- `static_cast` to an enumeration; a value that no enumerator has gives `x`. -/
def enumOf (all : List α) (x : α) (code : Int) : α := (all[code.toNat]?).getD x

end enums

def DataType.all : List DataType :=
  [.char, .int8, .int16, .int32, .int64, .uint8, .uint16, .uint32, .uint64, .float, .double, .other]

def DeviceType.all : List DeviceType := [.unk, .cpu, .gpu]
def Role.all : List Role := [.server, .worker, .scheduler, .joint]

def Command.all : List Command :=
  [.empty, .terminate, .addNode, .barrier, .ack, .heartbeat, .bootstrap, .addrRequest, .addrResolved,
    .instanceBarrier]

namespace RawNode

def role : Nat := 0
def id : Nat := 4
def hostname : Nat := 8
def numPorts : Nat := 72
def ports : Nat := 76
def port : Nat := 204
def devTypes : Nat := 208
def devIds : Nat := 336
def isRecovery : Nat := 464
def customerId : Nat := 468
def endpointName : Nat := 472
def endpointNameLen : Nat := 536
def auxId : Nat := 544
def size : Nat := 552

end RawNode

namespace RawMeta

def head : Nat := 0
def bodySize : Nat := 4
def controlCmd : Nat := 8
def controlNodeSize : Nat := 12
def controlBarrierGroup : Nat := 16
def controlMsgSig : Nat := 24
def request : Nat := 32
def appId : Nat := 36
def timestamp : Nat := 40
def dataTypeSize : Nat := 44
def srcDevType : Nat := 48
def srcDevId : Nat := 52
def dstDevType : Nat := 56
def dstDevId : Nat := 60
def customerId : Nat := 64
def push : Nat := 68
def simpleApp : Nat := 69
def dataSize : Nat := 72
def key : Nat := 80
def addr : Nat := 88
def valLen : Nat := 96
def option : Nat := 100
def sid : Nat := 104
def isTensor : Nat := 108
def dtype : Nat := 112
def dim : Nat := 116
def shape : Nat := 120
def slaveQpCounter : Nat := 264
def slaveQpNum : Nat := 280
def size : Nat := 288

end RawMeta

def uint64Bytes (x : UInt64) : List UInt8 := leBytes 8 x.toNat
def ofUint64Bytes (bs : List UInt8) : UInt64 := .ofNat (ofLE bs)

/-- `int[32]`, read. -/
def ofIntArray (bs : List UInt8) : Vector Int 32 := ⟨(ofIntsBytes 4 32 bs).toArray, by simp⟩

/-- `QP_MAX_NUM`: the constructor of `Meta` clears that many slave counters, and so does `PackMeta`. -/
def qpMaxNum : Nat := 2

/-- The number of bytes of a packed meta. -/
def packedLen (m : Meta) : Nat :=
  RawMeta.size + m.body.length + 4 * m.dataType.length + RawNode.size * m.control.node.length

/-- `GetPackMetaLen`, an `int`. -/
def getPackMetaLen (m : Meta) : Int := (packedLen m : Int).bmod (2 ^ 32)

/-- Where the nodes of a packed meta begin. -/
def rawNodeAt (m : Meta) : Nat := RawMeta.size + m.body.length + 4 * m.dataType.length

/-- One round of the loop over the nodes. -/
def packNode (b : Buf) (o : Nat) (n : Node) : Buf :=
  b.store (o + RawNode.id) (intBytes 4 n.id)
    |>.store (o + RawNode.role) (intBytes 4 (enumCode Role.all n.role))
    |>.store (o + RawNode.port) (intBytes 4 n.port)
    |>.store (o + RawNode.numPorts) (intBytes 4 n.numPorts)
    |>.storePadded (o + RawNode.ports) 128 (intsBytes 4 n.ports.toList)
    |>.storePadded (o + RawNode.devTypes) 128 (intsBytes 4 n.devTypes.toList)
    |>.storePadded (o + RawNode.devIds) 128 (intsBytes 4 n.devIds.toList)
    |>.storePadded (o + RawNode.hostname) 64 n.hostname
    |>.storePadded (o + RawNode.endpointName) 64 n.endpointName.toList
    |>.store (o + RawNode.endpointNameLen) (uint64Bytes n.endpointNameLen)
    |>.store (o + RawNode.isRecovery) (boolBytes n.isRecovery)
    |>.store (o + RawNode.customerId) (intBytes 4 n.customerId)
    |>.store (o + RawNode.auxId) (intBytes 4 n.auxId)

def packNodes (b : Buf) (o : Nat) : List Node → Buf
  | [] => b
  | n :: ns => packNodes (packNode b o n) (o + RawNode.size) ns

def packBody (m : Meta) (b : Buf) : Buf :=
  if m.body.length ≠ 0 then
    b.store RawMeta.size m.body |>.store RawMeta.bodySize (intBytes 4 m.body.length)
  else b

def packControl (m : Meta) (b : Buf) : Buf :=
  if m.control.cmd ≠ .empty then
    let b := b.store RawMeta.controlCmd (intBytes 4 (enumCode Command.all m.control.cmd))
    let b :=
      if m.control.cmd = .barrier ∨ m.control.cmd = .instanceBarrier then
        b.store RawMeta.controlBarrierGroup (intBytes 4 m.control.barrierGroup)
      else if m.control.cmd = .ack then
        b.store RawMeta.controlMsgSig (uint64Bytes m.control.msgSig)
      else b
    let b := b.store RawMeta.controlNodeSize (intBytes 4 m.control.node.length)
    packNodes b (rawNodeAt m) m.control.node
  else b.store RawMeta.controlCmd (intBytes 4 (enumCode Command.all .empty))

/-- `PackMeta` into the buffer `b`; `qpNum` is the configured number of queue pairs. -/
def packMeta (qpNum : Nat) (m : Meta) (b : Buf) : Buf :=
  let b := b.bzero 0 RawMeta.size
    |>.store RawMeta.head (intBytes 4 m.head)
    |>.store RawMeta.appId (intBytes 4 m.appId)
    |>.store RawMeta.timestamp (intBytes 4 m.timestamp)
  let b := (packBody m b).store RawMeta.push (boolBytes m.push)
    |>.store RawMeta.request (boolBytes m.request)
    |>.store RawMeta.simpleApp (boolBytes m.simpleApp)
    |>.store RawMeta.customerId (intBytes 4 m.customerId)
    |>.store (RawMeta.size + m.body.length)
        (intsBytes 4 (m.dataType.map (enumCode DataType.all)))
    |>.store RawMeta.dataTypeSize (intBytes 4 m.dataType.length)
    |>.store RawMeta.srcDevType (intBytes 4 (enumCode DeviceType.all m.srcDevType))
    |>.store RawMeta.srcDevId (intBytes 4 m.srcDevId)
    |>.store RawMeta.dstDevType (intBytes 4 (enumCode DeviceType.all m.dstDevType))
    |>.store RawMeta.dstDevId (intBytes 4 m.dstDevId)
  (packControl m b).store RawMeta.dataSize (intBytes 4 m.dataSize)
    |>.store RawMeta.key (uint64Bytes m.key)
    |>.store RawMeta.addr (uint64Bytes m.addr)
    |>.store RawMeta.valLen (intBytes 4 m.valLen)
    |>.store RawMeta.option (intBytes 4 m.option)
    |>.store RawMeta.sid (intBytes 4 m.sid)
    |>.store RawMeta.slaveQpNum (intBytes 4 0)
    |>.bzero RawMeta.slaveQpCounter (8 * qpNum)
    |>.store RawMeta.isTensor (intBytes 4 m.isTensor)
    |>.store RawMeta.dtype (intBytes 4 m.dtype)
    |>.store RawMeta.dim (intBytes 4 m.shape.length)
    |>.store RawMeta.shape (intsBytes 8 m.shape)

/-- One round of the loop over the nodes; `bufSize` ends the search for the end of the hostname. -/
def unpackNode (b : Buf) (bufSize o : Nat) : Node where
  role := enumOf Role.all .server (ofIntBytes 4 (b.load (o + RawNode.role) 4))
  port := ofIntBytes 4 (b.load (o + RawNode.port) 4)
  numPorts := ofIntBytes 4 (b.load (o + RawNode.numPorts) 4)
  hostname := ofCStr (b.load (o + RawNode.hostname) (bufSize - (o + RawNode.hostname)))
  id := ofIntBytes 4 (b.load (o + RawNode.id) 4)
  isRecovery := ofBoolBytes (b.load (o + RawNode.isRecovery) 1)
  customerId := ofIntBytes 4 (b.load (o + RawNode.customerId) 4)
  auxId := ofIntBytes 4 (b.load (o + RawNode.auxId) 4)
  endpointNameLen := ofUint64Bytes (b.load (o + RawNode.endpointNameLen) 8)
  endpointName := ⟨(b.load (o + RawNode.endpointName) 64).toArray, by simp⟩
  ports := ofIntArray (b.load (o + RawNode.ports) 128)
  devTypes := ofIntArray (b.load (o + RawNode.devTypes) 128)
  devIds := ofIntArray (b.load (o + RawNode.devIds) 128)

def unpackNodes (b : Buf) (bufSize : Nat) : Nat → Nat → List Node
  | _, 0 => []
  | o, k + 1 => unpackNode b bufSize o :: unpackNodes b bufSize (o + RawNode.size) k

/-- `UnpackMeta` into a fresh `Meta`. A negative size makes `std::string` and `resize` throw. -/
def unpackMeta (b : Buf) (bufSize : Nat) : Option Meta := do
  let bodySize := ofIntBytes 4 (b.load RawMeta.bodySize 4)
  let dataTypeSize := ofIntBytes 4 (b.load RawMeta.dataTypeSize 4)
  guard (0 ≤ bodySize ∧ 0 ≤ dataTypeSize)
  let rawDataType := RawMeta.size + bodySize.toNat
  let rawNode := rawDataType + 4 * dataTypeSize.toNat
  let nodeSize := ofIntBytes 4 (b.load RawMeta.controlNodeSize 4)
  let dim := ofIntBytes 4 (b.load RawMeta.dim 4)
  return {
    head := ofIntBytes 4 (b.load RawMeta.head 4)
    appId := ofIntBytes 4 (b.load RawMeta.appId 4)
    timestamp := ofIntBytes 4 (b.load RawMeta.timestamp 4)
    request := ofBoolBytes (b.load RawMeta.request 1)
    push := ofBoolBytes (b.load RawMeta.push 1)
    simpleApp := ofBoolBytes (b.load RawMeta.simpleApp 1)
    body := b.load RawMeta.size bodySize.toNat
    customerId := ofIntBytes 4 (b.load RawMeta.customerId 4)
    dataType := (ofIntsBytes 4 dataTypeSize.toNat (b.load rawDataType (4 * dataTypeSize.toNat))).map
      (enumOf DataType.all .other)
    srcDevType := enumOf DeviceType.all .unk (ofIntBytes 4 (b.load RawMeta.srcDevType 4))
    srcDevId := ofIntBytes 4 (b.load RawMeta.srcDevId 4)
    dstDevType := enumOf DeviceType.all .unk (ofIntBytes 4 (b.load RawMeta.dstDevType 4))
    dstDevId := ofIntBytes 4 (b.load RawMeta.dstDevId 4)
    control := {
      cmd := enumOf Command.all .empty (ofIntBytes 4 (b.load RawMeta.controlCmd 4))
      barrierGroup := ofIntBytes 4 (b.load RawMeta.controlBarrierGroup 4)
      msgSig := ofUint64Bytes (b.load RawMeta.controlMsgSig 8)
      node := unpackNodes b bufSize rawNode nodeSize.toNat }
    dataSize := ofIntBytes 4 (b.load RawMeta.dataSize 4)
    key := ofUint64Bytes (b.load RawMeta.key 8)
    addr := ofUint64Bytes (b.load RawMeta.addr 8)
    valLen := ofIntBytes 4 (b.load RawMeta.valLen 4)
    option := ofIntBytes 4 (b.load RawMeta.option 4)
    sid := ofIntBytes 4 (b.load RawMeta.sid 4)
    isTensor := ofIntBytes 4 (b.load RawMeta.isTensor 4)
    dtype := ofIntBytes 4 (b.load RawMeta.dtype 4)
    shape := ofIntsBytes 8 dim.toNat (b.load RawMeta.shape (8 * dim.toNat)) }

end StepMesh
