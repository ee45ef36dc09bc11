import Mathlib.Algebra.Order.Ring.Int
import Mathlib.Data.List.Basic
import StepMesh.Lib.Strides

/-!
# Messages (`include/ps/internal/message.h`, `include/ps/sarray.h`, `include/ps/kv_app.h`)

The values every layer exchanges. An `int` is an `Int` (the codec reduces it to 32 bits, see
`Codec.lean`; a size that is put into one is reduced at once), a `uint64_t` is a `UInt64`, a string is its
bytes. Left out are the tensor event, the trace points and `Meta`'s own copy of the slave queue-pair
counters: no function modelled here reads them.
-/

namespace StepMesh

abbrev Key := UInt64
abbrev NodeId := Int

/-- `Meta::kEmpty`, `Node::kEmpty`: the maximum of `int16_t`. -/
def kEmpty : Int := 32767

inductive DataType
  | char | int8 | int16 | int32 | int64 | uint8 | uint16 | uint32 | uint64 | float | double | other
deriving DecidableEq, Repr, Inhabited

inductive DeviceType
  | unk | cpu | gpu
deriving DecidableEq, Repr, Inhabited

inductive Role
  | server | worker | scheduler | joint
deriving DecidableEq, Repr, Inhabited

/-- `Control::Command`. -/
inductive Command
  | empty | terminate | addNode | barrier | ack | heartbeat | bootstrap | addrRequest
  | addrResolved | instanceBarrier
deriving DecidableEq, Repr, Inhabited

/-- Information about a node; the arrays have the sizes the C++ arrays have. -/
structure Node where
  role : Role
  id : Int := kEmpty
  customerId : Int
  hostname : List UInt8
  numPorts : Int
  ports : Vector Int 32
  devTypes : Vector Int 32
  devIds : Vector Int 32
  port : Int := kEmpty
  isRecovery : Bool := false
  endpointName : Vector UInt8 64
  endpointNameLen : UInt64 := 0
  auxId : Int := -1
deriving DecidableEq, Repr

structure Control where
  cmd : Command := .empty
  node : List Node := []
  barrierGroup : Int := 0
  msgSig : UInt64 := 0
deriving DecidableEq, Repr

/-- Meta info of a message; a fresh `Meta` has the defaults of the C++ constructor. -/
structure Meta where
  head : Int := kEmpty
  appId : Int := kEmpty
  customerId : Int := kEmpty
  timestamp : Int := kEmpty
  sender : NodeId := kEmpty
  recver : NodeId := kEmpty
  request : Bool := false
  push : Bool := false
  simpleApp : Bool := false
  body : List UInt8 := []
  dataType : List DataType := []
  srcDevType : DeviceType := .unk
  srcDevId : Int := -1
  dstDevType : DeviceType := .unk
  dstDevId : Int := -1
  control : Control := {}
  dataSize : Int := 0
  key : Key := 0
  addr : UInt64 := 0
  valLen : Int := 0
  option : Int := 0
  sid : Int := 0
  isTensor : Int := 0
  dtype : Int := 0
  shape : List Int := []
deriving DecidableEq, Repr

/-- A shared array of bytes: where it lies, how long it is and on which devices. Its contents stay
in the memory of the node. -/
structure SArray where
  ptr : Nat := 0
  size : Nat := 0
  srcDeviceType : DeviceType := .cpu
  srcDeviceId : Int := 0
  dstDeviceType : DeviceType := .cpu
  dstDeviceId : Int := 0
deriving DecidableEq, Repr

/-- A message. The contents of `data[0]`, the keys, and of `data[2]`, the lengths, are read on the
way, so they ride along in `keys` and `lens`. -/
structure Message where
  msgMeta : Meta := {}
  data : List SArray := []
  keys : List Key := []
  lens : List Int := []
deriving DecidableEq, Repr

/-- `Message::AddData`: push an array and record its type; the second one sets the devices. -/
def Message.addData (msg : Message) (dt : DataType) (val : SArray) : Message :=
  let data := msg.data ++ [val]
  let m := { msg.msgMeta with
    dataType := msg.msgMeta.dataType ++ [dt]
    dataSize := (msg.msgMeta.dataSize + val.size).bmod (2 ^ 32) }
  if data.length = 2 then
    { msg with
      data := data
      msgMeta := { m with
        srcDevType := val.srcDeviceType, srcDevId := val.srcDeviceId
        dstDevType := val.dstDeviceType, dstDevId := val.dstDeviceId } }
  else { msg with data := data, msgMeta := m }

/-- `AddData(keys)`: the array of keys, eight bytes each, with its contents. -/
def Message.addKeys (msg : Message) (keys : List Key) : Message :=
  { msg.addData .uint64 { size := 8 * keys.length } with keys := keys }

/-- `AddData(lens)`: the array of lengths, four bytes each, with its contents. -/
def Message.addLens (msg : Message) (lens : List Int) : Message :=
  { msg.addData .int32 { size := 4 * lens.length } with lens := lens }

@[simp] theorem Message.timestamp_addData (msg : Message) (dt : DataType) (val : SArray) :
    (msg.addData dt val).msgMeta.timestamp = msg.msgMeta.timestamp := by
  unfold addData
  dsimp only
  split_ifs <;> rfl

@[simp] theorem Message.timestamp_addKeys (msg : Message) (keys : List Key) :
    (msg.addKeys keys).msgMeta.timestamp = msg.msgMeta.timestamp :=
  msg.timestamp_addData ..

@[simp] theorem Message.timestamp_addLens (msg : Message) (lens : List Int) :
    (msg.addLens lens).msgMeta.timestamp = msg.msgMeta.timestamp :=
  msg.timestamp_addData ..

/-- `IsValidPushpull`: neither a control nor a simple-app message. -/
def isValidPushpull (msg : Message) : Bool :=
  decide (msg.msgMeta.control.cmd = .empty) && !msg.msgMeta.simpleApp

/-- A strided tensor: `dataPtr` is `storage + offset · itemsize`, and from one index of a dimension to the next it
is the stride of the dimension. -/
structure Tensor where
  storage : Nat
  offset : Nat := 0
  sizes : List Nat
  strides : List Nat := Strides.contiguous sizes
  itemsize : Nat
  scalarType : Int
  dims : strides.length = sizes.length := by rfl
deriving DecidableEq, Repr

namespace Tensor

/-- A default-constructed `at::Tensor`. -/
def undefined : Tensor := { storage := 0, sizes := [0], itemsize := 0, scalarType := -1 }

def dataPtr (t : Tensor) : Nat := t.storage + t.offset * t.itemsize
def numel (t : Tensor) : Nat := t.sizes.prod

/-- `numel() * itemsize()`. -/
def nbytes (t : Tensor) : Nat := t.numel * t.itemsize

/-- `SArray<char>::reset(data_ptr(), numel() * itemsize())`. -/
def toSArray (t : Tensor) : SArray := { ptr := t.dataPtr, size := t.nbytes }

end Tensor

structure KeyTensor where
  key : Key := 0
  val : Tensor := .undefined
deriving DecidableEq, Repr

/-- Meta information about a kv request. -/
structure KVMeta where
  cmd : Int
  push : Bool
  sender : NodeId
  timestamp : Int
  customerId : Int
  key : Key
  addr : UInt64
  valLen : Int
  option : Int
  isTensor : Int := 0
  dtype : Int := 0
  shape : List Int := []
deriving DecidableEq, Repr, Inhabited

structure KVPairs where
  keys : List Key := []
  vals : SArray := {}
  lens : List Int := []
deriving DecidableEq, Repr

def afFlagBatchStart : Int := 1
def afFlagBatchMiddle : Int := 2
def afFlagBatchEnd : Int := 3

end StepMesh
