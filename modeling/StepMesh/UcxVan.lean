import Mathlib.Data.List.AList
import StepMesh.CodecRoundTrip

/-!
# The UCX van (`src/ucx_van.h`)

What `SendMsg` and `SendMeta` post, what `PostRecvData` does with a meta that has arrived, where
`UCXRecvPool` has payloads received, and one round of `ReorderMsg`.

An array is where it lies and how long it is, as in `Message.lean`. Memory is the user's or a block that
the pool has allocated; blocks are numbered, so no two of them are the same. Left out are the endpoints,
the errors of the transport and stopping.
-/

namespace StepMesh

open Buf

/-- An `int` as a `size_t`. -/
def sizeT (v : Int) : Nat := (v % 2 ^ 64).toNat

/-! ### Fields of a `RawMeta` -/

def rawInt (raw : Buf) (off : Nat) : Int := ofIntBytes 4 (raw.load off 4)
def rawBool (raw : Buf) (off : Nat) : Bool := ofBoolBytes (raw.load off 1)
def rawUint64 (raw : Buf) (off : Nat) : UInt64 := ofUint64Bytes (raw.load off 8)

section
variable {m : Meta} {b : Buf} {off qpNum : Nat}

theorem rawInt_packMeta {v : Int} (hf : (off, intBytes 4 v) ∈ fixedFields m) (hv : FitsInt 4 v) :
    rawInt (packMeta qpNum m b) off = v := by
  have h := load_fixedFields (b := b) qpNum _ hf
  rw [length_intBytes] at h
  rw [rawInt, h, ofIntBytes_intBytes hv]

theorem rawBool_packMeta {x : Bool} (hf : (off, boolBytes x) ∈ fixedFields m) :
    rawBool (packMeta qpNum m b) off = x := by
  have h := load_fixedFields (b := b) qpNum _ hf
  rw [length_boolBytes] at h
  rw [rawBool, h, ofBoolBytes_boolBytes]

theorem rawUint64_packMeta {x : UInt64} (hf : (off, uint64Bytes x) ∈ fixedFields m) :
    rawUint64 (packMeta qpNum m b) off = x := by
  have h := load_fixedFields (b := b) qpNum _ hf
  rw [length_uint64Bytes] at h
  rw [rawUint64, h, ofUint64Bytes_uint64Bytes]

theorem rawInt_packMeta_cmd :
    rawInt (packMeta qpNum m b) RawMeta.controlCmd = enumCode Command.all m.control.cmd := by
  rw [rawInt, load_packMeta_cmd, ofIntBytes_intBytes (fitsInt_enumCode (by decide))]

end

/-! ### Tags -/

inductive Tags
  | ucxTagMeta | ucxTagData
deriving DecidableEq, Repr

/-- `UCX_TAG_MASK`, the value of `UCX_TAG_DATA` too. -/
def ucxTagMask : UInt64 := (1 : UInt64) <<< 63

def Tags.bits : Tags → UInt64
  | .ucxTagMeta => 0
  | .ucxTagData => ucxTagMask

/-- `MakeTag`: one bit for the kind, 15 for the sender and 48 for the key. -/
def makeTag (nodeId : Int) (tag : Tags) (key : Key) : Option UInt64 := do
  guard (0 ≤ nodeId ∧ nodeId < 2 ^ 15)
  return ((UInt64.ofNat nodeId.toNat <<< 48) &&& ~~~ucxTagMask) ||| tag.bits ||| (key &&& 0xFFFFFFFFFFFF)

def nodeIdFromTag (tag : UInt64) : Int := ((tag &&& ~~~ucxTagMask) >>> 48).toNat

theorem makeTag_eq_some {nodeId : Int} {tag : Tags} {key : Key} {t : UInt64}
    (h : makeTag nodeId tag key = some t) : (0 ≤ nodeId ∧ nodeId < 2 ^ 15) ∧
      t = ((UInt64.ofNat nodeId.toNat <<< 48) &&& ~~~ucxTagMask) ||| tag.bits ||| (key &&& 0xFFFFFFFFFFFF) := by
  obtain ⟨_, hg, ht⟩ := Option.bind_eq_some_iff.mp h
  exact ⟨by simpa [guard] using hg, (Option.some.inj ht).symm⟩

theorem getLsbD_ucxTagMask (i : Nat) : ucxTagMask.toBitVec.getLsbD i = decide (i = 63) := by
  rcases Nat.lt_or_ge i 64 with hlt | hge
  · exact (by decide : ∀ i < 64, ucxTagMask.toBitVec.getLsbD i = decide (i = 63)) i hlt
  · rw [BitVec.getLsbD_of_ge _ _ hge]
    exact (decide_eq_false (by omega)).symm

/-- The sender's bits are those from 48 to 62, and nothing else is there. -/
theorem nodeIdFromTag_makeTag {nodeId : Int} {tag : Tags} {key : Key} {t : UInt64}
    (h : makeTag nodeId tag key = some t) : nodeIdFromTag t = nodeId := by
  obtain ⟨⟨h₀, hlt⟩, rfl⟩ := makeTag_eq_some h
  have hx : (UInt64.ofNat nodeId.toNat).toNat = nodeId.toNat :=
    UInt64.toNat_ofNat_of_lt' (show nodeId.toNat < 2 ^ 64 by omega)
  suffices hbits : ((((UInt64.ofNat nodeId.toNat <<< 48) &&& ~~~ucxTagMask) ||| tag.bits |||
      (key &&& 0xFFFFFFFFFFFF)) &&& ~~~ucxTagMask) >>> 48 = UInt64.ofNat nodeId.toNat by
    rw [nodeIdFromTag, hbits, hx]
    omega
  generalize UInt64.ofNat nodeId.toNat = x at *
  have hhigh : ∀ i, 15 ≤ i → x.toBitVec.getLsbD i = false := by
    intro i hi
    have hpow : 2 ^ 15 ≤ 2 ^ i := Nat.pow_le_pow_right (by decide) hi
    exact Nat.testBit_lt_two_pow (show x.toNat < 2 ^ i by omega)
  have htag : ∀ i, tag.bits.toBitVec.getLsbD (48 + i) = true → 48 + i = 63 := by
    intro i hi
    cases tag with
    | ucxTagMeta => simp [Tags.bits] at hi
    | ucxTagData =>
      rw [Tags.bits, getLsbD_ucxTagMask] at hi
      exact of_decide_eq_true hi
  have hkey : ∀ i, (0xFFFFFFFFFFFF#64).getLsbD (48 + i) = false := by
    intro i
    have hpow : 2 ^ 48 ≤ 2 ^ (48 + i) := Nat.pow_le_pow_right (by decide) (by omega)
    exact Nat.testBit_lt_two_pow (Nat.lt_of_lt_of_le (by decide) hpow)
  apply UInt64.toBitVec_inj.mp
  apply BitVec.eq_of_getLsbD_eq
  intro i hi
  simp only [UInt64.toBitVec_shiftRight, UInt64.toBitVec_and, UInt64.toBitVec_or, UInt64.toBitVec_shiftLeft,
    UInt64.toBitVec_ofNat, BitVec.ofNat_eq_ofNat, BitVec.reduceMod, BitVec.shiftLeft_eq', BitVec.toNat_ofNat,
    Nat.reducePow, Nat.reduceMod, UInt64.toBitVec_not, BitVec.ushiftRight_eq', BitVec.getLsbD_ushiftRight,
    BitVec.getLsbD_and, BitVec.getLsbD_or, BitVec.getLsbD_shiftLeft, Nat.add_sub_cancel_left, BitVec.getLsbD_not,
    getLsbD_ucxTagMask]
  rcases Nat.lt_or_ge i 15 with hlt | hge
  · have hne : tag.bits.toBitVec.getLsbD (48 + i) = false := by
      by_contra ht
      have := htag i (by simpa using ht)
      omega
    rw [hne, hkey, decide_eq_true (show 48 + i < 64 by omega), decide_eq_false (show 48 + i ≠ 63 by omega)]
    simp
  · rw [hhigh i hge]
    by_cases h63 : 48 + i = 63
    · simp [h63]
    · simp [show ¬ 48 + i < 64 by omega]

/-! ### `UCXRecvPool` -/

/-- Memory of the user, or a block of `posix_memalign`. -/
inductive Mem
  | user (addr : Nat)
  | block (id : Nat)
deriving DecidableEq, Repr

structure UcxAddress where
  address : Mem
  length : Nat
  external : Bool
deriving DecidableEq, Repr

/-- A received message: its meta, its payload and its sender. -/
structure UcxBuffer where
  rawMeta : Buf
  buffer : Option Mem := none
  sender : NodeId

/-- `freed` lists what was given to `free`, and `blocks` counts the allocations. -/
structure UcxRecvPool where
  recvBuffers : List UcxBuffer := []
  orderedRecvBuffers : List UcxBuffer := []
  wPool : Key → Option Nat := fun _ => none
  rpool : AList (fun _ : Key × NodeId => UcxAddress) := ∅
  blocks : Nat := 0
  freed : List Mem := []

namespace UcxRecvPool

variable (pool : UcxRecvPool)

def free (address : Mem) : UcxRecvPool := { pool with freed := pool.freed ++ [address] }

/-- A new block of `size` bytes for the key and the node. -/
def allocate (key : Key) (nodeId : NodeId) (size : Nat) : Mem × UcxRecvPool :=
  (.block pool.blocks, { pool with
    blocks := pool.blocks + 1
    rpool := pool.rpool.insert (key, nodeId) { address := .block pool.blocks, length := size, external := false } })

/-- `GetRxBuffer`. Pulled data goes to the address cached for its key. -/
def getRxBuffer (key : Key) (nodeId : NodeId) (size : Nat) (push : Bool) : Option (Mem × UcxRecvPool) :=
  if !push then (pool.wPool key).map fun addr => (.user addr, pool)
  else
    match pool.rpool.lookup (key, nodeId) with
    | some it =>
      if size ≤ it.length then some (it.address, pool)
      else some ((pool.free it.address).allocate key nodeId size)
    | none => some (pool.allocate key nodeId size)

/-- `Register`, of the values of a message. -/
def register (key : Key) (sender : NodeId) (address : Mem) (length : Nat) : UcxRecvPool :=
  let pool := match pool.rpool.lookup (key, sender) with
    | some it => if !it.external then pool.free it.address else pool
    | none => pool
  { pool with
    rpool := pool.rpool.insert (key, sender) { address := address, length := length, external := true } }

/-- The destructor. -/
def destroy : UcxRecvPool :=
  { pool with
    rpool := ∅
    freed := pool.freed ++ ((pool.rpool.entries.map (·.2)).filter (!·.external)).map (·.address) }

def cacheLocalAddress (key : Key) (data : Nat) : UcxRecvPool :=
  { pool with wPool := Function.update pool.wPool key (some data) }

end UcxRecvPool

/-! ### Sending -/

def ucxOptionMeta : Int := -1
def ucxOptionData : Int := -2

/-- `1 << 31` as an `int`, which is negative. -/
def maxSidCount : Int := -2 ^ 31

structure UcxCfg where
  shortSendThresh : Int := 4096
  forceRequestOrder : Bool := false
  qpNum : Nat := 2

structure UcxVan where
  id : NodeId
  rxPool : UcxRecvPool := {}
  nextSendSids : NodeId → Int := fun _ => 0
  nextRecvSids : NodeId → Int := fun _ => 0
  recvSidBuffers : NodeId → AList (fun _ : Int => UcxBuffer) := fun _ => ∅

/-- A request of `SendMeta`: the packed meta, `size` bytes, and the payload behind it if there is one. -/
structure MetaTxReq where
  rxId : NodeId
  tag : UInt64
  buf : Buf
  size : Int
  payload : Option (Nat × Nat) := none

/-- A request of `SendMsg` for a payload of its own. -/
structure DataTxReq where
  rxId : NodeId
  tag : UInt64
  buf : Nat
  count : Nat
deriving DecidableEq, Repr

/-- `IsDataMsg`: a push request or a pull response. -/
def isDataMsg (msg : Message) : Bool :=
  isValidPushpull msg && (msg.msgMeta.push && msg.msgMeta.request || !msg.msgMeta.push && !msg.msgMeta.request)

/-- `DecodeKey`, for one key only. -/
def ucxDecodeKey (msg : Message) : Option Key := do
  let keys ← msg.data[0]?
  guard (keys.size = 8)
  msg.keys.head?

namespace UcxVan

variable (cfg : UcxCfg) (van : UcxVan)

/-- `SendMeta`; no buffer has a negative length. It sets the option of a message whose payload it sends
along, and returns how many bytes it sends. -/
def sendMeta (msg : Message) : Option (Message × MetaTxReq × Int) := do
  let metaSize := getPackMetaLen msg.msgMeta
  guard (0 < metaSize)
  let tag ← makeTag van.id .ucxTagMeta msg.msgMeta.key
  if isDataMsg msg && decide (msg.msgMeta.srcDevType = .cpu) &&
      decide (msg.msgMeta.valLen ≤ cfg.shortSendThresh) then
    let vals ← msg.data[1]?
    let m := { msg.msgMeta with option := metaSize }
    return ({ msg with msgMeta := m },
      { rxId := m.recver, tag := tag, buf := packMeta cfg.qpNum m (fun _ => 0), size := metaSize,
        payload := some (vals.ptr, sizeT m.valLen) },
      metaSize + m.valLen)
  else
    let m := msg.msgMeta
    return (msg, { rxId := m.recver, tag := tag, buf := packMeta cfg.qpNum m (fun _ => 0), size := metaSize },
      metaSize)

/-- `SendMsg` gives a request its key and a sequence id. -/
def stampRequest (msg : Message) : Option (UcxVan × Message) :=
  if msg.msgMeta.request then do
    let key ← ucxDecodeKey msg
    let sid := (van.nextSendSids msg.msgMeta.recver).tmod maxSidCount
    return ({ van with nextSendSids := Function.update van.nextSendSids msg.msgMeta.recver (sid + 1) },
      { msg with msgMeta := { msg.msgMeta with key := key, sid := sid } })
  else some (van, msg)

/-- It gives a message with a payload the length of that, and caches where the answer to a pull goes. -/
def announcePayload (msg : Message) : Option (UcxVan × Message) :=
  if isDataMsg msg then do
    let vals ← msg.data[1]?
    return (van, { msg with msgMeta := { msg.msgMeta with
      valLen := (vals.size : Int).bmod (2 ^ 32), option := ucxOptionData } })
  else if !msg.msgMeta.push && msg.msgMeta.request then do
    guard (msg.msgMeta.addr ≠ 0)
    return ({ van with rxPool := van.rxPool.cacheLocalAddress msg.msgMeta.key msg.msgMeta.addr.toNat }, msg)
  else some (van, msg)

/-- What `SendMsg` does before `SendMeta`. -/
def prepareMsg (msg : Message) : Option (UcxVan × Message) := do
  guard (msg.msgMeta.recver ≠ kEmpty)
  let msg := { msg with msgMeta := { msg.msgMeta with option := ucxOptionMeta } }
  if isValidPushpull msg then
    let (van, msg) ← van.stampRequest msg
    van.announcePayload msg
  else return (van, { msg with msgMeta := { msg.msgMeta with valLen := 0 } })

/-- `SendMsg`: the requests for the meta and for the payload. -/
def sendMsg (msg : Message) : Option (UcxVan × MetaTxReq × Option DataTxReq) := do
  let (van, msg) ← van.prepareMsg msg
  let (msg, req, len) ← van.sendMeta cfg msg
  if msg.msgMeta.option = ucxOptionMeta then return (van, req, none)
  else if len = getPackMetaLen msg.msgMeta + msg.msgMeta.valLen then return (van, req, none)
  else
    guard (isDataMsg msg)
    let vals ← msg.data[1]?
    let tag ← makeTag van.id .ucxTagData msg.msgMeta.key
    return (van, req, some { rxId := msg.msgMeta.recver, tag := tag, buf := vals.ptr, count := vals.size })

/-! ### Receiving -/

/-- What `PostRecvData` does for the payload: nothing, a copy of the `len` bytes at `off` of the received
bytes, or a receive of its own. -/
inductive RecvAction
  | justMeta
  | copy (buffer : Mem) (off : Int) (len : Nat)
  | recv (buffer : Mem) (count : Nat) (tag : UInt64)
deriving DecidableEq, Repr

def push (buf : UcxBuffer) : UcxVan :=
  { van with rxPool := { van.rxPool with recvBuffers := van.rxPool.recvBuffers ++ [buf] } }

/-- `PostRecvData`. A message with a receive of its own is pushed when that is completed. -/
def postRecvData (raw : Buf) (sender : NodeId) : Option (UcxVan × RecvAction) := do
  let len := sizeT (rawInt raw RawMeta.valLen)
  let option := rawInt raw RawMeta.option
  let key := rawUint64 raw RawMeta.key
  if option = ucxOptionMeta then return (van.push { rawMeta := raw, sender := sender }, .justMeta)
  else
    let (buffer, rxPool) ← van.rxPool.getRxBuffer key sender len (rawBool raw RawMeta.push)
    let van := { van with rxPool := rxPool }
    if 0 < option then
      return (van.push { rawMeta := raw, buffer := some buffer, sender := sender }, .copy buffer option len)
    else
      guard (option = ucxOptionData)
      return (van, .recv buffer len (← makeTag sender .ucxTagData key))

end UcxVan

/-- `IsPushpullRequest`. -/
def isPushpullRequest (raw : Buf) : Bool :=
  decide (rawInt raw RawMeta.controlCmd = enumCode Command.all .empty) && !rawBool raw RawMeta.simpleApp &&
    rawBool raw RawMeta.request

namespace UcxVan

/-- The inner loop of `ReorderMsg`: the parked messages that follow `nextSid`, the first missing sequence id
and what stays parked. There are at most as many rounds as there are parked messages, and one. -/
def flush : Nat → Int → AList (fun _ : Int => UcxBuffer) →
    Int × AList (fun _ : Int => UcxBuffer) × List UcxBuffer
  | 0, nextSid, buffs => (nextSid, buffs, [])
  | rounds + 1, nextSid, buffs =>
    let nextSid := (nextSid + 1).tmod maxSidCount
    match buffs.lookup nextSid with
    | some buf =>
      let (nextSid, buffs, out) := flush rounds nextSid (buffs.erase nextSid)
      (nextSid, buffs, buf :: out)
    | none => (nextSid, buffs, [])

variable (cfg : UcxCfg) (van : UcxVan)

def pushOrdered (bufs : List UcxBuffer) : UcxVan :=
  { van with rxPool := { van.rxPool with orderedRecvBuffers := van.rxPool.orderedRecvBuffers ++ bufs } }

/-- A request whose turn it may be. -/
def reorderRequest (buf : UcxBuffer) : Option UcxVan := do
  let sid := rawInt buf.rawMeta RawMeta.sid
  guard (0 ≤ sid)
  guard (0 ≤ buf.sender)
  let nextSid := van.nextRecvSids buf.sender
  let buffs := van.recvSidBuffers buf.sender
  if sid = nextSid then
    let (nextSid, buffs, out) := flush (buffs.entries.length + 1) nextSid buffs
    return { van.pushOrdered (buf :: out) with
      nextRecvSids := Function.update van.nextRecvSids buf.sender nextSid
      recvSidBuffers := Function.update van.recvSidBuffers buf.sender buffs }
  else
    return { van with
      recvSidBuffers := Function.update van.recvSidBuffers buf.sender (buffs.insert sid buf) }

/-- One round of `ReorderMsg`. -/
def reorderMsg : Option UcxVan := do
  let buf :: rest := van.rxPool.recvBuffers | none
  let van := { van with rxPool := { van.rxPool with recvBuffers := rest } }
  if !isPushpullRequest buf.rawMeta || !cfg.forceRequestOrder then return van.pushOrdered [buf]
  else van.reorderRequest buf

end UcxVan

end StepMesh
