import StepMesh.CodecRoundTrip

/-!
# Messages over TensorPipe (`src/tp_van.h`)

`SendMsg` puts the id, the packed meta and the arrays of at most 16 bytes, each with its index and its size,
into one string, and makes the longer arrays tensors of the message. `ReceiveFromPipe` reads the string, sets
the short arrays by their index and gives the tensors to the places that are left. What arrives are the
arrays that were sent (`receiveFromPipe_sendMsg`), as long as their number is an `int`.
-/

namespace StepMesh

open Buf

/-- A message with the contents of its arrays. -/
structure ByteMessage where
  msgMeta : Meta := {}
  data : List (List UInt8) := []
deriving DecidableEq, Repr

/-- `tensorpipe::Message`, and its descriptor and buffers on the other side. -/
structure TpMessage where
  metadata : List UInt8
  tensors : List (List UInt8) := []
deriving DecidableEq, Repr

/-- The van of a node, with the nodes it has a pipe to. -/
structure TpVan where
  id : NodeId
  sendPipes : List NodeId := []

/-- The size of an array as an `int`. -/
def sarraySize (sarray : List UInt8) : Int := (sarray.length : Int).bmod (2 ^ 32)

/-- An array that `SendMsg` counts as small. -/
def isSmall (sarray : List UInt8) : Bool := sarray.length ≤ 16

namespace TpVan

/-! ### Sending -/

/-- The loop of `SendMsg` from index `i` on: what it appends to the string, and the tensors. -/
def packArrays : Nat → List (List UInt8) → List UInt8 × List (List UInt8)
  | _, [] => ([], [])
  | i, sarray :: data =>
    let (metadata, tensors) := packArrays (i + 1) data
    let size := sarraySize sarray
    if size ≤ 16 then
      (intBytes 4 i ++ intBytes 4 size ++ (if 0 < size then sarray.take size.toNat else []) ++ metadata, tensors)
    else (metadata, sarray :: tensors)

/-- The string up to the number of arrays; `b` is what the buffer of `PackMeta` holds before. -/
def packHeader (van : TpVan) (qpNum : Nat) (b : Buf) (msg : ByteMessage) : List UInt8 :=
  intBytes 4 van.id ++ intBytes 4 (packedLen msg.msgMeta) ++
    (packMeta qpNum msg.msgMeta b).load 0 (packedLen msg.msgMeta) ++
    intBytes 4 ((msg.data.length : Int).bmod (2 ^ 32))

/-- `SendMsg`: what it returns, and what it writes to the pipe. -/
def sendMsg (van : TpVan) (qpNum : Nat) (b : Buf) (msg : ByteMessage) : Option (Int × Option TpMessage) := do
  guard (msg.msgMeta.recver ≠ kEmpty)
  if msg.msgMeta.recver ∈ van.sendPipes then
    -- otherwise there is no buffer of that length
    guard (getPackMetaLen msg.msgMeta = packedLen msg.msgMeta)
    let header := van.packHeader qpNum b msg
    if (msg.data.length : Int).bmod (2 ^ 32) ≠ 0 then
      -- the loops count with an `int`
      guard (msg.data.length < 2 ^ 31)
      let smallDataSize := msg.data.countP isSmall
      let (metadata, tensors) := packArrays 0 msg.data
      return (((header.length + (tensors.map List.length).sum : Nat) : Int).bmod (2 ^ 32),
        some { metadata := header ++ intBytes 4 smallDataSize ++ metadata, tensors := tensors })
    else return ((header.length : Int).bmod (2 ^ 32), some { metadata := header })
  else return (-1, none)

/-! ### Receiving -/

/-- The `int` at a pointer, and the pointer behind it. -/
def readInt (ptr : List UInt8) : Option (Int × List UInt8) := do
  guard (4 ≤ ptr.length)
  return (ofIntBytes 4 (ptr.take 4), ptr.drop 4)

/-- The loop that fills in the small arrays; `at` throws for an index that is too large. -/
def fillSmall : Nat → List UInt8 → List (List UInt8) → List Bool → Option (List (List UInt8) × List Bool)
  | 0, _, data, small => some (data, small)
  | n + 1, ptr, data, small => do
    let (idx, ptr) ← readInt ptr
    let (size, ptr) ← readInt ptr
    guard (0 ≤ size ∧ size ≤ ptr.length)
    guard (0 ≤ idx ∧ idx < data.length)
    fillSmall n (ptr.drop size.toNat) (data.set idx.toNat (ptr.take size.toNat)) (small.set idx.toNat true)

/-- The loop over the other places. -/
def fillLarge : List (List UInt8) → List Bool → List (List UInt8) → Option (List (List UInt8))
  | sarray :: data, true :: small, tensors => do
    let data ← fillLarge data small tensors
    return sarray :: data
  | _ :: data, false :: small, tensor :: tensors => do
    let data ← fillLarge data small tensors
    return tensor :: data
  | [], _, _ => some []
  | _, _, _ => none

/-- The arrays of a message that has any. -/
def receiveData (dataSize : Nat) (ptr : List UInt8) (tensors : List (List UInt8)) :
    Option (List (List UInt8)) := do
  let (smallDataSize, ptr) ← readInt ptr
  guard ((smallDataSize + tensors.length) % 2 ^ 64 = dataSize)
  let (data, small) ←
    fillSmall smallDataSize.toNat ptr (List.replicate dataSize []) (List.replicate dataSize false)
  fillLarge data small tensors

/-- `ReceiveFromPipe`: the message that it pushes to the queue. -/
def receiveFromPipe (van : TpVan) (tp : TpMessage) : Option ByteMessage := do
  let (sender, ptr) ← readInt tp.metadata
  let (metaSize, ptr) ← readInt ptr
  guard (0 ≤ metaSize ∧ metaSize ≤ ptr.length)
  let m ← unpackMeta (fun i => ptr.getD i 0) metaSize.toNat
  let m := { m with sender := sender, recver := van.id }
  let (dataSize, ptr) ← readInt (ptr.drop metaSize.toNat)
  if 0 < dataSize then
    let data ← receiveData dataSize.toNat ptr tp.tensors
    return { msgMeta := m, data := data }
  else return { msgMeta := m }

/-! ### The arrays -/

variable {data : List (List UInt8)} {sarray : List UInt8}

theorem readInt_intBytes {v : Int} (h : FitsInt 4 v) (ptr : List UInt8) :
    readInt (intBytes 4 v ++ ptr) = some (v, ptr) := by
  have hlen : (intBytes 4 v).length = 4 := length_intBytes
  have hle : 4 ≤ (intBytes 4 v ++ ptr).length := by rw [List.length_append, hlen]; omega
  rw [readInt, List.take_left' hlen, List.drop_left' hlen, ofIntBytes_intBytes h]
  simp only [hle, guard_true, Option.pure_def, Option.bind_eq_bind, Option.bind_some]

theorem sarraySize_eq (h : sarray.length < 2 ^ 31) : sarraySize sarray = sarray.length :=
  Int.bmod_eq_of_le (by omega) (by omega)

theorem packArrays_small {i : Nat} (h : isSmall sarray = true) :
    packArrays i (sarray :: data) =
      (intBytes 4 i ++ intBytes 4 sarray.length ++ sarray ++ (packArrays (i + 1) data).1,
        (packArrays (i + 1) data).2) := by
  have hle : sarray.length ≤ 16 := by simpa [isSmall] using h
  have hsize : sarraySize sarray = sarray.length := sarraySize_eq (by omega)
  have htake : (if 0 < (sarray.length : Int) then sarray.take (sarray.length : Int).toNat else []) = sarray := by
    split_ifs with hpos
    · rw [Int.toNat_natCast, List.take_length]
    · exact (List.length_eq_zero_iff.mp (by omega)).symm
  rw [packArrays, hsize]
  simp only [htake]
  rw [if_pos (by omega)]

theorem packArrays_large {i : Nat} (hlen : sarray.length < 2 ^ 31) (h : isSmall sarray = false) :
    packArrays i (sarray :: data) = ((packArrays (i + 1) data).1, sarray :: (packArrays (i + 1) data).2) := by
  have hlt : ¬ sarray.length ≤ 16 := by simpa [isSmall] using h
  rw [packArrays, sarraySize_eq hlen]
  dsimp only
  rw [if_neg (by omega)]

theorem packArrays_tensors {i : Nat} (hlen : ∀ sarray ∈ data, sarray.length < 2 ^ 31) :
    (packArrays i data).2 = data.filter fun sarray => !isSmall sarray := by
  induction data generalizing i with
  | nil => rfl
  | cons sarray data ih =>
    obtain ⟨h, hrest⟩ := List.forall_mem_cons.mp hlen
    cases hs : isSmall sarray with
    | true => rw [packArrays_small hs, List.filter_cons_of_neg (by rw [hs]; decide), ih hrest]
    | false => rw [packArrays_large h hs, List.filter_cons_of_pos (by rw [hs]; decide), ih hrest]

/-- A short array, and nothing yet for a long one. -/
def shortOnly (sarray : List UInt8) : List UInt8 := if isSmall sarray then sarray else []

theorem fillSmall_succ {n : Nat} {idx size : Int} {ptr ptr₁ ptr₂ : List UInt8} {places : List (List UInt8)}
    (small : List Bool) (h₁ : readInt ptr = some (idx, ptr₁)) (h₂ : readInt ptr₁ = some (size, ptr₂))
    (hsize : 0 ≤ size ∧ size ≤ ptr₂.length) (hidx : 0 ≤ idx ∧ idx < places.length) :
    fillSmall (n + 1) ptr places small =
      fillSmall n (ptr₂.drop size.toNat) (places.set idx.toNat (ptr₂.take size.toNat))
        (small.set idx.toNat true) := by
  rw [fillSmall, h₁]
  simp only [Option.bind_eq_bind, Option.bind_some, h₂, hsize, hidx, and_self, guard_true, Option.pure_def]

theorem fillSmall_intBytes {n i : Nat} {places : List (List UInt8)} (small : List Bool) (ptr : List UInt8)
    (hi : i < places.length) (hnum : places.length < 2 ^ 31) (hlen : sarray.length < 2 ^ 31) :
    fillSmall (n + 1) (intBytes 4 i ++ intBytes 4 sarray.length ++ sarray ++ ptr) places small =
      fillSmall n ptr (places.set i sarray) (small.set i true) := by
  have hidx : 0 ≤ (i : Int) ∧ (i : Int) < places.length := by omega
  rw [List.append_assoc, List.append_assoc, fillSmall_succ small (readInt_intBytes (fitsInt_length (by omega)) _)
    (readInt_intBytes (fitsInt_length hlen) _) (by rw [List.length_append]; omega) hidx]
  simp only [Int.toNat_natCast, List.drop_left, List.take_left]

theorem set_append_replicate {α : Type*} {done : List α} {i : Nat} (hdone : done.length = i) (n : Nat) (x y : α) :
    (done ++ List.replicate (n + 1) x).set i y = done ++ [y] ++ List.replicate n x := by
  rw [← hdone, List.set_append_right _ _ (Nat.le_refl _), Nat.sub_self, List.replicate_succ, List.set_cons_zero,
    List.append_assoc, List.singleton_append]

/-- The short arrays get to their places. `done` are the ones before index `i`. -/
theorem fillSmall_packArrays {i : Nat} {done : List (List UInt8)} {small : List Bool}
    (hdone : done.length = i) (hsmall : small.length = i) (hi : i + data.length < 2 ^ 31)
    (hlen : ∀ sarray ∈ data, sarray.length < 2 ^ 31) :
    fillSmall (data.countP isSmall) (packArrays i data).1 (done ++ List.replicate data.length [])
        (small ++ List.replicate data.length false) =
      some (done ++ data.map shortOnly, small ++ data.map isSmall) := by
  induction data generalizing i done small with
  | nil => rfl
  | cons sarray data ih =>
    obtain ⟨h, hrest⟩ := List.forall_mem_cons.mp hlen
    rw [List.length_cons] at hi ⊢
    rw [List.map_cons, List.map_cons, List.append_cons done, List.append_cons small]
    cases hs : isSmall sarray with
    | true =>
      have hnum : (done ++ List.replicate (data.length + 1) []).length = i + (data.length + 1) := by
        rw [List.length_append, List.length_replicate, hdone]
      rw [packArrays_small hs, List.countP_cons_of_pos hs,
        fillSmall_intBytes _ _ (by omega) (by omega) h, set_append_replicate hdone, set_append_replicate hsmall,
        shortOnly, if_pos hs]
      exact ih (by rw [List.length_append, hdone]; rfl) (by rw [List.length_append, hsmall]; rfl) (by omega) hrest
    | false =>
      rw [packArrays_large h hs, List.countP_cons_of_neg (by rw [hs]; decide), List.replicate_succ,
        List.replicate_succ, List.append_cons done, List.append_cons small, shortOnly,
        if_neg (by rw [hs]; decide)]
      exact ih (by rw [List.length_append, hdone]; rfl) (by rw [List.length_append, hsmall]; rfl) (by omega) hrest

theorem fillLarge_shortOnly :
    fillLarge (data.map shortOnly) (data.map isSmall) (data.filter fun sarray => !isSmall sarray) =
      some data := by
  induction data with
  | nil => rfl
  | cons sarray data ih =>
    cases hs : isSmall sarray with
    | true =>
      rw [List.filter_cons_of_neg (by rw [hs]; decide), List.map_cons, List.map_cons, hs, fillLarge, ih,
        shortOnly, hs]
      rfl
    | false =>
      rw [List.filter_cons_of_pos (by rw [hs]; decide), List.map_cons, List.map_cons, hs, fillLarge, ih]
      rfl

theorem receiveData_packArrays (hnum : data.length < 2 ^ 31) (hlen : ∀ sarray ∈ data, sarray.length < 2 ^ 31) :
    receiveData data.length (intBytes 4 (data.countP isSmall) ++ (packArrays 0 data).1) (packArrays 0 data).2 =
      some data := by
  have hcount : data.countP isSmall + (data.filter fun sarray => !isSmall sarray).length = data.length := by
    rw [← List.countP_eq_length_filter, List.length_eq_countP_add_countP isSmall]
    simp only [Bool.not_eq_true, Bool.decide_eq_false]
  have hle : data.countP isSmall < 2 ^ 31 := by omega
  have hcheck : ((data.countP isSmall : Int) + (data.filter fun sarray => !isSmall sarray).length) % 2 ^ 64 =
      data.length := by
    omega
  have hsmall : fillSmall (data.countP isSmall) (packArrays 0 data).1 (List.replicate data.length [])
      (List.replicate data.length false) = some (data.map shortOnly, data.map isSmall) :=
    fillSmall_packArrays List.length_nil List.length_nil (by omega) hlen
  rw [receiveData, readInt_intBytes (fitsInt_length hle), packArrays_tensors hlen]
  simp only [Option.bind_eq_bind, Option.bind_some, hcheck, guard_true, Option.pure_def, Int.toNat_natCast,
    hsmall, fillLarge_shortOnly]

/-! ### The message -/

theorem exists_unpackMeta {m : Meta} {qpNum : Nat} {b raw : Buf} (hlen : packedLen m < 2 ^ 31)
    (hraw : ∀ i < packedLen m, raw i = packMeta qpNum m b i) : ∃ m', unpackMeta raw (packedLen m) = some m' := by
  have hle : 288 ≤ packedLen m := by
    simp only [packedLen, RawMeta.size]
    omega
  have hload : ∀ p n, p + n ≤ 288 → raw.load p n = (packMeta qpNum m b).load p n := by
    intro p n hp
    exact load_congr fun i _ hi => hraw i (by omega)
  exact exists_unpackMeta_of_sizes hlen ((hload _ _ (by decide)).trans (load_packMeta_bodySize qpNum))
    ((hload _ _ (by decide)).trans (load_packMeta_dataTypeSize qpNum)) _

theorem receiveFromPipe_eq {rcv : TpVan} {tp : TpMessage} {sender metaSize dataSize : Int}
    {ptr₁ ptr₂ ptr₃ : List UInt8} {m : Meta} (h₁ : readInt tp.metadata = some (sender, ptr₁))
    (h₂ : readInt ptr₁ = some (metaSize, ptr₂)) (hsize : 0 ≤ metaSize ∧ metaSize ≤ ptr₂.length)
    (hm : unpackMeta (fun i => ptr₂.getD i 0) metaSize.toNat = some m)
    (h₃ : readInt (ptr₂.drop metaSize.toNat) = some (dataSize, ptr₃)) :
    rcv.receiveFromPipe tp =
      (if 0 < dataSize then receiveData dataSize.toNat ptr₃ tp.tensors else some []).map fun data =>
        { msgMeta := { m with sender := sender, recver := rcv.id }, data := data } := by
  rw [receiveFromPipe, h₁]
  simp only [Option.bind_eq_bind, Option.bind_some, h₂, hsize, and_self, guard_true, Option.pure_def, hm, h₃]
  split_ifs
  · rw [Option.map_eq_bind]
    rfl
  · rfl

theorem receiveFromPipe_packHeader (van rcv : TpVan) (qpNum : Nat) (b : Buf) (msg : ByteMessage)
    (rest : List UInt8) (tensors : List (List UInt8)) (hid : FitsInt 4 van.id)
    (hpacked : packedLen msg.msgMeta < 2 ^ 31) :
    ∃ raw m, (∀ i < packedLen msg.msgMeta, raw i = packMeta qpNum msg.msgMeta b i) ∧
      unpackMeta raw (packedLen msg.msgMeta) = some m ∧
      rcv.receiveFromPipe { metadata := van.packHeader qpNum b msg ++ rest, tensors := tensors } =
        (if 0 < (msg.data.length : Int).bmod (2 ^ 32) then
          receiveData ((msg.data.length : Int).bmod (2 ^ 32)).toNat rest tensors
        else some []).map fun data =>
          { msgMeta := { m with sender := van.id, recver := rcv.id }, data := data } := by
  have hdataSize := fitsInt_bmod (msg.data.length : Int)
  rw [packHeader]
  generalize (msg.data.length : Int).bmod (2 ^ 32) = dataSize at hdataSize ⊢
  have hmeta : ((packMeta qpNum msg.msgMeta b).load 0 (packedLen msg.msgMeta)).length = packedLen msg.msgMeta :=
    length_load
  have hraw : ∀ i < packedLen msg.msgMeta, ((packMeta qpNum msg.msgMeta b).load 0 (packedLen msg.msgMeta) ++
      (intBytes 4 dataSize ++ rest)).getD i 0 = packMeta qpNum msg.msgMeta b i := by
    intro i hi
    rw [List.getD_eq_getElem?_getD, List.getElem?_append_left (by rwa [hmeta]),
      List.getElem?_eq_getElem (by rwa [hmeta]), Option.getD_some]
    simp only [load, List.getElem_map, List.getElem_range, Nat.zero_add]
  obtain ⟨m, hm⟩ := exists_unpackMeta hpacked hraw
  refine ⟨_, m, hraw, hm, ?_⟩
  rw [List.append_assoc, List.append_assoc, List.append_assoc]
  refine receiveFromPipe_eq (readInt_intBytes hid _) (readInt_intBytes (fitsInt_length hpacked) _) ?_ hm ?_
  · rw [List.length_append, hmeta]
    omega
  · rw [Int.toNat_natCast, List.drop_left' hmeta]
    exact readInt_intBytes hdataSize rest

theorem sendMsg_eq {van : TpVan} {msg : ByteMessage} (qpNum : Nat) (b : Buf) (hto : msg.msgMeta.recver ≠ kEmpty)
    (hpipe : msg.msgMeta.recver ∈ van.sendPipes) (hpacked : packedLen msg.msgMeta < 2 ^ 31)
    (hnum : (msg.data.length : Int).bmod (2 ^ 32) ≠ 0 → msg.data.length < 2 ^ 31) :
    ∃ sendBytes, van.sendMsg qpNum b msg = some (sendBytes, some
      (if (msg.data.length : Int).bmod (2 ^ 32) ≠ 0 then
        ⟨van.packHeader qpNum b msg ++ (intBytes 4 (msg.data.countP isSmall) ++ (packArrays 0 msg.data).1),
          (packArrays 0 msg.data).2⟩
      else ⟨van.packHeader qpNum b msg ++ [], []⟩)) := by
  have hmeta := getPackMetaLen_eq hpacked
  unfold sendMsg
  generalize getPackMetaLen msg.msgMeta = metaSize at hmeta ⊢
  generalize (msg.data.length : Int).bmod (2 ^ 32) = dataSize at hnum ⊢
  generalize van.packHeader qpNum b msg = header
  rw [if_pos hpipe, guard, if_pos hto, guard, if_pos hmeta]
  by_cases hzero : dataSize = 0
  · rw [if_neg (not_not_intro hzero), if_neg (not_not_intro hzero), List.append_nil]
    exact ⟨_, rfl⟩
  · rw [if_pos hzero, if_pos hzero, ← List.append_assoc, guard, if_pos (hnum hzero)]
    exact ⟨_, rfl⟩

/-- A message whose number of arrays is 0 as an `int` arrives without arrays. -/
theorem receiveFromPipe_of_size_zero (van rcv : TpVan) (qpNum : Nat) (b : Buf) (msg : ByteMessage)
    (hid : FitsInt 4 van.id) (hto : msg.msgMeta.recver ≠ kEmpty) (hpipe : msg.msgMeta.recver ∈ van.sendPipes)
    (hpacked : packedLen msg.msgMeta < 2 ^ 31) (hsize : (msg.data.length : Int).bmod (2 ^ 32) = 0) :
    ∃ sendBytes tp raw m, van.sendMsg qpNum b msg = some (sendBytes, some tp) ∧
      (∀ i < packedLen msg.msgMeta, raw i = packMeta qpNum msg.msgMeta b i) ∧
      unpackMeta raw (packedLen msg.msgMeta) = some m ∧
      rcv.receiveFromPipe tp = some { msgMeta := { m with sender := van.id, recver := rcv.id }, data := [] } := by
  obtain ⟨sendBytes, hsend⟩ := sendMsg_eq qpNum b hto hpipe hpacked fun hne => absurd hsize hne
  obtain ⟨raw, m, hraw, hm, hrcv⟩ := receiveFromPipe_packHeader van rcv qpNum b msg [] [] hid hpacked
  rw [if_neg (not_not_intro hsize)] at hsend
  refine ⟨sendBytes, _, raw, m, hsend, hraw, hm, ?_⟩
  rw [hrcv, hsize, if_neg (by decide)]
  rfl

/-- The receiver gets the id of the sender, the meta that the packed bytes give and the arrays, in order. -/
theorem receiveFromPipe_sendMsg (van rcv : TpVan) (qpNum : Nat) (b : Buf) (msg : ByteMessage)
    (hid : FitsInt 4 van.id) (hto : msg.msgMeta.recver ≠ kEmpty) (hpipe : msg.msgMeta.recver ∈ van.sendPipes)
    (hpacked : packedLen msg.msgMeta < 2 ^ 31) (hnum : msg.data.length < 2 ^ 31)
    (hlen : ∀ sarray ∈ msg.data, sarray.length < 2 ^ 31) :
    ∃ sendBytes tp raw m, van.sendMsg qpNum b msg = some (sendBytes, some tp) ∧
      (∀ i < packedLen msg.msgMeta, raw i = packMeta qpNum msg.msgMeta b i) ∧
      unpackMeta raw (packedLen msg.msgMeta) = some m ∧
      rcv.receiveFromPipe tp =
        some { msgMeta := { m with sender := van.id, recver := rcv.id }, data := msg.data } := by
  have hsize : (msg.data.length : Int).bmod (2 ^ 32) = msg.data.length := Int.bmod_eq_of_le (by omega) (by omega)
  by_cases hzero : (msg.data.length : Int) = 0
  · have hnil : msg.data = [] := List.length_eq_zero_iff.mp (by omega)
    have hrcv := receiveFromPipe_of_size_zero van rcv qpNum b msg hid hto hpipe hpacked (hsize.trans hzero)
    rwa [← hnil] at hrcv
  · obtain ⟨sendBytes, hsend⟩ := sendMsg_eq qpNum b hto hpipe hpacked fun _ => hnum
    obtain ⟨raw, m, hraw, hm, hrcv⟩ := receiveFromPipe_packHeader van rcv qpNum b msg
      (intBytes 4 (msg.data.countP isSmall) ++ (packArrays 0 msg.data).1) (packArrays 0 msg.data).2 hid hpacked
    rw [hsize, if_pos hzero] at hsend
    refine ⟨sendBytes, _, raw, m, hsend, hraw, hm, ?_⟩
    rw [hrcv, hsize, if_pos (by omega), Int.toNat_natCast, receiveData_packArrays hnum hlen]
    rfl

/-- An empty array, a long one and a short one. -/
def sampleData : List (List UInt8) := [[], List.replicate 17 7, [1, 2, 3]]

theorem receiveFromPipe_sendMsg_sample : ∃ sendBytes tp raw m,
    sendMsg { id := 9, sendPipes := [8] } 2 (fun _ => 5) { msgMeta := { recver := 8 }, data := sampleData } =
        some (sendBytes, some tp) ∧
      (∀ i < 288, raw i = packMeta 2 { recver := 8 } (fun _ => 5) i) ∧ unpackMeta raw 288 = some m ∧
      receiveFromPipe { id := 8 } tp =
        some { msgMeta := { m with sender := 9, recver := 8 }, data := sampleData } :=
  receiveFromPipe_sendMsg { id := 9, sendPipes := [8] } { id := 8 } 2 (fun _ => 5)
    { msgMeta := { recver := 8 }, data := sampleData } (by decide) (by decide) (by decide) (by decide)
    (by decide) (by decide)

/-- So many arrays that their number is 0 as an `int`. -/
def manyArrays : List (List UInt8) := List.replicate (2 ^ 32) []

/-- None of them arrives. -/
theorem receiveFromPipe_many_arrays : ∃ sendBytes tp m,
    sendMsg { id := 9, sendPipes := [8] } 2 (fun _ => 0) { msgMeta := { recver := 8 }, data := manyArrays } =
        some (sendBytes, some tp) ∧
      receiveFromPipe { id := 8 } tp = some { msgMeta := m, data := [] } ∧
      manyArrays ≠ [] ∧ ∀ sarray ∈ manyArrays, sarray.length < 2 ^ 31 := by
  have hlen : manyArrays.length = 2 ^ 32 := List.length_replicate
  have hshort : ∀ sarray ∈ manyArrays, sarray.length < 2 ^ 31 := by
    intro sarray hmem
    rw [List.eq_of_mem_replicate hmem]
    decide
  -- nothing below may compute the list
  generalize manyArrays = data at hlen hshort
  have hsize : (data.length : Int).bmod (2 ^ 32) = 0 := by rw [hlen]; decide
  have hne : data ≠ [] := by
    rintro rfl
    cases hlen
  obtain ⟨sendBytes, tp, -, m, hsend, -, -, hrcv⟩ :=
    receiveFromPipe_of_size_zero { id := 9, sendPipes := [8] } { id := 8 } 2 (fun _ => 0)
      { msgMeta := { recver := 8 }, data := data } (show FitsInt 4 9 by decide)
      (show (8 : Int) ≠ kEmpty by decide) (List.mem_singleton_self 8)
      (show packedLen { recver := 8 } < 2 ^ 31 by decide) hsize
  exact ⟨sendBytes, tp, _, hsend, hrcv, hne, hshort⟩

end TpVan

end StepMesh
