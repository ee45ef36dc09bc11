import StepMesh.Lib.Run
import StepMesh.RdmaPayload
import StepMesh.Routing

/-!
# Registered receive buffers (`src/rdma_van.h`, `src/zmq_van.h`)

A server may register the buffer that the pushes of a worker on a key go to. The RDMA van appends to a list
per key and takes the first entry of the worker, when the rendezvous of the first push comes in; the ZMQ van
keeps a map in which a later registration replaces an earlier one, and looks it up at every push.
-/

namespace StepMesh

namespace RdmaVan

/-- `RegisterRecvBuffer`. -/
def registerRecvBuffer (van : RdmaVan) (msg : Message) : Option RdmaVan := do
  let van ← van.registerMemory msg
  let vals ← msg.data[1]?
  let key := decodeKey msg.keys
  return { van with
    registeredRecvBuffers := Function.update van.registeredRecvBuffers key
      (van.registeredRecvBuffers key ++ [(msg.msgMeta.sender, vals)]) }

end RdmaVan

/-- `registered_buffs_` of the ZMQ van: for a sender, the buffer of a key. -/
abbrev RegisteredBuffs := NodeId → Option (Key → Option SArray)

namespace RegisteredBuffs

/-- `RegisterRecvBuffer`. -/
def registerRecvBuffer (buffs : RegisteredBuffs) (msg : Message) : Option RegisteredBuffs := do
  guard (msg.data.length = 3)
  let key ← msg.keys.head?
  let val ← msg.data[1]?
  let sender := msg.msgMeta.sender
  return Function.update buffs sender
    (some (Function.update ((buffs sender).getD fun _ => none) key (some val)))

/-- The entry of a sender and a key. -/
def find (buffs : RegisteredBuffs) (sender : NodeId) (key : Key) : Option SArray := (buffs sender).bind (· key)

theorem find_update (buffs : RegisteredBuffs) (sender w : NodeId) (key k : Key) (val : SArray) :
    find (Function.update buffs sender
        (some (Function.update ((buffs sender).getD fun _ => none) key (some val)))) w k =
      if sender = w ∧ key = k then some val else buffs.find w k := by
  by_cases hw : sender = w
  · subst hw
    rw [find, Function.update_self, Option.bind_some]
    by_cases hk : key = k
    · rw [if_pos ⟨rfl, hk⟩, hk, Function.update_self]
    · rw [if_neg fun h => hk h.2, Function.update_of_ne (Ne.symm hk), find]
      cases buffs sender <;> rfl
  · rw [if_neg fun h => hw h.1, find, Function.update_of_ne (Ne.symm hw), find]

/-- The loop of `RecvMsg` over the parts of a message after its meta, from part `i` on; `keys` is what the
first of them holds. -/
def recvData (buffs : RegisteredBuffs) (sender : NodeId) (keys : List Key) : Nat → List SArray →
    Option (List SArray)
  | _, [] => some []
  | i, zmsg :: rest => do
    let data ← (if i = 1 ∧ zmsg.size ≠ 0 ∧ buffs sender ≠ none then do
        let key ← keys.head?
        match buffs.find sender key with
        | some val => do
          guard (val.size = zmsg.size)
          return val
        | none => some zmsg
      else some zmsg)
    return data :: (← recvData buffs sender keys (i + 1) rest)

end RegisteredBuffs

namespace RecvBuffers

/-- What happens at a server: a registration, or the rendezvous of the first push of a worker on a key. -/
inductive Action
  | register (workerId : NodeId) (keys : List Key) (vals : SArray) (lens : List Int)
  | push (workerId : NodeId) (req : RendezvousStart)

def rdmaStep (cfg : RdmaCfg) (van : RdmaVan) : Action → Option RdmaVan
  | .register workerId keys vals lens =>
    (KVServer.registerRecvBuffer_ workerId keys vals lens).bind van.registerRecvBuffer
  | .push workerId req => (van.sendRendezvousReply cfg workerId req).map (·.1)

/-- A message that is received changes no registration. -/
def zmqStep (buffs : RegisteredBuffs) : Action → Option RegisteredBuffs
  | .register workerId keys vals lens =>
    (KVServer.registerRecvBuffer_ workerId keys vals lens).bind buffs.registerRecvBuffer
  | .push .. => some buffs

/-- The registrations in their order: worker, key and buffer. -/
def registrations (as : List Action) : List (NodeId × Key × SArray) :=
  as.filterMap fun
    | .register workerId (key :: _) vals _ => some (workerId, key, vals)
    | _ => none

/-- The buffers registered for a worker and a key. -/
def buffersOf (as : List Action) (worker : NodeId) (key : Key) : List SArray :=
  (registrations as).filterMap fun r => if r.1 = worker ∧ r.2.1 = key then some r.2.2 else none

/-- The most recent one. -/
def latest (as : List Action) (worker : NodeId) (key : Key) : Option SArray :=
  (buffersOf as worker key).getLast?

/-! ### The messages -/

theorem registerRecvBuffer_msg {worker : NodeId} {keys : List Key} {vals : SArray} {lens : List Int}
    {msg : Message} (h : KVServer.registerRecvBuffer_ worker keys vals lens = some msg) :
    keys ≠ [] ∧ msg.keys = keys ∧ msg.msgMeta.sender = worker ∧ msg.msgMeta.push = true ∧
      msg.data = [{ size := 8 * keys.length }, vals, { size := 4 * lens.length }] := by
  obtain ⟨key, hkey, h⟩ := Option.bind_eq_some_iff.mp h
  obtain ⟨_, -, h⟩ := Option.bind_eq_some_iff.mp h
  obtain rfl := Option.some.inj h
  refine ⟨fun hnil => ?_, rfl, rfl, rfl, rfl⟩
  rw [hnil] at hkey
  cases hkey

theorem registrations_snoc_push (as : List Action) (worker : NodeId) (req : RendezvousStart) :
    registrations (as ++ [.push worker req]) = registrations as := by
  simp [registrations]

theorem registrations_snoc_register (as : List Action) (worker : NodeId) (key : Key) (keys : List Key)
    (vals : SArray) (lens : List Int) :
    registrations (as ++ [.register worker (key :: keys) vals lens]) =
      registrations as ++ [(worker, key, vals)] := by
  simp [registrations]

end RecvBuffers

/-! ### Registered memory -/

namespace RdmaVan

variable {van van' : RdmaVan}

/-- Registrations are numbered from 1. -/
structure MrsOk (van : RdmaVan) : Prop where
  count : 0 < van.mrCount
  rkey : ∀ addr mr, van.memMr addr = some mr → mr.1.rkey ≠ 0

/-- What is registered stays so. -/
def MrsMono (van van' : RdmaVan) : Prop := ∀ addr, van.memMr addr ≠ none → van'.memMr addr ≠ none

theorem MrsOk.register (h : van.MrsOk) (addr length : Nat) :
    (van.register addr length).MrsOk ∧ MrsMono van (van.register addr length) := by
  unfold RdmaVan.register
  split_ifs
  · refine ⟨⟨Nat.succ_pos _, fun a mr hmr => ?_⟩, fun a ha => ?_⟩
    · rcases eq_or_ne a addr with rfl | hne
      · simp only [Function.update_self, Option.some.injEq] at hmr
        rw [← hmr]
        exact h.count.ne'
      · exact h.rkey a mr ((Function.update_of_ne hne _ _).symm.trans hmr)
    · rcases eq_or_ne a addr with rfl | hne
      · exact fun hnone => by simp at hnone
      · exact fun hnone => ha ((Function.update_of_ne hne _ _).symm.trans hnone)
  · exact ⟨h, fun _ ha => ha⟩

theorem MrsOk.registerData (h : van.MrsOk) (c : Nat) (data : List SArray) :
    (van.registerData c data).MrsOk ∧ MrsMono van (van.registerData c data) := by
  induction data generalizing van c with
  | nil => exact ⟨h, fun _ ha => ha⟩
  | cons sa data ih =>
    rw [RdmaVan.registerData]
    split_ifs
    · exact ih h c
    · obtain ⟨hreg, hmono⟩ := h.register sa.ptr sa.size
      obtain ⟨hok, hmono'⟩ := ih hreg (c + 1)
      exact ⟨hok, fun a ha => hmono' a (hmono a ha)⟩
    · exact ih h (c + 1)

theorem registerRecvBuffer_eq_some {worker : NodeId} {keys : List Key} {key : Key} {vals : SArray}
    {lens : List Int} {msg : Message}
    (hmsg : KVServer.registerRecvBuffer_ worker (key :: keys) vals lens = some msg)
    (h : van.registerRecvBuffer msg = some van') :
    van'.registeredRecvBuffers = Function.update van.registeredRecvBuffers key
        (van.registeredRecvBuffers key ++ [(worker, vals)]) ∧
      van'.memMr = (van.registerData 0 msg.data).memMr ∧
      van'.mrCount = (van.registerData 0 msg.data).mrCount ∧ van'.isServer = van.isServer := by
  obtain ⟨-, hkeys, hsender, hpush, hdata⟩ := RecvBuffers.registerRecvBuffer_msg hmsg
  have hreg : van.registerMemory msg = some (van.registerData 0 msg.data) := by
    simp [registerMemory, hpush]
  obtain ⟨memMr, mrCount, hsame⟩ := sameButMrs_registerData van 0 msg.data
  have hbufs : (van.registerData 0 msg.data).registeredRecvBuffers = van.registeredRecvBuffers := by rw [hsame]
  have hserver : (van.registerData 0 msg.data).isServer = van.isServer := by rw [hsame]
  obtain ⟨_, hreg', h⟩ := Option.bind_eq_some_iff.mp h
  obtain rfl := Option.some.inj (hreg.symm.trans hreg')
  obtain ⟨_, hvals, h⟩ := Option.bind_eq_some_iff.mp h
  obtain rfl := Option.some.inj ((congrArg (·[1]?) hdata).symm.trans hvals)
  obtain rfl := Option.some.inj h
  refine ⟨?_, rfl, rfl, hserver⟩
  show Function.update _ (decodeKey msg.keys) _ = _
  rw [hkeys, hsender, decodeKey_cons, hbufs]

end RdmaVan

namespace RecvBuffers

variable {cfg : RdmaCfg} {id worker : NodeId} {key : Key} {as : List Action} {van : RdmaVan}
  {buffs : RegisteredBuffs}

/-- The lists of an RDMA van are the registrations, and every buffer of at least a byte is in a memory
region. -/
structure RdmaInv (as : List Action) (van : RdmaVan) : Prop where
  lists : ∀ key, van.registeredRecvBuffers key =
    (registrations as).filterMap fun r => if r.2.1 = key then some (r.1, r.2.2) else none
  inRegion : ∀ r ∈ registrations as, r.2.2.size ≠ 0 → van.memMr r.2.2.ptr ≠ none
  mrs : van.MrsOk
  server : van.isServer = true

theorem RdmaInv.register {van' : RdmaVan} {keys : List Key} {vals : SArray} {lens : List Int}
    (h : RdmaInv as van) (hs : rdmaStep cfg van (.register worker keys vals lens) = some van') :
    RdmaInv (as ++ [.register worker keys vals lens]) van' := by
  obtain ⟨msg, hmsg, hreg⟩ := Option.bind_eq_some_iff.mp hs
  obtain ⟨hne, -, -, -, hdata⟩ := registerRecvBuffer_msg hmsg
  obtain ⟨key, keys, rfl⟩ := List.exists_cons_of_ne_nil hne
  obtain ⟨hbufs, hmem, hcount, hserver⟩ := RdmaVan.registerRecvBuffer_eq_some hmsg hreg
  obtain ⟨hok, hmono⟩ := h.mrs.registerData 0 msg.data
  refine ⟨fun k => ?_, ?_, ⟨hcount ▸ hok.count, hmem ▸ hok.rkey⟩, hserver.trans h.server⟩
  · rw [hbufs, registrations_snoc_register, List.filterMap_append]
    rcases eq_or_ne k key with rfl | hk
    · simp [h.lists k]
    · simp [hk, hk.symm, h.lists k]
  · rw [registrations_snoc_register, hmem]
    intro r hr hsize
    rcases List.mem_append.mp hr with hr | hr
    · exact hmono _ (h.inRegion r hr hsize)
    · rw [List.mem_singleton] at hr
      subst hr
      rw [hdata]
      exact RdmaVan.registerData_memMr (by simp) hsize

theorem RdmaInv.push {van' : RdmaVan} {req : RendezvousStart} (h : RdmaInv as van)
    (hs : rdmaStep cfg van (.push worker req) = some van') : RdmaInv (as ++ [.push worker req]) van' := by
  obtain ⟨⟨_, out⟩, hreply, rfl⟩ := Option.map_eq_some_iff.mp hs
  obtain ⟨_, _, _, -, -, -, -, -, -, ⟨_, _, rfl⟩, -⟩ := RdmaVan.sendRendezvousReply_eq_some hreply
  refine ⟨?_, ?_, ⟨h.mrs.count, h.mrs.rkey⟩, h.server⟩
  · rw [registrations_snoc_push]
    exact h.lists
  · rw [registrations_snoc_push]
    exact h.inRegion

theorem rdmaInv_exec (h : Run.exec (rdmaStep cfg) (.init cfg id true) as = some van) : RdmaInv as van := by
  refine Run.exec_invariant_of_inputs RdmaInv
    ⟨fun _ => rfl, fun _ hr => (by cases hr), ⟨Nat.zero_lt_one, fun _ _ h => (by cases h)⟩, rfl⟩ ?_ h
  intro as a van van' hinv hs
  cases a with
  | register => exact hinv.register hs
  | push => exact hinv.push hs

theorem buffersOf_snoc_register (as : List Action) (w worker : NodeId) (k key : Key) (keys : List Key)
    (vals : SArray) (lens : List Int) :
    buffersOf (as ++ [.register worker (key :: keys) vals lens]) w k =
      buffersOf as w k ++ if worker = w ∧ key = k then [vals] else [] := by
  rw [buffersOf, registrations_snoc_register, List.filterMap_append, buffersOf]
  split_ifs with h <;> simp [h]

theorem find_exec (h : Run.exec zmqStep (fun _ => none) as = some buffs) (w : NodeId) (k : Key) :
    buffs.find w k = latest as w k := by
  refine Run.exec_invariant_of_inputs (fun as buffs => ∀ w k, RegisteredBuffs.find buffs w k = latest as w k)
    (fun _ _ => rfl) ?_ h w k
  intro as a buffs buffs' hinv hs w k
  cases a with
  | push worker req =>
    obtain rfl := Option.some.inj hs
    rw [latest, buffersOf, registrations_snoc_push]
    exact hinv w k
  | register worker keys vals lens =>
    obtain ⟨msg, hmsg, hreg⟩ := Option.bind_eq_some_iff.mp hs
    obtain ⟨hne, hkeys, hsender, -, hdata⟩ := registerRecvBuffer_msg hmsg
    obtain ⟨key, keys, rfl⟩ := List.exists_cons_of_ne_nil hne
    obtain ⟨_, -, hreg⟩ := Option.bind_eq_some_iff.mp hreg
    rw [hkeys, hdata, hsender] at hreg
    obtain rfl := Option.some.inj hreg
    rw [RegisteredBuffs.find_update, latest, buffersOf_snoc_register]
    split_ifs
    · exact List.getLast?_concat.symm
    · rw [List.append_nil]
      exact hinv w k

theorem find_list (rs : List (NodeId × Key × SArray)) (worker : NodeId) (key : Key) :
    (rs.filterMap fun r => if r.2.1 = key then some (r.1, r.2.2) else none).find? (·.1 = worker) =
      (rs.filterMap fun r => if r.1 = worker ∧ r.2.1 = key then some r.2.2 else none).head?.map (worker, ·) := by
  induction rs with
  | nil => rfl
  | cons r rs ih =>
    by_cases hk : r.2.1 = key
    · by_cases hw : r.1 = worker
      · simp [hk, hw]
      · simp [hk, hw, ih]
    · simp [hk, ih]

/-- Every registered buffer is at an address and has a byte, and no pair has two different ones. -/
def Settled (as : List Action) : Prop :=
  ∀ worker key, ∀ sa ∈ buffersOf as worker key, sa.ptr ≠ 0 ∧ sa.size ≠ 0 ∧ ∀ sb ∈ buffersOf as worker key, sb = sa

theorem mem_buffersOf_of_latest {sa : SArray} (h : latest as worker key = some sa) :
    sa ∈ buffersOf as worker key := List.mem_of_getLast? h

theorem Settled.head_eq_latest (h : Settled as) (worker : NodeId) (key : Key) :
    (buffersOf as worker key).head? = latest as worker key := by
  rcases hl : latest as worker key with _ | sb
  · rw [List.getLast?_eq_none_iff.mp hl]
    rfl
  · have hsb := mem_buffersOf_of_latest hl
    obtain ⟨sa, rest, hb⟩ := List.exists_cons_of_ne_nil (List.ne_nil_of_mem hsb)
    rw [(h worker key sa (hb ▸ List.mem_cons_self)).2.2 sb hsb, hb]
    rfl

theorem RdmaInv.query (h : RdmaInv as van) (hset : Settled as) (worker : NodeId) (key : Key) :
    (latest as worker key = none → van.queryRecvBuffer key worker = some none) ∧
    ∀ sa, latest as worker key = some sa →
      ∃ rkey, rkey ≠ 0 ∧ van.queryRecvBuffer key worker = some (some (sa, rkey)) := by
  have hfind : (van.registeredRecvBuffers key).find? (·.1 = worker) =
      (latest as worker key).map (worker, ·) := by
    rw [h.lists, find_list, ← hset.head_eq_latest]
    rfl
  constructor
  · intro hnone
    rw [RdmaVan.queryRecvBuffer, hfind, hnone]
    rfl
  · intro sa hsa
    obtain ⟨r, hr, hrsa⟩ := List.mem_filterMap.mp (mem_buffersOf_of_latest hsa)
    obtain rfl : r.2.2 = sa := by
      split_ifs at hrsa
      exact Option.some.inj hrsa
    obtain ⟨mr, hmr⟩ := Option.ne_none_iff_exists'.mp
      (h.inRegion r hr (hset worker key _ (mem_buffersOf_of_latest hsa)).2.1)
    refine ⟨mr.1.rkey, h.mrs.rkey _ mr hmr, ?_⟩
    rw [RdmaVan.queryRecvBuffer, hfind, hsa, Option.map_some]
    show (van.memMr r.2.2.ptr).map _ = _
    rw [hmr]
    rfl

/-- A push of a worker with a registered buffer is answered with that buffer. -/
theorem dataBuffer_of_query {cfg : RdmaCfg} {sa : SArray} {req : RendezvousStart} {size rkey : Nat} (hkey : rkey ≠ 0)
    (hquery : van.queryRecvBuffer req.key worker = some (some (sa, rkey))) (hptr : sa.ptr ≠ 0)
    (hlen : req.dataLen[1]? = some size) (hsum : req.dataLen.sum ≠ 0) :
    van.dataBuffer cfg worker req = if size ≤ sa.size then some (sa.ptr, van) else none := by
  simp only [RdmaVan.dataBuffer, if_neg hsum, hlen, hquery, Option.bind_eq_bind, Option.bind_some, if_neg hptr]
  split_ifs with hle <;> simp [guard, hle, hkey]

/-- The loop of `RecvMsg` puts the values of a message into the buffer of its sender and key. -/
theorem recvData_of_find {sa k v : SArray} {rest data : List SArray} {keys : List Key}
    (hfind : buffs.find worker key = some sa) (hv : v.size ≠ 0)
    (h : buffs.recvData worker (key :: keys) 0 (k :: v :: rest) = some data) :
    data[1]? = some sa ∧ v.size = sa.size := by
  have hsome : buffs worker ≠ none := by
    intro hnone
    rw [RegisteredBuffs.find, hnone] at hfind
    cases hfind
  have hskip : ¬(0 = 1 ∧ k.size ≠ 0 ∧ buffs worker ≠ none) := fun h => absurd h.1 (by decide)
  simp only [RegisteredBuffs.recvData, if_neg hskip, List.head?_cons, hfind, Option.bind_eq_bind,
    Option.bind_some] at h
  obtain ⟨_, h, hdata⟩ := Option.bind_eq_some_iff.mp h
  obtain ⟨_, hval, h⟩ := Option.bind_eq_some_iff.mp h
  rw [if_pos ⟨trivial, hv, hsome⟩] at hval
  obtain ⟨_, hg, hval⟩ := Option.bind_eq_some_iff.mp hval
  obtain ⟨_, -, h⟩ := Option.bind_eq_some_iff.mp h
  obtain rfl := Option.some.inj hval
  obtain rfl := Option.some.inj h
  obtain rfl := Option.some.inj hdata
  exact ⟨rfl, ((Option.guard_eq_some' _).mp hg).symm⟩

/-- At a GDR server, after any registrations none of which gives a pair another buffer than it has, and any
first pushes in between: the lookups of both vans find the most recently registered buffer, or none if there
is none, and a push of the pair goes to it. -/
theorem recv_buffer_latest (cfg : RdmaCfg) (hgdr : cfg.gdr = true) (id : NodeId) (as : List Action)
    (van : RdmaVan) (buffs : RegisteredBuffs) (hset : Settled as)
    (hrdma : Run.exec (rdmaStep cfg) (.init cfg id true) as = some van)
    (hzmq : Run.exec zmqStep (fun _ => none) as = some buffs) (worker : NodeId) (key : Key) :
    (∃ found, van.queryRecvBuffer key worker = some found ∧ found.map Prod.fst = latest as worker key) ∧
    buffs.find worker key = latest as worker key ∧
    ∀ sa, latest as worker key = some sa →
      (∀ (req : RendezvousStart) (size : Nat), req.key = key → req.dataLen[1]? = some size → req.dataLen.sum ≠ 0 →
        van.dataBuffer cfg worker req = if size ≤ sa.size then some (sa.ptr, van) else none) ∧
      (∀ (req : RendezvousStart) van' out, req.key = key → 2 ≤ req.dataLen.length → req.dataLen.sum ≠ 0 →
        van.sendRendezvousReply cfg worker req = some (van', out) →
        ∃ resp, out = [(0, .rendezvousReply resp)] ∧ resp.dataAddr = sa.ptr) ∧
      ∀ k v rest keys data, v.size ≠ 0 →
        buffs.recvData worker (key :: keys) 0 (k :: v :: rest) = some data →
        data[1]? = some sa ∧ v.size = sa.size := by
  have hinv := rdmaInv_exec hrdma
  have hfind := find_exec hzmq worker key
  obtain ⟨hnone, hsome⟩ := hinv.query hset worker key
  refine ⟨?_, hfind, fun sa hsa => ?_⟩
  · rcases hl : latest as worker key with _ | sa
    · exact ⟨none, hnone hl, rfl⟩
    · obtain ⟨rkey, -, hq⟩ := hsome sa hl
      exact ⟨some (sa, rkey), hq, rfl⟩
  obtain ⟨rkey, hrkey, hquery⟩ := hsome sa hsa
  have hptr := (hset worker key sa (mem_buffersOf_of_latest hsa)).1
  refine ⟨?_, ?_, fun k v rest keys data hv hdata => recvData_of_find (hfind.trans hsa) hv hdata⟩
  · rintro req size rfl hlen hsum
    exact dataBuffer_of_query hrkey hquery hptr hlen hsum
  · rintro req van' out rfl hlen hsum hreply
    obtain ⟨_, -, hreply⟩ := Option.bind_eq_some_iff.mp hreply
    obtain ⟨⟨dataAddr, van₁⟩, hdata, hreply⟩ := Option.bind_eq_some_iff.mp hreply
    obtain ⟨⟨idx, pool⟩, -, hreply⟩ := Option.bind_eq_some_iff.mp hreply
    obtain ⟨-, rfl⟩ := Prod.mk.inj (Option.some.inj hreply)
    have hdata : van.alloc.2.dataBuffer cfg worker req = some (dataAddr, van₁) :=
      (if_pos (by simp [hgdr, hinv.server])).symm.trans hdata
    have hquery : van.alloc.2.queryRecvBuffer req.key worker = some (some (sa, rkey)) := hquery
    rw [dataBuffer_of_query hrkey hquery hptr (List.getElem?_eq_getElem hlen) hsum] at hdata
    split_ifs at hdata
    obtain ⟨rfl, -⟩ := Prod.mk.inj (Option.some.inj hdata)
    exact ⟨_, rfl, rfl⟩

/-- A buffer for worker 9 on key 5. -/
theorem recv_buffer_latest_one : ∃ van buffs,
    Run.exec (rdmaStep ⟨true, false, 2, 4096, 16, 2 ^ 48, true⟩) (.init ⟨true, false, 2, 4096, 16, 2 ^ 48, true⟩ 8 true)
      [.register 9 [5] { ptr := 4096, size := 64 } [64]] = some van ∧
    Run.exec zmqStep (fun _ => none) [.register 9 [5] { ptr := 4096, size := 64 } [64]] = some buffs ∧
    buffs.find 9 5 = latest [.register 9 [5] { ptr := 4096, size := 64 } [64]] 9 5 := by
  have hset : Settled [.register 9 [5] { ptr := 4096, size := 64 } [64]] := by
    intro w k sa hsa
    have hof := buffersOf_snoc_register [] w 9 k 5 [] { ptr := 4096, size := 64 } [64]
    rw [List.nil_append] at hof
    rw [hof] at hsa ⊢
    simp only [buffersOf, registrations, List.filterMap_nil, List.nil_append] at hsa ⊢
    split_ifs at hsa ⊢
    · obtain rfl := List.mem_singleton.mp hsa
      exact ⟨by decide, by decide, fun sb hsb => List.mem_singleton.mp hsb⟩
    · cases hsa
  exact ⟨_, _, rfl, rfl,
    (recv_buffer_latest ⟨true, false, 2, 4096, 16, 2 ^ 48, true⟩ rfl 8 _ _ _ hset rfl rfl 9 5).2.1⟩

/-- The buffer of a pair is registered again: a push to the RDMA van still goes to the first one. -/
theorem first_registered_wins :
    let cfg : RdmaCfg := ⟨true, false, 2, 4096, 16, 2 ^ 48, true⟩
    let as : List Action := [.register 9 [5] { ptr := 4096, size := 64 } [64],
      .register 9 [5] { ptr := 8192, size := 64 } [64]]
    latest as 9 5 = some { ptr := 8192, size := 64 } ∧
    ((Run.exec (rdmaStep cfg) (.init cfg 8 true) as).bind (·.queryRecvBuffer 5 9)).map (·.map Prod.fst) =
      some (some { ptr := 4096, size := 64 }) ∧
    ((Run.exec (rdmaStep cfg) (.init cfg 8 true) as).bind (·.dataBuffer cfg 9 ⟨300, [8, 64, 4], 0, 5⟩)).map Prod.fst =
      some 4096 ∧
    (Run.exec zmqStep (fun _ => none) as).map (·.find 9 5) = some (some { ptr := 8192, size := 64 }) := by
  decide +kernel

end RecvBuffers

end StepMesh
