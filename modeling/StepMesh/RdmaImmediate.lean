import Mathlib.Data.Nat.ModEq
import StepMesh.Lib.Run
import StepMesh.RdmaNet
import StepMesh.RdmaVanSpec

/-!
# Immediates (`src/rdma_van.h`, `src/rdma_transport.h`, `src/van_common.h`)

A main write tells the receiver the index of its buffer in the address pool, a chunk of a slave queue pair
the same index with bit 15 set; `PollCQ` looks at that bit first. So a pool may have no index with that bit.
-/

namespace StepMesh

namespace AddressPool

variable {α : Type*} {n : Nat} {pool : AddressPool α}

/-- `StoreAddress`, whichever index it returns. -/
def store (pool : AddressPool α) (p : α) : Option (AddressPool α) := (pool.storeAddress p).map (·.2)

theorem lt_of_stored {ps : List α} (h : Run.exec store (init n) ps = some pool) :
    (∀ idx ∈ pool.indices, idx < n) ∧ ∀ idx, pool.getAddress idx ≠ none → idx < n := by
  refine Run.exec_invariant (fun pool => (∀ idx ∈ pool.indices, idx < n) ∧
      ∀ idx, pool.getAddress idx ≠ none → idx < n) ?_
    ⟨fun idx h => List.mem_range.mp h, fun idx h => absurd rfl h⟩ h
  rintro pool p pool' ⟨hfree, hused⟩ hs
  obtain ⟨⟨idx, pool'⟩, hstore, rfl⟩ := Option.map_eq_some_iff.mp hs
  obtain ⟨rest, hind, -, rfl⟩ := storeAddress_eq_some.mp hstore
  refine ⟨fun i hi => hfree i (hind ▸ List.mem_cons_of_mem idx hi), fun i hi => ?_⟩
  rcases eq_or_ne i idx with rfl | hne
  · exact hfree i (hind ▸ List.mem_cons_self)
  · refine hused i fun hnone => hi ?_
    exact (Function.update_of_ne hne _ _).trans hnone

theorem exec_store_replicate (n : Nat) (p : α) : ∀ k ≤ n, Run.exec store (init n) (List.replicate k p) =
    some { table := fun idx => if idx < k then some p else none, indices := List.range' k (n - k) }
  | 0, _ => by simp [init, List.range_eq_range']
  | k + 1, hk => by
    rw [List.replicate_succ', Run.exec_snoc_eq_some]
    refine ⟨_, exec_store_replicate n p k (by omega), ?_⟩
    have hind : List.range' k (n - k) = k :: List.range' (k + 1) (n - (k + 1)) := by
      rw [show n - k = n - (k + 1) + 1 by omega, List.range'_succ]
    rw [store, storeAddress_eq_some.mpr ⟨_, hind, if_neg (Nat.lt_irrefl k), rfl⟩, Option.map_some]
    refine congrArg some (congrArg (AddressPool.mk · _) (funext fun idx => ?_))
    rcases eq_or_ne idx k with rfl | hne
    · simp
    · rw [Function.update_of_ne hne]
      exact if_congr (by omega) rfl rfl

end AddressPool

namespace RdmaVan

/-- A work request that is posted for message `uid` to the buffer of a tuple. -/
def Posts (t : RemoteTuple) (uid : Nat) (wr : WorkRequest) : Prop :=
  (∃ (cfg : RdmaCfg) (van : RdmaVan) (ep : NodeId) (dst : RemoteAddr) (src len q : Nat),
    (q, wr) ∈ (van.writePayload cfg ep t dst src len uid).2) ∨
  ∃ van : RdmaVan, wr = (van.rdmaWriteWithImm t uid).2

/-- A work request of a peer arrives at the endpoint of the peer, whose memory is `ram`. -/
structure Arrival where
  ep : NodeId
  ram : Buf
  t : RemoteTuple
  uid : Nat
  wr : WorkRequest
  posts : Posts t uid wr

namespace Arrival

/-- The notification of a main write names the buffer that the index of the tuple stands for. -/
def notification (pool : AddressPool BufferContext) (a : Arrival) : Option Notification :=
  match a.wr with
  | .writeImm .. => (pool.getAddress a.t.idx).map (⟨a.ep, ·, 0, a.uid⟩)
  | _ => none

def isChunk (a : Arrival) : Bool :=
  match a.wr with
  | .writeChunkImm .. => true
  | _ => false

end Arrival

/-- The adapter carries out the request, and `PollCQ` takes its completion. -/
def pollArrival (cfg : RdmaCfg) (van : RdmaVan) (a : Arrival) : Option RdmaVan :=
  match van.receive a.ram a.wr with
  | (van, none) => some van
  | (van, some wc) => (van.pollCQ cfg a.ep wc).map (·.1)

theorem Posts.cases {t : RemoteTuple} {uid : Nat} {wr : WorkRequest} (h : Posts t uid wr) :
    (∃ dst src len, wr = .write dst src len) ∨ (∃ dst bytes, wr = .writeImm dst bytes t.idx uid) ∨
      ∃ dst src len, wr = .writeChunkImm dst src len (t.idx ||| 0x8000) := by
  rcases h with ⟨cfg, van, ep, dst, src, len, q, h⟩ | ⟨van, rfl⟩
  · unfold writePayload at h
    split_ifs at h
    · rcases List.mem_append.mp h with h | h
      · rcases List.mem_cons.mp h with h | h
        · exact .inl ⟨_, _, _, (Prod.mk.inj h).2⟩
        · exact .inr (.inl ⟨_, _, (Prod.mk.inj (List.mem_singleton.mp h)).2⟩)
      · obtain ⟨k, -, h⟩ := List.mem_map.mp h
        exact .inr (.inr ⟨_, _, _, (Prod.mk.inj h).2.symm⟩)
    · rcases List.mem_cons.mp h with h | h
      · exact .inl ⟨_, _, _, (Prod.mk.inj h).2⟩
      · exact .inr (.inl ⟨_, _, (Prod.mk.inj (List.mem_singleton.mp h)).2⟩)
  · exact .inr (.inl ⟨_, _, rfl⟩)

/-- What an arrival has done: the buffer is still announced, a main write is in the queue once, a chunk is
counted once. -/
structure Decoded (van van' : RdmaVan) (as : List Arrival) : Prop where
  addrPool : van'.addrPool = van.addrPool
  recvBuffers : van'.recvBuffers = van.recvBuffers ++ as.filterMap (·.notification van.addrPool)
  counted : ∀ ep, van'.incomingPktCount ep 1 ≡
    van.incomingPktCount ep 1 + as.countP (fun a => a.ep = ep ∧ a.isChunk) [MOD 2 ^ 64]

theorem writeAt_frame (van : RdmaVan) (dst : RemoteAddr) (bs : List UInt8) :
    (van.writeAt dst bs).addrPool = van.addrPool ∧ (van.writeAt dst bs).recvBuffers = van.recvBuffers ∧
      (van.writeAt dst bs).incomingPktCount = van.incomingPktCount := by
  cases dst <;> exact ⟨rfl, rfl, rfl⟩

variable {cfg : RdmaCfg} {van van' van'' : RdmaVan}

theorem Decoded.refl (van : RdmaVan) : Decoded van van [] := ⟨rfl, (List.append_nil _).symm, fun _ => rfl⟩

theorem Decoded.trans {as bs : List Arrival} (h : Decoded van van' as) (h' : Decoded van' van'' bs) :
    Decoded van van'' (as ++ bs) where
  addrPool := h'.addrPool.trans h.addrPool
  recvBuffers := by
    rw [h'.recvBuffers, h.recvBuffers, h.addrPool, List.filterMap_append, List.append_assoc]
  counted ep := by
    rw [List.countP_append, ← Nat.add_assoc]
    exact (h'.counted ep).trans ((h.counted ep).add_right _)

/-- A main write to a buffer whose index is without the bit, or any chunk, is taken for what it is. -/
theorem decoded_pollArrival (cfg : RdmaCfg) (van : RdmaVan) {a : Arrival} (hbit : a.t.idx < 0x8000)
    (hstored : van.addrPool.getAddress a.t.idx ≠ none) :
    ∃ van', van.pollArrival cfg a = some van' ∧ Decoded van van' [a] := by
  obtain ⟨ep, ram, t, uid, wr, posts⟩ := a
  obtain ⟨ctx, hctx⟩ := Option.ne_none_iff_exists'.mp hstored
  rcases posts.cases with ⟨dst, src, len, rfl⟩ | ⟨dst, bytes, rfl⟩ | ⟨dst, src, len, rfl⟩
  · obtain ⟨hpool, hbufs, hcount⟩ := van.writeAt_frame dst (ram.load src len)
    exact ⟨_, rfl, hpool, by simp [hbufs, Arrival.notification], fun ep' => by
      simp [hcount, Arrival.isChunk, Nat.ModEq]⟩
  · obtain ⟨hpool, hbufs, hcount⟩ := van.writeAt_frame (.buffer dst 0) bytes
    have hcmd : ((t.idx &&& 0xFFFF) >>> 16) &&& 0xFFFF = 0 := by
      rw [Nat.shiftRight_eq_div_pow, Nat.div_eq_of_lt (Nat.and_lt_two_pow _ (by decide))]
      rfl
    refine ⟨{ van.writeAt (.buffer dst 0) bytes with
      recvBuffers := van.recvBuffers ++ [⟨ep, ctx, 0, uid⟩] }, ?_, hpool, ?_, fun ep' => ?_⟩
    · simp only [pollArrival, receive, pollCQ, recvImm, and_bit15_of_lt hbit, if_true, hpool, hbufs, hcmd]
      rw [show van.addrPool.getAddress t.idx = some ctx from hctx]
      rfl
    · simp [Arrival.notification, show van.addrPool.getAddress t.idx = some ctx from hctx]
    · simp [hcount, Arrival.isChunk, Nat.ModEq]
  · obtain ⟨hpool, hbufs, hcount⟩ := van.writeAt_frame dst (ram.load src len)
    refine ⟨{ van.writeAt dst (ram.load src len) with
      incomingPktCount := Function.update van.incomingPktCount ep
        (Function.update (van.incomingPktCount ep) 1 ((van.incomingPktCount ep 1 + 1) % 2 ^ 64)) },
      ?_, hpool, ?_, fun ep' => ?_⟩
    · simp only [pollArrival, receive, pollCQ, recvImm, if_neg (or_and_bit15 t.idx), hcount, Option.map_some]
    · simp [hbufs, Arrival.notification]
    · rcases eq_or_ne ep' ep with rfl | hne
      · simp [Arrival.isChunk, Nat.ModEq]
      · simp [Arrival.isChunk, Nat.ModEq, hne, hne.symm]

theorem decoded_exec (cfg : RdmaCfg) {as : List Arrival} (hbit : ∀ a ∈ as, a.t.idx < 0x8000)
    (hstored : ∀ a ∈ as, van.addrPool.getAddress a.t.idx ≠ none) :
    ∃ van', Run.exec (pollArrival cfg) van as = some van' ∧ Decoded van van' as := by
  induction as using List.reverseRecOn with
  | nil => exact ⟨van, rfl, .refl van⟩
  | append_singleton as a ih =>
    obtain ⟨van', hexec, hdec⟩ := ih (fun b hb => hbit b (List.mem_append_left _ hb))
      (fun b hb => hstored b (List.mem_append_left _ hb))
    have hmem : a ∈ as ++ [a] := List.mem_append_right _ (List.mem_singleton_self a)
    obtain ⟨van'', ha, hdec'⟩ := decoded_pollArrival cfg van' (hbit a hmem)
      (hdec.addrPool.symm ▸ hstored a hmem)
    exact ⟨van'', Run.exec_snoc_eq_some.mpr ⟨van', hexec, ha⟩, hdec.trans hdec'⟩

/-- A main write to the buffer of a tuple. -/
def mainWrite (ep : NodeId) (t : RemoteTuple) (uid : Nat) : Arrival where
  ep := ep
  ram := fun _ => 0
  t := t
  uid := uid
  wr := ((init ⟨false, true, 2, 4096, 10240, 0, true⟩ ep false).rdmaWriteWithImm t uid).2
  posts := .inr ⟨_, rfl⟩

theorem pollArrival_mainWrite (cfg : RdmaCfg) (van : RdmaVan) (ep : NodeId) {t : RemoteTuple} (uid : Nat)
    (hbit : t.idx &&& 0x8000 ≠ 0) : ∃ van', van.pollArrival cfg (mainWrite ep t uid) = some van' ∧
      van'.recvBuffers = van.recvBuffers ∧
      van'.incomingPktCount ep 1 = (van.incomingPktCount ep 1 + 1) % 2 ^ 64 := by
  obtain ⟨bytes, hwr⟩ : ∃ bytes, (mainWrite ep t uid).wr = .writeImm t.metaAddr bytes t.idx uid := ⟨_, rfl⟩
  refine ⟨{ van.writeAt (.buffer t.metaAddr 0) bytes with
    incomingPktCount := Function.update van.incomingPktCount ep
      (Function.update (van.incomingPktCount ep) 1 ((van.incomingPktCount ep 1 + 1) % 2 ^ 64)) }, ?_, rfl, ?_⟩
  · simp only [pollArrival, hwr, receive, pollCQ, recvImm, if_neg hbit, Option.map_some]
    rfl
  · simp only [Function.update_self]

theorem exists_announced (poolSize idx : Nat) (h : idx < poolSize) :
    ∃ (ctxs : List BufferContext) (van : RdmaVan),
      Run.exec AddressPool.store (.init poolSize) ctxs = some van.addrPool ∧
      van.addrPool.getAddress idx ≠ none := by
  let ctx : BufferContext := ⟨0, 0, 1, 0, (8, 0)⟩
  let pool : AddressPool BufferContext :=
    { table := fun i => if i < idx + 1 then some ctx else none
      indices := List.range' (idx + 1) (poolSize - (idx + 1)) }
  refine ⟨List.replicate (idx + 1) ctx,
    { init ⟨false, true, 2, 4096, poolSize, 0, true⟩ 9 true with addrPool := pool },
    AddressPool.exec_store_replicate poolSize ctx (idx + 1) h, ?_⟩
  show (if idx < idx + 1 then some ctx else none) ≠ none
  rw [if_pos (Nat.lt_succ_self idx)]
  exact Option.some_ne_none ctx

/-- Whatever buffers a node has announced, and however the writes of its peers to them arrive, each main
write is notified once with the buffer of its index and each chunk is counted once, if and only if the
address pool has no index with bit 15. -/
theorem immediates_decoded (poolSize : Nat) :
    (∀ (cfg : RdmaCfg) (ctxs : List BufferContext) (van : RdmaVan) (as : List Arrival),
      Run.exec AddressPool.store (.init poolSize) ctxs = some van.addrPool →
      (∀ a ∈ as, van.addrPool.getAddress a.t.idx ≠ none) →
      ∃ van', Run.exec (pollArrival cfg) van as = some van' ∧ Decoded van van' as) ↔ poolSize ≤ 0x8000 := by
  constructor
  · intro h
    by_contra hlt
    -- the first write to the buffer with index 0x8000
    let cfg : RdmaCfg := ⟨false, true, 2, 4096, poolSize, 0, true⟩
    let t : RemoteTuple := ⟨0, 0, 0x8000, 0⟩
    obtain ⟨ctxs, van, hpool, hstored⟩ := exists_announced poolSize 0x8000 (Nat.lt_of_not_le hlt)
    obtain ⟨van', hexec, hdec⟩ := h cfg ctxs van [mainWrite 8 t 0] hpool fun a ha => by
      rw [List.mem_singleton.mp ha]
      exact hstored
    obtain ⟨van'', hone, hbufs, -⟩ := pollArrival_mainWrite cfg van 8 (t := t) 0 (by decide)
    rw [← List.nil_append [mainWrite 8 t 0], Run.exec_snoc_eq_some] at hexec
    obtain ⟨_, hnil, hexec⟩ := hexec
    obtain rfl := Option.some.inj hnil
    obtain rfl := Option.some.inj (hone.symm.trans hexec)
    obtain ⟨ctx, hctx⟩ := Option.ne_none_iff_exists'.mp hstored
    have hnote : (mainWrite 8 t 0).notification van.addrPool = some ⟨8, ctx, 0, 0⟩ := by
      show (van.addrPool.getAddress 0x8000).map _ = _
      rw [hctx]
      rfl
    have hrecv := hdec.recvBuffers
    rw [hbufs, List.filterMap_cons_some hnote] at hrecv
    exact absurd (List.self_eq_append_right.mp hrecv) (List.cons_ne_nil _ _)
  · intro hle cfg ctxs van as hstored hmem
    exact decoded_exec cfg (fun a ha => Nat.lt_of_lt_of_le
      ((AddressPool.lt_of_stored hstored).2 a.t.idx (hmem a ha)) hle) hmem

/-- A pool of one entry more: the notification of a write to its last buffer is lost and counted as a
chunk. -/
theorem main_write_counted_as_chunk :
    ∃ (ctxs : List BufferContext) (van van' : RdmaVan),
      Run.exec AddressPool.store (.init 0x8001) ctxs = some van.addrPool ∧
      van.addrPool.getAddress (mainWrite 8 ⟨0, 0, 0x8000, 0⟩ 0).t.idx ≠ none ∧
      (mainWrite 8 ⟨0, 0, 0x8000, 0⟩ 0).isChunk = false ∧
      van.pollArrival ⟨false, true, 2, 4096, 0x8001, 0, true⟩ (mainWrite 8 ⟨0, 0, 0x8000, 0⟩ 0) = some van' ∧
      van'.recvBuffers = van.recvBuffers ∧
      van'.incomingPktCount 8 1 = (van.incomingPktCount 8 1 + 1) % 2 ^ 64 := by
  obtain ⟨ctxs, van, hpool, hstored⟩ := exists_announced 0x8001 0x8000 (by decide)
  obtain ⟨van', h⟩ := pollArrival_mainWrite ⟨false, true, 2, 4096, 0x8001, 0, true⟩ van 8 (t := ⟨0, 0, 0x8000, 0⟩) 0
    (by decide)
  exact ⟨ctxs, van, van', hpool, hstored, rfl, h⟩

end RdmaVan

end StepMesh
