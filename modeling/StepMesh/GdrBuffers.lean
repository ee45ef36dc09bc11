import StepMesh.AFWorker
import StepMesh.Lib.ListAux
import StepMesh.Lib.Run
import StepMesh.RdmaVanSpec

/-!
# Device buffers of a GDR server (`src/rdma_transport.h`, `src/rdma_utils.h`)

The first push and the first pull of a worker on a key each start a rendezvous, and both announce the
length of their tensor. The server answers both with one device buffer per key, as long as the first of them
asked for. So the tensors of the two directions have to come in order of their sizes (`GdrFits`).
-/

namespace StepMesh

/-- A request of a worker whose address at a server is not known: `ZPush_` or `ZPull_` of a tensor to server
`dst`, from message buffer `originAddr`. -/
structure FirstUse where
  push : Bool
  kt : KeyTensor
  timestamp : Int := 0
  cmd : Int := 0
  dst : Nat := 0
  originAddr : Nat := 0

namespace FirstUse

def msg (u : FirstUse) (w : AFWorker) : Message := w.sendMsg (AFWorker.zMsg u.push u.timestamp u.kt u.cmd) u.dst

/-- The bytes of the tensor. -/
def size (u : FirstUse) : Nat := u.kt.val.nbytes

end FirstUse

/-- A server and what it has answered. -/
structure GdrServer where
  van : RdmaVan
  replies : List RendezvousReply := []

namespace GdrServer

/-- `SendRendezvousBegin` at worker `ep`, and `SendRendezvousReply` at the server. -/
def answer (cfg : RdmaCfg) (w : AFWorker) (ep : NodeId) (s : GdrServer) (u : FirstUse) : Option GdrServer := do
  let (_, .rendezvousStart req) ← RdmaVan.sendRendezvousBegin (u.msg w)
    (RdmaVan.prepareNewMsgBuf cfg (u.msg w)) u.originAddr | none
  let (van, [(_, .rendezvousReply resp)]) ← s.van.sendRendezvousReply cfg ep req | none
  return { van := van, replies := s.replies ++ [resp] }

/-- Every request was answered with the buffer of its key, in which its tensor has room. -/
def Answered (ep : NodeId) (uses : List FirstUse) (s : GdrServer) : Prop :=
  s.replies.length = uses.length ∧ ∀ (i : Nat) u resp, uses[i]? = some u → s.replies[i]? = some resp →
    ∃ mr, s.van.keyToMr ep u.kt.key = some mr ∧ resp.dataAddr = mr.addr ∧ u.size ≤ mr.length

/-- The first tensor of a key in either direction has a byte and is the largest, and the address pool has
room for all. -/
def GdrFits (poolSize : Nat) (uses : List FirstUse) : Prop :=
  uses.length ≤ poolSize ∧ ∀ u ∈ uses, ∀ first, uses.find? (·.kt.key = u.kt.key) = some first →
    0 < first.size ∧ u.size ≤ first.size

variable {cfg : RdmaCfg} {w : AFWorker} {ep : NodeId} {s s' : GdrServer} {uses : List FirstUse} {u : FirstUse}

theorem sendRendezvousBegin_firstUse (cfg : RdmaCfg) (w : AFWorker) (u : FirstUse) :
    RdmaVan.sendRendezvousBegin (u.msg w) (RdmaVan.prepareNewMsgBuf cfg (u.msg w)) u.originAddr =
      some (0, .rendezvousStart
        { metaLen := RawMeta.size + 8, dataLen := [8, u.size], originAddr := u.originAddr, key := u.kt.key }) := by
  have hpacked : packedLen (u.msg w).msgMeta = RawMeta.size + 8 := rfl
  have hfit : (Int.bmod (RawMeta.size + 8 : Nat) (2 ^ 32)).toNat = RawMeta.size + 8 := by decide
  have hlen : (RdmaVan.prepareNewMsgBuf cfg (u.msg w)).inlineLen = RawMeta.size + 8 := by
    simp only [RdmaVan.prepareNewMsgBuf, MessageBuffer.pack]
    exact (congrArg (fun n : Nat => (Int.bmod n (2 ^ 32)).toNat) hpacked).trans hfit
  have hdata : (u.msg w).data = [{ size := 8 }, u.kt.val.toSArray] := rfl
  have hkey : (u.msg w).msgMeta.key = u.kt.key := rfl
  rw [RdmaVan.sendRendezvousBegin, hlen, hdata, hkey]
  rfl

/-- What a server that has answered some requests looks like: the buffer of a key is as long as the first
tensor, and the pool has given away one index for each. -/
structure Inv (poolSize : Nat) (ep : NodeId) (uses : List FirstUse) (s : GdrServer) : Prop where
  server : s.van.isServer = true
  unregistered : ∀ key, s.van.registeredRecvBuffers key = []
  buffers : ∀ key, (s.van.keyToMr ep key).map Mr.length = (uses.find? (·.kt.key = key)).map FirstUse.size
  indices : s.van.addrPool.indices = List.range' uses.length (poolSize - uses.length)
  free : ∀ idx, uses.length ≤ idx → s.van.addrPool.table idx = none
  answered : Answered ep uses s

theorem inv_init (cfg : RdmaCfg) (id ep : NodeId) : Inv cfg.poolSize ep [] ⟨.init cfg id true, []⟩ where
  server := rfl
  unregistered _ := rfl
  buffers _ := rfl
  indices := List.range_eq_range'
  free _ _ := rfl
  answered := ⟨rfl, fun i u resp h => by cases h⟩

/-- The tensor of a request has room in the buffer of its key, or is the first of the key and has a byte. -/
def Fits (uses : List FirstUse) (u : FirstUse) : Prop :=
  match uses.find? (·.kt.key = u.kt.key) with
  | some first => u.size ≤ first.size
  | none => 0 < u.size

theorem find_snoc (uses : List FirstUse) (u : FirstUse) (key : Key) :
    (uses ++ [u]).find? (·.kt.key = key) =
      (uses.find? (·.kt.key = key)).or (if u.kt.key = key then some u else none) := by
  rw [List.find?_append]
  by_cases h : u.kt.key = key <;> simp [h]

/-- What `Alloc` has done for a request: the buffer of its key, and those of other keys as they were. -/
structure Allocated (ep : NodeId) (uses : List FirstUse) (u : FirstUse) (van van' : RdmaVan) (addr : Nat) :
    Prop where
  same : RdmaVan.SameButGpu van van'
  buffer : ∃ mr, van'.keyToMr ep u.kt.key = some mr ∧ addr = mr.addr ∧ u.size ≤ mr.length
  kept : ∀ key mr, van.keyToMr ep key = some mr → van'.keyToMr ep key = some mr
  buffers : ∀ key, (van'.keyToMr ep key).map Mr.length = ((uses ++ [u]).find? (·.kt.key = key)).map FirstUse.size

variable {poolSize : Nat} {van' : RdmaVan} {addr : Nat}

theorem allocated_of_fits (van : RdmaVan)
    (hb : ∀ key, (van.keyToMr ep key).map Mr.length = (uses.find? (·.kt.key = key)).map FirstUse.size)
    (hfits : Fits uses u) :
    ∃ addr van', van.gpuAlloc cfg ep u.kt.key u.size = some (addr, van') ∧ Allocated ep uses u van van' addr := by
  have hkey := hb u.kt.key
  rcases hf : uses.find? (·.kt.key = u.kt.key) with _ | first
  · -- a buffer of the size of this tensor
    rw [hf, Option.map_none, Option.map_eq_none_iff] at hkey
    rw [Fits, hf] at hfits
    have hpos : ¬(cfg.refusesEmpty = true ∧ u.size = 0) := fun h => absurd h.2 (Nat.pos_iff_ne_zero.mp hfits)
    refine ⟨_, _, by rw [RdmaVan.gpuAlloc, hkey, if_neg hpos], ⟨_, _, rfl⟩, ?_, ?_, ?_⟩
    · exact ⟨⟨van.nextGpu, u.size, 0⟩, by simp, rfl, Nat.le_refl _⟩
    · intro key mr hmr
      have hne : key ≠ u.kt.key := fun he => by rw [he, hkey] at hmr; cases hmr
      simp [hne, hmr]
    · intro key
      rw [find_snoc]
      rcases eq_or_ne key u.kt.key with rfl | hne
      · simp [hf]
      · simp [hne, hne.symm, hb key]
  · rw [hf, Option.map_some] at hkey
    obtain ⟨mr, hmr, hlen⟩ := Option.map_eq_some_iff.mp hkey
    rw [Fits, hf] at hfits
    have hle : u.size ≤ mr.length := hlen ▸ hfits
    refine ⟨mr.addr, van, by simp only [RdmaVan.gpuAlloc, hmr, if_pos hle], ⟨_, _, rfl⟩, ⟨mr, hmr, rfl, hle⟩,
      fun _ _ h => h, fun key => ?_⟩
    rw [find_snoc, hb key]
    rcases eq_or_ne key u.kt.key with rfl | hne
    · rw [hf]
      rfl
    · simp [hne.symm]

theorem fits_of_gpuAlloc (hempty : cfg.refusesEmpty = true) (van : RdmaVan)
    (hb : ∀ key, (van.keyToMr ep key).map Mr.length = (uses.find? (·.kt.key = key)).map FirstUse.size)
    (h : van.gpuAlloc cfg ep u.kt.key u.size = some (addr, van')) : Fits uses u := by
  have hkey := hb u.kt.key
  unfold RdmaVan.gpuAlloc at h
  unfold Fits
  split at h
  · rename_i mr hmr
    rw [hmr, Option.map_some] at hkey
    obtain ⟨first, hfirst, hlen⟩ := Option.map_eq_some_iff.mp hkey.symm
    rw [hfirst]
    split_ifs at h with hle
    show u.size ≤ first.size
    exact hlen ▸ hle
  · rename_i hnone
    rw [hnone, Option.map_none, eq_comm, Option.map_eq_none_iff] at hkey
    rw [hkey]
    split_ifs at h with hzero
    exact Nat.pos_of_ne_zero fun h => hzero ⟨hempty, h⟩

theorem answer_eq (w : AFWorker) (hgdr : cfg.gdr = true) (hserver : s.van.isServer = true)
    (hnone : ∀ key, s.van.registeredRecvBuffers key = []) (u : FirstUse) :
    s.answer cfg w ep u = (s.van.alloc.2.gpuAlloc cfg ep u.kt.key u.size).bind fun p =>
      (p.2.addrPool.storeAddress
        { metaBuffer := s.van.nextBlock, gpuDataBuffer := p.1, metaLen := RawMeta.size + 8, dataNum := 2
          origin := (ep, u.originAddr) }).bind fun q => some
        { van := { p.2 with addrPool := q.2 }
          replies := s.replies ++
            [{ metaAddr := s.van.nextBlock, dataAddr := p.1, originAddr := u.originAddr, idx := q.1 }] } := by
  have hdata : s.van.alloc.2.dataBuffer cfg ep
      { metaLen := RawMeta.size + 8, dataLen := [8, u.size], originAddr := u.originAddr, key := u.kt.key } =
      s.van.alloc.2.gpuAlloc cfg ep u.kt.key u.size := by
    have hsum : [8, u.size].sum ≠ 0 := by simp
    have hquery : s.van.alloc.2.queryRecvBuffer u.kt.key ep = some none := by
      simp [RdmaVan.queryRecvBuffer, RdmaVan.alloc, hnone]
    simp only [RdmaVan.dataBuffer, if_neg hsum, hquery]
    rfl
  have hsize : RawMeta.size + 8 ≠ 0 := Nat.succ_ne_zero _
  have hside : s.van.alloc.2.isServer = true := hserver
  rw [answer, sendRendezvousBegin_firstUse, Option.bind_eq_bind, Option.bind_some]
  simp only [RdmaVan.sendRendezvousReply, hgdr, hserver, hside, hdata, guard, hsize, Bool.not_true, Bool.and_false,
    Bool.false_eq_true, if_false, if_true, Bool.and_self, ne_eq, not_false_eq_true, Option.bind_eq_bind,
    Option.pure_def, Option.bind_some, Option.bind_assoc]
  rfl

theorem Inv.answer_of_fits (h : Inv poolSize ep uses s) (w : AFWorker) (hgdr : cfg.gdr = true)
    (hroom : uses.length < poolSize) (hfits : Fits uses u) :
    ∃ s', s.answer cfg w ep u = some s' ∧ Inv poolSize ep (uses ++ [u]) s' := by
  obtain ⟨addr, van, halloc, ha⟩ := allocated_of_fits s.van.alloc.2 h.buffers hfits
  have hind : s.van.addrPool.indices =
      uses.length :: List.range' (uses.length + 1) (poolSize - (uses.length + 1)) := by
    rw [h.indices, show poolSize - uses.length = poolSize - (uses.length + 1) + 1 by omega, List.range'_succ]
  have hstore : ∀ ctx, s.van.addrPool.storeAddress ctx = _ := fun ctx =>
    AddressPool.storeAddress_eq_some.mpr ⟨_, hind, h.free _ (Nat.le_refl _), rfl⟩
  obtain ⟨keyToMr, nextGpu, hsame⟩ := ha.same
  have hpool : van.addrPool = s.van.addrPool := by rw [hsame]; rfl
  rw [answer_eq w hgdr h.server h.unregistered, halloc, Option.bind_some, hpool, hstore, Option.bind_some]
  refine ⟨_, rfl, ?_, ?_, ha.buffers, ?_, ?_, ?_, ?_⟩
  · rw [hsame]
    exact h.server
  · rw [hsame]
    exact h.unregistered
  · rw [List.length_append]
    rfl
  · intro idx hidx
    rw [List.length_append, List.length_singleton] at hidx
    exact (Function.update_of_ne (by omega) _ _).trans (h.free idx (by omega))
  · rw [List.length_append, List.length_append, h.answered.1]
    rfl
  · intro i u' resp hu hresp
    rcases List.getElem?_snoc_eq_some hu with hu | ⟨rfl, rfl⟩
    · -- an earlier answer: its buffer is still there
      have hi : i < s.replies.length := h.answered.1 ▸ List.lt_of_getElem?_eq_some hu
      rw [List.getElem?_append_left hi] at hresp
      obtain ⟨mr, hmr, haddr, hle⟩ := h.answered.2 i u' resp hu hresp
      exact ⟨mr, ha.kept _ mr hmr, haddr, hle⟩
    · rw [← h.answered.1, List.getElem?_concat_length] at hresp
      obtain rfl := Option.some.inj hresp
      obtain ⟨mr, hmr, haddr, hle⟩ := ha.buffer
      exact ⟨mr, hmr, haddr, hle⟩

theorem Inv.fits_of_answer (h : Inv poolSize ep uses s) (w : AFWorker) (hgdr : cfg.gdr = true)
    (hempty : cfg.refusesEmpty = true) (hs : s.answer cfg w ep u = some s') : uses.length < poolSize ∧ Fits uses u := by
  rw [answer_eq w hgdr h.server h.unregistered] at hs
  obtain ⟨⟨addr, van⟩, halloc, hs⟩ := Option.bind_eq_some_iff.mp hs
  have hfits : Fits uses u := fits_of_gpuAlloc hempty s.van.alloc.2 h.buffers halloc
  refine ⟨?_, hfits⟩
  obtain ⟨_, _, halloc', ha⟩ := allocated_of_fits s.van.alloc.2 h.buffers hfits
  obtain ⟨rfl, rfl⟩ := Prod.mk.inj (Option.some.inj (halloc.symm.trans halloc'))
  obtain ⟨keyToMr, nextGpu, rfl⟩ := ha.same
  obtain ⟨⟨idx, pool⟩, hstore, -⟩ := Option.bind_eq_some_iff.mp hs
  obtain ⟨rest, hind, -⟩ := AddressPool.storeAddress_eq_some.mp hstore
  have hlen := congrArg List.length (h.indices.symm.trans hind)
  rw [List.length_range', List.length_cons] at hlen
  omega

theorem inv_exec (w : AFWorker) (hgdr : cfg.gdr = true) (hempty : cfg.refusesEmpty = true) {id : NodeId}
    (h : Run.exec (answer cfg w ep) ⟨.init cfg id true, []⟩ uses = some s) : Inv cfg.poolSize ep uses s := by
  refine Run.exec_invariant_of_inputs (fun uses s => Inv cfg.poolSize ep uses s) (inv_init cfg id ep)
    (fun us u s s' hinv hs => ?_) h
  obtain ⟨hroom, hfits⟩ := hinv.fits_of_answer w hgdr hempty hs
  obtain ⟨s'', hs'', hinv'⟩ := hinv.answer_of_fits w hgdr hroom hfits
  obtain rfl := Option.some.inj (hs.symm.trans hs'')
  exact hinv'

theorem exec_answer_iff (w : AFWorker) (hgdr : cfg.gdr = true) (hempty : cfg.refusesEmpty = true)
    (id ep : NodeId) (uses : List FirstUse) :
    (∃ s, Run.exec (answer cfg w ep) ⟨.init cfg id true, []⟩ uses = some s) ↔
      ∀ us u, us ++ [u] <+: uses → us.length < cfg.poolSize ∧ Fits us u := by
  constructor
  · rintro ⟨s, hs⟩ us u hpre
    obtain ⟨s', hs'⟩ := Run.exec_of_prefix hs hpre
    obtain ⟨t, ht, hstep⟩ := Run.exec_snoc_eq_some.mp hs'
    exact (inv_exec w hgdr hempty ht).fits_of_answer w hgdr hempty hstep
  · intro h
    induction uses using List.reverseRecOn with
    | nil => exact ⟨_, rfl⟩
    | append_singleton uses u ih =>
      obtain ⟨s, hs⟩ := ih fun us v hpre => h us v (hpre.trans (List.prefix_append _ _))
      obtain ⟨hroom, hfits⟩ := h uses u (List.prefix_refl _)
      obtain ⟨s', hstep, -⟩ := (inv_exec w hgdr hempty hs).answer_of_fits w hgdr hroom hfits
      exact ⟨s', Run.exec_snoc_eq_some.mpr ⟨s, hs, hstep⟩⟩

/-- Each request fits after those before it if and only if the first of each key is the largest. -/
theorem gdrFits_iff : GdrFits poolSize uses ↔ ∀ us u, us ++ [u] <+: uses → us.length < poolSize ∧ Fits us u := by
  constructor
  · rintro ⟨hlen, hfirst⟩ us u ⟨rest, rfl⟩
    have hu : u ∈ us ++ [u] ++ rest := by simp
    refine ⟨by simp at hlen; omega, ?_⟩
    have hfind := find_snoc us u u.kt.key
    rw [if_pos rfl] at hfind
    rcases hf : us.find? (·.kt.key = u.kt.key) with _ | first
    · rw [hf, Option.none_or] at hfind
      rw [Fits, hf]
      exact (hfirst u hu u (by rw [List.find?_append, hfind]; rfl)).1
    · rw [hf, Option.some_or] at hfind
      rw [Fits, hf]
      exact (hfirst u hu first (by rw [List.find?_append, hfind]; rfl)).2
  · intro h
    refine ⟨?_, fun u hu first hfind => ?_⟩
    · rcases List.eq_nil_or_concat' uses with rfl | ⟨us, u, rfl⟩
      · exact Nat.zero_le _
      · rw [List.length_append]
        exact (h us u (List.prefix_refl _)).1
    · obtain ⟨hkey, us, rest, rfl, hnot⟩ := List.find?_eq_some_iff_append.mp hfind
      have hkey : first.kt.key = u.kt.key := of_decide_eq_true hkey
      have hus : us.find? (·.kt.key = u.kt.key) = none := by
        rw [List.find?_eq_none]
        intro v hv hd
        simpa [of_decide_eq_true hd] using hnot v hv
      constructor
      · have := (h us first ⟨rest, by simp⟩).2
        rwa [Fits, hkey, hus] at this
      · rcases List.mem_append.mp hu with hmem | hmem
        · exact absurd (List.find?_eq_none.mp hus u hmem) (by simp)
        rcases List.mem_cons.mp hmem with rfl | hmem
        · exact Nat.le_refl _
        · obtain ⟨mid, rest, rfl⟩ := List.append_of_mem hmem
          have := (h (us ++ first :: mid) u ⟨rest, by simp⟩).2
          rwa [Fits, List.find?_append, hus, Option.none_or, List.find?_cons_of_pos (by simpa using hkey)] at this

/-- On a GDR server without registered buffers, whose device has no buffers of 0 bytes: any sequence of first uses
of keys by pushes and pulls of a worker is answered, each with a buffer that its tensor has room in, if and only
if the first tensor of every key has a byte and is the largest of the key, and there are not more requests than
entries of the address pool. -/
theorem gdr_answers_iff (cfg : RdmaCfg) (hgdr : cfg.gdr = true) (hempty : cfg.refusesEmpty = true) (w : AFWorker)
    (id ep : NodeId) (uses : List FirstUse) :
    (∃ s, Run.exec (answer cfg w ep) ⟨.init cfg id true, []⟩ uses = some s ∧ Answered ep uses s) ↔
      GdrFits cfg.poolSize uses := by
  rw [gdrFits_iff, ← exec_answer_iff w hgdr hempty id ep]
  constructor
  · rintro ⟨s, hs, -⟩
    exact ⟨s, hs⟩
  · rintro ⟨s, hs⟩
    exact ⟨s, hs, (inv_exec w hgdr hempty hs).answered⟩

/-- A tensor of `n` bytes under key 5. -/
def tensorOf (n : Nat) : KeyTensor := ⟨5, { storage := 4096, sizes := [n], itemsize := 1, scalarType := 0 }⟩

/-- A push and a pull of 64 bytes. -/
theorem gdr_answers_iff_two :
    ∃ s, Run.exec (answer ⟨true, false, 2, 4096, 16, 2 ^ 48, true⟩ { po := { numWorkers := 1, numServers := 1 } } 9)
      ⟨.init ⟨true, false, 2, 4096, 16, 2 ^ 48, true⟩ 8 true, []⟩
      [{ push := true, kt := tensorOf 64 }, { push := false, kt := tensorOf 64 }] = some s ∧
    Answered 9 [{ push := true, kt := tensorOf 64 }, { push := false, kt := tensorOf 64 }] s := by
  refine (gdr_answers_iff ⟨true, false, 2, 4096, 16, 2 ^ 48, true⟩ rfl rfl
    { po := { numWorkers := 1, numServers := 1 } } 8 9 _).mpr ⟨by decide, fun u hu first hfirst => ?_⟩
  have hkey : u.kt = tensorOf 64 := by
    rcases List.mem_cons.mp hu with rfl | hu
    · rfl
    · rw [List.mem_singleton.mp hu]
  rw [hkey, List.find?_cons_of_pos (by rfl)] at hfirst
  obtain rfl := Option.some.inj hfirst
  exact ⟨by decide, by rw [FirstUse.size, hkey]; decide⟩

/-- A pull of 4 bytes, then a push of 64 on the same key: the buffer is too small. -/
theorem push_after_smaller_pull :
    (Run.exec (answer ⟨true, false, 2, 4096, 16, 2 ^ 48, true⟩ { po := { numWorkers := 1, numServers := 1 } } 9)
      ⟨.init ⟨true, false, 2, 4096, 16, 2 ^ 48, true⟩ 8 true, []⟩ [{ push := false, kt := tensorOf 4 }]).isSome = true ∧
    (Run.exec (answer ⟨true, false, 2, 4096, 16, 2 ^ 48, true⟩ { po := { numWorkers := 1, numServers := 1 } } 9)
      ⟨.init ⟨true, false, 2, 4096, 16, 2 ^ 48, true⟩ 8 true, []⟩
      [{ push := false, kt := tensorOf 4 }, { push := true, kt := tensorOf 64 }]).isNone = true := by
  decide +kernel

end GdrServer

end StepMesh
