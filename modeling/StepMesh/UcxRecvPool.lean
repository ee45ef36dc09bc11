import StepMesh.Lib.Run
import StepMesh.UcxVan

/-!
# Who frees the receive buffers of the UCX van

A block that `UCXRecvPool` has allocated is freed or still the entry of a key and a node, and never both
(`Owned`). The destructor then frees every block exactly once. `GetRxBuffer` does not look at `external` when
it replaces an entry that is too short, so a push that is longer than the memory the user has registered for
it frees that memory (`register_then_longer_push`). It is the only way: as long as no push is longer than a
registered buffer, and the user registers memory of their own, only the blocks are freed (`frees_own_once`).
-/

namespace StepMesh

namespace UcxRecvPool

/-- A use of the pool. -/
inductive Call
  | register (key : Key) (sender : NodeId) (address : Mem) (length : Nat)
  | getRxBuffer (key : Key) (nodeId : NodeId) (size : Nat) (push : Bool)
  | cacheLocalAddress (key : Key) (data : Nat)
deriving DecidableEq, Repr

def step (pool : UcxRecvPool) : Call → Option UcxRecvPool
  | .register key sender address length => some (pool.register key sender address length)
  | .getRxBuffer key nodeId size push => (pool.getRxBuffer key nodeId size push).map (·.2)
  | .cacheLocalAddress key data => some (pool.cacheLocalAddress key data)

def isUser : Mem → Bool
  | .user _ => true
  | .block _ => false

/-- The user registers memory of their own, and no push is longer than what they have registered for it. -/
def Safe (pool : UcxRecvPool) : Call → Prop
  | .register _ _ address _ => isUser address = true
  | .getRxBuffer key nodeId size push => push = true → ∀ it ∈ pool.rpool.lookup (key, nodeId),
      it.external = true → size ≤ it.length
  | .cacheLocalAddress _ _ => True

instance (pool : UcxRecvPool) : (call : Call) → Decidable (Safe pool call)
  | .register _ _ _ _ => inferInstanceAs (Decidable (_ = true))
  | .getRxBuffer _ _ _ _ => inferInstanceAs (Decidable (_ → ∀ it ∈ _, _ → _))
  | .cacheLocalAddress _ _ => inferInstanceAs (Decidable True)

abbrev Entries := List (Sigma fun _ : Key × NodeId => UcxAddress)

/-- The blocks of the entries, which the destructor frees. -/
def ownBlocks (entries : Entries) : List Mem :=
  ((entries.map (·.2)).filter (!·.external)).map (·.address)

/-- Every block is freed or the block of one entry, and no other memory is either. -/
structure Owned (pool : UcxRecvPool) : Prop where
  blocks : (pool.freed ++ ownBlocks pool.rpool.entries).Perm ((List.range pool.blocks).map Mem.block)
  user : ∀ kn it, pool.rpool.lookup kn = some it → it.external = true → ∃ addr, it.address = .user addr

variable {pool pool' : UcxRecvPool} {kn : Key × NodeId} {it : UcxAddress}

theorem ownBlocks_cons (kn : Key × NodeId) (it : UcxAddress) (entries : Entries) :
    ownBlocks (⟨kn, it⟩ :: entries) =
      if it.external then ownBlocks entries else it.address :: ownBlocks entries := by
  cases h : it.external <;> simp [ownBlocks, h]

theorem ownBlocks_kerase (h : pool.rpool.lookup kn = some it) :
    (ownBlocks pool.rpool.entries).Perm (ownBlocks (⟨kn, it⟩ :: pool.rpool.entries.kerase kn)) := by
  have hmem : kn ∈ pool.rpool.entries.keys := AList.lookup_isSome.mp (by rw [h]; rfl)
  obtain ⟨it', l₁, l₂, -, heq, herase⟩ := List.exists_of_kerase hmem
  have hit : it' = it := by
    have hin : (⟨kn, it'⟩ : Sigma fun _ => UcxAddress) ∈ pool.rpool.entries := by rw [heq]; simp
    exact Option.some.inj ((AList.mem_lookup_iff.mpr hin).symm.trans h)
  rw [herase, heq, hit]
  exact ((List.perm_middle.map _).filter _).map _

theorem kerase_of_lookup_none (h : pool.rpool.lookup kn = none) :
    pool.rpool.entries.kerase kn = pool.rpool.entries :=
  List.kerase_of_notMem_keys (AList.lookup_eq_none.mp h)

theorem lookup_insert_eq_some {kn' : Key × NodeId} {it' : UcxAddress}
    (h : (pool.rpool.insert kn it).lookup kn' = some it') : it' = it ∨ pool.rpool.lookup kn' = some it' := by
  by_cases hk : kn' = kn
  · subst hk
    rw [AList.lookup_insert] at h
    exact .inl (Option.some.inj h).symm
  · rw [AList.lookup_insert_ne hk] at h
    exact .inr h

/-- The block of an entry is freed before the entry is replaced. -/
theorem Owned.free (h : Owned pool) (hit : pool.rpool.lookup kn = some it) (hown : it.external = false) :
    ((pool.free it.address).freed ++ ownBlocks (pool.rpool.entries.kerase kn)).Perm
      ((List.range pool.blocks).map Mem.block) := by
  have hperm := ownBlocks_kerase hit
  rw [ownBlocks_cons, if_neg (by rw [hown]; decide)] at hperm
  rw [UcxRecvPool.free, List.append_assoc, List.singleton_append]
  exact (hperm.symm.append_left _).trans h.blocks

theorem Owned.drop (h : Owned pool) (hext : ∀ it, pool.rpool.lookup kn = some it → it.external = true) :
    (pool.freed ++ ownBlocks (pool.rpool.entries.kerase kn)).Perm ((List.range pool.blocks).map Mem.block) := by
  cases hit : pool.rpool.lookup kn with
  | none =>
    rw [kerase_of_lookup_none hit]
    exact h.blocks
  | some it =>
    have hperm := ownBlocks_kerase hit
    rw [ownBlocks_cons, if_pos (hext it hit)] at hperm
    exact (hperm.symm.append_left _).trans h.blocks

theorem Owned.allocate (pool : UcxRecvPool) (kn : Key × NodeId)
    (hown : (pool.freed ++ ownBlocks (pool.rpool.entries.kerase kn)).Perm
      ((List.range pool.blocks).map Mem.block))
    (huser : ∀ kn it, pool.rpool.lookup kn = some it → it.external = true → ∃ addr, it.address = .user addr)
    (size : Nat) : Owned (pool.allocate kn.1 kn.2 size).2 where
  blocks := by
    change (pool.freed ++ ownBlocks (⟨kn, ⟨.block pool.blocks, size, false⟩⟩ ::
      pool.rpool.entries.kerase kn)).Perm ((List.range (pool.blocks + 1)).map Mem.block)
    rw [ownBlocks_cons, if_neg Bool.false_ne_true, List.range_succ, List.map_append]
    exact List.perm_middle.trans ((hown.cons _).trans (List.perm_append_singleton _ _).symm)
  user kn' it' h hext := by
    rcases lookup_insert_eq_some h with rfl | h
    · cases hext
    · exact huser kn' it' h hext

theorem Owned.insert_user (pool : UcxRecvPool) (kn : Key × NodeId)
    (hown : (pool.freed ++ ownBlocks (pool.rpool.entries.kerase kn)).Perm
      ((List.range pool.blocks).map Mem.block))
    (huser : ∀ kn it, pool.rpool.lookup kn = some it → it.external = true → ∃ addr, it.address = .user addr)
    (addr length : Nat) :
    Owned { pool with rpool := pool.rpool.insert kn ⟨.user addr, length, true⟩ } where
  blocks := by
    change (pool.freed ++ ownBlocks (⟨kn, ⟨.user addr, length, true⟩⟩ ::
      pool.rpool.entries.kerase kn)).Perm ((List.range pool.blocks).map Mem.block)
    rw [ownBlocks_cons, if_pos rfl]
    exact hown
  user kn' it' h hext := by
    rcases lookup_insert_eq_some h with rfl | h
    · exact ⟨addr, rfl⟩
    · exact huser kn' it' h hext

theorem Owned.register (h : Owned pool) (key : Key) (sender : NodeId) (addr length : Nat) :
    Owned (pool.register key sender (.user addr) length) := by
  unfold UcxRecvPool.register
  cases hit : pool.rpool.lookup (key, sender) with
  | none =>
    refine .insert_user pool (key, sender) (h.drop fun it hit' => ?_) h.user addr length
    rw [hit] at hit'
    cases hit'
  | some it =>
    dsimp only
    cases hext : it.external with
    | true =>
      refine .insert_user pool (key, sender) (h.drop fun it' hit' => ?_) h.user addr length
      rwa [Option.some.inj (hit'.symm.trans hit)]
    | false => exact .insert_user (pool.free it.address) (key, sender) (h.free hit hext) h.user addr length

theorem Owned.getRxBuffer (h : Owned pool) {key : Key} {nodeId : NodeId} {size : Nat} {push : Bool} {buffer : Mem}
    (hsafe : Safe pool (.getRxBuffer key nodeId size push))
    (hs : pool.getRxBuffer key nodeId size push = some (buffer, pool')) : Owned pool' := by
  unfold UcxRecvPool.getRxBuffer at hs
  cases push with
  | false =>
    obtain ⟨addr, -, heq⟩ := Option.map_eq_some_iff.mp hs
    obtain rfl : pool = pool' := congrArg Prod.snd heq
    exact h
  | true =>
    cases hit : pool.rpool.lookup (key, nodeId) with
    | none =>
      rw [hit] at hs
      obtain rfl := congrArg Prod.snd (Option.some.inj hs)
      refine .allocate pool (key, nodeId) (h.drop fun it hit' => ?_) h.user size
      rw [hit] at hit'
      cases hit'
    | some it =>
      rw [hit] at hs
      rw [if_neg (by decide)] at hs
      dsimp only at hs
      split_ifs at hs with hfits
      · obtain rfl : pool = pool' := congrArg Prod.snd (Option.some.inj hs)
        exact h
      · have hown : it.external = false := Bool.eq_false_iff.mpr fun hext => hfits (hsafe rfl it hit hext)
        obtain rfl := congrArg Prod.snd (Option.some.inj hs)
        exact .allocate (pool.free it.address) (key, nodeId) (h.free hit hown) h.user size

theorem Owned.step {call : Call} (h : Owned pool) (hsafe : Safe pool call) (hs : pool.step call = some pool') :
    Owned pool' := by
  cases call with
  | cacheLocalAddress key data =>
    obtain rfl := Option.some.inj hs
    exact ⟨h.blocks, h.user⟩
  | register key sender address length =>
    obtain rfl := Option.some.inj hs
    cases address with
    | user addr => exact h.register key sender addr length
    | block id => cases hsafe
  | getRxBuffer key nodeId size push =>
    obtain ⟨⟨buffer, pool₁⟩, hbuf, rfl⟩ := Option.map_eq_some_iff.mp hs
    exact h.getRxBuffer hsafe hbuf

/-- What the pool has freed are blocks of its own, each once and none that is still an entry; with what the
destructor frees they are all the blocks there have been. -/
structure FreesOwn (pool : UcxRecvPool) : Prop where
  own : ∀ address ∈ pool.freed, ∃ id < pool.blocks, address = .block id
  once : pool.freed.Nodup
  replaced : ∀ kn it, pool.rpool.lookup kn = some it → it.address ∉ pool.freed
  destroyed : pool.destroy.freed.Perm ((List.range pool.blocks).map Mem.block)

theorem Owned.freesOwn (h : Owned pool) : FreesOwn pool := by
  have hblock : ∀ address, address ∈ pool.freed ++ ownBlocks pool.rpool.entries →
      ∃ id < pool.blocks, address = .block id := by
    intro address hmem
    obtain ⟨id, hid, rfl⟩ := List.mem_map.mp (h.blocks.mem_iff.mp hmem)
    exact ⟨id, List.mem_range.mp hid, rfl⟩
  have hnodup : (pool.freed ++ ownBlocks pool.rpool.entries).Nodup := by
    refine h.blocks.nodup_iff.mpr (List.nodup_range.map fun i j hij => ?_)
    injection hij
  refine ⟨fun a ha => hblock a (List.mem_append_left _ ha), hnodup.of_append_left, ?_, h.blocks⟩
  intro kn it hit hfreed
  cases hext : it.external with
  | true =>
    obtain ⟨addr, haddr⟩ := h.user kn it hit hext
    obtain ⟨id, -, heq⟩ := hblock _ (List.mem_append_left _ hfreed)
    rw [haddr] at heq
    cases heq
  | false =>
    have hmem : it.address ∈ ownBlocks pool.rpool.entries := by
      rw [(ownBlocks_kerase hit).mem_iff, ownBlocks_cons, if_neg (by rw [hext]; decide)]
      exact List.mem_cons_self
    exact (List.disjoint_of_nodup_append hnodup) hfreed hmem

theorem frees_own_once (calls : List Call) (pool : UcxRecvPool) (hsafe : Run.EveryStep step Safe {} calls)
    (h : Run.exec step {} calls = some pool) : FreesOwn pool := by
  have hinit : Owned {} := ⟨by decide, fun kn it hit => nomatch hit⟩
  exact (hsafe.induction Owned (fun _ _ _ hok hown hs => hown.step hok hs) hinit h).freesOwn

/-- A push gets a block, a longer one another block, and then the user registers a buffer. -/
def sampleCalls : List Call :=
  [.getRxBuffer 1 9 8 true, .getRxBuffer 1 9 16 true, .register 1 9 (.user 4096) 32,
    .getRxBuffer 1 9 32 true, .getRxBuffer 2 9 4 true]

theorem frees_own_once_sample : ∃ pool, Run.exec step {} sampleCalls = some pool ∧
    pool.freed = [.block 0, .block 1] ∧ FreesOwn pool := by
  have hrun : (Run.exec step {} sampleCalls).map (·.freed) = some [.block 0, .block 1] := by decide +kernel
  obtain ⟨pool, hpool, hfreed⟩ := Option.map_eq_some_iff.mp hrun
  exact ⟨pool, hpool, hfreed, frees_own_once sampleCalls pool (by decide +kernel) hpool⟩

/-- The buffer that the user has registered is freed when a longer push arrives. -/
theorem register_then_longer_push :
    (Run.exec step {} [.register 1 9 (.user 4096) 4, .getRxBuffer 1 9 8 true]).map (·.freed) =
      some [.user 4096] := by
  decide +kernel

end UcxRecvPool

end StepMesh
