import StepMesh.Lib.Run
import StepMesh.UcxTransfer

/-!
# Where the UCX van receives pulled data

`SendMsg` caches the destination of a pull under its key, and a response is received at the address cached
for its key when its meta arrives. The table knows nothing of servers: a second pull of the key, to another
server and into another tensor, replaces the destination of the first (`pull_lands_elsewhere`). As long as
outstanding pulls of one key have one destination, every response is received where its own pull says
(`pulls_land`).
-/

namespace StepMesh

open Buf UcxVan

/-- A pull request: which server is asked, for which key, and where the values go. -/
structure UcxPull where
  server : NodeId
  key : Key
  addr : Nat
deriving DecidableEq, Repr

/-- A worker and its servers. `pulls` lists all pull requests of the worker, `outstanding` the positions of
those without a response, and `landed` where the response to each of the others was received. -/
structure UcxPullNet where
  worker : UcxVan
  servers : NodeId → UcxVan := fun id => { id := id }
  pulls : List UcxPull := []
  outstanding : List Nat := []
  landed : List (Nat × Option Mem) := []

/-- The worker sends a message, a server responds to an outstanding pull, or the worker gets the meta of any
other message. -/
inductive UcxPullEvent
  | send (msg : Message)
  | respond (i : Nat) (msg : Message)
  | receive (raw : Buf) (sender : NodeId)

/-- Where the payload goes to. -/
def UcxVan.RecvAction.buffer : RecvAction → Option Mem
  | .justMeta => none
  | .copy buffer _ _ => some buffer
  | .recv buffer _ _ => some buffer

namespace UcxPullNet

variable (cfg : UcxCfg)

/-- A response to the pull: with its key and a payload. -/
def isResponseTo (p : UcxPull) (msg : Message) : Bool :=
  isDataMsg msg && !msg.msgMeta.push && decide (msg.msgMeta.key = p.key)

def step (s : UcxPullNet) : UcxPullEvent → Option UcxPullNet
  | .send msg => do
    let (worker, _) ← s.worker.sendMsg cfg msg
    if isPull msg then
      let key ← ucxDecodeKey msg
      return { s with
        worker := worker
        pulls := s.pulls ++ [{ server := msg.msgMeta.recver, key := key, addr := msg.msgMeta.addr.toNat }]
        outstanding := s.outstanding ++ [s.pulls.length] }
    else return { s with worker := worker }
  | .respond i msg => do
    guard (i ∈ s.outstanding)
    let p ← s.pulls[i]?
    guard (isResponseTo p msg)
    let (server, req, _) ← (s.servers p.server).sendMsg cfg msg
    let (worker, act) ← s.worker.postRecvData req.buf (nodeIdFromTag req.tag)
    return { s with
      worker := worker
      servers := Function.update s.servers p.server server
      outstanding := s.outstanding.erase i
      landed := s.landed ++ [(i, act.buffer)] }
  | .receive raw sender => do
    let (worker, _) ← s.worker.postRecvData raw sender
    return { s with worker := worker }

/-- A pull has the destination of every outstanding pull of its key. -/
def SameDestination (s : UcxPullNet) : UcxPullEvent → Prop
  | .send msg => isPull msg = true → ∀ i ∈ s.outstanding, ∀ p ∈ s.pulls[i]?,
      ucxDecodeKey msg = some p.key → p.addr = msg.msgMeta.addr.toNat
  | _ => True

instance (s : UcxPullNet) : (e : UcxPullEvent) → Decidable (SameDestination s e)
  | .send _ => inferInstanceAs (Decidable (_ → ∀ i ∈ _, ∀ p ∈ _, _ → _))
  | .respond _ _ => inferInstanceAs (Decidable True)
  | .receive _ _ => inferInstanceAs (Decidable True)

/-- Every response so far was received where its pull says. -/
def Landed (s : UcxPullNet) : Prop :=
  ∀ r ∈ s.landed, ∃ p, s.pulls[r.1]? = some p ∧ r.2 = some (.user p.addr)

/-- The table has the destination of every outstanding pull. -/
structure Cached (s : UcxPullNet) : Prop where
  outstanding : ∀ i ∈ s.outstanding, ∃ p, s.pulls[i]? = some p ∧ s.worker.rxPool.wPool p.key = some p.addr
  landed : Landed s

variable {cfg} {s s' : UcxPullNet}

theorem wPool_getRxBuffer {pool pool' : UcxRecvPool} {key : Key} {nodeId : NodeId} {size : Nat} {push : Bool}
    {buffer : Mem} (h : pool.getRxBuffer key nodeId size push = some (buffer, pool')) :
    pool'.wPool = pool.wPool := by
  unfold UcxRecvPool.getRxBuffer at h
  cases push with
  | false =>
    obtain ⟨addr, -, heq⟩ := Option.map_eq_some_iff.mp h
    obtain rfl := congrArg Prod.snd heq
    rfl
  | true =>
    rw [if_neg (by decide)] at h
    split at h
    · split_ifs at h
      all_goals
        obtain rfl := congrArg Prod.snd (Option.some.inj h)
        rfl
    · obtain rfl := congrArg Prod.snd (Option.some.inj h)
      rfl

theorem wPool_postRecvData {van van' : UcxVan} {raw : Buf} {sender : NodeId} {act : RecvAction}
    (h : van.postRecvData raw sender = some (van', act)) : van'.rxPool.wPool = van.rxPool.wPool := by
  rcases postRecvData_eq_some h with ⟨-, -, hw⟩ | ⟨buffer, rxPool, hw, hbuf, -⟩
  · exact hw
  · exact hw.trans (wPool_getRxBuffer hbuf)

theorem ne_optionMeta {van : UcxVan} {msg msg₁ : Message} {option : Int} {payload : Option (Nat × Nat)}
    {data : Option DataTxReq} (h : PostsPayload cfg van msg msg₁ option payload data)
    (hpos : 0 < getPackMetaLen msg₁.msgMeta) (hd : isDataMsg msg = true) : option ≠ ucxOptionMeta := by
  cases h with
  | none hd' => exact absurd (hd'.symm.trans hd) (by decide)
  | bundled =>
    unfold ucxOptionMeta
    omega
  | empty => decide
  | separate => decide

/-- A response is received at the address cached for its key. -/
theorem buffer_postRecvData {server server' van van' : UcxVan} {msg : Message} {req : MetaTxReq}
    {data : Option DataTxReq} {act : RecvAction} {sender : NodeId} {p : UcxPull} {addr : Nat}
    (hresp : isResponseTo p msg = true) (hsend : server.sendMsg cfg msg = some (server', req, data))
    (hrecv : van.postRecvData req.buf sender = some (van', act)) (haddr : van.rxPool.wPool p.key = some addr) :
    act.buffer = some (.user addr) := by
  obtain ⟨⟨hd, hpush⟩, hkey⟩ : (isDataMsg msg = true ∧ msg.msgMeta.push = false) ∧ msg.msgMeta.key = p.key := by
    simpa [isResponseTo] using hresp
  obtain ⟨msg₁, hprep, hposts⟩ := sendMsg_eq_some hsend
  obtain ⟨option, hpay, hreads⟩ := hposts.reads hprep
  have hreq : isRequest msg = false := by
    -- without `push`, only a response has a payload
    rw [isDataMsg, hpush] at hd
    simp only [Bool.false_and, Bool.not_false, Bool.true_and, Bool.false_or, Bool.and_eq_true,
      Bool.not_eq_true'] at hd
    rw [isRequest, hd.2, Bool.and_false]
  have hne := ne_optionMeta hpay hposts.pos hd
  rcases postRecvData_eq_some hrecv with ⟨hopt, -⟩ | ⟨buffer, rxPool, -, hbuf, hact⟩
  · exact absurd (hreads.option.symm.trans hopt) hne
  · rw [hreads.key, hreads.push, hpush, (hprep.other hreq).1, hkey] at hbuf
    have hbuffer : buffer = .user addr := by
      rw [UcxRecvPool.getRxBuffer, Bool.not_false, if_pos rfl, haddr] at hbuf
      exact (congrArg Prod.fst (Option.some.inj hbuf)).symm
    rcases hact with ⟨-, rfl⟩ | ⟨-, tag, -, rfl⟩
    · rw [RecvAction.buffer, hbuffer]
    · rw [RecvAction.buffer, hbuffer]

theorem Cached.send {msg : Message} (h : Cached s) (hsame : SameDestination s (.send msg))
    (hs : s.step cfg (.send msg) = some s') : Cached s' := by
  obtain ⟨⟨worker, req, data⟩, hsend, hs⟩ := Option.bind_eq_some_iff.mp hs
  obtain ⟨msg₁, hprep, -⟩ := sendMsg_eq_some hsend
  have hpool := hprep.rxPool
  dsimp only at hs
  cases hpull : isPull msg with
  | false =>
    rw [if_neg (by rw [hpull]; decide)] at hs
    obtain rfl := Option.some.inj hs
    rw [hpull, if_neg (by decide)] at hpool
    refine ⟨fun i hi => ?_, h.landed⟩
    rw [hpool]
    exact h.outstanding i hi
  | true =>
    rw [if_pos hpull] at hs
    obtain ⟨key, hkey, hs⟩ := Option.bind_eq_some_iff.mp hs
    obtain rfl := Option.some.inj hs
    have hkey₁ : msg₁.msgMeta.key = key :=
      Option.some.inj ((hprep.request (Bool.and_eq_true_iff.mp hpull).1).1.symm.trans hkey)
    have hw : worker.rxPool.wPool = Function.update s.worker.rxPool.wPool key (some msg.msgMeta.addr.toNat) := by
      rw [hpool, hpull, if_pos rfl, hkey₁]
      rfl
    have hgrow : ∀ {i : Nat} {p : UcxPull}, s.pulls[i]? = some p →
        (s.pulls ++ [⟨msg.msgMeta.recver, key, msg.msgMeta.addr.toNat⟩])[i]? = some p := by
      intro i p hp
      rw [List.getElem?_append_left (List.getElem?_eq_some_iff.mp hp).1, hp]
    constructor
    · intro i hi
      rcases List.mem_append.mp hi with hi | hi
      · obtain ⟨p, hp, hcached⟩ := h.outstanding i hi
        refine ⟨p, hgrow hp, ?_⟩
        rw [hw]
        by_cases hk : p.key = key
        · rw [hk, Function.update_self, hsame hpull i hi p hp (by rw [hkey, hk])]
        · rw [Function.update_of_ne hk, hcached]
      · obtain rfl := List.mem_singleton.mp hi
        refine ⟨_, List.getElem?_concat_length, ?_⟩
        rw [hw, Function.update_self]
    · intro r hr
      obtain ⟨p, hp, hbuf⟩ := h.landed r hr
      exact ⟨p, hgrow hp, hbuf⟩

theorem Cached.step {e : UcxPullEvent} (h : Cached s) (hsame : SameDestination s e)
    (hs : s.step cfg e = some s') : Cached s' := by
  cases e with
  | send msg => exact h.send hsame hs
  | receive raw sender =>
    rw [UcxPullNet.step] at hs
    obtain ⟨⟨worker, act⟩, hrecv, hs⟩ := Option.bind_eq_some_iff.mp hs
    obtain rfl := Option.some.inj hs
    refine ⟨fun i hi => ?_, h.landed⟩
    rw [wPool_postRecvData hrecv]
    exact h.outstanding i hi
  | respond i msg =>
    obtain ⟨_, hi, hs⟩ := Option.bind_eq_some_iff.mp hs
    obtain ⟨p, hp, hs⟩ := Option.bind_eq_some_iff.mp hs
    obtain ⟨_, hresp, hs⟩ := Option.bind_eq_some_iff.mp hs
    obtain ⟨⟨server, req, data⟩, hsend, hs⟩ := Option.bind_eq_some_iff.mp hs
    obtain ⟨⟨worker, act⟩, hrecv, hs⟩ := Option.bind_eq_some_iff.mp hs
    obtain rfl := Option.some.inj hs
    obtain ⟨p', hp', hcached⟩ := h.outstanding i (by simpa [guard] using hi)
    obtain rfl := Option.some.inj (hp.symm.trans hp')
    have hland := buffer_postRecvData (by simpa [guard] using hresp) hsend hrecv hcached
    constructor
    · intro j hj
      rw [wPool_postRecvData hrecv]
      exact h.outstanding j (List.mem_of_mem_erase hj)
    · intro r hr
      rcases List.mem_append.mp hr with hr | hr
      · exact h.landed r hr
      · obtain rfl := List.mem_singleton.mp hr
        exact ⟨p, hp, hland⟩

/-- Worker 9 asks a server for key 7. -/
def samplePull (server : NodeId) (addr : UInt64) : Message where
  msgMeta := { request := true, recver := server, addr := addr, valLen := 16 }
  data := [{ size := 8 }, {}]
  keys := [7]

/-- A server answers with 16 bytes. -/
def sampleResponse : Message where
  msgMeta := { recver := 9, key := 7, srcDevType := .cpu }
  data := [{ size := 8 }, { ptr := 64, size := 16 }, { size := 4 }]

end UcxPullNet

end StepMesh
