import StepMesh.RdmaPops
import StepMesh.Lib.RendezvousOrder

/-!
# The messages of a batch, in order

A message whose address is known is written at once, one that starts a rendezvous when the answer is there. So
the requests of a batch reach a node in the order in which they were sent as long as none takes the first way
while an earlier one of the batch is still to be written (`InTurn`): what `RecvMsg` hands out of a batch is then
a prefix of what was sent of it (`Turned.received_within`).
-/

namespace StepMesh

open RdmaVan (SentAs Arrays messageKey)

namespace RdmaNet

/-- What `a` has sent to `b`, in order. -/
def sentFrom (s : RdmaNet) (a b : NodeId) : List SentMsg :=
  s.sent.filter fun x => x.sender = a ∧ x.msg.msgMeta.recver = b

/-- What `b` has been handed out of `a`, in order. -/
def pops (s : RdmaNet) (a b : NodeId) : List Pop := s.popped.filter fun p => p.node = b ∧ p.note.endpoint = a

/-- A push or pull request. -/
def isRequest (msg : Message) : Bool := isValidPushpull msg && msg.msgMeta.request

/-- The calls of `SendMsg` at `a` for `b`. -/
def sendsOf (a b : NodeId) (as : List Action) : List Message :=
  as.filterMap fun
    | .sendMsg n msg => if n = a ∧ msg.msgMeta.recver = b then some msg else none
    | _ => none

/-- A request for data with one of these timestamps. -/
def within (batch : List Int) (msg : Message) : Bool := isRequest msg && decide (msg.msgMeta.timestamp ∈ batch)

/-- A message is sent in turn. The batches to `b` are given by their timestamps: when the address of a message is
known, the earlier ones of its sender with its key, kind and receiver have been handed out, and of a request to
`b` all earlier ones of the batch have been written. -/
def InTurn (b : NodeId) (batches : List (List Int)) (s : RdmaNet) : Action → Prop
  | .sendMsg n msg => s.OrderedIfKnown (.sendMsg n msg) ∧ (isValidPushpull msg = false → Packable msg.msgMeta) ∧
      (msg.msgMeta.recver = b → (s.vans n).remoteInfo (messageKey msg) msg.msgMeta.push b ≠ none →
        ∀ batch ∈ batches, within batch msg → ∀ (u : Nat) x, s.sent[u]? = some x → x.sender = n →
          x.msg.msgMeta.recver = b → within batch x.msg → u ∈ s.posted n b)
  | _ => True

/-- The message with this number is one of the batch. -/
def numberWithin (s : RdmaNet) (batch : List Int) (u : Nat) : Bool := (s.sent[u]?).any (within batch ·.msg)

/-- What is handed out for a message. -/
structure Received (x : SentMsg) (p : Pop) : Prop where
  valid : isValidPushpull p.msg = isValidPushpull x.msg
  header : p.msg.msgMeta.header = x.msg.msgMeta.header
  sender : p.msg.msgMeta.sender = x.sender
  arrays : isValidPushpull p.msg → p.msg.msgMeta.request → Arrays p.msg

theorem Received.within {x : SentMsg} {p : Pop} (h : Received x p) (batch : List Int) :
    within batch p.msg = within batch x.msg := by
  have hreq : p.msg.msgMeta.request = x.msg.msgMeta.request := congrArg Header.request h.header
  have hts : p.msg.msgMeta.timestamp = x.msg.msgMeta.timestamp := congrArg Header.timestamp h.header
  rw [RdmaNet.within, RdmaNet.within, isRequest, isRequest, h.valid, hreq, hts]

/-- The invariant of the runs in which every message is sent in turn. -/
structure Turned (cfg : RdmaCfg) (b : NodeId) (batches : List (List Int)) (s : RdmaNet) : Prop where
  ok : NetOk cfg s
  packable : ∀ x ∈ s.sent, isValidPushpull x.msg = false → Packable x.msg.msgMeta
  inOrder : ∀ a, ∀ batch ∈ batches, (s.abs cfg).InOrder (s.numberWithin batch) a b
  received : ∀ p ∈ s.popped, ∃ x, s.sent[p.note.uid]? = some x ∧ Received x p

variable {cfg : RdmaCfg} {s s' : RdmaNet} {a b n : NodeId} {batch : List Int} {batches : List (List Int)}

theorem turned_init (cfg : RdmaCfg) (b : NodeId) (batches : List (List Int)) (isServer : NodeId → Bool) :
    Turned cfg b batches (init cfg isServer) where
  ok := netOk_init cfg isServer
  packable _ h := nomatch h
  inOrder _ _ _ := rfl
  received _ h := nomatch h

theorem sent_step {act : Action} (hs : step cfg s act = some s') :
    (∃ n msg m buf, act = .sendMsg n msg ∧ SentAs msg m ∧ s'.sent = s.sent ++ [⟨n, m, buf⟩]) ∨
      (∀ n msg, act ≠ .sendMsg n msg) ∧ s'.sent = s.sent := by
  cases act with
  | sendMsg n msg =>
    obtain ⟨⟨van, out, m, buf⟩, hsend, hs⟩ := Option.bind_eq_some_iff.mp hs
    obtain rfl := Option.some.inj hs
    obtain ⟨-, hm, -⟩ := RdmaVan.sendMsg_eq_some hsend
    exact .inl ⟨n, msg, m, buf, rfl, hm, rfl⟩
  | deliver l =>
    obtain ⟨wr, rest, -, rfl⟩ := step_deliver_eq_some hs
    exact .inr ⟨fun _ _ => Action.noConfusion, rfl⟩
  | pollCQ n =>
    rw [step] at hs
    split at hs
    · obtain ⟨⟨van, out⟩, -, hs⟩ := Option.bind_eq_some_iff.mp hs
      obtain rfl := Option.some.inj hs
      exact .inr ⟨fun _ _ => Action.noConfusion, rfl⟩
    · cases hs
  | recvMsg n =>
    obtain ⟨⟨van, note, msg⟩, -, hs⟩ := Option.bind_eq_some_iff.mp hs
    obtain rfl := Option.some.inj hs
    exact .inr ⟨fun _ _ => Action.noConfusion, rfl⟩
  | store n addr bytes =>
    obtain rfl := Option.some.inj hs
    exact .inr ⟨fun _ _ => Action.noConfusion, rfl⟩

theorem sent_grows {act : Action} (hs : step cfg s act = some s') : s.sent <+: s'.sent := by
  rcases sent_step hs with ⟨n, msg, m, buf, -, -, hsent⟩ | ⟨-, hsent⟩
  · rw [hsent]
    exact List.prefix_append ..
  · rw [hsent]

theorem InTurn.ordered {act : Action} (h : s.InTurn b batches act) : s.OrderedIfKnown act := by
  cases act with
  | sendMsg n msg => exact h.1
  | _ => trivial

theorem within_of_sentAs {msg m : Message} (h : SentAs msg m) : within batch m = within batch msg := by
  obtain ⟨⟨option, rfl, -⟩, -⟩ := h
  rfl

theorem remoteInfo_of_cached {msg : Message} {x : Rendezvous.Item NodeId (Bool × Key × Bool) Buf}
    {p : Rendezvous.Place} (hs : step cfg s (.sendMsg n msg) = some s') (habs : s'.abs cfg = (s.abs cfg).cached x p)
    (hsrc : x.src = a) (hdst : x.dst = b) : n = a ∧ msg.msgMeta.recver = b ∧ isValidPushpull msg ∧
      (s.vans n).remoteInfo (messageKey msg) msg.msgMeta.push b ≠ none := by
  obtain ⟨⟨van, out, m, buf⟩, hsend, hs⟩ := Option.bind_eq_some_iff.mp hs
  obtain rfl := Option.some.inj hs
  obtain ⟨-, hm, van₀, -, hpath⟩ := RdmaVan.sendMsg_eq_some hsend
  obtain ⟨⟨option, rfl, -⟩, -⟩ := hm
  have hsent := congrArg Rendezvous.State.sent habs
  simp only [abs, List.map_append, List.map_cons, List.map_nil, Rendezvous.State.cached, Rendezvous.State.write,
    List.append_cancel_left_eq, List.cons.injEq, and_true] at hsent
  subst hsent
  obtain rfl : n = a := hsrc
  obtain rfl : msg.msgMeta.recver = b := hdst
  rcases hpath with ⟨-, -, hfirst⟩ | ⟨t, hv, ht, -⟩
  · -- a rendezvous writes nothing
    obtain ⟨_, _, _, rfl, _⟩ := RdmaVan.sendFirst_eq_some hfirst
    have hposted := congrFun (congrFun (congrArg Rendezvous.State.posted habs) n) msg.msgMeta.recver
    simp [abs, post, setVan, Rendezvous.State.cached, Rendezvous.Inv.posted_write, WorkRequest.signal,
      SentMsg.item] at hposted
  · replace hv : isValidPushpull msg = true := hv
    refine ⟨rfl, rfl, hv, fun hnone => ?_⟩
    simp only [if_pos hv] at ht
    cases ht.symm.trans hnone

/-- A message is not taken for one of the other kind. -/
theorem isValidPushpull_eq_of_header {msg msg' : Message} (h : msg.msgMeta.header = msg'.msgMeta.header) :
    isValidPushpull msg = isValidPushpull msg' := by
  have hcmd : msg.msgMeta.control.cmd = msg'.msgMeta.control.cmd := congrArg Header.cmd h
  have happ : msg.msgMeta.simpleApp = msg'.msgMeta.simpleApp := congrArg Header.simpleApp h
  rw [isValidPushpull, isValidPushpull, hcmd, happ]

theorem poppedFrom_eq_map (s : RdmaNet) (a b : NodeId) : s.poppedFrom a b = (s.pops a b).map (·.note.uid) := by
  rw [poppedFrom, pops, ← List.filterMap_eq_map, List.filterMap_filter]
  refine List.filterMap_congr fun p _ => ?_
  simp only [decide_eq_true_eq, Function.comp_apply]

theorem filterMap_sentTo (cfg : RdmaCfg) (s : RdmaNet) (a b : NodeId) :
    ((s.abs cfg).sentTo a b).filterMap (s.sent[·]?) = s.sentFrom a b := by
  rw [Rendezvous.State.sentTo, show (s.abs cfg).sent = s.sent.map (·.item cfg) from rfl, List.zipIdx_map,
    List.filterMap_map]
  exact List.filterMap_getElem?_zipIdx s.sent fun x => x.sender = a ∧ x.msg.msgMeta.recver = b

namespace Turned

theorem received_recvMsg (h : Turned cfg b batches s) {van : RdmaVan} {note : Notification} {msg : Message}
    (hrecv : (s.vans n).recvMsg cfg = some (van, note, msg)) :
    ∃ x, s.sent[note.uid]? = some x ∧ Received x ⟨n, note, msg⟩ := by
  obtain ⟨rest, m, hbufs, -, -, hunpack, hmsg⟩ := RdmaVan.recvMsg_eq_some hrecv
  have hnote : note ∈ (s.vans n).recvBuffers := by
    rw [hbufs]
    exact List.mem_cons_self
  replace hmsg := hmsg (h.ok.cmd n note hnote)
  obtain ⟨x, hx, hsrc, -, hmem⟩ := h.ok.holds_of_note hnote
  have hmem' := List.mem_of_getElem? hx
  have hsendable := h.ok.sendable x hmem'
  have hheader : m.header = x.msg.msgMeta.header := by
    cases hv : isValidPushpull x.msg with
    | true =>
      have hdata : x.msg.msgMeta.control.cmd = .empty := by
        simp only [isValidPushpull, Bool.and_eq_true, decide_eq_true_eq] at hv
        exact hv.1
      exact hmem.header_eq hdata (hsendable.fits hv) hsendable.len hunpack
    | false => exact hmem.header_eq_of_packable (h.packable x hmem' hv) hsendable.len hunpack
  have hheader' : msg.msgMeta.header = x.msg.msgMeta.header := by
    rw [hmsg]
    exact hheader
  refine ⟨x, hx, isValidPushpull_eq_of_header hheader', hheader', ?_, fun hv hreq => ?_⟩
  · rw [hsrc]
    exact congrArg Meta.sender hmsg
  · exact RdmaVan.recvMsg_arrays hrecv hv hreq

theorem packable_step (h : Turned cfg b batches s) {act : Action} (hturn : s.InTurn b batches act)
    (hs : RdmaNet.step cfg s act = some s') :
    ∀ x ∈ s'.sent, isValidPushpull x.msg = false → Packable x.msg.msgMeta := by
  intro x hx hv
  rcases sent_step hs with ⟨n, msg, m, buf, rfl, hm, hsent⟩ | ⟨-, hsent⟩
  · rw [hsent] at hx
    rcases List.mem_append.mp hx with hx | hx
    · exact h.packable x hx hv
    · obtain rfl := List.mem_singleton.mp hx
      obtain ⟨⟨option, rfl, hoption⟩, -⟩ := hm
      replace hv : isValidPushpull msg = false := hv
      have hpack := hturn.2.1 hv
      have hints := hpack.ints
      simp only [List.forall_mem_cons] at hints
      refine ⟨?_, hpack.int8s, hpack.shape_ints, hpack.shape_length, hpack.nodes, hpack.node_nil,
        hpack.barrierGroup, hpack.msgSig⟩
      simp [hoption hints.2.2.2.2.2.2.2.2.1, hints]
  · exact h.packable x (hsent ▸ hx) hv

theorem inOrder_step (hp : 0 < cfg.pagesize) (hbits : cfg.poolSize ≤ 0x8000) (h : Turned cfg b batches s)
    {act : Action} (hturn : s.InTurn b batches act) (hs : RdmaNet.step cfg s act = some s') (a : NodeId)
    (hbatch : batch ∈ batches) : (s'.abs cfg).InOrder (s'.numberWithin batch) a b := by
  have hold : (s.abs cfg).InOrder (s'.numberWithin batch) a b := by
    refine (h.inOrder a batch hbatch).congr h.ok.proto fun u hu => ?_
    obtain ⟨y, hy, -⟩ := Rendezvous.State.mem_sentTo.mp hu
    obtain ⟨x, hx, -⟩ := of_sent_abs hy
    rw [numberWithin, numberWithin, (sent_grows hs).getElem?_some hx, hx]
  rcases (h.ok.next hp hbits hturn.ordered hs).refines with hstep | heq
  · refine hold.step h.ok.proto hstep fun x p habs hsrc hdst hnew u hu hwithin => ?_
    rw [show (s.abs cfg).sent.length = s.sent.length from List.length_map ..] at hnew
    rcases sent_step hs with ⟨n, msg, m, buf, rfl, hm, hsent⟩ | ⟨-, hsent⟩
    · obtain ⟨rfl, hrecver, hv, hinfo⟩ := remoteInfo_of_cached hs habs hsrc hdst
      obtain ⟨y, hy, hysrc, hydst⟩ := Rendezvous.State.mem_sentTo.mp hu
      obtain ⟨z, hz, rfl⟩ := of_sent_abs hy
      rw [numberWithin, hsent, List.getElem?_concat_length] at hnew
      rw [numberWithin, (sent_grows hs).getElem?_some hz] at hwithin
      exact hturn.2.2 hrecver hinfo batch hbatch (within_of_sentAs hm ▸ hnew) u z hz hysrc hydst hwithin
    · -- nothing was sent
      rw [numberWithin, hsent, List.getElem?_eq_none (Nat.le_refl _)] at hnew
      cases hnew
  · rw [heq]
    exact hold

theorem step (hp : 0 < cfg.pagesize) (hbits : cfg.poolSize ≤ 0x8000) (h : Turned cfg b batches s) {act : Action}
    (hturn : s.InTurn b batches act) (hs : RdmaNet.step cfg s act = some s') : Turned cfg b batches s' := by
  refine ⟨h.ok.step hp hbits hturn.ordered hs, h.packable_step hturn hs,
    fun a _ => h.inOrder_step hp hbits hturn hs a, fun p hpop => ?_⟩
  have hold : p ∈ s.popped → ∃ x, s'.sent[p.note.uid]? = some x ∧ Received x p := by
    intro hpop
    obtain ⟨x, hx, hrec⟩ := h.received p hpop
    exact ⟨x, (sent_grows hs).getElem?_some hx, hrec⟩
  cases act with
  | recvMsg n =>
    obtain ⟨⟨van, note, msg⟩, hrecv, hs⟩ := Option.bind_eq_some_iff.mp hs
    obtain rfl := Option.some.inj hs
    rcases List.mem_append.mp hpop with hpop | hpop
    · exact hold hpop
    · obtain rfl := List.mem_singleton.mp hpop
      exact h.received_recvMsg hrecv
  | sendMsg n msg =>
    obtain ⟨⟨van, out, m, buf⟩, -, hs⟩ := Option.bind_eq_some_iff.mp hs
    obtain rfl := Option.some.inj hs
    exact hold hpop
  | deliver l =>
    obtain ⟨wr, rest, -, rfl⟩ := step_deliver_eq_some hs
    exact hold hpop
  | pollCQ n =>
    rw [RdmaNet.step] at hs
    split at hs
    · obtain ⟨⟨van, out⟩, -, hs⟩ := Option.bind_eq_some_iff.mp hs
      obtain rfl := Option.some.inj hs
      exact hold hpop
    · cases hs
  | store n addr bytes =>
    obtain rfl := Option.some.inj hs
    exact hold hpop

/-- What has been handed out of a batch are the first messages that were sent of it, in order. -/
theorem received_within (h : Turned cfg b batches s) (hbatch : batch ∈ batches) (a : NodeId) :
    ∃ xs, xs <+: (s.sentFrom a b).filter (within batch ·.msg) ∧
      List.Forall₂ Received xs ((s.pops a b).filter (within batch ·.msg)) := by
  have hpops : (s.poppedFrom a b).filter (s.numberWithin batch) =
      ((s.pops a b).filter (within batch ·.msg)).map (·.note.uid) := by
    rw [poppedFrom_eq_map, List.filter_map]
    refine congrArg _ (List.filter_congr fun p hp => ?_)
    obtain ⟨x, hx, hrec⟩ := h.received p (List.mem_of_mem_filter hp)
    rw [Function.comp_apply, numberWithin, hx, Option.any_some, hrec.within]
  have hsent : (((s.abs cfg).sentTo a b).filter (s.numberWithin batch)).filterMap (s.sent[·]?) =
      (s.sentFrom a b).filter (RdmaNet.within batch ·.msg) := by
    rw [← filterMap_sentTo cfg, List.filterMap_filter, List.filter_filterMap]
    refine List.filterMap_congr fun u _ => ?_
    rw [numberWithin]
    cases s.sent[u]? <;> rfl
  have hfirst := ((h.inOrder a batch hbatch).poppedFrom_filter h.ok.proto).filterMap (s.sent[·]?)
  rw [poppedFrom_abs, hpops, hsent, List.filterMap_map] at hfirst
  refine ⟨_, hfirst, List.forall₂_filterMap_left fun p hp => ?_⟩
  exact h.received p (List.mem_of_mem_filter (List.mem_of_mem_filter hp))

end Turned

theorem sentAs_sendsOf {isServer : NodeId → Bool} {as : List Action}
    (h : Run.exec (step cfg) (init cfg isServer) as = some s) (a b : NodeId) :
    List.Forall₂ (fun msg x => SentAs msg x.msg) (sendsOf a b as) (s.sentFrom a b) := by
  refine Run.exec_invariant_of_inputs
    (fun as s => List.Forall₂ (fun msg x => SentAs msg x.msg) (sendsOf a b as) (s.sentFrom a b)) .nil
    (fun as act t t' hold hs => ?_) h
  rw [sendsOf, List.filterMap_append, sentFrom]
  rcases sent_step hs with ⟨n, msg, m, buf, rfl, hm, hsent⟩ | ⟨hnot, hsent⟩
  · have hrecver : m.msgMeta.recver = msg.msgMeta.recver := by
      obtain ⟨⟨option, rfl, -⟩, -⟩ := hm
      rfl
    rw [hsent, List.filter_append]
    refine List.rel_append hold ?_
    by_cases hab : n = a ∧ msg.msgMeta.recver = b
    · simpa [hrecver, hab] using hm
    · simp [hrecver, hab]
  · rw [hsent]
    cases act with
    | sendMsg n msg => exact absurd rfl (hnot n msg)
    | _ => simpa [sendsOf, sentFrom] using hold

end RdmaNet

end StepMesh
