import Mathlib.Data.List.Perm.Basic
import StepMesh.Lib.Resequencer
import StepMesh.Lib.Run
import StepMesh.UcxVanSpec

/-!
# Requests in order over the UCX van

A sender numbers its requests to a receiver. They arrive in any order and between any other messages;
`ReorderMsg` emits a request when it is the next of its sender, with the ones parked behind it, and parks it
otherwise. `requests_in_order`: what it has emitted of a sender's requests is the beginning of what was sent,
and what is parked are the ones that have arrived behind the first missing one. The sequence ids are `int`s,
so this is about fewer than 2³¹ requests of a sender.
-/

namespace StepMesh

open Buf Resequencer

namespace UcxVan

/-! ### The loop over the parked requests -/

variable {xs : List UcxBuffer} {seen : Nat → Prop} {k : Nat} {buffs : AList (fun _ : Int => UcxBuffer)}

theorem tmod_maxSidCount {n : Nat} (h : n < 2 ^ 31) : (n : Int).tmod maxSidCount = n := by
  unfold maxSidCount
  rw [Int.tmod_neg]
  exact Int.tmod_eq_of_lt (by omega) (by omega)

theorem length_entries_erase {sid : Int} {buf : UcxBuffer} (h : buffs.lookup sid = some buf) :
    (buffs.erase sid).entries.length + 1 = buffs.entries.length := by
  have hmem : sid ∈ buffs.entries.keys := AList.lookup_isSome.mp (by rw [h]; rfl)
  obtain ⟨b, l₁, l₂, -, heq, herase⟩ := List.exists_of_kerase hmem
  change (buffs.entries.kerase sid).length + 1 = _
  rw [herase, heq, List.length_append, List.length_append, List.length_cons]
  omega

/-- After request `k`, the loop emits the ones seen up to the first that is missing. -/
theorem flush_spec (hxs : xs.length < 2 ^ 31) (hseen : ∀ j, seen j → j < xs.length) {rounds : Nat}
    (hk : k < xs.length) (hp : Parked xs seen k buffs) (hrounds : buffs.entries.length < rounds) :
    ∃ k', k < k' ∧ (∀ j, k < j → j < k' → seen j) ∧ ¬ seen k' ∧ (flush rounds k buffs).1 = k' ∧
      Parked xs seen k' (flush rounds k buffs).2.1 ∧
      (flush rounds k buffs).2.2 = (xs.drop (k + 1)).take (k' - (k + 1)) := by
  induction rounds generalizing k buffs with
  | zero => omega
  | succ rounds ih =>
    have hnext : ((k : Int) + 1).tmod maxSidCount = (k + 1 : Nat) := tmod_maxSidCount (n := k + 1) (by omega)
    rw [flush, hnext]
    cases hl : buffs.lookup ((k + 1 : Nat) : Int) with
    | none =>
      have hmiss := hp.not_seen_of_lookup hseen hl
      exact ⟨k + 1, by omega, fun j h₁ h₂ => by omega, hmiss, rfl, hp.of_missing hmiss, by simp⟩
    | some buf =>
      obtain ⟨hs, hx⟩ := hp.seen_of_lookup hl
      have hlen := length_entries_erase hl
      obtain ⟨hlt, hget⟩ := List.getElem?_eq_some_iff.mp hx
      obtain ⟨k', hk', hbetween, hmiss, hsid, hparked, hout⟩ := ih hlt hp.erase_next (by omega)
      refine ⟨k', by omega, fun j h₁ h₂ => ?_, hmiss, hsid, hparked, ?_⟩
      · rcases Nat.eq_or_lt_of_le (show k + 1 ≤ j by omega) with rfl | hj
        · exact hs
        · exact hbetween j hj h₂
      · dsimp only
        rw [hout, List.drop_eq_getElem_cons hlt, hget, show k' - (k + 1) = k' - (k + 1 + 1) + 1 by omega,
          List.take_succ_cons]

/-- A request of a sender whose requests are `xs`: it is parked, or emitted with what follows. -/
theorem reorderRequest_spec {van : UcxVan} {buf : UcxBuffer} {j : Nat} (hxs : xs.length < 2 ^ 31)
    (hseq : Resequenced xs seen k (van.recvSidBuffers buf.sender)) (hnext : van.nextRecvSids buf.sender = k)
    (hsender : 0 ≤ buf.sender) (hsid : rawInt buf.rawMeta RawMeta.sid = j) (hj : ¬ seen j)
    (hx : xs[j]? = some buf) :
    ∃ van' k', van.reorderRequest buf = some van' ∧ k ≤ k' ∧
      Resequenced xs (fun i => seen i ∨ i = j) k' (van'.recvSidBuffers buf.sender) ∧
      van'.nextRecvSids buf.sender = k' ∧
      van'.rxPool = { van.rxPool with
        orderedRecvBuffers := van.rxPool.orderedRecvBuffers ++ (xs.drop k).take (k' - k) } ∧
      (∀ a, a ≠ buf.sender → van'.nextRecvSids a = van.nextRecvSids a ∧
        van'.recvSidBuffers a = van.recvSidBuffers a) ∧ van'.id = van.id := by
  obtain ⟨hlt, hget⟩ := List.getElem?_eq_some_iff.mp hx
  unfold reorderRequest
  simp only [hsid, hnext, hsender, Int.natCast_nonneg, guard_true, Option.pure_def, Option.bind_eq_bind,
    Option.bind_some]
  by_cases heq : j = k
  · subst heq
    rw [if_pos rfl]
    obtain ⟨k', hk', hbetween, hmiss, hnext', hparked, hout⟩ :=
      flush_spec hxs hseq.seen_lt hlt hseq.parked (Nat.lt_succ_self _)
    refine ⟨_, k', rfl, by omega, ?_, ?_, ?_, fun a ha => ?_, rfl⟩
    · simp only [Function.update_self]
      exact hseq.advance hlt hk' hbetween hmiss hparked
    · simp only [Function.update_self]
      exact hnext'
    · rw [hout, List.drop_eq_getElem_cons hlt, hget, show k' - j = k' - (j + 1) + 1 by omega, List.take_succ_cons]
      rfl
    · simp only [Function.update_of_ne ha, and_self]
  · rw [if_neg (by omega)]
    refine ⟨_, k, rfl, Nat.le_refl k, ?_, hnext, by simp, fun a ha => ?_, rfl⟩
    · simp only [Function.update_self]
      exact hseq.park hj heq hx
    · simp only [Function.update_of_ne ha, and_self]

/-- The van without the message at the front of `recv_buffers_`. -/
def popped (van : UcxVan) (rest : List UcxBuffer) : UcxVan :=
  { van with rxPool := { van.rxPool with recvBuffers := rest } }

theorem reorderMsg_cons {cfg : UcxCfg} {van : UcxVan} {buf : UcxBuffer} {rest : List UcxBuffer}
    (hq : van.rxPool.recvBuffers = buf :: rest) :
    van.reorderMsg cfg = if !isPushpullRequest buf.rawMeta || !cfg.forceRequestOrder then
        some ((van.popped rest).pushOrdered [buf])
      else (van.popped rest).reorderRequest buf := by
  rw [reorderMsg, hq]
  rfl

end UcxVan

/-! ### Senders and a receiver -/

/-- Any number of senders and one receiver. `sent` lists all that was sent to it, `wire` what has not arrived,
and `handled` what `ReorderMsg` has taken from `recv_buffers_`. -/
structure UcxOrderNet where
  senders : NodeId → UcxVan := fun id => { id := id }
  receiver : UcxVan
  sent : List UcxBuffer := []
  wire : List UcxBuffer := []
  handled : List UcxBuffer := []

/-- A node sends a message, one on the wire arrives, or `ReorderMsg` does a round. -/
inductive UcxOrderEvent
  | send (sender : NodeId) (msg : Message)
  | arrive (i : Nat)
  | reorder

namespace UcxOrderNet

open UcxVan

variable (cfg : UcxCfg)

/-- What `recv_buffers_` has. -/
def queue (s : UcxOrderNet) : List UcxBuffer := s.receiver.rxPool.recvBuffers

/-- All that `ReorderMsg` has emitted. -/
def emitted (s : UcxOrderNet) : List UcxBuffer := s.receiver.rxPool.orderedRecvBuffers

def step (s : UcxOrderNet) : UcxOrderEvent → Option UcxOrderNet
  | .send sender msg => do
    let (van, req, _) ← (s.senders sender).sendMsg cfg msg
    let s := { s with senders := Function.update s.senders sender van }
    if msg.msgMeta.recver = s.receiver.id then
      let buf : UcxBuffer := { rawMeta := req.buf, sender := nodeIdFromTag req.tag }
      return { s with sent := s.sent ++ [buf], wire := s.wire ++ [buf] }
    else return s
  | .arrive i => do
    let buf ← s.wire[i]?
    return { s with wire := s.wire.eraseIdx i, receiver := s.receiver.push buf }
  | .reorder => do
    let buf ← s.queue.head?
    let receiver ← s.receiver.reorderMsg cfg
    return { s with receiver := receiver, handled := s.handled ++ [buf] }

def isRequestFrom (a : NodeId) (buf : UcxBuffer) : Bool :=
  isPushpullRequest buf.rawMeta && decide (buf.sender = a)

/-- The push and pull requests of a sender. -/
def requestsOf (a : NodeId) (bufs : List UcxBuffer) : List UcxBuffer := bufs.filter (isRequestFrom a)

/-- All other messages. -/
def others (bufs : List UcxBuffer) : List UcxBuffer := bufs.filter fun buf => !isPushpullRequest buf.rawMeta

/-- Request `j` of the sender was handled. -/
def Handled (s : UcxOrderNet) (a : NodeId) (j : Nat) : Prop :=
  ∃ buf, (requestsOf a s.sent)[j]? = some buf ∧ buf ∈ s.handled

/-- The emitted requests of the sender are its first `k`, and number `k` is its first missing one. Behind it,
the ones that have arrived are parked. -/
structure InOrder (s : UcxOrderNet) (a : NodeId) (k : Nat) : Prop where
  emitted : requestsOf a s.emitted = (requestsOf a s.sent).take k
  parked : Resequenced (requestsOf a s.sent) (s.Handled a) k (s.receiver.recvSidBuffers a)

/-- Fewer than 2³¹ requests of every sender. -/
def Few (s : UcxOrderNet) : Prop := ∀ a, (requestsOf a s.sent).length < 2 ^ 31

structure Good (me : NodeId) (s : UcxOrderNet) : Prop where
  ids : ∀ a, (s.senders a).id = a
  receiver : s.receiver.id = me
  kept : (s.handled ++ s.queue ++ s.wire).Perm s.sent
  sender : ∀ buf ∈ s.sent, 0 ≤ buf.sender
  sids : ∀ a (j : Nat) buf, (requestsOf a s.sent)[j]? = some buf → rawInt buf.rawMeta RawMeta.sid = j
  next : ∀ a, (s.senders a).nextSendSids me = (requestsOf a s.sent).length
  inOrder : ∀ a, ∃ k, InOrder s a k ∧ s.receiver.nextRecvSids a = k
  passed : others s.emitted = others s.handled

variable {cfg} {me : NodeId} {s s' : UcxOrderNet}

theorem requestsOf_append (a : NodeId) (xs ys : List UcxBuffer) :
    requestsOf a (xs ++ ys) = requestsOf a xs ++ requestsOf a ys := List.filter_append ..

theorem requestsOf_concat_pos {a : NodeId} {buf : UcxBuffer} (h : isRequestFrom a buf = true)
    (bufs : List UcxBuffer) : requestsOf a (bufs ++ [buf]) = requestsOf a bufs ++ [buf] := by
  rw [requestsOf_append, requestsOf, requestsOf, List.filter_cons_of_pos h, List.filter_nil]

theorem requestsOf_concat_neg {a : NodeId} {buf : UcxBuffer} (h : isRequestFrom a buf = false)
    (bufs : List UcxBuffer) : requestsOf a (bufs ++ [buf]) = requestsOf a bufs := by
  rw [requestsOf_append, requestsOf, requestsOf, List.filter_cons_of_neg (by rw [h]; decide), List.filter_nil,
    List.append_nil]

theorem good_init (me : NodeId) : Good me { receiver := { id := me } } := by
  refine ⟨fun _ => rfl, rfl, .nil, fun _ h => (nomatch h), fun _ _ _ h => (nomatch h), fun _ => rfl, ?_, rfl⟩
  intro a
  refine ⟨0, ⟨rfl, ?_, fun j hj => (nomatch hj), ?_, ?_⟩, rfl⟩
  · rintro j ⟨buf, hbuf, -⟩
    cases hbuf
  · rintro ⟨buf, hbuf, -⟩
    cases hbuf
  · intro sid buf
    refine iff_of_false (fun h => nomatch h) ?_
    rintro ⟨j, -, -, -, hbuf⟩
    cases hbuf

theorem Good.handled_subset (h : Good me s) : ∀ buf ∈ s.handled, buf ∈ s.sent := by
  intro buf hbuf
  exact h.kept.mem_iff.mp (List.mem_append_left _ (List.mem_append_left _ hbuf))

theorem Good.not_handled (h : Good me s) {a : NodeId} {buf : UcxBuffer} (hreq : isRequestFrom a buf = true)
    (hsid : rawInt buf.rawMeta RawMeta.sid = (requestsOf a s.sent).length) : buf ∉ s.handled := by
  intro hbuf
  have hmem : buf ∈ requestsOf a s.sent := List.mem_filter.mpr ⟨h.handled_subset buf hbuf, hreq⟩
  obtain ⟨j, hj⟩ := List.mem_iff_getElem?.mp hmem
  have hlt := (List.getElem?_eq_some_iff.mp hj).1
  have := h.sids a j buf hj
  omega

theorem handled_send {a : NodeId} {buf : UcxBuffer} (hhandled : s'.handled = s.handled)
    (hsent : s'.sent = s.sent ++ [buf]) (hnew : isRequestFrom a buf = true → buf ∉ s.handled) (j : Nat) :
    s.Handled a j ↔ s'.Handled a j := by
  unfold Handled
  cases hreq : isRequestFrom a buf with
  | false => rw [hsent, requestsOf_concat_neg hreq, hhandled]
  | true =>
    rw [hsent, requestsOf_concat_pos hreq, hhandled]
    constructor
    · rintro ⟨b, hb, hmem⟩
      exact ⟨b, by rw [List.getElem?_append_left (List.getElem?_eq_some_iff.mp hb).1, hb], hmem⟩
    · rintro ⟨b, hb, hmem⟩
      rcases Nat.lt_or_ge j (requestsOf a s.sent).length with hlt | hge
      · exact ⟨b, by rwa [List.getElem?_append_left hlt] at hb, hmem⟩
      · rw [List.getElem?_append_right hge] at hb
        obtain rfl : b = buf := by simpa using List.mem_of_getElem? hb
        exact absurd hmem (hnew hreq)

theorem InOrder.send {a : NodeId} {k : Nat} {buf : UcxBuffer} (h : InOrder s a k)
    (hreceiver : s'.receiver = s.receiver) (hhandled : s'.handled = s.handled) (hsent : s'.sent = s.sent ++ [buf])
    (hnew : isRequestFrom a buf = true → buf ∉ s.handled) : InOrder s' a k := by
  have hemitted : s'.emitted = s.emitted := congrArg (·.rxPool.orderedRecvBuffers) hreceiver
  have hsame := handled_send hhandled hsent hnew
  cases hreq : isRequestFrom a buf with
  | true =>
    constructor
    · rw [hemitted, hsent, requestsOf_concat_pos hreq, List.take_append_of_le_length h.parked.le_length,
        h.emitted]
    · rw [hsent, requestsOf_concat_pos hreq, hreceiver]
      exact (h.parked.append buf).congr hsame
  | false =>
    constructor
    · rw [hemitted, hsent, requestsOf_concat_neg hreq, h.emitted]
    · rw [hsent, requestsOf_concat_neg hreq, hreceiver]
      exact h.parked.congr hsame

theorem Good.number (h : Good me s) {a : NodeId} {msg msg₁ : Message} {van : UcxVan}
    (hprep : Prepared (s.senders a) msg van msg₁) (hto : msg.msgMeta.recver = me)
    (hlt : (requestsOf a s.sent).length < 2 ^ 31) (hreq : isRequest msg = true) :
    msg₁.msgMeta.sid = (requestsOf a s.sent).length ∧
      van.nextSendSids me = (requestsOf a s.sent).length + 1 := by
  obtain ⟨-, hsid, hnext⟩ := hprep.request hreq
  rw [hto, h.next a, tmod_maxSidCount hlt] at hsid
  rw [hnext, hto, Function.update_self, hsid]
  exact ⟨rfl, rfl⟩

theorem Good.number_other (h : Good me s) {a : NodeId} {msg msg₁ : Message} {van : UcxVan}
    (hprep : Prepared (s.senders a) msg van msg₁) (hother : msg.msgMeta.recver = me → isRequest msg = false) :
    van.nextSendSids me = (requestsOf a s.sent).length := by
  cases hreq : isRequest msg with
  | true =>
    obtain ⟨-, -, hnext⟩ := hprep.request hreq
    have hne : me ≠ msg.msgMeta.recver := by
      intro heq
      rw [hother heq.symm] at hreq
      cases hreq
    rw [hnext, Function.update_of_ne hne, h.next a]
  | false => rw [(hprep.other hreq).2, h.next a]

theorem Good.send {a : NodeId} {msg : Message} (hfew : Few s') (h : Good me s)
    (hs : s.step cfg (.send a msg) = some s') : Good me s' := by
  obtain ⟨⟨van, req, data⟩, hsend, hs⟩ := Option.bind_eq_some_iff.mp hs
  obtain ⟨msg₁, hprep, hposts⟩ := sendMsg_eq_some hsend
  obtain ⟨option, -, hreads⟩ := hposts.reads hprep
  have hsender : nodeIdFromTag req.tag = a := hposts.sender.trans (h.ids a)
  have hids : ∀ b, (Function.update s.senders a van b).id = b := by
    intro b
    by_cases hb : b = a
    · subst hb
      rw [Function.update_self, hprep.id, h.ids b]
    · rw [Function.update_of_ne hb, h.ids b]
  dsimp only at hs
  by_cases hto : msg.msgMeta.recver = me
  · rw [h.receiver, if_pos hto] at hs
    obtain rfl := Option.some.inj hs
    rw [hsender] at hfew ⊢
    have hfrom : ∀ b, isRequestFrom b { rawMeta := req.buf, sender := a } =
        (isRequest msg && decide (a = b)) := by
      intro b
      rw [isRequestFrom, hreads.request]
    generalize hbuf : ({ rawMeta := req.buf, sender := a } : UcxBuffer) = buf at hfew hfrom ⊢
    have hreq : ∀ b, isRequestFrom b buf = true → b = a ∧
        rawInt buf.rawMeta RawMeta.sid = (requestsOf b s.sent).length ∧
        van.nextSendSids me = (requestsOf b s.sent).length + 1 := by
      intro b hb
      obtain ⟨hr, hab⟩ : isRequest msg = true ∧ a = b := by
        simpa only [hfrom, Bool.and_eq_true, decide_eq_true_eq] using hb
      subst hab
      have hlt := hfew a
      dsimp only at hlt
      rw [requestsOf_concat_pos hb, List.length_append, List.length_singleton] at hlt
      obtain ⟨hsid, hnum⟩ := h.number hprep hto (by omega) hr
      refine ⟨rfl, ?_, hnum⟩
      rw [← hbuf, hreads.sid (by rw [hsid]; exact fitsInt_length (by omega)), hsid]
    have hnot : isRequestFrom a buf = false → van.nextSendSids me = (requestsOf a s.sent).length := by
      intro hn
      refine h.number_other hprep fun _ => ?_
      simpa only [hfrom, decide_true, Bool.and_true] using hn
    refine ⟨hids, h.receiver, ?_, ?_, fun b j bf hbf => ?_, fun b => ?_, fun b => ?_, h.passed⟩
    · rw [← List.append_assoc]
      exact h.kept.append_right [buf]
    · intro b hb
      rcases List.mem_append.mp hb with hb | hb
      · exact h.sender b hb
      · rw [List.mem_singleton.mp hb, ← hbuf, ← hsender]
        exact Int.natCast_nonneg _
    · cases hb : isRequestFrom b buf with
      | false =>
        rw [requestsOf_concat_neg hb] at hbf
        exact h.sids b j bf hbf
      | true =>
        rw [requestsOf_concat_pos hb] at hbf
        rcases Nat.lt_or_ge j (requestsOf b s.sent).length with hlt | hge
        · rw [List.getElem?_append_left hlt] at hbf
          exact h.sids b j bf hbf
        · have hj := (List.getElem?_eq_some_iff.mp hbf).1
          rw [List.length_append, List.length_singleton] at hj
          rw [List.getElem?_append_right hge] at hbf
          obtain rfl : bf = buf := by simpa using List.mem_of_getElem? hbf
          rw [(hreq b hb).2.1]
          omega
    · cases hb : isRequestFrom b buf with
      | true =>
        obtain ⟨rfl, -, hnum⟩ := hreq b hb
        simp only [Function.update_self]
        rw [hnum, requestsOf_concat_pos hb, List.length_append]
        rfl
      | false =>
        rw [requestsOf_concat_neg hb]
        by_cases hba : b = a
        · subst hba
          simp only [Function.update_self]
          exact hnot hb
        · simp only [Function.update_of_ne hba]
          exact h.next b
    · obtain ⟨k, hk, hnext⟩ := h.inOrder b
      exact ⟨k, hk.send rfl rfl rfl fun hb => h.not_handled hb (hreq b hb).2.1, hnext⟩
  · rw [h.receiver, if_neg hto] at hs
    obtain rfl := Option.some.inj hs
    refine ⟨hids, h.receiver, h.kept, h.sender, h.sids, fun b => ?_, fun b => ?_, h.passed⟩
    · by_cases hb : b = a
      · subst hb
        simp only [Function.update_self]
        exact h.number_other hprep fun heq => absurd heq hto
      · simp only [Function.update_of_ne hb]
        exact h.next b
    · obtain ⟨k, hk, hnext⟩ := h.inOrder b
      exact ⟨k, ⟨hk.emitted, hk.parked⟩, hnext⟩

theorem Good.arrive {i : Nat} (h : Good me s) (hs : s.step cfg (.arrive i) = some s') : Good me s' := by
  obtain ⟨buf, hbuf, hs⟩ := Option.bind_eq_some_iff.mp hs
  obtain rfl := Option.some.inj hs
  obtain ⟨hlt, hget⟩ := List.getElem?_eq_some_iff.mp hbuf
  refine ⟨h.ids, h.receiver, ?_, h.sender, h.sids, h.next, fun a => ?_, h.passed⟩
  · have hperm : (buf :: s.wire.eraseIdx i).Perm s.wire := by
      rw [← hget]
      exact List.getElem_cons_eraseIdx_perm hlt
    refine List.Perm.trans ?_ h.kept
    change (s.handled ++ (s.queue ++ [buf]) ++ s.wire.eraseIdx i).Perm _
    rw [← List.append_assoc, List.append_assoc, List.singleton_append]
    exact hperm.append_left _
  · obtain ⟨k, hk, hnext⟩ := h.inOrder a
    exact ⟨k, ⟨hk.emitted, hk.parked⟩, hnext⟩

theorem Good.nodup_requestsOf (h : Good me s) (a : NodeId) : (requestsOf a s.sent).Nodup := by
  rw [List.nodup_iff_getElem?_ne_getElem?]
  intro i j hij hj heq
  have hx : (requestsOf a s.sent)[j]? = some (requestsOf a s.sent)[j] := List.getElem?_eq_getElem hj
  have h₁ := h.sids a j _ hx
  have h₂ := h.sids a i _ (heq.trans hx)
  omega

theorem Good.not_handled_of_queue (h : Good me s) {a : NodeId} {buf : UcxBuffer}
    (hreq : isRequestFrom a buf = true) (hbuf : buf ∈ s.queue) : buf ∉ s.handled := by
  intro hhandled
  have hnodup : (requestsOf a (s.handled ++ s.queue ++ s.wire)).Nodup :=
    (h.kept.filter _).nodup_iff.mpr (h.nodup_requestsOf a)
  rw [List.append_assoc, requestsOf_append] at hnodup
  exact List.disjoint_of_nodup_append hnodup (List.mem_filter.mpr ⟨hhandled, hreq⟩)
    (List.mem_filter.mpr ⟨List.mem_append_left _ hbuf, hreq⟩)

theorem step_reorder {buf : UcxBuffer} {rest : List UcxBuffer} (hq : s.queue = buf :: rest) :
    s.step cfg .reorder = (s.receiver.reorderMsg cfg).bind
      fun receiver => some { s with receiver := receiver, handled := s.handled ++ [buf] } := by
  rw [step, hq]
  rfl

theorem others_append (xs ys : List UcxBuffer) : others (xs ++ ys) = others xs ++ others ys :=
  List.filter_append ..

theorem Good.kept_reorder {buf : UcxBuffer} {rest : List UcxBuffer} (h : Good me s) (hq : s.queue = buf :: rest) :
    (s.handled ++ [buf] ++ rest ++ s.wire).Perm s.sent := by
  have hkept := h.kept
  rw [hq, ← List.singleton_append, ← List.append_assoc] at hkept
  exact hkept

theorem Good.handled_concat {a : NodeId} {j : Nat} {buf : UcxBuffer} (h : Good me s)
    (hj : (requestsOf a s.sent)[j]? = some buf) {receiver : UcxVan} (i : Nat) :
    Handled { s with receiver := receiver, handled := s.handled ++ [buf] } a i ↔ s.Handled a i ∨ i = j := by
  constructor
  · rintro ⟨b, hb, hmem⟩
    rcases List.mem_append.mp hmem with hmem | hmem
    · exact .inl ⟨b, hb, hmem⟩
    · obtain rfl := List.mem_singleton.mp hmem
      have hi := h.sids a i b hb
      have hj := h.sids a j b hj
      exact .inr (by omega)
  · rintro (⟨b, hb, hmem⟩ | rfl)
    · exact ⟨b, hb, List.mem_append_left _ hmem⟩
    · exact ⟨buf, hj, List.mem_append_right _ (List.mem_singleton_self buf)⟩

theorem handled_concat_of_ne {a : NodeId} {buf : UcxBuffer} (hbuf : isRequestFrom a buf = false)
    {receiver : UcxVan} (i : Nat) :
    s.Handled a i ↔ Handled { s with receiver := receiver, handled := s.handled ++ [buf] } a i := by
  refine exists_congr fun b => and_congr_right fun hb => ?_
  have hne : b ≠ buf := by
    rintro rfl
    have hfrom := (List.mem_filter.mp (List.mem_of_getElem? hb)).2
    rw [hbuf] at hfrom
    cases hfrom
  rw [List.mem_append, List.mem_singleton, or_iff_left hne]

theorem mem_slice {a : NodeId} {xs : List UcxBuffer} {k n : Nat} {buf : UcxBuffer}
    (h : buf ∈ ((requestsOf a xs).drop k).take n) : isRequestFrom a buf = true :=
  (List.mem_filter.mp (List.mem_of_mem_drop (List.mem_of_mem_take h))).2

theorem requestsOf_slice (a : NodeId) (xs : List UcxBuffer) (k n : Nat) :
    requestsOf a (((requestsOf a xs).drop k).take n) = ((requestsOf a xs).drop k).take n :=
  List.filter_eq_self.mpr fun _ h => mem_slice h

theorem requestsOf_slice_of_ne {a b : NodeId} (hne : a ≠ b) (xs : List UcxBuffer) (k n : Nat) :
    requestsOf a (((requestsOf b xs).drop k).take n) = [] := by
  refine List.filter_eq_nil_iff.mpr fun buf hbuf ha => hne ?_
  have hb := mem_slice hbuf
  rw [isRequestFrom, Bool.and_eq_true, decide_eq_true_eq] at ha hb
  exact ha.2.symm.trans hb.2

theorem others_slice (a : NodeId) (xs : List UcxBuffer) (k n : Nat) :
    others (((requestsOf a xs).drop k).take n) = [] := by
  refine List.filter_eq_nil_iff.mpr fun buf hbuf hother => ?_
  have hreq := mem_slice hbuf
  rw [isRequestFrom, Bool.and_eq_true] at hreq
  rw [hreq.1] at hother
  cases hother

theorem others_singleton {buf : UcxBuffer} (h : isPushpullRequest buf.rawMeta = true) : others [buf] = [] := by
  rw [others, List.filter_cons_of_neg (by rw [h]; decide), List.filter_nil]

theorem Good.reorder_other {buf : UcxBuffer} {rest : List UcxBuffer} (h : Good me s) (hq : s.queue = buf :: rest)
    (hother : isPushpullRequest buf.rawMeta = false) :
    ∃ s', s.step cfg .reorder = some s' ∧ Good me s' := by
  have hfrom : ∀ a, isRequestFrom a buf = false := by
    intro a
    rw [isRequestFrom, hother, Bool.false_and]
  rw [step_reorder hq, reorderMsg_cons hq, hother, Bool.not_false, Bool.true_or, if_pos rfl]
  refine ⟨_, rfl, h.ids, h.receiver, h.kept_reorder hq, h.sender, h.sids, h.next, fun a => ?_, ?_⟩
  · obtain ⟨k, hk, hnext⟩ := h.inOrder a
    refine ⟨k, ⟨?_, ?_⟩, hnext⟩
    · change requestsOf a (s.emitted ++ [buf]) = _
      rw [requestsOf_concat_neg (hfrom a), hk.emitted]
    · exact hk.parked.congr fun i => handled_concat_of_ne (hfrom a) i
  · change others (s.emitted ++ [buf]) = others (s.handled ++ [buf])
    rw [others_append, others_append, h.passed]

theorem Good.reorder_request {buf : UcxBuffer} {rest : List UcxBuffer} (hforce : cfg.forceRequestOrder = true)
    (hfew : Few s) (h : Good me s) (hq : s.queue = buf :: rest)
    (hreq : isPushpullRequest buf.rawMeta = true) :
    ∃ s', s.step cfg .reorder = some s' ∧ Good me s' := by
  have hfrom : isRequestFrom buf.sender buf = true := by
    rw [isRequestFrom, hreq, decide_eq_true rfl, Bool.and_true]
  have hmem : buf ∈ s.queue := by rw [hq]; exact List.mem_cons_self
  have hsent : buf ∈ s.sent := h.kept.mem_iff.mp (List.mem_append_left _ (List.mem_append_right _ hmem))
  obtain ⟨j, hj⟩ := List.mem_iff_getElem?.mp (List.mem_filter.mpr ⟨hsent, hfrom⟩ : buf ∈ requestsOf buf.sender s.sent)
  have hnot : ¬ s.Handled buf.sender j := by
    rintro ⟨b, hb, hhandled⟩
    obtain rfl := Option.some.inj (hj.symm.trans hb)
    exact h.not_handled_of_queue hfrom hmem hhandled
  obtain ⟨k, hk, hnext⟩ := h.inOrder buf.sender
  obtain ⟨van', k', hvan, hle, hseq, hnext', hpool, hframe, hid⟩ :=
    (s.receiver.popped rest).reorderRequest_spec (hfew buf.sender) hk.parked hnext (h.sender buf hsent)
      (h.sids _ j buf hj) hnot hj
  have hout : van'.rxPool.orderedRecvBuffers =
      s.emitted ++ ((requestsOf buf.sender s.sent).drop k).take (k' - k) :=
    congrArg (·.orderedRecvBuffers) hpool
  rw [step_reorder hq, reorderMsg_cons hq, hreq, hforce, if_neg (by decide), hvan]
  refine ⟨_, rfl, h.ids, hid.trans h.receiver, ?_, h.sender, h.sids, h.next, fun a => ?_, ?_⟩
  · have hqueue : van'.rxPool.recvBuffers = rest := congrArg (·.recvBuffers) hpool
    change (s.handled ++ [buf] ++ van'.rxPool.recvBuffers ++ s.wire).Perm s.sent
    rw [hqueue]
    exact h.kept_reorder hq
  · by_cases ha : a = buf.sender
    · subst ha
      refine ⟨k', ⟨?_, hseq.congr fun i => (h.handled_concat hj i).symm⟩, hnext'⟩
      change requestsOf buf.sender van'.rxPool.orderedRecvBuffers = _
      rw [hout, requestsOf_append, hk.emitted, requestsOf_slice, ← List.take_add, Nat.add_sub_cancel' hle]
    · obtain ⟨ka, hka, hnexta⟩ := h.inOrder a
      refine ⟨ka, ⟨?_, ?_⟩, (hframe a ha).1.trans hnexta⟩
      · change requestsOf a van'.rxPool.orderedRecvBuffers = _
        rw [hout, requestsOf_append, hka.emitted, requestsOf_slice_of_ne ha, List.append_nil]
      · change Resequenced _ _ _ (van'.recvSidBuffers a)
        rw [(hframe a ha).2]
        refine hka.parked.congr fun i => handled_concat_of_ne ?_ i
        rw [isRequestFrom, hreq, Bool.true_and, decide_eq_false (Ne.symm ha)]
  · change others van'.rxPool.orderedRecvBuffers = others (s.handled ++ [buf])
    rw [hout, others_append, others_append, others_slice, others_singleton hreq, h.passed]

/-- There is always a next round while something waits. -/
theorem Good.reorder (hforce : cfg.forceRequestOrder = true) (hfew : Few s) (h : Good me s)
    (hq : s.queue ≠ []) : ∃ s', s.step cfg .reorder = some s' ∧ Good me s' := by
  obtain ⟨buf, rest, hq⟩ := List.exists_cons_of_ne_nil hq
  cases hreq : isPushpullRequest buf.rawMeta with
  | true => exact h.reorder_request hforce hfew hq hreq
  | false => exact h.reorder_other hq hreq

theorem queue_ne_nil_of_step (hs : s.step cfg .reorder = some s') : s.queue ≠ [] := by
  intro hnil
  rw [step, hnil] at hs
  cases hs

theorem sent_grows {ev : UcxOrderEvent} (hs : s.step cfg ev = some s') : s.sent <+: s'.sent := by
  cases ev with
  | send a msg =>
    obtain ⟨sent, -, hs⟩ := Option.bind_eq_some_iff.mp hs
    dsimp only at hs
    split_ifs at hs <;> obtain rfl := Option.some.inj hs
    · exact List.prefix_append ..
    · exact List.prefix_rfl
  | arrive i =>
    obtain ⟨buf, -, hs⟩ := Option.bind_eq_some_iff.mp hs
    obtain rfl := Option.some.inj hs
    exact List.prefix_rfl
  | reorder =>
    obtain ⟨buf, -, hs⟩ := Option.bind_eq_some_iff.mp hs
    obtain ⟨van, -, hs⟩ := Option.bind_eq_some_iff.mp hs
    obtain rfl := Option.some.inj hs
    exact List.prefix_rfl

theorem Few.of_step {ev : UcxOrderEvent} (hs : s.step cfg ev = some s') (h : Few s') : Few s := fun a =>
  lt_of_le_of_lt ((sent_grows hs).filter (isRequestFrom a)).length_le (h a)

theorem Good.step {ev : UcxOrderEvent} (hforce : cfg.forceRequestOrder = true) (hfew : Few s') (h : Good me s)
    (hs : s.step cfg ev = some s') : Good me s' := by
  cases ev with
  | send a msg => exact h.send hfew hs
  | arrive i => exact h.arrive hs
  | reorder =>
    obtain ⟨s₁, hs₁, h₁⟩ := h.reorder hforce (hfew.of_step hs) (queue_ne_nil_of_step hs)
    obtain rfl := Option.some.inj (hs.symm.trans hs₁)
    exact h₁

theorem Good.complete (h : Good me s) (hq : s.queue = []) (hwire : s.wire = []) (a : NodeId) :
    requestsOf a s.emitted = requestsOf a s.sent := by
  obtain ⟨k, hk, -⟩ := h.inOrder a
  have hkept := h.kept
  rw [hq, hwire, List.append_nil, List.append_nil] at hkept
  have hlen : (requestsOf a s.sent).length ≤ k := by
    by_contra hlt
    refine hk.parked.missing ⟨_, List.getElem?_eq_getElem (by omega), hkept.mem_iff.mpr ?_⟩
    exact (List.mem_filter.mp (List.getElem_mem _)).1
  rw [hk.emitted, List.take_of_length_le hlen]

/-- In every run, whatever the nodes send and in whatever order it arrives, `ReorderMsg` emits the requests of
each sender in the order they were sent and each once, and parks exactly those that are beyond the first missing
one. It passes on everything else as it comes and never gets stuck, and when all that was sent has been handled
all requests have been emitted. -/
theorem requests_in_order (cfg : UcxCfg) (me : NodeId) (s : UcxOrderNet) (events : List UcxOrderEvent)
    (hforce : cfg.forceRequestOrder = true)
    (h : Run.exec (step cfg) { receiver := { id := me } } events = some s) (hfew : Few s) :
    (∀ a, ∃ k, InOrder s a k) ∧ others s.emitted = others s.handled ∧
      (s.handled ++ s.queue ++ s.wire).Perm s.sent ∧ (s.queue ≠ [] → (s.step cfg .reorder).isSome) ∧
      (s.queue = [] → s.wire = [] → ∀ a, requestsOf a s.emitted = requestsOf a s.sent) := by
  have hgood : Few s → Good me s :=
    Run.exec_invariant (fun s => Few s → Good me s)
      (fun _ _ _ hgood hs hfew => (hgood (hfew.of_step hs)).step hforce hfew hs) (fun _ => good_init me) h
  have hgood := hgood hfew
  refine ⟨fun a => ?_, hgood.passed, hgood.kept, fun hq => ?_, hgood.complete⟩
  · obtain ⟨k, hk, -⟩ := hgood.inOrder a
    exact ⟨k, hk⟩
  · obtain ⟨s', hs', -⟩ := hgood.reorder hforce hfew hq
    rw [hs']
    rfl

/-- A node asks server 8 for key 7. -/
def sampleRequest : Message where
  msgMeta := { request := true, recver := 8, addr := 4096, valLen := 16 }
  data := [{ size := 8 }, {}]
  keys := [7]

/-- Two requests and a message that is none; the second request arrives first. -/
def sampleEvents : List UcxOrderEvent :=
  [.send 9 sampleRequest, .send 9 sampleRequest, .send 9 { msgMeta := { push := true, recver := 8 } },
    .arrive 1, .reorder, .arrive 1, .reorder, .arrive 0, .reorder]

theorem requests_in_order_swapped : ∃ s,
    Run.exec (step { forceRequestOrder := true }) { receiver := { id := 8 } } sampleEvents = some s ∧
    s.emitted.map (fun buf => (isPushpullRequest buf.rawMeta, rawInt buf.rawMeta RawMeta.sid)) =
      [(false, 0), (true, 0), (true, 1)] ∧
    ∀ a, requestsOf a s.emitted = requestsOf a s.sent := by
  have hrun : (Run.exec (step { forceRequestOrder := true }) { receiver := { id := 8 } } sampleEvents).map
      (fun s => (s.sent.length, s.queue.length, s.wire.length,
        s.emitted.map fun buf => (isPushpullRequest buf.rawMeta, rawInt buf.rawMeta RawMeta.sid))) =
      some (3, 0, 0, [(false, 0), (true, 0), (true, 1)]) := by decide +kernel
  obtain ⟨s, hs, hmap⟩ := Option.map_eq_some_iff.mp hrun
  obtain ⟨hsent, hqueue, hwire, hemitted⟩ := by simpa only [Prod.mk.injEq] using hmap
  have hfew : Few s := fun a => lt_of_le_of_lt (List.length_filter_le _ _) (by rw [hsent]; decide)
  obtain ⟨-, -, -, -, hall⟩ := requests_in_order { forceRequestOrder := true } 8 s sampleEvents rfl hs hfew
  exact ⟨s, hs, hemitted, hall (List.length_eq_zero_iff.mp hqueue) (List.length_eq_zero_iff.mp hwire)⟩

end UcxOrderNet

end StepMesh
