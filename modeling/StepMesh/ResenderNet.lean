import Mathlib.Data.List.Nodup
import Mathlib.Logic.Function.Basic
import StepMesh.Resender

/-!
# Vans with a resender over a lossy network (`src/resender.h`, `Van::Send`, `Van::Receiving`)

A node runs a receiving thread, the monitor of its resender and any number of threads that call
`Van::Send`. `Send` gives the message to the network and only then to `AddOutgoing`, so an ACK may come
in between. The network keeps every copy that was ever handed to it and delivers any of them at any time:
a copy that is never delivered is lost, one that is delivered twice is duplicated, and nothing is
ordered. `added` and `processed` list the messages whose `AddOutgoing` is done and those that
`AddIncomming` let through to processing.
-/

namespace StepMesh

namespace ResendNet

open Resender

/-- The receiving thread. -/
inductive Receiver
  | waiting
  /-- `RecvMsg` has returned. -/
  | got (msg : Message)
  /-- `AddIncomming` has released `mu_`. -/
  | answered (msg : Message) (duplicated : Bool) (ack : Option Message)
  /-- `AddIncomming` has returned `false`. -/
  | passing (msg : Message)
  | stopped

/-- The thread of `Monitoring`. -/
inductive Monitor
  | sleeping
  | resending (todo : List Message)
  /-- In `Send`, between `SendMsg` and `AddOutgoing`. -/
  | adding (msg : Message) (todo : List Message)

structure VanNode where
  resender : Resender := {}
  /-- The threads in `Send` between `SendMsg` and `AddOutgoing`. -/
  sending : List Message := []
  receiver : Receiver := .waiting
  monitor : Monitor := .sleeping
  added : List Message := []
  processed : List Message := []

inductive Action
  | send (msg : Message)
  | addOutgoing (thread now : Nat)
  | recvMsg (src : NodeId) (msg : Message)
  | addIncomming
  | sendAck
  | process
  | monitoring (now : Nat)
  | resend
  | addResent (now : Nat)
  | stop

/-- A message as `RecvMsg` returns it. -/
def arrives (p : NodeId × Message) : Message :=
  { p.2 with msgMeta := { p.2.msgMeta with sender := p.1 } }

/-- The message of `Van::Stop`. -/
def exitMsg (id : NodeId) : Message :=
  { msgMeta := { control := { cmd := .terminate }, recver := id, customerId := 0 } }

/-- A step of node `id`: the node after it and what it hands to the network. Only the resender sends
ACKs and only `Stop` the exit message. -/
def VanNode.step (id : NodeId) (wire : List (NodeId × Message)) (v : VanNode) :
    Action → Option (VanNode × List Message)
  | .send msg => do
    guard (msg.msgMeta.control.cmd ≠ .ack ∧ msg.msgMeta.control.cmd ≠ .terminate)
    return ({ v with sending := v.sending ++ [msg] }, [msg])
  | .addOutgoing thread now => do
    let msg ← v.sending[thread]?
    let r ← v.resender.addOutgoing id now msg
    return ({ v with
      resender := r, sending := v.sending.eraseIdx thread, added := v.added ++ [msg] }, [])
  | .recvMsg src msg =>
    match v.receiver with
    | .waiting => do
      guard ((src, msg) ∈ wire ∧ msg.msgMeta.recver = id)
      return ({ v with receiver := .got (arrives (src, msg)) }, [])
    | _ => none
  | .addIncomming =>
    match v.receiver with
    | .got msg => do
      let (r, duplicated, ack) ← v.resender.addIncomming id msg
      return ({ v with resender := r, receiver := .answered msg duplicated ack }, [])
    | _ => none
  | .sendAck =>
    match v.receiver with
    | .answered msg duplicated ack =>
      some ({ v with receiver := if duplicated then .waiting else .passing msg }, ack.toList)
    | _ => none
  | .process =>
    match v.receiver with
    | .passing msg => some ({ v with
        receiver := if msg.msgMeta.control.cmd = .terminate then .stopped else .waiting
        processed := v.processed ++ [msg] }, [])
    | _ => none
  | .monitoring now =>
    match v.monitor with
    | .sleeping => do
      let (r, todo) ← v.resender.monitoring now
      return ({ v with resender := r, monitor := .resending todo }, [])
    | _ => none
  | .resend =>
    match v.monitor with
    | .resending [] => some ({ v with monitor := .sleeping }, [])
    | .resending (msg :: todo) => some ({ v with monitor := .adding msg todo }, [msg])
    | _ => none
  | .addResent now =>
    match v.monitor with
    | .adding msg todo => do
      let r ← v.resender.addOutgoing id now msg
      return ({ v with resender := r, monitor := .resending todo, added := v.added ++ [msg] }, [])
    | _ => none
  | .stop => some (v, [exitMsg id])

end ResendNet

open ResendNet in
structure ResendNet where
  nodes : NodeId → VanNode := fun _ => {}
  wire : List (NodeId × Message) := []

namespace ResendNet

open Resender

def step (s : ResendNet) (na : NodeId × Action) : Option ResendNet := do
  let (v, out) ← (s.nodes na.1).step na.1 s.wire na.2
  return {
    nodes := Function.update s.nodes na.1 v
    wire := s.wire ++ out.map fun msg => (na.1, msg) }

/-- The messages that threads send in a run. -/
def sends (as : List (NodeId × Action)) : List (NodeId × Message) :=
  as.filterMap fun na =>
    match na.2 with
    | .send msg => some (na.1, msg)
    | _ => none

/-- The signatures of the messages are the same at both ends and differ between messages. -/
structure Signatures (sent : List (NodeId × Message)) : Prop where
  same : ∀ p ∈ sent, getKey p.2.msgMeta.recver (arrives p) = getKey p.1 p.2
  inj : ∀ p ∈ sent, ∀ q ∈ sent, ∀ k, getKey p.1 p.2 = some k → getKey q.1 q.2 = some k → p = q

/-- The receiving thread has recorded the message as new and is going to process it. -/
def Receiver.Holds (msg : Message) : Receiver → Prop
  | .answered m duplicated _ => m = msg ∧ duplicated = false
  | .passing m => m = msg
  | _ => False

/-- The messages that the monitor has taken and not yet given back to the buffer. -/
def Monitor.pending : Monitor → List Message
  | .sleeping => []
  | .resending todo => todo
  | .adding msg todo => msg :: todo

/-! ### What the resender does to its buffer -/

/-- A message waits in the buffer under a signature. -/
def Buffered (r : Resender) (k : UInt64) (m : Message) : Prop := ∃ e, (k, e) ∈ r.sendBuff ∧ e.msg = m

variable {r r' : Resender} {n : NodeId} {m : Message}

theorem addOutgoing_eq_some {now : Nat} (hm : Keyed m) (h : r.addOutgoing n now m = some r') :
    ∃ k, getKey n m = some k ∧ r'.acked = r.acked ∧
      (∀ k' m', Buffered r' k' m' → Buffered r k' m' ∨ k' = k ∧ m' = m) ∧
      ∃ m', Buffered r' k m' := by
  rw [addOutgoing, if_neg hm.ack] at h
  obtain ⟨k, hk, h⟩ := Option.bind_eq_some_iff.mp h
  obtain rfl := Option.some.inj h
  refine ⟨k, hk, ?_⟩
  split_ifs with hany
  · obtain ⟨⟨k', e⟩, hmem, heq⟩ := List.any_eq_true.mp hany
    obtain rfl : k' = k := by simpa using heq
    exact ⟨rfl, fun _ _ hb => .inl hb, e.msg, e, hmem, rfl⟩
  · refine ⟨rfl, ?_, m, _, List.mem_append_right _ (List.mem_singleton_self _), rfl⟩
    rintro k' m' ⟨e, hmem, rfl⟩
    rcases List.mem_append.mp hmem with hmem | hmem
    · exact .inl ⟨e, hmem, rfl⟩
    · obtain ⟨rfl, rfl⟩ := Prod.mk.inj (List.mem_singleton.mp hmem)
      exact .inr ⟨rfl, rfl⟩

theorem monitoring_eq_some {now : Nat} {todo : List Message} (h : r.monitoring now = some (r', todo)) :
    r'.acked = r.acked ∧ (∀ k m, Buffered r' k m ↔ Buffered r k m) ∧
      ∀ m ∈ todo, ∃ k, Buffered r k m := by
  obtain ⟨_, -, h⟩ := Option.bind_eq_some_iff.mp h
  obtain ⟨rfl, rfl⟩ := Prod.mk.inj (Option.some.inj h)
  refine ⟨rfl, fun k m => ⟨?_, ?_⟩, ?_⟩
  · rintro ⟨e', hmem, rfl⟩
    obtain ⟨⟨k₀, e⟩, hmem₀, heq⟩ := List.mem_map.mp hmem
    split_ifs at heq <;> obtain ⟨rfl, rfl⟩ := Prod.mk.inj heq <;> exact ⟨e, hmem₀, rfl⟩
  · rintro ⟨e, hmem, rfl⟩
    refine ⟨if e.due r.timeout now then { e with numRetry := e.numRetry + 1 } else e, ?_, ?_⟩
    · refine List.mem_map.mpr ⟨(k, e), hmem, ?_⟩
      split_ifs <;> rfl
    · split_ifs <;> rfl
  · intro m hm
    obtain ⟨⟨k, e⟩, hmem, rfl⟩ := List.mem_map.mp hm
    exact ⟨k, e, (List.mem_filter.mp hmem).1, rfl⟩

theorem buffered_ack {k₀ k : UInt64} :
    Buffered { r with sendBuff := r.sendBuff.filter (·.1 ≠ k₀) } k m ↔ Buffered r k m ∧ k ≠ k₀ := by
  simp only [Buffered, List.mem_filter, decide_eq_true_eq]
  grind

theorem addOutgoing_buffered {now : Nat} (h : r.addOutgoing n now m = some r') {k : UInt64}
    {m' : Message} (hb : Buffered r k m') : Buffered r' k m' := by
  unfold addOutgoing at h
  split_ifs at h
  · obtain rfl := Option.some.inj h
    exact hb
  · obtain ⟨key, -, h⟩ := Option.bind_eq_some_iff.mp h
    obtain rfl := Option.some.inj h
    split_ifs
    · exact hb
    · obtain ⟨e, he, hem⟩ := hb
      exact ⟨e, List.mem_append_left _ he, hem⟩

/-- A message leaves the buffer only for an ACK with its signature. -/
theorem buffered_step {wire : List (NodeId × Message)} {v v' : VanNode} {a : Action} {out : List Message}
    (hs : v.step n wire a = some (v', out)) {k : UInt64} (hb : Buffered v.resender k m) :
    Buffered v'.resender k m ∨ ∃ ack, v.receiver = .got ack ∧ ack.msgMeta.control.cmd = .ack ∧
      ack.msgMeta.control.msgSig = k := by
  cases a with
  | send msg =>
    obtain ⟨_, -, hs⟩ := Option.bind_eq_some_iff.mp hs
    obtain ⟨rfl, -⟩ := Prod.mk.inj (Option.some.inj hs)
    exact .inl hb
  | addOutgoing thread now =>
    obtain ⟨msg, -, hs⟩ := Option.bind_eq_some_iff.mp hs
    obtain ⟨r, hr, hs⟩ := Option.bind_eq_some_iff.mp hs
    obtain ⟨rfl, -⟩ := Prod.mk.inj (Option.some.inj hs)
    exact .inl (addOutgoing_buffered hr hb)
  | addIncomming =>
    simp only [VanNode.step] at hs
    split at hs
    · rename_i msg hgot
      obtain ⟨⟨r, dup, ack⟩, hr, hs⟩ := Option.bind_eq_some_iff.mp hs
      obtain ⟨rfl, -⟩ := Prod.mk.inj (Option.some.inj hs)
      by_cases hack : msg.msgMeta.control.cmd = .ack
      · rw [Resender.addIncomming, hack] at hr
        obtain ⟨rfl, -⟩ := Prod.mk.inj (Option.some.inj hr)
        rcases eq_or_ne k msg.msgMeta.control.msgSig with rfl | hne
        · exact .inr ⟨msg, hgot, hack, rfl⟩
        · exact .inl (buffered_ack.mpr ⟨hb, hne⟩)
      · by_cases hterm : msg.msgMeta.control.cmd = .terminate
        · rw [Resender.addIncomming, hterm] at hr
          obtain ⟨rfl, -⟩ := Prod.mk.inj (Option.some.inj hr)
          exact .inl hb
        · rw [Keyed.addIncomming_eq ⟨hack, hterm⟩] at hr
          obtain ⟨key, -, heq⟩ := Option.map_eq_some_iff.mp hr
          obtain ⟨rfl, -⟩ := Prod.mk.inj heq
          exact .inl hb
    · cases hs
  | monitoring now =>
    simp only [VanNode.step] at hs
    split at hs
    · obtain ⟨⟨r, todo⟩, hr, hs⟩ := Option.bind_eq_some_iff.mp hs
      obtain ⟨rfl, -⟩ := Prod.mk.inj (Option.some.inj hs)
      exact .inl (((monitoring_eq_some hr).2.1 k m).mpr hb)
    · cases hs
  | addResent now =>
    simp only [VanNode.step] at hs
    split at hs
    · obtain ⟨r, hr, hs⟩ := Option.bind_eq_some_iff.mp hs
      obtain ⟨rfl, -⟩ := Prod.mk.inj (Option.some.inj hs)
      exact .inl (addOutgoing_buffered hr hb)
    · cases hs
  | recvMsg src msg =>
    simp only [VanNode.step] at hs
    split at hs
    · obtain ⟨_, -, hs⟩ := Option.bind_eq_some_iff.mp hs
      obtain ⟨rfl, -⟩ := Prod.mk.inj (Option.some.inj hs)
      exact .inl hb
    · cases hs
  | sendAck | process | resend =>
    simp only [VanNode.step] at hs
    split at hs <;> cases hs <;> exact .inl hb
  | stop =>
    cases hs
    exact .inl hb

/-! ### The invariant -/

/-- A message with a signature that the node has noted. -/
def VanNode.Recorded (n : NodeId) (v : VanNode) (m : Message) : Prop :=
  Keyed m ∧ ∃ k ∈ v.resender.acked, getKey n m = some k

/-- What holds at node `n` when `sent` are the messages that were sent so far. -/
structure NodeInv (sent wire : List (NodeId × Message)) (n : NodeId) (v : VanNode) : Prop where
  sending : ∀ m ∈ v.sending, (n, m) ∈ sent
  pending : ∀ m ∈ v.monitor.pending, (n, m) ∈ sent
  buffer : ∀ k m, Buffered v.resender k m → (n, m) ∈ sent ∧ getKey n m = some k
  got : ∀ m, v.receiver = .got m → ∃ p ∈ wire, p.2.msgMeta.recver = n ∧ arrives p = m
  /-- What is recorded is processed, or just about to be. -/
  acked : ∀ k ∈ v.resender.acked, ∃ p ∈ sent, p.2.msgMeta.recver = n ∧
    getKey n (arrives p) = some k ∧ (arrives p ∈ v.processed ∨ v.receiver.Holds (arrives p))
  dropped : ∀ m ack, v.receiver = .answered m true ack → Keyed m → m ∈ v.processed
  answer : ∀ m dup a, v.receiver = .answered m dup (some a) →
    a.msgMeta.control.cmd = .ack ∧ a.msgMeta.control.msgSig ∈ v.resender.acked
  /-- What is processed is recorded; after the exit message nothing is received any more. -/
  recorded : ∀ m ∈ v.processed, v.Recorded n m ∨ v.receiver = .stopped
  held : ∀ m, v.receiver.Holds m →
    m ∉ v.processed ∧ (v.Recorded n m ∨ m.msgMeta.control.cmd = .terminate)
  nodup : v.processed.Nodup

namespace NodeInv

variable {sent sent' wire wire' : List (NodeId × Message)} {v v' : VanNode}

theorem init (n : NodeId) : NodeInv sent wire n {} where
  sending m hm := by simp at hm
  pending m hm := by simp [Monitor.pending] at hm
  buffer k m hb := by simp [Buffered] at hb
  got m hm := by simp at hm
  acked k hk := by simp at hk
  dropped m ack hm := by simp at hm
  answer m dup a hm := by simp at hm
  recorded m hm := by simp at hm
  held m hm := by simp [Receiver.Holds] at hm
  nodup := List.nodup_nil

theorem mono (h : NodeInv sent wire n v) (hsent : ∀ p ∈ sent, p ∈ sent') (hwire : ∀ p ∈ wire, p ∈ wire') :
    NodeInv sent' wire' n v :=
  { h with
    sending := fun m hm => hsent _ (h.sending m hm)
    pending := fun m hm => hsent _ (h.pending m hm)
    buffer := fun k m hb => ⟨hsent _ (h.buffer k m hb).1, (h.buffer k m hb).2⟩
    got := fun m hm => by
      obtain ⟨p, hp, hrec, heq⟩ := h.got m hm
      exact ⟨p, hwire p hp, hrec, heq⟩
    acked := fun k hk => by
      obtain ⟨p, hp, hrest⟩ := h.acked k hk
      exact ⟨p, hsent p hp, hrest⟩ }

theorem acked_processed (h : NodeInv sent wire n v) (hnot : ∀ m, ¬ v.receiver.Holds m) :
    ∀ k ∈ v.resender.acked, ∃ p ∈ sent, p.2.msgMeta.recver = n ∧ getKey n (arrives p) = some k ∧
      arrives p ∈ v.processed := by
  intro k hk
  obtain ⟨p, hp, hpn, hpk, hdone | hholds⟩ := h.acked k hk
  · exact ⟨p, hp, hpn, hpk, hdone⟩
  · exact absurd hholds (hnot _)

theorem of_receiver (h : NodeInv sent wire n v) (hnot : ∀ m, ¬ v.receiver.Holds m)
    (hstopped : v.receiver ≠ .stopped) (w : Receiver) (hrec : ∀ m, ¬ w.Holds m)
    (hgot : ∀ m, w = .got m → ∃ p ∈ wire, p.2.msgMeta.recver = n ∧ arrives p = m)
    (hans : ∀ m dup ack, w = .answered m dup ack → ¬ Keyed m ∧ ack = none) :
    NodeInv sent wire n { v with receiver := w } :=
  { h with
    got := hgot
    acked := fun k hk => by
      obtain ⟨p, hp, hpn, hpk, hdone⟩ := h.acked_processed hnot k hk
      exact ⟨p, hp, hpn, hpk, .inl hdone⟩
    dropped := fun m ack heq hm => absurd hm (hans m true ack heq).1
    answer := fun m dup a heq => by cases (hans m dup (some a) heq).2
    recorded := fun m hm => .inl ((h.recorded m hm).resolve_right hstopped)
    held := fun m hm => absurd hm (hrec m) }

theorem of_buffer (h : NodeInv sent wire n v) (hreceiver : v'.receiver = v.receiver)
    (hprocessed : v'.processed = v.processed) (hacked : v'.resender.acked = v.resender.acked)
    (hsending : ∀ m ∈ v'.sending, (n, m) ∈ sent) (hpending : ∀ m ∈ v'.monitor.pending, (n, m) ∈ sent)
    (hbuffer : ∀ k m, Buffered v'.resender k m → (n, m) ∈ sent ∧ getKey n m = some k) :
    NodeInv sent wire n v' where
  sending := hsending
  pending := hpending
  buffer := hbuffer
  got := by rw [hreceiver]; exact h.got
  acked := by rw [hreceiver, hprocessed, hacked]; exact h.acked
  dropped := by rw [hreceiver, hprocessed]; exact h.dropped
  answer := by rw [hreceiver, hacked]; exact h.answer
  recorded := by simp only [VanNode.Recorded, hreceiver, hprocessed, hacked]; exact h.recorded
  held := by simp only [VanNode.Recorded, hreceiver, hprocessed, hacked]; exact h.held
  nodup := hprocessed ▸ h.nodup

theorem addOutgoing (h : NodeInv sent wire n v) {now : Nat} (hm : Keyed m) (hsent : (n, m) ∈ sent)
    (hr : v.resender.addOutgoing n now m = some r') (hv : v'.resender = r')
    (hreceiver : v'.receiver = v.receiver) (hprocessed : v'.processed = v.processed)
    (hsending : ∀ m ∈ v'.sending, m ∈ v.sending)
    (hpending : ∀ m ∈ v'.monitor.pending, m ∈ v.monitor.pending) : NodeInv sent wire n v' := by
  obtain ⟨k, hk, hacked, hnew, -⟩ := addOutgoing_eq_some hm hr
  refine h.of_buffer hreceiver hprocessed (hv ▸ hacked) (fun m hm => h.sending m (hsending m hm))
    (fun m hm => h.pending m (hpending m hm)) fun k' m' hb => ?_
  rcases hnew k' m' (hv ▸ hb) with hb | ⟨rfl, rfl⟩
  · exact h.buffer k' m' hb
  · exact ⟨hsent, hk⟩

theorem addIncomming_keyed (h : NodeInv sent wire n v) (hsig : Signatures sent)
    (hwire : ∀ p ∈ wire, Keyed p.2 → p ∈ sent) (hgot : v.receiver = .got m) (hm : Keyed m)
    {dup : Bool} {ack : Option Message} (hr : v.resender.addIncomming n m = some (r', dup, ack)) :
    NodeInv sent wire n { v with resender := r', receiver := .answered m dup ack } := by
  rw [hm.addIncomming_eq] at hr
  obtain ⟨k, hk, heq⟩ := Option.map_eq_some_iff.mp hr
  obtain ⟨rfl, hdup⟩ := Prod.mk.inj heq
  obtain ⟨rfl, rfl⟩ := Prod.mk.inj hdup
  obtain ⟨q, hqw, hqn, rfl⟩ := h.got m hgot
  have hq : q ∈ sent := hwire q hqw ⟨hm.ack, hm.terminate⟩
  have hmono : ∀ k' ∈ v.resender.acked,
      k' ∈ if v.resender.acked.contains k then v.resender.acked else v.resender.acked ++ [k] :=
    fun k' hk' => mem_acked_snoc.mpr (.inl hk')
  have hself : k ∈ if v.resender.acked.contains k then v.resender.acked else v.resender.acked ++ [k] :=
    mem_acked_snoc.mpr (.inr rfl)
  -- the thread was waiting for `AddIncomming`, so it held nothing
  have hdone := h.acked_processed fun m => by simp [hgot, Receiver.Holds]
  have hstopped : v.receiver ≠ .stopped := by simp [hgot]
  refine ⟨h.sending, h.pending, h.buffer, by simp, fun k' hk' => ?_, fun m ack hans hkey => ?_,
    fun m dup a hans => ?_, fun m hmem => ?_, fun m hholds => ?_, h.nodup⟩
  · rcases mem_acked_snoc.mp hk' with hk' | rfl
    · obtain ⟨p, hp, hpn, hpk, hmem⟩ := hdone k' hk'
      exact ⟨p, hp, hpn, hpk, .inl hmem⟩
    · by_cases hc : v.resender.acked.contains k
      · obtain ⟨p, hp, hpn, hpk, hmem⟩ := hdone k (List.contains_iff_mem.mp hc)
        exact ⟨p, hp, hpn, hpk, .inl hmem⟩
      · exact ⟨q, hq, hqn, hk, .inr ⟨rfl, by simpa using hc⟩⟩
  · obtain ⟨rfl, hc, -⟩ : arrives q = m ∧ v.resender.acked.contains k = true ∧ _ := by simpa using hans
    obtain ⟨p, hp, hpn, hpk, hmem⟩ := hdone k (List.contains_iff_mem.mp hc)
    have heq : p = q := by
      refine hsig.inj p hp q hq k ?_ ?_
      · rw [← hsig.same p hp, hpn, hpk]
      · rw [← hsig.same q hq, hqn, hk]
    exact heq ▸ hmem
  · obtain ⟨-, -, rfl⟩ : arrives q = m ∧ _ ∧ ackOf (arrives q) k = a := by simpa using hans
    exact ⟨rfl, hself⟩
  · obtain ⟨hkey, k', hk', hmk⟩ := (h.recorded m hmem).resolve_right hstopped
    exact .inl ⟨hkey, k', hmono k' hk', hmk⟩
  · obtain ⟨rfl, hc⟩ : arrives q = m ∧ v.resender.acked.contains k = false := hholds
    refine ⟨fun hmem => ?_, .inl ⟨hm, k, hself, hk⟩⟩
    obtain ⟨-, k', hk', hmk⟩ := (h.recorded _ hmem).resolve_right hstopped
    obtain rfl := Option.some.inj (hmk.symm.trans hk)
    rw [List.contains_iff_mem.mpr hk'] at hc
    cases hc

theorem sendAck (h : NodeInv sent wire n v) {dup : Bool} {ack : Option Message}
    (hans : v.receiver = .answered m dup ack) :
    NodeInv sent wire n { v with receiver := if dup then .waiting else .passing m } := by
  cases dup with
  | false =>
    have hholds : ∀ m', Receiver.Holds m' (.passing m) ↔ v.receiver.Holds m' := by
      intro m'
      rw [hans]
      simp [Receiver.Holds]
    refine { h with got := by simp, acked := ?_, dropped := by simp, answer := by simp, recorded := ?_,
                    held := ?_ }
    · intro k hk
      obtain ⟨p, hp, hpn, hpk, hdone⟩ := h.acked k hk
      exact ⟨p, hp, hpn, hpk, hdone.imp_right (hholds _).mpr⟩
    · intro m' hm'
      exact .inl ((h.recorded m' hm').resolve_right (by simp [hans]))
    · intro m' hm'
      exact h.held m' ((hholds m').mp hm')
  | true =>
    exact h.of_receiver (by simp [hans, Receiver.Holds]) (by simp [hans]) .waiting (by simp [Receiver.Holds])
      (by simp) (by simp)

theorem process (h : NodeInv sent wire n v) (hpass : v.receiver = .passing m) :
    NodeInv sent wire n { v with
      receiver := if m.msgMeta.control.cmd = .terminate then .stopped else .waiting
      processed := v.processed ++ [m] } := by
  obtain ⟨hnew, hkind⟩ := h.held m (by simp [hpass, Receiver.Holds])
  have hne : ∀ m', (if m.msgMeta.control.cmd = .terminate then Receiver.stopped else .waiting) ≠ .got m' := by
    intro m'
    split_ifs <;> simp
  have hans : ∀ m' dup ack, (if m.msgMeta.control.cmd = .terminate then Receiver.stopped else .waiting) ≠
      .answered m' dup ack := by
    intro m' dup ack
    split_ifs <;> simp
  refine { h with
    got := fun m' hm' => absurd hm' (hne m'), acked := ?_
    dropped := fun m' ack hm' => absurd hm' (hans m' true ack)
    answer := fun m' dup a hm' => absurd hm' (hans m' dup (some a)), recorded := ?_, held := ?_, nodup := ?_ }
  · intro k hk
    obtain ⟨p, hp, hpn, hpk, hdone | hholds⟩ := h.acked k hk
    · exact ⟨p, hp, hpn, hpk, .inl (List.mem_append_left _ hdone)⟩
    · rw [hpass] at hholds
      exact ⟨p, hp, hpn, hpk, .inl (List.mem_append_right _ (List.mem_singleton.mpr hholds.symm))⟩
  · intro m' hm'
    rcases List.mem_append.mp hm' with hm' | hm'
    · exact .inl ((h.recorded m' hm').resolve_right (by simp [hpass]))
    · obtain rfl := List.mem_singleton.mp hm'
      rcases hkind with hrec | hterm
      · exact .inl hrec
      · exact .inr (if_pos hterm)
  · intro m' hm'
    dsimp only at hm'
    split_ifs at hm' <;> exact hm'.elim
  · rw [List.nodup_append]
    refine ⟨h.nodup, List.nodup_singleton m, ?_⟩
    rintro m' hm' _ hmem rfl
    exact hnew (List.mem_singleton.mp hmem ▸ hm')

theorem addIncomming (h : NodeInv sent wire n v) (hsig : Signatures sent)
    (hwire : ∀ p ∈ wire, Keyed p.2 → p ∈ sent) (hgot : v.receiver = .got m)
    {dup : Bool} {ack : Option Message} (hr : v.resender.addIncomming n m = some (r', dup, ack)) :
    NodeInv sent wire n { v with resender := r', receiver := .answered m dup ack } := by
  by_cases hm : Keyed m
  · exact h.addIncomming_keyed hsig hwire hgot hm hr
  by_cases hack : m.msgMeta.control.cmd = .ack
  · rw [Resender.addIncomming, hack] at hr
    obtain ⟨rfl, hdup⟩ := Prod.mk.inj (Option.some.inj hr)
    obtain ⟨rfl, rfl⟩ := Prod.mk.inj hdup
    have hrec := h.of_receiver (by simp [hgot, Receiver.Holds]) (by simp [hgot])
      (.answered m true none) (by simp [Receiver.Holds]) (by simp) (by simp [hm])
    exact hrec.of_buffer rfl rfl rfl h.sending h.pending fun k m' hb => h.buffer k m' (buffered_ack.mp hb).1
  · have hterm : m.msgMeta.control.cmd = .terminate := by
      by_contra hterm
      exact hm ⟨hack, hterm⟩
    rw [Resender.addIncomming, hterm] at hr
    obtain ⟨rfl, hdup⟩ := Prod.mk.inj (Option.some.inj hr)
    obtain ⟨rfl, rfl⟩ := Prod.mk.inj hdup
    have hdone := h.acked_processed fun m => by simp [hgot, Receiver.Holds]
    have hrecorded : ∀ m' ∈ v.processed, v.Recorded n m' := fun m' hm' =>
      (h.recorded m' hm').resolve_right (by simp [hgot])
    refine { h with
      got := by simp, acked := fun k hk => ?_, dropped := by simp, answer := by simp
      recorded := fun m' hm' => .inl (hrecorded m' hm'), held := ?_ }
    · obtain ⟨p, hp, hpn, hpk, hmem⟩ := hdone k hk
      exact ⟨p, hp, hpn, hpk, .inl hmem⟩
    · rintro m' ⟨rfl, -⟩
      exact ⟨fun hmem => hm (hrecorded _ hmem).1, .inr hterm⟩

theorem step (h : NodeInv sent wire n v) (hsig : Signatures sent) (hkeyed : ∀ p ∈ sent, Keyed p.2)
    (hwire : ∀ p ∈ wire, Keyed p.2 → p ∈ sent) {a : Action} {out : List Message}
    (hsend : ∀ m, a = .send m → (n, m) ∈ sent) (hs : v.step n wire a = some (v', out)) :
    NodeInv sent wire n v' := by
  cases a with
  | send msg =>
    obtain ⟨_, -, hs⟩ := Option.bind_eq_some_iff.mp hs
    obtain ⟨rfl, -⟩ := Prod.mk.inj (Option.some.inj hs)
    refine h.of_buffer rfl rfl rfl (fun m hm => ?_) h.pending h.buffer
    rcases List.mem_append.mp hm with hm | hm
    · exact h.sending m hm
    · exact hsend m (by rw [List.mem_singleton.mp hm])
  | addOutgoing thread now =>
    obtain ⟨msg, hmsg, hs⟩ := Option.bind_eq_some_iff.mp hs
    obtain ⟨r, hr, hs⟩ := Option.bind_eq_some_iff.mp hs
    obtain ⟨rfl, -⟩ := Prod.mk.inj (Option.some.inj hs)
    have hsent := h.sending msg (List.mem_of_getElem? hmsg)
    exact h.addOutgoing (hkeyed _ hsent) hsent hr rfl rfl rfl (fun m hm => List.mem_of_mem_eraseIdx hm)
      fun m hm => hm
  | recvMsg src msg =>
    simp only [VanNode.step] at hs
    split at hs
    · rename_i hrec
      obtain ⟨_, hg, hs⟩ := Option.bind_eq_some_iff.mp hs
      obtain ⟨rfl, -⟩ := Prod.mk.inj (Option.some.inj hs)
      obtain ⟨hmem, hid⟩ : (src, msg) ∈ wire ∧ msg.msgMeta.recver = n := by simpa [guard] using hg
      refine h.of_receiver (by simp [hrec, Receiver.Holds]) (by simp [hrec]) _ (by simp [Receiver.Holds])
        (fun m hm => ?_) (by simp)
      obtain rfl : arrives (src, msg) = m := by simpa using hm
      exact ⟨(src, msg), hmem, hid, rfl⟩
    · cases hs
  | addIncomming =>
    simp only [VanNode.step] at hs
    split at hs
    · rename_i msg hgot
      obtain ⟨⟨r, dup, ack⟩, hr, hs⟩ := Option.bind_eq_some_iff.mp hs
      obtain ⟨rfl, -⟩ := Prod.mk.inj (Option.some.inj hs)
      exact h.addIncomming hsig hwire hgot hr
    · cases hs
  | sendAck =>
    simp only [VanNode.step] at hs
    split at hs
    · rename_i msg dup ack hans
      obtain ⟨rfl, -⟩ := Prod.mk.inj (Option.some.inj hs)
      exact h.sendAck hans
    · cases hs
  | process =>
    simp only [VanNode.step] at hs
    split at hs
    · rename_i msg hpass
      obtain ⟨rfl, -⟩ := Prod.mk.inj (Option.some.inj hs)
      exact h.process hpass
    · cases hs
  | monitoring now =>
    simp only [VanNode.step] at hs
    split at hs
    · obtain ⟨⟨r, todo⟩, hr, hs⟩ := Option.bind_eq_some_iff.mp hs
      obtain ⟨rfl, -⟩ := Prod.mk.inj (Option.some.inj hs)
      obtain ⟨hacked, hbuf, htodo⟩ := monitoring_eq_some hr
      refine h.of_buffer rfl rfl hacked h.sending (fun m hm => ?_) fun k m hb => ?_
      · obtain ⟨k, hb⟩ := htodo m hm
        exact (h.buffer k m hb).1
      · exact h.buffer k m ((hbuf k m).mp hb)
    · cases hs
  | resend =>
    simp only [VanNode.step] at hs
    split at hs
    · obtain ⟨rfl, -⟩ := Prod.mk.inj (Option.some.inj hs)
      exact h.of_buffer rfl rfl rfl h.sending (by simp [Monitor.pending]) h.buffer
    · rename_i msg todo hmon
      obtain ⟨rfl, -⟩ := Prod.mk.inj (Option.some.inj hs)
      exact h.of_buffer rfl rfl rfl h.sending (by simpa [hmon, Monitor.pending] using h.pending) h.buffer
    · cases hs
  | addResent now =>
    simp only [VanNode.step] at hs
    split at hs
    · rename_i msg todo hmon
      obtain ⟨r, hr, hs⟩ := Option.bind_eq_some_iff.mp hs
      obtain ⟨rfl, -⟩ := Prod.mk.inj (Option.some.inj hs)
      have hsent := h.pending msg (by simp [hmon, Monitor.pending])
      refine h.addOutgoing (hkeyed _ hsent) hsent hr rfl rfl rfl (fun m hm => hm) fun m hm => ?_
      rw [hmon]
      exact List.mem_cons_of_mem msg hm
    · cases hs
  | stop =>
    obtain ⟨rfl, -⟩ := Prod.mk.inj (Option.some.inj hs)
    exact h

/-- What a step of a node means for the others: nothing recorded is forgotten, an ACK is sent for
something recorded, and `AddOutgoing` leaves its message in the buffer. -/
theorem step_frame (h : NodeInv sent wire n v) (hsig : Signatures sent) (hkeyed : ∀ p ∈ sent, Keyed p.2)
    {a : Action} {out : List Message} (hsend : ∀ m, a = .send m → (n, m) ∈ sent)
    (hs : v.step n wire a = some (v', out)) (h' : NodeInv sent wire n v') :
    (∀ k ∈ v.resender.acked, k ∈ v'.resender.acked) ∧
    (∀ m ∈ out, m.msgMeta.control.cmd = .ack → m.msgMeta.control.msgSig ∈ v'.resender.acked) ∧
    (∀ m ∈ out, Keyed m → (n, m) ∈ sent) ∧
    ∀ m ∈ v'.added, m ∈ v.added ∨ (n, m) ∈ sent ∧ ∃ k, Buffered v'.resender k m := by
  have hadd : ∀ {now m r'}, (n, m) ∈ sent → v.resender.addOutgoing n now m = some r' →
      v'.resender = r' → r'.acked = v.resender.acked ∧ ∃ k, Buffered r' k m := by
    rintro now m r' hsent hr rfl
    obtain ⟨k, hk, hacked, -, m', hm'⟩ := addOutgoing_eq_some (hkeyed _ hsent) hr
    obtain ⟨hsent', hk'⟩ := h'.buffer k m' hm'
    have heq := hsig.inj _ hsent _ hsent' k hk hk'
    obtain rfl : m = m' := congrArg Prod.snd heq
    exact ⟨hacked, k, hm'⟩
  cases a with
  | send msg =>
    obtain ⟨_, hg, hs⟩ := Option.bind_eq_some_iff.mp hs
    obtain ⟨rfl, rfl⟩ := Prod.mk.inj (Option.some.inj hs)
    have hk : msg.msgMeta.control.cmd ≠ .ack ∧ msg.msgMeta.control.cmd ≠ .terminate := by
      simpa [guard] using hg
    refine ⟨fun k hk => hk, fun m hm hack => ?_, fun m hm _ => ?_, fun m hm => .inl hm⟩
    · exact absurd (List.mem_singleton.mp hm ▸ hack) hk.1
    · exact hsend m (by rw [List.mem_singleton.mp hm])
  | addOutgoing thread now =>
    obtain ⟨msg, hmsg, hs⟩ := Option.bind_eq_some_iff.mp hs
    obtain ⟨r, hr, hs⟩ := Option.bind_eq_some_iff.mp hs
    obtain ⟨rfl, rfl⟩ := Prod.mk.inj (Option.some.inj hs)
    have hsent := h.sending msg (List.mem_of_getElem? hmsg)
    obtain ⟨hacked, hbuf⟩ := hadd hsent hr rfl
    refine ⟨fun k hk => hacked ▸ hk, by simp, by simp, fun m hm => ?_⟩
    rcases List.mem_append.mp hm with hm | hm
    · exact .inl hm
    · obtain rfl := List.mem_singleton.mp hm
      exact .inr ⟨hsent, hbuf⟩
  | recvMsg src msg =>
    simp only [VanNode.step] at hs
    split at hs
    · obtain ⟨_, -, hs⟩ := Option.bind_eq_some_iff.mp hs
      obtain ⟨rfl, rfl⟩ := Prod.mk.inj (Option.some.inj hs)
      exact ⟨fun k hk => hk, by simp, by simp, fun m hm => .inl hm⟩
    · cases hs
  | addIncomming =>
    simp only [VanNode.step] at hs
    split at hs
    · rename_i msg hgot
      obtain ⟨⟨r, dup, ack⟩, hr, hs⟩ := Option.bind_eq_some_iff.mp hs
      obtain ⟨rfl, rfl⟩ := Prod.mk.inj (Option.some.inj hs)
      by_cases hack : msg.msgMeta.control.cmd = .ack
      · rw [Resender.addIncomming, hack] at hr
        obtain ⟨rfl, -⟩ := Prod.mk.inj (Option.some.inj hr)
        exact ⟨fun k hk => hk, by simp, by simp, fun m hm => .inl hm⟩
      · have hr' : ∀ k ∈ v.resender.acked, k ∈ r.acked := by
          by_cases hterm : msg.msgMeta.control.cmd = .terminate
          · rw [Resender.addIncomming, hterm] at hr
            obtain ⟨rfl, -⟩ := Prod.mk.inj (Option.some.inj hr)
            exact fun k hk => hk
          · rw [Keyed.addIncomming_eq ⟨hack, hterm⟩] at hr
            obtain ⟨key, -, heq⟩ := Option.map_eq_some_iff.mp hr
            obtain ⟨rfl, -⟩ := Prod.mk.inj heq
            exact fun k hk => mem_acked_snoc.mpr (.inl hk)
        exact ⟨hr', by simp, by simp, fun m hm => .inl hm⟩
    · cases hs
  | sendAck =>
    simp only [VanNode.step] at hs
    split at hs
    · rename_i msg dup ack hans
      obtain ⟨rfl, rfl⟩ := Prod.mk.inj (Option.some.inj hs)
      refine ⟨fun k hk => hk, fun m hm _ => ?_, fun m hm hkey => ?_, fun m hm => .inl hm⟩
      · obtain rfl : ack = some m := by simpa using hm
        exact (h.answer msg dup m hans).2
      · obtain rfl : ack = some m := by simpa using hm
        exact absurd (h.answer msg dup m hans).1 hkey.ack
    · cases hs
  | process =>
    simp only [VanNode.step] at hs
    split at hs
    · obtain ⟨rfl, rfl⟩ := Prod.mk.inj (Option.some.inj hs)
      exact ⟨fun k hk => hk, by simp, by simp, fun m hm => .inl hm⟩
    · cases hs
  | monitoring now =>
    simp only [VanNode.step] at hs
    split at hs
    · obtain ⟨⟨r, todo⟩, hr, hs⟩ := Option.bind_eq_some_iff.mp hs
      obtain ⟨rfl, rfl⟩ := Prod.mk.inj (Option.some.inj hs)
      exact ⟨fun k hk => (monitoring_eq_some hr).1 ▸ hk, by simp, by simp, fun m hm => .inl hm⟩
    · cases hs
  | resend =>
    simp only [VanNode.step] at hs
    split at hs
    · obtain ⟨rfl, rfl⟩ := Prod.mk.inj (Option.some.inj hs)
      exact ⟨fun k hk => hk, by simp, by simp, fun m hm => .inl hm⟩
    · rename_i msg todo hmon
      obtain ⟨rfl, rfl⟩ := Prod.mk.inj (Option.some.inj hs)
      have hsent := h.pending msg (by simp [hmon, Monitor.pending])
      refine ⟨fun k hk => hk, fun m hm hack => ?_, fun m hm _ => ?_, fun m hm => .inl hm⟩
      · exact absurd (List.mem_singleton.mp hm ▸ hack) (hkeyed _ hsent).ack
      · exact List.mem_singleton.mp hm ▸ hsent
    · cases hs
  | addResent now =>
    simp only [VanNode.step] at hs
    split at hs
    · rename_i msg todo hmon
      obtain ⟨r, hr, hs⟩ := Option.bind_eq_some_iff.mp hs
      obtain ⟨rfl, rfl⟩ := Prod.mk.inj (Option.some.inj hs)
      have hsent := h.pending msg (by simp [hmon, Monitor.pending])
      obtain ⟨hacked, hbuf⟩ := hadd hsent hr rfl
      refine ⟨fun k hk => hacked ▸ hk, by simp, by simp, fun m hm => ?_⟩
      rcases List.mem_append.mp hm with hm | hm
      · exact .inl hm
      · obtain rfl := List.mem_singleton.mp hm
        exact .inr ⟨hsent, hbuf⟩
    · cases hs
  | stop =>
    obtain ⟨rfl, rfl⟩ := Prod.mk.inj (Option.some.inj hs)
    refine ⟨fun k hk => hk, fun m hm hack => ?_, fun m hm hkey => ?_, fun m hm => .inl hm⟩
    · rw [List.mem_singleton.mp hm] at hack
      cases hack
    · exact absurd rfl (List.mem_singleton.mp hm ▸ hkey).terminate

end NodeInv

/-- The invariant of the whole system. -/
structure NetInv (sent : List (NodeId × Message)) (s : ResendNet) : Prop where
  keyed : ∀ p ∈ sent, Keyed p.2
  node : ∀ n, NodeInv sent s.wire n (s.nodes n)
  wire : ∀ p ∈ s.wire, Keyed p.2 → p ∈ sent
  acks : ∀ p ∈ s.wire, p.2.msgMeta.control.cmd = .ack →
    p.2.msgMeta.control.msgSig ∈ (s.nodes p.1).resender.acked
  /-- A message whose `AddOutgoing` is done is in the buffer or recorded at its receiver. -/
  added : ∀ n, ∀ m ∈ (s.nodes n).added, (n, m) ∈ sent ∧ ((∃ k, Buffered (s.nodes n).resender k m) ∨
    ∃ k ∈ (s.nodes m.msgMeta.recver).resender.acked, getKey n m = some k)

variable {sent : List (NodeId × Message)} {s s' : ResendNet}

theorem Signatures.mono {sent' : List (NodeId × Message)} (h : Signatures sent')
    (hsub : ∀ p ∈ sent, p ∈ sent') : Signatures sent :=
  ⟨fun p hp => h.same p (hsub p hp), fun p hp q hq => h.inj p (hsub p hp) q (hsub q hq)⟩

theorem sends_snoc (as : List (NodeId × Action)) (na : NodeId × Action) :
    sends (as ++ [na]) = sends as ++ sends [na] :=
  List.filterMap_append

theorem NetInv.ack_recorded (h : NetInv sent s) (hsig : Signatures sent) {ack : Message}
    (hgot : (s.nodes n).receiver = .got ack) (hack : ack.msgMeta.control.cmd = .ack)
    (hb : Buffered (s.nodes n).resender ack.msgMeta.control.msgSig m) :
    ack.msgMeta.control.msgSig ∈ (s.nodes m.msgMeta.recver).resender.acked ∧
      getKey n m = some ack.msgMeta.control.msgSig := by
  obtain ⟨q, hq, -, rfl⟩ := (h.node n).got ack hgot
  have hrec : q.2.msgMeta.control.msgSig ∈ (s.nodes q.1).resender.acked := h.acks q hq hack
  obtain ⟨hsent, hkey⟩ := (h.node n).buffer _ m hb
  -- the ACK is for a message with the same signature, hence for this one
  obtain ⟨p, hp, hpn, hpk, -⟩ := (h.node q.1).acked _ hrec
  have heq : p = (n, m) := by
    refine hsig.inj p hp _ hsent _ ?_ hkey
    rw [← hsig.same p hp, hpn]
    exact hpk
  subst heq
  rw [show m.msgMeta.recver = q.1 from hpn]
  exact ⟨hrec, hkey⟩

theorem NetInv.step (h : NetInv sent s) {na : NodeId × Action} (hsig : Signatures (sent ++ sends [na]))
    (hs : s.step na = some s') : NetInv (sent ++ sends [na]) s' := by
  obtain ⟨n, a⟩ := na
  obtain ⟨⟨v', out⟩, hv, hs⟩ := Option.bind_eq_some_iff.mp hs
  obtain rfl := Option.some.inj hs
  have hsub : ∀ p ∈ sent, p ∈ sent ++ sends [(n, a)] := fun p hp => List.mem_append_left _ hp
  have hwsub : ∀ p ∈ s.wire, p ∈ s.wire ++ out.map fun msg => (n, msg) :=
    fun p hp => List.mem_append_left _ hp
  have hsend : ∀ m, a = .send m → (n, m) ∈ sent ++ sends [(n, a)] := by
    rintro m rfl
    exact List.mem_append_right _ (by simp [sends])
  have hkeyed : ∀ p ∈ sent ++ sends [(n, a)], Keyed p.2 := by
    intro p hp
    rcases List.mem_append.mp hp with hp | hp
    · exact h.keyed p hp
    · cases a with
      | send msg =>
        obtain rfl : p = (n, msg) := by simpa [sends] using hp
        obtain ⟨_, hg, -⟩ := Option.bind_eq_some_iff.mp hv
        obtain ⟨hack, hterm⟩ : msg.msgMeta.control.cmd ≠ .ack ∧ msg.msgMeta.control.cmd ≠ .terminate := by
          simpa [guard] using hg
        exact ⟨hack, hterm⟩
      | _ => simp [sends] at hp
  have hwire : ∀ p ∈ s.wire, Keyed p.2 → p ∈ sent ++ sends [(n, a)] := fun p hp hk => hsub p (h.wire p hp hk)
  have hnode : ∀ n', NodeInv (sent ++ sends [(n, a)]) s.wire n' (s.nodes n') :=
    fun n' => (h.node n').mono hsub fun p hp => hp
  have hv' := (hnode n).step hsig hkeyed hwire hsend hv
  obtain ⟨hacked, hacks, hout, hadded⟩ := (hnode n).step_frame hsig hkeyed hsend hv hv'
  -- nothing recorded is forgotten, at any node
  have hmono : ∀ n', ∀ k ∈ (s.nodes n').resender.acked,
      k ∈ (Function.update s.nodes n v' n').resender.acked := by
    intro n' k hk
    rcases eq_or_ne n' n with rfl | hne
    · rw [Function.update_self]
      exact hacked k hk
    · rwa [Function.update_of_ne hne]
  refine ⟨hkeyed, fun n' => ?_, fun p hp hk => ?_, fun p hp hack => ?_, fun n' m hm => ?_⟩
  · show NodeInv _ _ n' (Function.update s.nodes n v' n')
    rcases eq_or_ne n' n with rfl | hne
    · rw [Function.update_self]
      exact hv'.mono (fun p hp => hp) hwsub
    · rw [Function.update_of_ne hne]
      exact (hnode n').mono (fun p hp => hp) hwsub
  · rcases List.mem_append.mp hp with hp | hp
    · exact hwire p hp hk
    · obtain ⟨m, hm, rfl⟩ := List.mem_map.mp hp
      exact hout m hm hk
  · rcases List.mem_append.mp hp with hp | hp
    · exact hmono p.1 _ (h.acks p hp hack)
    · obtain ⟨m, hm, rfl⟩ := List.mem_map.mp hp
      show _ ∈ (Function.update s.nodes n v' n).resender.acked
      rw [Function.update_self]
      exact hacks m hm hack
  · replace hm : m ∈ (Function.update s.nodes n v' n').added := hm
    show (n', m) ∈ _ ∧ ((∃ k, Buffered (Function.update s.nodes n v' n').resender k m) ∨
      ∃ k ∈ (Function.update s.nodes n v' m.msgMeta.recver).resender.acked, _)
    -- a message that was added before stays buffered unless its ACK arrives
    have hold : m ∈ (s.nodes n').added → (n', m) ∈ sent ++ sends [(n, a)] ∧
        ((∃ k, Buffered (Function.update s.nodes n v' n').resender k m) ∨
          ∃ k ∈ (Function.update s.nodes n v' m.msgMeta.recver).resender.acked, getKey n' m = some k) := by
      intro hm
      obtain ⟨hsent, ⟨k, hb⟩ | ⟨k, hk, hkey⟩⟩ := h.added n' m hm
      · refine ⟨hsub _ hsent, ?_⟩
        rcases eq_or_ne n' n with rfl | hne
        · rw [Function.update_self]
          rcases buffered_step hv hb with hb' | ⟨ack, hgot, hack, rfl⟩
          · exact .inl ⟨k, hb'⟩
          · obtain ⟨hk, hkey⟩ := h.ack_recorded (hsig.mono hsub) hgot hack hb
            exact .inr ⟨_, hmono _ _ hk, hkey⟩
        · rw [Function.update_of_ne hne]
          exact .inl ⟨k, hb⟩
      · exact ⟨hsub _ hsent, .inr ⟨k, hmono _ k hk, hkey⟩⟩
    rcases eq_or_ne n' n with rfl | hne
    · rw [Function.update_self] at hm
      rcases hadded m hm with hm | ⟨hsent, hb⟩
      · exact hold hm
      · rw [Function.update_self]
        exact ⟨hsent, .inl hb⟩
    · rw [Function.update_of_ne hne] at hm
      exact hold hm

theorem netInv_exec {as : List (NodeId × Action)} (hsig : Signatures (sends as))
    (hrun : Run.exec ResendNet.step {} as = some s) : NetInv (sends as) s := by
  refine Run.exec_induction (fun as s => NetInv (sends as) s) (fun as => Signatures (sends as))
    (fun as a h => ?_) ?_ (fun as a t t' hok hinv hs => ?_) hsig hrun
  · rw [sends_snoc] at h
    exact h.mono fun p hp => List.mem_append_left _ hp
  · exact ⟨by simp [sends], fun n => NodeInv.init n, by simp, by simp, by simp⟩
  · rw [sends_snoc] at hok ⊢
    exact hinv.step hok hs

/-- Over a network that loses, duplicates, delays and reorders, when the signatures are the same at both
ends and differ between messages: a node processes a message at most once, drops one as a duplicate only
if it has processed it before, and a message leaves the buffer only in a state in which its receiver has
recorded it. So a message whose `Send` is over waits in the buffer, has been processed, or is in the hands
of the receiving thread that processes it next. -/
theorem resender_processes_at_most_once {as : List (NodeId × Action)}
    (hrun : Run.exec ResendNet.step {} as = some s) (hsig : Signatures (sends as)) :
    (∀ n, (s.nodes n).processed.Nodup) ∧
    (∀ n m ack, (s.nodes n).receiver = .answered m true ack → Keyed m → m ∈ (s.nodes n).processed) ∧
    (∀ na s', s.step na = some s' → ∀ n k m, Buffered (s.nodes n).resender k m →
      ¬ Buffered (s'.nodes n).resender k m → k ∈ (s.nodes m.msgMeta.recver).resender.acked) ∧
    ∀ n, ∀ m ∈ (s.nodes n).added, (∃ k, Buffered (s.nodes n).resender k m) ∨
      arrives (n, m) ∈ (s.nodes m.msgMeta.recver).processed ∨
      (s.nodes m.msgMeta.recver).receiver.Holds (arrives (n, m)) := by
  have h := netInv_exec hsig hrun
  refine ⟨fun n => (h.node n).nodup, fun n m ack => (h.node n).dropped m ack, ?_, fun n m hm => ?_⟩
  · rintro ⟨n₀, a⟩ s' hs n k m hb hgone
    obtain ⟨⟨v', out⟩, hv, hs⟩ := Option.bind_eq_some_iff.mp hs
    obtain rfl := Option.some.inj hs
    replace hgone : ¬ Buffered (Function.update s.nodes n₀ v' n).resender k m := hgone
    rcases eq_or_ne n n₀ with rfl | hne
    · rw [Function.update_self] at hgone
      obtain ⟨ack, hgot, hack, rfl⟩ := (buffered_step hv hb).resolve_left hgone
      exact (h.ack_recorded hsig hgot hack hb).1
    · rw [Function.update_of_ne hne] at hgone
      exact absurd hb hgone
  · obtain ⟨hsent, hb | ⟨k, hk, hkey⟩⟩ := h.added n m hm
    · exact .inl hb
    · obtain ⟨p, hp, hpn, hpk, hdone⟩ := (h.node _).acked k hk
      have heq : p = (n, m) := by
        refine hsig.inj p hp _ hsent k ?_ hkey
        rw [← hsig.same p hp, hpn]
        exact hpk
      exact .inr (heq ▸ hdone)

/-- `GetKey` gives a message that does not name its sender the same signature at both ends. -/
theorem getKey_arrives {p : NodeId × Message} (hp : p.1 ≠ kEmpty) (hm : p.2.msgMeta.sender = kEmpty)
    (id : NodeId) : getKey id (arrives p) = getKey p.1 p.2 := by
  have hsender : senderAt id (arrives p) = senderAt p.1 p.2 := by
    rw [senderAt, senderAt, if_neg (show (arrives p).msgMeta.sender ≠ kEmpty from hp), if_pos hm]
    rfl
  rw [getKey, getKey, hsender]
  rfl

def samplePing : Message := { msgMeta := { appId := 0, timestamp := 0, recver := 8 } }

def sampleKey : UInt64 := 0x90800000000

/-- The message arrives twice, and its first ACK before `AddOutgoing` has buffered it. -/
def sampleRun : List (NodeId × Action) :=
  [(9, .send samplePing), (8, .recvMsg 9 samplePing), (8, .addIncomming), (8, .sendAck), (8, .process),
    (9, .recvMsg 8 (ackOf (arrives (9, samplePing)) sampleKey)), (9, .addIncomming), (9, .sendAck),
    (9, .addOutgoing 0 0), (8, .recvMsg 9 samplePing), (8, .addIncomming)]

theorem resender_processes_at_most_once_sample : ∃ s, Run.exec ResendNet.step {} sampleRun = some s ∧
    samplePing ∈ (s.nodes 9).added ∧ (s.nodes 8).processed = [arrives (9, samplePing)] ∧
    ∀ n, (s.nodes n).processed.Nodup := by
  have heval : (Run.exec ResendNet.step {} sampleRun).map
      (fun s => ((s.nodes 9).added, (s.nodes 8).processed)) =
      some ([samplePing], [arrives (9, samplePing)]) := by decide
  have hsends : sends sampleRun = [(9, samplePing)] := rfl
  obtain ⟨s, hrun, hs⟩ := Option.map_eq_some_iff.mp heval
  obtain ⟨hadded, hprocessed⟩ := Prod.mk.inj hs
  refine ⟨s, hrun, by simp [hadded], hprocessed, (resender_processes_at_most_once hrun ⟨?_, ?_⟩).1⟩
  · rw [hsends]
    intro p hp
    obtain rfl := List.mem_singleton.mp hp
    exact getKey_arrives (by decide) rfl _
  · rw [hsends]
    intro p hp q hq _ _ _
    rw [List.mem_singleton.mp hp, List.mem_singleton.mp hq]

end ResendNet

end StepMesh
