import StepMesh.Lib.Run
import StepMesh.Postoffice

/-!
# The resender (`src/resender.h`)

`Van::Send` hands every message it has sent to `AddOutgoing`, which buffers it until the ACK with its
signature arrives; `Monitoring` sends what waits too long once more. `Van::Receiving` asks `AddIncomming`
whether a message is new before it processes it. The functions below are those of one node, each up to
the point where it releases `mu_`: what it sends after that is part of its result. `now` is what the
clock says, in the unit of `timeout_`.
-/

namespace StepMesh

/-- The value `GetKey` packs: a 16-bit app id, two 8-bit node ids, and the timestamp shifted as an `int`
and widened with its sign. -/
def sigWord (id : BitVec 16) (sender recver : BitVec 8) (timestamp : BitVec 32) (request : Bool) :
    BitVec 64 :=
  id.setWidth 64 <<< 48 ||| sender.setWidth 64 <<< 40 ||| recver.setWidth 64 <<< 32 |||
    (timestamp <<< 1).signExtend 64 ||| (BitVec.ofBool request).setWidth 64

/-- `Entry`: a message that waits for its ACK. -/
structure Resender.Entry where
  msg : Message
  send : Nat
  numRetry : Nat := 0

structure Resender where
  timeout : Nat := 1000
  maxNumRetry : Nat := 10
  sendBuff : List (UInt64 × Resender.Entry) := []
  acked : List UInt64 := []

namespace Resender

/-- A message that is not sent yet does not name its sender. -/
def senderAt (myId : NodeId) (msg : Message) : NodeId :=
  if msg.msgMeta.sender = kEmpty then myId else msg.msgMeta.sender

/-- `GetKey` at node `myId`; a timestamp of `kEmpty` fails its check. -/
def getKey (myId : NodeId) (msg : Message) : Option UInt64 :=
  if msg.msgMeta.timestamp = kEmpty then none
  else some ⟨sigWord (.ofInt 16 msg.msgMeta.appId) (.ofInt 8 (senderAt myId msg))
    (.ofInt 8 msg.msgMeta.recver) (.ofInt 32 msg.msgMeta.timestamp) msg.msgMeta.request⟩

/-- `AddOutgoing`. -/
def addOutgoing (r : Resender) (myId : NodeId) (now : Nat) (msg : Message) : Option Resender :=
  if msg.msgMeta.control.cmd = .ack then some r
  else do
    let key ← getKey myId msg
    return if r.sendBuff.any (·.1 = key) then r
      else { r with sendBuff := r.sendBuff ++ [(key, { msg := msg, send := now })] }

/-- The ACK of a message. -/
def ackOf (msg : Message) (key : UInt64) : Message :=
  { msgMeta := {
      recver := msg.msgMeta.sender
      sender := msg.msgMeta.recver
      control := { cmd := .ack, msgSig := key } } }

/-- `AddIncomming`: the resender, whether the message is dropped, and the ACK to send. -/
def addIncomming (r : Resender) (myId : NodeId) (msg : Message) :
    Option (Resender × Bool × Option Message) :=
  match msg.msgMeta.control.cmd with
  | .terminate => some (r, false, none)
  | .ack =>
    some ({ r with sendBuff := r.sendBuff.filter (·.1 ≠ msg.msgMeta.control.msgSig) }, true, none)
  | _ => do
    let key ← getKey myId msg
    let duplicated := r.acked.contains key
    return ({ r with acked := if duplicated then r.acked else r.acked ++ [key] }, duplicated,
      some (ackOf msg key))

/-- The entry has waited for its next retry. -/
def Entry.due (timeout now : Nat) (e : Entry) : Bool := e.send + timeout * (1 + e.numRetry) < now

/-- One round of `Monitoring`: what it is going to send again. Too many retries fail its check. -/
def monitoring (r : Resender) (now : Nat) : Option (Resender × List Message) := do
  guard (r.sendBuff.all fun p => !p.2.due r.timeout now || p.2.numRetry + 1 < r.maxNumRetry)
  let sendBuff := r.sendBuff.map fun p =>
    if p.2.due r.timeout now then (p.1, { p.2 with numRetry := p.2.numRetry + 1 }) else p
  return ({ r with sendBuff := sendBuff },
    (r.sendBuff.filter fun p => p.2.due r.timeout now).map (·.2.msg))

/-! ### Which messages have the same signature -/

theorem getLsbD_sigWord (id : BitVec 16) (sender recver : BitVec 8) (t : BitVec 32) (q : Bool)
    (i : Nat) : (sigWord id sender recver t q).getLsbD i = (decide (i < 64) &&
      if i < 32 then (if i = 0 then q else t.getLsbD (i - 1))
      else t.getLsbD 30 ||
        if i < 40 then recver.getLsbD (i - 32)
        else if i < 48 then sender.getLsbD (i - 40) else id.getLsbD (i - 48)) := by
  simp only [sigWord, BitVec.getLsbD_or, BitVec.getLsbD_shiftLeft, BitVec.getLsbD_setWidth,
    BitVec.getLsbD_signExtend, BitVec.getLsbD_ofBool, BitVec.msb_eq_getLsbD_last]
  have hr : ∀ j, 8 ≤ j → recver.getLsbD j = false := fun j hj => BitVec.getLsbD_of_ge _ _ hj
  have hs : ∀ j, 8 ≤ j → sender.getLsbD j = false := fun j hj => BitVec.getLsbD_of_ge _ _ hj
  grind

/-- From timestamp `2^30` on the sign of the shifted `int` covers the ids. -/
theorem sigWord_eq_iff {id₁ id₂ : BitVec 16} {s₁ s₂ r₁ r₂ : BitVec 8} {t₁ t₂ : BitVec 32} {q₁ q₂ : Bool}
    (h₁ : t₁.getLsbD 31 = false) (h₂ : t₂.getLsbD 31 = false) :
    sigWord id₁ s₁ r₁ t₁ q₁ = sigWord id₂ s₂ r₂ t₂ q₂ ↔
      t₁ = t₂ ∧ q₁ = q₂ ∧ (t₁.getLsbD 30 = true ∨ id₁ = id₂ ∧ s₁ = s₂ ∧ r₁ = r₂) := by
  constructor
  · intro heq
    have hbit : ∀ i, (sigWord id₁ s₁ r₁ t₁ q₁).getLsbD i = (sigWord id₂ s₂ r₂ t₂ q₂).getLsbD i :=
      fun i => by rw [heq]
    simp only [getLsbD_sigWord] at hbit
    have ht : t₁ = t₂ := by
      refine BitVec.eq_of_getLsbD_eq fun i hi => ?_
      rcases Nat.lt_or_ge i 31 with hlt | hge
      · simpa [show i + 1 < 64 by omega, show i + 1 < 32 by omega] using hbit (i + 1)
      · obtain rfl : i = 31 := by omega
        rw [h₁, h₂]
    subst ht
    refine ⟨rfl, by simpa using hbit 0, ?_⟩
    cases h30 : t₁.getLsbD 30 with
    | true => exact .inl rfl
    | false =>
      refine .inr ⟨?_, ?_, ?_⟩
      · refine BitVec.eq_of_getLsbD_eq fun i hi => ?_
        have := hbit (i + 48)
        grind
      · refine BitVec.eq_of_getLsbD_eq fun i hi => ?_
        have := hbit (i + 40)
        grind
      · refine BitVec.eq_of_getLsbD_eq fun i hi => ?_
        have := hbit (i + 32)
        grind
  · rintro ⟨rfl, rfl, h30 | ⟨rfl, rfl, rfl⟩⟩
    · refine BitVec.eq_of_getLsbD_eq fun i hi => ?_
      simp only [getLsbD_sigWord, h30, Bool.true_or]
    · rfl

theorem ofInt_eq_iff {w : Nat} {a b : Int} :
    BitVec.ofInt w a = BitVec.ofInt w b ↔ a % (2 ^ w : Nat) = b % (2 ^ w : Nat) := by
  have hne : ((2 ^ w : Nat) : Int) ≠ 0 := by
    exact_mod_cast Nat.ne_of_gt (Nat.two_pow_pos w)
  have ha := Int.emod_nonneg a hne
  have hb := Int.emod_nonneg b hne
  rw [← BitVec.toNat_inj, BitVec.toNat_ofInt, BitVec.toNat_ofInt]
  omega

/-- A timestamp as the customers hand them out: an `int` that is not negative. -/
def IsTimestamp (t : Int) : Prop := 0 ≤ t ∧ t < 2 ^ 31

theorem IsTimestamp.testBit {t : Int} (h : IsTimestamp t) :
    (BitVec.ofInt 32 t).getLsbD 31 = false ∧
      ((BitVec.ofInt 32 t).getLsbD 30 = true ↔ 2 ^ 30 ≤ t) := by
  obtain ⟨n, rfl⟩ := Int.eq_ofNat_of_zero_le h.1
  have hn : n < 2 ^ 31 := by have := h.2; omega
  have hto : (BitVec.ofInt 32 n).toNat = n := by
    rw [BitVec.toNat_ofInt]
    omega
  simp only [BitVec.getLsbD, hto, Nat.testBit_eq_decide_div_mod_eq, decide_eq_false_iff_not,
    decide_eq_true_eq]
  omega

/-- What keeps two signatures apart at node `myId`. The customer is not part of it, an app id counts
modulo `2^16`, a node id modulo `2^8`, and the ids do not count at all from timestamp `2^30` on. -/
def Distinguished (myId : NodeId) (m₁ m₂ : Message) : Prop :=
  m₁.msgMeta.timestamp ≠ m₂.msgMeta.timestamp ∨ m₁.msgMeta.request ≠ m₂.msgMeta.request ∨
    m₁.msgMeta.timestamp < 2 ^ 30 ∧
      (m₁.msgMeta.appId % 2 ^ 16 ≠ m₂.msgMeta.appId % 2 ^ 16 ∨
        senderAt myId m₁ % 2 ^ 8 ≠ senderAt myId m₂ % 2 ^ 8 ∨
        m₁.msgMeta.recver % 2 ^ 8 ≠ m₂.msgMeta.recver % 2 ^ 8)

theorem getKey_eq_some {myId : NodeId} {m : Message} {k : UInt64} :
    getKey myId m = some k ↔ m.msgMeta.timestamp ≠ kEmpty ∧ k = ⟨sigWord (.ofInt 16 m.msgMeta.appId)
      (.ofInt 8 (senderAt myId m)) (.ofInt 8 m.msgMeta.recver) (.ofInt 32 m.msgMeta.timestamp)
      m.msgMeta.request⟩ := by
  unfold getKey
  split_ifs with h <;> simp [h, eq_comm]

theorem key_ne_iff {myId : NodeId} {m₁ m₂ : Message} (h₁ : IsTimestamp m₁.msgMeta.timestamp)
    (h₂ : IsTimestamp m₂.msgMeta.timestamp) {k₁ k₂ : UInt64} (hk₁ : getKey myId m₁ = some k₁)
    (hk₂ : getKey myId m₂ = some k₂) : k₁ ≠ k₂ ↔ Distinguished myId m₁ m₂ := by
  obtain ⟨-, rfl⟩ := getKey_eq_some.mp hk₁
  obtain ⟨-, rfl⟩ := getKey_eq_some.mp hk₂
  have htime : m₁.msgMeta.timestamp % (2 ^ 32 : Nat) = m₂.msgMeta.timestamp % (2 ^ 32 : Nat) ↔
      m₁.msgMeta.timestamp = m₂.msgMeta.timestamp := by
    obtain ⟨_, _⟩ := h₁
    obtain ⟨_, _⟩ := h₂
    omega
  rw [ne_eq, UInt64.ofBitVec.injEq, sigWord_eq_iff h₁.testBit.1 h₂.testBit.1, h₁.testBit.2]
  simp only [ofInt_eq_iff, htime, Distinguished]
  norm_cast
  grind

/-! ### Which messages are dropped -/

/-- A message that has a signature: ACKs and the message that stops the van have none. -/
structure Keyed (m : Message) : Prop where
  ack : m.msgMeta.control.cmd ≠ .ack
  terminate : m.msgMeta.control.cmd ≠ .terminate

variable {r r' : Resender} {myId : NodeId} {m : Message}

theorem Keyed.addIncomming_eq (h : Keyed m) (r : Resender) (myId : NodeId) :
    r.addIncomming myId m = (getKey myId m).map fun key =>
      ({ r with acked := if r.acked.contains key then r.acked else r.acked ++ [key] },
        r.acked.contains key, some (ackOf m key)) := by
  have hack := h.ack
  have hterm := h.terminate
  unfold addIncomming
  split
  · exact absurd ‹_› hterm
  · exact absurd ‹_› hack
  · cases getKey myId m <;> rfl

theorem mem_acked_snoc {key k : UInt64} :
    k ∈ (if r.acked.contains key then r.acked else r.acked ++ [key]) ↔ k ∈ r.acked ∨ key = k := by
  split_ifs with h
  · rw [List.contains_iff_mem] at h
    constructor
    · exact .inl
    · rintro (hk | rfl)
      · exact hk
      · exact h
  · rw [List.mem_append, List.mem_singleton, eq_comm]

/-- `Van::Receiving` up to the answer of `AddIncomming`. -/
def receive (myId : NodeId) (r : Resender) (m : Message) : Option Resender :=
  (r.addIncomming myId m).map (·.1)

theorem acked_exec {ms : List Message} (hms : ∀ m ∈ ms, Keyed m)
    (h : Run.exec (receive myId) r ms = some r') :
    (∀ m ∈ ms, getKey myId m ≠ none) ∧
      ∀ k, k ∈ r'.acked ↔ k ∈ r.acked ∨ ∃ m ∈ ms, getKey myId m = some k := by
  refine Run.exec_induction (fun ms r' => (∀ m ∈ ms, getKey myId m ≠ none) ∧
      ∀ k, k ∈ r'.acked ↔ k ∈ r.acked ∨ ∃ m ∈ ms, getKey myId m = some k)
    (fun ms => ∀ m ∈ ms, Keyed m) (fun ms m hms m' hm' => hms m' (List.mem_append_left _ hm')) ?_ ?_ hms h
  · simp
  · rintro ms m t t' hms ⟨hkeys, hiff⟩ hstep
    rw [receive, (hms m (by simp)).addIncomming_eq, Option.map_map] at hstep
    obtain ⟨key, hkey, rfl⟩ := Option.map_eq_some_iff.mp hstep
    constructor
    · intro m' hm'
      rcases List.mem_append.mp hm' with hm' | hm'
      · exact hkeys m' hm'
      · rw [List.mem_singleton.mp hm', hkey]
        simp
    · intro k
      show k ∈ (if t.acked.contains key then t.acked else t.acked ++ [key]) ↔ _
      rw [mem_acked_snoc, hiff]
      simp only [List.mem_append, List.mem_singleton, or_and_right, exists_or, exists_eq_left, hkey,
        Option.some.injEq, or_assoc]

/-- At every node and for messages with timestamps in the range of `int`: two messages have different
signatures exactly if their fields keep the signatures apart, and a message that arrives after others is
not taken for a duplicate exactly if this is so for each of them. -/
theorem fresh_message_not_dropped_iff (myId : NodeId) (m : Message) (hm : Keyed m)
    (ht : IsTimestamp m.msgMeta.timestamp) :
    (∀ m', IsTimestamp m'.msgMeta.timestamp →
      ((∃ k k', getKey myId m = some k ∧ getKey myId m' = some k' ∧ k' ≠ k) ↔
        m.msgMeta.timestamp ≠ kEmpty ∧ m'.msgMeta.timestamp ≠ kEmpty ∧ Distinguished myId m' m)) ∧
    ∀ (ms : List Message) (r : Resender), (∀ m' ∈ ms, Keyed m' ∧ IsTimestamp m'.msgMeta.timestamp) →
      Run.exec (receive myId) {} ms = some r →
      ((r.addIncomming myId m).map (·.2.1) = some false ↔
        m.msgMeta.timestamp ≠ kEmpty ∧ ∀ m' ∈ ms, Distinguished myId m' m) := by
  have hsome : ∀ {m' : Message}, m'.msgMeta.timestamp ≠ kEmpty → ∃ k, getKey myId m' = some k :=
    fun hne => ⟨_, getKey_eq_some.mpr ⟨hne, rfl⟩⟩
  constructor
  · intro m' ht'
    constructor
    · rintro ⟨k, k', hk, hk', hne⟩
      exact ⟨(getKey_eq_some.mp hk).1, (getKey_eq_some.mp hk').1, (key_ne_iff ht' ht hk' hk).mp hne⟩
    · rintro ⟨hne, hne', hd⟩
      obtain ⟨k, hk⟩ := hsome hne
      obtain ⟨k', hk'⟩ := hsome hne'
      exact ⟨k, k', hk, hk', (key_ne_iff ht' ht hk' hk).mpr hd⟩
  · intro ms r hms hr
    obtain ⟨hkeys, hacked⟩ := acked_exec (fun m' hm' => (hms m' hm').1) hr
    have hnew : ∀ k, r.acked.contains k = false ↔ ∀ m' ∈ ms, getKey myId m' ≠ some k := by
      intro k
      rw [Bool.eq_false_iff, ne_eq, List.contains_iff_mem, hacked]
      simp
    rw [hm.addIncomming_eq, Option.map_map, Option.map_eq_some_iff]
    constructor
    · rintro ⟨k, hk, hk₀⟩
      refine ⟨(getKey_eq_some.mp hk).1, fun m' hm' => ?_⟩
      obtain ⟨k', hk'⟩ := Option.ne_none_iff_exists'.mp (hkeys m' hm')
      refine (key_ne_iff (hms m' hm').2 ht hk' hk).mp ?_
      rintro rfl
      exact (hnew k').mp hk₀ m' hm' hk'
    · rintro ⟨hne, hd⟩
      obtain ⟨k, hk⟩ := hsome hne
      refine ⟨k, hk, (hnew k).mpr fun m' hm' hk' => ?_⟩
      exact (key_ne_iff (hms m' hm').2 ht hk' hk).mpr (hd m' hm') rfl

/-- A request of customer `customerId` of app 0 from worker 9 to server 8. -/
def sampleRequest (customerId timestamp : Int) : Message :=
  { msgMeta := {
      appId := 0, customerId := customerId, timestamp := timestamp, request := true, sender := 9
      recver := 8 } }

theorem fresh_message_not_dropped_next_timestamp :
    ∃ r, Run.exec (receive 8) {} [sampleRequest 0 0] = some r ∧
      (r.addIncomming 8 (sampleRequest 0 1)).map (·.2.1) = some false := by
  refine ⟨_, rfl, ?_⟩
  refine ((fresh_message_not_dropped_iff 8 (sampleRequest 0 1) ⟨by decide, by decide⟩
    ⟨by decide, by decide⟩).2 [sampleRequest 0 0] _ ?_ rfl).mpr ⟨by decide, ?_⟩
  · intro m hm
    obtain rfl := List.mem_singleton.mp hm
    exact ⟨⟨by decide, by decide⟩, by decide, by decide⟩
  · intro m hm
    obtain rfl := List.mem_singleton.mp hm
    exact .inl (by decide)

/-- Two customers of one app on one worker start counting at the same timestamp: the second one's request
is dropped. -/
theorem second_customer_dropped :
    (sampleRequest 0 0).msgMeta.customerId ≠ (sampleRequest 1 0).msgMeta.customerId ∧
      getKey 8 (sampleRequest 0 0) = getKey 8 (sampleRequest 1 0) ∧
      ∃ r, Run.exec (receive 8) {} [sampleRequest 0 0] = some r ∧
        (r.addIncomming 8 (sampleRequest 1 0)).map (·.2.1) = some true :=
  ⟨by decide, rfl, _, rfl, by decide⟩

end Resender

end StepMesh
