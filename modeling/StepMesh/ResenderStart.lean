import Mathlib.Data.Option.Basic
import StepMesh.ResenderNet
import StepMesh.Lib.ListAux

/-!
# Vans that install their resender while messages arrive (`Van::Start`)

`Start` runs the receiver thread first and installs the resender when the node is ready, so for a while a
node receives without one: it processes every copy of a message and sends no ACK, whether or not the sender
has a resender that will send the message once more. The steps with a resender are those of
`ResenderNet.lean`. Here the network duplicates nothing: a copy is received once or lost, so a second copy
of a message is one that the sender's resender made.
-/

namespace StepMesh

open Resender ResendNet

/-- A van, whether it has installed its resender, and the messages it let through before. -/
structure StartNode where
  van : VanNode := {}
  installed : Bool := false
  passed : List Message := []

/-- `sent` are the messages that threads have sent. -/
structure StartNet where
  nodes : NodeId → StartNode := fun _ => {}
  wire : List (NodeId × Message) := []
  sent : List (NodeId × Message) := []

namespace StartNet

inductive Action
  | van (a : ResendNet.Action)
  /-- `resender_ = new Resender(timeout, 10, this)`. -/
  | install (timeout : Nat)
  /-- A copy is lost on its way, or dropped by `Receiving`. -/
  | lose (src : NodeId) (msg : Message)

end StartNet

namespace StartNode

/-- A step while `resender_` is null: `Send` ends without `AddOutgoing`, `Receiving` goes on without
`AddIncomming`, and there is no monitor. -/
def stepBare (id : NodeId) (wire : List (NodeId × Message)) (v : StartNode) :
    ResendNet.Action → Option (StartNode × List Message)
  | .addOutgoing thread _ => do
    guard (thread < v.van.sending.length)
    return ({ v with van := { v.van with sending := v.van.sending.eraseIdx thread } }, [])
  | .addIncomming =>
    match v.van.receiver with
    | .got msg => some ({ v with
        van := { v.van with receiver := .passing msg }
        passed := v.passed ++ [msg] }, [])
    | _ => none
  | .monitoring _ => none
  | a => (v.van.step id wire a).map fun (w, out) => ({ v with van := w }, out)

def step (id : NodeId) (wire : List (NodeId × Message)) (v : StartNode) :
    StartNet.Action → Option (StartNode × List Message)
  | .van a =>
    if v.installed then (v.van.step id wire a).map fun (w, out) => ({ v with van := w }, out)
    else v.stepBare id wire a
  | .install timeout => do
    guard (v.installed = false)
    return ({ v with installed := true, van := { v.van with resender := { timeout := timeout } } }, [])
  | .lose _ _ => some (v, [])

end StartNode

namespace StartNet

/-- The copies that are still on their way. -/
def remaining (wire : List (NodeId × Message)) : Action → List (NodeId × Message)
  | .van (.recvMsg src msg) | .lose src msg => wire.erase (src, msg)
  | _ => wire

/-- What a thread of the node sends. -/
def sends (n : NodeId) : Action → List (NodeId × Message)
  | .van (.send msg) => [(n, msg)]
  | _ => []

def step (s : StartNet) (na : NodeId × Action) : Option StartNet := do
  let (v, out) ← (s.nodes na.1).step na.1 s.wire na.2
  return {
    nodes := Function.update s.nodes na.1 v
    wire := remaining s.wire na.2 ++ out.map fun msg => (na.1, msg)
    sent := s.sent ++ sends na.1 na.2 }

/-- A node without a resender lets a message through only if no other copy of it is on its way, and a message
is sent again only if its receiver has not let it through without a resender. -/
def Careful (s : StartNet) (na : NodeId × Action) : Prop :=
  match na.2 with
  | .van .addIncomming =>
    match (s.nodes na.1).van.receiver with
    | .got m => (s.nodes na.1).installed = false → ∀ p ∈ s.wire, p.2.msgMeta.recver = na.1 → arrives p ≠ m
    | _ => True
  | .van .resend =>
    match (s.nodes na.1).van.monitor with
    | .resending (msg :: _) => arrives (na.1, msg) ∉ (s.nodes msg.msgMeta.recver).passed
    | _ => True
  | _ => True

instance (s : StartNet) (na : NodeId × Action) : Decidable (s.Careful na) := by
  unfold Careful
  split
  · split <;> infer_instance
  · split <;> infer_instance
  · infer_instance

end StartNet

/-! ### What a node has taken and what it may send again -/

/-- The message that the receiving thread is going to process. -/
def ResendNet.Receiver.held : Receiver → List Message
  | .answered m false _ => [m]
  | .passing m => [m]
  | _ => []

namespace StartNode

/-- The messages that are processed or about to be. -/
def taken (v : StartNode) : List Message := v.van.processed ++ v.van.receiver.held

/-- The message may be sent again. -/
def Kept (v : StartNode) (m : Message) : Prop :=
  m ∈ v.van.sending ∨ m ∈ v.van.monitor.pending ∨ ∃ k, Buffered v.van.resender k m

/-- The resender does not know the message. -/
def Unknown (n : NodeId) (v : StartNode) (m : Message) : Prop :=
  ∀ k, getKey n m = some k → k ∉ v.van.resender.acked

/-- `AddIncomming` answers with ACKs, and nothing is recorded before there is a resender. -/
structure Ok (v : StartNode) : Prop where
  acks : ∀ m dup a, v.van.receiver = .answered m dup (some a) → ¬Keyed a
  started : v.installed = false → v.van.resender.acked = []

/-- What a node takes with a step and what it learns: the messages with a signature among `takes` are new, and
the resender forgets nothing. -/
structure Takes (n : NodeId) (v v' : StartNode) (takes : List Message) : Prop where
  taken : ∀ m, Keyed m → v'.taken.count m = v.taken.count m + takes.count m
  unknown : ∀ m, v'.Unknown n m → v.Unknown n m
  ok : v'.Ok

/-- The kinds of steps of a node. -/
inductive Effect (n : NodeId) (wire : List (NodeId × Message)) (v : StartNode) :
    StartNet.Action → StartNode → List Message → Prop
  /-- Nothing is taken, and nothing is sent but ACKs and exit messages. -/
  | quiet {a : StartNet.Action} {v' : StartNode} {out : List Message} (htakes : Takes n v v' [])
      (hpassed : v'.passed = v.passed) (hgot : ∀ m, v'.van.receiver = .got m → v.van.receiver = .got m)
      (hkept : ∀ m, v'.Kept m → v.Kept m) (hout : ∀ m ∈ out, ¬Keyed m) (hsends : StartNet.sends n a = []) :
      Effect n wire v a v' out
  | send {msg : Message} {v' : StartNode} (hmsg : Keyed msg) (htakes : Takes n v v' [])
      (hpassed : v'.passed = v.passed) (hgot : v'.van.receiver = v.van.receiver)
      (hkept : ∀ m, v'.Kept m → v.Kept m ∨ m = msg) : Effect n wire v (.van (.send msg)) v' [msg]
  | recvMsg {src : NodeId} {msg : Message} {v' : StartNode} (hwire : (src, msg) ∈ wire)
      (hrecver : msg.msgMeta.recver = n) (htakes : Takes n v v' []) (hpassed : v'.passed = v.passed)
      (hgot : v'.van.receiver = .got (arrives (src, msg))) (hkept : ∀ m, v'.Kept m → v.Kept m) :
      Effect n wire v (.van (.recvMsg src msg)) v' []
  /-- A new message is recorded. -/
  | accept {m : Message} {v' : StartNode} (hm : v.van.receiver = .got m) (hnew : v.Unknown n m)
      (hrecorded : ¬v'.Unknown n m) (htakes : Takes n v v' [m]) (hpassed : v'.passed = v.passed)
      (hgot : ∀ m, v'.van.receiver ≠ .got m) (hkept : ∀ m, v'.Kept m → v.Kept m) :
      Effect n wire v (.van .addIncomming) v' []
  /-- A message is let through without a resender. -/
  | pass {m : Message} {v' : StartNode} (hm : v.van.receiver = .got m) (hbare : v.installed = false)
      (htakes : Takes n v v' [m]) (hpassed : v'.passed = v.passed ++ [m])
      (hgot : ∀ m, v'.van.receiver ≠ .got m) (hkept : ∀ m, v'.Kept m → v.Kept m) :
      Effect n wire v (.van .addIncomming) v' []
  | resend {msg : Message} {todo : List Message} {v' : StartNode}
      (hmonitor : v.van.monitor = .resending (msg :: todo)) (htakes : Takes n v v' [])
      (hpassed : v'.passed = v.passed) (hgot : v'.van.receiver = v.van.receiver)
      (hkept : ∀ m, v'.Kept m → v.Kept m) : Effect n wire v (.van .resend) v' [msg]

variable {n : NodeId} {wire : List (NodeId × Message)} {v v' : StartNode} {out : List Message}

theorem takes_nil (htaken : v'.taken = v.taken) (hacked : v'.van.resender.acked = v.van.resender.acked)
    (hok : v'.Ok) : Takes n v v' [] where
  ok := hok
  taken m _ := by rw [htaken, List.count_nil, Nat.add_zero]
  unknown m h := by
    unfold Unknown at h ⊢
    rwa [hacked] at h

theorem addOutgoing_cases {r r' : Resender} {now : Nat} {msg : Message} (h : r.addOutgoing n now msg = some r') :
    r'.acked = r.acked ∧ ∀ k m, Buffered r' k m → Buffered r k m ∨ m = msg := by
  by_cases hack : msg.msgMeta.control.cmd = .ack
  · rw [addOutgoing, if_pos hack] at h
    obtain rfl := Option.some.inj h
    exact ⟨rfl, fun _ _ => .inl⟩
  · rw [addOutgoing, if_neg hack] at h
    obtain ⟨key, -, h⟩ := Option.bind_eq_some_iff.mp h
    obtain rfl := Option.some.inj h
    split_ifs
    · exact ⟨rfl, fun _ _ => .inl⟩
    · refine ⟨rfl, ?_⟩
      rintro k m ⟨e, he, rfl⟩
      rcases List.mem_append.mp he with he | he
      · exact .inl ⟨e, he, rfl⟩
      · obtain ⟨-, rfl⟩ := Prod.mk.inj (List.mem_singleton.mp he)
        exact .inr rfl

/-- The steps that are the same with and without a resender. -/
def Common : ResendNet.Action → Prop
  | .addOutgoing .. | .addIncomming | .monitoring _ => False
  | _ => True

theorem effect_common {a : ResendNet.Action} (ha : Common a) (hok : v.Ok) {w : VanNode}
    (hs : v.van.step n wire a = some (w, out)) : Effect n wire v (.van a) { v with van := w } out := by
  cases a with
  | send msg =>
    obtain ⟨_, hg, hs⟩ := Option.bind_eq_some_iff.mp hs
    obtain ⟨rfl, rfl⟩ := Prod.mk.inj (Option.some.inj hs)
    have hmsg := (Option.guard_eq_some' _).mp hg
    refine .send ⟨hmsg.1, hmsg.2⟩ (takes_nil rfl rfl ⟨hok.acks, hok.started⟩) rfl rfl ?_
    rintro m (hm | hm)
    · rcases List.mem_append.mp hm with hm | hm
      · exact .inl (.inl hm)
      · exact .inr (List.mem_singleton.mp hm)
    · exact .inl (.inr hm)
  | recvMsg src msg =>
    simp only [VanNode.step] at hs
    split at hs
    next hwaiting =>
      obtain ⟨_, hg, hs⟩ := Option.bind_eq_some_iff.mp hs
      obtain ⟨rfl, rfl⟩ := Prod.mk.inj (Option.some.inj hs)
      have hguard := (Option.guard_eq_some' _).mp hg
      refine .recvMsg hguard.1 hguard.2 (takes_nil ?_ rfl ⟨fun _ _ _ h => (by cases h), hok.started⟩) rfl rfl
        fun m hm => hm
      simp only [taken, hwaiting, Receiver.held]
    next => cases hs
  | sendAck =>
    simp only [VanNode.step] at hs
    split at hs
    next msg dup ack hanswered =>
      obtain ⟨rfl, rfl⟩ := Prod.mk.inj (Option.some.inj hs)
      refine .quiet (takes_nil ?_ rfl ⟨?_, hok.started⟩) rfl (fun m hm => ?_) (fun m hm => hm) (fun m hm => ?_) rfl
      · cases dup <;> simp [taken, hanswered, Receiver.held]
      · cases dup <;> exact fun _ _ _ h => by cases h
      · cases dup <;> cases hm
      · obtain rfl := Option.mem_toList.mp hm
        exact hok.acks msg dup m hanswered
    next => cases hs
  | process =>
    simp only [VanNode.step] at hs
    split at hs
    next msg hpassing =>
      obtain ⟨rfl, rfl⟩ := Prod.mk.inj (Option.some.inj hs)
      refine .quiet (takes_nil ?_ rfl ⟨?_, hok.started⟩) rfl (fun m hm => ?_) (fun m hm => hm)
        (fun m hm => by cases hm) rfl
      · simp only [taken, hpassing]
        split_ifs <;> simp [Receiver.held]
      · dsimp only
        split_ifs <;> exact fun _ _ _ h => by cases h
      · dsimp only at hm
        split_ifs at hm
    next => cases hs
  | resend =>
    simp only [VanNode.step] at hs
    split at hs
    next hmonitor =>
      obtain ⟨rfl, rfl⟩ := Prod.mk.inj (Option.some.inj hs)
      refine .quiet (takes_nil rfl rfl ⟨hok.acks, hok.started⟩) rfl (fun m hm => hm) ?_ (fun m hm => by cases hm) rfl
      rintro m (hm | hm | hm)
      · exact .inl hm
      · cases hm
      · exact .inr (.inr hm)
    next msg todo hmonitor =>
      obtain ⟨rfl, rfl⟩ := Prod.mk.inj (Option.some.inj hs)
      refine .resend hmonitor (takes_nil rfl rfl ⟨hok.acks, hok.started⟩) rfl rfl ?_
      rintro m (hm | hm | hm)
      · exact .inl hm
      · exact .inr (.inl (by rw [hmonitor]; exact hm))
      · exact .inr (.inr hm)
    next => cases hs
  | addResent now =>
    simp only [VanNode.step] at hs
    split at hs
    next msg todo hmonitor =>
      obtain ⟨r, hr, hs⟩ := Option.bind_eq_some_iff.mp hs
      obtain ⟨rfl, rfl⟩ := Prod.mk.inj (Option.some.inj hs)
      obtain ⟨hacked, hbuffered⟩ := addOutgoing_cases hr
      refine .quiet (takes_nil rfl hacked ⟨hok.acks, fun h => hacked.trans (hok.started h)⟩) rfl (fun m hm => hm) ?_
        (fun m hm => by cases hm) rfl
      rintro m (hm | hm | ⟨k, hm⟩)
      · exact .inl hm
      · exact .inr (.inl (by rw [hmonitor]; exact List.mem_cons_of_mem _ hm))
      · rcases hbuffered k m hm with hm | rfl
        · exact .inr (.inr ⟨k, hm⟩)
        · exact .inr (.inl (by rw [hmonitor]; exact List.mem_cons_self))
    next => cases hs
  | stop =>
    obtain ⟨rfl, rfl⟩ := Prod.mk.inj (Option.some.inj hs)
    refine .quiet (takes_nil rfl rfl ⟨hok.acks, hok.started⟩) rfl (fun m hm => hm) (fun m hm => hm)
      (fun m hm => ?_) rfl
    obtain rfl := List.mem_singleton.mp hm
    exact fun h => h.terminate rfl
  | addOutgoing | addIncomming | monitoring => exact ha.elim

theorem not_keyed_of_addIncomming {r r' : Resender} {m ack : Message} {dup : Bool}
    (h : r.addIncomming n m = some (r', dup, some ack)) : ¬Keyed ack := by
  by_cases hterm : m.msgMeta.control.cmd = .terminate
  · rw [addIncomming, hterm] at h
    cases h
  by_cases hack : m.msgMeta.control.cmd = .ack
  · rw [addIncomming, hack] at h
    cases h
  rw [Keyed.addIncomming_eq ⟨hack, hterm⟩] at h
  obtain ⟨key, -, heq⟩ := Option.map_eq_some_iff.mp h
  obtain ⟨-, hanswer⟩ := Prod.mk.inj heq
  obtain ⟨-, hsome⟩ := Prod.mk.inj hanswer
  obtain rfl := Option.some.inj hsome
  exact fun hkeyed => hkeyed.ack rfl

theorem effect_addIncomming (hinst : v.installed = true) {m : Message} (hgot : v.van.receiver = .got m)
    {r : Resender} {dup : Bool} {ack : Option Message} (hr : v.van.resender.addIncomming n m = some (r, dup, ack)) :
    Effect n wire v (.van .addIncomming)
      { v with van := { v.van with resender := r, receiver := .answered m dup ack } } [] := by
  have htaken : v.taken = v.van.processed := by
    simp only [taken, hgot, Receiver.held, List.append_nil]
  have hok : Ok { v with van := { v.van with resender := r, receiver := .answered m dup ack } } := by
    refine ⟨fun m' dup' a ha => ?_, fun h => by cases hinst.symm.trans h⟩
    cases ha
    exact not_keyed_of_addIncomming hr
  by_cases hterm : m.msgMeta.control.cmd = .terminate
  · rw [addIncomming, hterm] at hr
    obtain ⟨rfl, heq⟩ := Prod.mk.inj (Option.some.inj hr)
    obtain ⟨rfl, rfl⟩ := Prod.mk.inj heq
    refine .quiet ⟨fun m' hm' => ?_, fun m' h => h, hok⟩ rfl (fun m' h => by cases h) (fun m' h => h)
      (fun m' h => by cases h) rfl
    have hne : m ≠ m' := fun heq => hm'.terminate (heq ▸ hterm)
    rw [htaken]
    simp [taken, Receiver.held, List.count_append, hne]
  by_cases hack : m.msgMeta.control.cmd = .ack
  · rw [addIncomming, hack] at hr
    obtain ⟨rfl, heq⟩ := Prod.mk.inj (Option.some.inj hr)
    obtain ⟨rfl, rfl⟩ := Prod.mk.inj heq
    refine .quiet (takes_nil ?_ rfl hok) rfl (fun m' h => by cases h) ?_ (fun m' h => by cases h) rfl
    · rw [htaken]
      exact List.append_nil _
    · rintro m' (h | h | ⟨k, h⟩)
      · exact .inl h
      · exact .inr (.inl h)
      · exact .inr (.inr ⟨k, (buffered_ack.mp h).1⟩)
  rw [Keyed.addIncomming_eq ⟨hack, hterm⟩] at hr
  obtain ⟨key, hkey, heq⟩ := Option.map_eq_some_iff.mp hr
  obtain ⟨rfl, hanswer⟩ := Prod.mk.inj heq
  obtain ⟨rfl, rfl⟩ := Prod.mk.inj hanswer
  have hkept : ∀ m', Kept { v with van := { v.van with
      resender := { v.van.resender with acked := if v.van.resender.acked.contains key then v.van.resender.acked
        else v.van.resender.acked ++ [key] }
      receiver := .answered m (v.van.resender.acked.contains key) (some (ackOf m key)) } } m' → v.Kept m' :=
    fun m' h => h
  cases hdup : v.van.resender.acked.contains key with
  | true =>
    rw [hdup] at hok
    refine .quiet (takes_nil ?_ rfl hok) rfl (fun m' h => by cases h) hkept (fun m' h => by cases h) rfl
    rw [htaken]
    exact List.append_nil _
  | false =>
    rw [hdup] at hok
    refine .accept hgot (fun k hk hmem => ?_) (fun hunknown => ?_) ⟨fun m' _ => ?_, fun m' h k hk hmem => ?_, hok⟩
      rfl (fun m' h => by cases h) hkept
    · obtain rfl := Option.some.inj (hkey.symm.trans hk)
      exact Bool.eq_false_iff.mp hdup (List.contains_iff_mem.mpr hmem)
    · exact hunknown key hkey (List.mem_append_right _ (List.mem_singleton_self key))
    · rw [htaken]
      exact List.count_append
    · exact h k hk (List.mem_append_left _ hmem)

theorem effect_installed {a : ResendNet.Action} (hok : v.Ok) (hinst : v.installed = true) {w : VanNode}
    (hs : v.van.step n wire a = some (w, out)) : Effect n wire v (.van a) { v with van := w } out := by
  cases a with
  | addOutgoing thread now =>
    obtain ⟨msg, hmsg, hs⟩ := Option.bind_eq_some_iff.mp hs
    obtain ⟨r, hr, hs⟩ := Option.bind_eq_some_iff.mp hs
    obtain ⟨rfl, rfl⟩ := Prod.mk.inj (Option.some.inj hs)
    obtain ⟨hacked, hbuffered⟩ := addOutgoing_cases hr
    refine .quiet (takes_nil rfl hacked ⟨hok.acks, fun h => hacked.trans (hok.started h)⟩) rfl (fun m hm => hm) ?_
      (fun m hm => nomatch hm) rfl
    rintro m (hm | hm | ⟨k, hm⟩)
    · exact .inl (List.mem_of_mem_eraseIdx hm)
    · exact .inr (.inl hm)
    · rcases hbuffered k m hm with hm | rfl
      · exact .inr (.inr ⟨k, hm⟩)
      · exact .inl (List.mem_of_getElem? hmsg)
  | monitoring now =>
    simp only [VanNode.step] at hs
    split at hs
    next hsleeping =>
      obtain ⟨⟨r, todo⟩, hr, hs⟩ := Option.bind_eq_some_iff.mp hs
      obtain ⟨rfl, rfl⟩ := Prod.mk.inj (Option.some.inj hs)
      obtain ⟨hacked, hbuffered, htodo⟩ := monitoring_eq_some hr
      refine .quiet (takes_nil rfl hacked ⟨hok.acks, fun h => hacked.trans (hok.started h)⟩) rfl (fun m hm => hm) ?_
        (fun m hm => nomatch hm) rfl
      rintro m (hm | hm | ⟨k, hm⟩)
      · exact .inl hm
      · exact .inr (.inr (htodo m hm))
      · exact .inr (.inr ⟨k, (hbuffered k m).mp hm⟩)
    next => cases hs
  | addIncomming =>
    simp only [VanNode.step] at hs
    split at hs
    next msg hgot =>
      obtain ⟨⟨r, dup, ack⟩, hr, hs⟩ := Option.bind_eq_some_iff.mp hs
      obtain ⟨rfl, rfl⟩ := Prod.mk.inj (Option.some.inj hs)
      exact effect_addIncomming hinst hgot hr
    next => cases hs
  | send | recvMsg | sendAck | process | resend | addResent | stop =>
    refine effect_common ?_ hok hs
    trivial

theorem effect_bare {a : ResendNet.Action} (hok : v.Ok) (hbare : v.installed = false)
    (hs : v.stepBare n wire a = some (v', out)) : Effect n wire v (.van a) v' out := by
  cases a with
  | addOutgoing thread now =>
    obtain ⟨_, -, hs⟩ := Option.bind_eq_some_iff.mp hs
    obtain ⟨rfl, rfl⟩ := Prod.mk.inj (Option.some.inj hs)
    refine .quiet (takes_nil rfl rfl ⟨hok.acks, hok.started⟩) rfl (fun m hm => hm) ?_ (fun m hm => nomatch hm) rfl
    rintro m (hm | hm)
    · exact .inl (List.mem_of_mem_eraseIdx hm)
    · exact .inr hm
  | addIncomming =>
    simp only [stepBare] at hs
    split at hs
    next msg hgot =>
      obtain ⟨rfl, rfl⟩ := Prod.mk.inj (Option.some.inj hs)
      refine .pass hgot hbare ⟨fun m _ => ?_, fun m hm => hm, ⟨fun _ _ _ h => (nomatch h), hok.started⟩⟩
        rfl (fun m hm => nomatch hm) fun m hm => hm
      simp only [taken, hgot, Receiver.held, List.append_nil, List.count_append]
    next => cases hs
  | monitoring now => cases hs
  | send | recvMsg | sendAck | process | resend | addResent | stop =>
    simp only [stepBare] at hs
    obtain ⟨⟨w, out'⟩, hw, heq⟩ := Option.map_eq_some_iff.mp hs
    obtain ⟨rfl, rfl⟩ := Prod.mk.inj heq
    refine effect_common ?_ hok hw
    trivial

theorem effect_step {a : StartNet.Action} (hok : v.Ok) (hs : v.step n wire a = some (v', out)) :
    Effect n wire v a v' out := by
  cases a with
  | van a =>
    simp only [step] at hs
    split_ifs at hs with hinst
    · obtain ⟨⟨w, out'⟩, hw, heq⟩ := Option.map_eq_some_iff.mp hs
      obtain ⟨rfl, rfl⟩ := Prod.mk.inj heq
      exact effect_installed hok hinst hw
    · exact effect_bare hok (Bool.eq_false_iff.mpr hinst) hs
  | install timeout =>
    obtain ⟨_, hg, hs⟩ := Option.bind_eq_some_iff.mp hs
    obtain ⟨rfl, rfl⟩ := Prod.mk.inj (Option.some.inj hs)
    have hacked := hok.started ((Option.guard_eq_some' _).mp hg)
    refine .quiet (takes_nil rfl hacked.symm ⟨hok.acks, nofun⟩) rfl (fun m hm => hm) ?_ (fun m hm => nomatch hm) rfl
    rintro m (hm | hm | ⟨k, e, he, -⟩)
    · exact .inl hm
    · exact .inr (.inl hm)
    · cases he
  | lose src msg =>
    obtain ⟨rfl, rfl⟩ := Prod.mk.inj (Option.some.inj hs)
    exact .quiet (takes_nil rfl rfl hok) rfl (fun m hm => hm) (fun m hm => hm) (fun m hm => nomatch hm) rfl

/-- A message that is taken was received and not recorded before; afterwards it is recorded, or let through
without a resender. -/
theorem Effect.takes {a : StartNet.Action} (h : Effect n wire v a v' out) (hok : v.Ok) :
    ∃ takes, Takes n v v' takes ∧ (∀ m ∈ v.passed, m ∈ v'.passed) ∧
      (takes = [] ∨ ∃ m, takes = [m] ∧ v.van.receiver = .got m ∧ v.Unknown n m ∧
        (v'.Unknown n m → m ∈ v'.passed)) := by
  cases h with
  | quiet htakes hpassed | send _ htakes hpassed | recvMsg _ _ htakes hpassed | resend _ htakes hpassed =>
    exact ⟨[], htakes, fun m hm => hpassed ▸ hm, .inl rfl⟩
  | accept hm hnew hrecorded htakes hpassed =>
    exact ⟨_, htakes, fun m hm => hpassed ▸ hm, .inr ⟨_, rfl, hm, hnew, fun h => absurd h hrecorded⟩⟩
  | @pass m _ hm hbare htakes hpassed =>
    refine ⟨_, htakes, fun m hm => hpassed ▸ List.mem_append_left _ hm,
      .inr ⟨m, rfl, hm, fun k _ hk => ?_, fun _ => ?_⟩⟩
    · rw [hok.started hbare] at hk
      cases hk
    · exact hpassed ▸ List.mem_append_right _ (List.mem_singleton_self m)

theorem Effect.kept {a : StartNet.Action} (h : Effect n wire v a v' out) {m : Message} (hm : v'.Kept m) :
    v.Kept m ∨ (n, m) ∈ StartNet.sends n a := by
  cases h with
  | quiet _ _ _ hkept | recvMsg _ _ _ _ _ hkept | accept _ _ _ _ _ _ hkept | pass _ _ _ _ _ hkept
  | resend _ _ _ _ hkept => exact .inl (hkept m hm)
  | send _ _ _ _ hkept =>
    rcases hkept m hm with hm | rfl
    · exact .inl hm
    · exact .inr (List.mem_singleton_self _)

end StartNode

/-! ### The invariant of the network -/

namespace StartNet

/-- A copy of the message is on its way to the node, or has just been received. -/
def Open (s : StartNet) (n : NodeId) (m : Message) : Prop :=
  (∃ p ∈ s.wire, p.2.msgMeta.recver = n ∧ arrives p = m) ∨ (s.nodes n).van.receiver = .got m

/-- The messages that were sent, as they arrive. -/
def arrivals (s : StartNet) : List Message := s.sent.map arrives

/-- No message is taken more often than it was sent; while a copy of a message that the receiver has not
recorded is on its way, it was taken less often. A message that is neither recorded nor let through
without a resender has not been taken. -/
structure Inv (s : StartNet) : Prop where
  ok : ∀ n, (s.nodes n).Ok
  kept : ∀ n m, (s.nodes n).Kept m → (n, m) ∈ s.sent
  bound : ∀ n m, Keyed m → (s.nodes n).taken.count m ≤ s.arrivals.count m
  opened : ∀ n m, Keyed m → s.Open n m → (s.nodes n).Unknown n m →
    (s.nodes n).taken.count m + 1 ≤ s.arrivals.count m
  fresh : ∀ n m, Keyed m → (s.nodes n).Unknown n m → m ∉ (s.nodes n).passed → m ∉ (s.nodes n).taken

theorem inv_init : Inv {} where
  ok _ := ⟨fun _ _ _ h => (nomatch h), fun _ => rfl⟩
  kept n m h := by rcases h with h | h | ⟨k, e, h, -⟩ <;> cases h
  bound _ _ _ := Nat.le_refl 0
  opened n m _ h := by rcases h with ⟨p, h, -⟩ | h <;> cases h
  fresh _ _ _ _ _ h := nomatch h

theorem mem_of_mem_remaining {wire : List (NodeId × Message)} {a : Action} {p : NodeId × Message}
    (h : p ∈ remaining wire a) : p ∈ wire := by
  unfold remaining at h
  split at h
  · exact List.mem_of_mem_erase h
  · exact List.mem_of_mem_erase h
  · exact h

variable {s : StartNet} {n : NodeId} {a : Action} {v' : StartNode} {out : List Message}

/-- The network after a step of node `n`. -/
def after (s : StartNet) (n : NodeId) (a : Action) (v' : StartNode) (out : List Message) : StartNet where
  nodes := Function.update s.nodes n v'
  wire := remaining s.wire a ++ out.map fun msg => (n, msg)
  sent := s.sent ++ sends n a

theorem nodes_after_self : (s.after n a v' out).nodes n = v' := Function.update_self ..

theorem nodes_after_of_ne {n' : NodeId} (h : n' ≠ n) : (s.after n a v' out).nodes n' = s.nodes n' :=
  Function.update_of_ne h ..

theorem count_arrivals_after (m : Message) :
    (s.after n a v' out).arrivals.count m = s.arrivals.count m + ((sends n a).map arrives).count m := by
  rw [arrivals, arrivals, after, List.map_append, List.count_append]

theorem open_of_got {m : Message} (heff : StartNode.Effect n s.wire (s.nodes n) a v' out)
    (h : v'.van.receiver = .got m) : s.Open n m := by
  cases heff with
  | quiet _ _ hgot => exact .inr (hgot m h)
  | send _ _ _ hgot | resend _ _ _ hgot => exact .inr (hgot ▸ h)
  | @recvMsg src msg _ hwire hrecver _ _ hgot =>
    cases hgot.symm.trans h
    exact .inl ⟨(src, msg), hwire, hrecver, rfl⟩
  | accept _ _ _ _ _ hgot | pass _ _ _ _ hgot => exact absurd h (hgot m)

theorem open_after {m : Message} {n' : NodeId} (heff : StartNode.Effect n s.wire (s.nodes n) a v' out)
    (hm : Keyed m) (h : (s.after n a v' out).Open n' m) :
    s.Open n' m ∨ ∃ msg, msg.msgMeta.recver = n' ∧ arrives (n, msg) = m ∧
      (a = .van (.send msg) ∨ ∃ todo, a = .van .resend ∧ (s.nodes n).van.monitor = .resending (msg :: todo)) := by
  rcases h with ⟨p, hp, hrecver, harrives⟩ | hgot
  · rcases List.mem_append.mp hp with hp | hp
    · exact .inl (.inl ⟨p, mem_of_mem_remaining hp, hrecver, harrives⟩)
    · obtain ⟨msg, hmsg, rfl⟩ := List.mem_map.mp hp
      have hkeyed : Keyed msg := by
        subst harrives
        exact ⟨hm.ack, hm.terminate⟩
      cases heff with
      | quiet _ _ _ _ hout => exact absurd hkeyed (hout msg hmsg)
      | send =>
        obtain rfl := List.mem_singleton.mp hmsg
        exact .inr ⟨msg, hrecver, harrives, .inl rfl⟩
      | resend hmonitor =>
        obtain rfl := List.mem_singleton.mp hmsg
        exact .inr ⟨msg, hrecver, harrives, .inr ⟨_, rfl, hmonitor⟩⟩
      | recvMsg | accept | pass => cases hmsg
  · rcases eq_or_ne n' n with rfl | hne
    · rw [nodes_after_self] at hgot
      exact .inl (open_of_got heff hgot)
    · rw [nodes_after_of_ne hne] at hgot
      exact .inl (.inr hgot)

/-- In a careful run a step does not take a message that it leaves on its way and unrecorded. -/
theorem taken_after_of_open {m : Message} {n' : NodeId} (hc : s.Careful (n, a))
    (heff : StartNode.Effect n s.wire (s.nodes n) a v' out) (hm : Keyed m) (hopen : (s.after n a v' out).Open n' m)
    (hunknown : ((s.after n a v' out).nodes n').Unknown n' m) :
    ((s.after n a v' out).nodes n').taken.count m = (s.nodes n').taken.count m ∧ (s.nodes n').Unknown n' m := by
  rcases eq_or_ne n' n with rfl | hne
  · rw [nodes_after_self] at hunknown ⊢
    cases heff with
    | quiet htakes | send _ htakes | recvMsg _ _ htakes | resend _ htakes =>
      exact ⟨htakes.taken m hm, htakes.unknown m hunknown⟩
    | @accept m' _ _ _ hrecorded htakes =>
      have hne : m' ≠ m := fun heq => hrecorded (heq ▸ hunknown)
      refine ⟨(htakes.taken m hm).trans ?_, htakes.unknown m hunknown⟩
      rw [List.count_singleton, if_neg (by simpa using hne), Nat.add_zero]
    | @pass m' _ hgot hbare htakes _ hnot =>
      have hne : m' ≠ m := by
        rintro rfl
        simp only [Careful, hgot] at hc
        rcases hopen with ⟨p, hp, hrecver, harrives⟩ | hgot'
        · rw [after, List.map_nil, List.append_nil] at hp
          exact hc hbare p hp hrecver harrives
        · rw [nodes_after_self] at hgot'
          exact hnot m' hgot'
      refine ⟨(htakes.taken m hm).trans ?_, htakes.unknown m hunknown⟩
      rw [List.count_singleton, if_neg (by simpa using hne), Nat.add_zero]
  · rw [nodes_after_of_ne hne] at hunknown ⊢
    exact ⟨rfl, hunknown⟩

theorem Inv.opened_after (h : s.Inv) {m : Message} {n' : NodeId} (hc : s.Careful (n, a))
    (heff : StartNode.Effect n s.wire (s.nodes n) a v' out) (hm : Keyed m) (hopen : (s.after n a v' out).Open n' m)
    (hunknown : ((s.after n a v' out).nodes n').Unknown n' m) :
    ((s.after n a v' out).nodes n').taken.count m + 1 ≤ (s.after n a v' out).arrivals.count m := by
  obtain ⟨htaken, hbefore⟩ := taken_after_of_open hc heff hm hopen hunknown
  rw [htaken, count_arrivals_after]
  rcases open_after heff hm hopen with hopen | ⟨msg, hrecver, rfl, rfl | ⟨todo, rfl, hmonitor⟩⟩
  · exact Nat.le_add_right_of_le (h.opened n' m hm hopen hbefore)
  · -- a new message
    have hone : ((sends n (.van (.send msg))).map arrives).count (arrives (n, msg)) = 1 :=
      List.count_singleton_self
    rw [hone]
    exact Nat.add_le_add_right (h.bound n' _ hm) 1
  · -- a message that is sent again has not been taken
    simp only [Careful, hmonitor, hrecver] at hc
    have hnot := h.fresh n' _ hm hbefore hc
    have hkept : (s.nodes n).Kept msg := .inr (.inl (by rw [hmonitor]; exact List.mem_cons_self))
    have hsent : arrives (n, msg) ∈ s.arrivals := List.mem_map_of_mem (h.kept n msg hkept)
    rw [List.count_eq_zero.mpr hnot]
    exact Nat.le_add_right_of_le (List.count_pos_iff.mpr hsent)

theorem Inv.after (h : s.Inv) (hc : s.Careful (n, a))
    (heff : StartNode.Effect n s.wire (s.nodes n) a v' out) : (s.after n a v' out).Inv := by
  obtain ⟨takes, htakes, hpassed, hcase⟩ := heff.takes (h.ok n)
  refine ⟨fun n' => ?_, fun n' m hm => ?_, fun n' m hm => ?_, fun n' m hm => h.opened_after hc heff hm,
    fun n' m hm hunknown hnot => ?_⟩
  · rcases eq_or_ne n' n with rfl | hne
    · rw [nodes_after_self]
      exact htakes.ok
    · rw [nodes_after_of_ne hne]
      exact h.ok n'
  · refine List.mem_append.mpr ?_
    rcases eq_or_ne n' n with rfl | hne
    · rw [nodes_after_self] at hm
      exact (heff.kept hm).imp_left (h.kept n' m)
    · rw [nodes_after_of_ne hne] at hm
      exact .inl (h.kept n' m hm)
  · rw [count_arrivals_after]
    refine Nat.le_add_right_of_le ?_
    rcases eq_or_ne n' n with rfl | hne
    · rw [nodes_after_self, htakes.taken m hm]
      rcases hcase with rfl | ⟨m', rfl, hgot, hnew, -⟩
      · exact h.bound n' m hm
      · rcases eq_or_ne m' m with rfl | hne
        · rw [List.count_singleton_self]
          exact h.opened n' m' hm (.inr hgot) hnew
        · rw [List.count_singleton, if_neg (by simpa using hne)]
          exact h.bound n' m hm
    · rw [nodes_after_of_ne hne]
      exact h.bound n' m hm
  · rcases eq_or_ne n' n with rfl | hne
    · rw [nodes_after_self] at hunknown hnot ⊢
      have hold := h.fresh n' m hm (htakes.unknown m hunknown) fun hmem => hnot (hpassed m hmem)
      rw [← List.count_eq_zero, htakes.taken m hm, List.count_eq_zero.mpr hold, Nat.zero_add]
      rcases hcase with rfl | ⟨m', rfl, -, -, hlet⟩
      · rfl
      · refine List.count_eq_zero.mpr fun hmem => ?_
        obtain rfl := List.mem_singleton.mp hmem
        exact hnot (hlet hunknown)
    · rw [nodes_after_of_ne hne] at hunknown hnot ⊢
      exact h.fresh n' m hm hunknown hnot

theorem Inv.step {s' : StartNet} {na : NodeId × Action} (hc : s.Careful na) (h : s.Inv) (hs : s.step na = some s') :
    s'.Inv := by
  obtain ⟨⟨v', out⟩, hv, hs⟩ := Option.bind_eq_some_iff.mp hs
  obtain rfl := Option.some.inj hs
  exact h.after hc (StartNode.effect_step (h.ok na.1) hv)

/-- A request that `ProcessInstanceBarrierCommand` counts for a group. -/
def barrierRequest (group : Int) (m : Message) : Bool :=
  m.msgMeta.control.cmd = .instanceBarrier && m.msgMeta.request && m.msgMeta.control.barrierGroup = group

theorem keyed_of_barrierRequest {group : Int} {m : Message} (h : barrierRequest group m) : Keyed m := by
  simp only [barrierRequest, Bool.and_eq_true, decide_eq_true_eq] at h
  constructor
  · rw [h.1.1]
    decide
  · rw [h.1.1]
    decide

/-- In every careful run, whenever the nodes install their resenders: a node processes a message at most as
often as it was sent, and counts at most as many barrier requests as were sent. -/
theorem start_processes_at_most_once (as : List (NodeId × Action)) (s : StartNet)
    (hc : Run.EveryStep step Careful {} as) (h : Run.exec step {} as = some s) (n : NodeId) :
    (∀ m, Keyed m → (s.nodes n).van.processed.count m ≤ s.arrivals.count m) ∧
      ∀ group, (s.nodes n).van.processed.countP (barrierRequest group) ≤
        s.arrivals.countP (barrierRequest group) := by
  have hinv : s.Inv := hc.induction Inv (fun _ _ _ hc h hs => h.step hc hs) inv_init h
  have hcount : ∀ m, Keyed m → (s.nodes n).van.processed.count m ≤ s.arrivals.count m := by
    intro m hm
    refine Nat.le_trans ?_ (hinv.bound n m hm)
    rw [StartNode.taken, List.count_append]
    exact Nat.le_add_right ..
  refine ⟨hcount, fun group => ?_⟩
  have hsub : ((s.nodes n).van.processed.filter (barrierRequest group)).Subperm s.arrivals := by
    refine List.subperm_ext_iff.mpr fun m hm => ?_
    have hkeyed := keyed_of_barrierRequest (List.mem_filter.mp hm).2
    exact Nat.le_trans (List.filter_sublist.count_le m) (hcount m hkeyed)
  have hle := hsub.countP_le (barrierRequest group)
  rwa [List.countP_filter, show (fun m => barrierRequest group m && barrierRequest group m) = barrierRequest group
    from funext fun m => Bool.and_self _] at hle

/-- A barrier request of worker 9 to the scheduler. -/
def startBarrier : Message :=
  { msgMeta := { request := true, recver := kScheduler, timestamp := 1,
                 control := { cmd := .instanceBarrier, barrierGroup := 7 } } }

/-- The worker has its resender and sends the request. -/
def sendBarrier : List (NodeId × Action) :=
  [(9, .install 1000), (9, .van (.send startBarrier)), (9, .van (.addOutgoing 0 0))]

/-- No ACK has come, and the worker sends the request again. -/
def sendAgain : List (NodeId × Action) :=
  [(9, .van (.monitoring 5000)), (9, .van .resend), (9, .van (.addResent 5000))]

/-- The scheduler receives a copy. -/
def receiveCopy : List (NodeId × Action) :=
  [(kScheduler, .van (.recvMsg 9 startBarrier)), (kScheduler, .van .addIncomming)]

/-- The scheduler has its resender in time: two copies, one of which is dropped. -/
def installedInTime : List (NodeId × Action) :=
  List.flatten [[(kScheduler, .install 1000)], sendBarrier, sendAgain, receiveCopy,
    [(kScheduler, .van .sendAck), (kScheduler, .van .process)], receiveCopy]

theorem start_processes_at_most_once_two : ∃ s, Run.exec step {} installedInTime = some s ∧
    (s.nodes kScheduler).van.processed.countP (barrierRequest 7) ≤ s.arrivals.countP (barrierRequest 7) := by
  have heval : (Run.exec step {} installedInTime).isSome := by decide +kernel
  obtain ⟨s, hs⟩ := Option.isSome_iff_exists.mp heval
  exact ⟨s, hs, (start_processes_at_most_once _ s (by decide +kernel) hs kScheduler).2 7⟩

/-- The scheduler installs its resender after it has processed the request. -/
def installedLate : List (NodeId × Action) :=
  List.flatten [sendBarrier, receiveCopy, [(kScheduler, .van .process), (kScheduler, .install 1000)], sendAgain,
    receiveCopy, [(kScheduler, .van .sendAck), (kScheduler, .van .process)]]

/-- No ACK was sent before the resender was there: the request comes again, is new to the resender and is
counted a second time. -/
theorem barrier_counted_twice : ∃ s, Run.exec step {} installedLate = some s ∧
    (s.nodes kScheduler).van.processed = [arrives (9, startBarrier), arrives (9, startBarrier)] ∧
    s.sent = [(9, startBarrier)] ∧ (s.nodes kScheduler).van.processed.countP (barrierRequest 7) = 2 := by
  have heval : (Run.exec step {} installedLate).map (fun s => ((s.nodes kScheduler).van.processed, s.sent)) =
      some ([arrives (9, startBarrier), arrives (9, startBarrier)], [(9, startBarrier)]) := by decide +kernel
  obtain ⟨s, hs, heq⟩ := Option.map_eq_some_iff.mp heval
  obtain ⟨hprocessed, hsent⟩ := Prod.mk.inj heq
  exact ⟨s, hs, hprocessed, hsent, by rw [hprocessed]; decide⟩

end StartNet

end StepMesh
