import Mathlib.Data.Option.Basic
import StepMesh.Lib.Run
import StepMesh.Lib.ListAux

/-!
# Stream waits on a flag word (`fserver/csrc/private.hpp`)

`SimpleNotify` makes a GPU stream wait until a task of the host has finished: the stream waits for the flag
word to be equal to `notify_cnt`, and the task writes `notify_cnt` to the word and counts it up. The word only
ever holds the number of the last notification, and a wait takes the counter as it is when it is enqueued.
-/

namespace StepMesh

/-- Who holds a task: the thread `th_` of a worker, the future `fut` of a server. -/
inductive TaskOwner
  | thread | future
deriving DecidableEq, Repr

/-- `waits` are the values the stream waits for, `pos` of which it has passed. The unfinished `tasks` finish
in order; `stored` says that the first of them has written the flag and not yet counted up. `issued` is the
number of times the flag was written. -/
structure SimpleNotify where
  notifyCnt : UInt32 := 1
  hflag : UInt32
  thJoinable : Bool := false
  futValid : Bool := false
  waits : List UInt32 := []
  pos : Nat := 0
  tasks : List TaskOwner := []
  stored : Bool := false
  issued : Nat := 0
deriving DecidableEq, Repr

namespace SimpleNotify

inductive Action
  | waitEventDone
  | streamWaitEvent
  | blockNowStream
  | blockNowStreamAndGetBatch
  | getFutureBatchData
  /-- The first task writes the flag. -/
  | store
  /-- It counts up and ends. -/
  | count
  /-- The stream passes a wait. -/
  | pass
deriving DecidableEq, Repr

/-- `cuStreamWaitValue32` for the value of the counter. -/
def streamWaitValue (s : SimpleNotify) : SimpleNotify := { s with waits := s.waits ++ [s.notifyCnt] }

/-- The last call has returned: the assignment of a new future waits for the task of the old one. -/
def Returned (s : SimpleNotify) : Prop := s.tasks.count .future ≤ 1

instance (s : SimpleNotify) : Decidable s.Returned := inferInstanceAs (Decidable (_ ≤ _))

/-- One step of the host or of the stream; a joinable `th_` must not be assigned, `join` and `get` wait for
their task. -/
def step (s : SimpleNotify) : Action → Option SimpleNotify
  | .waitEventDone => do
    guard (s.Returned ∧ .thread ∉ s.tasks)
    return { s with thJoinable := false }
  | .streamWaitEvent => do
    guard (s.Returned ∧ ¬s.thJoinable)
    return { s.streamWaitValue with thJoinable := true, tasks := s.tasks ++ [.thread] }
  | .blockNowStream => do
    guard s.Returned
    return s.streamWaitValue
  | .blockNowStreamAndGetBatch => do
    guard s.Returned
    return { s.streamWaitValue with futValid := true, tasks := s.tasks ++ [.future] }
  | .getFutureBatchData => do
    guard (s.Returned ∧ s.futValid ∧ .future ∉ s.tasks)
    return { s with futValid := false }
  | .store => do
    guard (s.tasks ≠ [] ∧ ¬s.stored)
    return { s with hflag := s.notifyCnt, stored := true, issued := s.issued + 1 }
  | .count => do
    guard s.stored
    return { s with notifyCnt := s.notifyCnt + 1, stored := false, tasks := s.tasks.tail }
  | .pass => do
    guard (s.waits[s.pos]? = some s.hflag)
    return { s with pos := s.pos + 1 }

/-- A wait is enqueued only when as many notifications have been completed as waits were enqueued before it,
and the flag is written only when the stream has passed a wait for each notification before. -/
def InStep (s : SimpleNotify) : Action → Prop
  | .streamWaitEvent | .blockNowStream | .blockNowStreamAndGetBatch => ¬s.stored ∧ s.issued = s.waits.length
  | .store => s.issued ≤ s.pos
  | _ => True

instance (s : SimpleNotify) (a : Action) : Decidable (s.InStep a) := by
  cases a <;> unfold InStep <;> infer_instance

/-- In step, the `k`-th wait is for value `k`, and the flag is at most one ahead of the stream. -/
structure Inv (s : SimpleNotify) : Prop where
  counter : s.notifyCnt = .ofNat (s.issued + if s.stored then 0 else 1)
  flag : 0 < s.issued → s.hflag = .ofNat s.issued
  waits : ∀ (k : Nat) v, s.waits[k]? = some v → v = .ofNat (k + 1)
  ahead : s.issued ≤ s.pos + 1

theorem inv_init (hflag : UInt32) : Inv { hflag := hflag } where
  counter := rfl
  flag h := absurd h (Nat.lt_irrefl 0)
  waits k v h := by cases h
  ahead := Nat.zero_le _

theorem Inv.waits_snoc {s : SimpleNotify} (h : s.Inv) (hok : ¬s.stored ∧ s.issued = s.waits.length) (k : Nat)
    (v : UInt32) (hv : (s.waits ++ [s.notifyCnt])[k]? = some v) : v = .ofNat (k + 1) := by
  rcases List.getElem?_snoc_eq_some hv with hv | ⟨rfl, rfl⟩
  · exact h.waits k v hv
  · rw [h.counter, if_neg hok.1, hok.2]

theorem Inv.step {s s' : SimpleNotify} {a : Action} (hok : s.InStep a) (h : s.Inv) (hs : s.step a = some s') :
    s'.Inv := by
  cases a with
  | waitEventDone | getFutureBatchData =>
    obtain ⟨_, -, hs⟩ := Option.bind_eq_some_iff.mp hs
    obtain rfl := Option.some.inj hs
    exact ⟨h.counter, h.flag, h.waits, h.ahead⟩
  | streamWaitEvent | blockNowStream | blockNowStreamAndGetBatch =>
    obtain ⟨_, -, hs⟩ := Option.bind_eq_some_iff.mp hs
    obtain rfl := Option.some.inj hs
    exact ⟨h.counter, h.flag, h.waits_snoc hok, h.ahead⟩
  | store =>
    obtain ⟨_, hg, hs⟩ := Option.bind_eq_some_iff.mp hs
    obtain rfl := Option.some.inj hs
    have hnot : ¬s.stored := ((Option.guard_eq_some' _).mp hg).2
    have hcnt : s.notifyCnt = .ofNat (s.issued + 1) := by rw [h.counter, if_neg hnot]
    exact ⟨hcnt, fun _ => hcnt, h.waits, Nat.succ_le_succ hok⟩
  | count =>
    obtain ⟨_, hg, hs⟩ := Option.bind_eq_some_iff.mp hs
    obtain rfl := Option.some.inj hs
    have hstored : s.stored := (Option.guard_eq_some' _).mp hg
    refine ⟨?_, h.flag, h.waits, h.ahead⟩
    show s.notifyCnt + 1 = .ofNat (s.issued + 1)
    rw [h.counter, if_pos hstored, Nat.add_zero, UInt32.ofNat_add]
    rfl
  | pass =>
    obtain ⟨_, -, hs⟩ := Option.bind_eq_some_iff.mp hs
    obtain rfl := Option.some.inj hs
    exact ⟨h.counter, h.flag, h.waits, Nat.le_succ_of_le h.ahead⟩

/-- In every run in which host and stream stay in step, whatever the flag word holds at first: where the
stream stands at its `k`-th wait and `k` notifications have been issued, the wait is satisfied. -/
theorem wait_satisfied (hflag : UInt32) (as : List Action) (s : SimpleNotify)
    (hok : Run.EveryStep step InStep { hflag := hflag } as) (h : Run.exec step { hflag := hflag } as = some s)
    (v : UInt32) (hv : s.waits[s.pos]? = some v) (hissued : s.pos + 1 ≤ s.issued) : s.hflag = v := by
  have hinv : s.Inv := hok.induction Inv (fun _ _ _ hok h hs => h.step hok hs) (inv_init hflag) h
  have hahead := hinv.ahead
  rw [hinv.flag (by omega), hinv.waits s.pos v hv]
  congr 1
  omega

/-- Two batches one after the other. -/
theorem wait_satisfied_two :
    ∃ s, Run.exec step { hflag := 0 } [.blockNowStreamAndGetBatch, .store, .pass, .count,
      .blockNowStreamAndGetBatch, .store] = some s ∧ s.waits[s.pos]? = some 2 ∧ s.hflag = 2 :=
  ⟨_, rfl, rfl, wait_satisfied 0 [.blockNowStreamAndGetBatch, .store, .pass, .count,
    .blockNowStreamAndGetBatch, .store] _ (by decide) rfl 2 rfl (by decide)⟩

/-- The host is a batch ahead of a stream that has not reached its first wait: the stream waits for 1 and the
flag is 2 already. -/
theorem wait_overtaken :
    ∃ s, Run.exec step { hflag := 0 } [.blockNowStreamAndGetBatch, .store, .count, .getFutureBatchData,
      .blockNowStreamAndGetBatch, .store, .count] = some s ∧
      s.waits[s.pos]? = some 1 ∧ s.pos + 1 ≤ s.issued ∧ s.hflag = 2 :=
  ⟨_, rfl, rfl, by decide, rfl⟩

end SimpleNotify

end StepMesh
