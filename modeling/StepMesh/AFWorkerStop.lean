import Mathlib.Data.Option.Basic
import StepMesh.AFWorker
import StepMesh.Lib.Run

/-!
# Stopping the push-pull thread (`AFTensorWorker::~AFTensorWorker`)

The destructor stores `pushpull_stop_`, pushes a sentinel request that wakes the thread, and joins it. The
thread loads the flag at the top of its loop and not after `WaitAndPop`, so whether it ever looks at the
sentinel depends on where it is when the flag is stored. The queue's operations are single steps here; a
message that `ZBatchPushPull_` hands to `KVWorker::SendMsg` is one step too.
-/

namespace StepMesh

/-- An entry of `pushpull_queue_`: a request of `ZBatchPushPull`, or the destructor's. -/
inductive QueuedRequest
  | request (req : AFTensorRequest)
  | sentinel
deriving DecidableEq, Repr

namespace QueuedRequest

/-- The value in the queue; the sentinel is `AFTensorRequest()`. -/
def req : QueuedRequest → AFTensorRequest
  | request req => req
  | sentinel => ⟨[], [], [], []⟩

/-- The requests of the user among the entries of the queue. -/
def requests (queue : List QueuedRequest) : List AFTensorRequest :=
  queue.filterMap fun
    | request req => some req
    | sentinel => none

@[simp] theorem requests_nil : requests [] = [] := rfl

@[simp] theorem requests_request (req : AFTensorRequest) (queue : List QueuedRequest) :
    requests (request req :: queue) = req :: requests queue := rfl

@[simp] theorem requests_snoc_request (queue : List QueuedRequest) (req : AFTensorRequest) :
    requests (queue ++ [request req]) = requests queue ++ [req] := List.filterMap_append

@[simp] theorem requests_snoc_sentinel (queue : List QueuedRequest) :
    requests (queue ++ [sentinel]) = requests queue :=
  List.filterMap_append.trans (List.append_nil _)

end QueuedRequest

/-- Where `PushPullWorker` is. -/
inductive PushPullPc
  /-- At the top of the loop, before it loads `pushpull_stop_`. -/
  | load
  /-- In `WaitAndPop`. -/
  | waitAndPop
  /-- Its event is waited for and released, and it is passed to `ZBatchPushPull_`. -/
  | popped (entry : QueuedRequest)
  /-- In `ZBatchPushPull_`, with these messages left to send. -/
  | sending (req : AFTensorRequest) (rest : List (Nat × Message))
  /-- A check of `ZBatchPushPull_` failed. -/
  | aborted (entry : QueuedRequest)
  | ended
deriving DecidableEq, Repr

/-- Where the destructor is; `idle` before it is called. -/
inductive DestructorPc
  | idle | push | join | returned
deriving DecidableEq, Repr

/-- `enqueued` are the requests of all calls of `ZBatchPushPull` so far, `sent` the messages sent. -/
structure PushPullThread where
  pushpullStop : Bool := false
  pushpullQueue : List QueuedRequest := []
  thread : PushPullPc := .load
  destructor : DestructorPc := .idle
  enqueued : List AFTensorRequest := []
  sent : List (Nat × Message) := []
deriving DecidableEq, Repr

namespace PushPullThread

inductive Action
  /-- `ZBatchPushPull` pushes its request. -/
  | enqueue (req : AFTensorRequest)
  /-- The thread takes a step. -/
  | thread
  /-- The destructor takes a step. -/
  | destroy
deriving DecidableEq, Repr

/-- One step of `PushPullWorker`. -/
def threadStep (w : AFWorker) (s : PushPullThread) : Option PushPullThread :=
  match s.thread with
  | .load => some { s with thread := if s.pushpullStop then .ended else .waitAndPop }
  | .waitAndPop =>
    match s.pushpullQueue with
    | [] => none
    | entry :: queue => some { s with pushpullQueue := queue, thread := .popped entry }
  | .popped entry =>
    match w.zBatchPushPull_ entry.req with
    | none => some { s with thread := .aborted entry }
    | some msgs => some { s with thread := .sending entry.req msgs }
  | .sending _ [] => some { s with thread := .load }
  | .sending req (msg :: rest) => some { s with sent := s.sent ++ [msg], thread := .sending req rest }
  | .aborted _ => none
  | .ended => none

/-- One step of the destructor. -/
def destructorStep (s : PushPullThread) : Option PushPullThread :=
  match s.destructor with
  | .idle => some { s with pushpullStop := true, destructor := .push }
  | .push => some { s with pushpullQueue := s.pushpullQueue ++ [.sentinel], destructor := .join }
  | .join => if s.thread = .ended then some { s with destructor := .returned } else none
  | .returned => none

/-- One step; the worker is not used any more once its destructor has been called. -/
def step (w : AFWorker) (s : PushPullThread) : Action → Option PushPullThread
  | .enqueue req => do
    guard (s.destructor = .idle)
    return { s with
      pushpullQueue := s.pushpullQueue ++ [.request req]
      enqueued := s.enqueued ++ [req] }
  | .thread => s.threadStep w
  | .destroy => s.destructorStep

/-- The thread has popped the entry and passes it to `ZBatchPushPull_`, or has done so in vain. -/
def Passes (s : PushPullThread) (entry : QueuedRequest) : Prop :=
  s.thread = .popped entry ∨ s.thread = .aborted entry

/-- The messages of a request, none for a request that fails a check. -/
def messages (w : AFWorker) (req : AFTensorRequest) : List (Nat × Message) := (w.zBatchPushPull_ req).getD []

/-- The number of steps until the thread has ended, once the flag is stored. -/
def stepsLeft (w : AFWorker) (s : PushPullThread) : Nat :=
  match s.thread with
  | .load => 1
  | .waitAndPop => (s.pushpullQueue.head?.elim [] fun entry => messages w entry.req).length + 4
  | .popped entry => (messages w entry.req).length + 3
  | .sending _ rest => rest.length + 2
  | .aborted _ => 0
  | .ended => 0

/-! ### Requests are sent in order, one after the other -/

/-- The requests `before` have been sent whole, those in the queue not at all. -/
def SentWhole (w : AFWorker) (s : PushPullThread) (before : List AFTensorRequest) : Prop :=
  match s.thread with
  | .load | .waitAndPop | .ended =>
    s.enqueued = before ++ QueuedRequest.requests s.pushpullQueue ∧ s.sent = before.flatMap (messages w)
  | .popped (.request req) =>
    s.enqueued = before ++ req :: QueuedRequest.requests s.pushpullQueue ∧
      s.sent = before.flatMap (messages w)
  | .sending req rest =>
    s.enqueued = before ++ req :: QueuedRequest.requests s.pushpullQueue ∧
      ∃ begun, messages w req = begun ++ rest ∧ s.sent = before.flatMap (messages w) ++ begun
  | .aborted (.request req) => req ∈ s.enqueued ∧ w.zBatchPushPull_ req = none
  | .popped .sentinel | .aborted .sentinel => True

theorem messages_of_some {w : AFWorker} {req : AFTensorRequest} {msgs : List (Nat × Message)}
    (h : w.zBatchPushPull_ req = some msgs) : messages w req = msgs := by
  rw [messages, h, Option.getD_some]

theorem SentWhole.enqueue {w : AFWorker} {s : PushPullThread} {before : List AFTensorRequest}
    (h : s.SentWhole w before) (req : AFTensorRequest) :
    SentWhole w { s with
      pushpullQueue := s.pushpullQueue ++ [.request req]
      enqueued := s.enqueued ++ [req] } before := by
  obtain ⟨stop, queue, thread, destructor, enqueued, sent⟩ := s
  rcases thread with _ | _ | (_ | _) | _ | (_ | _) | _ <;>
    simp only [SentWhole, QueuedRequest.requests_snoc_request] at h ⊢
  all_goals first
    | exact ⟨by rw [h.1]; simp only [List.append_assoc, List.cons_append], h.2⟩
    | exact ⟨List.mem_append_left _ h.1, h.2⟩

theorem SentWhole.destructorStep {w : AFWorker} {s s' : PushPullThread} {before : List AFTensorRequest}
    (h : s.SentWhole w before) (hs : s.destructorStep = some s') : s'.SentWhole w before := by
  unfold PushPullThread.destructorStep at hs
  split at hs
  · obtain rfl := Option.some.inj hs
    exact h
  · obtain rfl := Option.some.inj hs
    simpa only [SentWhole, QueuedRequest.requests_snoc_sentinel] using h
  · split at hs
    · obtain rfl := Option.some.inj hs
      exact h
    · cases hs
  · cases hs

theorem SentWhole.threadStep {w : AFWorker} {s s' : PushPullThread} {before : List AFTensorRequest}
    (h : s.SentWhole w before) (hs : s.threadStep w = some s') : ∃ before', s'.SentWhole w before' := by
  obtain ⟨stop, queue, thread, destructor, enqueued, sent⟩ := s
  cases thread with
  | load =>
    obtain rfl := Option.some.inj hs
    refine ⟨before, ?_⟩
    cases stop <;> exact h
  | waitAndPop =>
    cases queue with
    | nil => cases hs
    | cons entry queue =>
      obtain rfl := Option.some.inj hs
      cases entry with
      | request req => exact ⟨before, h⟩
      | sentinel => exact ⟨before, trivial⟩
  | popped entry =>
    cases entry with
    | sentinel =>
      obtain rfl := Option.some.inj hs
      exact ⟨before, trivial⟩
    | request req =>
      simp only [PushPullThread.threadStep, QueuedRequest.req] at hs
      split at hs
      next hnone =>
        obtain rfl := Option.some.inj hs
        exact ⟨before, h.1 ▸ List.mem_append_right _ List.mem_cons_self, hnone⟩
      next msgs hmsgs =>
        obtain rfl := Option.some.inj hs
        exact ⟨before, h.1, [], messages_of_some hmsgs, h.2.trans (List.append_nil _).symm⟩
  | sending req rest =>
    obtain ⟨hq, begun, hmsgs, hsent⟩ := h
    cases rest with
    | nil =>
      obtain rfl := Option.some.inj hs
      refine ⟨before ++ [req], ?_, ?_⟩
      · rw [List.append_assoc]
        exact hq
      · rw [List.flatMap_append, List.flatMap_singleton, hmsgs, List.append_nil]
        exact hsent
    | cons msg rest =>
      obtain rfl := Option.some.inj hs
      refine ⟨before, hq, begun ++ [msg], ?_, ?_⟩
      · rw [hmsgs, List.append_assoc, List.singleton_append]
      · rw [← List.append_assoc, ← hsent]
  | aborted entry => cases hs
  | ended => cases hs

theorem exists_sentWhole {w : AFWorker} {as : List Action} {s : PushPullThread}
    (h : Run.exec (step w) {} as = some s) : ∃ before, s.SentWhole w before := by
  have hinit : SentWhole w {} [] := ⟨rfl, rfl⟩
  refine Run.exec_invariant (fun s : PushPullThread => ∃ before, s.SentWhole w before) ?_ ⟨[], hinit⟩ h
  rintro s a s' ⟨before, h⟩ hs
  cases a with
  | enqueue req =>
    obtain ⟨_, -, hs⟩ := Option.bind_eq_some_iff.mp hs
    obtain rfl := Option.some.inj hs
    exact ⟨before, h.enqueue req⟩
  | thread => exact h.threadStep hs
  | destroy => exact ⟨before, h.destructorStep hs⟩

/-! ### Before the destructor is called -/

/-- There is no sentinel before the destructor is called. -/
structure NoSentinel (s : PushPullThread) : Prop where
  queue : s.destructor = .idle → .sentinel ∉ s.pushpullQueue
  notPassed : s.destructor = .idle → ¬s.Passes .sentinel

theorem NoSentinel.threadStep {w : AFWorker} {s s' : PushPullThread} (h : s.NoSentinel)
    (hs : s.threadStep w = some s') : s'.NoSentinel := by
  obtain ⟨stop, queue, thread, destructor, enqueued, sent⟩ := s
  cases thread with
  | load =>
    obtain rfl := Option.some.inj hs
    refine ⟨h.queue, fun _ => ?_⟩
    cases stop <;> rintro (h | h) <;> cases h
  | waitAndPop =>
    cases queue with
    | nil => cases hs
    | cons entry queue =>
      obtain rfl := Option.some.inj hs
      refine ⟨fun hidle hq => h.queue hidle (List.mem_cons_of_mem _ hq), fun hidle => ?_⟩
      rintro (hpass | hpass) <;> cases hpass
      exact h.queue hidle List.mem_cons_self
  | popped entry =>
    simp only [PushPullThread.threadStep] at hs
    split at hs
    next =>
      obtain rfl := Option.some.inj hs
      refine ⟨h.queue, fun hidle => ?_⟩
      rintro (hpass | hpass) <;> cases hpass
      exact h.notPassed hidle (.inl rfl)
    next =>
      obtain rfl := Option.some.inj hs
      exact ⟨h.queue, fun _ => by rintro (h | h) <;> cases h⟩
  | sending req rest =>
    cases rest <;> obtain rfl := Option.some.inj hs <;>
      exact ⟨h.queue, fun _ => by rintro (h | h) <;> cases h⟩
  | aborted entry => cases hs
  | ended => cases hs

theorem noSentinel {w : AFWorker} {as : List Action} {s : PushPullThread}
    (h : Run.exec (step w) {} as = some s) : s.NoSentinel := by
  have hinit : NoSentinel {} := ⟨fun _ => List.not_mem_nil, fun _ => by rintro (h | h) <;> cases h⟩
  refine Run.exec_invariant NoSentinel ?_ hinit h
  intro s a s' h hs
  cases a with
  | enqueue req =>
    obtain ⟨_, -, hs⟩ := Option.bind_eq_some_iff.mp hs
    obtain rfl := Option.some.inj hs
    refine ⟨fun hidle hq => ?_, h.notPassed⟩
    rcases List.mem_append.mp hq with hq | hq
    · exact h.queue hidle hq
    · cases List.mem_singleton.mp hq
  | thread => exact h.threadStep hs
  | destroy =>
    have hcalled : s'.destructor ≠ .idle := by
      simp only [step, destructorStep] at hs
      split at hs <;> [skip; skip; split at hs; skip] <;> cases hs <;> exact nofun
    exact ⟨fun hidle => absurd hidle hcalled, fun hidle => absurd hidle hcalled⟩

/-! ### After the flag is stored -/

/-- The flag was stored while the thread was not waiting on an empty queue: it will not look at the
sentinel any more. -/
structure Stopping (s : PushPullThread) : Prop where
  stop : s.pushpullStop = true
  called : s.destructor ≠ .idle
  head : s.thread = .waitAndPop → ∃ req queue, s.pushpullQueue = .request req :: queue
  notPassed : ¬s.Passes .sentinel

theorem stopping_of_store {t : PushPullThread} (hno : t.NoSentinel) (hidle : t.destructor = .idle)
    (h : ¬(t.thread = .waitAndPop ∧ t.pushpullQueue = [])) :
    Stopping { t with pushpullStop := true, destructor := .push } where
  stop := rfl
  called := nofun
  head hwait := by
    have hno := hno.queue hidle
    cases hq : t.pushpullQueue with
    | nil => exact absurd ⟨hwait, hq⟩ h
    | cons entry queue =>
      cases entry with
      | request req => exact ⟨req, queue, rfl⟩
      | sentinel => exact absurd (hq ▸ List.mem_cons_self) hno
  notPassed := hno.notPassed hidle

theorem Stopping.destructorStep {s s' : PushPullThread} (h : s.Stopping)
    (hs : s.destructorStep = some s') : s'.Stopping ∧ ∀ w, s'.stepsLeft w = s.stepsLeft w := by
  unfold PushPullThread.destructorStep at hs
  split at hs
  next hidle => exact absurd hidle h.called
  next =>
    obtain rfl := Option.some.inj hs
    have hhead : s.thread = .waitAndPop → ∃ req queue, s.pushpullQueue = .request req :: queue := h.head
    refine ⟨⟨h.stop, nofun, fun ht => ?_, h.notPassed⟩, fun w => ?_⟩
    · obtain ⟨req, queue, hq⟩ := hhead ht
      exact ⟨req, queue ++ [.sentinel], by rw [hq, List.cons_append]⟩
    · obtain ⟨stop, queue, thread, destructor, enqueued, sent⟩ := s
      cases thread
      case waitAndPop =>
        obtain ⟨req, queue, rfl⟩ := hhead rfl
        rfl
      all_goals rfl
  next =>
    split at hs
    · obtain rfl := Option.some.inj hs
      exact ⟨⟨h.stop, nofun, h.head, h.notPassed⟩, fun _ => rfl⟩
    · cases hs
  next => cases hs

theorem Stopping.threadStep {w : AFWorker} {s s' : PushPullThread} (h : s.Stopping)
    (hs : s.threadStep w = some s') : s'.Stopping ∧ s'.stepsLeft w + 1 ≤ s.stepsLeft w := by
  obtain ⟨stop, queue, thread, destructor, enqueued, sent⟩ := s
  obtain ⟨rfl, hcalled, hhead, hpass⟩ := h
  cases thread with
  | load =>
    obtain rfl := Option.some.inj hs
    exact ⟨⟨rfl, hcalled, nofun, by rintro (h | h) <;> cases h⟩, Nat.le_refl _⟩
  | waitAndPop =>
    obtain ⟨req, queue, rfl⟩ := hhead rfl
    obtain rfl := Option.some.inj hs
    exact ⟨⟨rfl, hcalled, nofun, by rintro (h | h) <;> cases h⟩, Nat.le_refl _⟩
  | popped entry =>
    simp only [PushPullThread.threadStep] at hs
    split at hs
    next =>
      obtain rfl := Option.some.inj hs
      refine ⟨⟨rfl, hcalled, nofun, ?_⟩, Nat.succ_le_succ (Nat.zero_le _)⟩
      rintro (h | h) <;> cases h
      exact hpass (.inl rfl)
    next msgs hmsgs =>
      obtain rfl := Option.some.inj hs
      refine ⟨⟨rfl, hcalled, nofun, by rintro (h | h) <;> cases h⟩, ?_⟩
      simp only [stepsLeft, messages_of_some hmsgs]
      exact Nat.le_refl _
  | sending req rest =>
    cases rest with
    | nil =>
      obtain rfl := Option.some.inj hs
      exact ⟨⟨rfl, hcalled, nofun, by rintro (h | h) <;> cases h⟩, Nat.le_refl _⟩
    | cons msg rest =>
      obtain rfl := Option.some.inj hs
      exact ⟨⟨rfl, hcalled, nofun, by rintro (h | h) <;> cases h⟩, Nat.le_refl _⟩
  | aborted entry => cases hs
  | ended => cases hs

/-- The thread never waits again, and the number of steps it takes is bounded from the start. -/
theorem Stopping.exec {w : AFWorker} {s s' : PushPullThread} {bs : List Action} (h : s.Stopping)
    (hs : Run.exec (step w) s bs = some s') :
    s'.Stopping ∧ bs.count .thread + s'.stepsLeft w ≤ s.stepsLeft w := by
  induction bs generalizing s with
  | nil =>
    obtain rfl := Option.some.inj hs
    exact ⟨h, Nat.le_of_eq (Nat.zero_add _)⟩
  | cons b bs ih =>
    rw [Run.exec_cons] at hs
    obtain ⟨t, ht, hbs⟩ := Option.bind_eq_some_iff.mp hs
    cases b with
    | enqueue req =>
      obtain ⟨_, hg, -⟩ := Option.bind_eq_some_iff.mp ht
      exact absurd ((Option.guard_eq_some' _).mp hg) h.called
    | thread =>
      obtain ⟨hstop, hle⟩ := h.threadStep ht
      obtain ⟨hstop', hle'⟩ := ih hstop hbs
      refine ⟨hstop', ?_⟩
      rw [List.count_cons_self]
      omega
    | destroy =>
      obtain ⟨hstop, hle⟩ := h.destructorStep ht
      obtain ⟨hstop', hle'⟩ := ih hstop hbs
      rw [hle w] at hle'
      exact ⟨hstop', by rwa [List.count_cons_of_ne (by decide)]⟩

/-- The thread waits for nothing: it has ended, a request of the user has failed its check, or it can take a
step. -/
theorem Stopping.moves {w : AFWorker} {s : PushPullThread} (h : s.Stopping) {before : List AFTensorRequest}
    (hwhole : s.SentWhole w before) :
    s.thread = .ended ∨
      (∃ req ∈ s.enqueued, w.zBatchPushPull_ req = none ∧ s.thread = .aborted (.request req)) ∨
      (s.threadStep w).isSome := by
  obtain ⟨stop, queue, thread, destructor, enqueued, sent⟩ := s
  cases thread with
  | ended => exact .inl rfl
  | aborted entry =>
    cases entry with
    | request req => exact .inr (.inl ⟨req, hwhole.1, hwhole.2, rfl⟩)
    | sentinel => exact absurd (.inr rfl) h.notPassed
  | waitAndPop =>
    obtain ⟨req, queue, rfl⟩ := h.head rfl
    exact .inr (.inr rfl)
  | load => exact .inr (.inr rfl)
  | popped entry =>
    refine .inr (.inr ?_)
    simp only [PushPullThread.threadStep]
    split <;> rfl
  | sending req rest => cases rest <;> exact .inr (.inr rfl)

/-- What the destructor is meant to bring about when it is called in state `t`, after any further steps `bs`:
the sentinel is not passed to `ZBatchPushPull_`; the thread takes a bounded number of steps and can take the
next one until it has ended, unless a request of the user fails its check; at its end some first requests
have been sent whole and the others not at all. -/
structure Stops (w : AFWorker) (t : PushPullThread) (bs : List Action) (s : PushPullThread) : Prop where
  notPassed : ¬s.Passes .sentinel
  moves : s.thread = .ended ∨
    (∃ req ∈ s.enqueued, w.zBatchPushPull_ req = none ∧ s.thread = .aborted (.request req)) ∨
    (s.threadStep w).isSome
  bounded : bs.count .thread ≤ t.stepsLeft w
  whole : s.thread = .ended → ∃ before, before <+: s.enqueued ∧ s.sent = before.flatMap (messages w)

/-- For every run up to the call of the destructor, with any queue: every interleaving of the destructor and
the thread from there on stops the thread as it should, exactly if the thread is not waiting on an empty
queue when the flag is stored. -/
theorem destructor_stops_iff (w : AFWorker) (as : List Action) (t : PushPullThread)
    (ht : Run.exec (step w) {} as = some t) (hidle : t.destructor = .idle) :
    (∀ bs s, Run.exec (step w) t (.destroy :: bs) = some s → Stops w t bs s) ↔
      ¬(t.thread = .waitAndPop ∧ t.pushpullQueue = []) := by
  have hstored : step w t .destroy = some { t with pushpullStop := true, destructor := .push } := by
    rw [step, destructorStep, hidle]
  constructor
  · rintro h ⟨hwait, hempty⟩
    -- the destructor pushes the sentinel and the thread pops it
    have hrun : Run.exec (step w) t [.destroy, .destroy, .thread] = some { t with
        pushpullStop := true
        destructor := .join
        pushpullQueue := []
        thread := .popped .sentinel } := by
      rw [Run.exec_cons, hstored]
      simp only [Run.exec_cons, Run.exec_nil, Option.bind_some, step, destructorStep, threadStep, hwait, hempty,
        List.nil_append]
    exact (h _ _ hrun).notPassed (.inl rfl)
  · intro h bs s hs
    have hbs : Run.exec (step w) { t with pushpullStop := true, destructor := .push } bs = some s := by
      rwa [Run.exec_cons, hstored] at hs
    have hall : Run.exec (step w) {} (as ++ .destroy :: bs) = some s := by
      rw [Run.exec_append, ht]
      exact hs
    obtain ⟨before, hwhole⟩ := exists_sentWhole hall
    obtain ⟨hstop, hle⟩ := (stopping_of_store (noSentinel ht) hidle h).exec hbs
    refine ⟨hstop.notPassed, hstop.moves hwhole, Nat.le_trans (Nat.le_add_right _ _) hle, fun hended => ?_⟩
    rw [SentWhole, hended] at hwhole
    exact ⟨before, ⟨_, hwhole.1.symm⟩, hwhole.2⟩

/-- A push is in the queue when the destructor is called. -/
theorem destructor_stops_iff_one :
    let w : AFWorker := { po := { numWorkers := 1, numServers := 2 } }
    let req : AFTensorRequest := ⟨[{ key := 7 }], [], [0], []⟩
    ∃ t, Run.exec (step w) {} [.enqueue req, .thread] = some t ∧ t.thread = .waitAndPop ∧
      t.destructor = .idle ∧
      ∀ bs s, Run.exec (step w) t (.destroy :: bs) = some s → Stops w t bs s :=
  ⟨_, rfl, rfl, rfl, (destructor_stops_iff _ [.enqueue ⟨[{ key := 7 }], [], [0], []⟩, .thread] _ rfl rfl).mpr
    (by decide)⟩

/-- The thread waits on an empty queue when the destructor is called: it pops the sentinel and the check of
`ZBatchPushPull_` fails. -/
theorem idle_thread_passes_sentinel :
    let w : AFWorker := { po := { numWorkers := 1, numServers := 2 } }
    ∃ s, Run.exec (step w) {} [.thread, .destroy, .destroy, .thread, .thread] = some s ∧
      s.Passes .sentinel ∧ s.thread = .aborted .sentinel :=
  ⟨_, rfl, .inr rfl, rfl⟩

end PushPullThread

end StepMesh
