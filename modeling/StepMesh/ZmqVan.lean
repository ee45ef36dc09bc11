import StepMesh.Lib.ListAux
import StepMesh.Lib.Run
import StepMesh.Message
import StepMesh.ThreadsafeQueue

/-!
# The receive threads of a worker's ZMQ van (`src/zmq_van.h`)

A worker has one receive thread for its bound socket and one more for every peer it connects to. Each puts
the frames of a multipart message together and pushes the result to `recv_buffers_`, from where `RecvMsg`
pops it; nothing keeps two pushes apart. `assembled` and `returned` are the messages that were pushed, or
are still to be, and those that `RecvMsg` has got.
-/

namespace StepMesh

/-- A part of a message, and whether there is another one. -/
structure ZmqFrame where
  data : List UInt8
  more : Bool
deriving DecidableEq, Repr

structure ZmqBufferContext where
  sender : Int := 0
  metaZmsg : List UInt8 := []
  dataZmsg : List (List UInt8) := []
deriving DecidableEq, Repr

/-- `GetNodeID`: "ps" and digits. -/
def getNodeID : List UInt8 → Int
  | 112 :: 115 :: digit :: digits =>
    if (digit :: digits).all fun c => 48 ≤ c && c ≤ 57 then
      (digit :: digits).foldl (fun id c => id * 10 + (c.toNat - 48 : Int)) 0
    else kEmpty
  | _ => kEmpty

/-- `CallZmqRecvThread`: waiting for frame `i` of a message, or in `recv_buffers_.Push`. -/
inductive RecvThread
  | receiving (i : Nat) (bufCtx : ZmqBufferContext)
  | pushing (call : PushAtomic ZmqBufferContext)

namespace RecvThread

/-- A new message. -/
def start : RecvThread := .receiving 0 {}

/-- A frame has arrived. -/
def recvFrame (i : Nat) (bufCtx : ZmqBufferContext) (frame : ZmqFrame) : Option RecvThread :=
  if i = 0 then do
    guard frame.more
    return .receiving 1 { bufCtx with sender := getNodeID frame.data }
  else
    let bufCtx := if i = 1 then { bufCtx with metaZmsg := frame.data }
      else { bufCtx with dataZmsg := bufCtx.dataZmsg ++ [frame.data] }
    some (if frame.more then .receiving (i + 1) bufCtx else .pushing (.loadTail bufCtx))

/-- The message that a thread has assembled and not yet pushed. -/
def pending : RecvThread → List ZmqBufferContext
  | .receiving _ _ => []
  | .pushing call => [call.value]

end RecvThread

structure ZmqVan where
  recvBuffers : ThreadsafeQueue ZmqBufferContext := { buffer := fun _ => {} }
  threads : List RecvThread := [.start]
  /-- The call of `recv_buffers_.WaitAndPop` in `RecvMsg`, which the receiving thread of the van repeats. -/
  recvMsg : WaitAndPopAtomic ZmqBufferContext := .loadHead
  assembled : List ZmqBufferContext := []
  returned : List ZmqBufferContext := []

namespace ZmqVan

inductive Action
  /-- `Connect` to a new peer. -/
  | connect
  | recv (t : Nat) (frame : ZmqFrame)
  | push (t : Nat)
  | pop

def step (s : ZmqVan) : Action → Option ZmqVan
  | .connect => some { s with threads := s.threads ++ [.start] }
  | .recv t frame =>
    match s.threads[t]? with
    | some (.receiving i bufCtx) => do
      let thread ← RecvThread.recvFrame i bufCtx frame
      return { s with threads := s.threads.set t thread, assembled := s.assembled ++ thread.pending }
    | _ => none
  | .push t =>
    match s.threads[t]? with
    | some (.pushing call) =>
      let (recvBuffers, call) := s.recvBuffers.push call
      some { s with recvBuffers, threads := s.threads.set t ((call.map .pushing).getD .start) }
    | _ => none
  | .pop =>
    match s.recvBuffers.waitAndPop s.recvMsg with
    | (recvBuffers, .inl call) => some { s with recvBuffers, recvMsg := call }
    | (recvBuffers, .inr value) =>
      some { s with recvBuffers, recvMsg := .loadHead, returned := s.returned ++ [value] }

/-- A push begins only while no other one is under way. -/
def Separate (s : ZmqVan) (a : Action) : Prop :=
  ∀ (t : Nat) value, a = .push t → s.threads[t]? = some (.pushing (.loadTail value)) →
    ∀ (t' : Nat) call, s.threads[t']? = some (.pushing call) → call.started = false

structure Inv (s : ZmqVan) (inRing : List ZmqBufferContext) : Prop where
  holds : s.recvBuffers.Holds inRing
  pushOk : ∀ (t : Nat) call, s.threads[t]? = some (.pushing call) → s.recvBuffers.PushOk call
  popOk : s.recvBuffers.PopOk s.recvMsg
  single : ∀ (t t' : Nat) call call', s.threads[t]? = some (.pushing call) →
    s.threads[t']? = some (.pushing call') → call.started → call'.started → t = t'
  kept : s.assembled.Perm (s.returned ++ inRing ++ s.threads.flatMap RecvThread.pending)

variable {s s' : ZmqVan} {inRing : List ZmqBufferContext}

theorem pushOk_of_not_started {q : ThreadsafeQueue ZmqBufferContext} {call : PushAtomic ZmqBufferContext}
    (h : call.started = false) : q.PushOk call := by
  cases call with
  | loadTail => exact trivial
  | loadHead | write | storeTail => cases h

theorem flatMap_pending_set {threads : List RecvThread} {t : Nat} {thread : RecvThread}
    (h : threads[t]? = some thread) (thread' : RecvThread) :
    ((threads.set t thread').flatMap RecvThread.pending ++ thread.pending).Perm
      (threads.flatMap RecvThread.pending ++ thread'.pending) := by
  rw [List.flatMap_def, List.flatMap_def, List.map_set]
  exact List.perm_flatten_set (by rw [List.getElem?_map, h]; rfl) _

theorem inv_init : Inv {} [] where
  holds := Ring.holds_nil (by decide) _
  pushOk t call h := by
    rcases t with _ | t <;> cases h
  popOk := trivial
  single t t' call call' h := by
    rcases t with _ | t <;> cases h
  kept := .refl _

namespace Inv

theorem connect (h : Inv s inRing) (hs : s.step .connect = some s') : Inv s' inRing := by
  obtain rfl := Option.some.inj hs
  have hold : ∀ {t : Nat} {call}, (s.threads ++ [RecvThread.start])[t]? = some (.pushing call) →
      s.threads[t]? = some (.pushing call) := by
    intro t call ht
    rcases List.getElem?_snoc_eq_some ht with ht | ⟨-, heq⟩
    · exact ht
    · cases heq
  exact { h with
    pushOk := fun t call ht => h.pushOk t call (hold ht)
    single := fun t t' call call' ht ht' => h.single t t' call call' (hold ht) (hold ht')
    kept := by simpa [RecvThread.start, RecvThread.pending] using h.kept }

theorem not_started_of_recvFrame {i : Nat} {bufCtx : ZmqBufferContext} {frame : ZmqFrame}
    {call : PushAtomic ZmqBufferContext} (h : RecvThread.recvFrame i bufCtx frame = some (.pushing call)) :
    call.started = false := by
  unfold RecvThread.recvFrame at h
  split_ifs at h
  · obtain ⟨_, -, h⟩ := Option.bind_eq_some_iff.mp h
    cases h
  · cases h
  · cases h
    rfl
  · cases h
  · cases h
    rfl

theorem recv (h : Inv s inRing) {t : Nat} {frame : ZmqFrame} (hs : s.step (.recv t frame) = some s') :
    Inv s' inRing := by
  rw [step] at hs
  split at hs
  · rename_i i bufCtx ht
    obtain ⟨thread, hthread, hs⟩ := Option.bind_eq_some_iff.mp hs
    obtain rfl := Option.some.inj hs
    have hold : ∀ {t' : Nat} {call}, (s.threads.set t thread)[t']? = some (.pushing call) →
        s.threads[t']? = some (.pushing call) ∨ call.started = false := by
      intro t' call ht'
      rcases eq_or_ne t t' with rfl | hne
      · rw [List.getElem?_set_self (List.lt_of_getElem?_eq_some ht)] at ht'
        obtain rfl := Option.some.inj ht'
        exact .inr (not_started_of_recvFrame hthread)
      · rw [List.getElem?_set_ne hne] at ht'
        exact .inl ht'
    refine { h with
      pushOk := fun t' call ht' => (hold ht').elim (h.pushOk t' call) pushOk_of_not_started
      single := fun t₁ t₂ call₁ call₂ h₁ h₂ hs₁ hs₂ => ?_
      kept := ?_ }
    · rcases hold h₁ with h₁ | h₁
      · rcases hold h₂ with h₂ | h₂
        · exact h.single t₁ t₂ call₁ call₂ h₁ h₂ hs₁ hs₂
        · rw [h₂] at hs₂
          cases hs₂
      · rw [h₁] at hs₁
        cases hs₁
    · have hset := (flatMap_pending_set ht thread).append_left (s.returned ++ inRing)
      simp only [RecvThread.pending, List.append_nil] at hset
      refine List.Perm.trans ?_ hset.symm
      rw [← List.append_assoc]
      exact h.kept.append_right _
  · cases hs

theorem push (h : Inv s inRing) {t : Nat} (hsep : s.Separate (.push t)) {call : PushAtomic ZmqBufferContext}
    (ht : s.threads[t]? = some (.pushing call)) (hs : s.step (.push t) = some s') :
    Inv s' (if (s.recvBuffers.push call).2.isNone then inRing ++ [call.value] else inRing) := by
  simp only [step, ht] at hs
  obtain rfl := Option.some.inj hs
  have hlt := List.lt_of_getElem?_eq_some ht
  obtain ⟨hholds, hnext⟩ := ThreadsafeQueue.push_spec h.holds (h.pushOk t call ht)
  have hpop := h.popOk.push (h.pushOk t call ht)
  -- whether this push was under way or begins now, the other threads have not begun
  have hothers : ∀ t' call', t' ≠ t → s.threads[t']? = some (.pushing call') → call'.started = false := by
    intro t' call' hne ht'
    cases hstarted : call.started with
    | true =>
      by_contra hnot
      exact hne (h.single t' t call' call ht' ht (Bool.not_eq_false _ ▸ hnot) hstarted)
    | false =>
      cases call with
      | loadTail value => exact hsep t value rfl ht t' call' ht'
      | loadHead | write | storeTail => cases hstarted
  generalize hpush : s.recvBuffers.push call = r at hholds hnext hpop ⊢
  obtain ⟨q, next⟩ := r
  have hold : ∀ {t' : Nat} {call'}, (s.threads.set t ((next.map .pushing).getD .start))[t']? =
      some (.pushing call') → (t' = t ∧ next = some call') ∨ call'.started = false := by
    intro t' call' ht'
    rcases eq_or_ne t t' with rfl | hne
    · rw [List.getElem?_set_self hlt] at ht'
      cases next with
      | none => cases ht'
      | some p =>
        obtain ⟨⟩ := ht'
        exact .inl ⟨rfl, rfl⟩
    · rw [List.getElem?_set_ne hne] at ht'
      exact .inr (hothers t' call' hne.symm ht')
  refine ⟨hholds, fun t' call' ht' => ?_, hpop, fun t₁ t₂ call₁ call₂ h₁ h₂ hs₁ hs₂ => ?_, ?_⟩
  · rcases hold ht' with ⟨rfl, hcall⟩ | hnot
    · exact (hnext call' hcall).1
    · exact pushOk_of_not_started hnot
  · rcases hold h₁ with ⟨rfl, -⟩ | hnot
    · rcases hold h₂ with ⟨rfl, -⟩ | hnot
      · rfl
      · rw [hnot] at hs₂
        cases hs₂
    · rw [hnot] at hs₁
      cases hs₁
  · have hset := flatMap_pending_set ht ((next.map .pushing).getD .start)
    cases next with
    | none =>
      refine (h.kept.trans ?_)
      show (s.returned ++ inRing ++ s.threads.flatMap RecvThread.pending).Perm
        (s.returned ++ (inRing ++ [call.value]) ++ (s.threads.set t .start).flatMap RecvThread.pending)
      have hset : ((s.threads.set t .start).flatMap RecvThread.pending ++ [call.value]).Perm
          (s.threads.flatMap RecvThread.pending) := by
        simpa [RecvThread.start, RecvThread.pending] using hset
      refine (hset.symm.append_left (s.returned ++ inRing)).trans ?_
      rw [← List.append_assoc s.returned, List.append_assoc (s.returned ++ inRing)]
      exact List.perm_append_comm.append_left _
    | some p =>
      have hvalue : p.value = call.value := (hnext p rfl).2.1
      refine h.kept.trans (List.Perm.append_left _ ?_)
      refine (List.perm_append_right_iff [call.value]).mp (List.Perm.trans ?_ hset.symm)
      rw [show ((some p).map RecvThread.pushing).getD .start = .pushing p from rfl, RecvThread.pending, hvalue]

theorem pop (h : Inv s inRing) (hs : s.step .pop = some s') :
    (∀ call, (s.recvBuffers.waitAndPop s.recvMsg).2 = .inl call →
      s' = { s with recvMsg := call } ∧ Inv s' inRing) ∧
    ∀ value, (s.recvBuffers.waitAndPop s.recvMsg).2 = .inr value → ∃ rest, inRing = value :: rest ∧
      s'.recvMsg = .loadHead ∧ s'.threads = s.threads ∧ s'.assembled = s.assembled ∧ Inv s' rest := by
  have hpush := fun t call ht => (h.pushOk t call ht).waitAndPop h.holds h.popOk
  obtain ⟨hstay, htake⟩ := ThreadsafeQueue.waitAndPop_spec h.holds h.popOk
  rw [step] at hs
  split at hs
  · rename_i q call hpop
    rw [hpop] at hpush hstay htake ⊢
    obtain rfl := Option.some.inj hs
    obtain ⟨rfl, hok⟩ := hstay call rfl
    refine ⟨?_, by rintro _ ⟨⟩⟩
    rintro _ ⟨⟩
    exact ⟨rfl, { h with popOk := hok }⟩
  · rename_i q value hpop
    rw [hpop] at hpush hstay htake ⊢
    obtain rfl := Option.some.inj hs
    obtain ⟨rest, rfl, hrest⟩ := htake value rfl
    refine ⟨by rintro _ ⟨⟩, ?_⟩
    rintro _ ⟨⟩
    refine ⟨rest, rfl, rfl, rfl, rfl, hrest, hpush, trivial, h.single, h.kept.trans ?_⟩
    simp

end Inv

/-! ### Nothing is stuck -/

/-- A weight that every access lowers on the way of a message to `RecvMsg`. -/
def threadWeight : RecvThread → Nat
  | .receiving _ _ => 0
  | .pushing (.loadTail _) => 10
  | .pushing (.loadHead _ _) => 9
  | .pushing (.write _ _) => 8
  | .pushing (.storeTail _ _) => 7

def popWeight : WaitAndPopAtomic ZmqBufferContext → Nat
  | .loadHead => 3
  | .loadTail _ _ => 2
  | .read _ => 1
  | .storeHead _ _ => 0

def weight (s : ZmqVan) (inRing : List ZmqBufferContext) : Nat :=
  (s.threads.map threadWeight).sum + 6 * inRing.length + popWeight s.recvMsg

theorem sum_threadWeight_set {threads : List RecvThread} {t : Nat} {thread : RecvThread}
    (h : threads[t]? = some thread) (thread' : RecvThread) :
    ((threads.set t thread').map threadWeight).sum + threadWeight thread =
      (threads.map threadWeight).sum + threadWeight thread' := by
  obtain ⟨before, after, rfl, rfl⟩ := List.exists_append_of_getElem? h
  simp
  omega

/-- A step of the threads and the consumer that lowers the weight. -/
def Progress (s : ZmqVan) (inRing : List ZmqBufferContext) : Prop :=
  ∃ a s' inRing', s.step a = some s' ∧ s.Separate a ∧ Inv s' inRing' ∧ s'.assembled = s.assembled ∧
    s'.weight inRing' < s.weight inRing

/-- While the ring is not empty the consumer goes on. -/
theorem Inv.progress_pop (h : Inv s inRing) (hne : inRing ≠ []) : Progress s inRing := by
  have htail : s.recvBuffers.head ≠ s.recvBuffers.tail := fun heq => hne (h.holds.head_eq_tail_iff.mp heq)
  obtain ⟨s', hs⟩ : ∃ s', s.step .pop = some s' := by
    rw [step]
    split <;> exact ⟨_, rfl⟩
  obtain ⟨hstay, htake⟩ := h.pop hs
  have hgo : ∀ call, (s.recvBuffers.waitAndPop s.recvMsg).2 = .inl call →
      popWeight call < popWeight s.recvMsg → Progress s inRing := by
    intro call hcall hlt
    obtain ⟨rfl, h'⟩ := hstay call hcall
    refine ⟨.pop, _, inRing, hs, fun t value ha => ?_, h', rfl, ?_⟩
    · cases ha
    · exact Nat.add_lt_add_left hlt _
  cases hcall : s.recvMsg with
  | loadHead =>
    exact hgo (.loadTail s.recvBuffers.head 0) (by rw [hcall]; rfl) (by rw [hcall]; exact Nat.lt_succ_self _)
  | loadTail currentHead count =>
    have hok := h.popOk
    rw [hcall] at hok
    obtain rfl : currentHead = _ := hok
    exact hgo (.read s.recvBuffers.head) (by rw [hcall, ThreadsafeQueue.waitAndPop, if_neg htail])
      (by rw [hcall]; exact Nat.lt_succ_self _)
  | read currentHead =>
    exact hgo (.storeHead (s.recvBuffers.buffer currentHead) currentHead) (by rw [hcall]; rfl)
      (by rw [hcall]; exact Nat.lt_succ_self _)
  | storeHead value currentHead =>
    obtain ⟨rest, rfl, hpc, hthreads, hassembled, h'⟩ := htake value (by rw [hcall]; rfl)
    refine ⟨.pop, s', rest, hs, fun t value ha => ?_, h', hassembled, ?_⟩
    · cases ha
    · rw [weight, weight, hpc, hthreads, hcall, List.length_cons]
      simp only [popWeight]
      omega

theorem exists_separate (hne : s.threads.flatMap RecvThread.pending ≠ []) :
    ∃ (t : Nat) (call : PushAtomic ZmqBufferContext),
      s.threads[t]? = some (.pushing call) ∧ s.Separate (.push t) := by
  by_cases hstarted : ∃ (t : Nat) (call : PushAtomic ZmqBufferContext),
      s.threads[t]? = some (.pushing call) ∧ call.started = true
  · obtain ⟨t, call, ht, hcall⟩ := hstarted
    refine ⟨t, call, ht, fun t' value ht' hload => ?_⟩
    obtain ⟨⟩ := ht'
    rw [ht] at hload
    obtain ⟨⟩ := hload
    cases hcall
  · have hnone : ∀ (t : Nat) (call : PushAtomic ZmqBufferContext),
        s.threads[t]? = some (.pushing call) → call.started = false :=
      fun t call ht => Bool.eq_false_iff.mpr fun hcall => hstarted ⟨t, call, ht, hcall⟩
    obtain ⟨value, hvalue⟩ := List.exists_mem_of_ne_nil _ hne
    obtain ⟨thread, hthread, hvalue⟩ := List.mem_flatMap.mp hvalue
    obtain ⟨t, ht⟩ := List.mem_iff_getElem?.mp hthread
    cases thread with
    | receiving => cases hvalue
    | pushing call => exact ⟨t, call, ht, fun _ _ _ _ => hnone⟩

theorem Inv.progress_push (h : Inv s []) (hne : s.threads.flatMap RecvThread.pending ≠ []) : Progress s [] := by
  obtain ⟨t, call, ht, hsep⟩ := exists_separate hne
  obtain ⟨s', hs⟩ : ∃ s', s.step (.push t) = some s' := by
    simp only [step, ht]
    exact ⟨_, rfl⟩
  have h' := h.push hsep ht hs
  have hset := sum_threadWeight_set ht (((s.recvBuffers.push call).2.map .pushing).getD .start)
  simp only [step, ht] at hs
  obtain rfl := Option.some.inj hs
  refine ⟨.push t, _, _, by simp only [step, ht], hsep, h', rfl, ?_⟩
  simp only [weight, List.length_nil]
  suffices hlt : threadWeight (((s.recvBuffers.push call).2.map .pushing).getD .start) +
      6 * (if (s.recvBuffers.push call).2.isNone then [] ++ [call.value] else []).length <
      threadWeight (.pushing call) by omega
  cases call with
  | loadTail value => exact Nat.lt_succ_self _
  | loadHead value currentTail =>
    obtain rfl : currentTail = s.recvBuffers.tail := h.pushOk t _ ht
    have hfull : (s.recvBuffers.tail + 1) % queueCapacity ≠ s.recvBuffers.head := fun heq => by
      have := h.holds.full_iff.mp heq
      cases this
    rw [ThreadsafeQueue.push, if_neg hfull]
    exact Nat.lt_succ_self _
  | write value currentTail => exact Nat.lt_succ_self _
  | storeTail value currentTail => exact Nat.lt_succ_self _

/-- All that is assembled can still be returned. -/
theorem Inv.completes (h : Inv s inRing) :
    ∃ more s', Run.exec step s more = some s' ∧ s'.returned.Perm s.assembled := by
  induction hw : s.weight inRing using Nat.strong_induction_on generalizing s inRing with
  | _ n ih =>
    subst hw
    by_cases hdone : inRing = [] ∧ s.threads.flatMap RecvThread.pending = []
    · have hkept := h.kept
      rw [hdone.1, hdone.2, List.append_nil, List.append_nil] at hkept
      exact ⟨[], s, rfl, hkept.symm⟩
    · obtain ⟨a, s₁, inRing₁, hs, -, h₁, hassembled, hlt⟩ : Progress s inRing := by
        by_cases hring : inRing = []
        · subst hring
          exact h.progress_push fun hnil => hdone ⟨rfl, hnil⟩
        · exact h.progress_pop hring
      obtain ⟨more, s', hrun, hperm⟩ := ih _ hlt h₁ rfl
      refine ⟨a :: more, s', ?_, hassembled ▸ hperm⟩
      rw [Run.exec, List.foldlM_cons, hs]
      exact hrun

theorem Inv.step (h : Inv s inRing) {a : Action} (hsep : s.Separate a) (hs : s.step a = some s') :
    ∃ inRing', Inv s' inRing' := by
  cases a with
  | connect => exact ⟨_, h.connect hs⟩
  | recv t frame => exact ⟨_, h.recv hs⟩
  | push t =>
    cases ht : s.threads[t]? with
    | none => simp [ZmqVan.step, ht] at hs
    | some thread =>
      cases thread with
      | receiving => simp [ZmqVan.step, ht] at hs
      | pushing call => exact ⟨_, h.push hsep ht hs⟩
  | pop =>
    obtain ⟨hstay, htake⟩ := h.pop hs
    cases hcall : (s.recvBuffers.waitAndPop s.recvMsg).2 with
    | inl call => exact ⟨_, (hstay call hcall).2⟩
    | inr value =>
      obtain ⟨rest, -, -, -, -, h'⟩ := htake value hcall
      exact ⟨rest, h'⟩

/-- Any run in which a push begins only while no other one is under way: what `RecvMsg` has returned was
assembled, each message no more often than it was; when no push is under way and the queue is empty it is all
that was; and from any state reached the threads can go on until it is. -/
theorem every_message_returned_once (as : List Action) (s : ZmqVan) (hrun : Run.exec step {} as = some s)
    (hsep : ∀ before a t, before ++ [a] <+: as → Run.exec step {} before = some t → t.Separate a) :
    s.returned.Subperm s.assembled ∧
    ((∀ thread ∈ s.threads, thread.pending = []) → s.recvBuffers.head = s.recvBuffers.tail →
      s.returned.Perm s.assembled) ∧
    ∃ more s', Run.exec step s more = some s' ∧ s'.returned.Perm s.assembled := by
  obtain ⟨inRing, h⟩ := Run.exec_induction_of_steps (fun t => ∃ inRing, Inv t inRing) Separate ⟨[], inv_init⟩
    (fun _ _ _ hsep ⟨_, h⟩ hs => h.step hsep hs) hsep hrun
  refine ⟨?_, fun hthreads hempty => ?_, h.completes⟩
  · refine List.Subperm.trans ?_ h.kept.symm.subperm
    rw [List.append_assoc]
    exact (List.sublist_append_left ..).subperm
  · have hkept := h.kept
    rw [h.holds.head_eq_tail_iff.mp hempty, List.flatMap_eq_nil_iff.mpr hthreads, List.append_nil,
      List.append_nil] at hkept
    exact hkept.symm

theorem length_threads_step {a : Action} (ha : a ≠ .connect) (hs : s.step a = some s') :
    s'.threads.length = s.threads.length := by
  cases a with
  | connect => exact absurd rfl ha
  | recv t frame =>
    rw [step] at hs
    split at hs
    · obtain ⟨thread, -, hs⟩ := Option.bind_eq_some_iff.mp hs
      obtain rfl := Option.some.inj hs
      exact List.length_set
    · cases hs
  | push t =>
    rw [step] at hs
    split at hs
    · obtain rfl := Option.some.inj hs
      exact List.length_set
    · cases hs
  | pop =>
    rw [step] at hs
    split at hs <;> obtain rfl := Option.some.inj hs <;> rfl

theorem separate_of_one_thread (h : s.threads.length = 1) (a : Action) : s.Separate a := by
  intro t value _ ht t' call ht'
  have hlt := List.lt_of_getElem?_eq_some ht
  have hlt' := List.lt_of_getElem?_eq_some ht'
  obtain rfl : t = t' := by omega
  obtain ⟨⟩ := ht.symm.trans ht'
  rfl

/-- The frames of a message without data from node 8. -/
def sampleFrames (t : Nat) (meta' : UInt8) : List Action :=
  [.recv t ⟨[112, 115, 56], true⟩, .recv t ⟨[meta'], false⟩]

theorem every_message_returned_once_one :
    ∃ s, Run.exec step {} (sampleFrames 0 1 ++ List.replicate 4 (.push 0) ++ List.replicate 4 .pop) = some s ∧
      s.returned = [{ sender := 8, metaZmsg := [1] }] ∧ s.returned.Subperm s.assembled := by
  have heval : (Run.exec step {} (sampleFrames 0 1 ++ List.replicate 4 (.push 0) ++ List.replicate 4 .pop)).map
      (·.returned) = some [{ sender := 8, metaZmsg := [1] }] := by decide +kernel
  obtain ⟨s, hrun, hs⟩ := Option.map_eq_some_iff.mp heval
  refine ⟨s, hrun, hs, (every_message_returned_once _ s hrun fun before a t hpre hrun => ?_).1⟩
  refine separate_of_one_thread (Run.exec_induction (fun _ t => t.threads.length = 1) (fun as => .connect ∉ as)
    (fun as a h => fun hmem => h (List.mem_append_left _ hmem)) rfl (fun as a t t' h ht hs => ?_) ?_ hrun) a
  · rw [length_threads_step (fun ha => h (ha ▸ List.mem_append_right _ List.mem_cons_self)) hs, ht]
  · intro hmem
    have := hpre.subset (List.mem_append_left _ hmem)
    simp [sampleFrames] at this

/-- Two threads load the same tail: they write the same slot, and one message is gone. -/
theorem overlapping_pushes_lose_message :
    ∃ s, Run.exec step {} ([.connect] ++ sampleFrames 0 1 ++ sampleFrames 1 2 ++
        [.push 0, .push 1, .push 0, .push 1, .push 0, .push 1, .push 0, .push 1] ++ List.replicate 4 .pop) = some s ∧
      s.assembled = [{ sender := 8, metaZmsg := [1] }, { sender := 8, metaZmsg := [2] }] ∧
      s.returned = [{ sender := 8, metaZmsg := [2] }] ∧
      s.threads.flatMap RecvThread.pending = [] ∧ s.recvBuffers.head = s.recvBuffers.tail := by
  -- what is to be shown of the state after a run, whichever run it is
  have hview : ∀ {run : Option ZmqVan}, run.map (fun s => (s.assembled, s.returned,
        s.threads.flatMap RecvThread.pending, s.recvBuffers.head, s.recvBuffers.tail)) =
      some ([{ sender := 8, metaZmsg := [1] }, { sender := 8, metaZmsg := [2] }],
        [{ sender := 8, metaZmsg := [2] }], [], 1, 1) →
      ∃ s, run = some s ∧ s.assembled = [{ sender := 8, metaZmsg := [1] }, { sender := 8, metaZmsg := [2] }] ∧
        s.returned = [{ sender := 8, metaZmsg := [2] }] ∧
        s.threads.flatMap RecvThread.pending = [] ∧ s.recvBuffers.head = s.recvBuffers.tail := by
    intro run heval
    obtain ⟨s, hrun, hs⟩ := Option.map_eq_some_iff.mp heval
    simp only [Prod.mk.injEq] at hs
    obtain ⟨hassembled, hreturned, hpending, hhead, htail⟩ := hs
    exact ⟨s, hrun, hassembled, hreturned, hpending, hhead.trans htail.symm⟩
  exact hview (by decide +kernel)

end ZmqVan

end StepMesh
