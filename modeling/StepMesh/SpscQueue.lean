import StepMesh.ThreadsafeQueue
import StepMesh.Lib.Fifo
import StepMesh.Lib.Run

/-!
# One producer and one consumer (`include/ps/internal/threadsafe_queue.h`)

Every access of `PushAtomic` and of `WaitAndPopAtomic` is a step of its own. A push takes effect when it stores the
tail and a pop when it stores the head; `ops` lists them in that order. They are the operations of a queue with
room for one element less than the ring has slots (`spsc_refines_fifo`).
-/

namespace StepMesh

/-- `SizeAtomic`, with both loads in one state. -/
def ThreadsafeQueue.sizeAtomic {T : Type*} (q : ThreadsafeQueue T) : Nat :=
  if q.tail ≥ q.head then q.tail - q.head else queueCapacity - (q.head - q.tail)

/-- A side without a call is outside. -/
structure SpscQueue (T : Type*) where
  queue : ThreadsafeQueue T
  producer : Option (PushAtomic T) := none
  consumer : Option (WaitAndPopAtomic T) := none
  ops : List (Fifo.Op T) := []

namespace SpscQueue

variable {T : Type*}

/-- A side enters, or makes its next access. -/
inductive Action (T : Type*)
  | push (value : T)
  | produce
  | waitAndPop
  | consume

def step (s : SpscQueue T) : Action T → Option (SpscQueue T)
  | .push value => if s.producer.isNone then some { s with producer := some (.loadTail value) } else none
  | .produce => do
    let p ← s.producer
    let (queue, next) := s.queue.push p
    return { s with
      queue := queue
      producer := next
      ops := s.ops ++ if next.isNone then [.enq p.value] else [] }
  | .waitAndPop => if s.consumer.isNone then some { s with consumer := some .loadHead } else none
  | .consume => do
    let c ← s.consumer
    match s.queue.waitAndPop c with
    | (queue, .inl next) => return { s with queue := queue, consumer := some next }
    | (queue, .inr value) => return { s with queue := queue, consumer := none, ops := s.ops ++ [.deq value] }

/-- The ring holds what the bounded queue holds, and each side knows what it has to know of the ring. -/
structure Refines (s : SpscQueue T) (l : List T) : Prop where
  steps : Fifo.Steps (queueCapacity - 1) [] s.ops l
  holds : s.queue.Holds l
  producer : ∀ p ∈ s.producer, s.queue.PushOk p
  consumer : ∀ c ∈ s.consumer, s.queue.PopOk c

theorem refines_init (buffer : Nat → T) : Refines { queue := { buffer := buffer } } [] where
  steps := .nil
  holds := Ring.holds_nil (by decide) buffer
  producer _ hp := nomatch hp
  consumer _ hc := nomatch hc

namespace Refines

variable {s s' : SpscQueue T} {l : List T}

theorem produce (h : Refines s l) (hs : s.step .produce = some s') : ∃ l', Refines s' l' := by
  obtain ⟨p, hp, hs⟩ := Option.bind_eq_some_iff.mp hs
  obtain rfl := Option.some.inj hs
  have hok := h.producer p hp
  obtain ⟨hholds, hnext⟩ := ThreadsafeQueue.push_spec h.holds hok
  have hsteps : Fifo.Steps (queueCapacity - 1) []
      (s.ops ++ if (s.queue.push p).2.isNone then [.enq p.value] else [])
      (if (s.queue.push p).2.isNone then l ++ [p.value] else l) := by
    by_cases hq : (s.queue.push p).2.isNone
    · rw [if_pos hq] at hholds
      have hlt : (l ++ [p.value]).length < queueCapacity := hholds.length_lt
      rw [List.length_append, List.length_singleton] at hlt
      rw [if_pos hq, if_pos hq]
      exact h.steps.snoc (.enq p.value (Nat.lt_sub_of_add_lt hlt))
    · rw [if_neg hq, if_neg hq, List.append_nil]
      exact h.steps
  exact ⟨_, hsteps, hholds, fun p' hp' => (hnext p' hp').1, fun c hc => (h.consumer c hc).push hok⟩

theorem consume (h : Refines s l) (hs : s.step .consume = some s') : ∃ l', Refines s' l' := by
  obtain ⟨c, hc, hs⟩ := Option.bind_eq_some_iff.mp hs
  have hok := h.consumer c hc
  obtain ⟨hgo, hret⟩ := ThreadsafeQueue.waitAndPop_spec h.holds hok
  have hprod : ∀ p ∈ s.producer, (s.queue.waitAndPop c).1.PushOk p :=
    fun p hp => (h.producer p hp).waitAndPop h.holds hok
  split at hs
  · rename_i queue next heq
    obtain rfl := Option.some.inj hs
    obtain ⟨hqueue, hnext⟩ := hgo next (by rw [heq])
    obtain rfl : queue = s.queue := by rw [← hqueue, heq]
    refine ⟨l, h.steps, h.holds, h.producer, fun c' hc' => ?_⟩
    obtain rfl := Option.some.inj hc'
    exact hnext
  · rename_i queue value heq
    obtain rfl := Option.some.inj hs
    obtain ⟨rest, rfl, hrest⟩ := hret value (by rw [heq])
    rw [heq] at hprod hrest
    exact ⟨rest, h.steps.snoc (.deq value rest), hrest, hprod, fun c hc => nomatch hc⟩

theorem step (h : Refines s l) {a : Action T} (hs : s.step a = some s') : ∃ l', Refines s' l' := by
  cases a with
  | push value =>
    rw [SpscQueue.step] at hs
    split_ifs at hs
    obtain rfl := Option.some.inj hs
    refine ⟨l, h.steps, h.holds, fun p hp => ?_, h.consumer⟩
    obtain rfl := Option.some.inj hp
    trivial
  | produce => exact h.produce hs
  | waitAndPop =>
    rw [SpscQueue.step] at hs
    split_ifs at hs
    obtain rfl := Option.some.inj hs
    refine ⟨l, h.steps, h.holds, h.producer, fun c hc => ?_⟩
    obtain rfl := Option.some.inj hc
    trivial
  | consume => exact h.consume hs

end Refines

/-- In every state of every run with one producer and one consumer, in the middle of their operations too: the
ring holds what a bounded queue holds after the operations so far, so the popped values are a prefix of the pushed
ones; a producer about to write writes none of the slots that hold an unread element; `SizeAtomic` is the number of
unread elements. -/
theorem spsc_refines_fifo (buffer : Nat → T) (as : List (Action T)) (s : SpscQueue T)
    (hrun : Run.exec step { queue := { buffer := buffer } } as = some s) :
    ∃ unread : List T, Fifo.Steps 32767 [] s.ops unread ∧ unread.length ≤ 32767 ∧
      Fifo.dequeued s.ops <+: Fifo.enqueued s.ops ∧ Fifo.enqueued s.ops = Fifo.dequeued s.ops ++ unread ∧
      (∀ i (hi : i < unread.length), unread[i] = s.queue.buffer ((s.queue.head + i) % 32768)) ∧
      (∀ value slot, s.producer = some (.write value slot) →
        ∀ i < unread.length, (s.queue.head + i) % 32768 ≠ slot) ∧
      s.queue.sizeAtomic = unread.length := by
  obtain ⟨l, h⟩ := Run.exec_invariant (fun s => ∃ l, Refines s l) (fun _ _ _ ⟨_, h⟩ hs => h.step hs)
    ⟨[], refines_init buffer⟩ hrun
  have hin := h.steps.enqueued_eq
  refine ⟨l, h.steps, h.steps.length_le, ⟨l, hin.symm⟩, hin, fun i hi => ?_, fun value slot hp i hi => ?_,
    h.holds.length_eq.symm⟩
  · have hget := h.holds.get i hi
    rw [List.getElem?_eq_getElem hi] at hget
    exact Option.some.inj hget
  · obtain ⟨rfl, -⟩ := h.producer _ hp
    exact h.holds.slot_ne_tail hi

/-- One value goes through, and another push has loaded the tail. -/
theorem spsc_refines_fifo_seven : ∃ s : SpscQueue Nat,
    Run.exec step { queue := { buffer := fun _ => 0 } } [.push 7, .produce, .waitAndPop, .produce, .consume, .produce,
      .produce, .push 8, .consume, .produce, .consume, .consume] = some s ∧
    Fifo.dequeued s.ops = [7] ∧ s.queue.sizeAtomic = 0 ∧ Fifo.dequeued s.ops <+: Fifo.enqueued s.ops := by
  have heval : (Run.exec step { queue := { buffer := fun _ => 0 } } [.push 7, .produce, .waitAndPop, .produce,
      .consume, .produce, .produce, .push 8, .consume, .produce, .consume, .consume]).map
        (fun s : SpscQueue Nat => (Fifo.dequeued s.ops, s.queue.sizeAtomic)) = some ([7], 0) := by decide +kernel
  obtain ⟨s, hrun, heq⟩ := Option.map_eq_some_iff.mp heval
  obtain ⟨hdeq, hsize⟩ := Prod.mk.inj heq
  obtain ⟨_, -, -, hpre, -⟩ := spsc_refines_fifo _ _ s hrun
  exact ⟨s, hrun, hdeq, hsize, hpre⟩

end SpscQueue

end StepMesh
