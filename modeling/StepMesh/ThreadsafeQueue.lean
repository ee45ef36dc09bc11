import StepMesh.Lib.Ring

/-!
# `ThreadsafeQueue` in its lock-free setting (`include/ps/internal/threadsafe_queue.h`)

A call of `PushAtomic` or `WaitAndPopAtomic` is known by the access to shared memory that it makes next.
`Holds` is the list in the ring; `PushOk` and `PopOk` say what a call knows of it, if no other call has
moved the same end of the ring since its first load.
-/

namespace StepMesh

/-- `capacity_`. -/
def queueCapacity : Nat := 32768

structure ThreadsafeQueue (T : Type*) where
  buffer : Nat → T
  head : Nat := 0
  tail : Nat := 0

/-- The next access of a call `PushAtomic(value)`. -/
inductive PushAtomic (T : Type*)
  | loadTail (value : T)
  | loadHead (value : T) (currentTail : Nat)
  | write (value : T) (currentTail : Nat)
  | storeTail (value : T) (currentTail : Nat)

/-- The next access of a call of `WaitAndPopAtomic`. -/
inductive WaitAndPopAtomic (T : Type*)
  | loadHead
  | loadTail (currentHead count : Nat)
  | read (currentHead : Nat)
  | storeHead (value : T) (currentHead : Nat)

def PushAtomic.value {T : Type*} : PushAtomic T → T
  | .loadTail value | .loadHead value _ | .write value _ | .storeTail value _ => value

/-- The call has loaded the tail. -/
def PushAtomic.started {T : Type*} : PushAtomic T → Bool
  | .loadTail _ => false
  | _ => true

namespace ThreadsafeQueue

variable {T : Type*}

/-- `PushAtomic`: one access, and the next one if the call goes on. -/
def push (q : ThreadsafeQueue T) : PushAtomic T → ThreadsafeQueue T × Option (PushAtomic T)
  | .loadTail value => (q, some (.loadHead value q.tail))
  | .loadHead value currentTail =>
    if (currentTail + 1) % queueCapacity = q.head then (q, some (.loadHead value currentTail))
    else (q, some (.write value currentTail))
  | .write value currentTail =>
    ({ q with buffer := Function.update q.buffer currentTail value }, some (.storeTail value currentTail))
  | .storeTail _ currentTail => ({ q with tail := (currentTail + 1) % queueCapacity }, none)

/-- `WaitAndPopAtomic`: one access, and the next one or the value that the call returns. The slot that a
value is moved from keeps it: it is written before it is read again. -/
def waitAndPop (q : ThreadsafeQueue T) : WaitAndPopAtomic T → ThreadsafeQueue T × (WaitAndPopAtomic T ⊕ T)
  | .loadHead => (q, .inl (.loadTail q.head 0))
  | .loadTail currentHead count =>
    if currentHead = q.tail then
      if 5000 < count + 1 then (q, .inl (.loadTail q.head 0)) else (q, .inl (.loadTail currentHead (count + 1)))
    else (q, .inl (.read currentHead))
  | .read currentHead => (q, .inl (.storeHead (q.buffer currentHead) currentHead))
  | .storeHead value currentHead => ({ q with head := (currentHead + 1) % queueCapacity }, .inr value)

def Holds (q : ThreadsafeQueue T) (l : List T) : Prop := Ring.Holds queueCapacity q.buffer q.head q.tail l

def PushOk (q : ThreadsafeQueue T) : PushAtomic T → Prop
  | .loadTail _ => True
  | .loadHead _ currentTail => currentTail = q.tail
  | .write _ currentTail => currentTail = q.tail ∧ (q.tail + 1) % queueCapacity ≠ q.head
  | .storeTail value currentTail =>
    currentTail = q.tail ∧ (q.tail + 1) % queueCapacity ≠ q.head ∧ q.buffer q.tail = value

def PopOk (q : ThreadsafeQueue T) : WaitAndPopAtomic T → Prop
  | .loadHead => True
  | .loadTail currentHead _ => currentHead = q.head
  | .read currentHead => currentHead = q.head ∧ q.head ≠ q.tail
  | .storeHead value currentHead => currentHead = q.head ∧ q.head ≠ q.tail ∧ q.buffer q.head = value

variable {q q' : ThreadsafeQueue T} {l : List T} {p : PushAtomic T} {c : WaitAndPopAtomic T}

/-- A push adds its value when it stores the tail, and changes nothing before. -/
theorem push_spec (hl : q.Holds l) (hp : q.PushOk p) :
    (q.push p).1.Holds (if (q.push p).2.isNone then l ++ [p.value] else l) ∧
      ∀ p' ∈ (q.push p).2, (q.push p).1.PushOk p' ∧ p'.value = p.value ∧ p'.started := by
  cases p with
  | loadTail value => exact ⟨hl, by rintro _ ⟨⟩; exact ⟨rfl, rfl, rfl⟩⟩
  | loadHead value currentTail =>
    obtain rfl : currentTail = q.tail := hp
    by_cases hfull : (q.tail + 1) % queueCapacity = q.head
    · rw [push, if_pos hfull]
      exact ⟨hl, by rintro _ ⟨⟩; exact ⟨rfl, rfl, rfl⟩⟩
    · rw [push, if_neg hfull]
      exact ⟨hl, by rintro _ ⟨⟩; exact ⟨⟨rfl, hfull⟩, rfl, rfl⟩⟩
  | write value currentTail =>
    obtain ⟨rfl, hfull⟩ := hp
    refine ⟨hl.write value, ?_⟩
    rintro _ ⟨⟩
    exact ⟨⟨rfl, hfull, Function.update_self ..⟩, rfl, rfl⟩
  | storeTail value currentTail =>
    obtain ⟨rfl, hfull, hval⟩ := hp
    exact ⟨Ring.Holds.push hl hval hfull, by rintro _ ⟨⟩⟩

theorem PopOk.push (hc : q.PopOk c) (hp : q.PushOk p) : (q.push p).1.PopOk c := by
  cases p with
  | loadTail value => exact hc
  | loadHead value currentTail =>
    rw [ThreadsafeQueue.push]
    split_ifs <;> exact hc
  | write value currentTail =>
    obtain ⟨rfl, -⟩ := hp
    cases c with
    | loadHead | loadTail | read => exact hc
    | storeHead v currentHead =>
      exact ⟨hc.1, hc.2.1, (Function.update_of_ne hc.2.1 ..).trans hc.2.2⟩
  | storeTail value currentTail =>
    obtain ⟨rfl, hfull, -⟩ := hp
    cases c with
    | loadHead | loadTail => exact hc
    | read currentHead => exact ⟨hc.1, hfull.symm⟩
    | storeHead v currentHead => exact ⟨hc.1, hfull.symm, hc.2.2⟩

/-- A pop takes the first value when it stores the head, and changes nothing before. -/
theorem waitAndPop_spec (hl : q.Holds l) (hc : q.PopOk c) :
    (∀ c', (q.waitAndPop c).2 = .inl c' → (q.waitAndPop c).1 = q ∧ q.PopOk c') ∧
      ∀ v, (q.waitAndPop c).2 = .inr v → ∃ rest, l = v :: rest ∧ (q.waitAndPop c).1.Holds rest := by
  cases c with
  | loadHead => exact ⟨by rintro _ ⟨⟩; exact ⟨rfl, rfl⟩, by rintro _ ⟨⟩⟩
  | loadTail currentHead count =>
    obtain rfl : currentHead = q.head := hc
    rw [waitAndPop]
    split_ifs with hempty hcount
    · exact ⟨by rintro _ ⟨⟩; exact ⟨rfl, rfl⟩, by rintro _ ⟨⟩⟩
    · exact ⟨by rintro _ ⟨⟩; exact ⟨rfl, rfl⟩, by rintro _ ⟨⟩⟩
    · exact ⟨by rintro _ ⟨⟩; exact ⟨rfl, rfl, hempty⟩, by rintro _ ⟨⟩⟩
  | read currentHead =>
    obtain ⟨rfl, hempty⟩ := hc
    exact ⟨by rintro _ ⟨⟩; exact ⟨rfl, rfl, hempty, rfl⟩, by rintro _ ⟨⟩⟩
  | storeHead value currentHead =>
    obtain ⟨rfl, hempty, rfl⟩ := hc
    refine ⟨by rintro _ ⟨⟩, ?_⟩
    rintro _ ⟨⟩
    obtain ⟨v, rest, rfl⟩ := List.exists_cons_of_ne_nil fun hnil => hempty (hl.head_eq_tail_iff.mpr hnil)
    exact ⟨rest, by rw [hl.front], hl.pop⟩

theorem PushOk.waitAndPop (hp : q.PushOk p) (hl : q.Holds l) (hc : q.PopOk c) :
    (q.waitAndPop c).1.PushOk p := by
  cases c with
  | loadHead => exact hp
  | loadTail currentHead count =>
    rw [ThreadsafeQueue.waitAndPop]
    split_ifs <;> exact hp
  | read currentHead => exact hp
  | storeHead value currentHead =>
    obtain ⟨rest, rfl, hrest⟩ := (waitAndPop_spec hl hc).2 value rfl
    have hfull : (q.tail + 1) % queueCapacity ≠ (currentHead + 1) % queueCapacity := by
      intro heq
      have hlen := hrest.full_iff.mp heq
      have hlt := hl.length_lt
      rw [List.length_cons] at hlt
      omega
    cases p with
    | loadTail | loadHead => exact hp
    | write v currentTail => exact ⟨hp.1, hfull⟩
    | storeTail v currentTail => exact ⟨hp.1, hfull, hp.2.2⟩

end ThreadsafeQueue

end StepMesh
