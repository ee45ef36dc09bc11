import Mathlib.Data.List.Perm.Basic
import StepMesh.FServer
import StepMesh.Lib.Run
import StepMesh.Lib.ListAux

/-!
# `RequestHandler` against `get_batch` (`fserver/csrc/public.hpp`)

`RequestHandler` files a batch and sets the bit of its worker under `mu_`. `get_batch` spins on the
bits without the lock, and when all of them are set it takes the lock, pops every queue and stores a new
mask. A step of `QueueSys` is one access to the shared state, so the test of the mask can fall between
any two statements of a `RequestHandler` that holds the lock. `handed` and `returned` are what the
handlers filed and what the calls of `get_batch` returned so far; the code does not have them. The counter does
not wrap around: a run files fewer than `2 ^ 64` batches.
-/

namespace StepMesh

open FServer

/-- A batch that `KVHandler` hands over for one of `n` workers. -/
structure WorkerMeta (n : Nat) where
  reqMeta : AFTensorMeta
  rank : Fin n
  senderRank : reqMeta.senderRank = (rank : Nat)

/-- The next statement of the thread that holds `mu_`. -/
inductive Section (n : Nat)
  | fileMeta (m : WorkerMeta n)
  | emplace (m : WorkerMeta n)
  | signal (m : WorkerMeta n)
  | count
  | pop (i : Nat) (res : List ServerDataBatch) (newMask : UInt64)

/-- Where the thread that calls `get_batch` is. -/
inductive Caller
  | idle | spinning | passed | inside
deriving DecidableEq

structure QueueSys (n : Nat) where
  f : FServer
  mu : Option (Section n) := none
  caller : Caller := .idle
  handed : List (WorkerMeta n × ServerDataBatch) := []
  returned : List (List ServerDataBatch) := []

namespace FServer

/-- `(1 << num_worker_) - 1` for an `int` 1, widened. -/
def workerMask (numWorker : Nat) : UInt64 := ⟨(((1#32) <<< (numWorker % 32)) - 1#32).signExtend 64⟩

/-- `~((q_[i].empty()) << i)`: the `bool` is promoted to an `int`, the result is widened. -/
def keepMask (empty : Bool) (i : Nat) : UInt64 :=
  ⟨(~~~((BitVec.ofBool empty).zeroExtend 32 <<< (i % 32))).signExtend 64⟩

/-- What `emplace_back` constructs. -/
def newBatch (handler : Nat) (reqMeta : AFTensorMeta) : ServerDataBatch where
  handler := handler
  tensors := reqMeta.pushTensors.map (·.val)
  keys := reqMeta.pushTensors.map (·.key)

/-- Bit `i` of a mask. -/
def bit (w : UInt64) (i : Nat) : Bool := w.toBitVec.getLsbD i

theorem bit_or (v w : UInt64) (i : Nat) : bit (v ||| w) i = (bit v i || bit w i) := by
  simp [bit]

theorem bit_and (v w : UInt64) (i : Nat) : bit (v &&& w) i = (bit v i && bit w i) := by
  simp [bit]

theorem eq_of_bit_eq {v w : UInt64} (h : ∀ i, bit v i = bit w i) : v = w := by
  apply UInt64.eq_of_toBitVec_eq
  exact BitVec.eq_of_getLsbD_eq fun i _ => h i

-- up to 31 workers the results are positive `int`s, so widening adds no bits
theorem bit_workerMask {n : Nat} (hn : n ≤ 31) (i : Nat) : bit (workerMask n) i = decide (i < n) := by
  have h : ∀ n < 32, (workerMask n).toBitVec = BitVec.ofNat 64 (2 ^ n - 1) := by decide
  rw [bit, h n (by omega), BitVec.getLsbD_ofNat, Nat.testBit_two_pow_sub_one]
  grind

theorem bit_signalBit {r : Nat} (hr : r < 31) (i : Nat) : bit (signalBit r) i = decide (i = r) := by
  have h : ∀ r < 31, (signalBit r).toBitVec = BitVec.ofNat 64 (2 ^ r) := by decide
  rw [bit, h r hr, BitVec.getLsbD_ofNat, Nat.testBit_two_pow]
  grind

theorem bit_keepMask {i : Nat} (hi : i < 31) (empty : Bool) (j : Nat) :
    bit (keepMask empty i) j = (decide (j < 64) && !(empty && decide (j = i))) := by
  have h : ∀ i < 31, (keepMask true i).toBitVec = ~~~BitVec.ofNat 64 (2 ^ i) ∧
    (keepMask false i).toBitVec = BitVec.allOnes 64 := by decide
  cases empty
  · rw [bit, (h i hi).2, BitVec.getLsbD_allOnes]
    simp
  · simp only [bit, (h i hi).1, BitVec.getLsbD_not, BitVec.getLsbD_ofNat, Nat.testBit_two_pow]
    grind

end FServer

namespace QueueSys

variable {n : Nat}

def init (n : Nat) : QueueSys n := { f := { q := List.replicate n [] } }

inductive Action (n : Nat)
  /-- A call of `RequestHandler` takes `mu_`. -/
  | lockHandler (m : WorkerMeta n)
  /-- The thread that holds `mu_` does its next statement; the last one releases `mu_`. -/
  | advance
  | getBatch
  /-- The condition of the loop is evaluated. -/
  | load
  /-- `get_batch` takes `mu_`. -/
  | lockBatch

/-- The statements under the lock. An index out of bounds and `q_[i][0]` of an empty queue give `none`. -/
def runSection (s : QueueSys n) : Section n → Option (QueueSys n)
  | .fileMeta m => some { s with
      f := { s.f with metaMap := Function.update s.f.metaMap s.f.handlerCounter (some m.reqMeta) }
      mu := some (.emplace m) }
  | .emplace m => do
    let queue ← s.f.q[m.reqMeta.senderRank.toNat]?
    let batch := newBatch s.f.handlerCounter m.reqMeta
    return { s with
      f := { s.f with q := s.f.q.set m.reqMeta.senderRank.toNat (queue ++ [batch]) }
      mu := some (.signal m)
      handed := s.handed ++ [(m, batch)] }
  | .signal m => some { s with
      f := { s.f with qSignal := s.f.qSignal ||| signalBit m.reqMeta.senderRank.toNat }
      mu := some .count }
  | .count => some { s with
      f := { s.f with handlerCounter := s.f.handlerCounter + 1 }
      mu := none }
  | .pop i res newMask =>
    if i < n then do
      let queue ← s.f.q[i]?
      let batch ← queue.head?
      return { s with
        f := { s.f with q := s.f.q.set i queue.tail }
        mu := some (.pop (i + 1) (res ++ [batch]) (newMask &&& keepMask queue.tail.isEmpty i)) }
    else some { s with
      f := { s.f with qSignal := newMask }
      mu := none
      caller := .idle
      returned := s.returned ++ [res] }

def step (s : QueueSys n) : Action n → Option (QueueSys n)
  | .lockHandler m => do
    guard s.mu.isNone
    return { s with mu := some (.fileMeta m) }
  | .advance => s.mu.bind s.runSection
  | .getBatch => do
    guard (s.caller = .idle)
    return { s with caller := .spinning }
  | .load => do
    guard (s.caller = .spinning)
    return if s.f.qSignal = workerMask n then { s with caller := .passed } else s
  | .lockBatch => do
    guard (s.mu.isNone ∧ s.caller = .passed)
    return { s with mu := some (.pop 0 [] (workerMask n)), caller := .inside }

/-- What a worker handed in so far, in order. -/
def handedBy (handed : List (WorkerMeta n × ServerDataBatch)) (i : Nat) : List ServerDataBatch :=
  (handed.filter fun p => p.1.rank = i).map (·.2)

/-- The batches of the calls of `RequestHandler`, in the order in which they got the lock. -/
def Action.call : Action n → Option (WorkerMeta n)
  | .lockHandler m => some m
  | _ => none

/-- The statements of `RequestHandler` in a row are what `FServer.requestHandler` does in one step. -/
theorem requestHandler_eq (s : QueueSys n) (m : WorkerMeta n) (hmu : s.mu = some (.fileMeta m)) :
    (Run.exec step s (List.replicate 4 .advance)).map (·.f) = s.f.requestHandler m.reqMeta := by
  simp only [List.replicate, Run.exec_cons, Run.exec_nil, step, hmu, runSection, Option.bind_eq_bind,
    Option.bind_some, Option.pure_def, requestHandler]
  cases hq : s.f.q[m.reqMeta.senderRank.toNat]? with
  | none => rfl
  | some queue => rfl

/-! ### The invariant -/

/-- How many queues the call of `get_batch` that holds the lock has popped. -/
def popped (s : QueueSys n) : Nat :=
  match s.mu with
  | some (.pop i _ _) => i
  | _ => 0

/-- What it has got from them. -/
def inHand (s : QueueSys n) : List ServerDataBatch :=
  match s.mu with
  | some (.pop _ res _) => res
  | _ => []

/-- The mask as it will stand when the lock is released. -/
def word (s : QueueSys n) : UInt64 :=
  match s.mu with
  | some (.pop _ _ newMask) => newMask
  | _ => s.f.qSignal

/-- A batch is filed and `handler_counter_` not yet increased. -/
def uncounted (s : QueueSys n) : Nat :=
  match s.mu with
  | some (.signal _) | some .count => 1
  | _ => 0

/-- The number of batches that worker `i` no longer has in its queue. -/
def taken (s : QueueSys n) (i : Nat) : Nat := s.returned.length + if i < s.popped then 1 else 0

/-- Worker `i` has a batch in its queue. -/
def Waits (s : QueueSys n) (i : Nat) : Prop := s.taken i < (handedBy s.handed i).length

structure Inv (s : QueueSys n) : Prop where
  length : s.f.q.length = n
  queue : ∀ i < n, s.f.q[i]? = some ((handedBy s.handed i).drop (s.taken i))
  taken_le : ∀ i < n, s.taken i ≤ (handedBy s.handed i).length
  /-- A bit is set only if the queue is not empty, -/
  waits : ∀ i, bit s.word i → i < n ∧ s.Waits i
  /-- and it is set if the queue is not empty, except just before `fetch_or`. -/
  bits : ∀ i < n, s.Waits i → (∀ m, s.mu = some (.signal m) → (m.rank : Nat) ≠ i) → bit s.word i
  filed : ∀ m, s.mu = some (.signal m) → s.Waits m.rank
  /-- Only `get_batch` pops, so what its loop saw stays true until it has popped. -/
  ready : s.caller = .passed ∨ s.caller = .inside → ∀ i < n, s.popped ≤ i → s.Waits i
  inside : (∃ i res newMask, s.mu = some (.pop i res newMask)) ↔ s.caller = .inside
  hand : s.inHand.length = s.popped ∧ s.popped ≤ n ∧
    ∀ i < s.popped, s.inHand[i]? = (handedBy s.handed i)[s.returned.length]?
  results : ∀ (k : Nat) (r : List ServerDataBatch), s.returned[k]? = some r →
    r.length = n ∧ ∀ i < n, r[i]? = (handedBy s.handed i)[k]?
  batches : ∀ (k : Nat) (p : WorkerMeta n × ServerDataBatch), s.handed[k]? = some p →
    p.2 = newBatch k p.1.reqMeta
  counter : s.f.handlerCounter + s.uncounted = s.handed.length
  kept : (s.returned.flatten ++ s.inHand ++ s.f.q.flatten).Perm (s.handed.map (·.2))

theorem inv_init (n : Nat) : Inv (init n) where
  length := by simp [init]
  queue i hi := by simp [init, handedBy, hi]
  taken_le i hi := by simp [taken, init, popped]
  waits i hi := by simp [init, word, bit] at hi
  bits i hi hw := by simp [Waits, handedBy, init] at hw
  filed m hm := by simp [init] at hm
  ready hc := by simp [init] at hc
  inside := by simp [init]
  hand := by simp [init, inHand, popped]
  results k r hr := by simp [init] at hr
  batches k p hp := by simp [init] at hp
  counter := by simp [init, uncounted]
  kept := by simp [init, inHand]

variable {s s' : QueueSys n}

theorem senderRank_toNat (m : WorkerMeta n) : m.reqMeta.senderRank.toNat = m.rank := by
  rw [m.senderRank]
  rfl

theorem handedBy_snoc (handed : List (WorkerMeta n × ServerDataBatch)) (m : WorkerMeta n)
    (b : ServerDataBatch) (i : Nat) :
    handedBy (handed ++ [(m, b)]) i = handedBy handed i ++ if (m.rank : Nat) = i then [b] else [] := by
  unfold handedBy
  by_cases h : (m.rank : Nat) = i <;> simp [h]

namespace Inv

theorem quiet (h : Inv s) (hn : n ≤ 31) {a : Action n} (ha : a ≠ .advance)
    (hs : s.step a = some s') : Inv s' := by
  obtain ⟨f, mu, caller, handed, returned⟩ := s
  cases a with
  | lockHandler m =>
    obtain ⟨_, hmu, hs⟩ := Option.bind_eq_some_iff.mp hs
    obtain rfl := Option.some.inj hs
    obtain rfl : mu = none := by simpa [guard] using hmu
    exact { h with
      bits := fun i hi hw _ => h.bits i hi hw (by simp)
      filed := by simp
      inside := by simpa using h.inside }
  | advance => exact absurd rfl ha
  | getBatch =>
    obtain ⟨_, hc, hs⟩ := Option.bind_eq_some_iff.mp hs
    obtain rfl := Option.some.inj hs
    obtain rfl : caller = .idle := by simpa [guard] using hc
    exact { h with
      ready := by simp
      inside := by simpa using h.inside }
  | load =>
    obtain ⟨_, hc, hs⟩ := Option.bind_eq_some_iff.mp hs
    obtain rfl := Option.some.inj hs
    obtain rfl : caller = .spinning := by simpa [guard] using hc
    have hout : ∀ i res newMask, mu ≠ some (.pop i res newMask) := by
      intro i res newMask hmu
      have := h.inside.mp ⟨i, res, newMask, hmu⟩
      cases this
    split_ifs with hsig
    · refine { h with ready := fun _ i hi _ => ?_, inside := by simpa using h.inside }
      have hword : f.qSignal = word ⟨f, mu, .spinning, handed, returned⟩ := by
        unfold word
        split
        · exact absurd ‹_› (hout _ _ _)
        · rfl
      refine (h.waits i ?_).2
      rw [← hword]
      exact (congrArg (bit · i) hsig).trans (by simpa [bit_workerMask hn] using hi)
    · exact h
  | lockBatch =>
    obtain ⟨_, hg, hs⟩ := Option.bind_eq_some_iff.mp hs
    obtain rfl := Option.some.inj hs
    obtain ⟨rfl, rfl⟩ : mu = none ∧ caller = .passed := by simpa [guard] using hg
    have hall := h.ready (.inl rfl)
    exact { h with
      waits := fun i hi => by
        have hi : i < n := by simpa [word, bit_workerMask hn] using hi
        exact ⟨hi, hall i hi (Nat.zero_le i)⟩
      bits := fun i hi _ _ => by simpa [word, bit_workerMask hn] using hi
      filed := by simp
      ready := fun _ i hi _ => hall i hi (Nat.zero_le i)
      inside := by simp
      hand := ⟨rfl, Nat.zero_le n, fun i hi => absurd hi (Nat.not_lt_zero i)⟩ }

theorem emplace (h : Inv s) {m : WorkerMeta n} (hmu : s.mu = some (.emplace m))
    (hs : s.runSection (.emplace m) = some s') : Inv s' := by
  obtain ⟨queue, hq, hs⟩ := Option.bind_eq_some_iff.mp hs
  obtain rfl := Option.some.inj hs
  simp only [senderRank_toNat] at hq ⊢
  have hbatch : newBatch s.f.handlerCounter m.reqMeta = newBatch s.handed.length m.reqMeta := by
    have := h.counter
    simp only [uncounted, hmu, Nat.add_zero] at this
    rw [this]
  generalize newBatch s.f.handlerCounter m.reqMeta = b at hbatch ⊢
  have hpop : s.popped = 0 := by simp [popped, hmu]
  have hinHand : s.inHand = [] := by simp [inHand, hmu]
  have hword : s.word = s.f.qSignal := by simp [word, hmu]
  have htaken : ∀ i, s.taken i = s.returned.length := by simp [taken, hpop]
  have hle : ∀ i < n, s.returned.length ≤ (handedBy s.handed i).length := fun i hi => htaken i ▸ h.taken_le i hi
  have hwaits : ∀ i, s.Waits i ↔ s.returned.length < (handedBy s.handed i).length := by simp [Waits, htaken]
  have hby : ∀ i, handedBy (s.handed ++ [(m, b)]) i =
      handedBy s.handed i ++ if (m.rank : Nat) = i then [b] else [] := handedBy_snoc s.handed m b
  have hlen : ∀ i, (handedBy s.handed i).length ≤
      (handedBy (s.handed ++ [(m, b)]) i).length := by simp [hby]
  refine ⟨?_, fun i hi => ?_, fun i hi => ?_, fun i hi => ?_, fun i hi hw hm => ?_, fun m' hm' => ?_,
    fun hc i hi _ => ?_, ?_, ?_, fun k r hr => ?_, fun k p hp => ?_, ?_, ?_⟩
  · simpa using h.length
  · show (s.f.q.set m.rank (queue ++ [b]))[i]? = some (List.drop s.returned.length (handedBy
      (s.handed ++ [(m, b)]) i))
    have hqi := h.queue i hi
    rw [htaken] at hqi
    rw [hby, List.drop_append_of_le_length (hle i hi), List.getElem?_set, h.length]
    split_ifs with hr hlt
    · subst hr
      rw [Option.some.inj (hq.symm.trans hqi)]
    · exact absurd m.rank.isLt hlt
    · rw [hqi, List.append_nil]
  · exact Nat.le_trans (hle i hi) (hlen i)
  · obtain ⟨hin, hw⟩ := h.waits i (hword ▸ hi)
    exact ⟨hin, Nat.lt_of_lt_of_le ((hwaits i).mp hw) (hlen i)⟩
  · have hw' : s.returned.length <
        (handedBy (s.handed ++ [(m, b)]) i).length := hw
    rw [hby, if_neg (hm m rfl), List.append_nil] at hw'
    exact hword ▸ h.bits i hi ((hwaits i).mpr hw') (by simp [hmu])
  · obtain rfl : m = m' := by simpa using hm'
    refine Nat.lt_of_le_of_lt (hle m.rank m.rank.isLt) ?_
    show _ < (handedBy (s.handed ++ [(m, b)]) m.rank).length
    rw [hby, if_pos rfl]
    simp
  · have hw := h.ready hc i hi (hpop ▸ Nat.zero_le i)
    exact Nat.lt_of_lt_of_le ((hwaits i).mp hw) (hlen i)
  · simpa [hmu] using h.inside
  · exact ⟨rfl, Nat.zero_le n, fun i hi => absurd hi (Nat.not_lt_zero i)⟩
  · obtain ⟨hrlen, hget⟩ := h.results k r hr
    refine ⟨hrlen, fun i hi => ?_⟩
    have hk : k < (handedBy s.handed i).length :=
      Nat.lt_of_lt_of_le (List.getElem?_eq_some_iff.mp hr).1 (hle i hi)
    show r[i]? = (handedBy (s.handed ++ [(m, b)]) i)[k]?
    rw [hget i hi, hby, List.getElem?_append_left hk]
  · rcases List.getElem?_snoc_eq_some hp with hp | ⟨rfl, rfl⟩
    · exact h.batches k p hp
    · exact hbatch
  · simpa [uncounted, hmu] using h.counter
  · show (s.returned.flatten ++ [] ++ (s.f.q.set m.rank (queue ++ [b])).flatten).Perm
      ((s.handed ++ [(m, b)]).map Prod.snd)
    have hset : ((s.f.q.set m.rank (queue ++ [b])).flatten).Perm (s.f.q.flatten ++ [b]) := by
      refine (List.perm_append_right_iff queue).mp ((List.perm_flatten_set hq _).trans ?_)
      rw [List.append_assoc]
      exact List.perm_append_comm.append_left _
    have hkept := (hset.append_left (s.returned.flatten ++ [])).trans
      (List.append_assoc .. ▸ (hinHand ▸ h.kept).append_right [b])
    simpa using hkept

/-- `fetch_or` makes up for the bit that the new batch lacks. -/
theorem signal (h : Inv s) (hn : n ≤ 31) {m : WorkerMeta n} (hmu : s.mu = some (.signal m))
    (hs : s.runSection (.signal m) = some s') : Inv s' := by
  obtain rfl := Option.some.inj hs
  obtain ⟨f, mu, caller, handed, returned⟩ := s
  obtain rfl : mu = _ := hmu
  have hrank : (m.rank : Nat) < 31 := Nat.lt_of_lt_of_le m.rank.isLt hn
  have hbit : ∀ i, bit (f.qSignal ||| signalBit m.reqMeta.senderRank.toNat) i =
      (bit f.qSignal i || decide (i = m.rank)) := by
    intro i
    rw [bit_or, senderRank_toNat, bit_signalBit hrank]
  refine { h with
    waits := fun i hi => ?_, bits := fun i hi hw _ => ?_, filed := by simp, inside := by simpa using h.inside }
  · have hi : (bit f.qSignal i || decide (i = m.rank)) = true := hbit i ▸ hi
    rcases Bool.or_eq_true _ _ ▸ hi with hi | hi
    · exact h.waits i hi
    · obtain rfl := of_decide_eq_true hi
      exact ⟨m.rank.isLt, h.filed m rfl⟩
  · show bit (f.qSignal ||| signalBit m.reqMeta.senderRank.toNat) i = true
    rw [hbit, Bool.or_eq_true]
    rcases eq_or_ne i m.rank with rfl | hne
    · exact .inr (decide_eq_true rfl)
    · exact .inl (h.bits i hi hw fun m' hm' => by
        obtain rfl : m = m' := by simpa using hm'
        exact hne.symm)

theorem pop (h : Inv s) (hn : n ≤ 31) {i : Nat} {res : List ServerDataBatch} {newMask : UInt64}
    (hmu : s.mu = some (.pop i res newMask)) (hi : i < n)
    (hs : s.runSection (.pop i res newMask) = some s') : Inv s' := by
  rw [runSection, if_pos hi] at hs
  obtain ⟨queue, hq, hs⟩ := Option.bind_eq_some_iff.mp hs
  obtain ⟨b, hb, hs⟩ := Option.bind_eq_some_iff.mp hs
  obtain rfl := Option.some.inj hs
  obtain ⟨rest, rfl⟩ : ∃ rest, queue = b :: rest := ⟨_, List.eq_cons_of_mem_head? hb⟩
  obtain ⟨f, mu, caller, handed, returned⟩ := s
  obtain rfl : mu = _ := hmu
  obtain ⟨hrlen, -, hres⟩ := h.hand
  obtain rfl : caller = .inside := h.inside.mp ⟨i, res, newMask, rfl⟩
  have hqi := h.queue i hi
  simp only [taken, popped, Nat.lt_irrefl, if_false, Nat.add_zero] at hqi
  rw [hq] at hqi
  have hqi := Option.some.inj hqi
  have hbk : (handedBy handed i)[returned.length]? = some b := by
    rw [← List.head?_drop, ← hqi]
    rfl
  have hrest : rest = (handedBy handed i).drop (returned.length + 1) := by
    rw [← List.drop_drop, ← hqi]
    rfl
  -- only worker `i` has one batch less
  have htaken : ∀ j, returned.length + (if j < i + 1 then 1 else 0) =
      if j = i then returned.length + 1 else returned.length + if j < i then 1 else 0 := by
    intro j
    split_ifs <;> omega
  have hother : ∀ {j}, j ≠ i → (Waits ⟨f, some (.pop (i + 1) (res ++ [b]) newMask), .inside, handed,
      returned⟩ j ↔ Waits ⟨f, some (.pop i res newMask), .inside, handed, returned⟩ j) := by
    intro j hj
    show returned.length + (if j < i + 1 then 1 else 0) < (handedBy handed j).length ↔ _
    rw [htaken, if_neg hj]
    rfl
  have hself : Waits ⟨f, some (.pop (i + 1) (res ++ [b]) newMask), .inside, handed, returned⟩ i ↔
      rest.isEmpty = false := by
    simp [Waits, taken, popped, hrest, List.isEmpty_eq_false_iff, List.drop_eq_nil_iff]
  have hbit : ∀ j, bit (newMask &&& keepMask rest.isEmpty i) j =
      (bit newMask j && (decide (j < 64) && !(rest.isEmpty && decide (j = i)))) := by
    intro j
    rw [bit_and, bit_keepMask (Nat.lt_of_lt_of_le hi hn)]
  refine ⟨?_, fun j hj => ?_, fun j hj => ?_, fun j hj => ?_, fun j hj hw _ => ?_, by simp,
    fun _ j hj hle => ?_, by simp, ⟨?_, hi, fun j hj => ?_⟩, h.results, h.batches, h.counter, ?_⟩
  · simpa using h.length
  · show (f.q.set i rest)[j]? = some ((handedBy handed j).drop (returned.length + if j < i + 1 then 1 else 0))
    rw [htaken]
    rcases eq_or_ne j i with rfl | hne
    · rw [List.getElem?_set_self (h.length.symm ▸ hj), if_pos rfl, hrest]
    · rw [List.getElem?_set_ne hne.symm, if_neg hne]
      exact h.queue j hj
  · show returned.length + (if j < i + 1 then 1 else 0) ≤ (handedBy handed j).length
    rw [htaken]
    rcases eq_or_ne j i with rfl | hne
    · rw [if_pos rfl]
      exact (List.getElem?_eq_some_iff.mp hbk).1
    · rw [if_neg hne]
      exact h.taken_le j hj
  · replace hj : bit (newMask &&& keepMask rest.isEmpty i) j = true := hj
    rw [hbit, Bool.and_eq_true, Bool.and_eq_true] at hj
    obtain ⟨hjn, hw⟩ := h.waits j hj.1
    refine ⟨hjn, ?_⟩
    rcases eq_or_ne j i with rfl | hne
    · exact hself.mpr (by simpa using hj.2.2)
    · exact (hother hne).mpr hw
  · show bit (newMask &&& keepMask rest.isEmpty i) j = true
    rw [hbit]
    rcases eq_or_ne j i with rfl | hne
    · have hset : bit newMask j = true := h.bits j hj (h.ready (.inr rfl) j hj (Nat.le_refl j)) (by simp)
      have hempty : rest.isEmpty = false := hself.mp hw
      simp [hset, hempty]
      omega
    · have hset : bit newMask j = true := h.bits j hj ((hother hne).mp hw) (by simp)
      simp [hset, hne]
      omega
  · have hne : j ≠ i := Nat.ne_of_gt hle
    exact (hother hne).mpr (h.ready (.inr rfl) j hj (Nat.le_of_succ_le hle))
  · show (res ++ [b]).length = i + 1
    rw [List.length_append, List.length_singleton]
    exact congrArg (· + 1) hrlen
  · show (res ++ [b])[j]? = (handedBy handed j)[returned.length]?
    replace hrlen : res.length = i := hrlen
    rcases Nat.lt_or_eq_of_le (Nat.le_of_lt_succ hj) with hlt | rfl
    · rw [List.getElem?_append_left (hrlen.symm ▸ hlt)]
      exact hres j hlt
    · rw [hbk, ← hrlen]
      simp
  · show (returned.flatten ++ (res ++ [b]) ++ (f.q.set i rest).flatten).Perm (handed.map Prod.snd)
    refine List.Perm.trans ?_ h.kept
    show (returned.flatten ++ (res ++ [b]) ++ (f.q.set i rest).flatten).Perm
      (returned.flatten ++ res ++ f.q.flatten)
    have hset : ([b] ++ (f.q.set i rest).flatten).Perm f.q.flatten := by
      refine (List.perm_append_right_iff rest).mp (List.Perm.trans ?_ (List.perm_flatten_set hq rest))
      show (b :: ((f.q.set i rest).flatten ++ rest)).Perm _
      exact List.perm_middle.symm
    simpa using (hset.append_left (returned.flatten ++ res))

theorem store (h : Inv s) {i : Nat} {res : List ServerDataBatch} {newMask : UInt64}
    (hmu : s.mu = some (.pop i res newMask)) (hi : ¬ i < n)
    (hs : s.runSection (.pop i res newMask) = some s') : Inv s' := by
  rw [runSection, if_neg hi] at hs
  obtain rfl := Option.some.inj hs
  obtain ⟨f, mu, caller, handed, returned⟩ := s
  obtain rfl : mu = _ := hmu
  obtain ⟨hrlen, hin, hres⟩ := h.hand
  obtain rfl : i = n := Nat.le_antisymm hin (Nat.le_of_not_lt hi)
  have htaken : ∀ j < i, returned.length + (if j < i then 1 else 0) = (returned ++ [res]).length + 0 := by
    intro j hj
    simp [hj]
  have hwaits : ∀ j < i, (Waits ⟨{ f with qSignal := newMask }, none, .idle, handed, returned ++ [res]⟩ j ↔
      Waits ⟨f, some (.pop i res newMask), caller, handed, returned⟩ j) := by
    intro j hj
    rw [Waits, Waits, taken, taken, popped, popped, htaken j hj]
    simp
  refine ⟨h.length, fun j hj => ?_, fun j hj => ?_, fun j hj => ?_, fun j hj hw _ => ?_, by simp, by simp,
    by simp, by simp [inHand, popped], fun k r hr => ?_, h.batches, h.counter, ?_⟩
  · have := h.queue j hj
    rw [taken, popped, htaken j hj] at this
    exact this
  · have := h.taken_le j hj
    rw [taken, popped, htaken j hj] at this
    exact this
  · obtain ⟨hji, hw⟩ := h.waits j hj
    exact ⟨hji, (hwaits j hji).mpr hw⟩
  · exact h.bits j hj ((hwaits j hj).mp hw) (by simp)
  · rcases List.getElem?_snoc_eq_some hr with hr | ⟨rfl, rfl⟩
    · exact h.results k r hr
    · exact ⟨hrlen, hres⟩
  · show ((returned ++ [res]).flatten ++ [] ++ f.q.flatten).Perm (handed.map Prod.snd)
    simpa [inHand] using h.kept

theorem step (h : Inv s) (hn : n ≤ 31) {a : Action n} (hs : s.step a = some s') : Inv s' := by
  by_cases ha : a = .advance
  · subst ha
    obtain ⟨sec, hmu, hs⟩ := Option.bind_eq_some_iff.mp hs
    cases sec with
    | fileMeta m =>
      obtain rfl := Option.some.inj hs
      obtain ⟨f, mu, caller, handed, returned⟩ := s
      obtain rfl : mu = _ := hmu
      exact { h with
        bits := fun i hi hw _ => h.bits i hi hw (by simp)
        filed := by simp
        inside := by simpa using h.inside }
    | emplace m => exact h.emplace hmu hs
    | signal m => exact h.signal hn hmu hs
    | count =>
      obtain rfl := Option.some.inj hs
      obtain ⟨f, mu, caller, handed, returned⟩ := s
      obtain rfl : mu = _ := hmu
      exact { h with
        bits := fun i hi hw _ => h.bits i hi hw (by simp)
        filed := by simp
        inside := by simpa using h.inside }
    | pop i res newMask =>
      by_cases hi : i < n
      · exact h.pop hn hmu hi hs
      · exact h.store hmu hi hs
  · exact h.quiet hn ha hs

end Inv

/-- The call of `RequestHandler` that has the lock and has not filed its batch yet. -/
def filing (s : QueueSys n) : List (WorkerMeta n) :=
  match s.mu with
  | some (.fileMeta m) | some (.emplace m) => [m]
  | _ => []

theorem calls_step {calls : List (WorkerMeta n)} (h : s.handed.map (·.1) ++ s.filing = calls)
    {a : Action n} (hs : s.step a = some s') :
    s'.handed.map (·.1) ++ s'.filing = calls ++ a.call.toList := by
  subst h
  obtain ⟨f, mu, caller, handed, returned⟩ := s
  cases a with
  | lockHandler m =>
    obtain ⟨_, hmu, hs⟩ := Option.bind_eq_some_iff.mp hs
    obtain rfl := Option.some.inj hs
    obtain rfl : mu = none := by simpa [guard] using hmu
    simp [filing, Action.call]
  | advance =>
    obtain ⟨sec, rfl, hs⟩ := Option.bind_eq_some_iff.mp hs
    cases sec with
    | fileMeta m | signal m | count =>
      obtain rfl := Option.some.inj hs
      simp [filing, Action.call]
    | emplace m =>
      obtain ⟨queue, -, hs⟩ := Option.bind_eq_some_iff.mp hs
      obtain rfl := Option.some.inj hs
      simp [filing, Action.call]
    | pop i res newMask =>
      simp only [runSection] at hs
      split_ifs at hs
      · obtain ⟨queue, -, hs⟩ := Option.bind_eq_some_iff.mp hs
        obtain ⟨b, -, hs⟩ := Option.bind_eq_some_iff.mp hs
        obtain rfl := Option.some.inj hs
        simp [filing, Action.call]
      · obtain rfl := Option.some.inj hs
        simp [filing, Action.call]
  | getBatch =>
    obtain ⟨_, -, hs⟩ := Option.bind_eq_some_iff.mp hs
    obtain rfl := Option.some.inj hs
    simp [filing, Action.call]
  | load =>
    obtain ⟨_, -, hs⟩ := Option.bind_eq_some_iff.mp hs
    obtain rfl := Option.some.inj hs
    split_ifs <;> simp [filing, Action.call]
  | lockBatch =>
    obtain ⟨_, hg, hs⟩ := Option.bind_eq_some_iff.mp hs
    obtain rfl := Option.some.inj hs
    obtain ⟨rfl, -⟩ : mu = none ∧ caller = .passed := by simpa [guard] using hg
    simp [filing, Action.call]

theorem Inv.queue_eq_nil_iff (h : Inv s) {i : Nat} (hi : i < n) :
    s.f.q[i]? = some [] ↔ ¬ s.Waits i := by
  rw [h.queue i hi, Option.some.injEq, List.drop_eq_nil_iff, Waits, Nat.not_lt]

/-- The statements under the lock are all possible: the rank is that of a worker, and the queue that is
popped is not empty. -/
theorem Inv.advance (h : Inv s) (hmu : s.mu ≠ none) : ∃ s', s.step .advance = some s' := by
  obtain ⟨sec, hsec⟩ := Option.ne_none_iff_exists'.mp hmu
  rw [QueueSys.step, hsec, Option.bind_some]
  apply Option.isSome_iff_exists.mp
  cases sec with
  | fileMeta m | signal m | count => rfl
  | emplace m =>
    have hq := h.queue m.rank m.rank.isLt
    simp [runSection, senderRank_toNat, hq]
  | pop i res newMask =>
    by_cases hi : i < n
    · have hin : s.caller = .inside := h.inside.mp ⟨i, res, newMask, hsec⟩
      have hw : s.Waits i := h.ready (.inr hin) i hi (by simp [popped, hsec])
      obtain ⟨b, rest, hb⟩ := List.exists_cons_of_ne_nil
        fun hnil => (h.queue_eq_nil_iff hi).mp ((h.queue i hi).trans (congrArg some hnil)) hw
      simp [runSection, hi, h.queue i hi, hb]
    · simp [runSection, hi]

/-- When the lock is free, the loop of `get_batch` ends exactly if no queue is empty. -/
theorem Inv.qSignal_eq_iff (h : Inv s) (hn : n ≤ 31) (hmu : s.mu = none) :
    s.f.qSignal = workerMask n ↔ ∀ i < n, s.f.q[i]? ≠ some [] := by
  have hword : s.word = s.f.qSignal := by simp [word, hmu]
  have hbit : ∀ i, bit s.f.qSignal i = true ↔ i < n ∧ s.Waits i := fun i =>
    ⟨fun hb => h.waits i (hword ▸ hb), fun hw => hword ▸ h.bits i hw.1 hw.2 (by simp [hmu])⟩
  have hwait : ∀ i < n, (s.f.q[i]? ≠ some [] ↔ s.Waits i) := fun i hi => by
    rw [ne_eq, h.queue_eq_nil_iff hi, not_not]
  constructor
  · intro hsig i hi
    refine (hwait i hi).mpr ((hbit i).mp ?_).2
    rw [hsig, bit_workerMask hn]
    exact decide_eq_true hi
  · intro hall
    refine eq_of_bit_eq fun i => ?_
    rw [bit_workerMask hn, Bool.eq_iff_iff, hbit, decide_eq_true_eq]
    exact ⟨fun hw => hw.1, fun hi => ⟨hi, (hwait i hi).mp (hall i hi)⟩⟩

theorem inv_of_exec (hn : n ≤ 31) {as : List (Action n)} (hrun : Run.exec QueueSys.step (init n) as = some s) :
    Inv s :=
  Run.exec_invariant Inv (fun _ _ _ h hs => h.step hn hs) (inv_init n) hrun

theorem calls_of_exec {as : List (Action n)} (hrun : Run.exec QueueSys.step (init n) as = some s) :
    s.handed.map (·.1) ++ s.filing = as.filterMap Action.call := by
  refine Run.exec_invariant_of_inputs (fun as s => s.handed.map (·.1) ++ s.filing = as.filterMap Action.call)
    rfl ?_ hrun
  intro as a t t' h hs
  rw [calls_step h hs, List.filterMap_append]
  cases hc : a.call <;> simp [hc]

/-- Up to 30 workers, every run of `RequestHandler` calls against one thread that calls `get_batch`:
no statement under the lock reads an empty queue, the `k`-th call returns the `k`-th batch of every
worker in the order of the ranks, the handlers number the calls of `RequestHandler`, and each batch that
was filed is in one place: returned, taken by the call under way, or in its queue. When the lock is free,
the loop of `get_batch` ends exactly if no queue is empty. -/
theorem getBatch_kth_of_each_worker (hn : n ≤ 30) {as : List (Action n)}
    (hrun : Run.exec QueueSys.step (init n) as = some s) :
    (s.mu ≠ none → ∃ s', s.step .advance = some s') ∧
    (∀ i res newMask, s.mu = some (.pop i res newMask) → i < n → s.f.q[i]? ≠ some []) ∧
    (∀ (k : Nat) (r : List ServerDataBatch), s.returned[k]? = some r → r.length = n ∧
      ∀ i < n, ∃ b, r[i]? = some b ∧ (handedBy s.handed i)[k]? = some b) ∧
    s.handed.map (·.1) ++ s.filing = as.filterMap Action.call ∧
    (∀ (k : Nat) (p : WorkerMeta n × ServerDataBatch), s.handed[k]? = some p →
      p.2 = newBatch k p.1.reqMeta) ∧
    (s.returned.flatten ++ s.inHand ++ s.f.q.flatten).Perm (s.handed.map (·.2)) ∧
    (s.mu = none → (s.f.qSignal = workerMask n ↔ ∀ i < n, s.f.q[i]? ≠ some [])) := by
  have hn' : n ≤ 31 := Nat.le_succ_of_le hn
  have h : Inv s := inv_of_exec hn' hrun
  refine ⟨h.advance, fun i res newMask hmu hi => ?_, fun k r hr => ?_, calls_of_exec hrun, h.batches, h.kept,
    h.qSignal_eq_iff hn'⟩
  · have hin : s.caller = .inside := h.inside.mp ⟨i, res, newMask, hmu⟩
    have hw : s.Waits i := h.ready (.inr hin) i hi (by simp [popped, hmu])
    exact fun hnil => (h.queue_eq_nil_iff hi).mp hnil hw
  · obtain ⟨hlen, hget⟩ := h.results k r hr
    refine ⟨hlen, fun i hi => ?_⟩
    rw [← hget i hi]
    exact ⟨_, List.getElem?_eq_getElem (hlen.symm ▸ hi), List.getElem?_eq_getElem (hlen.symm ▸ hi)⟩

/-- A push of one tensor by worker `rank`. -/
def sampleMeta (rank : Fin n) : WorkerMeta n where
  reqMeta := { senderRank := (rank : Nat), pushTensors := [{ key := 7 }] }
  rank := rank
  senderRank := rfl

/-- Worker 1 hands in twice before worker 0 does; the mask is tested while worker 0 is filing. -/
def sampleRun : List (Action 2) :=
  [.getBatch, .lockHandler (sampleMeta 1), .advance, .advance, .advance, .advance,
    .lockHandler (sampleMeta 1), .advance, .advance, .advance, .advance, .load,
    .lockHandler (sampleMeta 0), .advance, .advance, .load, .advance, .load, .advance, .lockBatch,
    .advance, .advance, .advance]

theorem getBatch_kth_of_each_worker_two : ∃ s, Run.exec step (init 2) sampleRun = some s ∧
    (s.returned.map (·.map (·.handler)) = [[2, 0]] ∧ s.f.q.map (·.map (·.handler)) = [[], [1]]) ∧
    ∀ (k : Nat) (r : List ServerDataBatch), s.returned[k]? = some r → r.length = 2 ∧
      ∀ i < 2, ∃ b, r[i]? = some b ∧ (handedBy s.handed i)[k]? = some b := by
  have heval : (Run.exec step (init 2) sampleRun).map
      (fun s => (s.returned.map (·.map (·.handler)), s.f.q.map (·.map (·.handler)))) =
      some ([[2, 0]], [[], [1]]) := by decide
  obtain ⟨s, hrun, hs⟩ := Option.map_eq_some_iff.mp heval
  exact ⟨s, hrun, Prod.mk.inj hs, (getBatch_kth_of_each_worker (by decide) hrun).2.2.1⟩

/-! ### More workers -/

/-- Worker `r` hands in a batch. -/
def callOf (r : Fin n) : List (Action n) := .lockHandler (sampleMeta r) :: List.replicate 4 .advance

theorem exec_callOf (hmu : s.mu = none) {r : Fin n} {queue : List ServerDataBatch}
    (hq : s.f.q[(r : Nat)]? = some queue) :
    Run.exec step s (callOf r) = some { s with
      f := { s.f with
        metaMap := Function.update s.f.metaMap s.f.handlerCounter (some (sampleMeta r).reqMeta)
        q := s.f.q.set r (queue ++ [newBatch s.f.handlerCounter (sampleMeta r).reqMeta])
        qSignal := s.f.qSignal ||| signalBit r
        handlerCounter := s.f.handlerCounter + 1 }
      handed := s.handed ++ [(sampleMeta r, newBatch s.f.handlerCounter (sampleMeta r).reqMeta)] } := by
  obtain ⟨f, mu, caller, handed, returned⟩ := s
  obtain rfl : mu = none := hmu
  replace hq : f.q[(r : Nat)]? = some queue := hq
  have hrank : (sampleMeta r).rank = r := rfl
  simp only [callOf, List.replicate, Run.exec_cons, Run.exec_nil, step, runSection, Option.bind_eq_bind,
    Option.bind_some, Option.isNone_none, guard, if_true, Option.pure_def, senderRank_toNat, hrank, hq]

theorem exec_first (m : Nat) (hm : m ≤ 31) (hmn : m ≤ n) :
    ∃ as s, Run.exec step (init n) as = some s ∧ s.mu = none ∧ s.f.qSignal = workerMask m ∧
      ∀ i, m ≤ i → i < n → s.f.q[i]? = some [] := by
  induction m with
  | zero =>
    refine ⟨[], init n, rfl, rfl, (by decide : (0 : UInt64) = workerMask 0), fun i _ hi => ?_⟩
    simp [init, hi]
  | succ m ih =>
    obtain ⟨as, s, hrun, hmu, hsig, hq⟩ := ih (by omega) (by omega)
    have hcall := exec_callOf (r := ⟨m, hmn⟩) hmu (hq m (Nat.le_refl m) hmn)
    have hrun' : Run.exec step (init n) (as ++ callOf ⟨m, hmn⟩) = Run.exec step s (callOf ⟨m, hmn⟩) := by
      rw [Run.exec_append, hrun, Option.bind_some]
    refine ⟨_, _, hrun'.trans hcall, ?_, ?_, ?_⟩
    · exact hmu
    · refine eq_of_bit_eq fun i => ?_
      show bit (s.f.qSignal ||| signalBit m) i = _
      rw [bit_or, hsig, bit_workerMask (by omega), bit_signalBit (by omega), bit_workerMask hm]
      grind
    · intro i hmi hi
      show (s.f.q.set m _)[i]? = some []
      rw [List.getElem?_set_ne (by omega)]
      exact hq i (by omega) hi

end QueueSys

namespace FServer

/-- `(1 << num_worker_) - 1` where C++ gives it a value: the count of the shift is below the width of `int`
and the subtraction does not overflow. -/
def workerMaskDefined (numWorker : Nat) : Option UInt64 := do
  guard (numWorker < 32)
  let shifted := (1#32) <<< numWorker
  guard (shifted ≠ BitVec.intMin 32)
  return ⟨(shifted - 1#32).signExtend 64⟩

theorem workerMaskDefined_eq_some_iff (n : Nat) : workerMaskDefined n = some (workerMask n) ↔ n ≤ 30 := by
  have h : ∀ n < 32, workerMaskDefined n = some (workerMask n) ↔ n ≤ 30 := by decide
  by_cases hn : n < 32
  · exact h n hn
  · simp [workerMaskDefined, hn]
    omega

end FServer

namespace QueueSys

/-- The loop of `get_batch` ends exactly when no queue is empty, in every state that any run of
`RequestHandler` and `get_batch` reaches with the lock free, if there are at most 31 workers; the mask of 31
workers is already the result of an `int` overflow that wraps around. -/
theorem spin_exact_iff (n : Nat) :
    ((∀ (as : List (Action n)) (s : QueueSys n), Run.exec step (init n) as = some s → s.mu = none →
      (s.f.qSignal = workerMask n ↔ ∀ i < n, s.f.q[i]? ≠ some [])) ↔ n ≤ 31) ∧
    (workerMaskDefined n = some (workerMask n) ↔ n ≤ 30) := by
  refine ⟨⟨fun h => ?_, fun hn as s hrun => (inv_of_exec hn hrun).qSignal_eq_iff hn⟩,
    workerMaskDefined_eq_some_iff n⟩
  by_contra hn
  -- the shift counts modulo 32: the mask is the one of the first `n % 32` workers
  obtain ⟨as, s, hrun, hmu, hsig, hq⟩ := exec_first (n % 32) (n := n) (by omega) (Nat.mod_le n 32)
  have hmask : workerMask n = workerMask (n % 32) := by simp [workerMask]
  exact (h as s hrun hmu).mp (hsig.trans hmask.symm) (n - 1) (by omega) (hq (n - 1) (by omega) (by omega))

/-- With 32 workers the mask is 0, so the loop ends before any worker has handed in a batch. -/
theorem spin_ends_at_once :
    ∃ s, Run.exec step (init 32) [] = some s ∧ s.mu = none ∧ s.f.qSignal = workerMask 32 ∧
      ∀ i < 32, s.f.q[i]? = some [] :=
  ⟨init 32, rfl, rfl, by decide, by decide⟩

end QueueSys

end StepMesh
