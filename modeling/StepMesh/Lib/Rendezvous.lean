import Mathlib.Data.List.Nodup
import Mathlib.Logic.Function.Basic
import StepMesh.Lib.ListAux

/-!
# Rendezvous before a write

Nodes write into each other's memory. Before its first write a sender asks for a place; the receiver
takes a free slot of its table, files a fresh block there and answers with both. The sender writes the
content of its message to the block and notifies the receiver of the slot; the receiver queues the
notification and reads the block when it takes it from the queue. Later messages from the same send
buffer write to the same block at once, so a block could be overwritten before it is read. The rule
against this: a route is used again only after the message before has been taken (`Step.cached`).

Everything between two nodes goes through queues: `out` from the sender, `back` with the answers, and one
queue `cq` per node with what has arrived there. A step takes one element of one queue, so the queues
proceed in any order relative to each other.

`Inv` is the invariant of all steps. It says that no message is lost or taken twice, that the messages
from one node to another are taken in the order in which they were written, and that a block has the
content of a message from when it is written to when it is taken.
-/

namespace Rendezvous

variable {N R C : Type*}

/-- A slot of the receiver's table and the block filed there. -/
structure Place where
  slot : Nat
  blk : Nat
deriving DecidableEq, Repr

/-- What a sender posts: it asks for a place for a send buffer, or writes a message to one. -/
inductive Req (C : Type*)
  | ask (buf : Nat)
  | write (p : Place) (c : C) (uid : Nat)

inductive Arrival
  | ask (buf : Nat)
  | answer (buf : Nat) (p : Place)
  | note (slot uid : Nat)

/-- A message. Its place may be used by later messages on its route. -/
structure Item (N R C : Type*) where
  src : N
  dst : N
  route : R
  buf : Nat
  content : C

/-- An entry of the table: a block, and the peer and send buffer it was given to. -/
structure Slot (N : Type*) where
  blk : Nat
  peer : N
  buf : Nat

structure Note (N : Type*) where
  peer : N
  slot : Slot N
  uid : Nat

/-- `waiting` is the message that waits in a send buffer for the answer, `fresh` numbers the send
buffers. `posted` and `popped` record what has been written and taken. -/
@[ext]
structure State (N R C : Type*) where
  sent : List (Item N R C)
  waiting : N → Nat → Option Nat
  fresh : N → Nat
  slots : N → Nat → Option (Slot N)
  mem : N → Nat → C
  out : N → N → List (Req C)
  back : N → N → List (Nat × Place)
  cq : N → List (N × Arrival)
  recv : N → List (Note N)
  posted : N → N → List Nat
  popped : List (N × Note N)

def Req.arrival : Req C → Arrival
  | .ask buf => .ask buf
  | .write p _ u => .note p.slot u

def Req.asked : Req C → Option Nat
  | .ask buf => some buf
  | .write .. => none

def Req.written : Req C → Option Nat
  | .ask _ => none
  | .write _ _ u => some u

def Arrival.asked : Arrival → Option Nat
  | .ask buf => some buf
  | _ => none

def Arrival.answered : Arrival → Option Nat
  | .answer buf _ => some buf
  | _ => none

def Arrival.noted : Arrival → Option Nat
  | .note _ u => some u
  | _ => none

/-! ### Functions with another value at one place -/

def set {α β γ : Type*} [DecidableEq α] [DecidableEq β] (f : α → β → γ) (a : α) (b : β) (c : γ) :
    α → β → γ :=
  fun a' b' => if a' = a ∧ b' = b then c else f a' b'

section set
variable {α β γ δ : Type*} [DecidableEq α] [DecidableEq β] {f : α → β → γ} {a a' : α} {b b' : β} {c : γ}

@[simp] theorem set_self : set f a b c a b = c := by simp [set]

theorem set_of_ne (h : ¬ (a' = a ∧ b' = b)) : set f a b c a' b' = f a' b' := by simp [set, h]

@[simp] theorem set_apply_self : set f a b (f a b) = f := by
  funext a' b'
  unfold set
  split_ifs with h
  · rw [h.1, h.2]
  · rfl

theorem set_eq_update : set f a b c = Function.update f a (Function.update (f a) b c) := by
  funext a' b'
  by_cases ha : a' = a
  · subst ha
    by_cases hb : b' = b <;> simp [set, hb]
  · simp [set, ha]

theorem append_ite_eq_set (f : α → β → List γ) (l : List γ) :
    (fun a' b' => f a' b' ++ if a' = a ∧ b' = b then l else []) = set f a b (f a b ++ l) := by
  funext a' b'
  unfold set
  split_ifs with h
  · rw [h.1, h.2]
  · rw [List.append_nil]

theorem filterMap_set_append {f : α → β → List γ} (l : List γ) (g : γ → Option δ) :
    (set f a b (f a b ++ l) a' b').filterMap g =
      (f a' b').filterMap g ++ if a' = a ∧ b' = b then l.filterMap g else [] := by
  unfold set
  split_ifs with h
  · obtain ⟨rfl, rfl⟩ := h
    rw [List.filterMap_append]
  · rw [List.append_nil]

theorem filterMap_set_tail {f : α → β → List γ} {x : γ} {l : List γ} (h : f a b = x :: l)
    (g : γ → Option δ) (a' : α) (b' : β) :
    (f a' b').filterMap g =
      (if a' = a ∧ b' = b then [x].filterMap g else []) ++ (set f a b l a' b').filterMap g := by
  unfold set
  split_ifs with hab
  · obtain ⟨rfl, rfl⟩ := hab
    rw [h, ← List.filterMap_append, List.singleton_append]
  · rw [List.nil_append]

theorem filterMap_update_append {f : α → List γ} (l : List γ) (g : γ → Option δ) :
    (Function.update f a (f a ++ l) a').filterMap g =
      (f a').filterMap g ++ if a' = a then l.filterMap g else [] := by
  rcases eq_or_ne a' a with rfl | h
  · rw [Function.update_self, List.filterMap_append, if_pos rfl]
  · rw [Function.update_of_ne h, if_neg h, List.append_nil]

theorem filterMap_update_tail {f : α → List γ} {x : γ} {l : List γ} (h : f a = x :: l)
    (g : γ → Option δ) (a' : α) :
    (f a').filterMap g = (if a' = a then [x].filterMap g else []) ++
      (Function.update f a l a').filterMap g := by
  rcases eq_or_ne a' a with rfl | hne
  · rw [Function.update_self, h, if_pos rfl, ← List.filterMap_append, List.singleton_append]
  · rw [Function.update_of_ne hne, if_neg hne, List.nil_append]

end set

variable [DecidableEq N]

/-- What is selected from the arrivals from one peer. -/
def only (a : N) (f : Arrival → Option Nat) (e : N × Arrival) : Option Nat := if e.1 = a then f e.2 else none

namespace State

/-- Nothing has been sent, and every block has the content `c`. -/
def init (c : C) : State N R C where
  sent := []
  waiting _ _ := none
  fresh _ := 0
  slots _ _ := none
  mem _ _ := c
  out _ _ := []
  back _ _ := []
  cq _ := []
  recv _ := []
  posted _ _ := []
  popped := []

variable (S : State N R C)

/-! ### Steps -/

/-- A message that asks for a place. -/
def first (x : Item N R C) : State N R C :=
  { S with
    sent := S.sent ++ [x]
    waiting := set S.waiting x.src x.buf (some S.sent.length)
    fresh := Function.update S.fresh x.src (x.buf + 1)
    out := set S.out x.src x.dst (S.out x.src x.dst ++ [.ask x.buf]) }

/-- Message `u` is written. -/
def write (a b : N) (p : Place) (c : C) (u : Nat) : State N R C :=
  { S with
    out := set S.out a b (S.out a b ++ [.write p c u])
    posted := set S.posted a b (S.posted a b ++ [u]) }

/-- A message to a known place. -/
def cached (x : Item N R C) (p : Place) : State N R C :=
  { S with sent := S.sent ++ [x] }.write x.src x.dst p x.content S.sent.length

/-- The first request of a queue arrives. -/
def deliver (a b : N) (r : Req C) (rest : List (Req C)) : State N R C :=
  { S with
    out := set S.out a b rest
    cq := Function.update S.cq b (S.cq b ++ [(a, r.arrival)])
    mem := match r with
      | .ask _ => S.mem
      | .write p c _ => set S.mem b p.blk c }

/-- The first answer of node `b` arrives at `a`. -/
def deliverBack (b a : N) (buf : Nat) (p : Place) (rest : List (Nat × Place)) : State N R C :=
  { S with
    back := set S.back b a rest
    cq := Function.update S.cq a (S.cq a ++ [(b, .answer buf p)]) }

/-- Node `n` answers a peer. The block is cleared. -/
def ask (n a : N) (buf : Nat) (p : Place) (c : C) (rest : List (N × Arrival)) : State N R C :=
  { S with
    cq := Function.update S.cq n rest
    slots := set S.slots n p.slot (some ⟨p.blk, a, buf⟩)
    mem := set S.mem n p.blk c
    back := set S.back n a (S.back n a ++ [(buf, p)]) }

/-- Node `n` has its answer: the message that waits is written. -/
def answer (n b : N) (buf : Nat) (p : Place) (c : C) (u : Nat) (rest : List (N × Arrival)) : State N R C :=
  { S with
    cq := Function.update S.cq n rest
    waiting := set S.waiting n buf none }.write n b p c u

def note (n : N) (nt : Note N) (rest : List (N × Arrival)) : State N R C :=
  { S with
    cq := Function.update S.cq n rest
    recv := Function.update S.recv n (S.recv n ++ [nt]) }

def pop (n : N) (nt : Note N) (rest : List (Note N)) : State N R C :=
  { S with
    recv := Function.update S.recv n rest
    popped := S.popped ++ [(n, nt)] }

/-- The messages from `a` that `b` has taken, in order. -/
def poppedFrom (a b : N) : List Nat :=
  S.popped.filterMap fun e => if e.1 = b ∧ e.2.peer = a then some e.2.uid else none

end State

/-- A step of some node or queue. -/
inductive Step (S : State N R C) : State N R C → Prop
  | first (x : Item N R C) (hbuf : x.buf = S.fresh x.src) : Step S (S.first x)
  | cached (x y : Item N R C) (v : Nat) (p : Place) (hy : S.sent[v]? = some y) (hsrc : y.src = x.src)
      (hdst : y.dst = x.dst) (hroute : y.route = x.route) (hbuf : y.buf = x.buf)
      (hslot : S.slots x.dst p.slot = some ⟨p.blk, x.src, x.buf⟩)
      (hreuse : ∀ (u : Nat) z, S.sent[u]? = some z → z.src = x.src → z.dst = x.dst →
        z.route = x.route → u ∈ S.poppedFrom x.src x.dst) : Step S (S.cached x p)
  | deliver (a b : N) (r : Req C) (rest : List (Req C)) (h : S.out a b = r :: rest) :
      Step S (S.deliver a b r rest)
  | deliverBack (b a : N) (buf : Nat) (p : Place) (rest : List (Nat × Place))
      (h : S.back b a = (buf, p) :: rest) : Step S (S.deliverBack b a buf p rest)
  | ask (n a : N) (buf : Nat) (p : Place) (c : C) (rest : List (N × Arrival))
      (h : S.cq n = (a, .ask buf) :: rest) (hslot : S.slots n p.slot = none)
      (hblk : ∀ (i : Nat) sl, S.slots n i = some sl → sl.blk ≠ p.blk) : Step S (S.ask n a buf p c rest)
  | answer (n b : N) (buf : Nat) (p : Place) (u : Nat) (x : Item N R C) (rest : List (N × Arrival))
      (h : S.cq n = (b, .answer buf p) :: rest) (hwait : S.waiting n buf = some u)
      (hx : S.sent[u]? = some x) : Step S (S.answer n b buf p x.content u rest)
  | note (n a : N) (slot u : Nat) (sl : Slot N) (rest : List (N × Arrival))
      (h : S.cq n = (a, .note slot u) :: rest) (hslot : S.slots n slot = some sl) :
      Step S (S.note n ⟨a, sl, u⟩ rest)
  | pop (n : N) (nt : Note N) (rest : List (Note N)) (h : S.recv n = nt :: rest) : Step S (S.pop n nt rest)

theorem Step.slots_mono {S S' : State N R C} (hs : Step S S') {b : N} {i : Nat} {sl : Slot N}
    (h : S.slots b i = some sl) : S'.slots b i = some sl := by
  cases hs with
  | ask n a buf p c rest hcq hslot hblk =>
    refine (set_of_ne ?_).trans h
    rintro ⟨rfl, rfl⟩
    rw [hslot] at h
    cases h
  | _ => exact h

/-! ### The invariant -/

namespace State

variable (S : State N R C)

/-- The send buffers of `a` that wait for an answer of `b`, in the order in which it will come. -/
def asks (a b : N) : List Nat :=
  (S.cq a).filterMap (only b Arrival.answered) ++ (S.back b a).filterMap (fun e => some e.1) ++
    (S.cq b).filterMap (only a Arrival.asked) ++ (S.out a b).filterMap Req.asked

/-- The messages that `b` has been notified of and has not taken. -/
def arrived (a b : N) : List Nat :=
  (S.recv b).filterMap (fun nt => if nt.peer = a then some nt.uid else none) ++
    (S.cq b).filterMap (only a Arrival.noted)

/-- The messages from `a` that have been written and not taken by `b`. -/
def pipe (a b : N) : List Nat := S.arrived a b ++ (S.out a b).filterMap Req.written

end State

/-- Message `u` lies in the block of a slot. -/
structure Lies (S : State N R C) (a b : N) (u : Nat) (sl : Slot N) : Prop where
  item : ∃ x, S.sent[u]? = some x ∧ x.src = a ∧ x.dst = b ∧ sl.peer = a ∧ sl.buf = x.buf ∧
    S.mem b sl.blk = x.content
  slot : ∃ i, S.slots b i = some sl

structure Inv (S : State N R C) : Prop where
  fresh : ∀ (u : Nat) x, S.sent[u]? = some x → x.buf < S.fresh x.src
  waiting : ∀ a i u, S.waiting a i = some u → ∃ x, S.sent[u]? = some x ∧ x.src = a ∧ x.buf = i
  mem_asks : ∀ a b i, i ∈ S.asks a b ↔
    ∃ u x, S.waiting a i = some u ∧ S.sent[u]? = some x ∧ x.dst = b
  asks_sorted : ∀ a b, (S.asks a b).Pairwise (· < ·)
  answers : ∀ a b buf p, (buf, p) ∈ S.back b a ∨ (b, .answer buf p) ∈ S.cq a →
    S.slots b p.slot = some ⟨p.blk, a, buf⟩
  writes : ∀ a b p c u, .write p c u ∈ S.out a b → ∃ x, S.sent[u]? = some x ∧ x.src = a ∧ x.dst = b ∧
    c = x.content ∧ S.slots b p.slot = some ⟨p.blk, a, x.buf⟩
  notes : ∀ a b slot u, (a, .note slot u) ∈ S.cq b → ∃ sl, S.slots b slot = some sl ∧ Lies S a b u sl
  recv : ∀ b nt, nt ∈ S.recv b → Lies S nt.peer b nt.uid nt.slot
  blk_inj : ∀ (b : N) (i j : Nat) sl sl', S.slots b i = some sl → S.slots b j = some sl' →
    sl.blk = sl'.blk → i = j
  shared : ∀ (u v : Nat) x y, S.sent[u]? = some x → S.sent[v]? = some y → x.src = y.src → x.buf = y.buf →
    u < v → u ∈ S.poppedFrom x.src x.dst ∧ x.dst = y.dst ∧ x.route = y.route
  fifo : ∀ a b, S.posted a b = S.poppedFrom a b ++ S.pipe a b
  posted_nodup : ∀ a b, (S.posted a b).Nodup
  posted_sent : ∀ a b u, u ∈ S.posted a b → ∃ x, S.sent[u]? = some x ∧ x.src = a ∧ x.dst = b
  accounted : ∀ (u : Nat) x, S.sent[u]? = some x →
    (u ∈ S.posted x.src x.dst ↔ S.waiting x.src x.buf ≠ some u)

variable {S S' : State N R C}

omit [DecidableEq N] in
theorem Lies.of_sent {a b : N} {u : Nat} {sl : Slot N} (h : Lies S a b u sl) (x : Item N R C)
    (hsent : S'.sent = S.sent ++ [x]) (hslots : S'.slots = S.slots) (hmem : S'.mem = S.mem) :
    Lies S' a b u sl := by
  obtain ⟨⟨y, hy, hrest⟩, hslot⟩ := h
  refine ⟨⟨y, ?_, ?_⟩, ?_⟩
  · rw [hsent]
    exact List.getElem?_snoc_of_eq_some hy x
  · rwa [hmem]
  · rwa [hslots]

namespace Inv

theorem lt_of_waiting (h : Inv S) {a : N} {i u : Nat} (hw : S.waiting a i = some u) : i < S.fresh a := by
  obtain ⟨x, hx, rfl, rfl⟩ := h.waiting a i u hw
  exact h.fresh u x hx

theorem lt_of_asks (h : Inv S) {a b : N} {i : Nat} (hi : i ∈ S.asks a b) : i < S.fresh a := by
  obtain ⟨u, x, hw, -⟩ := (h.mem_asks a b i).mp hi
  exact h.lt_of_waiting hw

theorem lt_of_posted (h : Inv S) {a b : N} {u : Nat} (hu : u ∈ S.posted a b) : u < S.sent.length := by
  obtain ⟨x, hx, -⟩ := h.posted_sent a b u hu
  exact List.lt_of_getElem?_eq_some hx

theorem asks_first (x : Item N R C) (a b : N) :
    (S.first x).asks a b = S.asks a b ++ if a = x.src ∧ b = x.dst then [x.buf] else [] := by
  simp [State.asks, State.first, filterMap_set_append, Req.asked]

theorem first (h : Inv S) {x : Item N R C} (hbuf : x.buf = S.fresh x.src) : Inv (S.first x) := by
  have hold : ∀ {u : Nat} {y : Item N R C}, S.sent[u]? = some y → ¬ (y.src = x.src ∧ y.buf = x.buf) := by
    rintro u y hy ⟨hsrc, hb⟩
    have := h.fresh u y hy
    rw [hb, hsrc, hbuf] at this
    exact Nat.lt_irrefl _ this
  have hwait : ∀ {a i u}, S.waiting a i = some u → (S.first x).waiting a i = some u := by
    intro a i u hw
    obtain ⟨y, hy, rfl, rfl⟩ := h.waiting a i u hw
    exact (set_of_ne (hold hy)).trans hw
  have hpipe : ∀ a b, (S.first x).pipe a b = S.pipe a b := by
    intro a b
    simp [State.pipe, State.arrived, State.first, filterMap_set_append, Req.written]
  refine ⟨fun u y hy => ?_, fun a i u hw => ?_, fun a b i => ?_, fun a b => ?_, h.answers,
    fun a b p c u hw => ?_, fun a b slot u hn => ?_, fun b nt hn => ?_, h.blk_inj,
    fun u v y z hy hz hsrc hb huv => ?_, fun a b => ?_, h.posted_nodup, fun a b u hu => ?_, fun u y hy => ?_⟩
  · have hle : S.fresh y.src ≤ (S.first x).fresh y.src := by
      rcases eq_or_ne y.src x.src with heq | hne
      · rw [heq, ← hbuf, show (S.first x).fresh x.src = x.buf + 1 from Function.update_self ..]
        exact Nat.le_succ _
      · exact Nat.le_of_eq (Function.update_of_ne hne ..).symm
    rcases List.getElem?_snoc_eq_some hy with hy | ⟨-, rfl⟩
    · exact Nat.lt_of_lt_of_le (h.fresh u y hy) hle
    · rw [show (S.first x).fresh x.src = x.buf + 1 from Function.update_self ..]
      exact Nat.lt_succ_self _
  · by_cases heq : a = x.src ∧ i = x.buf
    · obtain ⟨rfl, rfl⟩ := heq
      obtain rfl : S.sent.length = u := Option.some.inj (set_self.symm.trans hw)
      exact ⟨x, List.getElem?_concat_length, rfl, rfl⟩
    · obtain ⟨y, hy, hrest⟩ := h.waiting a i u ((set_of_ne heq).symm.trans hw)
      exact ⟨y, List.getElem?_snoc_of_eq_some hy x, hrest⟩
  · rw [asks_first, List.mem_append, h.mem_asks]
    constructor
    · rintro (⟨u, y, hw, hy, hdst⟩ | hi)
      · exact ⟨u, y, hwait hw, List.getElem?_snoc_of_eq_some hy x, hdst⟩
      · split_ifs at hi with hab
        · obtain ⟨rfl, rfl⟩ := hab
          obtain rfl := List.mem_singleton.mp hi
          exact ⟨S.sent.length, x, set_self, List.getElem?_concat_length, rfl⟩
        · cases hi
    · rintro ⟨u, y, hw, hy, rfl⟩
      by_cases heq : a = x.src ∧ i = x.buf
      · obtain ⟨rfl, rfl⟩ := heq
        obtain rfl : S.sent.length = u := Option.some.inj (set_self.symm.trans hw)
        obtain rfl : x = y := Option.some.inj (List.getElem?_concat_length.symm.trans hy)
        exact .inr (by simp)
      · have hw' : S.waiting a i = some u := (set_of_ne heq).symm.trans hw
        obtain ⟨z, hz, -⟩ := h.waiting a i u hw'
        obtain rfl : z = y := Option.some.inj ((List.getElem?_snoc_of_eq_some hz x).symm.trans hy)
        exact .inl ⟨u, z, hw', hz, rfl⟩
  · rw [asks_first]
    refine List.pairwise_append.mpr ⟨h.asks_sorted a b, ?_, fun i hi j hj => ?_⟩
    · split_ifs
      · exact List.pairwise_singleton ..
      · exact List.Pairwise.nil
    · split_ifs at hj with hab
      · obtain rfl := List.mem_singleton.mp hj
        rw [hbuf, ← hab.1]
        exact h.lt_of_asks hi
      · cases hj
  · have hw' : .write p c u ∈ S.out a b := by
      by_cases heq : a = x.src ∧ b = x.dst
      · obtain ⟨rfl, rfl⟩ := heq
        simpa [State.first] using hw
      · simpa [State.first, set_of_ne heq] using hw
    obtain ⟨y, hy, hrest⟩ := h.writes a b p c u hw'
    exact ⟨y, List.getElem?_snoc_of_eq_some hy x, hrest⟩
  · obtain ⟨sl, hsl, hlies⟩ := h.notes a b slot u hn
    exact ⟨sl, hsl, hlies.of_sent x rfl rfl rfl⟩
  · exact (h.recv b nt hn).of_sent x rfl rfl rfl
  · rcases List.getElem?_snoc_eq_some hz with hz | ⟨rfl, rfl⟩
    · rcases List.getElem?_snoc_eq_some hy with hy | ⟨rfl, rfl⟩
      · exact h.shared u v y z hy hz hsrc hb huv
      · exact absurd (List.lt_of_getElem?_eq_some hz) (Nat.not_lt_of_lt huv)
    · rcases List.getElem?_snoc_eq_some hy with hy | ⟨rfl, rfl⟩
      · exact absurd ⟨hsrc, hb⟩ (hold hy)
      · exact absurd huv (Nat.lt_irrefl _)
  · rw [hpipe]
    exact h.fifo a b
  · obtain ⟨y, hy, hrest⟩ := h.posted_sent a b u hu
    exact ⟨y, List.getElem?_snoc_of_eq_some hy x, hrest⟩
  · rcases List.getElem?_snoc_eq_some hy with hy | ⟨rfl, rfl⟩
    · rw [show (S.first x).waiting y.src y.buf = S.waiting y.src y.buf from set_of_ne (hold hy)]
      exact h.accounted u y hy
    · rw [show (S.first x).waiting x.src x.buf = some S.sent.length from set_self]
      exact ⟨fun hu => absurd (h.lt_of_posted hu) (Nat.lt_irrefl _), fun hne => absurd rfl hne⟩

theorem pipe_write (a b : N) (p : Place) (c : C) (u : Nat) (a' b' : N) :
    (S.write a b p c u).pipe a' b' = S.pipe a' b' ++ if a' = a ∧ b' = b then [u] else [] := by
  simp [State.pipe, State.arrived, State.write, filterMap_set_append, Req.written]

theorem asks_write (a b : N) (p : Place) (c : C) (u : Nat) (a' b' : N) :
    (S.write a b p c u).asks a' b' = S.asks a' b' := by
  simp [State.asks, State.write, filterMap_set_append, Req.asked]

theorem posted_write (a b : N) (p : Place) (c : C) (u : Nat) (a' b' : N) :
    (S.write a b p c u).posted a' b' = S.posted a' b' ++ if a' = a ∧ b' = b then [u] else [] := by
  show set S.posted a b (S.posted a b ++ [u]) a' b' = _
  by_cases h : a' = a ∧ b' = b
  · rw [h.1, h.2, set_self, if_pos ⟨rfl, rfl⟩]
  · rw [set_of_ne h, if_neg h, List.append_nil]

theorem mem_out_write {a b : N} {p : Place} {c : C} {u : Nat} {a' b' : N} {r : Req C}
    (h : r ∈ (S.write a b p c u).out a' b') :
    r ∈ S.out a' b' ∨ (a' = a ∧ b' = b) ∧ r = .write p c u := by
  have h' : r ∈ set S.out a b (S.out a b ++ [.write p c u]) a' b' := h
  by_cases hab : a' = a ∧ b' = b
  · rw [hab.1, hab.2, set_self, List.mem_append, List.mem_singleton] at h'
    rw [hab.1, hab.2]
    exact h'.imp_right fun heq => ⟨⟨rfl, rfl⟩, heq⟩
  · rw [set_of_ne hab] at h'
    exact .inl h'

theorem cached (h : Inv S) {x y : Item N R C} {v : Nat} {p : Place} (hy : S.sent[v]? = some y)
    (hsrc : y.src = x.src) (hdst : y.dst = x.dst) (hroute : y.route = x.route) (hbuf : y.buf = x.buf)
    (hslot : S.slots x.dst p.slot = some ⟨p.blk, x.src, x.buf⟩)
    (hreuse : ∀ (u : Nat) z, S.sent[u]? = some z → z.src = x.src → z.dst = x.dst →
      z.route = x.route → u ∈ S.poppedFrom x.src x.dst) : Inv (S.cached x p) := by
  -- the messages from this send buffer are on the same route
  have hsame : ∀ {u : Nat} {z : Item N R C}, S.sent[u]? = some z → z.src = x.src → z.buf = x.buf →
      z.dst = x.dst ∧ z.route = x.route := by
    intro u z hz hzsrc hzbuf
    rcases Nat.lt_trichotomy u v with hlt | rfl | hlt
    · obtain ⟨-, hd, hr⟩ :=
        h.shared u v z y hz hy (hzsrc.trans hsrc.symm) (hzbuf.trans hbuf.symm) hlt
      exact ⟨hd.trans hdst, hr.trans hroute⟩
    · obtain rfl : z = y := Option.some.inj (hz.symm.trans hy)
      exact ⟨hdst, hroute⟩
    · obtain ⟨-, hd, hr⟩ :=
        h.shared v u y z hy hz (hsrc.trans hzsrc.symm) (hbuf.trans hzbuf.symm) hlt
      exact ⟨hd.symm.trans hdst, hr.symm.trans hroute⟩
  have hnew : S.sent.length ∉ S.posted x.src x.dst := fun hu => Nat.lt_irrefl _ (h.lt_of_posted hu)
  refine ⟨fun u z hz => ?_, fun a i u hw => ?_, fun a b i => ?_, fun a b => ?_, h.answers,
    fun a b p' c u hw => ?_, fun a b slot u hn => ?_, fun b nt hn => ?_, h.blk_inj,
    fun u w z z' hz hz' hsrc' hb huv => ?_, fun a b => ?_, fun a b => ?_, fun a b u hu => ?_,
    fun u z hz => ?_⟩
  · rcases List.getElem?_snoc_eq_some hz with hz | ⟨-, rfl⟩
    · exact h.fresh u z hz
    · show x.buf < S.fresh x.src
      rw [← hbuf, ← hsrc]
      exact h.fresh v y hy
  · obtain ⟨z, hz, hrest⟩ := h.waiting a i u hw
    exact ⟨z, List.getElem?_snoc_of_eq_some hz x, hrest⟩
  · rw [State.cached, asks_write]
    refine (h.mem_asks a b i).trans ⟨?_, ?_⟩
    · rintro ⟨u, z, hw, hz, rfl⟩
      exact ⟨u, z, hw, List.getElem?_snoc_of_eq_some hz x, rfl⟩
    · rintro ⟨u, z, hw, hz, rfl⟩
      obtain ⟨z', hz', -⟩ := h.waiting a i u hw
      obtain rfl : z' = z := Option.some.inj ((List.getElem?_snoc_of_eq_some hz' x).symm.trans hz)
      exact ⟨u, z', hw, hz', rfl⟩
  · rw [State.cached, asks_write]
    exact h.asks_sorted a b
  · rcases mem_out_write hw with hw | ⟨⟨rfl, rfl⟩, heq⟩
    · obtain ⟨z, hz, hrest⟩ := h.writes a b p' c u hw
      exact ⟨z, List.getElem?_snoc_of_eq_some hz x, hrest⟩
    · obtain ⟨rfl, rfl, rfl⟩ := Req.write.inj heq
      exact ⟨x, List.getElem?_concat_length, rfl, rfl, rfl, hslot⟩
  · obtain ⟨sl, hsl, hlies⟩ := h.notes a b slot u hn
    exact ⟨sl, hsl, hlies.of_sent x rfl rfl rfl⟩
  · exact (h.recv b nt hn).of_sent x rfl rfl rfl
  · rcases List.getElem?_snoc_eq_some hz' with hz' | ⟨rfl, rfl⟩
    · rcases List.getElem?_snoc_eq_some hz with hz | ⟨rfl, rfl⟩
      · exact h.shared u w z z' hz hz' hsrc' hb huv
      · exact absurd (List.lt_of_getElem?_eq_some hz') (Nat.not_lt_of_lt huv)
    · rcases List.getElem?_snoc_eq_some hz with hz | ⟨rfl, rfl⟩
      · obtain ⟨hd, hr⟩ := hsame hz hsrc' hb
        refine ⟨?_, hd, hr⟩
        rw [hsrc', hd]
        exact hreuse u z hz hsrc' hd hr
      · exact absurd huv (Nat.lt_irrefl _)
  · rw [State.cached, pipe_write, posted_write, ← List.append_assoc]
    exact congrArg (· ++ _) (h.fifo a b)
  · rw [State.cached, posted_write]
    split_ifs with hab
    · rw [hab.1, hab.2]
      simpa using (h.posted_nodup x.src x.dst).concat hnew
    · rw [List.append_nil]
      exact h.posted_nodup a b
  · rw [State.cached, posted_write, List.mem_append] at hu
    rcases hu with hu | hu
    · obtain ⟨z, hz, hrest⟩ := h.posted_sent a b u hu
      exact ⟨z, List.getElem?_snoc_of_eq_some hz x, hrest⟩
    · split_ifs at hu with hab
      · obtain rfl := List.mem_singleton.mp hu
        exact ⟨x, List.getElem?_concat_length, hab.1.symm, hab.2.symm⟩
      · cases hu
  · rw [State.cached, posted_write, List.mem_append]
    rcases List.getElem?_snoc_eq_some hz with hz | ⟨rfl, rfl⟩
    · have hlt := List.lt_of_getElem?_eq_some hz
      refine Iff.trans ⟨?_, .inl⟩ (h.accounted u z hz)
      rintro (hu | hu)
      · exact hu
      · split_ifs at hu
        · exact absurd (List.mem_singleton.mp hu) (Nat.ne_of_lt hlt)
        · cases hu
    · refine ⟨fun _ hw => ?_, fun _ => .inr (by simp)⟩
      obtain ⟨z, hz, -⟩ := h.waiting _ _ _ hw
      exact Nat.lt_irrefl _ (List.lt_of_getElem?_eq_some hz)

/-- A block that is written to is not that of a message which waits to be taken: both would come from one
send buffer. -/
theorem no_clash (h : Inv S) {a b a' : N} {p : Place} {c : C} {u u' : Nat} {sl : Slot N}
    (hw : .write p c u ∈ S.out a b) (hu' : u' ∈ S.arrived a' b) (hlies : Lies S a' b u' sl) :
    sl.blk ≠ p.blk := by
  intro hblk
  obtain ⟨x, hx, rfl, rfl, -, hslot⟩ := h.writes a b p c u hw
  obtain ⟨⟨y, hy, rfl, hydst, hpeer, hbuf, -⟩, i, hi⟩ := hlies
  obtain rfl := h.blk_inj _ i p.slot sl _ hi hslot hblk
  obtain rfl := Option.some.inj (hi.symm.trans hslot)
  have hsrc : x.src = y.src := hpeer
  have hwritten : u ∈ (S.out x.src x.dst).filterMap Req.written := List.mem_filterMap.mpr ⟨_, hw, rfl⟩
  have hnodup := h.posted_nodup x.src x.dst
  rw [h.fifo, State.pipe, List.nodup_append] at hnodup
  obtain ⟨-, hnodup, hdisj⟩ := hnodup
  rw [← hsrc] at hu'
  have hu'_pipe : u' ∈ S.arrived x.src x.dst ++ (S.out x.src x.dst).filterMap Req.written :=
    List.mem_append_left _ hu'
  rcases Nat.lt_trichotomy u u' with hlt | rfl | hlt
  · exact hdisj u (h.shared u u' x y hx hy hsrc hbuf hlt).1 u (List.mem_append_right _ hwritten) rfl
  · exact (List.nodup_append.mp hnodup).2.2 u hu' u hwritten rfl
  · have := (h.shared u' u y x hy hx hsrc.symm hbuf.symm hlt).1
    rw [← hsrc, hydst] at this
    exact hdisj u' this u' hu'_pipe rfl

theorem mem_of_mem_set_tail {α β γ : Type*} [DecidableEq α] [DecidableEq β] {f : α → β → List γ} {a a' : α}
    {b b' : β} {y x : γ} {l : List γ} (h : f a b = y :: l) (hx : x ∈ set f a b l a' b') : x ∈ f a' b' := by
  by_cases hab : a' = a ∧ b' = b
  · rw [hab.1, hab.2, set_self] at hx
    rw [hab.1, hab.2, h]
    exact List.mem_cons_of_mem _ hx
  · rwa [set_of_ne hab] at hx

theorem mem_update_append {f : N → List (N × Arrival)} {n m : N} {e e' : N × Arrival}
    (h : e ∈ Function.update f n (f n ++ [e']) m) : e ∈ f m ∨ m = n ∧ e = e' := by
  rcases eq_or_ne m n with rfl | hne
  · rw [Function.update_self, List.mem_append, List.mem_singleton] at h
    exact h.imp_right fun heq => ⟨rfl, heq⟩
  · rw [Function.update_of_ne hne] at h
    exact .inl h

theorem mem_of_mem_update_tail {α : Type*} {f : N → List α} {n m : N} {e e' : α} {l : List α}
    (h : f n = e' :: l) (he : e ∈ Function.update f n l m) : e ∈ f m := by
  rcases eq_or_ne m n with rfl | hne
  · rw [Function.update_self] at he
    rw [h]
    exact List.mem_cons_of_mem _ he
  · rwa [Function.update_of_ne hne] at he

theorem mem_arrived_of_note {a b : N} {slot u : Nat} (h : (a, .note slot u) ∈ S.cq b) :
    u ∈ S.arrived a b :=
  List.mem_append_right _ (List.mem_filterMap.mpr ⟨_, h, by simp [only, Arrival.noted]⟩)

theorem mem_arrived_of_recv {b : N} {nt : Note N} (h : nt ∈ S.recv b) : nt.uid ∈ S.arrived nt.peer b :=
  List.mem_append_left _ (List.mem_filterMap.mpr ⟨nt, h, by simp⟩)

theorem asks_deliver {a b : N} {r : Req C} {rest : List (Req C)} (h : S.out a b = r :: rest) (a' b' : N) :
    (S.deliver a b r rest).asks a' b' = S.asks a' b' := by
  unfold State.asks State.deliver
  rw [filterMap_set_tail h Req.asked a' b', filterMap_update_append, filterMap_update_append]
  cases r with
  | ask buf =>
    by_cases hb : b' = b <;> by_cases ha : a = a' <;>
      simp [only, Req.arrival, Req.asked, Arrival.asked, Arrival.answered, hb, ha, Ne.symm, eq_comm]
  | write p c u =>
    by_cases hb : b' = b <;> by_cases ha : a = a' <;>
      simp [only, Req.arrival, Req.asked, Arrival.asked, Arrival.answered, hb, ha]

theorem pipe_deliver {a b : N} {r : Req C} {rest : List (Req C)} (h : S.out a b = r :: rest) (a' b' : N) :
    (S.deliver a b r rest).pipe a' b' = S.pipe a' b' := by
  unfold State.pipe State.arrived State.deliver
  rw [filterMap_set_tail h Req.written a' b', filterMap_update_append]
  cases r with
  | ask buf =>
    by_cases hb : b' = b <;> by_cases ha : a = a' <;>
      simp [only, Req.arrival, Req.written, Arrival.noted, hb, ha]
  | write p c u =>
    by_cases hb : b' = b <;> by_cases ha : a = a' <;>
      simp [only, Req.arrival, Req.written, Arrival.noted, hb, ha, eq_comm]

theorem deliver (h : Inv S) {a b : N} {r : Req C} {rest : List (Req C)} (hout : S.out a b = r :: rest) :
    Inv (S.deliver a b r rest) := by
  have hr : r ∈ S.out a b := hout ▸ List.mem_cons_self
  -- the blocks of the messages that wait to be taken stay as they are
  have hkeep : ∀ {a' b' u sl}, u ∈ S.arrived a' b' → Lies S a' b' u sl →
      Lies (S.deliver a b r rest) a' b' u sl := by
    intro a' b' u sl hu hlies
    cases r with
    | ask buf => exact ⟨hlies.item, hlies.slot⟩
    | write p c v =>
      obtain ⟨⟨x, hx, hsrc, hdst, hpeer, hbuf, hmem⟩, hslot⟩ := hlies
      refine ⟨⟨x, hx, hsrc, hdst, hpeer, hbuf, (set_of_ne ?_).trans hmem⟩, hslot⟩
      rintro ⟨rfl, hblk⟩
      exact h.no_clash hr hu ⟨⟨x, hx, hsrc, hdst, hpeer, hbuf, hmem⟩, hslot⟩ hblk
  refine ⟨h.fresh, h.waiting, fun a' b' i => ?_, fun a' b' => ?_, fun a' b' buf p hans => ?_,
    fun a' b' p c u hw => ?_, fun a' b' slot u hn => ?_, fun b' nt hn => ?_, h.blk_inj, h.shared,
    fun a' b' => ?_, h.posted_nodup, h.posted_sent, h.accounted⟩
  · rw [asks_deliver hout]
    exact h.mem_asks a' b' i
  · rw [asks_deliver hout]
    exact h.asks_sorted a' b'
  · refine h.answers a' b' buf p (hans.imp_right fun hcq => ?_)
    rcases mem_update_append hcq with hcq | ⟨-, heq⟩
    · exact hcq
    · cases r <;> cases congrArg Prod.snd heq
  · exact h.writes a' b' p c u (mem_of_mem_set_tail hout hw)
  · rcases mem_update_append hn with hn | ⟨rfl, heq⟩
    · obtain ⟨sl, hsl, hlies⟩ := h.notes a' b' slot u hn
      exact ⟨sl, hsl, hkeep (mem_arrived_of_note hn) hlies⟩
    · cases r with
      | ask buf => cases congrArg Prod.snd heq
      | write p c v =>
        obtain ⟨rfl, hnote⟩ := Prod.mk.inj heq
        obtain ⟨rfl, rfl⟩ := Arrival.note.inj hnote
        obtain ⟨x, hx, hsrc, hdst, rfl, hslot⟩ := h.writes _ _ p c u hr
        exact ⟨_, hslot, ⟨x, hx, hsrc, hdst, rfl, rfl, set_self⟩, p.slot, hslot⟩
  · exact hkeep (mem_arrived_of_recv hn) (h.recv b' nt hn)
  · rw [pipe_deliver hout]
    exact h.fifo a' b'

theorem asks_deliverBack {a b : N} {buf : Nat} {p : Place} {rest : List (Nat × Place)}
    (hback : S.back b a = (buf, p) :: rest) (a' b' : N) :
    (S.deliverBack b a buf p rest).asks a' b' = S.asks a' b' := by
  unfold State.asks State.deliverBack
  rw [filterMap_set_tail hback (fun e => some e.1) b' a', filterMap_update_append, filterMap_update_append]
  by_cases hb : b = b' <;> by_cases ha : a' = a <;>
    simp [only, Arrival.asked, Arrival.answered, hb, ha, eq_comm]

theorem deliverBack (h : Inv S) {a b : N} {buf : Nat} {p : Place} {rest : List (Nat × Place)}
    (hback : S.back b a = (buf, p) :: rest) : Inv (S.deliverBack b a buf p rest) := by
  have hpipe : ∀ a' b', (S.deliverBack b a buf p rest).pipe a' b' = S.pipe a' b' := by
    intro a' b'
    simp [State.pipe, State.arrived, State.deliverBack, filterMap_update_append, only, Arrival.noted]
  refine ⟨h.fresh, h.waiting, fun a' b' i => ?_, fun a' b' => ?_, fun a' b' buf' p' hans => ?_, h.writes,
    fun a' b' slot u hn => ?_, fun b' nt hn => ?_, h.blk_inj, h.shared, fun a' b' => ?_, h.posted_nodup,
    h.posted_sent, h.accounted⟩
  · rw [asks_deliverBack hback]
    exact h.mem_asks a' b' i
  · rw [asks_deliverBack hback]
    exact h.asks_sorted a' b'
  · rcases hans with hans | hans
    · exact h.answers a' b' buf' p' (.inl (mem_of_mem_set_tail hback hans))
    · rcases mem_update_append hans with hans | ⟨rfl, heq⟩
      · exact h.answers a' b' buf' p' (.inr hans)
      · obtain ⟨rfl, hanswer⟩ := Prod.mk.inj heq
        obtain ⟨rfl, rfl⟩ := Arrival.answer.inj hanswer
        exact h.answers _ _ _ _ (.inl (hback ▸ List.mem_cons_self))
  · rcases mem_update_append hn with hn | ⟨-, heq⟩
    · obtain ⟨sl, hsl, hlies⟩ := h.notes a' b' slot u hn
      exact ⟨sl, hsl, hlies.item, hlies.slot⟩
    · cases congrArg Prod.snd heq
  · exact ⟨(h.recv b' nt hn).item, (h.recv b' nt hn).slot⟩
  · rw [hpipe]
    exact h.fifo a' b'

theorem asks_ask {n a : N} {buf : Nat} {p : Place} {c : C} {rest : List (N × Arrival)}
    (hcq : S.cq n = (a, .ask buf) :: rest) (a' b' : N) : (S.ask n a buf p c rest).asks a' b' = S.asks a' b' := by
  unfold State.asks State.ask
  rw [filterMap_update_tail hcq (only b' Arrival.answered) a',
    filterMap_update_tail hcq (only a' Arrival.asked) b', filterMap_set_append]
  by_cases hb : b' = n <;> by_cases ha : a = a' <;>
    simp [only, Arrival.asked, Arrival.answered, hb, ha, eq_comm]

/-- The receiver answers with a slot and a block that nothing uses. -/
theorem ask (h : Inv S) {n a : N} {buf : Nat} {p : Place} {c : C} {rest : List (N × Arrival)}
    (hcq : S.cq n = (a, .ask buf) :: rest) (hslot : S.slots n p.slot = none)
    (hblk : ∀ (i : Nat) sl, S.slots n i = some sl → sl.blk ≠ p.blk) : Inv (S.ask n a buf p c rest) := by
  have hslots : ∀ {b : N} {i : Nat} {sl}, S.slots b i = some sl → (S.ask n a buf p c rest).slots b i = some sl := by
    intro b i sl hsl
    refine (set_of_ne ?_).trans hsl
    rintro ⟨rfl, rfl⟩
    rw [hslot] at hsl
    cases hsl
  have hkeep : ∀ {a' b' u sl}, Lies S a' b' u sl → Lies (S.ask n a buf p c rest) a' b' u sl := by
    rintro a' b' u sl ⟨⟨x, hx, hsrc, hdst, hpeer, hbuf, hmem⟩, i, hi⟩
    refine ⟨⟨x, hx, hsrc, hdst, hpeer, hbuf, (set_of_ne ?_).trans hmem⟩, i, hslots hi⟩
    rintro ⟨rfl, heq⟩
    exact hblk i sl hi heq
  have hpipe : ∀ a' b', (S.ask n a buf p c rest).pipe a' b' = S.pipe a' b' := by
    intro a' b'
    unfold State.pipe State.arrived State.ask
    rw [filterMap_update_tail hcq (only a' Arrival.noted) b']
    simp [only, Arrival.noted]
  refine ⟨h.fresh, h.waiting, fun a' b' i => ?_, fun a' b' => ?_, fun a' b' buf' p' hans => ?_,
    fun a' b' p' c' u hw => ?_, fun a' b' slot u hn => ?_, fun b' nt hn => ?_,
    fun b' i j sl sl' hi hj heq => ?_, h.shared, fun a' b' => ?_, h.posted_nodup, h.posted_sent,
    h.accounted⟩
  · rw [asks_ask hcq]
    exact h.mem_asks a' b' i
  · rw [asks_ask hcq]
    exact h.asks_sorted a' b'
  · rcases hans with hans | hans
    · have hans' : (buf', p') ∈ set S.back n a (S.back n a ++ [(buf, p)]) b' a' := hans
      by_cases hna : b' = n ∧ a' = a
      · obtain ⟨rfl, rfl⟩ := hna
        rw [set_self, List.mem_append, List.mem_singleton] at hans'
        rcases hans' with hans' | heq
        · exact hslots (h.answers a' b' buf' p' (.inl hans'))
        · obtain ⟨rfl, rfl⟩ := Prod.mk.inj heq
          exact set_self
      · rw [set_of_ne hna] at hans'
        exact hslots (h.answers a' b' buf' p' (.inl hans'))
    · exact hslots (h.answers a' b' buf' p' (.inr (mem_of_mem_update_tail hcq hans)))
  · obtain ⟨x, hx, hsrc, hdst, hc, hsl⟩ := h.writes a' b' p' c' u hw
    exact ⟨x, hx, hsrc, hdst, hc, hslots hsl⟩
  · obtain ⟨sl, hsl, hlies⟩ := h.notes a' b' slot u (mem_of_mem_update_tail hcq hn)
    exact ⟨sl, hslots hsl, hkeep hlies⟩
  · exact hkeep (h.recv b' nt hn)
  · -- the new block differs from the others
    have hget : ∀ {i sl}, (S.ask n a buf p c rest).slots b' i = some sl →
        S.slots b' i = some sl ∨ (b' = n ∧ i = p.slot) ∧ sl.blk = p.blk := by
      intro i sl hi
      by_cases hni : b' = n ∧ i = p.slot
      · rw [hni.1, hni.2] at hi
        obtain rfl := Option.some.inj (set_self.symm.trans hi)
        exact .inr ⟨hni, rfl⟩
      · exact .inl ((set_of_ne hni).symm.trans hi)
    rcases hget hi with hi | ⟨⟨rfl, rfl⟩, hib⟩ <;> rcases hget hj with hj | ⟨⟨hn, rfl⟩, hjb⟩
    · exact h.blk_inj b' i j sl sl' hi hj heq
    · exact absurd (heq.trans hjb) (hblk i sl (hn ▸ hi))
    · exact absurd (heq.symm.trans hib) (hblk j sl' hj)
    · rfl
  · rw [hpipe]
    exact h.fifo a' b'

theorem asks_answer {n b : N} {buf : Nat} {p : Place} {c : C} {u : Nat} {rest : List (N × Arrival)}
    (hcq : S.cq n = (b, .answer buf p) :: rest) (a' b' : N) : S.asks a' b' =
      (if a' = n ∧ b' = b then [buf] else []) ++ (S.answer n b buf p c u rest).asks a' b' := by
  rw [State.answer, asks_write]
  unfold State.asks
  rw [filterMap_update_tail hcq (only b' Arrival.answered) a',
    filterMap_update_tail hcq (only a' Arrival.asked) b']
  by_cases ha : a' = n <;> by_cases hb : b = b' <;>
    simp [only, Arrival.asked, Arrival.answered, hb, ha, eq_comm]

theorem answer (h : Inv S) {n b : N} {buf : Nat} {p : Place} {u : Nat} {x : Item N R C}
    {rest : List (N × Arrival)} (hcq : S.cq n = (b, .answer buf p) :: rest)
    (hwait : S.waiting n buf = some u) (hx : S.sent[u]? = some x) :
    Inv (S.answer n b buf p x.content u rest) := by
  have hasks := asks_answer (S := S) (p := p) (c := x.content) (u := u) hcq
  have hpipe : ∀ a' b', (S.answer n b buf p x.content u rest).pipe a' b' =
      S.pipe a' b' ++ if a' = n ∧ b' = b then [u] else [] := by
    intro a' b'
    rw [State.answer, pipe_write]
    unfold State.pipe State.arrived
    rw [filterMap_update_tail hcq (only a' Arrival.noted) b']
    simp [only, Arrival.noted]
  have hasks_nb := hasks n b
  rw [if_pos ⟨rfl, rfl⟩, List.singleton_append] at hasks_nb
  -- the message that waits is one for `b`
  obtain ⟨u', x', hwait', hx', hdst⟩ := (h.mem_asks n b buf).mp (by rw [hasks_nb]; exact List.mem_cons_self)
  obtain rfl : u' = u := Option.some.inj (hwait'.symm.trans hwait)
  obtain rfl : x' = x := Option.some.inj (hx'.symm.trans hx)
  obtain ⟨x'', hx'', hsrc, hbuf⟩ := h.waiting n buf u' hwait
  obtain rfl : x'' = x' := Option.some.inj (hx''.symm.trans hx)
  subst hdst hsrc hbuf
  have hnew : u' ∉ S.posted x''.src x''.dst := fun hu => (h.accounted u' x'' hx).mp hu hwait
  have hgone : ∀ {a i}, ¬ (a = x''.src ∧ i = x''.buf) →
      (S.answer x''.src x''.dst x''.buf p x''.content u' rest).waiting a i = S.waiting a i :=
    fun hne => set_of_ne hne
  have hsorted := h.asks_sorted x''.src x''.dst
  rw [hasks_nb, List.pairwise_cons] at hsorted
  refine ⟨h.fresh, fun a i v hw => ?_, fun a i v => ?_, fun a i => ?_, fun a i buf' p' hans => ?_,
    fun a i p' c' v hw => ?_, fun a i slot v hn => ?_, fun i nt hn => ?_, h.blk_inj, h.shared,
    fun a i => ?_, fun a i => ?_, fun a i v hv => ?_, fun v z hz => ?_⟩
  · by_cases hai : a = x''.src ∧ i = x''.buf
    · rw [hai.1, hai.2] at hw
      cases set_self.symm.trans hw
    · exact h.waiting a i v ((hgone hai).symm.trans hw)
  · -- the buffer that was answered is not asked for again
    have hiff := h.mem_asks a i v
    rw [hasks] at hiff
    by_cases hav : a = x''.src ∧ v = x''.buf
    · obtain ⟨rfl, rfl⟩ := hav
      refine ⟨fun hv => ?_, fun ⟨w, y, hw, _⟩ => ?_⟩
      · exfalso
        obtain ⟨w, y, hw, hy, rfl⟩ := hiff.mp (List.mem_append_right _ hv)
        obtain rfl : w = u' := Option.some.inj (hw.symm.trans hwait)
        obtain rfl : y = x'' := Option.some.inj (hy.symm.trans hx)
        exact Nat.lt_irrefl _ (hsorted.1 _ hv)
      · cases set_self.symm.trans hw
    · rw [hgone hav]
      refine Iff.trans ⟨List.mem_append_right _, fun hv => ?_⟩ hiff
      rcases List.mem_append.mp hv with hv | hv
      · split_ifs at hv with hai
        · exact absurd ⟨hai.1, List.mem_singleton.mp hv⟩ hav
        · cases hv
      · exact hv
  · have := h.asks_sorted a i
    rw [hasks] at this
    exact (List.pairwise_append.mp this).2.1
  · exact h.answers a i buf' p' (hans.imp_right fun hans => mem_of_mem_update_tail hcq hans)
  · rcases mem_out_write hw with hw | ⟨⟨rfl, rfl⟩, heq⟩
    · exact h.writes a i p' c' v hw
    · obtain ⟨rfl, rfl, rfl⟩ := Req.write.inj heq
      exact ⟨x'', hx, rfl, rfl, rfl, h.answers _ _ _ _ (.inr (hcq ▸ List.mem_cons_self))⟩
  · obtain ⟨sl, hsl, hlies⟩ := h.notes a i slot v (mem_of_mem_update_tail hcq hn)
    exact ⟨sl, hsl, hlies.item, hlies.slot⟩
  · exact ⟨(h.recv i nt hn).item, (h.recv i nt hn).slot⟩
  · rw [hpipe, State.answer, posted_write, ← List.append_assoc]
    exact congrArg (· ++ _) (h.fifo a i)
  · rw [State.answer, posted_write]
    split_ifs with hai
    · rw [hai.1, hai.2]
      simpa using (h.posted_nodup x''.src x''.dst).concat hnew
    · rw [List.append_nil]
      exact h.posted_nodup a i
  · rw [State.answer, posted_write, List.mem_append] at hv
    rcases hv with hv | hv
    · exact h.posted_sent a i v hv
    · split_ifs at hv with hai
      · obtain rfl := List.mem_singleton.mp hv
        exact ⟨x'', hx, hai.1.symm, hai.2.symm⟩
      · cases hv
  · rw [State.answer, posted_write, List.mem_append]
    by_cases hzx : z.src = x''.src ∧ z.buf = x''.buf
    · have hnone : (S.answer x''.src x''.dst x''.buf p x''.content u' rest).waiting z.src z.buf = none := by
        rw [hzx.1, hzx.2]
        exact set_self
      refine ⟨fun _ hw => (Option.some_ne_none v) (hw.symm.trans hnone), fun _ => ?_⟩
      rcases eq_or_ne v u' with rfl | hne
      · obtain rfl : z = x'' := Option.some.inj (hz.symm.trans hx)
        exact .inr (by simp)
      · refine .inl ((h.accounted v z hz).mpr ?_)
        rw [hzx.1, hzx.2, hwait]
        exact fun heq => hne (Option.some.inj heq).symm
    · refine Iff.trans ⟨?_, .inl⟩ ((h.accounted v z hz).trans (by rw [← hgone hzx]; rfl))
      rintro (hv | hv)
      · exact hv
      · split_ifs at hv
        · obtain rfl := List.mem_singleton.mp hv
          obtain rfl : z = x'' := Option.some.inj (hz.symm.trans hx)
          exact absurd ⟨rfl, rfl⟩ hzx
        · cases hv

theorem asks_note {n a : N} {slot u : Nat} {nt : Note N} {rest : List (N × Arrival)}
    (hcq : S.cq n = (a, .note slot u) :: rest) (a' b' : N) : (S.note n nt rest).asks a' b' = S.asks a' b' := by
  unfold State.asks State.note
  rw [filterMap_update_tail hcq (only b' Arrival.answered) a',
    filterMap_update_tail hcq (only a' Arrival.asked) b']
  simp [only, Arrival.asked, Arrival.answered]

theorem note (h : Inv S) {n a : N} {slot u : Nat} {sl : Slot N} {rest : List (N × Arrival)}
    (hcq : S.cq n = (a, .note slot u) :: rest) (hslot : S.slots n slot = some sl) :
    Inv (S.note n ⟨a, sl, u⟩ rest) := by
  have hpipe : ∀ a' b', (S.note n ⟨a, sl, u⟩ rest).pipe a' b' = S.pipe a' b' := by
    intro a' b'
    unfold State.pipe State.arrived State.note
    rw [filterMap_update_tail hcq (only a' Arrival.noted) b', filterMap_update_append]
    by_cases hb : b' = n <;> by_cases ha : a = a' <;> simp [only, Arrival.noted, hb, ha]
  refine ⟨h.fresh, h.waiting, fun a' b' i => ?_, fun a' b' => ?_, fun a' b' buf' p' hans => ?_, h.writes,
    fun a' b' slot' v hn => ?_, fun b' nt hn => ?_, h.blk_inj, h.shared, fun a' b' => ?_, h.posted_nodup,
    h.posted_sent, h.accounted⟩
  · rw [asks_note hcq]
    exact h.mem_asks a' b' i
  · rw [asks_note hcq]
    exact h.asks_sorted a' b'
  · exact h.answers a' b' buf' p' (hans.imp_right fun hans => mem_of_mem_update_tail hcq hans)
  · obtain ⟨sl', hsl, hlies⟩ := h.notes a' b' slot' v (mem_of_mem_update_tail hcq hn)
    exact ⟨sl', hsl, hlies.item, hlies.slot⟩
  · have hn' : nt ∈ Function.update S.recv n (S.recv n ++ [⟨a, sl, u⟩]) b' := hn
    have hold : nt ∈ S.recv b' → Lies (S.note n ⟨a, sl, u⟩ rest) nt.peer b' nt.uid nt.slot :=
      fun hn => ⟨(h.recv b' nt hn).item, (h.recv b' nt hn).slot⟩
    rcases eq_or_ne b' n with rfl | hne
    · rw [Function.update_self, List.mem_append, List.mem_singleton] at hn'
      rcases hn' with hn' | rfl
      · exact hold hn'
      · obtain ⟨sl', hsl, hlies⟩ := h.notes a b' slot u (hcq ▸ List.mem_cons_self)
        obtain rfl := Option.some.inj (hsl.symm.trans hslot)
        exact ⟨hlies.item, hlies.slot⟩
    · rw [Function.update_of_ne hne] at hn'
      exact hold hn'
  · rw [hpipe]
    exact h.fifo a' b'

theorem poppedFrom_pop (n : N) (nt : Note N) (rest : List (Note N)) (a b : N) :
    (S.pop n nt rest).poppedFrom a b =
      S.poppedFrom a b ++ if n = b ∧ nt.peer = a then [nt.uid] else [] := by
  unfold State.poppedFrom State.pop
  rw [List.filterMap_append]
  split_ifs with h <;> simp [h]

theorem pop (h : Inv S) {n : N} {nt : Note N} {rest : List (Note N)} (hrecv : S.recv n = nt :: rest) :
    Inv (S.pop n nt rest) := by
  have hpipe : ∀ a b, S.pipe a b = (if n = b ∧ nt.peer = a then [nt.uid] else []) ++
      (S.pop n nt rest).pipe a b := by
    intro a b
    unfold State.pipe State.arrived State.pop
    rw [filterMap_update_tail hrecv _ b]
    by_cases hb : b = n
    · subst hb
      by_cases ha : nt.peer = a <;> simp [ha]
    · simp [hb, Ne.symm hb]
  refine ⟨h.fresh, h.waiting, h.mem_asks, h.asks_sorted, h.answers, h.writes, fun a b slot u hn => ?_,
    fun b nt' hn => ?_, h.blk_inj, fun u v x y hx hy hsrc hbuf huv => ?_, fun a b => ?_, h.posted_nodup,
    h.posted_sent, h.accounted⟩
  · obtain ⟨sl, hsl, hlies⟩ := h.notes a b slot u hn
    exact ⟨sl, hsl, hlies.item, hlies.slot⟩
  · have hlies := h.recv b nt' (mem_of_mem_update_tail hrecv hn)
    exact ⟨hlies.item, hlies.slot⟩
  · obtain ⟨hpop, hrest⟩ := h.shared u v x y hx hy hsrc hbuf huv
    rw [poppedFrom_pop]
    exact ⟨List.mem_append_left _ hpop, hrest⟩
  · rw [poppedFrom_pop, List.append_assoc, ← hpipe]
    exact h.fifo a b

theorem step (h : Inv S) (hs : Step S S') : Inv S' := by
  cases hs with
  | first x hbuf => exact h.first hbuf
  | cached x y v p hy hsrc hdst hroute hbuf hslot hreuse =>
    exact h.cached hy hsrc hdst hroute hbuf hslot hreuse
  | deliver a b r rest hout => exact h.deliver hout
  | deliverBack b a buf p rest hback => exact h.deliverBack hback
  | ask n a buf p c rest hcq hslot hblk => exact h.ask hcq hslot hblk
  | answer n b buf p u x rest hcq hwait hx => exact h.answer hcq hwait hx
  | note n a slot u sl rest hcq hslot => exact h.note hcq hslot
  | pop n nt rest hrecv => exact h.pop hrecv

theorem init (c : C) : Inv (State.init c : State N R C) := by
  constructor <;> simp [State.init, State.asks, State.pipe, State.arrived, State.poppedFrom]

theorem poppedFrom_nodup (h : Inv S) (a b : N) : (S.poppedFrom a b).Nodup := by
  have hnodup := h.posted_nodup a b
  rw [h.fifo] at hnodup
  exact hnodup.of_append_left

theorem route_eq (h : Inv S) {u v : Nat} {x y : Item N R C} (hx : S.sent[u]? = some x) (hy : S.sent[v]? = some y)
    (hsrc : x.src = y.src) (hbuf : x.buf = y.buf) : x.dst = y.dst ∧ x.route = y.route := by
  rcases Nat.lt_trichotomy u v with huv | rfl | hvu
  · exact (h.shared u v x y hx hy hsrc hbuf huv).2
  · obtain rfl := Option.some.inj (hx.symm.trans hy)
    exact ⟨rfl, rfl⟩
  · obtain ⟨-, hdst, hroute⟩ := h.shared v u y x hy hx hsrc.symm hbuf.symm hvu
    exact ⟨hdst.symm, hroute.symm⟩

/-- No message is lost: it has been taken, is on its way, or waits for an answer that is. -/
theorem popped_or_under_way (h : Inv S) {u : Nat} {x : Item N R C} (hx : S.sent[u]? = some x) :
    u ∈ S.poppedFrom x.src x.dst ∨ u ∈ S.pipe x.src x.dst ∨ x.buf ∈ S.asks x.src x.dst := by
  by_cases hw : S.waiting x.src x.buf = some u
  · exact .inr (.inr ((h.mem_asks _ _ _).mpr ⟨u, x, hw, hx, rfl⟩))
  · have hu := (h.accounted u x hx).mpr hw
    rw [h.fifo, List.mem_append] at hu
    exact hu.imp_right .inl

end Inv

end Rendezvous
