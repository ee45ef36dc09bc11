import Mathlib.Data.Option.Basic
import Mathlib.Logic.Function.Basic
import StepMesh.Lib.Run

/-!
# Connecting the queue pairs (`src/rdma_van.h`, `src/rdma_transport.h`)

An `Endpoint` has two queue pairs. `Connect` creates their `cm_id`s on the client, `OnConnectRequest`
stores them on the server, and the handlers of the connection-manager events, all run by the thread
`PollEvents`, follow the two handshakes. One counter, `inComingCount`, says which slot the next
handler acts on: connect requests, resolved routes and established connections all advance it, and a
rejection does not.

The events of one pair come in their own order (`Pair`), those of different pairs and endpoints in
any. Everything is right exactly as long as the counter happens to stand at the slot of each pair that
is established (`connections_good_iff`).
-/

namespace StepMesh.RdmaConnect

inductive ConnectionStatus
  | idle | connecting | connected | rejected
deriving DecidableEq, Repr

def qpNum : Nat := 2

/-- A `cm_id` is a number. -/
structure Endpoint where
  statusList : Nat → ConnectionStatus := fun _ => .idle
  cmIds : Nat → Option Nat := fun _ => none
  inComingCount : Nat := 0

namespace Endpoint

/-- All are `s`, or, where `eq` is false, none is. -/
def getAllStatus (ep : Endpoint) (s : ConnectionStatus) (eq : Bool) : Bool :=
  (List.range qpNum).all fun k => if eq then s = ep.statusList k else s ≠ ep.statusList k

def setStatus (ep : Endpoint) (id : Nat) (s : ConnectionStatus) : Endpoint :=
  { ep with statusList := fun k =>
      if k < qpNum ∧ ep.cmIds k = some id then s else ep.statusList k }

/-- `inComingCount++`, and back to zero at the number of queue pairs. -/
def advance (ep : Endpoint) : Endpoint :=
  { ep with
    inComingCount := if ep.inComingCount + 1 = qpNum then 0 else ep.inComingCount + 1 }

def onRejected (ep : Endpoint) (id : Nat) : Endpoint := ep.setStatus id .rejected

def onConnectRequest (ep : Endpoint) (id : Nat) : Endpoint :=
  { ep with cmIds := Function.update ep.cmIds ep.inComingCount (some id) }.advance

def onRouteResolved (ep : Endpoint) : Endpoint := ep.advance

def onConnected (ep : Endpoint) : Endpoint :=
  { ep with statusList := Function.update ep.statusList ep.inComingCount .connected }.advance

/-- `Connect` creates a new `cm_id` in slot `k`. -/
def creates (ep : Endpoint) (k : Nat) : Bool :=
  k < qpNum ∧ ep.statusList k ≠ .connecting ∧ ep.statusList k ≠ .connected

/-- The body of the loop of `Connect`; the new `cm_id`s are `id, id + 1, …`. -/
def connect (ep : Endpoint) (id : Nat) : Endpoint :=
  { ep with
    cmIds := fun k => if ep.creates k then some (id + k) else ep.cmIds k
    statusList := fun k => if ep.creates k then .connecting else ep.statusList k }

end Endpoint

/-! ### Runs -/

inductive Side
  | client | server
deriving DecidableEq, Repr

/-- Where the handshake of a queue pair stands: `opened` after its route is resolved or its connect
request has arrived. -/
inductive Pair
  | fresh | created | opened | established | refused
deriving DecidableEq, Repr

/-- An endpoint with its queue pairs and the `cm_id` each of them has. -/
structure Conn where
  ep : Endpoint := {}
  pairs : Nat → Pair := fun _ => .fresh
  ids : Nat → Nat := fun _ => 0
  nextId : Nat := 0

inductive Event
  /-- a round of the loop of `Connect` -/
  | connect
  | routeResolved (k : Nat)
  | connectRequest (k : Nat)
  | established (k : Nat)
  | rejected (k : Nat)
deriving DecidableEq, Repr

/-- The event advances the counter. -/
def Event.advances : Event → Bool
  | .routeResolved _ | .connectRequest _ | .established _ => true
  | .connect | .rejected _ => false

/-- The guards are the order of the events of one pair; the server numbers its pairs as their requests
arrive. -/
def Conn.step (side : Side) (c : Conn) : Event → Option Conn
  | .connect => do
    guard (side = .client ∧ c.ep.getAllStatus .connecting false ∧
      ¬ c.ep.getAllStatus .connected true)
    return {
      ep := c.ep.connect c.nextId
      pairs := fun k => if c.ep.creates k then .created else c.pairs k
      ids := fun k => if c.ep.creates k then c.nextId + k else c.ids k
      nextId := c.nextId + qpNum }
  | .routeResolved k => do
    guard (side = .client ∧ k < qpNum ∧ c.pairs k = .created)
    return { c with ep := c.ep.onRouteResolved, pairs := Function.update c.pairs k .opened }
  | .connectRequest k => do
    guard (side = .server ∧ k < qpNum ∧ c.pairs k = .fresh ∧ ∀ j < k, c.pairs j ≠ .fresh)
    return {
      ep := c.ep.onConnectRequest c.nextId
      pairs := Function.update c.pairs k .opened
      ids := Function.update c.ids k c.nextId
      nextId := c.nextId + 1 }
  | .established k => do
    guard (k < qpNum ∧ c.pairs k = .opened)
    return { c with ep := c.ep.onConnected, pairs := Function.update c.pairs k .established }
  | .rejected k => do
    guard (side = .client ∧ k < qpNum ∧ c.pairs k = .opened)
    return { c with ep := c.ep.onRejected (c.ids k), pairs := Function.update c.pairs k .refused }

variable {ι : Type*} [DecidableEq ι]

/-- Any number of endpoints, each on its side. -/
def step (side : ι → Side) (s : ι → Conn) (a : ι × Event) : Option (ι → Conn) :=
  ((s a.1).step (side a.1) a.2).map fun c => Function.update s a.1 c

/-- Every pair has its `cm_id` in its slot, none is marked connected before it is established, and
when all are established all are marked so. -/
structure Good (c : Conn) : Prop where
  slots : ∀ k < qpNum, c.pairs k ≠ .fresh → c.ep.cmIds k = some (c.ids k)
  connected : ∀ k < qpNum, c.ep.statusList k = .connected → c.pairs k = .established
  complete : (∀ k < qpNum, c.pairs k = .established) → c.ep.getAllStatus .connected true

/-! ### The invariant -/

/-- An endpoint after `n` events that advance the counter. -/
structure Inv (side : Side) (c : Conn) (n : Nat) : Prop where
  count : c.ep.inComingCount = n % 2
  connected : ∀ k < qpNum, c.ep.statusList k = .connected ↔ c.pairs k = .established
  slots : ∀ k < qpNum, c.pairs k ≠ .fresh → c.ep.cmIds k = some (c.ids k)
  empty : ∀ k < qpNum, c.pairs k = .fresh → c.ep.cmIds k = none
  below : ∀ k < qpNum, c.pairs k ≠ .fresh → c.ids k < c.nextId
  distinct : ∀ j < qpNum, ∀ k < qpNum, j ≠ k → c.pairs j ≠ .fresh → c.pairs k ≠ .fresh →
    c.ids j ≠ c.ids k
  /-- on the server the second request comes right after the first -/
  server : side = .server → c.pairs 0 = .fresh ∧ c.pairs 1 = .fresh ∧ n = 0 ∨
    c.pairs 0 = .opened ∧ c.pairs 1 = .fresh ∧ n = 1 ∨ c.pairs 0 ≠ .fresh ∧ c.pairs 1 ≠ .fresh

variable {side : Side} {c c' : Conn} {n k : Nat}

theorem inv_init : Inv side {} 0 where
  count := rfl
  connected _ _ := by simp
  slots _ _ h := absurd rfl h
  empty _ _ _ := rfl
  below _ _ h := absurd rfl h
  distinct _ _ _ _ _ h := absurd rfl h
  server _ := .inl ⟨rfl, rfl, rfl⟩

theorem advance_count {ep : Endpoint} (h : ep.inComingCount = n % 2) :
    ep.advance.inComingCount = (n + 1) % 2 := by
  show (if ep.inComingCount + 1 = 2 then 0 else ep.inComingCount + 1) = _
  split <;> omega

theorem Inv.good (h : Inv side c n) : Good c where
  slots := h.slots
  connected k hk := (h.connected k hk).mp
  complete hall := by
    simp only [Endpoint.getAllStatus, List.all_eq_true, List.mem_range, if_true, decide_eq_true_iff]
    exact fun k hk => ((h.connected k hk).mpr (hall k hk)).symm

theorem Inv.connect (h : Inv side c n) (hs : c.step side .connect = some c') : Inv side c' n := by
  obtain ⟨_, hg, hs⟩ := Option.bind_eq_some_iff.mp hs
  obtain ⟨hside, hnone, -⟩ := (Option.guard_eq_some' _).mp hg
  obtain rfl := Option.some.inj hs
  -- a slot that keeps its `cm_id` belongs to a pair that is established
  have hkeep : ∀ k < qpNum, c.ep.creates k = false → c.pairs k = .established := fun k hk hcreate => by
    simp only [Endpoint.getAllStatus, List.all_eq_true, List.mem_range, Bool.false_eq_true, if_false,
      decide_eq_true_iff] at hnone
    refine (h.connected k hk).mp ?_
    by_contra hne
    exact absurd hcreate (by simp [Endpoint.creates, hk, hne, (hnone k hk).symm])
  refine ⟨h.count, fun k hk => ?_, fun k hk hp => ?_, fun k hk hp => ?_, fun k hk hp => ?_,
    fun j hj k hk hjk hpj hpk => ?_, fun hserver => ?_⟩
  · cases hc : c.ep.creates k with
    | true => simp [Endpoint.connect, hc]
    | false => simpa [Endpoint.connect, hc] using h.connected k hk
  · cases hc : c.ep.creates k with
    | true => simp [Endpoint.connect, hc]
    | false => simpa [Endpoint.connect, hc] using h.slots k hk (by simp [hkeep k hk hc])
  · cases hc : c.ep.creates k with
    | true => simp [hc] at hp
    | false => simp [hc, hkeep k hk hc] at hp
  · cases hc : c.ep.creates k with
    | true => simpa [hc] using hk
    | false =>
      have := h.below k hk (by simp [hkeep k hk hc])
      simp only [hc]
      show c.ids k < c.nextId + qpNum
      omega
  · have hold : ∀ i < qpNum, c.ep.creates i = false → c.ids i < c.nextId := fun i hi hc =>
      h.below i hi (by simp [hkeep i hi hc])
    cases hcj : c.ep.creates j <;> cases hck : c.ep.creates k <;> simp only [hcj, hck]
    · exact h.distinct j hj k hk hjk (by simp [hkeep j hj hcj]) (by simp [hkeep k hk hck])
    · have := hold j hj hcj
      show c.ids j ≠ c.nextId + k
      omega
    · have := hold k hk hck
      show c.nextId + j ≠ c.ids k
      omega
    · show c.nextId + j ≠ c.nextId + k
      omega
  · simp [hside] at hserver

theorem Inv.move (h : Inv side c n) {ep : Endpoint} {x : Pair} {n' : Nat}
    (hp : c.pairs k ≠ .fresh) (hx : x ≠ .fresh) (hcm : ep.cmIds = c.ep.cmIds)
    (hcount : ep.inComingCount = n' % 2)
    (hconn : ∀ j < qpNum, ep.statusList j = .connected ↔ Function.update c.pairs k x j = .established)
    (hserver : side = .server → c.pairs 0 ≠ .fresh ∧ c.pairs 1 ≠ .fresh) :
    Inv side { c with ep := ep, pairs := Function.update c.pairs k x } n' := by
  have hfresh : ∀ j, Function.update c.pairs k x j = .fresh ↔ c.pairs j = .fresh := fun j => by
    by_cases hj : j = k
    · subst hj
      simp [hp, hx]
    · simp [hj]
  refine ⟨hcount, hconn, fun j hj hf => ?_, fun j hj hf => ?_, fun j hj hf => ?_,
    fun i hi j hj hij hfi hfj => ?_, fun hside => .inr (.inr ?_)⟩
  · rw [hcm]
    exact h.slots j hj (mt (hfresh j).mpr hf)
  · rw [hcm]
    exact h.empty j hj ((hfresh j).mp hf)
  · exact h.below j hj (mt (hfresh j).mpr hf)
  · exact h.distinct i hi j hj hij (mt (hfresh i).mpr hfi) (mt (hfresh j).mpr hfj)
  · exact (hserver hside).imp (mt (hfresh 0).mp) (mt (hfresh 1).mp)

theorem Inv.routeResolved (h : Inv side c n) (hs : c.step side (.routeResolved k) = some c') :
    Inv side c' (n + 1) := by
  obtain ⟨_, hg, hs⟩ := Option.bind_eq_some_iff.mp hs
  obtain ⟨hside, hk, hpair⟩ := (Option.guard_eq_some' _).mp hg
  obtain rfl := Option.some.inj hs
  refine h.move (by simp [hpair]) (by simp) rfl (advance_count h.count) (fun j hj => ?_) (by simp [hside])
  show c.ep.statusList j = .connected ↔ _
  rw [h.connected j hj]
  by_cases hjk : j = k
  · subst hjk
    simp [hpair]
  · simp [hjk]

theorem Inv.rejected (h : Inv side c n) (hs : c.step side (.rejected k) = some c') :
    Inv side c' n := by
  obtain ⟨_, hg, hs⟩ := Option.bind_eq_some_iff.mp hs
  obtain ⟨hside, hk, hpair⟩ := (Option.guard_eq_some' _).mp hg
  obtain rfl := Option.some.inj hs
  refine h.move (by simp [hpair]) (by simp) rfl h.count (fun j hj => ?_) (by simp [hside])
  by_cases hjk : j = k
  · subst hjk
    have hslot := h.slots j hj (by simp [hpair])
    simp [Endpoint.onRejected, Endpoint.setStatus, hj, hslot]
  · have hother : c.ep.cmIds j ≠ some (c.ids k) := fun heq => by
      by_cases hfresh : c.pairs j = .fresh
      · rw [h.empty j hj hfresh] at heq
        simp at heq
      · rw [h.slots j hj hfresh, Option.some_inj] at heq
        exact h.distinct j hj k hk hjk hfresh (by simp [hpair]) heq
    simpa [Endpoint.onRejected, Endpoint.setStatus, hother, hjk] using h.connected j hj

theorem Inv.established (h : Inv side c n) (hn : n % 2 = k)
    (hs : c.step side (.established k) = some c') : Inv side c' (n + 1) := by
  obtain ⟨_, hg, hs⟩ := Option.bind_eq_some_iff.mp hs
  obtain ⟨hk, hpair⟩ := (Option.guard_eq_some' _).mp hg
  obtain rfl := Option.some.inj hs
  refine h.move (by simp [hpair]) (by simp) rfl (advance_count h.count) (fun j hj => ?_)
    fun hside => ?_
  · show Function.update c.ep.statusList c.ep.inComingCount .connected j = .connected ↔ _
    rw [h.count, hn]
    by_cases hjk : j = k
    · subst hjk
      simp
    · simpa [hjk] using h.connected j hj
  · rcases h.server hside with ⟨h0, h1, rfl⟩ | ⟨h0, h1, rfl⟩ | hboth
    · obtain rfl : 0 = k := hn
      simp [h0] at hpair
    · obtain rfl : 1 = k := hn
      simp [h1] at hpair
    · exact hboth

theorem Inv.connectRequest (h : Inv side c n) (hs : c.step side (.connectRequest k) = some c') :
    Inv side c' (n + 1) := by
  obtain ⟨_, hg, hs⟩ := Option.bind_eq_some_iff.mp hs
  obtain ⟨hside, hk, hpair, hbefore⟩ := (Option.guard_eq_some' _).mp hg
  obtain rfl := Option.some.inj hs
  have hk' : k = 0 ∨ k = 1 := by simp only [qpNum] at hk; omega
  -- the counter stands at the slot of the new pair
  have hslot : c.ep.inComingCount = k := by
    rw [h.count]
    rcases h.server hside with ⟨h0, h1, rfl⟩ | ⟨h0, h1, rfl⟩ | ⟨h0, h1⟩
    · rcases hk' with rfl | rfl
      · rfl
      · exact absurd h0 (hbefore 0 (by omega))
    · rcases hk' with rfl | rfl
      · simp [h0] at hpair
      · rfl
    · rcases hk' with rfl | rfl
      · exact absurd hpair h0
      · exact absurd hpair h1
  refine ⟨advance_count h.count, fun j hj => ?_, fun j hj hf => ?_, fun j hj hf => ?_,
    fun j hj hf => ?_, fun i hi j hj hij hfi hfj => ?_, fun _ => ?_⟩
  · show c.ep.statusList j = .connected ↔ _
    rw [h.connected j hj]
    by_cases hjk : j = k
    · subst hjk
      simp [hpair]
    · simp [hjk]
  · show Function.update c.ep.cmIds c.ep.inComingCount (some c.nextId) j = _
    rw [hslot]
    by_cases hjk : j = k
    · subst hjk
      simp
    · simpa [hjk] using h.slots j hj (by simpa [hjk] using hf)
  · show Function.update c.ep.cmIds c.ep.inComingCount (some c.nextId) j = _
    rw [hslot]
    by_cases hjk : j = k
    · subst hjk
      simp at hf
    · simpa [hjk] using h.empty j hj (by simpa [hjk] using hf)
  · by_cases hjk : j = k
    · subst hjk
      simp
    · have := h.below j hj (by simpa [hjk] using hf)
      simp only [Function.update_of_ne hjk]
      omega
  · by_cases hik : i = k
    · subst hik
      have := h.below j hj (by simpa [Ne.symm hij] using hfj)
      simp only [Function.update_self, Function.update_of_ne (Ne.symm hij)]
      omega
    · by_cases hjk : j = k
      · subst hjk
        have := h.below i hi (by simpa [hik] using hfi)
        simp only [Function.update_self, Function.update_of_ne hik]
        omega
      · simpa [hik, hjk] using h.distinct i hi j hj hij (by simpa [hik] using hfi)
          (by simpa [hjk] using hfj)
  · rcases h.server hside with ⟨h0, h1, rfl⟩ | ⟨h0, h1, rfl⟩ | ⟨h0, h1⟩
    · rcases hk' with rfl | rfl
      · exact .inr (.inl ⟨by simp, by simpa using h1, rfl⟩)
      · exact absurd h0 (hbefore 0 (by omega))
    · rcases hk' with rfl | rfl
      · simp [h0] at hpair
      · exact .inr (.inr ⟨by simp [h0], by simp⟩)
    · rcases hk' with rfl | rfl
      · exact absurd hpair h0
      · exact absurd hpair h1

/-! ### Runs of many endpoints -/

/-- The events of `i` that have advanced its counter. -/
def advances (i : ι) (run : List (ι × Event)) : Nat :=
  run.countP fun a => a.1 = i && a.2.advances

/-- Whenever a pair is established, the counter stands at its slot. -/
def EstablishedInTurn (run : List (ι × Event)) : Prop :=
  ∀ before i k, before ++ [(i, .established k)] <+: run → advances i before % 2 = k

theorem inv_step (h : Inv side c n) {e : Event} (he : ∀ k, e = .established k → n % 2 = k)
    (hs : c.step side e = some c') : Inv side c' (n + if e.advances then 1 else 0) := by
  cases e with
  | connect => exact h.connect hs
  | routeResolved k => exact h.routeResolved hs
  | connectRequest k => exact h.connectRequest hs
  | established k => exact h.established (he k rfl) hs
  | rejected k => exact h.rejected hs

theorem advances_snoc (i : ι) (run : List (ι × Event)) (a : ι × Event) :
    advances i (run ++ [a]) = advances i run + if a.1 = i ∧ a.2.advances then 1 else 0 := by
  simp [advances, List.countP_append, List.countP_singleton]

theorem inv_exec {side : ι → Side} {run : List (ι × Event)} {s : ι → Conn}
    (hrun : EstablishedInTurn run) (hs : Run.exec (step side) (fun _ => {}) run = some s) (i : ι) :
    Inv (side i) (s i) (advances i run) := by
  refine Run.exec_induction (fun run s => ∀ i, Inv (side i) (s i) (advances i run)) EstablishedInTurn
    ?_ (fun _ => inv_init) ?_ hrun hs i
  · exact fun as a h before i k hpre => h before i k (hpre.trans (List.prefix_append _ _))
  · intro as a t t' hturn h hstep i
    obtain ⟨c, hc, rfl⟩ := Option.map_eq_some_iff.mp hstep
    rw [advances_snoc]
    by_cases hi : a.1 = i
    · subst hi
      rw [Function.update_self]
      have hinv := inv_step (h a.1) (fun k hk => hturn as a.1 k (hk ▸ List.prefix_refl _)) hc
      simpa using hinv
    · simpa [hi, Ne.symm hi] using h i

theorem count_step (h : c.ep.inComingCount = n % 2) {e : Event} (hs : c.step side e = some c') :
    c'.ep.inComingCount = (n + if e.advances then 1 else 0) % 2 := by
  cases e with
  | connect | rejected =>
    obtain ⟨_, -, hs⟩ := Option.bind_eq_some_iff.mp hs
    obtain rfl := Option.some.inj hs
    exact h
  | routeResolved | connectRequest | established =>
    obtain ⟨_, -, hs⟩ := Option.bind_eq_some_iff.mp hs
    obtain rfl := Option.some.inj hs
    exact advance_count h

/-- The counter runs through the slots whatever the order of the events. -/
theorem count_exec {side : ι → Side} {run : List (ι × Event)} {s : ι → Conn}
    (hs : Run.exec (step side) (fun _ => {}) run = some s) (i : ι) :
    (s i).ep.inComingCount = advances i run % 2 := by
  refine Run.exec_invariant_of_inputs (fun run s => ∀ i, (s i).ep.inComingCount = advances i run % 2)
    (fun _ => rfl) ?_ hs i
  intro as a t t' h hstep i
  obtain ⟨c, hc, rfl⟩ := Option.map_eq_some_iff.mp hstep
  rw [advances_snoc]
  by_cases hi : a.1 = i
  · subst hi
    simpa using count_step (h a.1) hc
  · simpa [hi, Ne.symm hi] using h i

/-- A pair established out of turn: the other slot is marked. -/
theorem not_good_of_established (hgood : Good c) (hcount : c.ep.inComingCount < qpNum)
    (hne : c.ep.inComingCount ≠ k) (hs : c.step side (.established k) = some c') : ¬ Good c' := by
  intro hgood'
  obtain ⟨_, hg, hs⟩ := Option.bind_eq_some_iff.mp hs
  obtain ⟨hk, hpair⟩ := (Option.guard_eq_some' _).mp hg
  obtain rfl := Option.some.inj hs
  have hother : c.pairs c.ep.inComingCount = .established := by
    have hmarked := hgood'.connected _ hcount (Function.update_self ..)
    simpa [hne] using hmarked
  have hall : ∀ j < qpNum, Function.update c.pairs k .established j = .established := fun j hj => by
    by_cases hjk : j = k
    · simp [hjk]
    · obtain rfl : j = c.ep.inComingCount := by simp only [qpNum] at hj hk hcount; omega
      simpa [hjk] using hother
  have hmark := hgood'.complete hall
  simp only [Endpoint.getAllStatus, List.all_eq_true, List.mem_range, if_true,
    decide_eq_true_iff] at hmark
  have hmark : .connected = Function.update c.ep.statusList c.ep.inComingCount .connected k := hmark k hk
  rw [Function.update_of_ne (Ne.symm hne)] at hmark
  simp [hgood.connected k hk hmark.symm] at hpair

/-- All endpoints are in order all along the run exactly when every pair is established in turn: at
that moment the number of connect requests, resolved routes and established connections of its
endpoint so far has the parity of its slot. -/
theorem connections_good_iff (side : ι → Side) (run : List (ι × Event)) (s : ι → Conn)
    (hs : Run.exec (step side) (fun _ => {}) run = some s) :
    (∀ before t, before <+: run → Run.exec (step side) (fun _ => {}) before = some t →
      ∀ i, Good (t i)) ↔ EstablishedInTurn run := by
  constructor
  · intro hgood before i k hpre
    obtain ⟨t', ht'⟩ := Run.exec_of_prefix hs hpre
    obtain ⟨t, ht, hstep⟩ := Run.exec_snoc_eq_some.mp ht'
    by_contra hne
    have hcount := count_exec ht i
    have hlt : (t i).ep.inComingCount < qpNum := by rw [hcount]; exact Nat.mod_lt _ (by decide)
    obtain ⟨c, hc, rfl⟩ := Option.map_eq_some_iff.mp hstep
    refine not_good_of_established (hgood before t ((List.prefix_append _ _).trans hpre) ht i) hlt
      (hcount ▸ hne) hc ?_
    simpa using hgood _ _ hpre ht' i
  · intro hturn before t hpre ht i
    exact (inv_exec (fun b i k hb => hturn b i k (hb.trans hpre)) ht i).good

/-- `EstablishedInTurn` for the `n`-th event, as a computation. -/
def inTurn (run : List (ι × Event)) (n : Nat) : Bool :=
  match run[n]? with
  | some (i, .established k) => advances i (run.take n) % 2 = k
  | _ => true

theorem establishedInTurn_of_inTurn {run : List (ι × Event)} (h : ∀ n < run.length, inTurn run n) :
    EstablishedInTurn run := by
  rintro before i k ⟨rest, rfl⟩
  have hn := h before.length (by simp)
  simpa [inTurn] using hn

/-- Both routes are resolved, one attempt is turned down as a whole, the next goes through. -/
def sampleRun : List (Unit × Event) :=
  [.connect, .routeResolved 1, .routeResolved 0, .rejected 0, .rejected 1, .connect,
    .routeResolved 0, .routeResolved 1, .established 0, .established 1].map fun e => ((), e)

theorem connections_good_iff_sample :
    ∃ s, Run.exec (step fun _ => .client) (fun _ : Unit => {}) sampleRun = some s ∧
      Good (s ()) ∧ (s ()).ep.getAllStatus .connected true := by
  have heval : (Run.exec (step fun _ => .client) (fun _ : Unit => {}) sampleRun).map
      (fun s => (s ()).ep.getAllStatus .connected true) = some true := by decide
  obtain ⟨s, hs, hall⟩ := Option.map_eq_some_iff.mp heval
  have hgood := (connections_good_iff (fun _ => .client) sampleRun s hs).mpr
    (establishedInTurn_of_inTurn (by decide)) sampleRun s (List.prefix_refl _) hs
  exact ⟨s, hs, hgood (), hall⟩

/-- The first pair is through before the second has its route: the second is marked connected, and
when it is established itself the first still is not. -/
theorem first_pair_marks_second :
    ∃ t s, Run.exec (step fun _ => .client) (fun _ : Unit => {})
        ([.connect, .routeResolved 0, .established 0].map fun e => ((), e)) = some t ∧
      (t ()).ep.statusList 1 = .connected ∧ (t ()).pairs 1 = .created ∧
      Run.exec (step fun _ => .client) t
        ([.routeResolved 1, .established 1].map fun e => ((), e)) = some s ∧
      (∀ k < qpNum, (s ()).pairs k = .established) ∧ (s ()).ep.statusList 0 = .connecting := by
  refine ⟨_, _, rfl, ?_, ?_, rfl, ?_, ?_⟩
  all_goals decide

end StepMesh.RdmaConnect
