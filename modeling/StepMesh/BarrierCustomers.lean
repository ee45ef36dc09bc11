import StepMesh.Barrier
import StepMesh.Lib.ListAux

/-!
# Releasing the customers of a node (`Postoffice::Manage`, `src/postoffice.cc`)

`barrier_done_[0]` has an entry for every customer that `AddCustomer` has registered or that has called
`DoBarrier`, under the id of the customer. `Manage` counts from 0 to the number of entries instead of going
through them. So one answer releases everybody who waits, without making up an entry, exactly if the ids are
0, 1, 2 and so on without a gap (`release_iff_ids_consecutive`).
-/

namespace StepMesh

/-! ### The map of a node -/

section setDone
variable {done : List (Int × Bool)} {c c' : Int} {b : Bool}

/-- The ids that have an entry. -/
def entryIds (done : List (Int × Bool)) : List Int := done.map (·.1)

theorem lookup_isSome_iff : (done.lookup c).isSome ↔ c ∈ entryIds done := by
  induction done with
  | nil => simp [entryIds]
  | cons e done ih =>
    rw [List.lookup_cons, entryIds, List.map_cons, List.mem_cons]
    by_cases hc : c = e.1
    · simp [hc]
    · rw [beq_eq_false_iff_ne.mpr hc, ← entryIds]
      simpa only [hc, false_or] using ih

theorem entryIds_setDone (done : List (Int × Bool)) (c : Int) (b : Bool) :
    entryIds (setDone done c b) = if c ∈ entryIds done then entryIds done else entryIds done ++ [c] := by
  unfold setDone
  by_cases hc : c ∈ entryIds done
  · rw [if_pos (lookup_isSome_iff.mpr hc), if_pos hc, entryIds, List.map_map]
    refine List.map_congr_left fun e _ => ?_
    simp only [Function.comp_apply]
    split_ifs <;> rfl
  · rw [if_neg (mt lookup_isSome_iff.mp hc), if_neg hc, entryIds, List.map_append]
    rfl

theorem mem_entryIds_setDone : c' ∈ entryIds (setDone done c b) ↔ c' ∈ entryIds done ∨ c' = c := by
  rw [entryIds_setDone]
  split_ifs with hc
  · constructor
    · exact .inl
    · rintro (h | rfl)
      · exact h
      · exact hc
  · simp

theorem lookup_setDone_of_ne (hne : c' ≠ c) : (setDone done c b).lookup c' = done.lookup c' := by
  unfold setDone
  split_ifs with h
  · clear h
    induction done with
    | nil => rfl
    | cons e done ih =>
      rw [List.map_cons, List.lookup_cons, List.lookup_cons, ih]
      by_cases he : e.1 = c
      · rw [if_pos he, he, beq_eq_false_iff_ne.mpr hne]
      · rw [if_neg he]
  · rw [List.lookup_append, List.lookup_cons, beq_eq_false_iff_ne.mpr hne, List.lookup_nil, Option.or_none]

/-- The loop of `Manage` over `k` ids. -/
def release (k : Nat) (done : List (Int × Bool)) : List (Int × Bool) :=
  (List.range k).foldl (fun done (i : Nat) => setDone done i true) done

theorem release_succ (k : Nat) (done : List (Int × Bool)) : release (k + 1) done = setDone (release k done) k true := by
  rw [release, List.range_succ, List.foldl_append]
  rfl

theorem lookup_release (k : Nat) (done : List (Int × Bool)) (c : Int) :
    (release k done).lookup c = if 0 ≤ c ∧ c < k then some true else done.lookup c := by
  induction k with
  | zero =>
    rw [if_neg (by omega)]
    rfl
  | succ k ih =>
    rw [release_succ]
    rcases eq_or_ne c k with rfl | hne
    · rw [lookup_setDone, if_pos (by omega)]
    · rw [lookup_setDone_of_ne hne, ih]
      refine if_congr ?_ rfl rfl
      omega

theorem mem_entryIds_release {k : Nat} : c ∈ entryIds (release k done) ↔ c ∈ entryIds done ∨ 0 ≤ c ∧ c < k := by
  rw [← lookup_isSome_iff, lookup_release, ← lookup_isSome_iff]
  split_ifs with hc
  · simp [hc]
  · simp [hc]

/-- As many ids as the loop counts, and all those it counts: then these are the ids. -/
theorem mem_entryIds_of_counted (h : ∀ i : Nat, i < done.length → (i : Int) ∈ entryIds done) (c : Int) :
    c ∈ entryIds done ↔ 0 ≤ c ∧ c < done.length := by
  have hcounted : ((List.range done.length).map Int.ofNat).Subperm (entryIds done) := by
    refine List.Nodup.subperm (List.nodup_range.map fun i j hij => Int.ofNat.inj hij) fun x hx => ?_
    obtain ⟨i, hi, rfl⟩ := List.mem_map.mp hx
    exact h i (List.mem_range.mp hi)
  have hperm := hcounted.perm_of_length_le (by simp [entryIds])
  rw [← hperm.mem_iff, List.mem_map]
  constructor
  · rintro ⟨i, hi, rfl⟩
    have := List.mem_range.mp hi
    exact ⟨Int.natCast_nonneg i, Int.ofNat_lt.mpr this⟩
  · rintro ⟨h₀, hlt⟩
    exact ⟨c.toNat, List.mem_range.mpr (by omega), Int.toNat_of_nonneg h₀⟩

end setDone

/-! ### A node and its customers -/

/-- A node as far as application 0 goes: `customers` is `customers_[0]`. The last two fields are history: the
customers that have called `DoBarrier`, and those that are still inside. -/
structure CustomerNode where
  proc : Process
  customers : List Int := []
  callers : List Int := []
  waiting : List Int := []

namespace CustomerNode

inductive Action
  | addCustomer (customerId : Int)
  | removeCustomer (customerId : Int)
  | doBarrier (customerId nodeGroup : Int) (instanceBarrier : Bool)
  | wake (customerId : Int)
  | manage (recv : Message)

/-- `barrier_done_[0]`. -/
def done (s : CustomerNode) : List (Int × Bool) := s.proc.barrierDone 0

/-- `AddCustomer`; `insert` keeps an entry that is there. -/
def addCustomer (s : CustomerNode) (customerId : Int) : Option CustomerNode := do
  guard (customerId ∉ s.customers)
  return { s with
    customers := s.customers ++ [customerId]
    proc := { s.proc with
      barrierDone := Function.update s.proc.barrierDone 0
        (if (s.done.lookup customerId).isSome then s.done else s.done ++ [(customerId, false)]) } }

/-- One call on the node, up to its wait for `DoBarrier`; a customer that waits goes on when its entry is set. -/
def step (po : Postoffice) (s : CustomerNode) : Action → Option CustomerNode
  | .addCustomer customerId => s.addCustomer customerId
  | .removeCustomer customerId => some { s with customers := s.customers.erase customerId }
  | .doBarrier customerId nodeGroup instanceBarrier => do
    let (p, req) ← s.proc.doBarrier po customerId nodeGroup instanceBarrier
    if req.isSome then
      return { s with proc := p, callers := customerId :: s.callers, waiting := customerId :: s.waiting }
    else return s
  | .wake customerId => do
    guard (customerId ∈ s.waiting ∧ s.proc.isDone customerId)
    return { s with waiting := s.waiting.erase customerId }
  | .manage recv => do
    let p ← s.proc.manage recv
    return { s with proc := p }

/-- A customer of the node: registered, or known through `DoBarrier`. -/
def Known (s : CustomerNode) (c : Int) : Prop := c ∈ s.customers ∨ c ∈ s.callers

/-- Every customer has an entry. -/
structure Entries (s : CustomerNode) : Prop where
  known : ∀ c, s.Known c → c ∈ entryIds s.done
  waiting : ∀ c ∈ s.waiting, c ∈ s.callers

/-- An answer to a barrier as the scheduler sends it. -/
structure Answer (recv : Message) : Prop where
  cmd : recv.msgMeta.control.cmd = .barrier ∨ recv.msgMeta.control.cmd = .instanceBarrier
  request : recv.msgMeta.request = false
  appId : recv.msgMeta.appId = 0

theorem manage_answer (p : Process) {recv : Message} (h : Answer recv) : ∃ p', p.manage recv = some p' ∧
    p'.barrierDone 0 = release (p.barrierDone 0).length (p.barrierDone 0) := by
  have hne : recv.msgMeta.control.cmd ≠ .empty := by rcases h.cmd with hc | hc <;> simp [hc]
  refine ⟨{ p with
    barrierDone := Function.update p.barrierDone 0 (release (p.barrierDone 0).length (p.barrierDone 0)) }, ?_, by simp⟩
  simp [Process.manage, hne, h.cmd, h.request, h.appId, release]

theorem doBarrier_done {po : Postoffice} {p p' : Process} {c g : Int} {b : Bool} {req : Option Message}
    (h : p.doBarrier po c g b = some (p', req)) (hreq : req.isSome) :
    p'.barrierDone 0 = setDone (p.barrierDone 0) c false := by
  obtain ⟨nodes, -, h⟩ := Option.bind_eq_some_iff.mp h
  by_cases h₁ : b ∧ nodes.length ≤ 1
  · rw [if_pos h₁] at h
    obtain ⟨-, rfl⟩ := Prod.mk.inj (Option.some.inj h)
    cases hreq
  rw [if_neg h₁] at h
  by_cases h₂ : ¬ b ∧ nodes.length ≤ po.groupSize
  · rw [if_pos h₂] at h
    obtain ⟨-, rfl⟩ := Prod.mk.inj (Option.some.inj h)
    cases hreq
  · rw [if_neg h₂] at h
    obtain ⟨_, -, h⟩ := Option.bind_eq_some_iff.mp h
    obtain ⟨_, -, h⟩ := Option.bind_eq_some_iff.mp h
    obtain ⟨_, -, h⟩ := Option.bind_eq_some_iff.mp h
    obtain ⟨rfl, -⟩ := Prod.mk.inj (Option.some.inj h)
    simp only [Function.update_self]

theorem mem_entryIds_manage {p p' : Process} {recv : Message} (h : p.manage recv = some p') {c : Int}
    (hc : c ∈ entryIds (p.barrierDone 0)) : c ∈ entryIds (p'.barrierDone 0) := by
  obtain ⟨_, -, h⟩ := Option.bind_eq_some_iff.mp h
  dsimp only at h
  split_ifs at h
  · obtain rfl := Option.some.inj h
    rcases eq_or_ne recv.msgMeta.appId 0 with h₀ | hne
    · simp only [h₀, Function.update_self]
      exact mem_entryIds_release.mpr (.inl hc)
    · simp only [Function.update_of_ne hne.symm]
      exact hc
  · obtain rfl := Option.some.inj h
    exact hc

namespace Entries

variable {po : Postoffice} {s s' : CustomerNode} {c : Int}

theorem addCustomer (h : Entries s) (hs : s.addCustomer c = some s') : Entries s' := by
  obtain ⟨_, -, hs⟩ := Option.bind_eq_some_iff.mp hs
  obtain rfl := Option.some.inj hs
  have hids : ∀ c', c' ∈ entryIds s.done ∨ c' = c →
      c' ∈ entryIds (if (s.done.lookup c).isSome then s.done else s.done ++ [(c, false)]) := by
    intro c' hc'
    split_ifs with hsome
    · rcases hc' with hc' | rfl
      · exact hc'
      · exact lookup_isSome_iff.mp hsome
    · rw [entryIds, List.map_append, List.mem_append]
      rcases hc' with hc' | rfl
      · exact .inl hc'
      · exact .inr (List.mem_singleton_self c')
  refine ⟨fun c' hc' => ?_, h.waiting⟩
  simp only [done, Function.update_self]
  rcases hc' with hc' | hc'
  · rcases List.mem_append.mp hc' with hc' | hc'
    · exact hids c' (.inl (h.known c' (.inl hc')))
    · exact hids c' (.inr (List.mem_singleton.mp hc'))
  · exact hids c' (.inl (h.known c' (.inr hc')))

theorem step (h : Entries s) {a : Action} (hs : CustomerNode.step po s a = some s') : Entries s' := by
  cases a with
  | addCustomer c => exact h.addCustomer hs
  | removeCustomer c =>
    obtain rfl := Option.some.inj hs
    refine ⟨fun c' hc' => h.known c' ?_, h.waiting⟩
    exact hc'.imp_left List.mem_of_mem_erase
  | doBarrier c nodeGroup instanceBarrier =>
    obtain ⟨⟨p, req⟩, hbar, hs⟩ := Option.bind_eq_some_iff.mp hs
    dsimp only at hs
    split_ifs at hs with hreq
    · obtain rfl := Option.some.inj hs
      have hdone : p.barrierDone 0 = setDone s.done c false := doBarrier_done hbar hreq
      refine ⟨fun c' hc' => ?_, List.forall_mem_cons.mpr ⟨List.mem_cons_self, fun c' hc' =>
        List.mem_cons_of_mem c (h.waiting c' hc')⟩⟩
      show c' ∈ entryIds (p.barrierDone 0)
      rw [hdone, mem_entryIds_setDone]
      rcases hc' with hc' | hc'
      · exact .inl (h.known c' (.inl hc'))
      · exact (List.mem_cons.mp hc').symm.imp_left fun hc' => h.known c' (.inr hc')
    · obtain rfl := Option.some.inj hs
      exact h
  | wake c =>
    obtain ⟨_, -, hs⟩ := Option.bind_eq_some_iff.mp hs
    obtain rfl := Option.some.inj hs
    exact ⟨h.known, fun c' hc' => h.waiting c' (List.mem_of_mem_erase hc')⟩
  | manage recv =>
    obtain ⟨p, hp, hs⟩ := Option.bind_eq_some_iff.mp hs
    obtain rfl := Option.some.inj hs
    exact ⟨fun c' hc' => mem_entryIds_manage hp (h.known c' hc'), h.waiting⟩

end Entries

/-- The answer has set the entry of everybody who waits, and every entry is of a customer or was there. -/
structure Released (s : CustomerNode) (p' : Process) : Prop where
  waiting : ∀ c ∈ s.waiting, p'.isDone c
  entries : ∀ c ∈ entryIds (p'.barrierDone 0), c ∈ entryIds s.done ∨ s.Known c

/-- One answer marks every customer that waits and makes up no entry exactly if the ids that have an entry are
the numbers below their count. -/
theorem release_iff_ids_consecutive (po : Postoffice) (role : Role) (as : List Action) (s : CustomerNode)
    (hrun : Run.exec (step po) { proc := { role := role } } as = some s) (recv : Message) (hrecv : Answer recv) :
    ∃ p', s.proc.manage recv = some p' ∧
      (Released s p' ↔ ∀ c, c ∈ entryIds s.done ↔ 0 ≤ c ∧ c < s.done.length) := by
  have hinit : Entries { proc := { role := role } } := by
    refine ⟨fun c hc => ?_, fun c hc => nomatch hc⟩
    rcases hc with hc | hc <;> cases hc
  have h : Entries s := Run.exec_invariant Entries (fun _ _ _ h hs => h.step hs) hinit hrun
  obtain ⟨p', hp', hdone⟩ := manage_answer s.proc hrecv
  refine ⟨p', hp', fun hrel => mem_entryIds_of_counted fun i hi => ?_,
    fun hids => ⟨fun c hc => ?_, fun c hc => .inl ?_⟩⟩
  · have hentry : (i : Int) ∈ entryIds (p'.barrierDone 0) := by
      rw [hdone]
      exact mem_entryIds_release.mpr (.inr ⟨Int.natCast_nonneg i, Int.ofNat_lt.mpr hi⟩)
    exact (hrel.entries i hentry).elim id (h.known i)
  · have hlt : 0 ≤ c ∧ c < s.done.length := (hids c).mp (h.known c (.inr (h.waiting c hc)))
    rw [Process.isDone, hdone, lookup_release]
    exact decide_eq_true (if_pos hlt)
  · rw [hdone] at hc
    exact (mem_entryIds_release.mp hc).elim id (hids c).mpr

/-- Two workers and a barrier among them. -/
def twoWorkers : Postoffice := { numWorkers := 2, numServers := 1 }

/-- The answer of the scheduler to a barrier. -/
def barrierAnswer : Message := { msgMeta := { request := false, appId := 0, control := { cmd := .barrier } } }

theorem answer_barrierAnswer : Answer barrierAnswer := ⟨.inl rfl, rfl, rfl⟩

/-- Customers 0 and 1, of which 1 has never been registered. -/
theorem release_iff_ids_consecutive_two : ∃ s p',
    Run.exec (step twoWorkers) { proc := { role := .worker } }
      [.addCustomer 0, .doBarrier 1 kWorkerGroup false] = some s ∧ s.waiting = [1] ∧
      s.proc.manage barrierAnswer = some p' ∧ Released s p' := by
  obtain ⟨p', hp', hrel⟩ := release_iff_ids_consecutive twoWorkers .worker
    [.addCustomer 0, .doBarrier 1 kWorkerGroup false] _ rfl barrierAnswer answer_barrierAnswer
  refine ⟨_, p', rfl, rfl, hp', hrel.mpr fun c => ?_⟩
  show c ∈ [0, 1] ↔ 0 ≤ c ∧ c < 2
  rw [List.mem_pair]
  omega

/-- Customers 0 and 2: the answer sets the entry of 1, which it makes up, and 2 goes on waiting. -/
theorem customer_two_not_released : ∃ s p',
    Run.exec (step twoWorkers) { proc := { role := .worker } }
      [.addCustomer 0, .addCustomer 2, .doBarrier 2 kWorkerGroup false] = some s ∧ s.waiting = [2] ∧
      entryIds s.done = [0, 2] ∧ ¬ s.Known 1 ∧ s.proc.manage barrierAnswer = some p' ∧
      p'.barrierDone 0 = [(0, true), (2, false), (1, true)] ∧ p'.isDone 2 = false :=
  ⟨_, _, rfl, rfl, rfl, by simp [Known], rfl, rfl, rfl⟩

end CustomerNode

end StepMesh
