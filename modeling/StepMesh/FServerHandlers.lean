import StepMesh.FServer
import StepMesh.Lib.Run

/-!
# The requests that `meta_map_` keeps (`fserver/csrc/public.hpp`)

`RequestHandler` files every request in `meta_map_` under the next handler, `respond` looks it up there and
never erases it. `outstanding` are the requests delivered and not yet responded to, with their handlers; the
code does not have it. What `meta_map_` keeps is that (`Exact`) only as long as nobody responds
(`exact_iff_no_response`).
-/

namespace StepMesh

namespace FServer

/-- The answers of `g`, in addition to those of `f`. -/
def addAnswers (f g : FServer) : FServer :=
  { f with
    sent := f.sent ++ g.sent
    responseQueue := f.responseQueue ++ g.responseQueue
    errors := f.errors ++ g.errors }

/-- What `Response` answers depends on the request and the tensors only. -/
theorem response_eq_map (f : FServer) (afMeta : AFTensorMeta) (tensors : List KeyTensor) :
    f.response afMeta tensors = (response { q := [] } afMeta tensors).map f.addAnswers := by
  unfold response addAnswers
  split_ifs <;> simp only [Option.pure_def, Option.bind_eq_bind, List.nil_append, List.append_nil, List.append_assoc,
    Option.map_bind, Option.map_some, Function.comp_def]

variable {f f' : FServer} {tensors : List Tensor} {handler : Nat}

theorem respond_eq_some (h : f.respond tensors handler = some f') :
    ∃ g, f' = f.addAnswers g ∧ (f.metaMap handler).isSome ∧
      ∀ t : FServer, t.metaMap handler = f.metaMap handler → t.respond tensors handler = some (t.addAnswers g) := by
  obtain ⟨m, hm, h⟩ := Option.bind_eq_some_iff.mp h
  obtain ⟨_, hg, h⟩ := Option.bind_eq_some_iff.mp h
  rw [response_eq_map] at h
  obtain ⟨g, hg', rfl⟩ := Option.map_eq_some_iff.mp h
  refine ⟨g, rfl, by rw [hm]; rfl, fun t ht => ?_⟩
  simp only [respond, ht, hm, hg, Option.bind_eq_bind, Option.bind_some]
  rw [response_eq_map, hg']
  rfl

theorem respondVec_eq_some {retBuffer : Tensor} {tensorsVec : List Tensor} {handlerVec : List Nat}
    (h : f.respondVec retBuffer tensorsVec handlerVec = some f') :
    f'.metaMap = f.metaMap ∧ f'.handlerCounter = f.handlerCounter ∧
      ∀ handler ∈ handlerVec, (f.metaMap handler).isSome := by
  obtain ⟨_, hlen, h⟩ := Option.bind_eq_some_iff.mp h
  replace hlen : tensorsVec.length = handlerVec.length := by simpa [guard] using hlen
  clear * - hlen h
  induction tensorsVec generalizing f handlerVec with
  | nil =>
    obtain rfl := List.length_eq_zero_iff.mp hlen.symm
    obtain rfl := Option.some.inj h
    simp
  | cons t ts ih =>
    obtain ⟨handler, hs, rfl⟩ := List.exists_cons_of_length_eq_add_one hlen.symm
    rw [List.zip_cons_cons, List.foldlM_cons] at h
    obtain ⟨f₁, h₁, h⟩ := Option.bind_eq_some_iff.mp h
    obtain ⟨_, -, h₁⟩ := Option.bind_eq_some_iff.mp h₁
    obtain ⟨_, -, h₁⟩ := Option.bind_eq_some_iff.mp h₁
    obtain ⟨g, rfl, hsome, -⟩ := respond_eq_some h₁
    obtain ⟨hmap, hcount, hrest⟩ := ih h (by simpa using hlen)
    exact ⟨hmap, hcount, List.forall_mem_cons.mpr ⟨hsome, hrest⟩⟩

end FServer

structure HandlerSys where
  f : FServer
  outstanding : List (Nat × AFTensorMeta) := []

namespace HandlerSys

inductive Call
  | requestHandler (reqMeta : AFTensorMeta)
  | respond (tensors : List Tensor) (handler : Nat)
  | respondVec (retBuffer : Tensor) (tensorsVec : List Tensor) (handlerVec : List Nat)

def Call.delivered : Call → Nat
  | .requestHandler _ => 1
  | _ => 0

/-- The handlers that a call responds to. -/
def Call.responded : Call → List Nat
  | .requestHandler _ => []
  | .respond _ handler => [handler]
  | .respondVec _ _ handlerVec => handlerVec

def init (q : List (List ServerDataBatch)) : HandlerSys := { f := { q := q } }

/-- A call; `handler_counter_` is a `uint64_t`. A failed check ends the process. -/
def step (s : HandlerSys) (c : Call) : Option HandlerSys :=
  match c with
  | .requestHandler reqMeta => do
    let f ← s.f.requestHandler reqMeta
    return {
      f := { f with handlerCounter := f.handlerCounter % 2 ^ 64 }
      outstanding := s.outstanding ++ [(s.f.handlerCounter, reqMeta)] }
  | .respond tensors handler => do
    let f ← s.f.respond tensors handler
    return { f, outstanding := s.outstanding.filter (·.1 ∉ c.responded) }
  | .respondVec retBuffer tensorsVec handlerVec => do
    let f ← s.f.respondVec retBuffer tensorsVec handlerVec
    return { f, outstanding := s.outstanding.filter (·.1 ∉ c.responded) }

/-- `meta_map_` holds the outstanding requests, each in an entry of its own, and nothing else. -/
structure Exact (s : HandlerSys) : Prop where
  entries : ∀ handler reqMeta, s.f.metaMap handler = some reqMeta ↔ (handler, reqMeta) ∈ s.outstanding
  own : (s.outstanding.map (·.1)).Nodup

/-- Nobody has responded: the handlers are the numbers of the deliveries. -/
structure Unanswered (s : HandlerSys) (delivered : Nat) : Prop where
  entries : ∀ handler reqMeta, s.f.metaMap handler = some reqMeta ↔ (handler, reqMeta) ∈ s.outstanding
  handlers : s.outstanding.map (·.1) = List.range delivered
  counter : s.f.handlerCounter = delivered % 2 ^ 64

variable {s s' : HandlerSys} {n : Nat}

theorem Unanswered.exact (h : Unanswered s n) : Exact s where
  entries := h.entries
  own := h.handlers ▸ List.nodup_range

theorem unanswered_init (q : List (List ServerDataBatch)) : Unanswered (init q) 0 where
  entries := by simp [init]
  handlers := rfl
  counter := rfl

theorem Unanswered.step (h : Unanswered s n) {c : Call} (hc : c.responded = []) (hn : n + c.delivered ≤ 2 ^ 64)
    (hs : s.step c = some s') : Unanswered s' (n + c.delivered) := by
  cases c with
  | requestHandler m =>
    obtain ⟨f, hf, hs⟩ := Option.bind_eq_some_iff.mp hs
    obtain rfl := Option.some.inj hs
    obtain ⟨_, -, hf⟩ := Option.bind_eq_some_iff.mp hf
    obtain rfl := Option.some.inj hf
    have hcount : s.f.handlerCounter = n := h.counter.trans (Nat.mod_eq_of_lt hn)
    have hfresh : ∀ m', (n, m') ∉ s.outstanding := by
      intro m' hmem
      have : n ∈ s.outstanding.map (·.1) := List.mem_map_of_mem hmem
      rw [h.handlers, List.mem_range] at this
      exact Nat.lt_irrefl n this
    refine ⟨fun handler m' => ?_, ?_, ?_⟩
    · show Function.update s.f.metaMap s.f.handlerCounter (some m) handler = _ ↔
        _ ∈ s.outstanding ++ [(s.f.handlerCounter, m)]
      rw [hcount, List.mem_append, List.mem_singleton, Prod.mk.injEq]
      rcases eq_or_ne handler n with rfl | hne
      · simp [hfresh, eq_comm]
      · simp [h.entries, hne]
    · show (s.outstanding ++ [(s.f.handlerCounter, m)]).map (·.1) = _
      rw [List.map_append, h.handlers, hcount]
      exact List.range_succ.symm
    · show (s.f.handlerCounter + 1) % 2 ^ 64 = _
      rw [hcount]
      rfl
  | respond tensors handler => cases hc
  | respondVec retBuffer tensorsVec handlerVec =>
    obtain ⟨f, hf, hs⟩ := Option.bind_eq_some_iff.mp hs
    obtain rfl := Option.some.inj hs
    obtain ⟨hmap, hcount, -⟩ := FServer.respondVec_eq_some hf
    have hout : s.outstanding.filter (·.1 ∉ (Call.respondVec retBuffer tensorsVec handlerVec).responded) =
        s.outstanding := by simp [hc]
    refine ⟨?_, ?_, hcount.trans h.counter⟩
    · simpa only [hout, hmap] using h.entries
    · rw [hout]
      exact h.handlers

theorem responded_eq_nil {c : Call} (hs : s.step c = some s') (hexact : Exact s') : c.responded = [] := by
  -- what is filed under the first handler is no longer outstanding
  have hstale : ∀ handler ∈ c.responded, (s.f.metaMap handler).isSome → s'.f.metaMap = s.f.metaMap →
      s'.outstanding = s.outstanding.filter (·.1 ∉ c.responded) → False := by
    intro handler hmem hsome hmap hout
    obtain ⟨m, hm⟩ := Option.isSome_iff_exists.mp hsome
    have := (hexact.entries handler m).mp (hmap ▸ hm)
    rw [hout, List.mem_filter] at this
    exact of_decide_eq_true this.2 hmem
  cases c with
  | requestHandler m => rfl
  | respond tensors handler =>
    obtain ⟨f, hf, hs⟩ := Option.bind_eq_some_iff.mp hs
    obtain rfl := Option.some.inj hs
    obtain ⟨g, rfl, hsome, -⟩ := FServer.respond_eq_some hf
    exact (hstale handler List.mem_cons_self hsome rfl rfl).elim
  | respondVec retBuffer tensorsVec handlerVec =>
    obtain ⟨f, hf, hs⟩ := Option.bind_eq_some_iff.mp hs
    obtain rfl := Option.some.inj hs
    obtain ⟨hmap, -, hsome⟩ := FServer.respondVec_eq_some hf
    refine List.eq_nil_iff_forall_not_mem.mpr fun handler hmem => ?_
    exact hstale handler hmem (hsome handler hmem) hmap rfl

/-- After $2^{64}$ deliveries the next one reuses an entry. -/
theorem Unanswered.delivered_le (h : Unanswered s n) (hn : n ≤ 2 ^ 64) {c : Call} (hs : s.step c = some s')
    (hexact : Exact s') : n + c.delivered ≤ 2 ^ 64 := by
  cases c with
  | requestHandler m =>
    by_contra hlt
    obtain rfl : n = 2 ^ 64 := Nat.le_antisymm hn (Nat.le_of_lt_succ (Nat.lt_of_not_le hlt))
    obtain ⟨f, hf, hs⟩ := Option.bind_eq_some_iff.mp hs
    obtain rfl := Option.some.inj hs
    have hown : ((s.outstanding ++ [(s.f.handlerCounter, m)]).map (·.1)).Nodup := hexact.own
    rw [List.map_append, h.handlers, h.counter, Nat.mod_self] at hown
    exact (List.nodup_append.mp hown).2.2 0 (List.mem_range.mpr (Nat.two_pow_pos 64)) 0 List.mem_cons_self rfl
  | respond tensors handler => exact hn
  | respondVec retBuffer tensorsVec handlerVec => exact hn

/-- In any run of `RequestHandler`, `respond` and `respond_vec`, `meta_map_` holds exactly the outstanding
requests in every state reached if and only if nothing is responded to and at most $2^{64}$ requests are
delivered. A response can be repeated in any state, and is then sent again. -/
theorem exact_iff_no_response (q : List (List ServerDataBatch)) (cs : List Call) (s : HandlerSys)
    (hrun : Run.exec step (init q) cs = some s) :
    ((∀ pre t, pre <+: cs → Run.exec step (init q) pre = some t → Exact t) ↔
      cs.flatMap Call.responded = [] ∧ (cs.map Call.delivered).sum ≤ 2 ^ 64) ∧
    ∀ tensors handler f', s.f.respond tensors handler = some f' →
      ∃ g, f' = s.f.addAnswers g ∧ f'.respond tensors handler = some (f'.addAnswers g) := by
  refine ⟨⟨fun hexact => ?_, fun ⟨hresp, hle⟩ pre t hpre hrun' => ?_⟩, fun tensors handler f' hf' => ?_⟩
  · have h := Run.exec_induction
      (fun as t => Run.exec step (init q) as = some t ∧ as.flatMap Call.responded = [] ∧
        (as.map Call.delivered).sum ≤ 2 ^ 64 ∧ Unanswered t (as.map Call.delivered).sum)
      (· <+: cs) (fun as a h => (List.prefix_append as [a]).trans h)
      ⟨rfl, rfl, Nat.zero_le _, unanswered_init q⟩ ?_ (List.prefix_refl cs) hrun
    · exact ⟨h.2.1, h.2.2.1⟩
    · rintro as c t t' hpre ⟨hrun, hresp, hle, h⟩ hs
      have hrun' := Run.exec_snoc_eq_some.mpr ⟨t, hrun, hs⟩
      have hexact' := hexact _ t' hpre hrun'
      have hc := responded_eq_nil hs hexact'
      have hn := h.delivered_le hle hs hexact'
      simp only [List.map_append, List.sum_append, List.map_cons, List.map_nil, List.sum_singleton,
        List.flatMap_append, hresp, List.flatMap_cons, hc]
      exact ⟨hrun', rfl, hn, h.step hc hn hs⟩
  · obtain ⟨post, rfl⟩ := hpre
    rw [List.flatMap_append] at hresp
    rw [List.map_append, List.sum_append] at hle
    refine (Run.exec_induction (fun as t => Unanswered t (as.map Call.delivered).sum)
      (fun as => as.flatMap Call.responded = [] ∧ (as.map Call.delivered).sum ≤ 2 ^ 64) ?_
      (unanswered_init q) ?_ ⟨(List.append_eq_nil_iff.mp hresp).1, by omega⟩ hrun').exact
    · intro as c h
      simp only [List.flatMap_append, List.append_eq_nil_iff, List.map_append, List.sum_append] at h
      exact ⟨h.1.1, by omega⟩
    · intro as c t t' h hinv hs
      simp only [List.flatMap_append, List.append_eq_nil_iff, List.map_append, List.sum_append,
        List.flatMap_cons, List.flatMap_nil, List.map_cons, List.map_nil, List.sum_singleton, List.append_nil]
        at h ⊢
      exact hinv.step h.1.2 h.2 hs
  · obtain ⟨g, rfl, -, hagain⟩ := FServer.respond_eq_some hf'
    exact ⟨g, rfl, hagain _ rfl⟩

/-- A pull of one tensor by worker 0. -/
def sampleRequest : AFTensorMeta where
  sender := 9
  single := true
  pullMetas := [{
    cmd := 0, push := false, sender := 9, timestamp := 0, customerId := 0, key := 1, addr := 0
    valLen := 4, option := 0 }]
  pullTensors := [{ key := 1 }]

theorem exact_iff_no_response_delivered :
    ∃ s, Run.exec step (init [[]]) [.requestHandler sampleRequest] = some s ∧ Exact s :=
  ⟨_, rfl, (exact_iff_no_response [[]] [.requestHandler sampleRequest] _ rfl).1.mpr (by decide) _ _
    (List.prefix_refl _) rfl⟩

/-- The answered request is still filed, and the second `respond` sends a second response. -/
theorem respond_twice :
    ∃ s, Run.exec step (init [[]]) [.requestHandler sampleRequest, .respond [.undefined] 0,
        .respond [.undefined] 0] = some s ∧
      s.outstanding = [] ∧ s.f.metaMap 0 = some sampleRequest ∧
      s.f.sent.map (·.kvMeta) = sampleRequest.pullMetas ++ sampleRequest.pullMetas := by
  refine ⟨_, rfl, rfl, rfl, rfl⟩

end HandlerSys

end StepMesh
