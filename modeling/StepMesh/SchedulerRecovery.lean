import StepMesh.SchedulerIds

/-!
# Nodes that die and register again

After the initial registration the scheduler hears heartbeats and, now and then, a node that
registers anew. The node takes the place and the id of a dead node of its role, and the scheduler
tells the others. `recovery_nodes` is a local variable of `Receiving` that outlives the message and is
never cleared, so the check that it holds one node passes for the first recovery of a run only
(`recovers_iff`).
-/

namespace StepMesh.Scheduler

variable {env : SchedulerEnv} {van van' : Scheduler}

inductive Event
  | heartbeat (clock : Clock) (nodes : List Node)
  | rejoin (clock : Clock) (node : Node)
deriving DecidableEq, Repr

def Event.message : Event → Clock × Message
  | .heartbeat clock nodes => (clock, { msgMeta := { control := { cmd := .heartbeat, node := nodes } } })
  | .rejoin clock node => (clock, registration node)

def Event.isRejoin : Event → Bool
  | .heartbeat .. => false
  | .rejoin .. => true

def handle (env : SchedulerEnv) (van : Scheduler) (e : Event) : Option Scheduler :=
  receiving env van e.message

/-- The nodes reported dead when a message arrives. -/
def deadAt (env : SchedulerEnv) (van : Scheduler) (now : Int) : List NodeId :=
  van.getDeadNodes env env.heartbeatTimeout now

/-- Every re-registration of the run arrives while a node of its role is reported dead. -/
def RejoinsReplaceDead (env : SchedulerEnv) (van : Scheduler) (events : List Event) : Prop :=
  ∀ before clock node s, before ++ [.rejoin clock node] <+: events →
    Run.exec (handle env) van before = some s →
    ∃ n ∈ s.registered, n.id ∈ deadAt env s clock.onArrival ∧ n.role = node.role

/-- The node table has one entry for each id of a worker or a server. -/
def OneEntryPerId (env : SchedulerEnv) (van : Scheduler) : Prop :=
  (van.registered.map Node.id).Perm (env.po.nodeIds (kWorkerGroup + kServerGroup))

/-- `van'` has put `node` in the place of a dead node of its role, under its id, has sent it the
table, and has sent it to every other node that is alive. -/
def Recovered (env : SchedulerEnv) (van van' : Scheduler) (clock : Clock) (node : Node) : Prop :=
  ∃ l₁ old l₂, van.registered = l₁ ++ old :: l₂ ∧
    old.id ∈ deadAt env van clock.onArrival ∧ old.role = node.role ∧
    van'.registered = l₁ ++ { node with id := old.id, isRecovery := true } :: l₂ ∧
    ∃ out, van'.log = van.log ++ out ∧
      (∃ msg, .send msg ∈ out ∧ msg.msgMeta.recver = old.id ∧ msg.msgMeta.control.cmd = .addNode ∧
        msg.msgMeta.control.node = van'.nodes) ∧
      ∀ r ∈ env.po.nodeIds (kWorkerGroup + kServerGroup), r ≠ old.id →
        r ∉ deadAt env van clock.onRecovery →
        ∃ msg, .send msg ∈ out ∧ msg.msgMeta.recver = r ∧ msg.msgMeta.control.cmd = .addNode ∧
          { node with id := old.id, isRecovery := true } ∈ msg.msgMeta.control.node

/-- No check fails in the run, and after every re-registration the node is recovered and the table
has one entry per id. -/
def RecoversAll (env : SchedulerEnv) (van : Scheduler) (events : List Event) : Prop :=
  (∃ last, Run.exec (handle env) van events = some last ∧ OneEntryPerId env last) ∧
  ∀ before clock node, before ++ [.rejoin clock node] <+: events →
    ∃ s s', Run.exec (handle env) van before = some s ∧
      handle env s (.rejoin clock node) = some s' ∧
      Recovered env s s' clock node ∧ OneEntryPerId env s'

/-! ### One message -/

/-- The scheduler after the initial registration. -/
structure Serving (env : SchedulerEnv) (van : Scheduler) : Prop where
  ready : van.ready = true
  nonempty : van.nodes ≠ []
  ids : OneEntryPerId env van

theorem nodeIds_length (po : Postoffice) :
    (po.nodeIds (kWorkerGroup + kServerGroup)).length = numNodes po := by
  rw [Postoffice.nodeIds_group po (by decide), if_pos (by decide), if_pos (by decide),
    if_neg (by decide)]
  simp [Postoffice.workerIds, Postoffice.serverIds, numNodes, Nat.add_comm]

theorem Serving.length_nodes (h : Serving env van) : van.nodes.length = numNodes env.po + 1 := by
  have hids := h.ids.length_eq
  rw [List.length_map, nodeIds_length, registered, List.length_dropLast] at hids
  have := List.length_pos_iff.mpr h.nonempty
  omega

theorem processHearbeat_eq (van : Scheduler) (t : Int) (msg : Message) :
    ∃ ts hb log, van.processHearbeat t msg =
      { van with timestamp := ts, heartbeats := hb, log := log } := by
  unfold processHearbeat
  generalize msg.msgMeta.control.node = nodes
  induction nodes generalizing van with
  | nil => exact ⟨_, _, _, rfl⟩
  | cons n nodes ih =>
    obtain ⟨ts, hb, log, h⟩ := ih ((van.updateHeartbeat n.id t).send n.id
      { control := { cmd := .heartbeat, node := [van.myNode] } })
    exact ⟨ts, hb, log, h⟩

theorem handle_heartbeat (h : Serving env van) (clock : Clock) (nodes : List Node) :
    ∃ van', handle env van (.heartbeat clock nodes) = some van' ∧ Serving env van' ∧
      van'.recoveryNodes = van.recoveryNodes := by
  obtain ⟨ts, hb, log, heq⟩ := van.processHearbeat_eq clock.onArrival
    (Event.heartbeat clock nodes).message.2
  exact ⟨_, congrArg some heq, ⟨h.ready, h.nonempty, h.ids⟩, rfl⟩

/-- The loop of `UpdateLocalID` finds the first dead node of the role, if there is one. -/
theorem replaceDead_of_mem {dead : List NodeId} {node last : Node} {l : List Node}
    (h : ∃ n ∈ l, n.id ∈ dead ∧ n.role = node.role) :
    ∃ l₁ old l₂, l = l₁ ++ old :: l₂ ∧ old.id ∈ dead ∧ old.role = node.role ∧
      replaceDead dead node (l ++ [last]) =
        (l₁ ++ { node with id := old.id, isRecovery := true } :: l₂ ++ [last],
          some { node with id := old.id, isRecovery := true }) := by
  induction l with
  | nil => simp at h
  | cons n l ih =>
    obtain ⟨n', l', hl⟩ : ∃ n' l', l ++ [last] = n' :: l' := by
      cases l with
      | nil => exact ⟨_, _, rfl⟩
      | cons n' l => exact ⟨_, _, rfl⟩
    by_cases hn : n.id ∈ dead ∧ n.role = node.role
    · refine ⟨[], n, l, rfl, hn.1, hn.2, ?_⟩
      rw [List.cons_append, hl, replaceDead, if_pos hn, ← hl]
      rfl
    · have hrest : ∃ m ∈ l, m.id ∈ dead ∧ m.role = node.role := by
        obtain ⟨m, hm, hdead⟩ := h
        rcases List.mem_cons.mp hm with rfl | hm
        · exact absurd hdead hn
        · exact ⟨m, hm, hdead⟩
      obtain ⟨l₁, old, l₂, rfl, hdead, hrole, hrec⟩ := ih hrest
      refine ⟨n :: l₁, old, l₂, rfl, hdead, hrole, ?_⟩
      rw [List.cons_append, hl, replaceDead, if_neg hn, ← hl, hrec]
      rfl

/-- The scheduler between `UpdateLocalID` and the answer to a re-registration. -/
def replaced (env : SchedulerEnv) (van : Scheduler) (nodes : List Node) (recovery : Node) : Scheduler :=
  { van with
    nodes := nodes
    recoveryNodes := van.recoveryNodes ++ [recovery]
    myNode := updateMyId env van.myNode [recovery] }

theorem handle_rejoin_eq (h : Serving env van) {clock : Clock} {node recovery : Node}
    {nodes : List Node} (hlen : nodes.length = van.nodes.length)
    (hreplace : replaceDead (deadAt env van clock.onArrival) node van.nodes =
      (nodes, some recovery)) :
    handle env van (.rejoin clock node) =
      (van.replaced env nodes recovery).answerRecovery env clock.onAssign clock.onRecovery := by
  have hnodes := h.length_nodes
  have hupdate : van.updateLocalID env (registration node)
      (van.getDeadNodes env env.heartbeatTimeout clock.onArrival) =
      some (van.replaced env nodes recovery) := by
    unfold deadAt at hreplace
    have hfull : ¬ van.nodes.length < numNodes env.po := by omega
    simp [updateLocalID, registration, hfull, h.ready, hreplace, replaced]
  show processAddNodeCommand _ _ _ _ = _
  rw [processAddNodeCommand, hupdate, Option.bind_eq_bind, Option.bind_some,
    processAddNodeCommandAtScheduler, if_neg, if_pos]
  · simp [replaced]
  · show nodes.length ≠ numNodes env.po
    omega

/-- Who is written to when `id` is recovered. -/
def receivers (env : SchedulerEnv) (van : Scheduler) (id : NodeId) (now : Int) : List NodeId :=
  (env.po.nodeIds (kWorkerGroup + kServerGroup)).filter fun r => ¬ (r ≠ id ∧ r ∈ deadAt env van now)

theorem answerRecovery_singleton {node : Node} (h : van.recoveryNodes = [node]) (t now : Int) :
    van.answerRecovery env t now = some { van with
      timestamp := van.timestamp + (receivers env van node.id now).length
      heartbeats := Function.update van.heartbeats node.id (some t)
      log := van.log ++ .connect node :: sends
        (fun r => addNodeMeta (if r = node.id then van.nodes else [node])) van.timestamp
        (receivers env van node.id now) } := by
  simp only [answerRecovery, h, connect, updateHeartbeat, foldl_send, List.append_assoc]
  rfl

theorem answerRecovery_cons_cons {m n : Node} {l : List Node} (h : van.recoveryNodes = m :: n :: l)
    (t now : Int) : van.answerRecovery env t now = none := by
  simp only [answerRecovery, h]

/-- A re-registration: it goes through exactly when no node has been recovered before. -/
theorem handle_rejoin (h : Serving env van) (clock : Clock) (node : Node)
    (hdead : ∃ n ∈ van.registered, n.id ∈ deadAt env van clock.onArrival ∧ n.role = node.role) :
    (van.recoveryNodes ≠ [] → handle env van (.rejoin clock node) = none) ∧
    (van.recoveryNodes = [] → ∃ van', handle env van (.rejoin clock node) = some van' ∧
      Serving env van' ∧ van'.recoveryNodes.length = 1 ∧ Recovered env van van' clock node) := by
  obtain ⟨last, hlast⟩ : ∃ last, van.nodes = van.registered ++ [last] :=
    ⟨van.nodes.getLast h.nonempty, (List.dropLast_append_getLast h.nonempty).symm⟩
  obtain ⟨l₁, old, l₂, hreg, hold, hrole, hreplace⟩ : ∃ l₁ old l₂, _ ∧ _ ∧ _ ∧
      replaceDead _ node (van.registered ++ [last]) = _ := replaceDead_of_mem hdead
  generalize hnew : ({ node with id := old.id, isRecovery := true } : Node) = new at hreplace
  have hid : new.id = old.id := hnew ▸ rfl
  rw [← hlast] at hreplace
  have hlen : (l₁ ++ new :: l₂ ++ [last]).length = van.nodes.length := by
    rw [hlast, hreg]
    simp
  rw [handle_rejoin_eq h hlen hreplace]
  constructor
  · intro hne
    obtain ⟨m, ms, hms⟩ := List.exists_cons_of_ne_nil hne
    obtain ⟨n, l, hl⟩ := List.exists_cons_of_ne_nil (List.append_ne_nil_of_right_ne_nil ms
      (List.cons_ne_nil new []))
    refine answerRecovery_cons_cons (m := m) (n := n) (l := l) ?_ _ _
    rw [replaced, hms, ← hl]
    rfl
  · intro hnil
    have hrec : (van.replaced env (l₁ ++ new :: l₂ ++ [last]) new).recoveryNodes = [new] := by
      rw [replaced, hnil]
      rfl
    rw [answerRecovery_singleton hrec]
    refine ⟨_, rfl, ⟨h.ready, by simp [replaced], ?_⟩, by rw [hrec]; rfl, ?_⟩
    · have hids : (l₁ ++ new :: l₂).map Node.id = van.registered.map Node.id := by
        simp [hreg, hid]
      show ((l₁ ++ new :: l₂ ++ [last]).dropLast.map Node.id).Perm _
      rw [List.dropLast_concat, hids]
      exact h.ids
    · have hmem : old.id ∈ env.po.nodeIds (kWorkerGroup + kServerGroup) := by
        refine h.ids.mem_iff.mp (List.mem_map_of_mem ?_)
        simp [hreg]
      refine ⟨l₁, old, l₂, hreg, hold, hrole, ?_, _, rfl, ?_, ?_⟩
      · show (l₁ ++ new :: l₂ ++ [last]).dropLast = _
        rw [List.dropLast_concat, hnew]
      · have hold' : old.id ∈ receivers env (van.replaced env (l₁ ++ new :: l₂ ++ [last]) new) new.id
            clock.onRecovery := List.mem_filter.mpr ⟨hmem, by simp [hid]⟩
        obtain ⟨ts, hts⟩ := mem_sends hold' (van.replaced env _ new).timestamp
        exact ⟨_, List.mem_cons_of_mem _ hts, rfl, rfl, if_pos hid.symm⟩
      · intro r hr hne halive
        have hr' : r ∈ receivers env (van.replaced env (l₁ ++ new :: l₂ ++ [last]) new) new.id
            clock.onRecovery := List.mem_filter.mpr ⟨hr, decide_eq_true fun hc => halive hc.2⟩
        obtain ⟨ts, hts⟩ := mem_sends hr' (van.replaced env _ new).timestamp
        refine ⟨_, List.mem_cons_of_mem _ hts, rfl, rfl, ?_⟩
        show _ ∈ if r = new.id then _ else [new]
        rw [if_neg (hid ▸ hne), hnew]
        exact List.mem_singleton_self new

/-! ### Runs -/

theorem exec_handle (h : Serving env van) (hnil : van.recoveryNodes = []) {events : List Event}
    {s : Scheduler} (hdead : RejoinsReplaceDead env van events)
    (hs : Run.exec (handle env) van events = some s) :
    Serving env s ∧ s.recoveryNodes.length = events.countP Event.isRejoin ∧
      events.countP Event.isRejoin ≤ 1 := by
  refine Run.exec_induction (fun events s => Serving env s ∧
    s.recoveryNodes.length = events.countP Event.isRejoin ∧ events.countP Event.isRejoin ≤ 1 ∧
      Run.exec (handle env) van events = some s)
    (RejoinsReplaceDead env van) ?_ ⟨h, by simp [hnil], by simp, rfl⟩ ?_ hdead hs |>.imp_right
      (And.imp_right And.left)
  · exact fun as a h before clock node s hpre => h before clock node s (hpre.trans (List.prefix_append _ _))
  · rintro as a t t' hdead ⟨ht, hlen, hle, hrun⟩ hstep
    have hrun' : Run.exec (handle env) van (as ++ [a]) = some t' :=
      Run.exec_snoc_eq_some.mpr ⟨t, hrun, hstep⟩
    cases a with
    | heartbeat clock nodes =>
      obtain ⟨t'', hstep', ht', hrec⟩ := handle_heartbeat ht clock nodes
      obtain rfl := Option.some.inj (hstep'.symm.trans hstep)
      simp only [List.countP_append, List.countP_cons, List.countP_nil, Event.isRejoin]
      exact ⟨ht', by simpa [hrec] using hlen, by simpa using hle, hrun'⟩
    | rejoin clock node =>
      have hreplace := handle_rejoin ht clock node (hdead as clock node t (List.prefix_refl _) hrun)
      have hnil : t.recoveryNodes = [] := by
        by_contra hne
        rw [hreplace.1 hne] at hstep
        simp at hstep
      obtain ⟨t'', hstep', ht', hrec, -⟩ := hreplace.2 hnil
      obtain rfl := Option.some.inj (hstep'.symm.trans hstep)
      rw [hnil, List.length_nil] at hlen
      simp only [List.countP_append, List.countP_cons, List.countP_nil, Event.isRejoin, ← hlen]
      exact ⟨ht', by simpa using hrec, by simp, hrun'⟩

theorem exists_exec_handle (h : Serving env van) (hnil : van.recoveryNodes = []) {events : List Event}
    (hdead : RejoinsReplaceDead env van events) (hle : events.countP Event.isRejoin ≤ 1) :
    ∃ s, Run.exec (handle env) van events = some s := by
  induction events using List.reverseRecOn with
  | nil => exact ⟨van, rfl⟩
  | append_singleton as a ih =>
    have hdead' : RejoinsReplaceDead env van as := fun before clock node s hpre =>
      hdead before clock node s (hpre.trans (List.prefix_append _ _))
    rw [List.countP_append] at hle
    obtain ⟨s, hs⟩ := ih hdead' (by omega)
    obtain ⟨hserve, hlen, -⟩ := exec_handle h hnil hdead' hs
    cases a with
    | heartbeat clock nodes =>
      obtain ⟨s', hs', -⟩ := handle_heartbeat hserve clock nodes
      exact ⟨s', Run.exec_snoc_eq_some.mpr ⟨s, hs, hs'⟩⟩
    | rejoin clock node =>
      have hnil : s.recoveryNodes = [] := by
        have hone : [Event.rejoin clock node].countP Event.isRejoin = 1 := rfl
        rw [← List.length_eq_zero_iff, hlen]
        omega
      obtain ⟨s', hs', -⟩ := (handle_rejoin hserve clock node
        (hdead as clock node s (List.prefix_refl _) hs)).2 hnil
      exact ⟨s', Run.exec_snoc_eq_some.mpr ⟨s, hs, hs'⟩⟩

/-! ### After the initial registration -/

/-- Each of the three comparisons is a strict weak order, so sorting permutes the nodes. -/
theorem sortNodes_perm {ns l : List Node} (h : sortNodes env ns = some l) : l.Perm ns := by
  unfold sortNodes at h
  split at h
  · simp at h
  · obtain ⟨cnt, -, h⟩ := Option.bind_eq_some_iff.mp h
    obtain ⟨_, -, h⟩ := Option.bind_eq_some_iff.mp h
    obtain rfl := Option.some.inj h
    refine env.sort.perm (.of_key (fun n => toLex (cnt n.hostname,
      toLex (OrderDual.toDual (hostKey n.hostname), n.port))) fun a b => ?_) ns
    rw [Prod.Lex.toLex_lt_toLex, Prod.Lex.toLex_lt_toLex, OrderDual.toDual_lt_toDual]
    by_cases hab : cnt a.hostname = cnt b.hostname
    · simp [hab, addressLess_iff, hostKey_inj]
    · simp [hab]
  · obtain ⟨pos, -, h⟩ := Option.bind_eq_some_iff.mp h
    obtain rfl := Option.some.inj h
    exact env.sort.perm (.of_key (fun n => (pos n.hostname).getD 0) fun a b => by simp) ns
  · obtain rfl := Option.some.inj h
    exact env.sort.perm strictWeak_addressLess ns

theorem withIds_oneEntryPerId {l : List Node} (h : Registering env.po l) (hok : RanksOk env.po l) :
    ((withIds (withPreferredRank l) 0 0 l).map Node.id).Perm
      (env.po.nodeIds (kWorkerGroup + kServerGroup)) := by
  have hservers := withIds_perm (.inl rfl) h.servers fun hp => (checkPreferredRanks_perm (hok hp)).1
  have hworkers := withIds_perm (.inr rfl) h.workers fun hp => (checkPreferredRanks_perm (hok hp)).2
  have hroles := withIds_map (withPreferredRank l) Node.role (fun _ _ => rfl) 0 0 l
  generalize withIds (withPreferredRank l) 0 0 l = table at hservers hworkers hroles
  have hsplit := (List.filter_append_perm (fun n : Node => n.role = .worker) table).map Node.id
  have hnot : table.filter (fun n => !decide (n.role = .worker)) =
      table.filter fun n => n.role = .server := by
    refine List.filter_congr fun n hn => ?_
    have hrole : n.role ∈ l.map Node.role := hroles ▸ List.mem_map_of_mem hn
    obtain ⟨m, hm, hrole⟩ := List.mem_map.mp hrole
    rcases h.roles m hm with hr | hr <;> simp [← hrole, hr]
  rw [hnot, List.map_append] at hsplit
  rw [Postoffice.nodeIds_group _ (by decide), if_pos (by decide), if_pos (by decide),
    if_neg (by decide), List.append_nil]
  exact hsplit.symm.trans (hworkers.append hservers)

theorem serving_register {my : Node} {startTime : Int} {arrivals : List (Clock × Node)}
    (h : Registering env.po (arrivals.map Prod.snd))
    (hvan : register env my startTime arrivals = some van) (hready : van.ready = true) :
    Serving env van ∧ van.recoveryNodes = [] := by
  have hne : arrivals ≠ [] := by
    rintro rfl
    obtain rfl := Option.some.inj hvan
    simp at hready
  obtain ⟨l, hsort⟩ : ∃ l, sortNodes env (arrivals.map Prod.snd) = some l := by
    obtain ⟨as, a, rfl⟩ := List.eq_nil_or_concat' arrivals |>.resolve_left hne
    have hlen := h.length_eq
    rw [List.length_map] at hlen
    rw [register_last hlen] at hvan
    obtain ⟨l, hl, -⟩ := Option.bind_eq_some_iff.mp hvan
    exact ⟨l, hl⟩
  have hl := sortNodes_perm hsort
  obtain ⟨hsome, hnone⟩ := register_of_sort my startTime h hne hsort hl
  have hok : RanksOk env.po l := by
    by_contra hok
    rw [hnone hok] at hvan
    simp at hvan
  obtain ⟨van', my', hvan', hnodes, -, hrec⟩ := hsome hok
  obtain rfl := Option.some.inj (hvan'.symm.trans hvan)
  refine ⟨⟨hready, by simp [hnodes], ?_⟩, hrec⟩
  rw [OneEntryPerId, registered, hnodes, List.dropLast_concat]
  exact withIds_oneEntryPerId (h.perm hl.symm) hok

/-- Recoveries go through, with all they promise, exactly as long as there is at most one of them in
the life of the scheduler. -/
theorem recovers_iff (env : SchedulerEnv) (my : Node) (startTime : Int)
    (arrivals : List (Clock × Node)) (hreg : Registering env.po (arrivals.map Prod.snd))
    (van : Scheduler) (hvan : register env my startTime arrivals = some van)
    (hready : van.ready = true) (events : List Event) (hdead : RejoinsReplaceDead env van events) :
    RecoversAll env van events ↔ events.countP Event.isRejoin ≤ 1 := by
  obtain ⟨hserve, hnil⟩ := serving_register hreg hvan hready
  constructor
  · rintro ⟨⟨last, hlast, -⟩, -⟩
    exact (exec_handle hserve hnil hdead hlast).2.2
  · intro hle
    obtain ⟨last, hlast⟩ := exists_exec_handle hserve hnil hdead hle
    refine ⟨⟨last, hlast, (exec_handle hserve hnil hdead hlast).1.ids⟩, ?_⟩
    intro before clock node hpre
    have hdead' : RejoinsReplaceDead env van before := fun b c n s hb =>
      hdead b c n s (hb.trans ((List.prefix_append _ _).trans hpre))
    have hcount : (before ++ [Event.rejoin clock node]).countP Event.isRejoin ≤ 1 :=
      hpre.sublist.countP_le.trans hle
    have hone : [Event.rejoin clock node].countP Event.isRejoin = 1 := rfl
    rw [List.countP_append] at hcount
    obtain ⟨s, hs⟩ := exists_exec_handle hserve hnil hdead' (by omega)
    obtain ⟨hserve', hlen, -⟩ := exec_handle hserve hnil hdead' hs
    have hnil' : s.recoveryNodes = [] := by
      rw [← List.length_eq_zero_iff, hlen]
      omega
    obtain ⟨s', hs', hserve'', -, hrec⟩ :=
      (handle_rejoin hserve' clock node (hdead before clock node s hpre hs)).2 hnil'
    exact ⟨s, s', hs, hs', hrec, hserve''.ids⟩

def sampleVan : Option Scheduler :=
  register sampleEnv (sampleNode .scheduler 8000 (-1)) 0 sampleArrivals

/-- A server restarts, much later the worker does. -/
def sampleRejoins : List Event :=
  [.rejoin ⟨100, 100, 100⟩ (sampleNode .server 9001 (-1)),
    .rejoin ⟨200, 200, 200⟩ (sampleNode .worker 9002 (-1))]

/-- `RejoinsReplaceDead`, event by event, as a computation. -/
def checkRejoins (env : SchedulerEnv) : Scheduler → List Event → Bool
  | _, [] => true
  | van, e :: events =>
    (match e with
      | .heartbeat .. => true
      | .rejoin clock node => van.registered.any fun n =>
          n.id ∈ deadAt env van clock.onArrival ∧ n.role = node.role) &&
    (handle env van e).all fun van => checkRejoins env van events

theorem rejoinsReplaceDead_of_check {events : List Event} (h : checkRejoins env van events) :
    RejoinsReplaceDead env van events := by
  intro before clock node s hpre hs
  induction before generalizing van events with
  | nil =>
    obtain ⟨rest, rfl⟩ := hpre
    obtain rfl := Option.some.inj hs
    simp only [List.nil_append, List.cons_append, checkRejoins, Bool.and_eq_true, List.any_eq_true,
      decide_eq_true_iff] at h
    exact h.1
  | cons e before ih =>
    obtain ⟨rest, rfl⟩ := hpre
    obtain ⟨van', hvan', hs⟩ := Option.bind_eq_some_iff.mp hs
    simp only [List.cons_append, checkRejoins, Bool.and_eq_true, hvan', Option.all_some] at h
    exact ih h.2 ⟨rest, by simp⟩ hs

theorem second_recovery_fails :
    ∃ van, sampleVan = some van ∧ RejoinsReplaceDead sampleEnv van sampleRejoins ∧
      Run.exec (handle sampleEnv) van sampleRejoins = none := by
  have hcheck : sampleVan.all (fun van => checkRejoins sampleEnv van sampleRejoins) := by decide
  have hnone : (sampleVan.bind fun van => Run.exec (handle sampleEnv) van sampleRejoins).isNone := by
    decide
  obtain ⟨van, hvan⟩ := Option.isSome_iff_exists.mp (show sampleVan.isSome by decide)
  rw [hvan] at hcheck hnone
  exact ⟨van, hvan, rejoinsReplaceDead_of_check hcheck, Option.isNone_iff_eq_none.mp hnone⟩

theorem recovers_iff_one_rejoin :
    ∃ van, sampleVan = some van ∧ RecoversAll sampleEnv van (sampleRejoins.take 1) := by
  have hcheck : sampleVan.all (fun van => checkRejoins sampleEnv van (sampleRejoins.take 1)) := by
    decide
  have hready : sampleVan.all Scheduler.ready := by decide
  obtain ⟨van, hvan⟩ := Option.isSome_iff_exists.mp (show sampleVan.isSome by decide)
  rw [hvan] at hcheck hready
  exact ⟨van, hvan, (recovers_iff sampleEnv (sampleNode .scheduler 8000 (-1)) 0 sampleArrivals
    ⟨by decide, by decide, by decide, by decide, by decide⟩ van hvan hready (sampleRejoins.take 1)
    (rejoinsReplaceDead_of_check hcheck)).mpr (by decide)⟩

end StepMesh.Scheduler
