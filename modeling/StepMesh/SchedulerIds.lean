import Mathlib.Data.List.Lex
import Mathlib.Data.Prod.Lex
import StepMesh.Scheduler

/-!
# The ids the scheduler assigns

In the default mode the registered nodes are sorted with a comparison that or-s the result of
`std::string::compare` with a comparison of the ports. It is a strict weak order that tells any two
addresses apart (`strictWeak_addressLess`), so the sorted table, and with it every id, is the same
whatever order the nodes arrive in. The ids themselves count up per role, or are the preferred ranks,
which the scheduler has checked to be `0, 1, …`.
-/

namespace StepMesh

/-! ### The comparison of the default mode -/

abbrev hostKey (h : List UInt8) : List Nat := h.map UInt8.toNat

theorem hostKey_inj {a b : List UInt8} : hostKey a = hostKey b ↔ a = b :=
  (List.map_injective_iff.mpr fun _ _ => UInt8.toNat_inj.mp).eq_iff

theorem memcmp_bound (a b : List UInt8) : -2 ^ 8 < memcmp a b ∧ memcmp a b < 2 ^ 8 := by
  fun_induction memcmp a b with
  | case1 _ _ _ ih => exact ih
  | case2 a _ b _ _ => have := a.toNat_lt; have := b.toNat_lt; omega
  | case3 => decide

/-- The sign of `memcmp`, and of the lengths where it is zero, is the lexicographic order. -/
theorem memcmp_spec (a b : List UInt8) :
    (0 < memcmp a b → hostKey b < hostKey a) ∧ (memcmp a b < 0 → hostKey a < hostKey b) ∧
    (memcmp a b = 0 → (a.length < b.length → hostKey a < hostKey b) ∧
      (b.length < a.length → hostKey b < hostKey a) ∧ (a.length = b.length → a = b)) := by
  fun_induction memcmp a b with
  | case1 as a bs ih => simpa [List.cons_lt_cons_iff] using ih
  | case2 a as b bs hne =>
    have hne : a.toNat ≠ b.toNat := fun h => hne (UInt8.toNat_inj.mp h)
    refine ⟨fun h => ?_, fun h => ?_, fun h => by omega⟩
    · exact List.cons_lt_cons_iff.mpr (.inl (by omega))
    · exact List.cons_lt_cons_iff.mpr (.inl (by omega))
  | case3 a b h =>
    match a, b, h with
    | [], [], _ => simp
    | [], _ :: _, _ => simp
    | _ :: _, [], _ => simp
    | _ :: _, _ :: _, h => exact absurd rfl (h _ _ _ _ rfl)

theorem stringCompare_spec (a b : List UInt8) :
    -2 ^ 31 ≤ stringCompare a b ∧ stringCompare a b < 2 ^ 31 ∧
    (0 < stringCompare a b ↔ hostKey b < hostKey a) ∧ (stringCompare a b = 0 ↔ a = b) := by
  have hb := memcmp_bound a b
  obtain ⟨hpos, hneg, hzero⟩ := memcmp_spec a b
  have hlt : (0 < stringCompare a b → hostKey b < hostKey a) ∧
      (stringCompare a b < 0 → hostKey a < hostKey b) ∧ (stringCompare a b = 0 → a = b) := by
    unfold stringCompare
    split
    · next h =>
      obtain ⟨hl, hg, he⟩ := hzero h
      exact ⟨fun h => hg (by omega), fun h => hl (by omega), fun h => he (by omega)⟩
    · next h => exact ⟨hpos, hneg, fun h' => absurd h' h⟩
  refine ⟨?_, ?_, ⟨hlt.1, fun h => ?_⟩, ⟨hlt.2.2, fun h => ?_⟩⟩
  · unfold stringCompare; split <;> omega
  · unfold stringCompare; split <;> omega
  · by_contra hle
    rcases (Int.not_lt.mp hle).lt_or_eq with hlt' | heq
    · exact lt_asymm h (hlt.2.1 hlt')
    · rw [hlt.2.2 heq] at h
      exact lt_irrefl _ h
  · subst h
    rcases lt_trichotomy (stringCompare a a) 0 with h | h | h
    · exact absurd (hlt.2.1 h) (lt_irrefl _)
    · exact h
    · exact absurd (hlt.1 h) (lt_irrefl _)

theorem toInt_or_pos_iff (x : BitVec 32) (p : Prop) [Decidable p] :
    (x ||| if p then 1 else 0).toInt > 0 ↔ x.toInt > 0 ∨ x.toInt = 0 ∧ p := by
  have hx := x.toInt_eq_msb_cond
  by_cases hp : p
  · have hor := (x ||| 1).toInt_eq_msb_cond
    have hmsb : (x ||| 1).msb = x.msb := by simp [BitVec.msb_or]
    have hone : 1 ≤ (x ||| 1).toNat := by
      rw [BitVec.toNat_or]
      exact Nat.right_le_or
    have hlt := (x ||| 1).isLt
    have hlt' := x.isLt
    simp only [hp, if_true, and_true]
    rw [hmsb] at hor
    cases hm : x.msb <;> simp only [hm, if_true, Bool.false_eq_true, if_false] at hx hor <;> omega
  · simp [hp]

theorem addressLess_iff (a b : Node) :
    addressLess a b ↔ hostKey b.hostname < hostKey a.hostname ∨
      a.hostname = b.hostname ∧ a.port < b.port := by
  obtain ⟨h₁, h₂, hpos, hzero⟩ := stringCompare_spec a.hostname b.hostname
  have htoInt : (BitVec.ofInt 32 (stringCompare a.hostname b.hostname)).toInt =
      stringCompare a.hostname b.hostname := by
    rw [BitVec.toInt_ofInt, Int.bmod_eq_of_le (by omega) (by omega)]
  rw [addressLess, decide_eq_true_iff, toInt_or_pos_iff, htoInt, gt_iff_lt, hpos, hzero]

theorem strictWeak_addressLess : StrictWeak addressLess :=
  .of_key (fun n => toLex (OrderDual.toDual (hostKey n.hostname), n.port)) fun a b => by
    rw [addressLess_iff, Prod.Lex.toLex_lt_toLex, OrderDual.toDual_lt_toDual]
    simp [hostKey_inj]

theorem address_eq_of_not_addressLess {a b : Node} (hab : addressLess a b = false)
    (hba : addressLess b a = false) : a.hostname = b.hostname ∧ a.port = b.port := by
  rw [Bool.eq_false_iff, ne_eq, addressLess_iff, not_or] at hab hba
  have hhost : a.hostname = b.hostname := hostKey_inj.mp
    (le_antisymm (not_lt.mp hab.1) (not_lt.mp hba.1))
  refine ⟨hhost, ?_⟩
  have h₁ : ¬ a.port < b.port := fun h => hab.2 ⟨hhost, h⟩
  have h₂ : ¬ b.port < a.port := fun h => hba.2 ⟨hhost.symm, h⟩
  omega

/-! ### The key of `connected_nodes_` -/

theorem toNat_digit {d : Nat} (hd : d < 10) : (UInt8.ofNat (48 + d)).toNat = 48 + d := by
  simp [UInt8.toNat_ofNat', Nat.mod_eq_of_lt (show 48 + d < 256 by omega)]

theorem natToString_digits {n : Nat} {c : UInt8} (hc : c ∈ natToString n) :
    48 ≤ c.toNat ∧ c.toNat < 58 := by
  unfold natToString at hc
  split at hc
  · obtain rfl : c = ascii '0' := by simpa using hc
    decide
  · simp only [List.mem_reverse, List.mem_map] at hc
    obtain ⟨d, hd, rfl⟩ := hc
    have := Nat.digits_lt_base (by decide) hd
    rw [toNat_digit this]
    omega

theorem ofDigits_natToString (n : Nat) :
    Nat.ofDigits 10 ((natToString n).reverse.map fun c => c.toNat - 48) = n := by
  unfold natToString
  split
  · next h => subst h; decide
  · have hdigit : ∀ d ∈ Nat.digits 10 n, (UInt8.ofNat (48 + d)).toNat - 48 = d := fun d hd => by
      rw [toNat_digit (Nat.digits_lt_base (by decide) hd)]
      omega
    have hmap : (Nat.digits 10 n).map ((fun c => c.toNat - 48) ∘ fun d => UInt8.ofNat (48 + d)) =
        Nat.digits 10 n := (List.map_congr_left hdigit).trans (List.map_id _)
    rw [List.reverse_reverse, List.map_map, hmap, Nat.ofDigits_digits]

theorem natToString_inj {m n : Nat} (h : natToString m = natToString n) : m = n := by
  rw [← ofDigits_natToString m, h, ofDigits_natToString]

theorem intToString_inj {i j : Int} (h : intToString i = intToString j) : i = j := by
  have hminus : ∀ {m n : Nat}, natToString m ≠ ascii '-' :: natToString n := fun {m n} h => by
    have := natToString_digits (n := m) (c := ascii '-') (h ▸ List.mem_cons_self)
    exact absurd this.1 (by decide)
  match i, j with
  | .ofNat m, .ofNat n => exact congrArg Int.ofNat (natToString_inj h)
  | .negSucc m, .negSucc n =>
    have := natToString_inj (List.cons.inj h).2
    exact congrArg Int.negSucc (by omega)
  | .ofNat m, .negSucc n => exact absurd h hminus
  | .negSucc m, .ofNat n => exact absurd h.symm hminus

theorem colon_notMem_intToString (i : Int) : ascii ':' ∉ intToString i := by
  have hnat : ∀ n, ascii ':' ∉ natToString n := fun n h => by
    have := natToString_digits h
    exact absurd this.2 (by decide)
  match i with
  | .ofNat n => exact hnat n
  | .negSucc n =>
    intro h
    rcases List.mem_cons.mp h with h | h
    · exact absurd h (by decide)
    · exact hnat _ h

theorem nodeHostIp_inj {a b : Node} (h : nodeHostIp a = nodeHostIp b) :
    a.hostname = b.hostname ∧ a.port = b.port := by
  -- both split at their last colon
  have hsplit : ∀ {x y s t : List UInt8}, ascii ':' ∉ s → x ++ ascii ':' :: s = y ++ ascii ':' :: t →
      y.length ≤ x.length := fun {x y s t} hs h => by
    by_contra hlt
    have hx : x ++ [ascii ':'] <+: y ++ ascii ':' :: t := ⟨s, by simpa using h⟩
    obtain ⟨z, rfl⟩ := List.prefix_of_prefix_length_le hx (List.prefix_append ..) (by simp; omega)
    obtain rfl : s = z ++ ascii ':' :: t := by simpa using h
    simp at hs
  have hle := hsplit (colon_notMem_intToString _) h
  have hge := hsplit (colon_notMem_intToString _) h.symm
  obtain ⟨hhost, hport⟩ := List.append_inj h (by omega)
  exact ⟨hhost, intToString_inj (List.cons.inj hport).2⟩

namespace Scheduler

variable {env : SchedulerEnv} {van van' : Scheduler}

/-! ### Sending -/

/-- What `send` leaves in the log for each of several receivers. -/
def sends (f : NodeId → Meta) : Int → List NodeId → List Effect
  | _, [] => []
  | ts, r :: rs => .send { msgMeta := { f r with recver := r, timestamp := ts } } :: sends f (ts + 1) rs

theorem foldl_send (f : NodeId → Meta) (rs : List NodeId) (van : Scheduler) :
    rs.foldl (fun van r => van.send r (f r)) van =
      { van with
        timestamp := van.timestamp + rs.length
        log := van.log ++ sends f van.timestamp rs } := by
  induction rs generalizing van with
  | nil => simp [sends]
  | cons r rs ih =>
    rw [List.foldl_cons, ih]
    simp [send, sends, add_comm, add_left_comm]

theorem mem_sends {f : NodeId → Meta} {rs : List NodeId} {r : NodeId} (h : r ∈ rs) (ts : Int) :
    ∃ ts', .send { msgMeta := { f r with recver := r, timestamp := ts' } } ∈ sends f ts rs := by
  induction rs generalizing ts with
  | nil => simp at h
  | cons r' rs ih =>
    rcases List.mem_cons.mp h with rfl | h
    · exact ⟨ts, List.mem_cons_self⟩
    · obtain ⟨ts', hts'⟩ := ih h (ts + 1)
      exact ⟨ts', List.mem_cons_of_mem _ hts'⟩

/-! ### Assigning the ids -/

/-- The table the assignment loop leaves when no address has been seen before. -/
def withIds (preferred : Bool) : Int → Int → List Node → List Node
  | _, _, [] => []
  | ns, nw, n :: l => { n with id := rankId preferred ns nw n } ::
      withIds preferred (ns + if n.role = .server then 1 else 0)
        (nw + if n.role = .worker then 1 else 0) l

theorem execOut_assignId {preferred : Bool} {t : Int} {l : List Node} {van : Scheduler}
    (hnd : (l.map nodeHostIp).Nodup) (hid : ∀ n ∈ l, n.id = kEmpty)
    (hnew : ∀ n ∈ l, van.connectedNodes (nodeHostIp n) = none) :
    ∃ van', Run.execOut (assignId preferred t) van l =
        some (van', withIds preferred van.numServers van.numWorkers l) ∧
      van'.sharedNodeMapping = van.sharedNodeMapping ∧ van'.myNode = van.myNode ∧
      van'.recoveryNodes = van.recoveryNodes := by
  induction l generalizing van with
  | nil => exact ⟨van, rfl, rfl, rfl, rfl⟩
  | cons n l ih =>
    obtain ⟨hn, hnd⟩ := List.nodup_cons.mp hnd
    have hstep : ∃ van₁, assignId preferred t van n =
          some (van₁, { n with id := rankId preferred van.numServers van.numWorkers n }) ∧
        van₁.connectedNodes = Function.update van.connectedNodes (nodeHostIp n)
          (some (rankId preferred van.numServers van.numWorkers n)) ∧
        van₁.numServers = van.numServers + (if n.role = .server then 1 else 0) ∧
        van₁.numWorkers = van.numWorkers + (if n.role = .worker then 1 else 0) ∧
        van₁.sharedNodeMapping = van.sharedNodeMapping ∧ van₁.myNode = van.myNode ∧
        van₁.recoveryNodes = van.recoveryNodes := by
      simp only [assignId, hnew n List.mem_cons_self, hid n List.mem_cons_self]
      exact ⟨_, rfl, rfl, rfl, rfl, rfl, rfl, rfl⟩
    obtain ⟨van₁, hstep, hconn, hns, hnw, hshared, hmy, hrec⟩ := hstep
    have hnew₁ : ∀ m ∈ l, van₁.connectedNodes (nodeHostIp m) = none := fun m hm => by
      have hne : nodeHostIp m ≠ nodeHostIp n := fun h => hn (h ▸ List.mem_map_of_mem hm)
      rw [hconn, Function.update_of_ne hne]
      exact hnew m (List.mem_cons_of_mem _ hm)
    obtain ⟨van₂, hrun, hshared₂, hmy₂, hrec₂⟩ :=
      ih hnd (fun m hm => hid m (List.mem_cons_of_mem _ hm)) hnew₁
    refine ⟨van₂, ?_, hshared₂.trans hshared, hmy₂.trans hmy, hrec₂.trans hrec⟩
    simp only [Run.execOut, hstep, Option.bind_eq_bind, Option.bind_some, hrun, hns, hnw]
    rfl

theorem withIds_map (preferred : Bool) (f : Node → α) (hf : ∀ n id, f { n with id := id } = f n) (ns nw : Int)
    (l : List Node) : (withIds preferred ns nw l).map f = l.map f := by
  induction l generalizing ns nw with
  | nil => rfl
  | cons n l ih => simp [withIds, hf, ih]

theorem withIds_map_id_preferred (ns nw : Int) (l : List Node) :
    ∀ n ∈ withIds true ns nw l, n.id =
      if n.role = .server then serverRankToID n.auxId else workerRankToID n.auxId := by
  induction l generalizing ns nw with
  | nil => simp [withIds]
  | cons n l ih =>
    intro m hm
    rcases List.mem_cons.mp hm with rfl | hm
    · simp [rankId]
    · exact ih _ _ m hm

/-- The id of the node of a role and a rank. -/
def roleId (role : Role) (rank : Int) : NodeId :=
  if role = .server then serverRankToID rank else workerRankToID rank

theorem withIds_map_id {role : Role} (hrole : role = .server ∨ role = .worker) (ns nw : Int)
    (l : List Node) :
    ((withIds false ns nw l).filter fun n => n.role = role).map Node.id =
      (List.range (l.filter fun n => n.role = role).length).map fun i : Nat =>
        roleId role ((if role = .server then ns else nw) + i) := by
  induction l generalizing ns nw with
  | nil => rfl
  | cons n l ih =>
    by_cases hn : n.role = role
    · simp only [withIds, hn, decide_true, List.filter_cons_of_pos, List.map_cons, ih,
        List.length_cons, List.range_succ_eq_map, List.map_map, Nat.cast_zero, add_zero]
      congr 1
      · rcases hrole with rfl | rfl <;> simp [rankId, roleId, hn]
      · refine List.map_congr_left fun i _ => ?_
        rcases hrole with rfl | rfl <;> simp [add_comm, add_left_comm]
    · rw [withIds, List.filter_cons_of_neg (by simpa using hn), ih,
        List.filter_cons_of_neg (by simpa using hn)]
      rcases hrole with rfl | rfl <;> simp [hn]

/-! ### Preferred ranks -/

theorem preferredRanks_eq_some {l : List Node} {servers workers : List Int}
    (h : preferredRanks l = some (servers, workers)) :
    servers = (l.filter fun n => n.role = .server).map Node.auxId ∧
    workers = (l.filter fun n => n.role = .worker).map Node.auxId := by
  induction l using List.reverseRecOn generalizing servers workers with
  | nil =>
    obtain ⟨rfl, rfl⟩ : [] = servers ∧ [] = workers := by simpa [preferredRanks] using h
    simp
  | append_singleton l n ih =>
    simp only [preferredRanks, List.foldlM_append, List.foldlM_cons, List.foldlM_nil,
      Option.bind_eq_bind, Option.bind_eq_some_iff] at h
    obtain ⟨⟨servers', workers'⟩, hl, _, hn, h⟩ := h
    obtain rfl := Option.some.inj h
    obtain ⟨hs, hw⟩ := ih hl
    split at hn
    · next hrole =>
      obtain ⟨_, -, hn⟩ := Option.bind_eq_some_iff.mp hn
      obtain ⟨rfl, rfl⟩ := Prod.mk.inj (Option.some.inj hn)
      exact ⟨by simp [hs, hrole], by simp [hw, hrole]⟩
    · next hrole =>
      obtain ⟨_, -, hn⟩ := Option.bind_eq_some_iff.mp hn
      obtain ⟨rfl, rfl⟩ := Prod.mk.inj (Option.some.inj hn)
      exact ⟨by simp [hs, hrole], by simp [hw, hrole]⟩
    · simp at hn

theorem checkContinuity_perm {ranks : List Int} {n : Nat} (h : checkContinuity ranks n = some ()) :
    ranks.Perm ((List.range n).map fun i : Nat => (i : Int)) := by
  obtain ⟨_, hmem, hlen⟩ := Option.bind_eq_some_iff.mp h
  have hlen := (Option.guard_eq_some' _).mp hlen
  have hmem := (Option.guard_eq_some' _).mp hmem
  have hsub : (List.range n).map (fun i : Nat => (i : Int)) ⊆ ranks := by
    intro r hr
    obtain ⟨i, hi, rfl⟩ := List.mem_map.mp hr
    exact hmem i (List.mem_range.mp hi)
  have hrange : ((List.range n).map fun i : Nat => (i : Int)).Nodup :=
    List.nodup_range.map fun _ _ => Int.ofNat.inj
  exact ((List.subperm_of_subset hrange hsub).perm_of_length_le (by simp [hlen])).symm

/-- When the checks pass, the preferred ranks of each role are `0, 1, …`, each once. -/
theorem checkPreferredRanks_perm {po : Postoffice} {l : List Node}
    (h : checkPreferredRanks po l = some ()) :
    ((l.filter fun n => n.role = .server).map Node.auxId).Perm
      ((List.range (po.numServers * po.groupSize)).map fun i : Nat => (i : Int)) ∧
    ((l.filter fun n => n.role = .worker).map Node.auxId).Perm
      ((List.range (po.numWorkers * po.groupSize)).map fun i : Nat => (i : Int)) := by
  obtain ⟨⟨servers, workers⟩, hranks, h⟩ := Option.bind_eq_some_iff.mp h
  obtain ⟨_, hs, hw⟩ := Option.bind_eq_some_iff.mp h
  obtain ⟨hservers, hworkers⟩ := preferredRanks_eq_some hranks
  exact ⟨hservers ▸ checkContinuity_perm hs, hworkers ▸ checkContinuity_perm hw⟩

/-! ### The initial registration -/

/-- The nodes of one registration: the configured numbers of servers and workers, none with an id
yet, at pairwise distinct addresses. -/
structure Registering (po : Postoffice) (ns : List Node) : Prop where
  roles : ∀ n ∈ ns, n.role = .server ∨ n.role = .worker
  servers : (ns.filter fun n => n.role = .server).length = po.numServers * po.groupSize
  workers : (ns.filter fun n => n.role = .worker).length = po.numWorkers * po.groupSize
  fresh : ∀ n ∈ ns, n.id = kEmpty
  addresses : (ns.map fun n => (n.hostname, n.port)).Nodup

namespace Registering

variable {po : Postoffice} {ns ns' : List Node}

theorem perm (h : Registering po ns) (hp : ns.Perm ns') : Registering po ns' where
  roles n hn := h.roles n (hp.mem_iff.mpr hn)
  servers := (hp.filter _).length_eq ▸ h.servers
  workers := (hp.filter _).length_eq ▸ h.workers
  fresh n hn := h.fresh n (hp.mem_iff.mpr hn)
  addresses := (hp.map _).nodup_iff.mp h.addresses

theorem length_eq (h : Registering po ns) : ns.length = numNodes po := by
  have hworkers : ns.filter (fun n => n.role = .worker) = ns.filter (fun n => !decide (n.role = .server)) :=
    List.filter_congr fun n hn => by rcases h.roles n hn with hr | hr <;> simp [hr]
  rw [numNodes, ← h.servers, ← h.workers, hworkers]
  exact List.length_eq_length_filter_add _

theorem nodup_nodeHostIp (h : Registering po ns) : (ns.map nodeHostIp).Nodup := by
  refine List.Nodup.map_on (fun a ha b hb hab => ?_) h.addresses.of_map
  obtain ⟨hhost, hport⟩ := nodeHostIp_inj hab
  exact List.inj_on_of_nodup_map h.addresses ha hb (Prod.ext hhost hport)

/-- Whatever order the nodes came in, the sort of the default mode gives one table. -/
theorem sort_eq (h : Registering po ns) (hp : ns.Perm ns') (S : StdSort Node) :
    S.sort addressLess ns = S.sort addressLess ns' :=
  S.sort_eq_of_perm S strictWeak_addressLess hp fun a ha b hb hab hba => by
    obtain ⟨hhost, hport⟩ := address_eq_of_not_addressLess hab hba
    exact List.inj_on_of_nodup_map h.addresses ha hb (Prod.ext hhost hport)

end Registering

/-- The scheduler while nodes are still missing. -/
def collecting (env : SchedulerEnv) (my : Node) (startTime : Int) (ns : List Node) : Scheduler :=
  { myNode := ns.foldl (fun my n => updateMyId env my [n]) my, startTime := startTime, nodes := ns }

variable {my : Node} {startTime : Int} {arrivals : List (Clock × Node)}

theorem updateLocalID_collecting {ns : List Node} (hlt : ns.length < numNodes env.po) (n : Node)
    (dead : List NodeId) :
    (collecting env my startTime ns).updateLocalID env (registration n) dead =
      some (collecting env my startTime (ns ++ [n])) := by
  simp [updateLocalID, collecting, registration, hlt]

theorem receiving_collecting {ns : List Node} (hlt : ns.length < numNodes env.po) (c : Clock)
    (n : Node) :
    receiving env (collecting env my startTime ns) (c, registration n) =
      (collecting env my startTime (ns ++ [n])).processAddNodeCommandAtScheduler env c.onAssign
        c.onRecovery := by
  show processAddNodeCommand _ _ _ _ = _
  rw [processAddNodeCommand, updateLocalID_collecting hlt]
  rfl

theorem register_snoc (as : List (Clock × Node)) (a : Clock × Node) :
    register env my startTime (as ++ [a]) =
      (register env my startTime as).bind fun van => receiving env van (a.1, registration a.2) := by
  simp [register, Run.exec]

theorem register_collecting (h : arrivals.length < numNodes env.po) :
    register env my startTime arrivals =
      some (collecting env my startTime (arrivals.map Prod.snd)) := by
  induction arrivals using List.reverseRecOn with
  | nil => rfl
  | append_singleton as a ih =>
    rw [List.length_append, List.length_singleton] at h
    have hlt : (as.map Prod.snd).length < numNodes env.po := by
      rw [List.length_map]
      omega
    have hne : (as.map Prod.snd ++ [a.2]).length ≠ numNodes env.po := by
      rw [List.length_append, List.length_map, List.length_singleton]
      omega
    rw [register_snoc, ih (by omega), Option.bind_some, receiving_collecting hlt,
      processAddNodeCommandAtScheduler, List.map_append, List.map_singleton]
    exact (if_neg hne).trans (if_neg (not_not.mpr rfl))

theorem register_last {as : List (Clock × Node)} {a : Clock × Node}
    (h : (as ++ [a]).length = numNodes env.po) :
    register env my startTime (as ++ [a]) =
      (collecting env my startTime ((as ++ [a]).map Prod.snd)).assignAll env a.1.onAssign := by
  rw [List.length_append, List.length_singleton] at h
  have hlt : (as.map Prod.snd).length < numNodes env.po := by
    rw [List.length_map]
    omega
  have heq : (as.map Prod.snd ++ [a.2]).length = numNodes env.po := by
    rw [List.length_append, List.length_map, List.length_singleton]
    exact h
  rw [register_snoc, register_collecting (by omega), Option.bind_some, receiving_collecting hlt,
    processAddNodeCommandAtScheduler, List.map_append, List.map_singleton]
  exact if_pos heq

/-- The checks on the preferred ranks, where there are any. -/
def RanksOk (po : Postoffice) (l : List Node) : Prop :=
  withPreferredRank l → checkPreferredRanks po l = some ()

instance (po : Postoffice) (l : List Node) : Decidable (RanksOk po l) :=
  inferInstanceAs (Decidable (_ → _))

theorem assignAll_of_ranksOk {van₁ : Scheduler} {l nodes : List Node} {t : Int}
    (hsort : sortNodes env van.nodes = some l) (hok : RanksOk env.po l)
    (hrun : Run.execOut (assignId (withPreferredRank l) t) van l = some (van₁, nodes)) :
    ∃ ts log, van.assignAll env t = some { van₁ with
      nodes := nodes ++ [van₁.myNode], ready := true, timestamp := ts, log := log } := by
  by_cases hp : withPreferredRank l
  · rw [hp] at hrun
    simp only [assignAll, hsort, Option.bind_eq_bind, Option.bind_some, hp, if_true, hok hp, hrun,
      foldl_send]
    exact ⟨_, _, rfl⟩
  · rw [Bool.not_eq_true] at hp
    rw [hp] at hrun
    simp only [assignAll, hsort, Option.bind_eq_bind, Option.bind_some, hp, Bool.false_eq_true,
      if_false, hrun, foldl_send]
    exact ⟨_, _, rfl⟩

theorem assignAll_of_not_ranksOk {l : List Node} {t : Int}
    (hsort : sortNodes env van.nodes = some l) (hok : ¬ RanksOk env.po l) :
    van.assignAll env t = none := by
  obtain ⟨hp, hcheck⟩ := Classical.not_imp.mp hok
  have hnone : checkPreferredRanks env.po l = none := by
    cases h : checkPreferredRanks env.po l with
    | none => rfl
    | some u => exact absurd h hcheck
  simp only [assignAll, hsort, Option.bind_eq_bind, Option.bind_some, hp, if_true, hnone,
    Option.bind_none]

/-- Nodes that register end up in the table sorted and numbered; once they are sorted, the only
checks that can fail are those on the preferred ranks. -/
theorem register_of_sort (my : Node) (startTime : Int) {l : List Node}
    (h : Registering env.po (arrivals.map Prod.snd)) (hne : arrivals ≠ [])
    (hsort : sortNodes env (arrivals.map Prod.snd) = some l)
    (hl : l.Perm (arrivals.map Prod.snd)) :
    (RanksOk env.po l → ∃ van my', register env my startTime arrivals = some van ∧
      van.nodes = withIds (withPreferredRank l) 0 0 l ++ [my'] ∧
      van.ready = true ∧ van.recoveryNodes = []) ∧
    (¬ RanksOk env.po l → register env my startTime arrivals = none) := by
  obtain ⟨as, a, rfl⟩ := List.eq_nil_or_concat' arrivals |>.resolve_left hne
  have hlen := h.length_eq
  rw [List.length_map] at hlen
  rw [register_last hlen]
  have hreg := h.perm hl.symm
  refine ⟨fun hok => ?_, assignAll_of_not_ranksOk hsort⟩
  obtain ⟨van, hrun, -, -, hrec⟩ := @execOut_assignId (withPreferredRank l) a.1.onAssign l
    (collecting env my startTime ((as ++ [a]).map Prod.snd)) hreg.nodup_nodeHostIp hreg.fresh
    fun _ _ => rfl
  obtain ⟨ts, log, hall⟩ := assignAll_of_ranksOk hsort hok hrun
  exact ⟨_, van.myNode, hall, rfl, rfl, hrec⟩

section default
variable (hmixed : env.mixedMode = false) (hsparse : env.orderedHosts = none)
include hmixed hsparse

theorem sortNodes_default (ns : List Node) :
    sortNodes env ns = some (env.sort.sort addressLess ns) := by
  simp only [sortNodes, hmixed, hsparse]
  rfl

theorem registered_register (my : Node) (startTime : Int)
    (h : Registering env.po (arrivals.map Prod.snd)) {l : List Node}
    (hl : env.sort.sort addressLess (arrivals.map Prod.snd) = l) :
    (register env my startTime arrivals).map registered =
      if RanksOk env.po l then some (withIds (withPreferredRank l) 0 0 l) else none := by
  subst hl
  by_cases hne : arrivals = []
  · subst hne
    have hl : env.sort.sort addressLess [] = [] := (env.sort.perm strictWeak_addressLess []).eq_nil
    rw [List.map_nil, hl]
    rfl
  · obtain ⟨hsome, hnone⟩ := register_of_sort my startTime h hne
      (sortNodes_default hmixed hsparse _) (env.sort.perm strictWeak_addressLess _)
    split
    · next hok =>
      obtain ⟨van, my', hrun, hnodes, -, -⟩ := hsome hok
      simp [hrun, registered, hnodes]
    · next hok => rw [hnone hok]; rfl

end default

theorem withIds_perm {role : Role} {l : List Node} {n : Nat}
    (hrole : role = .server ∨ role = .worker)
    (hlen : (l.filter fun n => n.role = role).length = n)
    (hranks : withPreferredRank l → ((l.filter fun n => n.role = role).map Node.auxId).Perm
      ((List.range n).map fun i : Nat => (i : Int))) :
    (((withIds (withPreferredRank l) 0 0 l).filter fun n => n.role = role).map Node.id).Perm
      ((List.range n).map fun i : Nat => roleId role i) := by
  cases hp : withPreferredRank l with
  | false =>
    rw [withIds_map_id hrole, hlen]
    simp
  | true =>
    have haux := withIds_map true (fun n => (n.role, n.auxId)) (fun _ _ => rfl) 0 0 l
    have hid : ((withIds true 0 0 l).filter fun n => n.role = role).map Node.id =
        ((withIds true 0 0 l).filter fun n => n.role = role).map fun n => roleId role n.auxId :=
      List.map_congr_left fun m hm => by
        obtain ⟨hm, hr⟩ := List.mem_filter.mp hm
        rw [withIds_map_id_preferred 0 0 l m hm, of_decide_eq_true hr, roleId]
    have hfilter : ∀ l : List Node, (l.filter fun n => n.role = role).map Node.auxId =
        ((l.map fun n => (n.role, n.auxId)).filter fun p => p.1 = role).map Prod.snd := fun l => by
      simp [List.filter_map, Function.comp_def]
    have hrank : ((withIds true 0 0 l).filter fun n => n.role = role).map Node.auxId =
        (l.filter fun n => n.role = role).map Node.auxId := by
      rw [hfilter, haux, ← hfilter]
    have hperm := ((hranks hp).map (roleId role))
    rw [← hrank, List.map_map, List.map_map] at hperm
    rw [hid]
    exact hperm

/-- In the default mode the ids do not depend on the order in which the nodes arrive, nor on the
times, they are those of the server ranks and of the worker ranks, each given once, and where there
are preferred ranks every node has got its own. Without preferred ranks no check fails. -/
theorem register_ids (env : SchedulerEnv) (hmixed : env.mixedMode = false)
    (hsparse : env.orderedHosts = none) (my : Node) (startTime : Int)
    (arrivals arrivals' : List (Clock × Node))
    (hreg : Registering env.po (arrivals.map Prod.snd))
    (hperm : (arrivals.map Prod.snd).Perm (arrivals'.map Prod.snd)) :
    (register env my startTime arrivals).map registered =
      (register env my startTime arrivals').map registered ∧
    ((∀ a ∈ arrivals, a.2.auxId = -1) → (register env my startTime arrivals).isSome) ∧
    ∀ van, register env my startTime arrivals = some van →
      (van.registered.map fun n => { n with id := kEmpty }).Perm (arrivals.map Prod.snd) ∧
      ((van.registered.filter fun n => n.role = .server).map Node.id).Perm
        env.po.serverIds ∧
      ((van.registered.filter fun n => n.role = .worker).map Node.id).Perm
        env.po.workerIds ∧
      ((∃ a ∈ arrivals, a.2.auxId ≠ -1) → ∀ n ∈ van.registered, n.id =
        if n.role = .server then serverRankToID n.auxId else workerRankToID n.auxId) := by
  have hl := env.sort.perm strictWeak_addressLess (arrivals.map Prod.snd)
  have htable := registered_register hmixed hsparse my startTime hreg rfl
  have htable' := registered_register hmixed hsparse my startTime (hreg.perm hperm)
    (hreg.sort_eq hperm env.sort).symm
  generalize env.sort.sort addressLess (arrivals.map Prod.snd) = l at htable htable' hl
  have hlreg := hreg.perm hl.symm
  have hpref : withPreferredRank l ↔ ∃ a ∈ arrivals, a.2.auxId ≠ -1 := by
    simp only [withPreferredRank, List.any_eq_true, decide_eq_true_iff, hl.mem_iff, List.mem_map]
    grind
  refine ⟨htable.trans htable'.symm, fun hnone => ?_, fun van hvan => ?_⟩
  · have hok : RanksOk env.po l := fun hp => by
      obtain ⟨a, ha, hne⟩ := hpref.mp hp
      exact absurd (hnone a ha) hne
    rw [if_pos hok] at htable
    obtain ⟨van, hvan, -⟩ := Option.map_eq_some_iff.mp htable
    exact hvan ▸ rfl
  · rw [hvan, Option.map_some] at htable
    split at htable
    · next hok =>
      rw [Option.some.inj htable]
      refine ⟨?_, ?_, ?_, fun hp => ?_⟩
      · rw [withIds_map _ _ (fun _ _ => rfl)]
        have hempty : l.map (fun n => { n with id := kEmpty }) = l := by
          refine (List.map_congr_left fun n hn => ?_).trans (List.map_id l)
          rw [← hlreg.fresh n hn]
          rfl
        rwa [hempty]
      · exact withIds_perm (.inl rfl) hlreg.servers fun hp => (checkPreferredRanks_perm (hok hp)).1
      · exact withIds_perm (.inr rfl) hlreg.workers fun hp => (checkPreferredRanks_perm (hok hp)).2
      · rw [hpref.mpr hp]
        exact withIds_map_id_preferred 0 0 l
    · simp at htable

def sampleNode (role : Role) (port auxId : Int) : Node :=
  { role := role, customerId := 0, hostname := [49, 48], numPorts := 1, port := port, auxId := auxId
    ports := .replicate 32 0, devTypes := .replicate 32 0, devIds := .replicate 32 0
    endpointName := .replicate 64 0 }

def sampleEnv : SchedulerEnv :=
  { po := { numWorkers := 1, numServers := 2 }, sort := .insertion, heartbeatTimeout := 10 }

/-- A worker between two servers; the sort will swap the servers. -/
def sampleArrivals : List (Clock × Node) :=
  [(⟨1, 1, 1⟩, sampleNode .server 8002 (-1)), (⟨2, 2, 2⟩, sampleNode .worker 8003 (-1)),
    (⟨3, 3, 3⟩, sampleNode .server 8001 (-1))]

theorem register_ids_sample :
    (register sampleEnv (sampleNode .scheduler 8000 (-1)) 0 sampleArrivals).map registered =
      (register sampleEnv (sampleNode .scheduler 8000 (-1)) 0 sampleArrivals.reverse).map registered ∧
    (register sampleEnv (sampleNode .scheduler 8000 (-1)) 0 sampleArrivals).isSome := by
  have h := register_ids sampleEnv rfl rfl (sampleNode .scheduler 8000 (-1)) 0 sampleArrivals
    sampleArrivals.reverse ⟨by decide, by decide, by decide, by decide, by decide⟩
    (by rw [List.map_reverse]; exact (List.reverse_perm _).symm)
  exact ⟨h.1, h.2.1 (by decide)⟩

end Scheduler

end StepMesh
