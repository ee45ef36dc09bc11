import Mathlib.Data.List.Nodup
import Mathlib.Data.List.Perm.Basic
import Mathlib.Data.Option.Basic
import Mathlib.Logic.Function.Basic
import Mathlib.Tactic.IntervalCases
import StepMesh.Lib.Run

/-!
# The receive contexts of an endpoint (`src/rdma_transport.h`, `src/rdma_van.h`)

An `Endpoint` has `kRxDepth` receive contexts, each with a buffer of its own. Every `Init` creates a queue pair
and posts the contexts from `inited * QP_NUM` on; a context that completes is posted again. The contexts
of two queue pairs start two apart, however many each of them posts (`RxFits`), and a rendezvous message that
completes on the second moves its context to the first (`RecvOnFirst`).
-/

namespace StepMesh

/-- What the queue pairs of one endpoint have to receive into: pairs of a queue pair, numbered in the
order of creation, and an index of `rx_ctx`. -/
structure RecvContexts where
  inited : UInt8 := 0
  qpCount : Nat := 0
  cmIds : Nat → Option Nat := fun _ => none
  posted : List (Nat × Nat) := []

namespace RecvContexts

/-- The indices that `Init` posts when `inited` calls have been made before it. -/
def initContexts (kRxDepth qpNum inited : Nat) : List Nat :=
  if inited < qpNum then (List.range (kRxDepth / qpNum)).map (· + inited * qpNum) else []

/-- `Endpoint::Init` for the identifier in `cm_ids[slot]`. -/
def init (kRxDepth qpNum : Nat) (s : RecvContexts) (slot : Nat) : RecvContexts :=
  { inited := s.inited + 1
    qpCount := s.qpCount + 1
    cmIds := Function.update s.cmIds slot (some s.qpCount)
    posted := s.posted ++ (initContexts kRxDepth qpNum s.inited.toNat).map (s.qpCount, ·) }

/-- `cmIdInde`, the slot of the queue pair of a completion. -/
def cmIdIndex (qpNum : Nat) (s : RecvContexts) (qp : Nat) : Nat :=
  (List.range qpNum).foldl (fun i q => if s.cmIds q = some qp then q else i) 0

/-- `ReleaseWorkRequestContext` of a receive context that has completed on a queue pair. -/
def release (s : RecvContexts) (qp ctx slot : Nat) : Option RecvContexts := do
  guard ((qp, ctx) ∈ s.posted)
  let id ← s.cmIds slot
  return { s with posted := s.posted.erase (qp, ctx) ++ [(id, ctx)] }

/-- What happens to an endpoint: a rendezvous message, `IBV_WC_RECV`, is released to the first queue pair,
a write, `IBV_WC_RECV_RDMA_WITH_IMM`, to the one it came in on. -/
inductive Action
  | init (slot : Nat)
  | recv (qp ctx : Nat)
  | recvRdmaWithImm (qp ctx : Nat)
deriving DecidableEq

def step (kRxDepth qpNum : Nat) (s : RecvContexts) : Action → Option RecvContexts
  | .init slot => some (s.init kRxDepth qpNum slot)
  | .recv qp ctx => s.release qp ctx 0
  | .recvRdmaWithImm qp ctx => s.release qp ctx (s.cmIdIndex qpNum qp)

/-- How many times `Init` has been called. -/
def inits (as : List Action) : Nat := as.countP fun a => match a with | .init _ => true | _ => false

/-- The contexts lie in the array, and no buffer is posted on two queue pairs. -/
structure Good (kRxDepth : Nat) (s : RecvContexts) : Prop where
  inArray : ∀ qp ctx, (qp, ctx) ∈ s.posted → ctx < kRxDepth
  apart : ∀ qp qp' ctx, (qp, ctx) ∈ s.posted → (qp', ctx) ∈ s.posted → qp = qp'

/-- The queue pair is one of the endpoint. -/
def Owns (qpNum : Nat) (s : RecvContexts) (qp : Nat) : Prop := ∃ slot < qpNum, s.cmIds slot = some qp

/-- A context that completes on a queue pair of the endpoint is posted there again, so that every queue pair
has what it had. -/
def Reposts (kRxDepth qpNum : Nat) (s : RecvContexts) : Action → Prop
  | .init _ => True
  | .recv qp ctx => s.Owns qpNum qp → ∀ s' ∈ s.step kRxDepth qpNum (.recv qp ctx), s'.posted.Perm s.posted
  | .recvRdmaWithImm qp ctx => s.Owns qpNum qp →
    ∀ s' ∈ s.step kRxDepth qpNum (.recvRdmaWithImm qp ctx), s'.posted.Perm s.posted

/-- Of the queue pairs of the endpoint only the first receives rendezvous messages. -/
def RecvOnFirst (qpNum : Nat) (s : RecvContexts) : Action → Prop
  | .recv qp _ => s.Owns qpNum qp → s.cmIds 0 = some qp
  | _ => True

instance (qpNum : Nat) (s : RecvContexts) (qp : Nat) : Decidable (s.Owns qpNum qp) :=
  inferInstanceAs (Decidable (∃ slot < qpNum, s.cmIds slot = some qp))

instance (qpNum : Nat) (s : RecvContexts) : ∀ a, Decidable (s.RecvOnFirst qpNum a)
  | .recv qp _ => inferInstanceAs (Decidable (s.Owns qpNum qp → s.cmIds 0 = some qp))
  | .init _ | .recvRdmaWithImm _ _ => inferInstanceAs (Decidable True)

/-- The depths at which two queue pairs post different contexts of the array. -/
def RxFits (kRxDepth qpNum : Nat) : Prop := qpNum = 1 ∨ kRxDepth ≤ 1 ∨ 3 ≤ kRxDepth ∧ kRxDepth ≤ 5

/-- All contexts posted by the first calls of `Init`. -/
def allContexts (kRxDepth qpNum n : Nat) : List Nat :=
  (List.range n).flatMap (initContexts kRxDepth qpNum)

variable {kRxDepth qpNum : Nat} {s s' : RecvContexts}

theorem allContexts_succ (n : Nat) : allContexts kRxDepth qpNum (n + 1) =
    allContexts kRxDepth qpNum n ++ initContexts kRxDepth qpNum n := by
  rw [allContexts, List.range_succ, List.flatMap_append, List.flatMap_singleton, allContexts]

theorem cmIds_cmIdIndex {qp : Nat} (h : s.Owns qpNum qp) :
    s.cmIds (s.cmIdIndex qpNum qp) = some qp := by
  unfold cmIdIndex
  induction qpNum with
  | zero =>
    obtain ⟨slot, hslot, -⟩ := h
    omega
  | succ n ih =>
    rw [List.range_succ, List.foldl_append, List.foldl_cons, List.foldl_nil]
    split_ifs with hn
    · exact hn
    · obtain ⟨slot, hslot, hqp⟩ := h
      have hne : slot ≠ n := fun he => hn (he ▸ hqp)
      exact ih ⟨slot, by omega, hqp⟩

theorem perm_release_self {qp ctx slot : Nat} (hslot : s.cmIds slot = some qp)
    (h : s.release qp ctx slot = some s') : s'.posted.Perm s.posted := by
  obtain ⟨_, hmem, h⟩ := Option.bind_eq_some_iff.mp h
  rw [hslot] at h
  obtain rfl := Option.some.inj h
  have hmem : (qp, ctx) ∈ s.posted := (Option.guard_eq_some' _).mp hmem
  exact (List.perm_append_singleton _ _).trans (List.perm_cons_erase hmem).symm

theorem perm_release {qp ctx slot : Nat} (h : s.release qp ctx slot = some s') :
    (s'.posted.map Prod.snd).Perm (s.posted.map Prod.snd) ∧ s'.inited = s.inited := by
  obtain ⟨_, hmem, h⟩ := Option.bind_eq_some_iff.mp h
  obtain ⟨id, -, h⟩ := Option.bind_eq_some_iff.mp h
  obtain rfl := Option.some.inj h
  have hmem : (qp, ctx) ∈ s.posted := (Option.guard_eq_some' _).mp hmem
  have hsnd : (s.posted.erase (qp, ctx) ++ [(id, ctx)]).map Prod.snd =
      (s.posted.erase (qp, ctx) ++ [(qp, ctx)]).map Prod.snd := by
    rw [List.map_append, List.map_append]
    rfl
  refine ⟨?_, rfl⟩
  rw [hsnd]
  exact ((List.perm_append_singleton _ _).trans (List.perm_cons_erase hmem).symm).map _

theorem inits_append_init (as : List Action) (slot : Nat) : inits (as ++ [.init slot]) = inits as + 1 := by
  simp [inits]

theorem inits_append_of_ne_init (as : List Action) {a : Action} (h : ∀ slot, a ≠ .init slot) :
    inits (as ++ [a]) = inits as := by
  cases a with
  | init slot => exact absurd rfl (h slot)
  | recv | recvRdmaWithImm => simp [inits]

theorem inits_mono {as bs : List Action} (h : as <+: bs) : inits as ≤ inits bs := by
  obtain ⟨cs, rfl⟩ := h
  rw [inits, inits, List.countP_append]
  exact Nat.le_add_right _ _

theorem inited_posted {as : List Action} (hinits : inits as ≤ 256)
    (h : Run.exec (step kRxDepth qpNum) {} as = some s) : s.inited = .ofNat (inits as) ∧
      (s.posted.map Prod.snd).Perm (allContexts kRxDepth qpNum (inits as)) := by
  refine Run.exec_induction (fun as s => s.inited = .ofNat (inits as) ∧
      (s.posted.map Prod.snd).Perm (allContexts kRxDepth qpNum (inits as))) (fun as => inits as ≤ 256)
    (fun as a h => ?_) ⟨rfl, .refl _⟩ (fun as a s s' hle ⟨hinited, hperm⟩ hs => ?_) hinits h
  · exact (inits_mono (List.prefix_append as [a])).trans h
  · cases a with
    | init slot =>
      obtain rfl := Option.some.inj hs
      rw [inits_append_init] at hle ⊢
      have hnat : s.inited.toNat = inits as := by
        rw [hinited, UInt8.toNat_ofNat']
        exact Nat.mod_eq_of_lt (by omega)
      refine ⟨by rw [UInt8.ofNat_add, ← hinited]; rfl, ?_⟩
      rw [allContexts_succ]
      show ((s.posted ++ _).map Prod.snd).Perm _
      rw [List.map_append, List.map_map, hnat]
      have hid : (Prod.snd ∘ fun ctx : Nat => (s.qpCount, ctx)) = id := rfl
      rw [hid, List.map_id]
      exact hperm.append_right _
    | recv qp ctx | recvRdmaWithImm qp ctx =>
      obtain ⟨hp, hi⟩ := perm_release hs
      rw [inits_append_of_ne_init as (by simp)]
      exact ⟨hi.trans hinited, hp.trans hperm⟩

/-- From `QP_NUM` calls on, `Init` posts nothing. -/
theorem sublist_allContexts (kRxDepth qpNum n : Nat) :
    List.Sublist (allContexts kRxDepth qpNum n) (allContexts kRxDepth qpNum qpNum) := by
  rcases Nat.le_total n qpNum with hn | hn
  · obtain ⟨k, rfl⟩ := Nat.exists_eq_add_of_le hn
    unfold allContexts
    rw [List.range_add, List.flatMap_append]
    exact List.sublist_append_left _ _
  · obtain ⟨k, rfl⟩ := Nat.exists_eq_add_of_le hn
    induction k with
    | zero => exact .refl _
    | succ k ih =>
      rw [← Nat.add_assoc, allContexts_succ, initContexts, if_neg (by omega), List.append_nil]
      exact ih (by omega)

/-- The contexts of both queue pairs are different ones of the array at the depths that fit. -/
theorem nodup_allContexts (hqp : qpNum = 1 ∨ qpNum = 2) (hfits : RxFits kRxDepth qpNum) :
    (allContexts kRxDepth qpNum qpNum).Nodup ∧ ∀ ctx ∈ allContexts kRxDepth qpNum qpNum, ctx < kRxDepth := by
  rcases hqp with rfl | rfl
  · have : allContexts kRxDepth 1 1 = List.range kRxDepth := by
      simp [allContexts, initContexts]
    rw [this]
    exact ⟨List.nodup_range, fun ctx h => List.mem_range.mp h⟩
  · rcases hfits with h | h
    · cases h
    · have h5 : kRxDepth ≤ 5 ∧ kRxDepth ≠ 2 := by omega
      obtain ⟨h5, h2⟩ := h5
      interval_cases kRxDepth <;> first | exact absurd rfl h2 | decide

theorem nodup_allContexts_of_le_one {n : Nat} (hn : n ≤ 1) :
    (allContexts kRxDepth qpNum n).Nodup ∧ ∀ ctx ∈ allContexts kRxDepth qpNum n, ctx < kRxDepth := by
  rcases Nat.le_one_iff_eq_zero_or_eq_one.mp hn with rfl | rfl
  · exact ⟨.nil, fun _ h => absurd h List.not_mem_nil⟩
  · rw [allContexts_succ, show allContexts kRxDepth qpNum 0 = [] from rfl, List.nil_append, initContexts]
    split_ifs
    · simp only [Nat.zero_mul, Nat.add_zero, List.map_id']
      exact ⟨List.nodup_range, fun ctx h => Nat.lt_of_lt_of_le (List.mem_range.mp h) (Nat.div_le_self _ _)⟩
    · exact ⟨.nil, fun _ h => absurd h List.not_mem_nil⟩

theorem good_of_nodup (hnd : (s.posted.map Prod.snd).Nodup)
    (hlt : ∀ ctx ∈ s.posted.map Prod.snd, ctx < kRxDepth) : s.Good kRxDepth where
  inArray _ ctx h := hlt ctx (List.mem_map_of_mem h)
  apart _ _ _ h h' := congrArg Prod.fst (List.inj_on_of_nodup_map hnd h h' rfl)

theorem good_of_fits (hqp : qpNum = 1 ∨ qpNum = 2) {as : List Action} (hinits : inits as ≤ 256)
    (hfits : inits as ≤ 1 ∨ RxFits kRxDepth qpNum) (h : Run.exec (step kRxDepth qpNum) {} as = some s) :
    s.Good kRxDepth := by
  obtain ⟨-, hperm⟩ := inited_posted hinits h
  suffices hall : (allContexts kRxDepth qpNum (inits as)).Nodup ∧
      ∀ ctx ∈ allContexts kRxDepth qpNum (inits as), ctx < kRxDepth from
    good_of_nodup (hperm.nodup_iff.mpr hall.1) fun ctx hctx => hall.2 ctx (hperm.mem_iff.mp hctx)
  rcases hfits with hone | hfits
  · exact nodup_allContexts_of_le_one hone
  · obtain ⟨hnd, hlt⟩ := nodup_allContexts hqp hfits
    have hsub := sublist_allContexts kRxDepth qpNum (inits as)
    exact ⟨hnd.sublist hsub, fun ctx hctx => hlt ctx (hsub.subset hctx)⟩

/-- The queue pairs are numbered by the calls of `Init`. -/
structure Numbered (n : Nat) (s : RecvContexts) : Prop where
  count : s.qpCount = n
  cmIds : ∀ slot qp, s.cmIds slot = some qp → qp < n
  posted : ∀ qp ctx, (qp, ctx) ∈ s.posted → qp < n

theorem Numbered.release {n qp ctx slot : Nat} (h : s.Numbered n) (hs : s.release qp ctx slot = some s') :
    s'.Numbered n := by
  obtain ⟨_, -, hs⟩ := Option.bind_eq_some_iff.mp hs
  obtain ⟨id, hid, hs⟩ := Option.bind_eq_some_iff.mp hs
  obtain rfl := Option.some.inj hs
  refine ⟨h.count, h.cmIds, fun qp' ctx' hmem => ?_⟩
  rcases List.mem_append.mp hmem with hmem | hmem
  · exact h.posted qp' ctx' (List.mem_of_mem_erase hmem)
  · obtain ⟨rfl, -⟩ := Prod.mk.inj (List.mem_singleton.mp hmem)
    exact h.cmIds slot qp' hid

theorem numbered {as : List Action} (h : Run.exec (step kRxDepth qpNum) {} as = some s) :
    s.Numbered (inits as) := by
  refine Run.exec_invariant_of_inputs (fun as s => s.Numbered (inits as)) ?_ (fun as a s s' hn hs => ?_) h
  · exact ⟨rfl, by simp, by simp⟩
  · cases a with
    | init slot =>
      obtain rfl := Option.some.inj hs
      rw [inits_append_init]
      refine ⟨congrArg (· + 1) hn.count, fun slot' qp hqp => ?_, fun qp ctx hmem => ?_⟩
      · rcases eq_or_ne slot' slot with rfl | hne
        · have hqp' : some s.qpCount = some qp := by simpa [init] using hqp
          rw [← Option.some.inj hqp', hn.count]
          exact Nat.lt_succ_self _
        · exact Nat.lt_succ_of_lt (hn.cmIds slot' qp (by simpa [init, hne] using hqp))
      · rcases List.mem_append.mp hmem with hmem | hmem
        · exact Nat.lt_succ_of_lt (hn.posted qp ctx hmem)
        · obtain ⟨_, -, heq⟩ := List.mem_map.mp hmem
          rw [← (Prod.mk.inj heq).1, hn.count]
          exact Nat.lt_succ_self _
    | recv qp ctx | recvRdmaWithImm qp ctx =>
      rw [inits_append_of_ne_init as (by simp)]
      exact hn.release hs

theorem exists_second_init {as : List Action} (h : 2 ≤ inits as) :
    ∃ before slot, before ++ [.init slot] <+: as ∧ inits before = 1 := by
  induction as using List.reverseRecOn with
  | nil => cases h
  | append_singleton as a ih =>
    rcases Nat.lt_or_ge (inits as) 2 with hlt | hge
    · cases a with
      | init slot =>
        rw [inits_append_init] at h
        exact ⟨as, slot, List.prefix_rfl, by omega⟩
      | recv | recvRdmaWithImm =>
        rw [inits_append_of_ne_init as (by simp)] at h
        omega
    · obtain ⟨before, slot, hpre, hone⟩ := ih hge
      exact ⟨before, slot, hpre.trans (List.prefix_append as [a]), hone⟩

/-- The second of two queue pairs posts contexts 2, 3, …, which is outside of the array or what the first has
posted. -/
theorem fits_of_good {as : List Action} {slot : Nat} (hone : inits as = 1)
    (h : Run.exec (step kRxDepth 2) {} as = some s) (hgood : (s.init kRxDepth 2 slot).Good kRxDepth) :
    RxFits kRxDepth 2 := by
  have hnum := numbered h
  obtain ⟨hinited, hperm⟩ := inited_posted (by omega) h
  rw [hone] at hnum hperm hinited
  have hfirst : ∀ i < kRxDepth / 2, (0, i) ∈ (s.init kRxDepth 2 slot).posted := by
    intro i hi
    have hmem : i ∈ s.posted.map Prod.snd := by
      refine hperm.mem_iff.mpr ?_
      rw [allContexts_succ]
      exact List.mem_append_right _ (by simpa [initContexts] using hi)
    obtain ⟨⟨qp, ctx⟩, hposted, rfl⟩ := List.mem_map.mp hmem
    obtain rfl : qp = 0 := Nat.lt_one_iff.mp (hnum.posted qp ctx hposted)
    exact List.mem_append_left _ hposted
  have hsecond : ∀ i < kRxDepth / 2, (1, i + 2) ∈ (s.init kRxDepth 2 slot).posted := by
    intro i hi
    refine List.mem_append_right _ ?_
    rw [hnum.count, hinited]
    simpa [initContexts] using hi
  by_contra hfits
  have hcases : kRxDepth = 2 ∨ 6 ≤ kRxDepth := by
    unfold RxFits at hfits
    omega
  rcases hcases with rfl | hdeep
  · exact absurd (hgood.inArray 1 2 (hsecond 0 (by decide))) (by decide)
  · exact absurd (hgood.apart 0 1 2 (hfirst 2 (by omega)) (hsecond 0 (by omega))) (by decide)

theorem not_perm_release {qp ctx slot id : Nat} (hslot : s.cmIds slot = some id) (hne : id ≠ qp)
    (h : s.release qp ctx slot = some s') : ¬ s'.posted.Perm s.posted := by
  obtain ⟨_, hmem, h⟩ := Option.bind_eq_some_iff.mp h
  rw [hslot] at h
  obtain rfl := Option.some.inj h
  have hmem : (qp, ctx) ∈ s.posted := (Option.guard_eq_some' _).mp hmem
  intro hperm
  have hcount := hperm.count_eq (qp, ctx)
  have hpos := List.count_pos_iff.mpr hmem
  have hother : List.count (qp, ctx) [(id, ctx)] = 0 := List.count_eq_zero.mpr (by simp [hne.symm])
  simp only [List.count_append, List.count_erase_self, hother] at hcount
  omega

theorem reposts_iff_recvOnFirst {a : Action} (h : s.step kRxDepth qpNum a = some s') :
    s.Reposts kRxDepth qpNum a ↔ s.RecvOnFirst qpNum a := by
  cases a with
  | init slot => exact Iff.rfl
  | recvRdmaWithImm qp ctx =>
    exact iff_of_true (fun hown _ hs' => perm_release_self (cmIds_cmIdIndex hown) hs') trivial
  | recv qp ctx =>
    refine imp_congr_right fun _ => ⟨fun hperm => ?_, fun hfirst _ hs' => perm_release_self hfirst hs'⟩
    by_contra hne
    obtain ⟨_, -, hs⟩ := Option.bind_eq_some_iff.mp h
    obtain ⟨id, hid, -⟩ := Option.bind_eq_some_iff.mp hs
    exact not_perm_release hid (fun heq => hne (by rw [hid, heq])) h (hperm s' h)

/-- In every run of an endpoint with one or two queue pairs and at most 256 calls of `Init`, the contexts are in
the array and no buffer is posted on two queue pairs if and only if one queue pair is initialised or the depth
is one of those that fit; and what completes is posted where it completed if and only if no queue pair but the
first receives rendezvous messages. -/
theorem recv_contexts_apart (kRxDepth qpNum : Nat) (hqp : qpNum = 1 ∨ qpNum = 2) (as : List Action)
    (hinits : inits as ≤ 256) (s : RecvContexts) (hrun : Run.exec (step kRxDepth qpNum) {} as = some s) :
    ((∀ before t, before <+: as → Run.exec (step kRxDepth qpNum) {} before = some t → t.Good kRxDepth) ↔
      inits as ≤ 1 ∨ RxFits kRxDepth qpNum) ∧
    (Run.EveryStep (step kRxDepth qpNum) (Reposts kRxDepth qpNum) {} as ↔
      Run.EveryStep (step kRxDepth qpNum) (RecvOnFirst qpNum) {} as) := by
  refine ⟨⟨fun h => ?_, fun hfits before t hpre ht => ?_⟩,
    Run.everyStep_congr (fun t a t' ht => reposts_iff_recvOnFirst ht) hrun⟩
  · rcases Nat.lt_or_ge 1 (inits as) with hmany | hone
    · refine .inr ?_
      rcases hqp with rfl | rfl
      · exact .inl rfl
      · obtain ⟨before, slot, hpre, hone⟩ := exists_second_init hmany
        obtain ⟨t', ht'⟩ := Run.exec_of_prefix hrun hpre
        obtain ⟨t, ht, hinit⟩ := Run.exec_snoc_eq_some.mp ht'
        obtain rfl := Option.some.inj hinit
        exact fits_of_good hone ht (h _ _ hpre ht')
    · exact .inl hone
  · have hle := inits_mono hpre
    exact good_of_fits hqp (hle.trans hinits) (hfits.imp_left hle.trans) ht

/-- Two queue pairs, a write that completes on the second and a rendezvous message on the first. -/
def twoPairs : List Action := [.init 0, .init 1, .recvRdmaWithImm 1 2, .recv 0 1]

theorem recv_contexts_apart_four :
    (∀ before t, before <+: twoPairs → Run.exec (step 4 2) {} before = some t → t.Good 4) ∧
      Run.EveryStep (step 4 2) (Reposts 4 2) {} twoPairs := by
  have hrun : (Run.exec (step 4 2) {} twoPairs).isSome := by decide
  obtain ⟨s, hs⟩ := Option.isSome_iff_exists.mp hrun
  obtain ⟨hgood, hreposts⟩ := recv_contexts_apart 4 2 (.inr rfl) twoPairs (by decide) s hs
  exact ⟨hgood.mpr (.inr (.inr (.inr (by decide)))), hreposts.mpr (by decide)⟩

/-- The default depth: both queue pairs post context 2. And four contexts, of which the second queue pair gets
a rendezvous message in context 2: the first has it then. -/
theorem context_on_two_pairs : (∃ s, Run.exec (step 256 2) {} [.init 0, .init 1] = some s ∧
      (0, 2) ∈ s.posted ∧ (1, 2) ∈ s.posted) ∧
    ∃ s s', Run.exec (step 4 2) {} [.init 0, .init 1] = some s ∧ s.step 4 2 (.recv 1 2) = some s' ∧
      s.posted = [(0, 0), (0, 1), (1, 2), (1, 3)] ∧ s'.posted = [(0, 0), (0, 1), (1, 3), (0, 2)] :=
  ⟨⟨_, rfl, by simp [init, initContexts], by simp [init, initContexts]⟩, _, _, rfl, rfl, by decide, by decide⟩

end RecvContexts

end StepMesh
