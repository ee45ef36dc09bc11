import Mathlib.Data.List.Count
import Mathlib.Data.Option.Basic
import StepMesh.Barrier
import StepMesh.Lib.ListAux

/-!
# Instance barriers

The scheduler counts requests, not senders. That a full count means that every member has asked rests
on who can have a request outstanding: a caller waits for one barrier at a time, so at every moment it
is in one `Phase`, and only in its own group's round. `Inv` ties the messages in flight, the counters
and the history to the phases.
-/

namespace StepMesh.BarrierNet

/-- Where the barrier a node has called has got to. -/
inductive Phase
  | idle
  /-- the request is on the wire -/
  | requested (g : Int)
  /-- the scheduler has counted it -/
  | counted (g : Int)
  /-- the answer has been sent -/
  | released (g : Int)
deriving DecidableEq

namespace Phase

def group : Phase → Option Int
  | idle => none
  | requested g | counted g | released g => some g

def request : Phase → List Int
  | requested g => [g]
  | _ => []

def isReleased : Phase → Bool
  | released _ => true
  | _ => false

end Phase

/-- The groups of the requests of `r` among the messages in flight. -/
def requestsOf (wire : List Message) (r : NodeId) : List Int :=
  (wire.filter fun m => m.msgMeta.request && m.msgMeta.sender = r).map
    (·.msgMeta.control.barrierGroup)

/-- The number of answers to `r` in flight. -/
def answersTo (wire : List Message) (r : NodeId) : Nat :=
  wire.countP fun m => !m.msgMeta.request && m.msgMeta.recver = r

section wire
variable (wire wire' : List Message) (m : Message) (r : NodeId)

@[simp] theorem requestsOf_append :
    requestsOf (wire ++ wire') r = requestsOf wire r ++ requestsOf wire' r := by
  simp [requestsOf]

@[simp] theorem answersTo_append : answersTo (wire ++ wire') r = answersTo wire r + answersTo wire' r := by
  simp [answersTo]

theorem requestsOf_cons : requestsOf (m :: wire) r =
    (if m.msgMeta.request && m.msgMeta.sender = r then [m.msgMeta.control.barrierGroup] else []) ++
      requestsOf wire r := by
  simp only [requestsOf, List.filter_cons]
  split <;> rfl

theorem answersTo_cons : answersTo (m :: wire) r =
    (if !m.msgMeta.request && m.msgMeta.recver = r then 1 else 0) + answersTo wire r := by
  simp only [answersTo, List.countP_cons]
  omega

end wire

/-- The wait of `r` can end. -/
def awake (s : BarrierNet) (r : NodeId) : Bool :=
  (s.waiting r).any fun w => (s.procs r).isDone w.1

structure Inv (po : Postoffice) (s : BarrierNet) (ph : NodeId → Phase) (rounds : Int → Nat) :
    Prop where
  waiting : ∀ r, (s.waiting r).map Prod.snd = (ph r).group
  member : ∀ r g, (ph r).group = some g → r ∈ po.nodeIds g ∧ 1 < (po.nodeIds g).length
  cmd : ∀ m ∈ s.wire, m.msgMeta.control.cmd = .instanceBarrier
  requests : ∀ r, requestsOf s.wire r = (ph r).request
  answers : ∀ r, answersTo s.wire r + (s.awake r).toNat ≤ (ph r).isReleased.toNat
  shared : s.sch.sharedNodeMapping = fun _ => none
  count : ∀ g, 0 ≤ g → s.sch.barrierCount.getD g.toNat 0 =
    ((po.nodeIds g).countP fun r => ph r = .counted g : Nat)
  issued : ∀ r g, r ∈ po.nodeIds g → 1 < (po.nodeIds g).length →
    s.issued r g = rounds g + if ph r = .requested g ∨ ph r = .counted g then 1 else 0
  returned : ∀ r g, r ∈ po.nodeIds g → 1 < (po.nodeIds g).length →
    s.returned r g + (if ph r = .released g then 1 else 0) = rounds g
  returned_le : ∀ r g, s.returned r g ≤ s.issued r g
  processed : ∀ g, s.processed.countP (fun e => e.2 = g) =
    rounds g * (po.nodeIds g).length + (po.nodeIds g).countP fun r => ph r = .counted g
  released : ∀ r g, s.released.count (r, g) = if r ∈ po.nodeIds g then rounds g else 0

variable {po : Postoffice} {s s' : BarrierNet} {ph : NodeId → Phase} {rounds : Int → Nat}

/-! ### What one request does -/

/-- A request adds one to the count of its group (`sch₁`). Where that fills it, the count starts
again at zero and every member is answered. -/
theorem processInstance_spec {sch sch' : BarrierScheduler} {msg : Message} {out : List Message}
    (hshared : sch.sharedNodeMapping = fun _ => none) {g : Int}
    (hg : msg.msgMeta.control.barrierGroup = g)
    (h : sch.processInstanceBarrierCommand po msg = some (sch', out)) :
    0 ≤ g ∧ sch'.sharedNodeMapping = (fun _ => none) ∧
    (∀ a ∈ out, a.msgMeta.request = false ∧ a.msgMeta.control.cmd = msg.msgMeta.control.cmd) ∧
    ∃ sch₁ : BarrierScheduler, sch₁.sharedNodeMapping = (fun _ => none) ∧
      (∀ k, sch₁.barrierCount.getD k 0 =
        if k = g.toNat then sch.barrierCount.getD k 0 + 1 else sch.barrierCount.getD k 0) ∧
      if sch₁.barrierCount.getD g.toNat 0 = (po.nodeIds g).length then
        out.map (·.msgMeta.recver) = po.nodeIds g ∧
        ∀ k, sch'.barrierCount.getD k 0 = if k = g.toNat then 0 else sch₁.barrierCount.getD k 0
      else out = [] ∧ sch' = sch₁ := by
  unfold BarrierScheduler.processInstanceBarrierCommand at h
  rw [hg] at h
  generalize hcnt : (if sch.barrierCount = [] then List.replicate 8 0 else sch.barrierCount) = cnt at h
  have hgetD : ∀ k, cnt.getD k 0 = sch.barrierCount.getD k 0 := fun k => by
    subst hcnt
    split
    · next he =>
      rw [he, List.getD_eq_getElem?_getD, List.getElem?_replicate]
      split <;> rfl
    · rfl
  obtain ⟨_, hpos, h⟩ := Option.bind_eq_some_iff.mp h
  obtain ⟨n, hn, h⟩ := Option.bind_eq_some_iff.mp h
  obtain ⟨ids, hids, h⟩ := Option.bind_eq_some_iff.mp h
  obtain rfl := Postoffice.getNodeIDs_eq_some hids
  have hset : ∀ v k, (cnt.set g.toNat v).getD k 0 = if k = g.toNat then v else cnt.getD k 0 :=
    fun v k => by
      obtain ⟨hlt, -⟩ := List.getElem?_eq_some_iff.mp hn
      rw [List.getD_eq_getElem?_getD, List.getD_eq_getElem?_getD, List.getElem?_set]
      by_cases hk : k = g.toNat
      · subst hk
        simp [hlt]
      · rw [if_neg (Ne.symm hk), if_neg hk]
  have hcount : ∀ k, (cnt.set g.toNat (n + 1)).getD k 0 =
      if k = g.toNat then sch.barrierCount.getD k 0 + 1 else sch.barrierCount.getD k 0 := fun k => by
    rw [hset, hgetD]
    split
    · next hk => rw [hk, ← hgetD, List.getD_eq_getElem?_getD, hn]; rfl
    · rfl
  have hone : (cnt.set g.toNat (n + 1)).getD g.toNat 0 = n + 1 := by rw [hset, if_pos rfl]
  refine ⟨(Option.guard_eq_some' _).mp hpos, ?_⟩
  split at h
  · next hfull =>
    obtain ⟨rfl, rfl⟩ := Prod.mk.inj (Option.some.inj h)
    refine ⟨hshared, fun a ha => ?_, { sch with barrierCount := cnt.set g.toNat (n + 1) }, hshared,
      hcount, ?_⟩
    · obtain ⟨hreq, hctrl⟩ := BarrierScheduler.mem_answers ha
      exact ⟨hreq, by rw [hctrl]⟩
    · rw [if_pos (hone.trans hfull), BarrierScheduler.map_recver_answers]
      refine ⟨List.filter_eq_self.mpr fun r _ => by simp [hshared], fun k => (hset 0 k).trans ?_⟩
      split
      · rfl
      · next hk => rw [hset, if_neg hk]
  · next hfull =>
    obtain ⟨rfl, rfl⟩ := Prod.mk.inj (Option.some.inj h)
    refine ⟨hshared, by simp, { sch with barrierCount := cnt.set g.toNat (n + 1) }, hshared, hcount, ?_⟩
    rw [if_neg fun hc => hfull (hone.symm.trans hc)]
    exact ⟨rfl, rfl⟩

theorem inv_init (procs : NodeId → Process) :
    Inv po { procs := procs } (fun _ => .idle) fun _ => 0 where
  waiting _ := rfl
  member _ _ h := by simp [Phase.group] at h
  cmd _ h := by simp at h
  requests _ := rfl
  answers _ := by simp [answersTo, awake]
  shared := rfl
  count _ _ := by simp
  issued _ _ _ _ := by simp
  returned _ _ _ _ := by simp
  returned_le _ _ := by simp
  processed _ := by simp
  released _ _ := by simp

/-! ### The steps -/

theorem Inv.waiting_eq_none (h : Inv po s ph rounds) {r : NodeId} (hr : s.waiting r = none) :
    ph r = .idle := by
  have := h.waiting r
  rw [hr] at this
  cases hph : ph r <;> simp [hph, Phase.group] at this ⊢

theorem bump_apply (f : NodeId → Int → Nat) (r r' : NodeId) (g g' : Int) :
    bump f r g r' g' = f r' g' + if r' = r ∧ g' = g then 1 else 0 := by
  by_cases hr : r' = r
  · subst hr
    by_cases hg : g' = g
    · subst hg
      simp [bump]
    · simp [bump, hg]
  · simp [bump, hr]

theorem Inv.callSmall (h : Inv po s ph rounds) {r : NodeId} {g : Int}
    (hsmall : (po.nodeIds g).length ≤ 1) :
    Inv po { s with issued := bump s.issued r g, returned := bump s.returned r g } ph rounds :=
  have hbump : ∀ (f : NodeId → Int → Nat) r' g', 1 < (po.nodeIds g').length →
      bump f r g r' g' = f r' g' := fun f r' g' hg' => by
    have hne : g' ≠ g := by rintro rfl; omega
    rw [bump_apply, if_neg fun hc => hne hc.2]
    rfl
  { h with
    issued := fun r' g' hr' hg' => (hbump s.issued r' g' hg').trans (h.issued r' g' hr' hg')
    returned := fun r' g' hr' hg' => by
      show bump s.returned r g r' g' + _ = _
      rw [hbump s.returned r' g' hg']
      exact h.returned r' g' hr' hg'
    returned_le := fun r' g' => by
      show bump s.returned r g r' g' ≤ bump s.issued r g r' g'
      rw [bump_apply, bump_apply]
      exact Nat.add_le_add_right (h.returned_le r' g') _ }

theorem countP_update_phase {r : NodeId} {x : Phase} {g : Int} (hold : ph r ≠ .counted g)
    (hnew : x ≠ .counted g) :
    (po.nodeIds g).countP (fun r' => Function.update ph r x r' = .counted g) =
      (po.nodeIds g).countP fun r' => ph r' = .counted g := by
  have := List.countP_update (po.nodup_nodeIds g) ph r x fun x => x = .counted g
  simpa [hold, hnew] using this

theorem Inv.callRequest (h : Inv po s ph rounds) {r : NodeId} {c g : Int} {p : Process} {m : Message}
    (hr : s.waiting r = none) (hmem : r ∈ po.nodeIds g) (hbig : 1 < (po.nodeIds g).length)
    (hdone : p.isDone c = false) (hreq : m.msgMeta.request = true) (hsender : m.msgMeta.sender = r)
    (hcmd : m.msgMeta.control.cmd = .instanceBarrier) (hgroup : m.msgMeta.control.barrierGroup = g) :
    Inv po { s with
      procs := Function.update s.procs r p
      issued := bump s.issued r g
      wire := s.wire ++ [m]
      waiting := Function.update s.waiting r (some (c, g)) }
      (Function.update ph r (.requested g)) rounds := by
  have hidle := h.waiting_eq_none hr
  have hcount : ∀ g', (po.nodeIds g').countP (fun r' => Function.update ph r (.requested g) r' =
      .counted g') = (po.nodeIds g').countP fun r' => ph r' = .counted g' := fun g' =>
    countP_update_phase (by simp [hidle]) (by simp)
  refine ⟨fun r' => ?_, fun r' g' hg' => ?_, fun m' hm' => ?_, fun r' => ?_, fun r' => ?_, h.shared,
    fun g' hg' => ?_, fun r' g' hr' hg' => ?_, fun r' g' hr' hg' => ?_, fun r' g' => ?_, fun g' => ?_,
    h.released⟩
  · by_cases hrr : r' = r
    · subst hrr
      simp [Phase.group]
    · simpa [hrr] using h.waiting r'
  · by_cases hrr : r' = r
    · subst hrr
      obtain rfl : g = g' := by simpa [Phase.group] using hg'
      exact ⟨hmem, hbig⟩
    · exact h.member r' g' (by simpa [hrr] using hg')
  · rcases List.mem_append.mp hm' with hm' | hm'
    · exact h.cmd m' hm'
    · rw [List.mem_singleton.mp hm', hcmd]
  · rw [requestsOf_append, h.requests, requestsOf_cons, hreq, hsender, hgroup]
    by_cases hrr : r' = r
    · subst hrr
      simp [hidle, Phase.request, requestsOf]
    · simp [hrr, Ne.symm hrr, requestsOf]
  · have hold := h.answers r'
    rw [answersTo_append, answersTo_cons, hreq]
    by_cases hrr : r' = r
    · subst hrr
      simp [awake, hdone, hidle, Phase.isReleased, answersTo] at hold ⊢
      exact hold.1
    · simpa [awake, hrr, answersTo] using hold
  · rw [hcount]
    exact h.count g' hg'
  · show bump s.issued r g r' g' = _
    rw [bump_apply, h.issued r' g' hr' hg']
    by_cases hrr : r' = r
    · subst hrr
      simp [hidle, eq_comm]
    · simp [hrr]
  · have hold := h.returned r' g' hr' hg'
    by_cases hrr : r' = r
    · subst hrr
      simpa [hidle] using hold
    · simpa [hrr] using hold
  · show s.returned r' g' ≤ bump s.issued r g r' g'
    rw [bump_apply]
    exact Nat.le_trans (h.returned_le r' g') (Nat.le_add_right _ _)
  · rw [hcount]
    exact h.processed g'

theorem Inv.request_phase (h : Inv po s ph rounds) {l₁ l₂ : List Message} {m : Message}
    (hwire : s.wire = l₁ ++ m :: l₂) (hreq : m.msgMeta.request = true) :
    ph m.msgMeta.sender = .requested m.msgMeta.control.barrierGroup ∧
      requestsOf (l₁ ++ l₂) m.msgMeta.sender = [] := by
  have hold := h.requests m.msgMeta.sender
  rw [hwire, requestsOf_append, requestsOf_cons, hreq] at hold
  cases hph : ph m.msgMeta.sender with
  | requested g =>
    have hlen := congrArg List.length hold
    simp only [hph, Phase.request, List.length_append, List.length_singleton, decide_true,
      Bool.and_self, if_true] at hlen
    have h₁ : requestsOf l₁ m.msgMeta.sender = [] := List.length_eq_zero_iff.mp (by omega)
    have h₂ : requestsOf l₂ m.msgMeta.sender = [] := List.length_eq_zero_iff.mp (by omega)
    obtain rfl : m.msgMeta.control.barrierGroup = g := by simpa [h₁, h₂, hph, Phase.request] using hold
    exact ⟨rfl, by rw [requestsOf_append, h₁, h₂]; rfl⟩
  | _ => simp [hph, Phase.request] at hold

theorem Inv.countRequest (h : Inv po s ph rounds) {l₁ l₂ : List Message} {m : Message}
    {sch : BarrierScheduler} {r : NodeId} {g : Int} (hwire : s.wire = l₁ ++ m :: l₂)
    (hreq : m.msgMeta.request = true) (hr : m.msgMeta.sender = r)
    (hgroup : m.msgMeta.control.barrierGroup = g) (hpos : 0 ≤ g)
    (hshared : sch.sharedNodeMapping = fun _ => none)
    (hsch : ∀ k, sch.barrierCount.getD k 0 =
      if k = g.toNat then s.sch.barrierCount.getD k 0 + 1 else s.sch.barrierCount.getD k 0) :
    Inv po { s with sch := sch, wire := l₁ ++ l₂, processed := s.processed ++ [(r, g)] }
      (Function.update ph r (.counted g)) rounds := by
  obtain ⟨hphase, hnone⟩ := h.request_phase hwire hreq
  rw [hr, hgroup] at hphase
  rw [hr] at hnone
  obtain ⟨hmem, hbig⟩ := h.member r g (by rw [hphase]; rfl)
  have hcount : ∀ g', (po.nodeIds g').countP (fun r' => Function.update ph r (.counted g) r' =
      .counted g') = (po.nodeIds g').countP (fun r' => ph r' = .counted g') +
        if g' = g then 1 else 0 := fun g' => by
    have := List.countP_update (po.nodup_nodeIds g') ph r (.counted g) fun x => x = .counted g'
    by_cases hg : g' = g
    · subst hg
      simpa [hphase, hmem] using this
    · simpa [hphase, hg, Ne.symm hg] using this
  refine ⟨fun r' => ?_, fun r' g' hg' => ?_, fun m' hm' => ?_, fun r' => ?_, fun r' => ?_, hshared,
    fun g' hg' => ?_, fun r' g' hr' hg' => ?_, fun r' g' hr' hg' => ?_, h.returned_le, fun g' => ?_,
    h.released⟩
  · have hold := h.waiting r'
    by_cases hrr : r' = r
    · subst hrr
      rw [hphase] at hold
      simpa [Phase.group] using hold
    · simpa [hrr] using hold
  · by_cases hrr : r' = r
    · subst hrr
      obtain rfl : g = g' := by simpa [Phase.group] using hg'
      exact ⟨hmem, hbig⟩
    · exact h.member r' g' (by simpa [hrr] using hg')
  · refine h.cmd m' ?_
    rw [hwire]
    rcases List.mem_append.mp hm' with hm' | hm' <;> simp [hm']
  · by_cases hrr : r' = r
    · subst hrr
      simpa [Phase.request] using hnone
    · have hold := h.requests r'
      rw [hwire, requestsOf_append, requestsOf_cons, hr] at hold
      simpa [hrr, Ne.symm hrr] using hold
  · have hold := h.answers r'
    rw [hwire, answersTo_append, answersTo_cons, hreq] at hold
    by_cases hrr : r' = r
    · subst hrr
      simpa [hphase, Phase.isReleased, awake] using hold
    · simpa [hrr, awake] using hold
  · have hold := h.count g' hg'
    rw [hcount, hsch]
    by_cases hg : g' = g
    · subst hg
      rw [if_pos rfl, if_pos rfl, hold]
      rfl
    · have hne : g'.toNat ≠ g.toNat := by omega
      rw [if_neg hne, if_neg hg]
      exact hold
  · have hold := h.issued r' g' hr' hg'
    by_cases hrr : r' = r
    · subst hrr
      rw [hphase] at hold
      simpa [eq_comm] using hold
    · simpa [hrr] using hold
  · have hold := h.returned r' g' hr' hg'
    by_cases hrr : r' = r
    · subst hrr
      simpa [hphase] using hold
    · simpa [hrr] using hold
  · have hold := h.processed g'
    rw [hcount, List.countP_append, hold]
    by_cases hg : g' = g
    · subst hg
      simp [Nat.add_assoc]
    · simp [hg, Ne.symm hg]

theorem answersTo_of_recvers {out : List Message} {rs : List NodeId}
    (hout : out.map (·.msgMeta.recver) = rs) (hreq : ∀ a ∈ out, a.msgMeta.request = false)
    (hnd : rs.Nodup) (r : NodeId) :
    answersTo out r = if r ∈ rs then 1 else 0 := by
  have hcongr : answersTo out r = rs.count r := by
    rw [← hout, List.count, List.countP_map]
    exact List.countP_congr fun a ha => by simp [hreq a ha]
  rw [hcongr]
  split
  · next h => exact List.count_eq_one_of_mem hnd h
  · next h => exact List.count_eq_zero_of_not_mem h

theorem requestsOf_of_answers {out : List Message} (hreq : ∀ a ∈ out, a.msgMeta.request = false)
    (r : NodeId) : requestsOf out r = [] := by
  rw [requestsOf, List.filter_eq_nil_iff.mpr fun a ha => by simp [hreq a ha]]
  rfl

/-- A full round: every member has been counted, and gets its answer. -/
theorem Inv.release (h : Inv po s ph rounds) {sch : BarrierScheduler} {g : Int} {out : List Message}
    (hall : ∀ r ∈ po.nodeIds g, ph r = .counted g)
    (hout : out.map (·.msgMeta.recver) = po.nodeIds g)
    (hans : ∀ a ∈ out, a.msgMeta.request = false ∧ a.msgMeta.control.cmd = .instanceBarrier)
    (hshared : sch.sharedNodeMapping = fun _ => none)
    (hsch : ∀ k, sch.barrierCount.getD k 0 = if k = g.toNat then 0 else s.sch.barrierCount.getD k 0)
    (hpos : 0 ≤ g) :
    Inv po { s with
        sch := sch
        wire := s.wire ++ out
        released := s.released ++ out.map fun m => (m.msgMeta.recver, g) }
      (fun r => if r ∈ po.nodeIds g then .released g else ph r)
      (Function.update rounds g (rounds g + 1)) := by
  have hcount : ∀ g', (po.nodeIds g').countP (fun r' => (if r' ∈ po.nodeIds g then .released g
      else ph r') = Phase.counted g') =
        if g' = g then 0 else (po.nodeIds g').countP fun r' => ph r' = .counted g' := fun g' => by
    split
    · next hg => subst hg; simp +contextual
    · next hg =>
      refine List.countP_congr fun r' _ => ?_
      by_cases hr' : r' ∈ po.nodeIds g
      · simp [hr', hall r' hr', Ne.symm hg]
      · simp [hr']
  refine ⟨fun r' => ?_, fun r' g' hg' => ?_, fun m' hm' => ?_, fun r' => ?_, fun r' => ?_, hshared,
    fun g' hg' => ?_, fun r' g' hr' hg' => ?_, fun r' g' hr' hg' => ?_, h.returned_le, fun g' => ?_,
    fun r' g' => ?_⟩
  · have hold := h.waiting r'
    by_cases hr' : r' ∈ po.nodeIds g
    · rw [hall r' hr'] at hold
      simpa [hr', Phase.group] using hold
    · simpa [hr'] using hold
  · refine h.member r' g' ?_
    by_cases hr' : r' ∈ po.nodeIds g
    · rw [hall r' hr']
      simpa [hr', Phase.group] using hg'
    · simpa [hr'] using hg'
  · rcases List.mem_append.mp hm' with hm' | hm'
    · exact h.cmd m' hm'
    · exact (hans m' hm').2
  · rw [requestsOf_append, requestsOf_of_answers fun a ha => (hans a ha).1, h.requests]
    by_cases hr' : r' ∈ po.nodeIds g
    · simp [hr', hall r' hr', Phase.request]
    · simp [hr']
  · have hold := h.answers r'
    rw [answersTo_append, answersTo_of_recvers hout (fun a ha => (hans a ha).1) (po.nodup_nodeIds g)]
    by_cases hr' : r' ∈ po.nodeIds g
    · rw [hall r' hr'] at hold
      simp [hr', Phase.isReleased, awake] at hold ⊢
      simp [hold]
    · simpa [hr', awake] using hold
  · have hold := h.count g' hg'
    rw [hcount, hsch]
    by_cases hg : g' = g
    · subst hg
      simp
    · have hne : g'.toNat ≠ g.toNat := by omega
      rw [if_neg hne, if_neg hg]
      exact hold
  · have hold := h.issued r' g' hr' hg'
    by_cases hg : g' = g
    · subst hg
      rw [hall r' hr'] at hold
      simpa [hr'] using hold
    · by_cases hr : r' ∈ po.nodeIds g
      · rw [hall r' hr] at hold
        simpa [hg, Ne.symm hg, hr] using hold
      · simpa [hg, hr] using hold
  · have hold := h.returned r' g' hr' hg'
    by_cases hg : g' = g
    · subst hg
      rw [hall r' hr'] at hold
      simpa [hr'] using hold
    · by_cases hr : r' ∈ po.nodeIds g
      · rw [hall r' hr] at hold
        simpa [hg, Ne.symm hg, hr] using hold
      · simpa [hg, hr] using hold
  · have hold := h.processed g'
    rw [hcount, hold]
    by_cases hg : g' = g
    · subst hg
      have hfull : (po.nodeIds g').countP (fun r => ph r = .counted g') = (po.nodeIds g').length :=
        List.countP_eq_length.mpr fun r hr => by simp [hall r hr]
      simp [hfull, Nat.add_mul]
    · simp [hg]
  · have hold := h.released r' g'
    have hmap : (out.map fun m => (m.msgMeta.recver, g)) = (po.nodeIds g).map fun r => (r, g) := by
      rw [← hout, List.map_map]
      rfl
    rw [List.count_append, hold, hmap]
    by_cases hg : g' = g
    · subst hg
      rw [List.count_map_of_injective _ (fun r => (r, g')) fun _ _ h => (Prod.mk.inj h).1]
      by_cases hr : r' ∈ po.nodeIds g'
      · simp [hr, List.count_eq_one_of_mem (po.nodup_nodeIds g') hr]
      · simp [hr, List.count_eq_zero_of_not_mem hr]
    · rw [List.count_eq_zero_of_not_mem (by simp [Ne.symm hg])]
      simp [hg]

theorem Inv.deliver (h : Inv po s ph rounds) {l₁ l₂ : List Message} {m : Message} (p : Process)
    (hwire : s.wire = l₁ ++ m :: l₂) (hreq : m.msgMeta.request = false) :
    Inv po { s with
      wire := l₁ ++ l₂
      procs := Function.update s.procs m.msgMeta.recver p } ph rounds :=
  { h with
    cmd := fun m' hm' => h.cmd m' <| by
      rw [hwire]
      rcases List.mem_append.mp hm' with hm' | hm' <;> simp [hm']
    requests := fun r' => by
      have hold := h.requests r'
      rw [hwire, requestsOf_append, requestsOf_cons, hreq] at hold
      simpa using hold
    answers := fun r' => by
      have hold := h.answers r'
      rw [hwire, answersTo_append, answersTo_cons, hreq] at hold
      by_cases hr' : r' = m.msgMeta.recver
      · -- the one answer to this node: whatever `Manage` does with it, none is left
        subst hr'
        have hawake := Bool.toNat_le (awake { s with
          wire := l₁ ++ l₂, procs := Function.update s.procs m.msgMeta.recver p } m.msgMeta.recver)
        have hle := Bool.toNat_le (ph m.msgMeta.recver).isReleased
        rw [answersTo_append]
        simp only [Bool.not_false, decide_true, Bool.and_self, if_true] at hold
        omega
      · simpa [hr', Ne.symm hr', awake] using hold }

theorem Inv.wake (h : Inv po s ph rounds) {r : NodeId} {c g : Int} (hr : s.waiting r = some (c, g))
    (hdone : (s.procs r).isDone c = true) :
    Inv po { s with
      waiting := Function.update s.waiting r none
      returned := bump s.returned r g } (Function.update ph r .idle) rounds := by
  have hawake : s.awake r = true := by simp [awake, hr, hdone]
  have hans := h.answers r
  rw [hawake] at hans
  have hgroup := h.waiting r
  rw [hr] at hgroup
  obtain ⟨hphase, hzero⟩ : ph r = .released g ∧ answersTo s.wire r = 0 := by
    cases hph : ph r with
    | released g' =>
      rw [hph] at hans hgroup
      obtain rfl : g = g' := by simpa [Phase.group] using hgroup
      exact ⟨rfl, by simpa [Phase.isReleased] using hans⟩
    | _ => simp [hph, Phase.isReleased] at hans
  have hcount : ∀ g', (po.nodeIds g').countP (fun r' => Function.update ph r .idle r' =
      .counted g') = (po.nodeIds g').countP fun r' => ph r' = .counted g' := fun g' =>
    countP_update_phase (by simp [hphase]) (by simp)
  refine ⟨fun r' => ?_, fun r' g' hg' => ?_, h.cmd, fun r' => ?_, fun r' => ?_, h.shared,
    fun g' hg' => ?_, fun r' g' hr' hg' => ?_, fun r' g' hr' hg' => ?_, fun r' g' => ?_, fun g' => ?_,
    h.released⟩
  · by_cases hrr : r' = r
    · subst hrr
      simp [Phase.group]
    · simpa [hrr] using h.waiting r'
  · by_cases hrr : r' = r
    · subst hrr
      simp [Phase.group] at hg'
    · exact h.member r' g' (by simpa [hrr] using hg')
  · by_cases hrr : r' = r
    · subst hrr
      rw [h.requests, hphase]
      simp [Phase.request]
    · rw [h.requests]
      simp [hrr]
  · by_cases hrr : r' = r
    · subst hrr
      simp [hzero, awake]
    · simpa [hrr, awake] using h.answers r'
  · rw [hcount]
    exact h.count g' hg'
  · have hold := h.issued r' g' hr' hg'
    by_cases hrr : r' = r
    · subst hrr
      simpa [hphase] using hold
    · simpa [hrr] using hold
  · have hold := h.returned r' g' hr' hg'
    show bump s.returned r g r' g' + _ = _
    rw [bump_apply]
    by_cases hrr : r' = r
    · subst hrr
      rw [hphase] at hold
      simpa [eq_comm] using hold
    · simpa [hrr] using hold
  · show bump s.returned r g r' g' ≤ s.issued r' g'
    rw [bump_apply]
    split
    · next heq =>
      obtain ⟨rfl, rfl⟩ := heq
      obtain ⟨hmem, hbig⟩ := h.member r' g' (by rw [hphase]; rfl)
      have hissued := h.issued r' g' hmem hbig
      have hreturned := h.returned r' g' hmem hbig
      simp only [hphase, if_true] at hreturned
      omega
    · exact h.returned_le r' g'
  · rw [hcount]
    exact h.processed g'

/-- No count of the scheduler is full between two messages. -/
def NotFull (po : Postoffice) (sch : BarrierScheduler) : Prop :=
  ∀ g, 0 ≤ g → po.nodeIds g ≠ [] → sch.barrierCount.getD g.toNat 0 ≠ (po.nodeIds g).length

def Action.isInstance : Action → Bool
  | .call _ _ _ instanceBarrier => instanceBarrier
  | _ => true

theorem Inv.receiveRequest (h : Inv po s ph rounds) (hfull : NotFull po s.sch) {l₁ l₂ : List Message}
    {m : Message} (hwire : s.wire = l₁ ++ m :: l₂) (hreq : m.msgMeta.request = true)
    (hs : receiveRequest po { s with wire := l₁ ++ l₂ } m = some s') :
    (∃ ph' rounds', Inv po s' ph' rounds') ∧ NotFull po s'.sch := by
  have hcmd : m.msgMeta.control.cmd = .instanceBarrier := h.cmd m (by simp [hwire])
  obtain ⟨_, -, hs⟩ := Option.bind_eq_some_iff.mp hs
  rw [hcmd] at hs
  obtain ⟨⟨sch, out⟩, hprocess, hs⟩ := Option.bind_eq_some_iff.mp hs
  obtain rfl := Option.some.inj hs
  obtain ⟨hpos, hshared, hans, hspec⟩ := processInstance_spec h.shared rfl hprocess
  rw [hcmd] at hans
  obtain ⟨sch₁, hshared₁, hcount, hspec⟩ := hspec
  have hinv := h.countRequest hwire hreq rfl rfl hpos hshared₁ hcount
  have hother : ∀ g', 0 ≤ g' → g' ≠ m.msgMeta.control.barrierGroup →
      sch₁.barrierCount.getD g'.toNat 0 = s.sch.barrierCount.getD g'.toNat 0 := fun g' hg' hne => by
    rw [hcount, if_neg (by omega)]
  split at hspec
  · next hfull₁ =>
    obtain ⟨hrecvers, hzero⟩ := hspec
    have hall := hinv.count _ hpos
    rw [hfull₁, Int.natCast_inj] at hall
    have hall := List.countP_eq_length.mp hall.symm
    refine ⟨⟨_, _, hinv.release (fun r hr => of_decide_eq_true (hall r hr)) hrecvers hans hshared
      hzero hpos⟩, fun g' hg' hne => ?_⟩
    rw [hzero]
    split
    · next hk =>
      obtain rfl : g' = m.msgMeta.control.barrierGroup := by omega
      have := List.length_pos_iff.mpr hne
      omega
    · next hk => exact hother g' hg' (by rintro rfl; exact hk rfl) ▸ hfull g' hg' hne
  · next hfull₁ =>
    obtain ⟨rfl, rfl⟩ := hspec
    rw [List.append_nil, List.map_nil, List.append_nil]
    refine ⟨⟨_, _, hinv⟩, fun g' hg' hne => ?_⟩
    by_cases hg : g' = m.msgMeta.control.barrierGroup
    · exact hg ▸ hfull₁
    · exact hother g' hg' hg ▸ hfull g' hg' hne

theorem inv_step (h : Inv po s ph rounds) (hfull : NotFull po s.sch) {a : Action}
    (ha : a.isInstance) (hs : step po s a = some s') :
    (∃ ph' rounds', Inv po s' ph' rounds') ∧ NotFull po s'.sch := by
  cases a with
  | call r c g b =>
    obtain rfl : b = true := ha
    obtain ⟨_, hg, hs⟩ := Option.bind_eq_some_iff.mp hs
    obtain ⟨hr, hmem⟩ := (Option.guard_eq_some' _).mp hg
    obtain ⟨⟨p, req⟩, hcall, hs⟩ := Option.bind_eq_some_iff.mp hs
    rcases Process.doBarrier_eq_some hcall with ⟨rfl, rfl, hsmall⟩ | ⟨hbig, hdone, m, rfl, hreq, hcmd, hgroup⟩
    · obtain rfl := Option.some.inj hs
      rw [Function.update_eq_self]
      exact ⟨⟨ph, rounds, h.callSmall hsmall⟩, hfull⟩
    · obtain rfl := Option.some.inj hs
      exact ⟨⟨_, rounds, h.callRequest hr hmem hbig hdone hreq rfl hcmd hgroup⟩, hfull⟩
  | receive i =>
    obtain ⟨m, hm, hs⟩ := Option.bind_eq_some_iff.mp hs
    obtain ⟨l₁, l₂, hwire, rfl⟩ := List.exists_append_of_getElem? hm
    rw [hwire, List.eraseIdx_of_append] at hs
    by_cases hreq : m.msgMeta.request = true
    · rw [if_pos hreq] at hs
      exact h.receiveRequest hfull hwire hreq hs
    · rw [if_neg hreq] at hs
      obtain ⟨p, -, hs⟩ := Option.bind_eq_some_iff.mp hs
      obtain rfl := Option.some.inj hs
      exact ⟨⟨ph, rounds, h.deliver p hwire (Bool.eq_false_iff.mpr hreq)⟩, hfull⟩
  | wake r =>
    obtain ⟨⟨c, g⟩, hr, hs⟩ := Option.bind_eq_some_iff.mp hs
    obtain ⟨_, hdone, hs⟩ := Option.bind_eq_some_iff.mp hs
    obtain rfl := Option.some.inj hs
    exact ⟨⟨_, rounds, h.wake hr ((Option.guard_eq_some' _).mp hdone)⟩, hfull⟩

theorem inv_exec {procs : NodeId → Process} {run : List Action} (hrun : ∀ a ∈ run, a.isInstance)
    (hs : Run.exec (step po) { procs := procs } run = some s) :
    (∃ ph rounds, Inv po s ph rounds) ∧ NotFull po s.sch := by
  refine Run.exec_induction (fun _ s => (∃ ph rounds, Inv po s ph rounds) ∧ NotFull po s.sch)
    (fun run => ∀ a ∈ run, a.isInstance = true) ?_ ⟨⟨_, _, inv_init procs⟩, ?_⟩ ?_ hrun hs
  · exact fun as a h b hb => h b (List.mem_append_left _ hb)
  · intro g _ hne
    have := List.length_pos_iff.mpr hne
    simp only [List.getD_nil]
    omega
  · rintro as a t t' has ⟨⟨ph, rounds, h⟩, hfull⟩ hstep
    exact inv_step h hfull (has a (by simp)) hstep

/-- The number of requests on `g` the scheduler has processed. -/
def processedOn (s : BarrierNet) (g : Int) : Nat := s.processed.countP fun e => e.2 = g

/-- Instance barriers are barriers: whatever groups the nodes call them on and in whatever order the
messages arrive, a node has come back from a group's barrier no more often than every other member
has called it, every member has been sent one answer for each completed round, and the count of the
scheduler is the number of requests of the round that is open. -/
theorem instance_barrier_rounds (po : Postoffice) (procs : NodeId → Process) (run : List Action)
    (hrun : ∀ a ∈ run, a.isInstance) (s : BarrierNet)
    (hs : Run.exec (step po) { procs := procs } run = some s) (g : Int) :
    (∀ r ∈ po.nodeIds g, ∀ r' ∈ po.nodeIds g, s.returned r g ≤ s.issued r' g) ∧
    (∀ r, s.released.count (r, g) =
      if r ∈ po.nodeIds g then s.processedOn g / (po.nodeIds g).length else 0) ∧
    (0 ≤ g → s.sch.barrierCount.getD g.toNat 0 =
      (s.processedOn g % (po.nodeIds g).length : Nat)) := by
  obtain ⟨⟨ph, rounds, h⟩, hfull⟩ := inv_exec hrun hs
  have hprocessed : s.processedOn g = _ := h.processed g
  have hopen : po.nodeIds g ≠ [] →
      (po.nodeIds g).countP (fun r => ph r = .counted g) < (po.nodeIds g).length := fun hne => by
    obtain ⟨r, hr⟩ := List.exists_mem_of_ne_nil _ hne
    have hpos := Postoffice.pos_of_mem_nodeIds hr
    have hcount := h.count g (by omega)
    have hne' := hfull g (by omega) hne
    have hle : (po.nodeIds g).countP (fun r => ph r = .counted g) ≤ (po.nodeIds g).length :=
      List.countP_le_length
    omega
  refine ⟨fun r hr r' hr' => ?_, fun r => ?_, fun hpos => ?_⟩
  · by_cases hbig : 1 < (po.nodeIds g).length
    · have hreturned := h.returned r g hr hbig
      have hissued := h.issued r' g hr' hbig
      omega
    · obtain ⟨a, ha⟩ : ∃ a, po.nodeIds g = [a] := List.length_eq_one_iff.mp (by
        have := List.length_pos_of_mem hr
        omega)
      rw [ha, List.mem_singleton] at hr hr'
      rw [hr, hr']
      exact h.returned_le a g
  · rw [h.released]
    split
    · next hr =>
      have hlt := hopen (List.ne_nil_of_mem hr)
      rw [hprocessed, Nat.add_comm, Nat.add_mul_div_right _ _ (by omega), Nat.div_eq_of_lt hlt,
        Nat.zero_add]
    · rfl
  · rw [h.count g hpos, hprocessed]
    by_cases hne : po.nodeIds g = []
    · simp [hne]
    · rw [Nat.add_comm, Nat.add_mul_mod_self_right, Nat.mod_eq_of_lt (hopen hne)]

/-- A worker, a server and the scheduler meet; the worker returns and calls again before the others
have woken up. -/
def sampleRun : List Action :=
  [.call 9 0 7 true, .call 8 0 7 true, .call 1 0 7 true, .receive 2, .receive 0, .receive 0,
    .receive 0, .wake 9, .call 9 0 7 true]

theorem instance_barrier_rounds_sample :
    ∃ s, Run.exec (step { numWorkers := 1, numServers := 1 }) { procs := Process.ofId } sampleRun = some s ∧
      s.returned 9 7 = 1 ∧ s.returned 9 7 ≤ s.issued 8 7 ∧ s.released.count (8, 7) = 1 := by
  have heval : (Run.exec (step { numWorkers := 1, numServers := 1 }) { procs := Process.ofId }
      sampleRun).map (fun s => (s.returned 9 7, s.processedOn 7)) = some (1, 3) := by decide +kernel
  obtain ⟨s, hs, hval⟩ := Option.map_eq_some_iff.mp heval
  obtain ⟨hreturned, hprocessed⟩ := Prod.mk.inj hval
  have h := instance_barrier_rounds { numWorkers := 1, numServers := 1 } Process.ofId sampleRun
    (by decide) s hs 7
  refine ⟨s, hs, hreturned, h.1 9 (by decide) 8 (by decide), ?_⟩
  rw [h.2.1 8, hprocessed]
  decide

end StepMesh.BarrierNet
