import Mathlib.Data.Option.Basic
import StepMesh.Message
import StepMesh.Lib.Run
import StepMesh.Lib.ListAux

/-!
# The events of pull responses (`TensorEvent`, `AFTensorServer::Response`)

A response that asks for an event takes one from the pool `events_`, and the payload must not be written
before the work recorded in the event is done. A response of a batch is queued with its recorded event, and
`ResponseWorker` waits for it and releases it before it calls `KVServer::Response`. A single response is
sent at once and hands an event that was never recorded to the van; `SendMsg` waits for it and releases it
only if the address of the key is known. If not, the polling thread writes the payload when the rendezvous is
answered and does not look at the event.

Every response goes through its stages one after the other; the response queue, the worker, the callers of
`Response` and the polling thread only decide which response moves next, so each step here is one step of any
response. The calls of the backend succeed.
-/

namespace StepMesh

structure TensorEvent where
  isRecorded : Bool := false
  isReleased : Bool := true
deriving DecidableEq, Repr

namespace TensorEvent

def record (ev : TensorEvent) : TensorEvent := { ev with isRecorded := true }

/-- Waits only if the event is recorded. -/
def sync (ev : TensorEvent) : TensorEvent := { ev with isRecorded := false }

def release (ev : TensorEvent) : TensorEvent := { ev with isReleased := true }

def occupy (ev : TensorEvent) : Option TensorEvent :=
  if ev.isReleased then some { ev with isReleased := false } else none

/-- `GetEvent`: the first event that can be occupied, or a new one. -/
def getEvent : List TensorEvent → Nat × List TensorEvent
  | [] => (0, [{ isReleased := false }])
  | ev :: events =>
    match ev.occupy with
    | some ev => (0, ev :: events)
    | none => ((getEvent events).1 + 1, ev :: (getEvent events).2)

theorem getEvent_eq (events : List TensorEvent) :
    (∃ ev, events[(getEvent events).1]? = some ev ∧ ev.isReleased = true ∧
        (getEvent events).2 = events.modify (getEvent events).1 fun ev => { ev with isReleased := false }) ∨
      ((∀ ev ∈ events, ev.isReleased = false) ∧ (getEvent events).1 = events.length ∧
        (getEvent events).2 = events ++ [{ isReleased := false }]) := by
  induction events with
  | nil => exact .inr ⟨nofun, rfl, rfl⟩
  | cons ev events ih =>
    cases hev : ev.isReleased with
    | true =>
      refine .inl ⟨ev, ?_⟩
      simp [getEvent, occupy, hev]
    | false =>
      have hget : getEvent (ev :: events) = ((getEvent events).1 + 1, ev :: (getEvent events).2) := by
        simp [getEvent, occupy, hev]
      rw [hget]
      rcases ih with ⟨ev', hev', hreleased, heq⟩ | ⟨hall, hlen, heq⟩
      · exact .inl ⟨ev', hev', hreleased, by rw [heq, List.modify_succ_cons]⟩
      · refine .inr ⟨List.forall_mem_cons.mpr ⟨hev, hall⟩, congrArg (· + 1) hlen, ?_⟩
        rw [heq, List.cons_append]

end TensorEvent

/-- What is done next with a pull response. -/
inductive ResponseStage
  /-- `Record` its event. -/
  | record
  /-- Push it to `response_queue_`. -/
  | push
  /-- Pop it in `ResponseWorker`. -/
  | queued
  /-- Load `response_stop_` once more. -/
  | popped
  /-- `Sync` and `Release` the event in `ResponseWorker`. -/
  | sync | release
  /-- `KVServer::Response`, up to the look-up of the address in `SendMsg`. -/
  | respond
  /-- `Sync` and `Release` the event in `SendMsg`. -/
  | sendSync | sendRelease
  /-- Post the payload in `SendMsg`. -/
  | post
  /-- Wait for the reply to the rendezvous. -/
  | waiting
  | posted
  /-- `ResponseWorker` ended with it. -/
  | dropped
deriving DecidableEq, Repr

/-- A pull response on a key of a receiver. `event` is the pointer it holds; `took`, `recorded`, `synced` and
`released` say which event it took and what was done to it, `synced` that `Sync` did wait. -/
structure PullResponse where
  dst : Key × NodeId
  stage : ResponseStage
  event : Option Nat := none
  took : Option Nat := none
  recorded : Bool := false
  synced : Bool := false
  released : Nat := 0
deriving DecidableEq, Repr

/-- `known` are the keys and receivers whose address is stored. -/
structure ResponseEvents where
  events : List TensorEvent := List.replicate 64 {}
  responses : List PullResponse := []
  known : List (Key × NodeId) := []
  responseStop : Bool := false
deriving DecidableEq, Repr

namespace ResponseEvents

inductive Action
  /-- `Response` begins with a pull: a single one takes an event always. -/
  | response (single needEvent : Bool) (dst : Key × NodeId)
  /-- A response takes its next step. -/
  | advance (id : Nat)
  /-- `PollCQ` handles the reply to the rendezvous of a response. -/
  | reply (id : Nat)
  /-- The destructor stores `response_stop_`. -/
  | stop
deriving DecidableEq, Repr

/-- The stage a response begins with, after `GetEvent`. -/
def firstStage (single needEvent : Bool) : ResponseStage :=
  if single then .respond else if needEvent then .record else .push

def setRsp (s : ResponseEvents) (id : Nat) (r : PullResponse) : ResponseEvents :=
  { s with responses := s.responses.set id r }

def setEvent (s : ResponseEvents) (e : Nat) (f : TensorEvent → TensorEvent) : ResponseEvents :=
  { s with events := s.events.modify e f }

/-- `event->Sync()`. -/
def syncEvent (s : ResponseEvents) (id : Nat) (r : PullResponse) (next : ResponseStage) : Option ResponseEvents := do
  let e ← r.event
  let ev ← s.events[e]?
  return (s.setEvent e .sync).setRsp id { r with stage := next, synced := ev.isRecorded }

/-- `event->Release()`, and the pointer is cleared. -/
def releaseEvent (s : ResponseEvents) (id : Nat) (r : PullResponse) (next : ResponseStage) :
    Option ResponseEvents := do
  let e ← r.event
  return (s.setEvent e .release).setRsp id { r with stage := next, event := none, released := r.released + 1 }

def advance (s : ResponseEvents) (id : Nat) (r : PullResponse) : Option ResponseEvents :=
  match r.stage with
  | .record => do
    let e ← r.event
    return (s.setEvent e .record).setRsp id { r with stage := .push, recorded := true }
  | .push => some (s.setRsp id { r with stage := .queued })
  | .queued => some (s.setRsp id { r with stage := .popped })
  | .popped =>
    if s.responseStop then some (s.setRsp id { r with stage := .dropped, event := none })
    else some (s.setRsp id { r with stage := if r.event = none then .respond else .sync })
  | .sync => s.syncEvent id r .release
  | .release => s.releaseEvent id r .respond
  | .respond =>
    if r.dst ∈ s.known then some (s.setRsp id { r with stage := if r.event = none then .post else .sendSync })
    else some (s.setRsp id { r with stage := .waiting })
  | .sendSync => s.syncEvent id r .sendRelease
  | .sendRelease => s.releaseEvent id r .post
  | .post => some (s.setRsp id { r with stage := .posted })
  | .waiting | .posted | .dropped => none

def step (s : ResponseEvents) : Action → Option ResponseEvents
  | .response single needEvent dst =>
    if single || needEvent then
      let (e, events) := TensorEvent.getEvent s.events
      some { s with
        events := events
        responses := s.responses ++
          [{ dst := dst, stage := firstStage single needEvent, event := some e, took := some e }] }
    else some { s with responses := s.responses ++ [{ dst := dst, stage := firstStage single needEvent }] }
  | .advance id => do
    let r ← s.responses[id]?
    s.advance id r
  | .reply id => do
    let r ← s.responses[id]?
    guard (r.stage = .waiting)
    return { s.setRsp id { r with stage := .posted, event := none } with known := r.dst :: s.known }
  | .stop => some { s with responseStop := true }

/-- The responses are parts of batches, and `ResponseWorker` is not stopped with a response that holds an
event. -/
def Batched (s : ResponseEvents) : Action → Prop
  | .response single _ _ => single = false
  | .advance id => ∀ r, s.responses[id]? = some r → r.stage = .popped → s.responseStop → r.event = none
  | _ => True

instance (s : ResponseEvents) (a : Action) : Decidable (s.Batched a) := by
  cases a <;> unfold Batched <;> infer_instance

/-- The events that responses in progress refer to. -/
def held (s : ResponseEvents) : List Nat := s.responses.filterMap (·.event)

/-- After the step at most `n` responses refer to an event. -/
def AtMost (n : Nat) (s : ResponseEvents) (a : Action) : Prop := ∀ s' ∈ s.step a, s'.held.length ≤ n

instance (n : Nat) (s : ResponseEvents) (a : Action) : Decidable (s.AtMost n a) :=
  inferInstanceAs (Decidable (∀ s' ∈ s.step a, s'.held.length ≤ n))

end ResponseEvents

/-! ### The events of batched responses -/

namespace PullResponse

/-- The event of a response is recorded and its work has not been waited for. -/
def Pending (r : PullResponse) : Prop :=
  r.stage = .push ∨ r.stage = .queued ∨ r.stage = .popped ∨ r.stage = .sync

/-- What has been done to the event of a batched response, by its stage. -/
def Ok (r : PullResponse) : Prop :=
  match r.stage with
  | .record => r.event = r.took ∧ r.released = 0
  | .push | .queued | .popped | .sync => r.event = r.took ∧ (r.took ≠ none → r.recorded) ∧ r.released = 0
  | .release => r.event = r.took ∧ r.recorded ∧ r.synced ∧ r.released = 0
  | .respond | .post | .waiting | .posted =>
    r.event = none ∧ (r.took ≠ none → r.recorded ∧ r.synced ∧ r.released = 1)
  | .sendSync | .sendRelease => False
  | .dropped => r.event = none ∧ r.took = none

/-- The event a response took is recorded before the response is handed over, waited for before the payload is
posted, and released exactly once, after that wait. -/
structure EventOk (r : PullResponse) : Prop where
  recorded : r.stage ≠ .record → r.recorded
  synced : r.stage = .posted → r.synced
  releasedOnce : r.released ≤ 1
  releasedSynced : r.released = 1 → r.synced
  released : r.stage = .posted → r.released = 1

theorem Ok.eventOk {r : PullResponse} (h : r.Ok) (htook : r.took ≠ none) : r.EventOk := by
  obtain ⟨dst, stage, event, took, recorded, synced, released⟩ := r
  cases stage with
  | record =>
    obtain ⟨-, rfl⟩ := h
    exact ⟨absurd rfl, nofun, Nat.zero_le 1, nofun, nofun⟩
  | push | queued | popped | sync =>
    obtain ⟨-, hrec, rfl⟩ := h
    exact ⟨fun _ => hrec htook, nofun, Nat.zero_le 1, nofun, nofun⟩
  | release =>
    obtain ⟨-, hrec, hsync, rfl⟩ := h
    exact ⟨fun _ => hrec, nofun, Nat.zero_le 1, nofun, nofun⟩
  | respond | post | waiting | posted =>
    obtain ⟨-, h⟩ := h
    obtain ⟨hrec, hsync, rfl⟩ := h htook
    exact ⟨fun _ => hrec, fun _ => hsync, Nat.le_refl 1, fun _ => hsync, fun _ => rfl⟩
  | sendSync | sendRelease => exact h.elim
  | dropped => exact absurd h.2 htook

end PullResponse

namespace ResponseEvents

/-- No two responses hold one event, exactly the held events are occupied, and those of the responses that are
queued are recorded. -/
structure Inv (s : ResponseEvents) : Prop where
  ok : ∀ (i : Nat) r, s.responses[i]? = some r → r.Ok
  nodup : s.held.Nodup
  lt : ∀ e ∈ s.held, e < s.events.length
  occupied : ∀ (e : Nat) ev, s.events[e]? = some ev → (ev.isReleased = false ↔ e ∈ s.held)
  pending : ∀ (i : Nat) r e ev, s.responses[i]? = some r → r.Pending → r.event = some e →
    s.events[e]? = some ev → ev.isRecorded

theorem inv_init : Inv {} where
  ok _ _ h := nomatch h
  nodup := List.nodup_nil
  lt _ h := nomatch h
  occupied e ev h := by
    rw [List.getElem?_replicate] at h
    split_ifs at h
    obtain rfl := Option.some.inj h
    exact iff_of_false nofun List.not_mem_nil
  pending _ _ _ _ h := nomatch h

variable {s s' : ResponseEvents} {id e : Nat} {r r' : PullResponse}

theorem Inv.keep (h : s.Inv) (hr : s.responses[id]? = some r) (hok : r'.Ok) (hevent : r'.event = r.event)
    {events : List TensorEvent} (hlen : events.length = s.events.length)
    (hreleased : ∀ (e : Nat) ev', events[e]? = some ev' → ∃ ev, s.events[e]? = some ev ∧
      ev'.isReleased = ev.isReleased)
    (hother : ∀ e, r.event ≠ some e → events[e]? = s.events[e]?)
    (hpending : r'.Pending → ∀ e ev, r.event = some e → events[e]? = some ev → ev.isRecorded) :
    Inv { s with events := events, responses := s.responses.set id r' } := by
  have hheld : held { s with events := events, responses := s.responses.set id r' } = s.held :=
    List.filterMap_set_of_eq hr hevent
  refine ⟨fun i r₂ hr₂ => ?_, hheld ▸ h.nodup, fun e he => ?_, fun e ev he => ?_, fun i r₂ e ev hr₂ hpend he hev => ?_⟩
  · rw [List.getElem?_set] at hr₂
    split_ifs at hr₂
    · obtain rfl := Option.some.inj hr₂
      exact hok
    · exact h.ok i r₂ hr₂
  · rw [hlen]
    exact h.lt e (hheld ▸ he)
  · obtain ⟨ev₀, hev₀, heq⟩ := hreleased e ev he
    rw [hheld, heq]
    exact h.occupied e ev₀ hev₀
  · rw [List.getElem?_set] at hr₂
    split_ifs at hr₂ with hi
    · obtain rfl := Option.some.inj hr₂
      exact hpending hpend e ev (hevent.symm.trans he) hev
    · -- another response holds another event
      have hne : r.event ≠ some e := fun her => hi (List.eq_of_nodup_filterMap h.nodup hr hr₂ her he)
      exact h.pending i r₂ e ev hr₂ hpend he (hother e hne ▸ hev)

theorem Inv.move (h : s.Inv) (hr : s.responses[id]? = some r) (hok : r'.Ok) (hevent : r'.event = r.event)
    (hpending : r'.Pending → r.Pending) : Inv (s.setRsp id r') :=
  h.keep hr hok hevent rfl (fun _ ev he => ⟨ev, he, rfl⟩) (fun _ _ => rfl)
    fun hpend e ev he hev => h.pending id r e ev hr (hpending hpend) he hev

theorem getElem?_modify_eq_some {events : List TensorEvent} {f : TensorEvent → TensorEvent} {ev' : TensorEvent}
    {e e' : Nat} (h : (events.modify e f)[e']? = some ev') : ∃ ev, events[e']? = some ev ∧
      ev' = if e = e' then f ev else ev := by
  rw [List.getElem?_modify] at h
  obtain ⟨ev, hev, rfl⟩ := Option.map_eq_some_iff.mp h
  exact ⟨ev, hev, by split_ifs <;> rfl⟩

theorem Inv.use (h : s.Inv) (hr : s.responses[id]? = some r) (he : r.event = some e) (hok : r'.Ok)
    (hevent : r'.event = r.event) (f : TensorEvent → TensorEvent) (hf : ∀ ev, (f ev).isReleased = ev.isReleased)
    (hpending : r'.Pending → ∀ ev, (f ev).isRecorded) : Inv ((s.setEvent e f).setRsp id r') := by
  refine h.keep hr hok hevent (List.length_modify ..) (fun e' ev' hev' => ?_) (fun e' hne => ?_)
    fun hpend e' ev' he' hev' => ?_
  · obtain ⟨ev, hev, rfl⟩ := getElem?_modify_eq_some hev'
    refine ⟨ev, hev, ?_⟩
    split_ifs
    · exact hf ev
    · rfl
  · have hne : e ≠ e' := fun heq => hne (heq ▸ he)
    exact List.getElem?_modify_ne _ _ hne
  · obtain rfl := Option.some.inj (he.symm.trans he')
    obtain ⟨ev, hev, rfl⟩ := getElem?_modify_eq_some hev'
    rw [if_pos rfl]
    exact hpending hpend ev

theorem Inv.drop (h : s.Inv) (hr : s.responses[id]? = some r) (he : r.event = some e) (hok : r'.Ok)
    (hevent : r'.event = none) : Inv ((s.setEvent e .release).setRsp id r') := by
  have hperm : s.held.Perm (e :: held ((s.setEvent e .release).setRsp id r')) :=
    List.filterMap_set_none hr he hevent
  obtain ⟨hnot, hnd⟩ := List.nodup_cons.mp (hperm.nodup_iff.mp h.nodup)
  refine ⟨fun i r₂ hr₂ => ?_, hnd, fun e' he' => ?_, fun e' ev' hev' => ?_, fun i r₂ e' ev' hr₂ hpend he' hev' => ?_⟩
  · rw [setRsp, List.getElem?_set] at hr₂
    split_ifs at hr₂
    · obtain rfl := Option.some.inj hr₂
      exact hok
    · exact h.ok i r₂ hr₂
  · have hlt := h.lt e' (hperm.mem_iff.mpr (List.mem_cons_of_mem e he'))
    rwa [setRsp, setEvent, List.length_modify]
  · obtain ⟨ev, hev, rfl⟩ := getElem?_modify_eq_some hev'
    split_ifs with heq
    · subst heq
      exact iff_of_false nofun hnot
    · rw [h.occupied e' ev hev, hperm.mem_iff, List.mem_cons]
      exact or_iff_right (Ne.symm heq)
  · rw [setRsp, List.getElem?_set] at hr₂
    split_ifs at hr₂ with hi
    · obtain rfl := Option.some.inj hr₂
      cases hevent.symm.trans he'
    · obtain ⟨ev, hev, rfl⟩ := getElem?_modify_eq_some hev'
      have hne : e ≠ e' := by
        rintro rfl
        exact hi (List.eq_of_nodup_filterMap h.nodup hr hr₂ he he')
      rw [if_neg hne]
      exact h.pending i r₂ e' ev hr₂ hpend he' hev

theorem Inv.snoc_none (h : s.Inv) (hok : r.Ok) (hevent : r.event = none) :
    Inv { s with responses := s.responses ++ [r] } := by
  have hheld : held { s with responses := s.responses ++ [r] } = s.held := by
    simp [held, hevent]
  refine ⟨fun i r₂ hr₂ => ?_, hheld ▸ h.nodup, hheld ▸ h.lt, hheld ▸ h.occupied, fun i r₂ e ev hr₂ hpend he hev => ?_⟩
  · rcases List.getElem?_snoc_eq_some hr₂ with hr₂ | ⟨-, rfl⟩
    · exact h.ok i r₂ hr₂
    · exact hok
  · rcases List.getElem?_snoc_eq_some hr₂ with hr₂ | ⟨-, rfl⟩
    · exact h.pending i r₂ e ev hr₂ hpend he hev
    · cases hevent.symm.trans he

/-- `GetEvent` hands out an event that nobody holds and occupies it; no other event changes. -/
theorem Inv.getEvent (h : s.Inv) {events : List TensorEvent} (hget : TensorEvent.getEvent s.events = (e, events)) :
    e ∉ s.held ∧ (∃ ev, events[e]? = some ev ∧ ev.isReleased = false) ∧
      (∀ e', e' ≠ e → events[e']? = s.events[e']?) ∧ s.events.length ≤ events.length ∧
      (s.events.length < events.length → events.length = s.held.length + 1) := by
  obtain ⟨rfl, rfl⟩ := Prod.mk.inj hget
  rcases TensorEvent.getEvent_eq s.events with ⟨ev, hev, hreleased, heq⟩ | ⟨hall, hlen, heq⟩
  · rw [heq]
    refine ⟨fun hmem => ?_, ⟨{ ev with isReleased := false }, ?_, rfl⟩, fun e' hne => ?_, ?_, fun hlt => ?_⟩
    · cases hreleased.symm.trans ((h.occupied _ ev hev).mpr hmem)
    · rw [List.getElem?_modify_eq, hev]
      rfl
    · exact List.getElem?_modify_ne _ _ hne.symm
    · exact Nat.le_of_eq (List.length_modify ..).symm
    · rw [List.length_modify] at hlt
      exact absurd hlt (Nat.lt_irrefl _)
  · rw [heq, hlen]
    refine ⟨fun hmem => Nat.lt_irrefl _ (h.lt _ hmem), ⟨_, List.getElem?_concat_length, rfl⟩, fun e' hne => ?_,
      by simp, fun _ => ?_⟩
    · rcases Nat.lt_or_gt_of_ne hne with hlt | hlt
      · exact List.getElem?_append_left hlt
      · rw [List.getElem?_eq_none (Nat.le_of_lt hlt)]
        exact List.getElem?_eq_none (by rw [List.length_append]; exact hlt)
    · -- every event is held
      have hheld : s.held.length = s.events.length := by
        refine (List.length_eq_iff_forall_lt_mem h.nodup h.lt).mpr fun e he => ?_
        have hev : s.events[e]? = some s.events[e] := List.getElem?_eq_getElem he
        exact (h.occupied e _ hev).mp (hall _ (List.getElem_mem he))
      rw [List.length_append, hheld, List.length_singleton]

theorem Inv.snoc_some (h : s.Inv) (hok : r.Ok) (hrec : r.stage = .record) {events : List TensorEvent}
    (hget : TensorEvent.getEvent s.events = (e, events)) (hevent : r.event = some e) :
    Inv { s with events := events, responses := s.responses ++ [r] } := by
  obtain ⟨hfree, ⟨ev₀, hev₀, hoccupied⟩, hother, hlen, -⟩ := h.getEvent hget
  have hheld : held { s with events := events, responses := s.responses ++ [r] } = s.held ++ [e] := by
    simp [held, hevent]
  refine ⟨fun i r₂ hr₂ => ?_, ?_, fun e' he' => ?_, fun e' ev' hev' => ?_, fun i r₂ e' ev' hr₂ hpend he' hev' => ?_⟩
  · rcases List.getElem?_snoc_eq_some hr₂ with hr₂ | ⟨-, rfl⟩
    · exact h.ok i r₂ hr₂
    · exact hok
  · rw [hheld]
    exact List.nodup_append.mpr ⟨h.nodup, List.nodup_singleton e, fun a ha b hb hab =>
      hfree (List.mem_singleton.mp hb ▸ hab ▸ ha)⟩
  · rw [hheld, List.mem_append, List.mem_singleton] at he'
    rcases he' with he' | rfl
    · exact Nat.lt_of_lt_of_le (h.lt e' he') hlen
    · exact List.lt_of_getElem?_eq_some hev₀
  · rw [hheld, List.mem_append, List.mem_singleton]
    rcases eq_or_ne e' e with rfl | hne
    · obtain rfl := Option.some.inj (hev₀.symm.trans hev')
      exact iff_of_true hoccupied (.inr rfl)
    · rw [h.occupied e' ev' (hother e' hne ▸ hev')]
      exact (or_iff_left hne).symm
  · rcases List.getElem?_snoc_eq_some hr₂ with hr₂ | ⟨-, rfl⟩
    · have hne : e' ≠ e := fun heq => hfree (heq ▸ List.mem_filterMap.mpr ⟨r₂, List.mem_of_getElem? hr₂, he'⟩)
      exact h.pending i r₂ e' ev' hr₂ hpend he' (hother e' hne ▸ hev')
    · simp [PullResponse.Pending, hrec] at hpend

theorem Inv.advance (h : s.Inv) (hr : s.responses[id]? = some r)
    (hstop : r.stage = .popped → s.responseStop → r.event = none) (hs : s.advance id r = some s') : s'.Inv := by
  have hok := h.ok id r hr
  obtain ⟨dst, stage, event, took, recorded, synced, released⟩ := r
  cases stage with
  | record =>
    obtain ⟨e, he, hs⟩ := Option.bind_eq_some_iff.mp hs
    obtain rfl := Option.some.inj hs
    refine h.use hr he ?_ ?_ .record (fun _ => rfl) fun _ _ => rfl
    · exact ⟨hok.1, fun _ => rfl, hok.2⟩
    · rfl
  | push =>
    obtain rfl := Option.some.inj hs
    exact h.move hr hok rfl fun _ => .inl rfl
  | queued =>
    obtain rfl := Option.some.inj hs
    exact h.move hr hok rfl fun _ => .inr (.inl rfl)
  | popped =>
    simp only [ResponseEvents.advance] at hs
    by_cases hst : s.responseStop
    · rw [if_pos hst] at hs
      obtain rfl := Option.some.inj hs
      obtain rfl : event = none := hstop rfl hst
      exact h.move hr ⟨rfl, hok.1.symm⟩ rfl fun _ => .inr (.inr (.inl rfl))
    · rw [if_neg hst] at hs
      obtain rfl := Option.some.inj hs
      cases event with
      | none =>
        refine h.move hr ?_ rfl fun _ => .inr (.inr (.inl rfl))
        exact ⟨rfl, fun htook => absurd hok.1.symm htook⟩
      | some e => exact h.move hr hok rfl fun _ => .inr (.inr (.inl rfl))
  | sync =>
    obtain ⟨e, he, hs⟩ := Option.bind_eq_some_iff.mp hs
    obtain ⟨ev, hev, hs⟩ := Option.bind_eq_some_iff.mp hs
    obtain rfl := Option.some.inj hs
    have hrec : ev.isRecorded := h.pending id _ e ev hr (.inr (.inr (.inr rfl))) he hev
    have htook : took ≠ none := fun hnone => by cases he.symm.trans (hok.1.trans hnone)
    refine h.use hr he ?_ ?_ .sync (fun _ => rfl) fun hpend => ?_
    · exact ⟨hok.1, hok.2.1 htook, hrec, hok.2.2⟩
    · rfl
    · simp [PullResponse.Pending] at hpend
  | release =>
    obtain ⟨e, he, hs⟩ := Option.bind_eq_some_iff.mp hs
    obtain rfl := Option.some.inj hs
    refine h.drop hr he ?_ rfl
    exact ⟨rfl, fun _ => ⟨hok.2.1, hok.2.2.1, congrArg (· + 1) hok.2.2.2⟩⟩
  | respond =>
    -- the event has been released before
    obtain rfl : event = none := hok.1
    simp only [ResponseEvents.advance] at hs
    split_ifs at hs
    · obtain rfl := Option.some.inj hs
      exact h.move hr hok rfl (by simp [PullResponse.Pending])
    · obtain rfl := Option.some.inj hs
      exact h.move hr hok rfl (by simp [PullResponse.Pending])
  | post =>
    obtain rfl := Option.some.inj hs
    exact h.move hr hok rfl (by simp [PullResponse.Pending])
  | sendSync | sendRelease => exact hok.elim
  | waiting | posted | dropped => cases hs

theorem Inv.step {a : Action} (hb : s.Batched a) (h : s.Inv) (hs : s.step a = some s') : s'.Inv := by
  cases a with
  | response single needEvent dst =>
    obtain rfl : single = false := hb
    cases needEvent with
    | false =>
      obtain rfl := Option.some.inj hs
      refine h.snoc_none ?_ rfl
      exact ⟨rfl, absurd rfl, rfl⟩
    | true =>
      obtain rfl := Option.some.inj hs
      refine h.snoc_some ?_ rfl rfl rfl
      exact ⟨rfl, rfl⟩
  | advance id =>
    obtain ⟨r, hr, hs⟩ := Option.bind_eq_some_iff.mp hs
    exact h.advance hr (hb r hr) hs
  | reply id =>
    obtain ⟨r, hr, hs⟩ := Option.bind_eq_some_iff.mp hs
    obtain ⟨_, hg, hs⟩ := Option.bind_eq_some_iff.mp hs
    obtain rfl := Option.some.inj hs
    have hok := h.ok id r hr
    have hwait := (Option.guard_eq_some' _).mp hg
    obtain ⟨dst, stage, event, took, recorded, synced, released⟩ := r
    obtain rfl : stage = .waiting := hwait
    obtain rfl : event = none := hok.1
    have hok' : PullResponse.Ok ⟨dst, .posted, none, took, recorded, synced, released⟩ := hok
    have h' := h.move hr hok' rfl (by simp [PullResponse.Pending])
    exact ⟨h'.ok, h'.nodup, h'.lt, h'.occupied, h'.pending⟩
  | stop =>
    obtain rfl := Option.some.inj hs
    exact ⟨h.ok, h.nodup, h.lt, h.occupied, h.pending⟩

theorem length_events_advance (hs : s.advance id r = some s') : s'.events.length = s.events.length := by
  have hsync : ∀ next, s.syncEvent id r next = some s' → s'.events.length = s.events.length := by
    intro next hs
    obtain ⟨e, -, hs⟩ := Option.bind_eq_some_iff.mp hs
    obtain ⟨ev, -, hs⟩ := Option.bind_eq_some_iff.mp hs
    obtain rfl := Option.some.inj hs
    exact List.length_modify ..
  have hrelease : ∀ next, s.releaseEvent id r next = some s' → s'.events.length = s.events.length := by
    intro next hs
    obtain ⟨e, -, hs⟩ := Option.bind_eq_some_iff.mp hs
    obtain rfl := Option.some.inj hs
    exact List.length_modify ..
  unfold ResponseEvents.advance at hs
  split at hs
  · obtain ⟨e, -, hs⟩ := Option.bind_eq_some_iff.mp hs
    obtain rfl := Option.some.inj hs
    exact List.length_modify ..
  · obtain rfl := Option.some.inj hs
    rfl
  · obtain rfl := Option.some.inj hs
    rfl
  · split_ifs at hs <;> obtain rfl := Option.some.inj hs <;> rfl
  · exact hsync _ hs
  · exact hrelease _ hs
  · split_ifs at hs <;> obtain rfl := Option.some.inj hs <;> rfl
  · exact hsync _ hs
  · exact hrelease _ hs
  · obtain rfl := Option.some.inj hs
    rfl
  all_goals cases hs

/-- The pool grows only if every event is held: then it is as large as the number of responses that refer to
an event. -/
theorem Inv.length_events_step (h : s.Inv) {a : Action} (hs : s.step a = some s') :
    s'.events.length ≤ max s.events.length s'.held.length := by
  cases a with
  | response single needEvent dst =>
    simp only [ResponseEvents.step] at hs
    split_ifs at hs
    · obtain rfl := Option.some.inj hs
      obtain ⟨-, -, -, hle, hgrow⟩ := h.getEvent (Prod.eta (TensorEvent.getEvent s.events)).symm
      have hheld : ∀ r : PullResponse, ∀ events e, r.event = some e →
          (held { s with events := events, responses := s.responses ++ [r] }).length = s.held.length + 1 := by
        intro r events e he
        simp [held, he]
      rw [hheld _ _ _ rfl]
      dsimp only
      omega
    · obtain rfl := Option.some.inj hs
      exact Nat.le_max_left ..
  | advance id =>
    obtain ⟨r, -, hs⟩ := Option.bind_eq_some_iff.mp hs
    exact Nat.le_trans (Nat.le_of_eq (length_events_advance hs)) (Nat.le_max_left ..)
  | reply id =>
    obtain ⟨r, -, hs⟩ := Option.bind_eq_some_iff.mp hs
    obtain ⟨_, -, hs⟩ := Option.bind_eq_some_iff.mp hs
    obtain rfl := Option.some.inj hs
    exact Nat.le_max_left ..
  | stop =>
    obtain rfl := Option.some.inj hs
    exact Nat.le_max_left ..

/-- A response of a batch on a new key, and a second one on the same key when its address is known. -/
def twoResponses : List Action :=
  List.flatten [[.response false true (7, 9)], List.replicate 7 (.advance 0),
    [.reply 0, .response false true (7, 9)], List.replicate 8 (.advance 1)]

-- with a pool of one event the next such response needs a second one
example : (Run.exec step { events := [{}] } [.response true true (7, 9), .advance 0, .reply 0,
    .response true true (8, 9), .advance 1, .reply 1]).map (·.events.length) = some 2 := by
  decide +kernel

end ResponseEvents

end StepMesh
