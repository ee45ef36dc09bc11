import StepMesh.Postoffice

/-!
# The request tracker (`include/ps/internal/customer.h`, `src/customer.cc`)

A timestamp is an index into `tracker_`. `numResponse` returns the number of responses *expected*,
although the header documents the number received; `KVWorker::Process` relies on the latter.
-/

namespace StepMesh

structure CustomerTracker where
  count : Int
  responseCount : Int := 0
deriving DecidableEq, Repr

structure Customer where
  appId : Int
  customerId : Int
  tracker : List CustomerTracker := []
deriving DecidableEq, Repr

namespace Customer

/-- `NewRequest(kServerGroup)`: a push or pull talks to one instance of each server group. The timestamp is
`tracker_.size() - 1` before it is narrowed to an `int`: the two are the same for fewer than 2³¹ requests. -/
def newRequest (po : Postoffice) (c : Customer) : Option (Int × Customer) := do
  let num : Int := (← po.getNodeIDs kServerGroup).length / po.groupSize
  return (c.tracker.length, { c with tracker := c.tracker ++ [{ count := num }] })

/-- `tracker_[timestamp]`. -/
def getTracker (c : Customer) (timestamp : Int) : Option CustomerTracker :=
  if 0 ≤ timestamp then c.tracker[timestamp.toNat]? else none

/-- `tracker_[timestamp]->count`, whatever the name says. -/
def numResponse (c : Customer) (timestamp : Int) : Option Int :=
  (c.getTracker timestamp).map (·.count)

/-- `response_count.fetch_add(num)`. -/
def addResponse (c : Customer) (timestamp num : Int) : Option Customer := do
  let t ← c.getTracker timestamp
  let t := { t with responseCount := t.responseCount + num }
  return { c with tracker := c.tracker.set timestamp.toNat t }

/-- `WaitRequest` leaves its loop. -/
def waitReturns (c : Customer) (timestamp : Int) : Bool :=
  (c.getTracker timestamp).any fun t => t.count = t.responseCount

/-- The tracker with a request that expects a response of every server group. -/
def addRequest (po : Postoffice) (c : Customer) : Customer :=
  { c with tracker := c.tracker ++ [{ count := po.numServers }] }

theorem newRequest_eq (po : Postoffice) (c : Customer) :
    c.newRequest po = if po.numServers = 0 then none else some (↑c.tracker.length, c.addRequest po) := by
  have hcount : (po.serverIds.length : Int) / po.groupSize = po.numServers := by
    rw [Postoffice.serverIds, List.length_map, List.length_range, Int.natCast_mul]
    exact Int.mul_ediv_cancel _ (Int.natCast_ne_zero.mpr po.groupSize_pos.ne')
  rw [newRequest, Postoffice.getNodeIDs_kServerGroup]
  split_ifs
  · rfl
  · simp only [Option.bind_eq_bind, Option.bind_some, hcount, addRequest, Option.pure_def]

theorem newRequest_eq_some {po : Postoffice} {c c' : Customer} {ts : Int} :
    c.newRequest po = some (ts, c') ↔ 0 < po.numServers ∧ ts = c.tracker.length ∧ c' = c.addRequest po := by
  rw [newRequest_eq, Option.ite_none_left_eq_some, Option.some.injEq, Prod.mk.injEq, Nat.pos_iff_ne_zero]
  exact and_congr_right fun _ => and_congr eq_comm eq_comm

theorem getTracker_eq_some {c : Customer} {ts : Int} {t : CustomerTracker} :
    c.getTracker ts = some t ↔ 0 ≤ ts ∧ c.tracker[ts.toNat]? = some t := by
  unfold getTracker
  split_ifs with h <;> simp [h]

theorem getTracker_addRequest (po : Postoffice) (c : Customer) (ts : Int) :
    (c.addRequest po).getTracker ts =
      if ts = c.tracker.length then some { count := po.numServers } else c.getTracker ts := by
  ext t
  rw [getTracker_eq_some]
  simp only [addRequest]
  split_ifs with h
  · simp [h]
  · rw [getTracker_eq_some, and_congr_right_iff]
    intro hts
    rcases Nat.lt_or_ge ts.toNat c.tracker.length with hlt | hge
    · rw [List.getElem?_append_left hlt]
    · rw [List.getElem?_eq_none hge, List.getElem?_eq_none (by simp; omega)]

theorem getTracker_lt {c : Customer} {ts : Int} {t : CustomerTracker} (h : c.getTracker ts = some t) :
    ts < c.tracker.length := by
  obtain ⟨h₀, h⟩ := getTracker_eq_some.mp h
  have := (List.getElem?_eq_some_iff.mp h).1
  omega

theorem addResponse_eq_some {c c' : Customer} {ts num : Int} (h : c.addResponse ts num = some c') :
    ∃ t, c.getTracker ts = some t ∧ c'.tracker.length = c.tracker.length ∧
      ∀ ts', c'.getTracker ts' =
        if ts' = ts then some { t with responseCount := t.responseCount + num }
        else c.getTracker ts' := by
  obtain ⟨t, ht, hc'⟩ := Option.bind_eq_some_iff.mp h
  obtain rfl := Option.some.inj hc'
  obtain ⟨h₀, hget⟩ := getTracker_eq_some.mp ht
  have hlt := (List.getElem?_eq_some_iff.mp hget).1
  refine ⟨t, ht, List.length_set, fun ts' => ?_⟩
  ext t'
  rw [getTracker_eq_some]
  split_ifs with hts
  · subst hts
    simp [h₀, hlt]
  · rw [getTracker_eq_some, and_congr_right_iff]
    intro h₀'
    rw [List.getElem?_set_ne (by omega)]

end Customer

end StepMesh
