import StepMesh.HashMapRun
import StepMesh.AFWorkerHandles

/-!
# The table of the handles (`batch_timestamps_` of `AFTensorWorker`, `include/ps/af_tensor_app.h`)

The worker of `HandleSys` with the hash map in the place of the map. `Wait` holds a pointer into the hash map and
takes no lock, so this is a worker whose `ZBatchPushPull` and `Wait` are called by one thread; the push-pull thread
and the responses go on beside it. It takes the steps of `HandleSys`.
-/

namespace StepMesh

open Emhash8 (HashMap)

/-- `std::hash<int>`. -/
def hashInt (k : Int) : Nat := (k % 2 ^ 64).toNat

/-- The worker with its hash map; the map of `sys` is not used. -/
structure TableSys where
  sys : HandleSys
  table : HashMap Int (List Int)

namespace TableSys

open HandleSys (Action WaitOk)

/-- `GetAllHandlers`. -/
def getAllHandlers (t : TableSys) (timestamp : Int) : Option (List Int) := do
  let v ← t.table.tryGet hashInt timestamp
  return timestamp :: v.getD []

/-- The next statement of `Wait`. -/
def advanceWait (t : TableSys) : WaitCall → Option (TableSys × Option WaitCall)
  | .first h => do
    guard (t.sys.c.waitReturns h)
    return (t, some (.lookup h))
  | .lookup h => do
    match ← t.table.tryGet hashInt h with
    | some tss => return (t, some (.rest h tss))
    | none => return ({ t with sys := { t.sys with returned := t.sys.returned ++ [h] } }, none)
  | .rest h (ts :: tss) => do
    guard (t.sys.c.waitReturns ts)
    return (t, some (.rest h tss))
  | .rest h [] => do
    let (table, _) ← t.table.erase hashInt h
    return ({ sys := { t.sys with returned := t.sys.returned ++ [h] }, table }, none)

def step (w : AFWorker) (t : TableSys) : Action → Option TableSys
  | .emplace => do
    let (handle, timestamps, req) ← t.sys.calling
    let (table, _) ← t.table.insertUnique hashInt handle timestamps
    return { sys := { t.sys with calling := none, issued := t.sys.issued ++ [(handle, req)] }, table }
  | .advance i => do
    let call ← t.sys.waits[i]?
    let (t', call') ← t.advanceWait call
    return { t' with sys := { t'.sys with waits := t.sys.waits.eraseIdx i ++ call'.toList } }
  | .zBatchPushPull push pull =>
    if t.sys.waits.isEmpty then (t.sys.step w (.zBatchPushPull push pull)).map fun sys => { t with sys } else none
  | .wait ts =>
    if t.sys.waits.isEmpty ∧ t.sys.calling.isNone then (t.sys.step w (.wait ts)).map fun sys => { t with sys } else none
  | .send => (t.sys.step w .send).map fun sys => { t with sys }
  | .response i => (t.sys.step w (.response i)).map fun sys => { t with sys }

def init (w : AFWorker) (table : HashMap Int (List Int)) : TableSys := ⟨HandleSys.init w, table⟩

end TableSys

namespace HandleSys

/-- The steps of a worker whose `ZBatchPushPull` and `Wait` are called by one thread. -/
def oneThread (w : AFWorker) (s : HandleSys) : Action → Option HandleSys
  | .zBatchPushPull push pull => if s.waits.isEmpty then s.step w (.zBatchPushPull push pull) else none
  | .wait ts => if s.waits.isEmpty ∧ s.calling.isNone then s.step w (.wait ts) else none
  | a => s.step w a

/-- The same worker with another map. -/
def withMap (s : HandleSys) (m : Int → Option (List Int)) : HandleSys := { s with batchTimestamps := m }

variable {w : AFWorker} {s s' : HandleSys} {m : Int → Option (List Int)}

theorem step_of_oneThread {a : Action} (h : s.oneThread w a = some s') : s.step w a = some s' := by
  cases a with
  | zBatchPushPull push pull =>
    simp only [oneThread] at h
    split_ifs at h
    exact h
  | wait ts =>
    simp only [oneThread] at h
    split_ifs at h
    exact h
  | emplace => exact h
  | send => exact h
  | response i => exact h
  | advance i => exact h

/-- Only two of the statements look at the map. -/
theorem step_withMap {a : Action} (h₁ : a ≠ .emplace) (h₂ : ∀ i, a ≠ .advance i) :
    (s.withMap m).step w a = (s.step w a).map (withMap · m) := by
  cases a with
  | emplace => exact absurd rfl h₁
  | advance i => exact absurd rfl (h₂ i)
  | zBatchPushPull push pull => simp [step, withMap, Option.map_bind]
  | send => simp [step, withMap, Option.map_bind]
  | response i => simp [step, withMap, Option.map_bind]
  | wait ts => by_cases hts : ts ∈ s.issued.flatMap (·.2.timestamps) <;> simp [step, withMap, guard, hts]

theorem Inv.fresh (h : Inv w s) {handle : Int} {tss : List Int} {req : AFTensorRequest}
    (hc : s.calling = some (handle, tss, req)) : handle ∉ s.given := by
  have hnd := h.nodup_stamps
  rw [calls, hc, List.flatMap_append] at hnd
  intro hgiven
  refine (List.nodup_append.mp hnd).2.2 handle hgiven handle ?_ rfl
  simp [h.calling handle tss req hc]

/-- What `Wait` has returned from is not in the map. -/
def Gone (s : HandleSys) : Prop := ∀ h ∈ s.returned, s.batchTimestamps h = none

theorem Gone.step (hgone : s.Gone) (hinv : Inv w s) {a : Action} (hs : s.step w a = some s') : s'.Gone := by
  cases a with
  | zBatchPushPull push pull =>
    obtain ⟨-, -, hs⟩ := Option.bind_eq_some_iff.mp hs
    obtain ⟨r, -, hs⟩ := Option.bind_eq_some_iff.mp hs
    obtain rfl := Option.some.inj hs
    exact hgone
  | emplace =>
    obtain ⟨⟨handle, tss, req⟩, hc, hs⟩ := Option.bind_eq_some_iff.mp hs
    obtain rfl := Option.some.inj hs
    intro h hh
    have hne : h ≠ handle := by
      rintro rfl
      exact hinv.fresh hc (hinv.returned h hh)
    exact (Function.update_of_ne hne _ _).trans (hgone h hh)
  | send =>
    obtain ⟨req, -, hs⟩ := Option.bind_eq_some_iff.mp hs
    obtain ⟨sent, -, hs⟩ := Option.bind_eq_some_iff.mp hs
    obtain rfl := Option.some.inj hs
    exact hgone
  | response i =>
    obtain ⟨ask, -, hs⟩ := Option.bind_eq_some_iff.mp hs
    obtain ⟨c, -, hs⟩ := Option.bind_eq_some_iff.mp hs
    obtain rfl := Option.some.inj hs
    exact hgone
  | wait ts =>
    obtain ⟨-, -, hs⟩ := Option.bind_eq_some_iff.mp hs
    obtain rfl := Option.some.inj hs
    exact hgone
  | advance i =>
    obtain ⟨call, -, hs⟩ := Option.bind_eq_some_iff.mp hs
    obtain ⟨⟨s₁, call'⟩, hadv, hs⟩ := Option.bind_eq_some_iff.mp hs
    obtain rfl := Option.some.inj hs
    suffices hgone₁ : s₁.Gone from hgone₁
    cases call with
    | first h =>
      obtain ⟨-, -, hs⟩ := Option.bind_eq_some_iff.mp hadv
      obtain ⟨rfl, -⟩ := Prod.mk.inj (Option.some.inj hs)
      exact hgone
    | lookup h =>
      simp only [advanceWait] at hadv
      split at hadv
      · obtain ⟨rfl, -⟩ := Prod.mk.inj (Option.some.inj hadv)
        exact hgone
      · rename_i hnone
        obtain ⟨rfl, -⟩ := Prod.mk.inj (Option.some.inj hadv)
        intro h' hh'
        rcases List.mem_append.mp hh' with hh' | hh'
        · exact hgone h' hh'
        · rw [List.mem_singleton.mp hh']
          exact hnone
    | rest h tss =>
      cases tss with
      | nil =>
        obtain ⟨rfl, -⟩ := Prod.mk.inj (Option.some.inj hadv)
        intro h' hh'
        by_cases heq : h' = h
        · subst heq
          exact Function.update_self ..
        · have hret : h' ∈ s.returned := by
            rcases List.mem_append.mp hh' with hh' | hh'
            · exact hh'
            · exact absurd (List.mem_singleton.mp hh') heq
          exact (Function.update_of_ne heq _ _).trans (hgone h' hret)
      | cons ts tss =>
        obtain ⟨-, -, hs⟩ := Option.bind_eq_some_iff.mp hadv
        obtain ⟨rfl, -⟩ := Prod.mk.inj (Option.some.inj hs)
        exact hgone

end HandleSys

namespace TableSys

open HandleSys (Action)
open Emhash8.HashMap (Represents)

variable {w : AFWorker} {t : TableSys} {m : Int → Option (List Int)}

/-- The two workers take the same step, or neither can. -/
def Agree (t : TableSys) : Option TableSys → Option HandleSys → Prop
  | none, none => True
  | some t', some s' => ∃ m', s' = t'.sys.withMap m' ∧ Represents hashInt t'.table m' ∧
    t'.table.numFilled ≤ t.table.numFilled + 1
  | _, _ => False

theorem agree_map (hr : Represents hashInt t.table m) (sys : Option HandleSys) :
    Agree t (sys.map fun sys => { t with sys }) (sys.map (HandleSys.withMap · m)) := by
  cases sys with
  | none => trivial
  | some sys => exact ⟨m, rfl, hr, Nat.le_succ _⟩

theorem agree_emplace (hr : Represents hashInt t.table m) (hinv : HandleSys.Inv w (t.sys.withMap m))
    (hlt : t.table.numFilled < 2 ^ 30) : Agree t (t.step w .emplace) ((t.sys.withMap m).step w .emplace) := by
  simp only [step, HandleSys.step]
  cases hc : t.sys.calling with
  | none =>
    rw [show (t.sys.withMap m).calling = none from hc]
    trivial
  | some call =>
    obtain ⟨handle, tss, req⟩ := call
    have hnone : m handle = none := by
      cases hm : m handle with
      | none => rfl
      | some tss' =>
        obtain ⟨p, hp, rfl, -⟩ := hinv.stored handle tss' hm
        obtain ⟨tss'', htss⟩ := hinv.handle p hp
        exact absurd (List.mem_flatMap.mpr ⟨p, hp, by rw [htss]; exact List.mem_cons_self⟩) (hinv.fresh hc)
    obtain ⟨table, b, hins, hr', hle⟩ := hr.insertUnique hlt hnone tss
    rw [show (t.sys.withMap m).calling = some (handle, tss, req) from hc]
    simp only [Option.bind_eq_bind, Option.bind_some, hins]
    exact ⟨_, rfl, hr', hle⟩

theorem agree_advanceWait (hr : Represents hashInt t.table m) (call : WaitCall) :
    (t.advanceWait call = none ∧ (t.sys.withMap m).advanceWait call = none) ∨
    ∃ t' call' m', t.advanceWait call = some (t', call') ∧
      (t.sys.withMap m).advanceWait call = some (t'.sys.withMap m', call') ∧ Represents hashInt t'.table m' ∧
      t'.table.numFilled ≤ t.table.numFilled + 1 := by
  have hc : (t.sys.withMap m).c = t.sys.c := rfl
  cases call with
  | first h =>
    simp only [advanceWait, HandleSys.advanceWait, hc]
    cases t.sys.c.waitReturns h with
    | false => exact Or.inl ⟨rfl, rfl⟩
    | true => exact Or.inr ⟨t, _, m, rfl, rfl, hr, Nat.le_succ _⟩
  | lookup h =>
    rw [advanceWait, HandleSys.advanceWait, hr.tryGet, show (t.sys.withMap m).batchTimestamps h = m h from rfl]
    cases m h with
    | none => exact Or.inr ⟨_, none, m, rfl, rfl, hr, Nat.le_succ _⟩
    | some tss => exact Or.inr ⟨t, _, m, rfl, rfl, hr, Nat.le_succ _⟩
  | rest h tss =>
    cases tss with
    | nil =>
      obtain ⟨table, herase, hr', hle⟩ := hr.erase h
      refine Or.inr ⟨⟨{ t.sys with returned := t.sys.returned ++ [h] }, table⟩, none, _, ?_, rfl, hr',
        Nat.le_succ_of_le hle⟩
      rw [advanceWait, herase]
      rfl
    | cons ts tss =>
      simp only [advanceWait, HandleSys.advanceWait, hc]
      cases t.sys.c.waitReturns ts with
      | false => exact Or.inl ⟨rfl, rfl⟩
      | true => exact Or.inr ⟨t, _, m, rfl, rfl, hr, Nat.le_succ _⟩

theorem agree_step (hr : Represents hashInt t.table m) (hinv : HandleSys.Inv w (t.sys.withMap m))
    (hlt : t.table.numFilled < 2 ^ 30) (a : Action) : Agree t (t.step w a) ((t.sys.withMap m).oneThread w a) := by
  have hplain : ∀ a, a ≠ .emplace → (∀ i, a ≠ .advance i) →
      Agree t ((t.sys.step w a).map fun sys => { t with sys }) ((t.sys.withMap m).step w a) := by
    intro a h₁ h₂
    rw [HandleSys.step_withMap h₁ h₂]
    exact agree_map hr _
  cases a with
  | zBatchPushPull push pull =>
    have hwaits : (t.sys.withMap m).waits = t.sys.waits := rfl
    rw [step, HandleSys.oneThread, hwaits]
    split_ifs
    · exact hplain (.zBatchPushPull push pull) (by simp) (by simp)
    · trivial
  | send => exact hplain .send (by simp) (by simp)
  | response i => exact hplain (.response i) (by simp) (by simp)
  | wait ts =>
    have hwaits : (t.sys.withMap m).waits = t.sys.waits := rfl
    have hcalling : (t.sys.withMap m).calling = t.sys.calling := rfl
    rw [step, HandleSys.oneThread, hwaits, hcalling]
    split_ifs
    · exact hplain (.wait ts) (by simp) (by simp)
    · trivial
  | emplace => exact agree_emplace hr hinv hlt
  | advance i =>
    rw [step, HandleSys.oneThread, HandleSys.step]
    · rw [show (t.sys.withMap m).waits = t.sys.waits from rfl]
      cases t.sys.waits[i]? with
      | none => trivial
      | some call =>
        rcases agree_advanceWait hr call with ⟨h₁, h₂⟩ | ⟨t', call', m', h₁, h₂, hr', hle⟩
        · simp only [Option.bind_eq_bind, Option.bind_some, h₁, h₂]
          trivial
        · simp only [Option.bind_eq_bind, Option.bind_some, h₁, h₂]
          exact ⟨m', rfl, hr', hle⟩
    all_goals simp

/-- Both workers can make the same calls, and are then in the same state. -/
theorem agree_run : ∀ (as : List Action) {t : TableSys} {m : Int → Option (List Int)},
    Represents hashInt t.table m → HandleSys.Inv w (t.sys.withMap m) → (t.sys.withMap m).Gone →
    t.table.numFilled + as.length ≤ 2 ^ 30 →
    (Run.exec (step w) t as = none ∧ Run.exec (HandleSys.oneThread w) (t.sys.withMap m) as = none) ∨
    ∃ t' m', Run.exec (step w) t as = some t' ∧
      Run.exec (HandleSys.oneThread w) (t.sys.withMap m) as = some (t'.sys.withMap m') ∧
      Represents hashInt t'.table m' ∧ HandleSys.Inv w (t'.sys.withMap m') ∧ (t'.sys.withMap m').Gone := by
  intro as
  induction as with
  | nil => exact fun hr hinv hgone _ => Or.inr ⟨_, _, rfl, rfl, hr, hinv, hgone⟩
  | cons a as ih =>
    intro t m hr hinv hgone hlen
    rw [List.length_cons] at hlen
    have hagree := agree_step hr hinv (by omega) a
    rw [Run.exec, Run.exec, List.foldlM_cons, List.foldlM_cons]
    cases ht : t.step w a with
    | none =>
      cases hs : (t.sys.withMap m).oneThread w a with
      | none => exact Or.inl ⟨rfl, rfl⟩
      | some s' =>
        rw [ht, hs] at hagree
        cases hagree
    | some t' =>
      cases hs : (t.sys.withMap m).oneThread w a with
      | none =>
        rw [ht, hs] at hagree
        cases hagree
      | some s' =>
        rw [ht, hs] at hagree
        obtain ⟨m', rfl, hr', hle⟩ := hagree
        have hstep := HandleSys.step_of_oneThread hs
        exact ih hr' (hinv.step hstep) (hgone.step hinv hstep) (by omega)

/-- A worker whose `ZBatchPushPull` and `Wait` are called by one thread, with the hash map: it can do what it can do
with a map, and a handle is in the hash map, with the other timestamps of its batch, from the return of the call
that gave it out to the return of the first `Wait` on it. Until then `GetAllHandlers` gives the timestamps of the
batch. -/
theorem table_holds_open_batches (w : AFWorker) (as : List Action) (hlen : as.length ≤ 2 ^ 30) :
    ∃ table, HashMap.init hashInt 2 = some table ∧
      ((Run.exec (HandleSys.oneThread w) (HandleSys.init w) as).isSome →
        (Run.exec (step w) (init w table) as).isSome) ∧
      ∀ t, Run.exec (step w) (init w table) as = some t →
        (∃ s, Run.exec (HandleSys.oneThread w) (HandleSys.init w) as = some s ∧ s.issued = t.sys.issued ∧
          s.returned = t.sys.returned ∧ s.answered = t.sys.answered) ∧
        (∀ h tss, t.table.tryGet hashInt h = some (some tss) ↔
          ∃ req, (h, req) ∈ t.sys.issued ∧ h ∉ t.sys.returned ∧
            req.pushTimestamps ++ req.pullTimestamps = h :: tss) ∧
        ∀ h req, (h, req) ∈ t.sys.issued → h ∉ t.sys.returned →
          t.getAllHandlers h = some (req.pushTimestamps ++ req.pullTimestamps) := by
  obtain ⟨table, hinit, hr, hn⟩ := HashMap.represents_init (V := List Int) hashInt
  have hgone : ((init w table).sys.withMap fun _ => none).Gone := by
    intro h hh
    cases hh
  have hrun := agree_run (t := init w table) as hr (HandleSys.inv_init w) hgone
    (by simpa [init, hn] using hlen)
  have hmap : (init w table).sys.withMap (fun _ => none) = HandleSys.init w := rfl
  rw [hmap] at hrun
  refine ⟨table, hinit, ?_⟩
  rcases hrun with ⟨h₁, h₂⟩ | ⟨t, m, h₁, h₂, hr', hinv, hgone'⟩
  · rw [h₁, h₂]
    exact ⟨id, fun t ht => by cases ht⟩
  · rw [h₁, h₂]
    refine ⟨fun _ => rfl, fun t' ht' => ?_⟩
    obtain rfl := Option.some.inj ht'
    have hentry : ∀ h req, (h, req) ∈ t.sys.issued → h ∉ t.sys.returned →
        m h = some (req.pushTimestamps ++ req.pullTimestamps).tail := fun h req hp hret => hinv.entries _ hp hret
    refine ⟨⟨_, rfl, rfl, rfl, rfl⟩, fun h tss => ?_, fun h req hp hret => ?_⟩
    · rw [hr'.tryGet, Option.some_inj]
      constructor
      · intro hm
        obtain ⟨⟨h', req⟩, hp, rfl, htail⟩ := hinv.stored h tss hm
        obtain ⟨tss', htss⟩ := hinv.handle _ hp
        rw [htss, List.tail_cons] at htail
        refine ⟨req, hp, fun hret => ?_, htail ▸ htss⟩
        have hnone := hgone' _ hret
        rw [show (t.sys.withMap m).batchTimestamps h' = m h' from rfl, hm] at hnone
        cases hnone
      · rintro ⟨req, hp, hret, htss⟩
        rw [hentry h req hp hret, htss, List.tail_cons]
    · obtain ⟨tss, htss⟩ := hinv.handle _ hp
      replace htss : req.pushTimestamps ++ req.pullTimestamps = h :: tss := htss
      simp [getAllHandlers, hr'.tryGet, hentry h req hp hret, htss]

def oneServer : AFWorker := { po := { numWorkers := 1, numServers := 1 } }

/-- A batch of a push and a pull and one more push, and a `Wait` on the first when it is answered. -/
def sampleRun : List Action :=
  [.zBatchPushPull [{ key := 1 }] [{ key := 2 }], .emplace, .send, .zBatchPushPull [{ key := 1 }] [], .emplace,
    .response 0, .response 0, .wait 0, .advance 0, .advance 0, .advance 0, .advance 0]

theorem table_holds_open_batches_two :
    ∃ table t, HashMap.init hashInt 2 = some table ∧
      Run.exec (step oneServer) (init oneServer table) sampleRun = some t ∧
      t.sys.returned = [0] ∧ (∀ tss, t.table.tryGet hashInt 0 ≠ some (some tss)) ∧
      t.table.tryGet hashInt 2 = some (some []) := by
  obtain ⟨table, hinit, hsome, hall⟩ :=
    table_holds_open_batches oneServer sampleRun (by decide)
  have heval : (Run.exec (HandleSys.oneThread oneServer) (HandleSys.init oneServer)
      sampleRun).map (fun s => (s.returned, s.issued.map fun p => (p.1, p.2.pushTimestamps ++ p.2.pullTimestamps)))
      = some ([0], [(0, [0, 1]), (2, [2])]) := by decide +kernel
  obtain ⟨s, hs, hpair⟩ := Option.map_eq_some_iff.mp heval
  obtain ⟨hret, hissued⟩ := Prod.mk.inj hpair
  obtain ⟨t, ht⟩ := Option.isSome_iff_exists.mp (hsome (by rw [hs]; rfl))
  obtain ⟨⟨s', hs', hi, hr, -⟩, htable, -⟩ := hall t ht
  obtain rfl := Option.some.inj (hs.symm.trans hs')
  refine ⟨table, t, hinit, ht, hr ▸ hret, fun tss htss => ?_, ?_⟩
  · obtain ⟨req, -, hnot, -⟩ := (htable 0 tss).mp htss
    rw [← hr, hret] at hnot
    simp at hnot
  · have hmem : (2, [2]) ∈ t.sys.issued.map fun p => (p.1, p.2.pushTimestamps ++ p.2.pullTimestamps) := by
      rw [← hi, hissued]
      simp
    obtain ⟨⟨h, req⟩, hp, heq⟩ := List.mem_map.mp hmem
    obtain ⟨rfl, hstamps⟩ := Prod.mk.inj heq
    exact (htable 2 []).mpr ⟨req, hp, by rw [← hr, hret]; simp, hstamps⟩

end TableSys

end StepMesh
