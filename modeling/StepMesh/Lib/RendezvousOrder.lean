import StepMesh.Lib.Rendezvous

/-!
# Messages in the order in which they were sent

A message to a known place is written at once, one that asks only when its answer has come, so the first can
overtake the second. `InOrder` says that from one node to another this has not happened among the messages of
one kind: what has been written of them, and after it what waits in the order of the answers, is what was sent.
Every step keeps it except a message to a known place while an earlier one of its kind waits (`InOrder.step`).
-/

namespace Rendezvous

variable {N R C : Type*} [DecidableEq N] {S S' : State N R C} {a b : N} {f : Nat → Bool}

namespace State

/-- The numbers of the messages from `a` to `b`, in the order in which they were sent. -/
def sentTo (S : State N R C) (a b : N) : List Nat :=
  S.sent.zipIdx.filterMap fun e => if e.1.src = a ∧ e.1.dst = b then some e.2 else none

/-- What waits for an answer. -/
def waitingTo (S : State N R C) (a b : N) : List Nat := (S.asks a b).filterMap (S.waiting a)

/-- The messages with `f` from `a` to `b` have been written in the order in which they were sent, up to what
still waits. -/
def InOrder (S : State N R C) (f : Nat → Bool) (a b : N) : Prop :=
  (S.sentTo a b).filter f = (S.posted a b).filter f ++ (S.waitingTo a b).filter f

theorem sentTo_of_sent_eq (h : S'.sent = S.sent) : S'.sentTo a b = S.sentTo a b := by
  rw [sentTo, sentTo, h]

theorem sentTo_snoc {x : Item N R C} (h : S'.sent = S.sent ++ [x]) :
    S'.sentTo a b = S.sentTo a b ++ if x.src = a ∧ x.dst = b then [S.sent.length] else [] := by
  rw [sentTo, h, List.zipIdx_append, List.filterMap_append, sentTo]
  split_ifs with hx <;> simp [hx]

theorem mem_sentTo {u : Nat} : u ∈ S.sentTo a b ↔ ∃ x, S.sent[u]? = some x ∧ x.src = a ∧ x.dst = b := by
  simp only [sentTo, List.mem_filterMap, Prod.exists, Option.ite_none_right_eq_some, Option.some.injEq,
    List.mem_zipIdx_iff_getElem?]
  constructor
  · rintro ⟨x, v, hx, hab, rfl⟩
    exact ⟨x, hx, hab⟩
  · rintro ⟨x, hx, hab⟩
    exact ⟨x, u, hx, hab, rfl⟩

end State

namespace Inv

theorem mem_sentTo_of_waitingTo (h : Inv S) {u : Nat} (hu : u ∈ S.waitingTo a b) :
    u ∈ S.sentTo a b ∧ u ∉ S.posted a b := by
  obtain ⟨i, hi, hw⟩ := List.mem_filterMap.mp hu
  obtain ⟨v, x, hv, hx, rfl⟩ := (h.mem_asks a b i).mp hi
  obtain rfl := Option.some.inj (hw.symm.trans hv)
  obtain ⟨y, hy, rfl, rfl⟩ := h.waiting a i u hw
  obtain rfl := Option.some.inj (hx.symm.trans hy)
  exact ⟨State.mem_sentTo.mpr ⟨x, hx, rfl, rfl⟩, fun hposted => (h.accounted u x hx).mp hposted hw⟩

theorem waitingTo_first (h : Inv S) {x : Item N R C} (hbuf : x.buf = S.fresh x.src) (a b : N) :
    (S.first x).waitingTo a b = S.waitingTo a b ++ if x.src = a ∧ x.dst = b then [S.sent.length] else [] := by
  -- the buffers that wait are older
  have hold : (S.asks a b).filterMap ((S.first x).waiting a) = S.waitingTo a b := by
    refine List.filterMap_congr fun i hi => set_of_ne ?_
    rintro ⟨rfl, rfl⟩
    exact Nat.lt_irrefl _ (hbuf ▸ h.lt_of_asks hi)
  rw [State.waitingTo, asks_first, List.filterMap_append, hold]
  refine congrArg (S.waitingTo a b ++ ·) ?_
  by_cases hab : x.src = a ∧ x.dst = b
  · obtain ⟨rfl, rfl⟩ := hab
    have hwait : (S.first x).waiting x.src x.buf = some S.sent.length := set_self
    simp [hwait]
  · rw [if_neg hab, if_neg fun h => hab ⟨h.1.symm, h.2.symm⟩]
    rfl

/-- The message that is written is the first of those that wait. -/
theorem waitingTo_answer (h : Inv S) {n c : N} {buf : Nat} {p : Place} {u : Nat} {d : C}
    {rest : List (N × Arrival)} (hcq : S.cq n = (c, .answer buf p) :: rest) (hwait : S.waiting n buf = some u)
    (a b : N) :
    S.waitingTo a b = (if a = n ∧ b = c then [u] else []) ++ (S.answer n c buf p d u rest).waitingTo a b := by
  have hasks := asks_answer (S := S) (p := p) (c := d) (u := u) hcq a b
  have hsorted := h.asks_sorted a b
  rw [hasks] at hsorted
  have hrest : (S.answer n c buf p d u rest).waitingTo a b =
      ((S.answer n c buf p d u rest).asks a b).filterMap (S.waiting a) := by
    refine List.filterMap_congr fun i hi => set_of_ne ?_
    rintro ⟨rfl, rfl⟩
    -- a send buffer has one receiver and is asked for once
    have hac : b = c := by
      have hic : i ∈ S.asks a c := by
        rw [asks_answer (S := S) (p := p) (c := d) (u := u) hcq a c, if_pos ⟨rfl, rfl⟩]
        exact List.mem_cons_self
      have hib : i ∈ S.asks a b := hasks ▸ List.mem_append_right _ hi
      obtain ⟨v, y, hv, hy, rfl⟩ := (h.mem_asks a c i).mp hic
      obtain ⟨w, z, hw, hz, rfl⟩ := (h.mem_asks a b i).mp hib
      obtain rfl := Option.some.inj (hv.symm.trans hw)
      obtain rfl := Option.some.inj (hy.symm.trans hz)
      rfl
    rw [if_pos ⟨rfl, hac⟩, List.singleton_append, List.pairwise_cons] at hsorted
    exact Nat.lt_irrefl _ (hsorted.1 i hi)
  rw [hrest, State.waitingTo, hasks, List.filterMap_append]
  refine congrArg (· ++ _) ?_
  split_ifs with hab
  · simp [hab.1, hwait]
  · rfl

end Inv

namespace State.InOrder

theorem congr {g : Nat → Bool} (h : Inv S) (ho : S.InOrder f a b) (hfg : ∀ u ∈ S.sentTo a b, f u = g u) :
    S.InOrder g a b := by
  rw [InOrder, ← List.filter_congr hfg, ho]
  refine congrArg₂ (· ++ ·) (List.filter_congr fun u hu => hfg u ?_) (List.filter_congr fun u hu => hfg u ?_)
  · exact mem_sentTo.mpr (h.posted_sent a b u hu)
  · exact (h.mem_sentTo_of_waitingTo hu).1

theorem of_eq (ho : S.InOrder f a b) (hsent : S'.sent = S.sent) (hposted : S'.posted = S.posted)
    (hwaiting : S'.waiting = S.waiting) (hasks : S'.asks a b = S.asks a b) : S'.InOrder f a b := by
  rw [InOrder, sentTo_of_sent_eq hsent, hposted, waitingTo, hwaiting, hasks]
  exact ho

theorem first (h : Inv S) (ho : S.InOrder f a b) {x : Item N R C} (hbuf : x.buf = S.fresh x.src) :
    (S.first x).InOrder f a b := by
  rw [InOrder, sentTo_snoc (show (S.first x).sent = S.sent ++ [x] from rfl), h.waitingTo_first hbuf,
    List.filter_append, List.filter_append, ho, List.append_assoc]
  rfl

theorem cached (ho : S.InOrder f a b) {x : Item N R C} {p : Place}
    (hnil : x.src = a → x.dst = b → f S.sent.length → (S.waitingTo a b).filter f = []) :
    (S.cached x p).InOrder f a b := by
  have hwaiting : (S.cached x p).waitingTo a b = S.waitingTo a b := by
    rw [waitingTo, State.cached, Inv.asks_write]
    rfl
  rw [InOrder, sentTo_snoc (show (S.cached x p).sent = S.sent ++ [x] from rfl), hwaiting, State.cached,
    Inv.posted_write, List.filter_append, ho, List.filter_append]
  by_cases hab : x.src = a ∧ x.dst = b
  · rw [if_pos hab, if_pos ⟨hab.1.symm, hab.2.symm⟩]
    cases hf : f S.sent.length with
    | true => rw [hnil hab.1 hab.2 hf, List.append_nil, List.append_nil]
    | false => simp [hf]
  · rw [if_neg hab, if_neg fun h => hab ⟨h.1.symm, h.2.symm⟩, List.filter_nil, List.append_nil, List.append_nil]

theorem answer (h : Inv S) (ho : S.InOrder f a b) {n c : N} {buf : Nat} {p : Place} {u : Nat} {d : C}
    {rest : List (N × Arrival)} (hcq : S.cq n = (c, .answer buf p) :: rest) (hwait : S.waiting n buf = some u) :
    (S.answer n c buf p d u rest).InOrder f a b := by
  rw [InOrder, sentTo_of_sent_eq (show (S.answer n c buf p d u rest).sent = S.sent from rfl), ho,
    h.waitingTo_answer (d := d) hcq hwait a b, State.answer, Inv.posted_write, List.filter_append,
    List.filter_append, List.append_assoc]

theorem step (h : Inv S) (ho : S.InOrder f a b) (hs : Step S S')
    (hcached : ∀ x p, S' = S.cached x p → x.src = a → x.dst = b → f S.sent.length →
      ∀ u ∈ S.sentTo a b, f u → u ∈ S.posted a b) : S'.InOrder f a b := by
  cases hs with
  | first x hbuf => exact ho.first h hbuf
  | cached x y v p =>
    refine ho.cached fun hsrc hdst hf => List.filter_eq_nil_iff.mpr fun u hu hfu => ?_
    obtain ⟨hsent, hnot⟩ := h.mem_sentTo_of_waitingTo hu
    exact hnot (hcached x p rfl hsrc hdst hf u hsent hfu)
  | deliver c d r rest hout => exact ho.of_eq rfl rfl rfl (Inv.asks_deliver hout a b)
  | deliverBack d c buf p rest hback => exact ho.of_eq rfl rfl rfl (Inv.asks_deliverBack hback a b)
  | ask n c buf p d rest hcq => exact ho.of_eq rfl rfl rfl (Inv.asks_ask hcq a b)
  | answer n c buf p u x rest hcq hwait => exact ho.answer h hcq hwait
  | note n c slot u sl rest hcq => exact ho.of_eq rfl rfl rfl (Inv.asks_note hcq a b)
  | pop n nt rest => exact ho.of_eq rfl rfl rfl rfl

/-- The messages are taken in the order in which they were sent. -/
theorem poppedFrom_filter (h : Inv S) (ho : S.InOrder f a b) :
    (S.poppedFrom a b).filter f <+: (S.sentTo a b).filter f := by
  rw [ho, h.fifo, List.filter_append, List.append_assoc]
  exact List.prefix_append ..

end State.InOrder

end Rendezvous
