import Mathlib.Algebra.Order.Ring.Int
import Mathlib.Data.List.Induction

/-!
# Runs of a partial step function

A system is a step function `σ → α → Option σ`: an input that the state does not allow gives `none`.
`exec` folds it over a list of inputs. `execOut` is the same for a step that also answers each input.
The rules below prove a property of every run from what one step preserves; the property may speak
of the inputs read so far.
-/

namespace Run

variable {σ α β : Type*}

/-- The state after a list of inputs. -/
def exec (step : σ → α → Option σ) (s : σ) (as : List α) : Option σ :=
  as.foldlM step s

/-- The state after a list of inputs, and the answer to each of them. -/
def execOut (step : σ → α → Option (σ × β)) : σ → List α → Option (σ × List β)
  | s, [] => some (s, [])
  | s, a :: as => do
    let (s, b) ← step s a
    let (s, bs) ← execOut step s as
    return (s, b :: bs)

section exec
variable {step : σ → α → Option σ} {s s' : σ}

@[simp] theorem exec_nil : exec step s [] = some s := rfl

theorem exec_append (as bs : List α) :
    exec step s (as ++ bs) = (exec step s as).bind fun s => exec step s bs := by
  simp [exec, List.foldlM_append]

theorem exec_snoc_eq_some {as : List α} {a : α} :
    exec step s (as ++ [a]) = some s' ↔ ∃ t, exec step s as = some t ∧ step t a = some s' := by
  simp [exec, Option.bind_eq_some_iff]

theorem exec_of_prefix {as bs : List α} (h : exec step s bs = some s') (hpre : as <+: bs) :
    ∃ t, exec step s as = some t := by
  obtain ⟨cs, rfl⟩ := hpre
  rw [exec_append] at h
  obtain ⟨t, ht, -⟩ := Option.bind_eq_some_iff.mp h
  exact ⟨t, ht⟩

/-- What holds at the start and is kept by every step holds after every run. The invariant sees the
inputs read so far, `ok` restricts the runs and is closed under prefixes. -/
theorem exec_induction (Inv : List α → σ → Prop) (ok : List α → Prop)
    (hok : ∀ as a, ok (as ++ [a]) → ok as) (hinit : Inv [] s)
    (hstep : ∀ as a t t', ok (as ++ [a]) → Inv as t → step t a = some t' → Inv (as ++ [a]) t')
    {as : List α} (has : ok as) (h : exec step s as = some s') : Inv as s' := by
  induction as using List.reverseRecOn generalizing s' with
  | nil => obtain rfl : s = s' := by simpa using h
           exact hinit
  | append_singleton as a ih =>
    obtain ⟨t, ht, hta⟩ := exec_snoc_eq_some.mp h
    exact hstep as a t s' has (ih (hok as a has) ht) hta

theorem exec_invariant_of_inputs (Inv : List α → σ → Prop) (hinit : Inv [] s)
    (hstep : ∀ as a t t', Inv as t → step t a = some t' → Inv (as ++ [a]) t')
    {as : List α} (h : exec step s as = some s') : Inv as s' :=
  exec_induction Inv (fun _ => True) (fun _ _ _ => trivial) hinit (fun as a t t' _ => hstep as a t t') trivial h

theorem exec_invariant (Inv : σ → Prop) (hstep : ∀ t a t', Inv t → step t a = some t' → Inv t')
    (hinit : Inv s) {as : List α} (h : exec step s as = some s') : Inv s' :=
  exec_invariant_of_inputs (fun _ => Inv) hinit (fun _ a t t' => hstep t a t') h

/-- The rule for a run each of whose steps meets a condition in the state it is taken in. -/
theorem exec_induction_of_steps (Inv : σ → Prop) (ok : σ → α → Prop) (hinit : Inv s)
    (hstep : ∀ t a t', ok t a → Inv t → step t a = some t' → Inv t') {as : List α}
    (hok : ∀ before a t, before ++ [a] <+: as → exec step s before = some t → ok t a)
    (h : exec step s as = some s') : Inv s' :=
  (exec_induction (fun bs t => exec step s bs = some t ∧ Inv t) (· <+: as)
    (fun bs a hpre => (List.prefix_append bs [a]).trans hpre) ⟨rfl, hinit⟩
    (fun bs a t t' hpre ht hs => ⟨exec_snoc_eq_some.mpr ⟨t, ht.1, hs⟩,
      hstep t a t' (hok bs a t hpre ht.1) ht.2 hs⟩) (List.prefix_refl as) h).2

/-- Every step of a run meets a condition in the state it is taken in. -/
def EveryStep (step : σ → α → Option σ) (ok : σ → α → Prop) : σ → List α → Prop
  | _, [] => True
  | s, a :: as => ok s a ∧ ∀ s' ∈ step s a, EveryStep step ok s' as

instance decidableEveryStep (ok : σ → α → Prop) [∀ s a, Decidable (ok s a)] :
    ∀ s as, Decidable (EveryStep step ok s as)
  | _, [] => inferInstanceAs (Decidable True)
  | s, a :: as =>
    have : ∀ s', Decidable (EveryStep step ok s' as) := fun s' => decidableEveryStep ok s' as
    inferInstanceAs (Decidable (ok s a ∧ ∀ s' ∈ step s a, EveryStep step ok s' as))

theorem exec_cons (a : α) (as : List α) : exec step s (a :: as) = (step s a).bind (exec step · as) := rfl

theorem EveryStep.induction {ok : σ → α → Prop} (Inv : σ → Prop)
    (hstep : ∀ t a t', ok t a → Inv t → step t a = some t' → Inv t') {as : List α}
    (hok : EveryStep step ok s as) (hinit : Inv s) (h : exec step s as = some s') : Inv s' := by
  induction as generalizing s with
  | nil =>
    obtain rfl := Option.some.inj h
    exact hinit
  | cons a as ih =>
    obtain ⟨t, hta, h⟩ := Option.bind_eq_some_iff.mp (exec_cons a as ▸ h)
    exact ih (hok.2 t hta) (hstep s a t hok.1 hinit hta) h

/-- Where every step that meets the condition is possible and keeps the invariant, the run is possible. -/
theorem EveryStep.exists_exec {ok : σ → α → Prop} (Inv : σ → Prop)
    (hstep : ∀ t a, ok t a → Inv t → ∃ t', step t a = some t' ∧ Inv t') {as : List α}
    (hok : EveryStep step ok s as) (hinit : Inv s) : ∃ s', exec step s as = some s' ∧ Inv s' := by
  induction as generalizing s with
  | nil => exact ⟨s, rfl, hinit⟩
  | cons a as ih =>
    obtain ⟨t, ht, hinv⟩ := hstep s a hok.1 hinit
    obtain ⟨s', hs', hinv'⟩ := ih (hok.2 t ht) hinv
    exact ⟨s', by rw [exec_cons, ht, Option.bind_some, hs'], hinv'⟩

theorem EveryStep.mono {ok ok' : σ → α → Prop} (hok : ∀ t a, ok t a → ok' t a) {as : List α}
    (h : EveryStep step ok s as) : EveryStep step ok' s as := by
  induction as generalizing s with
  | nil => trivial
  | cons a as ih => exact ⟨hok s a h.1, fun t ht => ih (h.2 t ht)⟩

theorem everyStep_congr {ok ok' : σ → α → Prop} (hok : ∀ t a t', step t a = some t' → (ok t a ↔ ok' t a))
    {as : List α} (h : exec step s as = some s') : EveryStep step ok s as ↔ EveryStep step ok' s as := by
  induction as generalizing s with
  | nil => exact Iff.rfl
  | cons a as ih =>
    obtain ⟨t, hta, h⟩ := Option.bind_eq_some_iff.mp (exec_cons a as ▸ h)
    refine and_congr (hok s a t hta) ⟨fun hall t' ht' => ?_, fun hall t' ht' => ?_⟩
    · obtain rfl := Option.some.inj (hta.symm.trans ht')
      exact (ih h).mp (hall t hta)
    · obtain rfl := Option.some.inj (hta.symm.trans ht')
      exact (ih h).mpr (hall t hta)

theorem EveryStep.left {ok : σ → α → Prop} {as bs : List α} (h : EveryStep step ok s (as ++ bs)) :
    EveryStep step ok s as := by
  induction as generalizing s with
  | nil => trivial
  | cons a as ih => exact ⟨h.1, fun t ht => ih (h.2 t ht)⟩

theorem EveryStep.right {ok : σ → α → Prop} {as bs : List α} (h : EveryStep step ok s (as ++ bs))
    (hs : exec step s as = some s') : EveryStep step ok s' bs := by
  induction as generalizing s with
  | nil =>
    obtain rfl := Option.some.inj hs
    exact h
  | cons a as ih =>
    obtain ⟨t, ht, hs⟩ := Option.bind_eq_some_iff.mp (exec_cons a as ▸ hs)
    exact ih (h.2 t ht) hs

theorem EveryStep.and {ok ok' : σ → α → Prop} {as : List α} (h : EveryStep step ok s as)
    (h' : EveryStep step ok' s as) : EveryStep step (fun t a => ok t a ∧ ok' t a) s as := by
  induction as generalizing s with
  | nil => trivial
  | cons a as ih => exact ⟨⟨h.1, h'.1⟩, fun t ht => ih (h.2 t ht) (h'.2 t ht)⟩

/-- Where the condition is exactly what one step needs to keep a property, every state of a run has the
property exactly if every step meets the condition. -/
theorem everyStep_iff {ok : σ → α → Prop} (Inv P : σ → Prop)
    (hinv : ∀ t a t', Inv t → step t a = some t' → Inv t')
    (hkeep : ∀ t a t', Inv t → P t → step t a = some t' → (P t' ↔ ok t a))
    (hcan : ∀ t a, Inv t → ¬ok t a → (step t a).isSome) (hs : Inv s) (hP : P s) (as : List α) :
    (∀ before t, before <+: as → exec step s before = some t → P t) ↔ EveryStep step ok s as := by
  induction as generalizing s with
  | nil =>
    refine ⟨fun _ => trivial, fun _ before t hpre ht => ?_⟩
    obtain rfl := List.prefix_nil.mp hpre
    obtain rfl := Option.some.inj ht
    exact hP
  | cons a as ih =>
    have hone : ∀ {s'}, step s a = some s' → exec step s [a] = some s' := fun hs' => by
      rw [exec_cons, hs', Option.bind_some, exec_nil]
    constructor
    · intro h
      have hok : ok s a := by
        by_contra hnot
        obtain ⟨s', hs'⟩ := Option.isSome_iff_exists.mp (hcan s a hs hnot)
        exact hnot ((hkeep s a s' hs hP hs').mp (h [a] s' (List.prefix_append [a] as) (hone hs')))
      refine ⟨hok, fun s' hs' => (ih (hinv s a s' hs hs') ((hkeep s a s' hs hP hs').mpr hok)).mp ?_⟩
      intro before t hpre ht
      exact h (a :: before) t (List.cons_prefix_cons.mpr ⟨rfl, hpre⟩) (by rw [exec_cons, hs']; exact ht)
    · rintro ⟨hok, h⟩ before t hpre ht
      cases before with
      | nil =>
        obtain rfl := Option.some.inj ht
        exact hP
      | cons b before =>
        obtain ⟨rfl, hpre'⟩ := List.cons_prefix_cons.mp hpre
        obtain ⟨s', hs', ht'⟩ := Option.bind_eq_some_iff.mp (exec_cons b before ▸ ht)
        exact (ih (hinv s b s' hs hs') ((hkeep s b s' hs hP hs').mpr hok)).mpr (h s' hs') before t hpre' ht'

end exec

section execOut
variable {step : σ → α → Option (σ × β)} {s s' : σ}

theorem execOut_snoc {as : List α} {a : α} {t : σ} {bs : List β} {b : β}
    (h : execOut step s as = some (t, bs)) (ha : step t a = some (s', b)) :
    execOut step s (as ++ [a]) = some (s', bs ++ [b]) := by
  induction as generalizing s bs with
  | nil =>
    obtain ⟨rfl, rfl⟩ : s = t ∧ [] = bs := by simpa [execOut] using h
    simp [execOut, ha]
  | cons a' as ih =>
    simp only [execOut, Option.bind_eq_bind, Option.bind_eq_some_iff, Prod.exists, Option.pure_def,
      Option.some.injEq, Prod.mk.injEq] at h
    obtain ⟨s₁, b₁, h₁, s₂, bs₂, h₂, rfl, rfl⟩ := h
    simp [execOut, h₁, ih h₂]

theorem execOut_invariant (Inv : List β → σ → Prop) (hinit : Inv [] s)
    (hstep : ∀ bs a t t' b, Inv bs t → step t a = some (t', b) → Inv (bs ++ [b]) t')
    {as : List α} {bs : List β} (h : execOut step s as = some (s', bs)) : Inv bs s' := by
  suffices ∀ before, Inv before s → Inv (before ++ bs) s' from this [] hinit
  clear hinit
  induction as generalizing s bs with
  | nil =>
    obtain ⟨rfl, rfl⟩ : s = s' ∧ [] = bs := by simpa [execOut] using h
    intro before hs
    rwa [List.append_nil]
  | cons a as ih =>
    simp only [execOut, Option.bind_eq_bind, Option.bind_eq_some_iff, Prod.exists, Option.pure_def,
      Option.some.injEq, Prod.mk.injEq] at h
    obtain ⟨t, b, hta, t', bs', h, rfl, rfl⟩ := h
    intro before hs
    rw [← List.singleton_append, ← List.append_assoc]
    exact ih h _ (hstep before a s t b hs hta)

theorem execOut_map {γ : Type*} (f : γ → α) (cs : List γ) :
    execOut step s (cs.map f) = execOut (fun s c => step s (f c)) s cs := by
  induction cs generalizing s with
  | nil => rfl
  | cons c cs ih => simp only [List.map_cons, execOut, ih]

/-- A step that is possible and answers as `out` says in every state of the invariant makes the whole
run possible, with these answers. -/
theorem execOut_eq_map (Inv : List α → σ → Prop) (ok : List α → Prop) {out : α → β}
    (hok : ∀ as a, ok (as ++ [a]) → ok as) (hinit : Inv [] s)
    (hstep : ∀ as a t, ok (as ++ [a]) → Inv as t →
      ∃ t', step t a = some (t', out a) ∧ Inv (as ++ [a]) t')
    {as : List α} (has : ok as) : ∃ s', execOut step s as = some (s', as.map out) ∧ Inv as s' := by
  induction as using List.reverseRecOn with
  | nil => exact ⟨s, rfl, hinit⟩
  | append_singleton as a ih =>
    obtain ⟨t, ht, hinv⟩ := ih (hok as a has)
    obtain ⟨t', hta, hinv'⟩ := hstep as a t has hinv
    exact ⟨t', by simpa using execOut_snoc ht hta, hinv'⟩

end execOut

end Run
