import StepMesh.HashMapCalls

/-!
# The hash map is a map

`Dict` is what the hash map is for: a function from keys to values. Every sequence of calls on a new hash map ends
and has the answers of the same calls on the empty `Dict`, whatever the hash function. `emplace_unique` takes a key
that is not there, as its callers promise.
-/

namespace StepMesh.Emhash8

variable {K V : Type}

inductive Call (K V : Type)
  | emplaceUnique (key : K) (val : V)
  | insert (key : K) (val : V)
  | insertOrAssign (key : K) (val : V)
  /-- `operator[]`, with the default value. -/
  | subscript (key : K) (default : V)
  | tryGet (key : K)
  | trySet (key : K) (val : V)
  | contains (key : K)
  | erase (key : K)
  | clear

inductive Answer (V : Type)
  | none
  | flag (b : Bool)
  | value (v : V)
  | found (v : Option V)
deriving DecidableEq, Repr

abbrev Dict (K V : Type) := K → Option V

/-! ### The entries of a map -/

namespace HashMap

variable {hashKey : K → Nat} {t : HashMap K V} {m : Dict K V} {key : K}

theorem Inv.split (hinv : Inv hashKey t) {i : Nat} {v : V} (hi : t.pairs[i]? = some (key, v)) :
    ∃ p q, t.pairs = p ++ (key, v) :: q ∧ p.length = i ∧ ∀ kv ∈ p ++ q, kv.1 ≠ key := by
  obtain ⟨hlt, hget⟩ := List.getElem?_eq_some_iff.mp hi
  have hsplit : t.pairs = t.pairs.take i ++ (key, v) :: t.pairs.drop (i + 1) := by
    rw [← hget, List.cons_getElem_drop_succ, List.take_append_drop]
  refine ⟨_, _, hsplit, by simp; omega, ?_⟩
  have hkeys := hinv.keys
  rw [hsplit, List.map_append, List.map_cons, List.nodup_middle, List.nodup_cons, ← List.map_append] at hkeys
  rintro kv hkv rfl
  exact hkeys.1 (List.mem_map.mpr ⟨kv, hkv, rfl⟩)

/-- The pairs of the hash map are the entries of the map. -/
structure Represents (hashKey : K → Nat) (t : HashMap K V) (m : Dict K V) : Prop where
  inv : Inv hashKey t
  mem : ∀ k v, (k, v) ∈ t.pairs ↔ m k = some v

namespace Represents

variable (h : Represents hashKey t m)
include h

theorem eq_none_iff : m key = none ↔ key ∉ t.pairs.map Prod.fst := by
  rw [Option.eq_none_iff_forall_ne_some]
  simp [h.mem]

theorem eq_some {i : Nat} {v : V} (hi : t.pairs[i]? = some (key, v)) : m key = some v :=
  (h.mem key v).mp (List.mem_of_getElem? hi)

end Represents

theorem represents_init (hashKey : K → Nat) :
    ∃ t : HashMap K V, init hashKey 2 = some t ∧ Represents hashKey t (fun _ => none) ∧ t.numFilled = 0 := by
  obtain ⟨t, hinit, hinv, hpairs⟩ := init_spec (V := V) hashKey
  exact ⟨t, hinit, ⟨hinv, by simp [hpairs]⟩, by simp [numFilled, hpairs]⟩

end HashMap

/-! ### Calls -/

variable [DecidableEq K]

namespace HashMap

def call (hashKey : K → Nat) (t : HashMap K V) : Call K V → Option (HashMap K V × Answer V)
  | .emplaceUnique key val => (t.insertUnique hashKey key val).map fun r => (r.1, .none)
  | .insert key val => (t.insert hashKey key val).map fun r => (r.1, .flag r.2)
  | .insertOrAssign key val => (t.insertOrAssign hashKey key val).map fun r => (r.1, .flag r.2)
  | .subscript key default => (t.subscript hashKey key default).map fun r => (r.1, .value r.2)
  | .tryGet key => (t.tryGet hashKey key).map fun r => (t, .found r)
  | .trySet key val => (t.trySet hashKey key val).map fun r => (r.1, .flag r.2)
  | .contains key => (t.contains hashKey key).map fun r => (t, .flag r)
  | .erase key => (t.erase hashKey key).map fun r => (r.1, .flag r.2)
  | .clear => some (t.clear, .none)

end HashMap

namespace Dict

def call (m : Dict K V) : Call K V → Dict K V × Answer V
  | .emplaceUnique key val => (Function.update m key (some val), .none)
  | .insert key val => ((if (m key).isSome then m else Function.update m key (some val)), .flag (m key).isNone)
  | .insertOrAssign key val => (Function.update m key (some val), .flag (m key).isNone)
  | .subscript key default => (Function.update m key (some ((m key).getD default)), .value ((m key).getD default))
  | .tryGet key => (m, .found (m key))
  | .trySet key val => ((if (m key).isSome then Function.update m key (some val) else m), .flag (m key).isSome)
  | .contains key => (m, .flag (m key).isSome)
  | .erase key => (Function.update m key none, .flag (m key).isSome)
  | .clear => (fun _ => none, .none)

/-- A key given to `emplace_unique` is new. -/
def Allows (m : Dict K V) : Call K V → Prop
  | .emplaceUnique key _ => m key = none
  | _ => True

def run (m : Dict K V) : List (Call K V) → Dict K V × List (Answer V)
  | [] => (m, [])
  | c :: cs => ((run (m.call c).1 cs).1, (m.call c).2 :: (run (m.call c).1 cs).2)

def AllowsAll (m : Dict K V) : List (Call K V) → Prop
  | [] => True
  | c :: cs => m.Allows c ∧ AllowsAll (m.call c).1 cs

end Dict

namespace HashMap

variable {hashKey : K → Nat} {t : HashMap K V} {m : Dict K V} {key : K}

namespace Represents

variable (h : Represents hashKey t m)
include h

theorem append {t' : HashMap K V} {val : V} (hinv : Inv hashKey t') (hpairs : t'.pairs = t.pairs ++ [(key, val)])
    (hkey : m key = none) : Represents hashKey t' (Function.update m key (some val)) where
  inv := hinv
  mem k v := by
    rw [hpairs, List.mem_append, h.mem]
    by_cases hk : k = key
    · subst hk
      simp [hkey, eq_comm]
    · simp [hk]

theorem set {i : Nat} {v : V} (hi : t.pairs[i]? = some (key, v)) (val : V) :
    Represents hashKey { t with pairs := t.pairs.set i (key, val) } (Function.update m key (some val)) where
  inv := h.inv.set hi val
  mem k v' := by
    obtain ⟨p, q, hsplit, rfl, hother⟩ := h.inv.split hi
    have hmem := h.mem k v'
    rw [hsplit] at hmem ⊢
    simp only [List.set_append_right _ _ (le_refl _), Nat.sub_self, List.set_cons_zero]
    by_cases hk : k = key
    · subst hk
      have hnot : (k, v') ∉ p ++ q := fun hkv => hother _ hkv rfl
      simp only [List.mem_append, not_or] at hnot
      simp [hnot.1, hnot.2, eq_comm]
    · simpa [hk] using hmem

theorem eraseIdx {t' : HashMap K V} {i : Nat} {v : V} (hi : t.pairs[i]? = some (key, v)) (hinv : Inv hashKey t')
    (hperm : t'.pairs.Perm (t.pairs.eraseIdx i)) : Represents hashKey t' (Function.update m key none) where
  inv := hinv
  mem k v' := by
    obtain ⟨p, q, hsplit, rfl, hother⟩ := h.inv.split hi
    have hmem := h.mem k v'
    have herase : t.pairs.eraseIdx p.length = p ++ q := by
      rw [hsplit, List.eraseIdx_append_of_length_le (le_refl _), Nat.sub_self, List.eraseIdx_cons_zero]
    rw [hperm.mem_iff, herase]
    rw [hsplit] at hmem
    by_cases hk : k = key
    · subst hk
      have hnot : (k, v') ∉ p ++ q := fun hkv => hother _ hkv rfl
      simpa using hnot
    · simpa [hk] using hmem

theorem findFilledSlot (key : K) :
    (∃ i v, t.findFilledSlot hashKey key = some i ∧ t.pairs[i]? = some (key, v) ∧ m key = some v ∧ i ≠ t.numFilled) ∨
    (t.findFilledSlot hashKey key = some t.numFilled ∧ m key = none) := by
  rcases findFilledSlot_spec h.inv key with ⟨i, v, hfind, hi⟩ | ⟨hfind, hno⟩
  · have hlt : i < t.numFilled := (List.getElem?_eq_some_iff.mp hi).1
    exact Or.inl ⟨i, v, hfind, hi, h.eq_some hi, hlt.ne⟩
  · exact Or.inr ⟨hfind, h.eq_none_iff.mpr hno⟩

theorem tryGet (key : K) : t.tryGet hashKey key = some (m key) := by
  rcases h.findFilledSlot key with ⟨i, v, hfind, hi, hm, hne⟩ | ⟨hfind, hm⟩
  · simp [HashMap.tryGet, hfind, hne, hi, hm]
  · simp [HashMap.tryGet, hfind, hm]

theorem findOrNew (hlt : t.numFilled < 2 ^ 30) (key : K) (val : V) :
    (∃ t' i v, t.findOrNew hashKey key val = some (t', i, false) ∧ Represents hashKey t' m ∧
      t'.numFilled = t.numFilled ∧ t'.pairs[i]? = some (key, v) ∧ m key = some v) ∨
    (∃ t', t.findOrNew hashKey key val = some (t', t.numFilled, true) ∧
      Represents hashKey t' (Function.update m key (some val)) ∧ t'.numFilled = t.numFilled + 1 ∧
      t'.pairs[t.numFilled]? = some (key, val) ∧ m key = none) := by
  rcases findOrNew_spec h.inv hlt key val with ⟨t', i, v, hnew, hinv, hpairs, hi⟩ | ⟨t', hnew, hinv, hpairs, hno⟩
  · refine Or.inl ⟨t', i, v, hnew, ⟨hinv, hpairs ▸ h.mem⟩, ?_, hpairs ▸ hi, h.eq_some hi⟩
    simp [numFilled, hpairs]
  · have hnone := h.eq_none_iff.mpr hno
    refine Or.inr ⟨t', hnew, h.append hinv hpairs hnone, ?_, ?_, hnone⟩
    · simp [numFilled, hpairs]
    · simp [numFilled, hpairs]

theorem insertUnique (hlt : t.numFilled < 2 ^ 30) (hkey : m key = none) (val : V) :
    ∃ t' b, t.insertUnique hashKey key val = some (t', b) ∧
      Represents hashKey t' (Function.update m key (some val)) ∧ t'.numFilled ≤ t.numFilled + 1 := by
  obtain ⟨t', b, hcall, hinv, hpairs⟩ := insertUnique_spec h.inv hlt (h.eq_none_iff.mp hkey) val
  exact ⟨t', b, hcall, h.append hinv hpairs hkey, by simp [numFilled, hpairs]⟩

theorem erase (key : K) : ∃ t', t.erase hashKey key = some (t', (m key).isSome) ∧
    Represents hashKey t' (Function.update m key none) ∧ t'.numFilled ≤ t.numFilled := by
  rcases erase_spec h.inv key with ⟨t', i, v, herase, hinv, hi, hperm⟩ | ⟨herase, hno⟩
  · refine ⟨t', by rw [herase, h.eq_some hi]; rfl, h.eraseIdx hi hinv hperm, ?_⟩
    have hlen := hperm.length_eq
    have hle := (List.eraseIdx_sublist t.pairs i).length_le
    simp only [numFilled]
    omega
  · have hm := h.eq_none_iff.mpr hno
    have hself : Function.update m key none = m := by rw [← hm, Function.update_eq_self]
    exact ⟨t, by rw [herase, hm]; rfl, by rwa [hself], le_refl _⟩

theorem call (hlt : t.numFilled < 2 ^ 30) (c : Call K V) (hallows : m.Allows c) :
    ∃ t', t.call hashKey c = some (t', (m.call c).2) ∧ Represents hashKey t' (m.call c).1 ∧
      t'.numFilled ≤ t.numFilled + 1 := by
  cases c with
  | emplaceUnique key val =>
    obtain ⟨t', b, hcall, hr, hle⟩ := h.insertUnique hlt hallows val
    exact ⟨t', by simp [HashMap.call, hcall, Dict.call], hr, hle⟩
  | insert key val =>
    rcases h.findOrNew hlt key val with ⟨t', i, v, hnew, hr, hn, -, hm⟩ | ⟨t', hnew, hr, hn, -, hm⟩
    · exact ⟨t', by simp [HashMap.call, HashMap.insert, hnew, Dict.call, hm], by simpa [Dict.call, hm] using hr,
        by omega⟩
    · exact ⟨t', by simp [HashMap.call, HashMap.insert, hnew, Dict.call, hm], by simpa [Dict.call, hm] using hr,
        by omega⟩
  | insertOrAssign key val =>
    rcases h.findOrNew hlt key val with ⟨t', i, v, hnew, hr, hn, hi, hm⟩ | ⟨t', hnew, hr, hn, -, hm⟩
    · refine ⟨_, ?_, hr.set hi val, ?_⟩
      · simp [HashMap.call, HashMap.insertOrAssign, hnew, hi, Dict.call, hm]
      · simpa [numFilled] using hn.le.trans (Nat.le_succ _)
    · exact ⟨t', by simp [HashMap.call, HashMap.insertOrAssign, hnew, Dict.call, hm], hr, by omega⟩
  | subscript key default =>
    rcases h.findOrNew hlt key default with ⟨t', i, v, hnew, hr, hn, hi, hm⟩ | ⟨t', hnew, hr, hn, hi, hm⟩
    · refine ⟨t', by simp [HashMap.call, HashMap.subscript, hnew, hi, Dict.call, hm], ?_, by omega⟩
      have hself : Function.update m key (some v) = m := by rw [← hm, Function.update_eq_self]
      simpa [Dict.call, hm, hself] using hr
    · exact ⟨t', by simp [HashMap.call, HashMap.subscript, hnew, hi, Dict.call, hm], by simpa [Dict.call, hm] using hr,
        by omega⟩
  | tryGet key => exact ⟨t, by simp [HashMap.call, h.tryGet key, Dict.call], h, Nat.le_succ _⟩
  | trySet key val =>
    rcases h.findFilledSlot key with ⟨i, v, hfind, hi, hm, hne⟩ | ⟨hfind, hm⟩
    · refine ⟨{ t with pairs := t.pairs.set i (key, val) }, ?_, ?_, ?_⟩
      · simp [HashMap.call, HashMap.trySet, hfind, hne, hi, Dict.call, hm]
      · simpa [Dict.call, hm] using h.set hi val
      · simp [numFilled]
    · exact ⟨t, by simp [HashMap.call, HashMap.trySet, hfind, Dict.call, hm], by simpa [Dict.call, hm] using h,
        Nat.le_succ _⟩
  | contains key =>
    refine ⟨t, ?_, h, Nat.le_succ _⟩
    rcases h.findFilledSlot key with ⟨i, v, hfind, hi, hm, hne⟩ | ⟨hfind, hm⟩
    · simp [HashMap.call, HashMap.contains, hfind, hne, Dict.call, hm]
    · simp [HashMap.call, HashMap.contains, hfind, Dict.call, hm]
  | erase key =>
    obtain ⟨t', hcall, hr, hle⟩ := h.erase key
    exact ⟨t', by simp [HashMap.call, hcall, Dict.call], hr, by omega⟩
  | clear => exact ⟨t.clear, rfl, ⟨h.inv.clear, by simp [HashMap.clear, Dict.call]⟩, by simp [numFilled, HashMap.clear]⟩

omit h in
/-- Any sequence of calls. -/
theorem run : ∀ (calls : List (Call K V)) {t : HashMap K V} {m : Dict K V}, Represents hashKey t m →
    t.numFilled + calls.length ≤ 2 ^ 30 → m.AllowsAll calls →
    ∃ t', Run.execOut (HashMap.call hashKey) t calls = some (t', (m.run calls).2) ∧
      Represents hashKey t' (m.run calls).1 := by
  intro calls
  induction calls with
  | nil => exact fun h _ _ => ⟨_, rfl, h⟩
  | cons c cs ih =>
    intro t m h hlen hallows
    rw [List.length_cons] at hlen
    obtain ⟨t₁, hcall, h₁, hle⟩ := h.call (by omega) c hallows.1
    obtain ⟨t₂, hrun, h₂⟩ := ih h₁ (by omega) hallows.2
    exact ⟨t₂, by simp [Run.execOut, hcall, hrun, Dict.run], h₂⟩

end Represents

/-- Every sequence of calls on a new hash map ends, inside its arrays, with the answers of a map, and what can be
found afterwards is in the map. -/
theorem run_eq_dict (hashKey : K → Nat) (calls : List (Call K V)) (hlen : calls.length ≤ 2 ^ 30)
    (hallows : Dict.AllowsAll (fun _ => none) calls) :
    ∃ t₀ t, init hashKey 2 = some t₀ ∧
      Run.execOut (call hashKey) t₀ calls = some (t, (Dict.run (fun _ => none) calls).2) ∧
      ∀ key, t.tryGet hashKey key = some ((Dict.run (fun _ => none) calls).1 key) := by
  obtain ⟨t₀, hinit, h₀, hempty⟩ := represents_init (V := V) hashKey
  obtain ⟨t, hrun, h⟩ := h₀.run calls (by omega) hallows
  exact ⟨t₀, t, hinit, hrun, h.tryGet⟩

/-- Keys with one hash, of which one is erased. -/
theorem run_eq_dict_collision : ∃ t₀ t : HashMap Nat Nat, init (fun _ => 5) 2 = some t₀ ∧
    Run.execOut (call fun _ => 5) t₀ [.emplaceUnique 1 10, .emplaceUnique 2 20, .erase 1, .tryGet 2, .tryGet 1]
      = some (t, [.none, .none, .flag true, .found (some 20), .found none]) := by
  obtain ⟨t₀, t, hinit, hrun, -⟩ := run_eq_dict (fun _ => 5)
    [.emplaceUnique 1 10, .emplaceUnique 2 20, .erase 1, .tryGet 2, .tryGet 1] (by decide)
    (by simp [Dict.AllowsAll, Dict.Allows, Dict.call])
  exact ⟨t₀, t, hinit, by simpa [Dict.run, Dict.call] using hrun⟩

end HashMap

end StepMesh.Emhash8
