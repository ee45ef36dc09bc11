import Mathlib.Data.List.ReduceOption
import StepMesh.SharedArray
import StepMesh.Lib.ListAux
import StepMesh.Lib.Run

/-!
# Arrays as lists

Any number of `SArray<V>` over one memory, and beside each the list that the same operations make. An array whose
storage another one shares when that is modified takes its list anew from what it then holds.
-/

namespace StepMesh

open Blocks SharedArray

/-- The argument of `push_back`: a value, or an element of an array. -/
inductive Pushed (V : Type)
  | value (v : V)
  | element (y i : Nat)

inductive ArrayOp (V : Type)
  | resize (x size : Nat) (val : V)
  | reserve (x size : Nat)
  | pushBack (x : Nat) (val : Pushed V)
  | popBack (x : Nat)
  | append (x y : Nat)
  /-- `z = x.segment(first, last)` -/
  | segment (x first last z : Nat)

structure SharedArrays (V : Type) where
  mem : Mem V
  arrays : Nat → SharedArray

namespace SharedArrays

variable {V : Type}

/-- A method that is called on the array `x`. -/
def call (h : SharedArrays V) (x : Nat) (f : Mem V → SharedArray → Except Fault (Mem V × SharedArray)) :
    Except Fault (SharedArrays V) := do
  let (mem, a) ← f h.mem (h.arrays x)
  return { mem := mem, arrays := Function.update h.arrays x a }

/-- Only an element that there is can be referred to. -/
def reference (h : SharedArrays V) : Pushed V → Except Fault (Reference V)
  | .value v => .ok (.value v)
  | .element y i => if i < (h.arrays y).size then .ok (.element ((h.arrays y).ptr.add i)) else .error .refused

def contents (h : SharedArrays V) (x : Nat) : List (Option V) := SharedArray.contents h.mem (h.arrays x)

/-- `append` can read its argument after the `resize`: it is another array, and its elements do not lie behind
those of `x` in a storage that has room for both. -/
def CanAppend (h : SharedArrays V) (x y : Nat) : Prop :=
  (h.arrays y).size = 0 ∨
    x ≠ y ∧ (h.arrays x).Fits ((h.arrays x).size + (h.arrays y).size) ∧
      ((h.arrays x).capacity < (h.arrays x).size + (h.arrays y).size ∨
        Apart ((h.arrays x).ptr.add (h.arrays x).size) (h.arrays y).size (h.arrays y).ptr (h.arrays y).size)

instance (h : SharedArrays V) (x y : Nat) : Decidable (h.CanAppend x y) :=
  inferInstanceAs (Decidable ((h.arrays y).size = 0 ∨
    x ≠ y ∧ (h.arrays x).Fits ((h.arrays x).size + (h.arrays y).size) ∧
      ((h.arrays x).capacity < (h.arrays x).size + (h.arrays y).size ∨
        Apart ((h.arrays x).ptr.add (h.arrays x).size) (h.arrays y).size (h.arrays y).ptr (h.arrays y).size)))

variable [BEq V] [Zero V]

/-- `arr` is read again after the call of `resize`, which has changed it if it is the array itself. -/
def append (room : Nat) (h : SharedArrays V) (x y : Nat) : Except Fault (SharedArrays V) := do
  if (h.arrays y).size = 0 then return h
  let origSize := (h.arrays x).size
  let h ← h.call x (resize room · · ((origSize + (h.arrays y).size) % 2 ^ 64) 0)
  let mem ← h.mem.copy ((h.arrays x).ptr.add origSize) (h.arrays y).ptr (h.arrays y).size
  return { h with mem := mem }

def run (room : Nat) (h : SharedArrays V) : ArrayOp V → Except Fault (SharedArrays V)
  | .resize x size val => h.call x (resize room · · size val)
  | .reserve x size => h.call x (reserve room · · size)
  | .pushBack x val => do
    let val ← h.reference val
    h.call x (pushBack room · · val)
  | .popBack x => h.call x fun m a => .ok (m, popBack a)
  | .append x y => h.append room x y
  | .segment x first last z => do
    let a ← (h.arrays x).segment first last
    return { h with arrays := Function.update h.arrays z a }

theorem append_spec {h : SharedArrays V} {room x y : Nat} (hx : Held h.mem (h.arrays x))
    (hy : Held h.mem (h.arrays y)) (happ : h.CanAppend x y) :
    h.append room x y = .error .refused ∨ ∃ m' a',
      h.append room x y = .ok ⟨m', Function.update h.arrays x a'⟩ ∧ Grown h.mem (h.arrays x) m' a' ∧
        SharedArray.contents m' a' = h.contents x ++ h.contents y := by
  have hlex := hx.size_le
  have hltx := hx.capacity_lt
  have hley := hy.size_le
  have hleny : (h.contents y).length = (h.arrays y).size := hy.length_contents
  rw [SharedArrays.append]
  by_cases hzero : (h.arrays y).size = 0
  · have hnil : h.contents y = [] := List.length_eq_zero_iff.mp (hleny.trans hzero)
    refine .inr ⟨h.mem, h.arrays x, ?_, .refl hx, ?_⟩
    · rw [if_pos hzero, Function.update_eq_self]
      rfl
    · rw [hnil, List.append_nil]
      rfl
  · obtain ⟨hne, hfits, happ⟩ := happ.resolve_left hzero
    have hsum : ((h.arrays x).size + (h.arrays y).size) % 2 ^ 64 = (h.arrays x).size + (h.arrays y).size :=
      Nat.mod_eq_of_lt (by unfold Fits at hfits; omega)
    rw [if_neg hzero]
    simp only [hsum, SharedArrays.call]
    obtain hr | ⟨m', a', hr, hgrown, hs, hc, hm⟩ := resize_spec room hx hfits 0
    · exact .inl (by rw [hr]; rfl)
    · have hle' := hgrown.held.size_le
      -- The elements of `y` are where they were.
      have hcy : SharedArray.contents m' (h.arrays y) = h.contents y := by
        refine hy.contents_eq hm ?_
        split_ifs with hcap
        · rw [Nat.add_sub_cancel_left]
          exact happ.resolve_left (by omega)
        · exact .inl rfl
      have hapart : Apart (a'.ptr.add (h.arrays x).size) (h.arrays y).size (h.arrays y).ptr (h.arrays y).size := by
        rcases hgrown.own with hnew | ⟨hptr, hcap⟩
        · exact .inr (.inr (.inl (Nat.ne_of_gt (Nat.lt_of_lt_of_le hy.block_lt hnew))))
        · rw [hptr]
          exact happ.resolve_left (by omega)
      have hdst : m'.Inside (a'.ptr.add (h.arrays x).size) (h.arrays y).size := hgrown.held.inside.add (by omega)
      have hsrc : m'.Inside (h.arrays y).ptr (h.arrays y).size :=
        (hgrown.changed.inside_iff hy.block_lt).mpr (hy.inside.mono hley)
      refine .inr ⟨m'.write (a'.ptr.add (h.arrays x).size) (h.contents y), a', ?_,
        hgrown.write hy.contents_written (by omega), ?_⟩
      · have hcopy := Mem.copy_of_inside hdst hsrc hapart
        simp only [hr, ok_bind, pure_bind, Function.update_self, Function.update_of_ne hne.symm, hcopy, ← hcy]
        rfl
      · rw [SharedArray.contents, hs, ← hleny, Mem.slice_write_add (by rwa [hleny]),
          slice_of_resized hx (Nat.le_add_right _ _) hs hc]
        rfl

end SharedArrays

variable {V : Type}

/-! ### The lists -/

def Pushed.ofLists (lists : Nat → List V) : Pushed V → List V
  | .value v => [v]
  | .element y i => (lists y)[i]?.toList

/-- What the operation does to the lists. -/
def ArrayOp.onLists (lists : Nat → List V) : ArrayOp V → Nat → List V
  | .resize x size val =>
    Function.update lists x ((lists x).take size ++ List.replicate (size - (lists x).length) val)
  | .reserve _ _ => lists
  | .pushBack x val => Function.update lists x (lists x ++ val.ofLists lists)
  | .popBack x => Function.update lists x (lists x).dropLast
  | .append x y => Function.update lists x (lists x ++ lists y)
  | .segment x first last z => Function.update lists z (((lists x).drop first).take (last - first))

def ArrayOp.modified : ArrayOp V → Option Nat
  | .resize x _ _ | .reserve x _ | .pushBack x _ | .popBack x | .append x _ => some x
  | .segment _ _ _ _ => none

theorem ArrayOp.onLists_of_ne {op : ArrayOp V} {x z : Nat} {lists : Nat → List V}
    (hop : op.modified = some x) (hz : z ≠ x) : op.onLists lists z = lists z := by
  cases op <;> simp only [ArrayOp.modified, Option.some.injEq, reduceCtorEq] at hop <;> subst hop <;>
    simp only [ArrayOp.onLists, Function.update_of_ne hz]

/-- `z` shares its storage with another array that the operation modifies. -/
def SharedArrays.Shares (h : SharedArrays V) (op : ArrayOp V) (z : Nat) : Prop :=
  ∃ x ∈ op.modified, z ≠ x ∧
    ¬ Apart (h.arrays x).ptr (h.arrays x).capacity (h.arrays z).ptr (h.arrays z).capacity

instance (h : SharedArrays V) (op : ArrayOp V) (z : Nat) : Decidable (h.Shares op z) :=
  inferInstanceAs (Decidable (∃ x ∈ op.modified, z ≠ x ∧
    ¬ Apart (h.arrays x).ptr (h.arrays x).capacity (h.arrays z).ptr (h.arrays z).capacity))

structure ListedArrays (V : Type) extends SharedArrays V where
  lists : Nat → List V

structure ArrayAction (V : Type) where
  op : ArrayOp V
  room : Nat

/-- A c-array, and the devices it is given with. -/
structure CArray (V : Type) where
  values : List V
  srcDeviceType : DeviceType := .cpu
  srcDeviceId : Int := 0
  dstDeviceType : DeviceType := .cpu
  dstDeviceId : Int := 0

namespace ListedArrays

/-- The array `i` is constructed from the `i`th c-array, one without is empty and points to the block 0. -/
def init (data : List (CArray V)) : ListedArrays V where
  mem.cells
    | 0 => []
    | b + 1 => data[b]?.elim [] fun c => c.values.map some
  mem.next := data.length + 1
  arrays i := data[i]?.elim {} fun c => reset ⟨i + 1, 0⟩ c.values.length c.srcDeviceType c.srcDeviceId
    c.dstDeviceType c.dstDeviceId
  lists i := data[i]?.elim [] CArray.values

/-- The lists after an operation that has left `h`. -/
def follow (t : ListedArrays V) (op : ArrayOp V) (h : SharedArrays V) : ListedArrays V where
  toSharedArrays := h
  lists z := if t.Shares op z then (h.contents z).reduceOption else op.onLists t.lists z

/-- A refused operation changes nothing; there is no state after an access outside the storage. -/
def step [BEq V] [Zero V] (t : ListedArrays V) (a : ArrayAction V) : Option (ListedArrays V) :=
  match t.run a.room a.op with
  | .ok h => some (t.follow a.op h)
  | .error .refused => some t
  | .error _ => none

/-! ### What one step keeps -/

/-- A cell holds the element of the list, up to the zero that `memset` has written. -/
def Agree [BEq V] [Zero V] (c : Option V) (v : V) : Prop := c = some v ∨ c = some 0 ∧ v == 0

/-- Every array has its storage, and in it its list. -/
def Wf [BEq V] [Zero V] (t : ListedArrays V) : Prop :=
  ∀ x, Held t.mem (t.arrays x) ∧ List.Forall₂ Agree (t.contents x) (t.lists x)

variable [BEq V] [Zero V] {t : ListedArrays V} {x : Nat}

theorem agree_fillValue (val : V) : Agree (some (fillValue val)) val := by
  rw [fillValue]
  split_ifs with h
  · exact .inr ⟨rfl, h⟩
  · exact .inl rfl

theorem forall₂_agree_reduceOption {cs : List (Option V)} (h : ∀ c ∈ cs, c.isSome) :
    List.Forall₂ Agree cs cs.reduceOption := by
  induction cs with
  | nil => exact .nil
  | cons c cs ih =>
    obtain ⟨v, rfl⟩ := Option.isSome_iff_exists.mp (h c List.mem_cons_self)
    rw [List.reduceOption_cons_of_some]
    exact .cons (.inl rfl) (ih fun d hd => h d (List.mem_cons_of_mem _ hd))

/-- A change of one array: its own list is the new one, and the others have theirs or take it anew. -/
theorem Wf.follow (ht : t.Wf) {op : ArrayOp V} (hop : op.modified = some x) {m' : Mem V} {a' : SharedArray}
    (hgrown : Grown t.mem (t.arrays x) m' a')
    (hx : List.Forall₂ Agree (SharedArray.contents m' a') (op.onLists t.lists x)) :
    (t.follow op ⟨m', Function.update t.arrays x a'⟩).Wf := by
  intro z
  by_cases hz : z = x
  · subst hz
    have hself : ¬ t.Shares op z := by
      rintro ⟨y, hy, hne, -⟩
      exact hne (Option.some.inj (hop.symm.trans hy))
    simp only [ListedArrays.follow, SharedArrays.contents, Function.update_self, if_neg hself]
    exact ⟨hgrown.held, hx⟩
  · obtain ⟨hheld, hlist⟩ := ht z
    have hheld' : Held m' (t.arrays z) := hheld.changed hgrown.changed
    simp only [ListedArrays.follow, SharedArrays.contents, Function.update_of_ne hz]
    refine ⟨hheld', ?_⟩
    split_ifs with hshares
    · exact forall₂_agree_reduceOption hheld'.contents_written
    · have hapart : Apart (t.arrays x).ptr (t.arrays x).capacity (t.arrays z).ptr (t.arrays z).capacity := by
        by_contra hnot
        exact hshares ⟨x, hop, hz, hnot⟩
      rw [hheld.contents_eq hgrown.changed (hapart.mono (Nat.le_refl _) hheld.size_le),
        ArrayOp.onLists_of_ne hop hz]
      exact hlist

theorem Wf.call (ht : t.Wf) {op : ArrayOp V} (hop : op.modified = some x)
    {f : Mem V → SharedArray → Except Fault (Mem V × SharedArray)}
    (hf : f t.mem (t.arrays x) = .error .refused ∨ ∃ m' a', f t.mem (t.arrays x) = .ok (m', a') ∧
      Grown t.mem (t.arrays x) m' a' ∧ List.Forall₂ Agree (SharedArray.contents m' a') (op.onLists t.lists x)) :
    t.call x f = .error .refused ∨ ∃ h, t.call x f = .ok h ∧ (t.follow op h).Wf := by
  rw [SharedArrays.call]
  rcases hf with hf | ⟨m', a', hf, hgrown, hx⟩
  · exact .inl (by rw [hf]; rfl)
  · exact .inr ⟨_, by rw [hf]; rfl, ht.follow hop hgrown hx⟩

theorem Wf.resize (ht : t.Wf) (room : Nat) {size : Nat} (hsize : (t.arrays x).Fits size) (val : V) :
    t.run room (.resize x size val) = .error .refused ∨
      ∃ h, t.run room (.resize x size val) = .ok h ∧ (t.follow (.resize x size val) h).Wf := by
  obtain ⟨hheld, hlist⟩ := ht x
  rw [SharedArrays.run]
  refine ht.call rfl ((resize_spec room hheld hsize val).imp_right ?_)
  rintro ⟨m', a', hr, hgrown, -, hc, -⟩
  refine ⟨m', a', hr, hgrown, ?_⟩
  have hlen : (t.arrays x).size = (t.lists x).length := hheld.length_contents.symm.trans hlist.length_eq
  rw [hc, ArrayOp.onLists, Function.update_self, hlen]
  exact List.rel_append (List.forall₂_take _ hlist) (List.forall₂_replicate _ (agree_fillValue val))

theorem Wf.reserve (ht : t.Wf) (room : Nat) {size : Nat} (hsize : (t.arrays x).Fits size) :
    t.run room (.reserve x size) = .error .refused ∨
      ∃ h, t.run room (.reserve x size) = .ok h ∧ (t.follow (.reserve x size) h).Wf := by
  obtain ⟨hheld, hlist⟩ := ht x
  rw [SharedArrays.run]
  refine ht.call rfl ((reserve_spec room hheld hsize).imp_right ?_)
  rintro ⟨m', a', hr, hgrown, -, -, hc, -⟩
  exact ⟨m', a', hr, hgrown, hc ▸ hlist⟩

theorem Wf.popBack (ht : t.Wf) (room : Nat) : t.run room (.popBack x) = .error .refused ∨
    ∃ h, t.run room (.popBack x) = .ok h ∧ (t.follow (.popBack x) h).Wf := by
  obtain ⟨hheld, hlist⟩ := ht x
  obtain ⟨hgrown, hc⟩ := popBack_spec hheld
  rw [SharedArrays.run]
  refine ht.call rfl (.inr ⟨_, _, rfl, hgrown, ?_⟩)
  rw [hc, ArrayOp.onLists, Function.update_self, List.dropLast_eq_take, List.dropLast_eq_take]
  have hlen : (SharedArray.contents t.mem (t.arrays x)).length = (t.lists x).length := hlist.length_eq
  rw [hlen]
  exact List.forall₂_take _ hlist

/-- What `push_back` is given is in the lists what it is in memory, also after the storage has moved. -/
theorem Wf.reference (ht : t.Wf) (val : Pushed V) : t.reference val = .error .refused ∨
    ∃ r c, t.reference val = .ok r ∧ c.isSome ∧ List.Forall₂ Agree [c] (val.ofLists t.lists) ∧
      ∀ p m', ChangedIn p 0 t.mem m' → r.load m' = .ok [c] := by
  cases val with
  | value v => exact .inr ⟨.value v, some v, rfl, rfl, .cons (.inl rfl) .nil, fun _ _ _ => rfl⟩
  | element y i =>
    obtain ⟨hheld, hlist⟩ := ht y
    have hle := hheld.size_le
    rw [SharedArrays.reference]
    split_ifs with hi
    · have hblock : ((t.arrays y).ptr.add i).block < t.mem.next := hheld.block_lt
      have hin : t.mem.Inside ((t.arrays y).ptr.add i) 1 := hheld.inside.add (by omega)
      have hslice : ((t.contents y).drop i).take 1 = t.mem.slice ((t.arrays y).ptr.add i) 1 :=
        Mem.slice_drop_take (by omega)
      obtain ⟨c, hc⟩ := List.length_eq_one_iff.mp (Mem.length_slice hin)
      have hagree := List.forall₂_take 1 (List.forall₂_drop i hlist)
      rw [hslice, hc, List.take_one, List.head?_drop] at hagree
      have hwritten : ∀ d ∈ t.mem.slice ((t.arrays y).ptr.add i) 1, d.isSome := hheld.written.add (by omega)
      refine .inr ⟨_, c, rfl, hwritten c (by rw [hc]; exact List.mem_singleton_self c), hagree, fun p m' hm => ?_⟩
      rw [Reference.load, Mem.load, if_pos ((hm.inside_iff hblock).mpr hin), hm.slice_eq hblock (.inl rfl), hc]
    · exact .inl rfl

theorem Wf.pushBack (ht : t.Wf) (room : Nat)
    (hsize : (t.arrays x).size = (t.arrays x).capacity → (t.arrays x).Fits ((t.arrays x).size * 2 + 5))
    (val : Pushed V) : t.run room (.pushBack x val) = .error .refused ∨
      ∃ h, t.run room (.pushBack x val) = .ok h ∧ (t.follow (.pushBack x val) h).Wf := by
  obtain ⟨hheld, hlist⟩ := ht x
  have hfits : (t.arrays x).size = (t.arrays x).capacity → (t.arrays x).size * 2 + 10 < 2 ^ 64 := fun hfull =>
    (hsize hfull).resolve_left (by omega)
  rw [SharedArrays.run]
  obtain href | ⟨r, c, href, hsome, hagree, hload⟩ := ht.reference val
  · exact .inl (by rw [href]; rfl)
  · rw [href, ok_bind]
    refine ht.call rfl ((pushBack_spec room hheld hfits hsome (hload _)).imp_right ?_)
    rintro ⟨m', a', hr, hgrown, hc⟩
    refine ⟨m', a', hr, hgrown, ?_⟩
    rw [hc, ArrayOp.onLists, Function.update_self]
    exact List.rel_append hlist hagree

theorem Wf.segment (ht : t.Wf) (room first last z : Nat) :
    t.run room (.segment x first last z) = .error .refused ∨
      ∃ h, t.run room (.segment x first last z) = .ok h ∧ (t.follow (.segment x first last z) h).Wf := by
  obtain ⟨hheld, hlist⟩ := ht x
  rw [SharedArrays.run]
  cases hs : (t.arrays x).segment first last with
  | error e =>
    rw [SharedArray.segment] at hs
    split_ifs at hs
    obtain rfl := Except.error.inj hs
    exact .inl rfl
  | ok a =>
    obtain ⟨ha, hc⟩ := segment_spec hheld hs
    refine .inr ⟨_, rfl, fun y => ?_⟩
    have hnone : ¬ t.Shares (.segment x first last z) y := by
      rintro ⟨x', hx', -⟩
      exact Option.not_mem_none x' hx'
    simp only [ListedArrays.follow, SharedArrays.contents, ArrayOp.onLists, if_neg hnone]
    by_cases hy : y = z
    · subst hy
      rw [Function.update_self, Function.update_self, hc]
      exact ⟨ha, List.forall₂_take _ (List.forall₂_drop _ hlist)⟩
    · rw [Function.update_of_ne hy, Function.update_of_ne hy]
      exact ht y

theorem Wf.append (ht : t.Wf) (room : Nat) {y : Nat} (happ : t.CanAppend x y) :
    t.run room (.append x y) = .error .refused ∨
      ∃ h, t.run room (.append x y) = .ok h ∧ (t.follow (.append x y) h).Wf := by
  obtain ⟨hheld, hlist⟩ := ht x
  refine (SharedArrays.append_spec hheld (ht y).1 happ).imp_right ?_
  rintro ⟨m', a', hr, hgrown, hc⟩
  refine ⟨_, hr, ht.follow rfl hgrown ?_⟩
  rw [hc, ArrayOp.onLists, Function.update_self]
  exact List.rel_append hlist (ht y).2

/-! ### Runs -/

/-- No operation asks for `2 ^ 64 - 5` elements or more, and `append` can read its argument. -/
def InBounds (t : ListedArrays V) (a : ArrayAction V) : Prop :=
  match a.op with
  | .resize x size _ | .reserve x size => (t.arrays x).Fits size
  | .pushBack x _ => (t.arrays x).size = (t.arrays x).capacity → (t.arrays x).Fits ((t.arrays x).size * 2 + 5)
  | .append x y => t.CanAppend x y
  | .popBack _ | .segment _ _ _ _ => True

instance (t : ListedArrays V) (a : ArrayAction V) : Decidable (t.InBounds a) := by
  unfold InBounds
  split <;> infer_instance

theorem Wf.run (ht : t.Wf) {a : ArrayAction V} (ha : t.InBounds a) : t.run a.room a.op = .error .refused ∨
    ∃ h, t.run a.room a.op = .ok h ∧ (t.follow a.op h).Wf := by
  obtain ⟨op, room⟩ := a
  cases op with
  | resize x size val => exact ht.resize room ha val
  | reserve x size => exact ht.reserve room ha
  | pushBack x val => exact ht.pushBack room ha val
  | popBack x => exact ht.popBack room
  | append x y => exact ht.append room ha
  | segment x first last z => exact ht.segment room first last z

theorem Wf.step (ht : t.Wf) {a : ArrayAction V} (ha : t.InBounds a) : ∃ t', t.step a = some t' ∧ t'.Wf := by
  rw [ListedArrays.step]
  obtain hrun | ⟨h, hrun, hwf⟩ := ht.run ha
  · rw [hrun]
    exact ⟨t, rfl, ht⟩
  · rw [hrun]
    exact ⟨_, rfl, hwf⟩

theorem wf_init {data : List (CArray V)} (hdata : ∀ c ∈ data, c.values.length < 2 ^ 64) : (init data).Wf := by
  intro i
  cases hi : data[i]? with
  | none =>
    simp only [init, SharedArrays.contents, hi, Option.elim_none]
    exact ⟨⟨Nat.le_refl _, by decide, Nat.succ_pos _, .inl rfl, fun c hc => absurd hc List.not_mem_nil⟩, .nil⟩
  | some c =>
    obtain ⟨hlt, -⟩ := List.getElem?_eq_some_iff.mp hi
    have hslice : (init data).mem.slice ⟨i + 1, 0⟩ c.values.length = c.values.map some := by
      simp only [init, Mem.slice, hi, Option.elim_some, List.drop_zero]
      exact List.take_of_length_le (Nat.le_of_eq (List.length_map some))
    have hinside : (init data).mem.Inside ⟨i + 1, 0⟩ c.values.length := by
      refine .inr ?_
      simp only [init, hi, Option.elim_some, List.length_map]
      omega
    have harray : (init data).arrays i = reset ⟨i + 1, 0⟩ c.values.length c.srcDeviceType c.srcDeviceId
        c.dstDeviceType c.dstDeviceId := by
      simp only [init, hi, Option.elim_some]
    have hlist : (init data).lists i = c.values := by
      simp only [init, hi, Option.elim_some]
    rw [SharedArrays.contents, harray, hlist]
    refine ⟨⟨Nat.le_refl _, hdata c (List.mem_of_getElem? hi), Nat.succ_lt_succ hlt, hinside, fun d hd => ?_⟩, ?_⟩
    · obtain ⟨v, -, rfl⟩ := List.mem_map.mp (hslice ▸ hd)
      rfl
    · rw [SharedArray.contents]
      show List.Forall₂ Agree ((init data).mem.slice ⟨i + 1, 0⟩ c.values.length) c.values
      rw [hslice]
      exact List.forall₂_map_left_iff.mpr (List.forall₂_same.mpr fun v _ => .inl rfl)

/-- No element is read or written outside the storage, and each array holds its list. -/
theorem contents_follow_lists {data : List (CArray V)} (hdata : ∀ c ∈ data, c.values.length < 2 ^ 64)
    {as : List (ArrayAction V)} (hok : Run.EveryStep step InBounds (init data) as) :
    ∃ t, Run.exec step (init data) as = some t ∧ ∀ x, (t.arrays x).size ≤ (t.arrays x).capacity ∧
      t.mem.Inside (t.arrays x).ptr (t.arrays x).capacity ∧ List.Forall₂ Agree (t.contents x) (t.lists x) ∧
      ((∀ v : V, v == 0 → v = 0) → t.contents x = (t.lists x).map some) := by
  obtain ⟨t, ht, hwf⟩ := hok.exists_exec Wf (fun t a ha ht => ht.step ha) (wf_init hdata)
  refine ⟨t, ht, fun x => ?_⟩
  obtain ⟨hheld, hlist⟩ := hwf x
  refine ⟨hheld.size_le, hheld.inside, hlist, fun hzero => ?_⟩
  rw [← List.map_id (t.contents x)]
  refine List.map_eq_map_of_forall₂ hlist fun c v hagree => ?_
  rcases hagree with rfl | ⟨rfl, hv⟩
  · rfl
  · rw [hzero v hv]
    rfl

def sampleData : List (CArray Int) := [{ values := [1, 2, 3] }, { values := [4, 5] }]

/-- An array grows by another one, by a copy of its first element and by zeros; a segment of it moves away. -/
def sampleOps : List (ArrayAction Int) :=
  [⟨.append 0 1, 100⟩, ⟨.pushBack 0 (.element 0 0), 100⟩, ⟨.segment 0 1 4 2, 100⟩, ⟨.reserve 2 8, 100⟩,
    ⟨.append 0 2, 100⟩, ⟨.popBack 0, 100⟩, ⟨.resize 1 9 0, 100⟩, ⟨.pushBack 1 (.value 7), 5⟩]

theorem contents_follow_lists_sample :
    ∃ t, Run.exec step (init sampleData) sampleOps = some t ∧
      ∀ x, (t.arrays x).size ≤ (t.arrays x).capacity ∧
        t.mem.Inside (t.arrays x).ptr (t.arrays x).capacity ∧ List.Forall₂ Agree (t.contents x) (t.lists x) ∧
        ((∀ v : Int, v == 0 → v = 0) → t.contents x = (t.lists x).map some) :=
  contents_follow_lists (by decide) (by decide +kernel)

/-- The `resize` of six elements to twelve leaves seventeen cells, and twelve are copied behind the first six. -/
theorem append_self_writes_outside :
    (init [{ values := [1, 2, 3, 4, 5, (6 : Int)] }]).run 100 (.append 0 0) = .error .outside := rfl

end ListedArrays

end StepMesh
