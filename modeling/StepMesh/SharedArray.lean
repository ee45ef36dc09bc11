import StepMesh.Lib.Blocks
import StepMesh.Message

/-!
# The operations of `SArray<V>`

Each method on the memory and on the array that it is called on. The storage of an array is its pointer and its
capacity. Sizes are counted in elements. `room` is what `new` still gives: a block of more elements is refused.
-/

namespace StepMesh

open Blocks

structure SharedArray where
  size : Nat := 0
  capacity : Nat := 0
  ptr : Ptr := {}
  srcDeviceType : DeviceType := .cpu
  srcDeviceId : Int := 0
  dstDeviceType : DeviceType := .cpu
  dstDeviceId : Int := 0
deriving DecidableEq, Repr

namespace SharedArray

variable {V : Type*}

/-- The deleter is dropped, so the storage before stays as it is. -/
def reset (data : Ptr) (size : Nat) (srcDeviceType : DeviceType := .cpu) (srcDeviceId : Int := 0)
    (dstDeviceType : DeviceType := .cpu) (dstDeviceId : Int := 0) : SharedArray :=
  { size := size, capacity := size, ptr := data, srcDeviceType := srcDeviceType, srcDeviceId := srcDeviceId,
    dstDeviceType := dstDeviceType, dstDeviceId := dstDeviceId }

section
variable [BEq V] [Zero V]

def resize (room : Nat) (m : Mem V) (a : SharedArray) (size : Nat) (val : V) :
    Except Fault (Mem V × SharedArray) := do
  let curN := a.size
  let (m, a) ← (
    if size ≤ a.capacity then return (m, { a with size := size })
    else do
      let (newData, m) ← m.alloc room ((size + 5) % 2 ^ 64)
      let m ← m.copy newData a.ptr a.size
      return (m, reset newData size) : Except Fault (Mem V × SharedArray))
  if size ≤ curN then return (m, a)
  let p := a.ptr.add curN
  if val == 0 then
    let m ← m.store p (List.replicate (size - curN) (some 0))
    return (m, a)
  else
    let m ← m.fill p val (size - curN)
    return (m, a)

def reserve (room : Nat) (m : Mem V) (a : SharedArray) (size : Nat) : Except Fault (Mem V × SharedArray) := do
  if size ≤ a.capacity then return (m, a)
  let oldSize := a.size
  let (m, a) ← resize room m a size 0
  return (m, { a with size := oldSize })

end

/-- The `const V&` of `push_back`: a value, or an element where it lies. -/
inductive Reference (V : Type*)
  | value (v : V)
  | element (p : Ptr)

def Reference.load (m : Mem V) : Reference V → Except Fault (List (Option V))
  | .value v => .ok [some v]
  | .element p => m.load p 1

def pushBack [BEq V] [Zero V] (room : Nat) (m : Mem V) (a : SharedArray) (val : Reference V) :
    Except Fault (Mem V × SharedArray) := do
  let (m, a) ← (if a.size = a.capacity then reserve room m a ((a.size * 2 + 5) % 2 ^ 64) else return (m, a) :
    Except Fault (Mem V × SharedArray))
  let m ← m.store (a.ptr.add a.size) (← val.load m)
  return (m, { a with size := a.size + 1 })

def popBack (a : SharedArray) : SharedArray := if a.size = 0 then a else { a with size := a.size - 1 }

def segment (a : SharedArray) (first last : Nat) : Except Fault SharedArray :=
  if first ≤ last ∧ last ≤ a.size then
    .ok { a with ptr := a.ptr.add first, size := last - first, capacity := last - first }
  else .error .refused

def contents (m : Mem V) (a : SharedArray) : List (Option V) := m.slice a.ptr a.size

/-- There is room for `size` elements, or `new` can be asked for it. -/
def Fits (a : SharedArray) (size : Nat) : Prop := size ≤ a.capacity ∨ size + 5 < 2 ^ 64

instance (a : SharedArray) (size : Nat) : Decidable (a.Fits size) :=
  inferInstanceAs (Decidable (size ≤ a.capacity ∨ size + 5 < 2 ^ 64))

/-- The array has its storage, all of it written. -/
structure Held (m : Mem V) (a : SharedArray) : Prop where
  size_le : a.size ≤ a.capacity
  capacity_lt : a.capacity < 2 ^ 64
  block_lt : a.ptr.block < m.next
  inside : m.Inside a.ptr a.capacity
  written : m.Written a.ptr a.capacity

variable {m m' : Mem V} {a a' : SharedArray} {size : Nat}

namespace Held

theorem changed (h : Held m a) {p : Ptr} {n : Nat} (hm : ChangedIn p n m m') : Held m' a where
  size_le := h.size_le
  capacity_lt := h.capacity_lt
  block_lt := Nat.lt_of_lt_of_le h.block_lt hm.next_le
  inside := (hm.inside_iff h.block_lt).mpr h.inside
  written := hm.written h.block_lt h.written

theorem resized (h : Held m a) (hsize : size ≤ a.capacity) : Held m { a with size := size } :=
  { h with size_le := hsize }

theorem length_contents (h : Held m a) : (contents m a).length = a.size :=
  Mem.length_slice (h.inside.mono h.size_le)

theorem contents_written (h : Held m a) : ∀ c ∈ contents m a, c.isSome :=
  h.written.mono h.size_le

theorem contents_eq (h : Held m a) {p : Ptr} {n : Nat} (hm : ChangedIn p n m m')
    (hapart : Apart p n a.ptr a.size) : contents m' a = contents m a :=
  hm.slice_eq h.block_lt hapart

end Held

/-- The storage of `a'` is new or that of `a`, and nothing else has changed. -/
structure Grown (m : Mem V) (a : SharedArray) (m' : Mem V) (a' : SharedArray) : Prop where
  held : Held m' a'
  changed : ChangedIn a.ptr a.capacity m m'
  own : m.next ≤ a'.ptr.block ∨ a'.ptr = a.ptr ∧ a'.capacity = a.capacity

namespace Grown

theorem refl (h : Held m a) : Grown m a m a := ⟨h, .refl, .inr ⟨rfl, rfl⟩⟩

theorem resized (h : Grown m a m' a') (hsize : size ≤ a'.capacity) : Grown m a m' { a' with size := size } :=
  { h with held := h.held.resized hsize }

theorem write (h : Grown m a m' a') {i : Nat} {xs : List (Option V)} (hxs : ∀ c ∈ xs, c.isSome)
    (hi : i + xs.length ≤ a'.capacity) : Grown m a (m'.write (a'.ptr.add i) xs) a' := by
  have hin := h.held.inside.add hi
  have hown : ChangedIn a'.ptr a'.capacity m' (m'.write (a'.ptr.add i) xs) :=
    ChangedIn.refl.write hin hxs (.inr ⟨rfl, Nat.le_add_right _ _, by simp only [Ptr.add]; omega⟩)
  refine ⟨h.held.changed hown, h.changed.write hin hxs ?_, h.own⟩
  rcases h.own with hnew | ⟨hptr, hcap⟩
  · exact .inl hnew
  · rw [hptr]
    exact .inr ⟨rfl, Nat.le_add_right _ _, by simp only [Ptr.add]; omega⟩

theorem fresh {n : Nat} {xs : List (Option V)} (hxs : ∀ c ∈ xs, c.isSome) (hn : xs.length ≤ n)
    (hlt : xs.length < 2 ^ 64) :
    Grown m a ((m.fresh n).write ⟨m.next, 0⟩ xs) (reset ⟨m.next, 0⟩ xs.length) where
  held := by
    have hin : (m.fresh n).Inside ⟨m.next, 0⟩ xs.length := Mem.inside_fresh hn
    refine ⟨Nat.le_refl _, hlt, Nat.lt_succ_self _, (Mem.inside_write hin).mpr hin, fun c hc => ?_⟩
    rw [reset, Mem.slice_write_self hin] at hc
    exact hxs c hc
  changed := (ChangedIn.fresh n).write (Mem.inside_fresh hn) hxs (.inl (Nat.le_refl _))
  own := .inl (Nat.le_refl _)

end Grown

theorem popBack_spec (h : Held m a) : Grown m a m a.popBack ∧ contents m a.popBack = (contents m a).dropLast := by
  have hle := h.size_le
  rw [popBack]
  split_ifs with hzero
  · have hnil : contents m a = [] := List.length_eq_zero_iff.mp (h.length_contents.trans hzero)
    exact ⟨.refl h, by rw [hnil, List.dropLast_nil]⟩
  · refine ⟨(Grown.refl h).resized (by omega), ?_⟩
    rw [List.dropLast_eq_take, h.length_contents]
    exact (Mem.slice_take (Nat.sub_le _ _)).symm

theorem segment_spec (h : Held m a) {first last : Nat} (hs : segment a first last = .ok a') :
    Held m a' ∧ contents m a' = ((contents m a).drop first).take (last - first) := by
  have hle := h.size_le
  have hlt := h.capacity_lt
  rw [segment] at hs
  split_ifs at hs with hin
  obtain rfl := Except.ok.inj hs
  have hsize : first + (last - first) ≤ a.size := by omega
  have hcap : first + (last - first) ≤ a.capacity := Nat.le_trans hsize hle
  exact ⟨⟨Nat.le_refl _, show last - first < 2 ^ 64 by omega, h.block_lt, h.inside.add hcap, h.written.add hcap⟩,
    (Mem.slice_drop_take hsize).symm⟩

/-! ### `resize`, `reserve` -/

section
variable [BEq V] [Zero V] {room : Nat} {val : V}

/-- What `resize` fills with: `memset` writes a zero for every value that is equal to it. -/
def fillValue (val : V) : V := if val == 0 then 0 else val

omit [BEq V] [Zero V] in
theorem isSome_of_mem_replicate {n : Nat} {v : V} : ∀ c ∈ List.replicate n (some v), c.isSome := fun c hc => by
  rw [(List.mem_replicate.mp hc).2]
  rfl

theorem fill_fillValue {p : Ptr} {n : Nat} (h : m.Inside p n) (a : SharedArray) :
    (if val == 0 then do
      let m ← m.store p (List.replicate n (some 0))
      return (m, a)
    else do
      let m ← m.fill p val n
      return (m, a)) =
      (.ok (m.write p (List.replicate n (some (fillValue val))), a) : Except Fault (Mem V × SharedArray)) := by
  rw [fillValue]
  split_ifs
  · rw [Mem.store_of_inside (by rwa [List.length_replicate])]
    rfl
  · rw [Mem.fill_eq val h]
    rfl

theorem resize_of_le (h : Held m a) (hsize : size ≤ a.capacity) : resize room m a size val =
    .ok (m.write (a.ptr.add a.size) (List.replicate (size - a.size) (some (fillValue val))),
      { a with size := size }) := by
  rw [resize, if_pos hsize]
  by_cases hcur : size ≤ a.size
  · simp only [pure_bind, if_pos hcur]
    rw [Nat.sub_eq_zero_of_le hcur, List.replicate_zero, Mem.write_nil]
    rfl
  · simp only [pure_bind, if_neg hcur]
    exact fill_fillValue (h.inside.add (by omega)) _

theorem resize_of_lt (h : Held m a) (hsize : a.capacity < size) (hlt : size + 5 < 2 ^ 64) :
    resize room m a size val = if size + 5 ≤ room then
      .ok ((m.fresh (size + 5)).write ⟨m.next, 0⟩
        (contents m a ++ List.replicate (size - a.size) (some (fillValue val))), reset ⟨m.next, 0⟩ size)
    else .error .refused := by
  have hcur := h.size_le
  have hfresh : ChangedIn a.ptr 0 m (m.fresh (size + 5)) := .fresh _
  have hin : (m.fresh (size + 5)).Inside ⟨m.next, 0⟩ size := Mem.inside_fresh (by omega)
  have hcontents : (m.fresh (size + 5)).slice a.ptr a.size = contents m a :=
    hfresh.slice_eq h.block_lt (.inl rfl)
  have hlen := h.length_contents
  have hcopy : (m.fresh (size + 5)).copy ⟨m.next, 0⟩ a.ptr a.size =
      .ok ((m.fresh (size + 5)).write ⟨m.next, 0⟩ (contents m a)) := by
    rw [Mem.copy_of_inside (hin.mono (by omega)) ((hfresh.inside_iff h.block_lt).mpr (h.inside.mono h.size_le))
      (.inr (.inr (.inl (Nat.ne_of_gt h.block_lt)))), hcontents]
  have hcopied : (m.fresh (size + 5)).Inside ⟨m.next, 0⟩ (contents m a).length := hin.mono (by omega)
  rw [resize, if_neg (by omega), Nat.mod_eq_of_lt hlt, Mem.alloc]
  by_cases hroom : size + 5 ≤ room
  · simp only [if_pos hroom, ok_bind, hcopy, pure_bind, if_neg (show ¬ size ≤ a.size by omega)]
    rw [reset, fill_fillValue ((Mem.inside_write hcopied).mpr (hin.add (by omega))), ← hlen, Mem.write_write]
    exact hin.mono (by rw [List.length_append, List.length_replicate]; omega)
  · simp only [if_neg hroom]
    rfl

omit [BEq V] [Zero V] in
theorem contents_resized {xs : List (Option V)} (h : Held m a) (hxs : xs.length = size - a.size)
    (hsize : size ≤ a.capacity) :
    contents (m.write (a.ptr.add a.size) xs) { a with size := size } = (contents m a).take size ++ xs := by
  have hle := h.size_le
  by_cases hcur : size ≤ a.size
  · obtain rfl : xs = [] := List.length_eq_zero_iff.mp (by omega)
    rw [Mem.write_nil, List.append_nil]
    exact (Mem.slice_take hcur).symm
  · have hsum : a.size + xs.length = size := by omega
    rw [List.take_of_length_le (by rw [h.length_contents]; omega)]
    show Mem.slice _ a.ptr size = _
    rw [← hsum, Mem.slice_write_add (h.inside.add (by omega))]
    rfl

/-- In its storage `resize` writes behind the elements only, and beyond its capacity it leaves what there is. -/
theorem resize_spec (room : Nat) (h : Held m a) (hsize : a.Fits size) (val : V) :
    resize room m a size val = .error .refused ∨ ∃ m' a', resize room m a size val = .ok (m', a') ∧
      Grown m a m' a' ∧ a'.size = size ∧
      contents m' a' = (contents m a).take size ++ List.replicate (size - a.size) (some (fillValue val)) ∧
      ChangedIn (a.ptr.add a.size) (if size ≤ a.capacity then size - a.size else 0) m m' := by
  have hlen := h.length_contents
  have hle := h.size_le
  have hsome : ∀ c ∈ List.replicate (size - a.size) (some (fillValue val)), c.isSome := isSome_of_mem_replicate
  have hxs : (List.replicate (size - a.size) (some (fillValue val))).length = size - a.size := List.length_replicate
  by_cases hcap : size ≤ a.capacity
  · rw [resize_of_le h hcap, if_pos hcap]
    generalize List.replicate (size - a.size) (some (fillValue val)) = xs at *
    refine .inr ⟨_, _, rfl, ((Grown.refl h).write hsome (by omega)).resized hcap, rfl, contents_resized h hxs hcap, ?_⟩
    rw [← hxs]
    exact ChangedIn.refl.write (h.inside.add (by omega)) hsome (.inr ⟨rfl, Nat.le_refl _, Nat.le_refl _⟩)
  · have hlt : size + 5 < 2 ^ 64 := hsize.resolve_left hcap
    rw [resize_of_lt h (by omega) hlt, List.take_of_length_le (by omega)]
    generalize List.replicate (size - a.size) (some (fillValue val)) = xs at *
    have hall : ∀ c ∈ contents m a ++ xs, c.isSome := fun c hc =>
      (List.mem_append.mp hc).elim (h.contents_written c) (hsome c)
    obtain rfl : size = (contents m a ++ xs).length := by
      rw [List.length_append]
      omega
    split_ifs
    · have hin : (m.fresh _).Inside ⟨m.next, 0⟩ (contents m a ++ xs).length := Mem.inside_fresh (Nat.le_add_right _ 5)
      exact .inr ⟨_, _, rfl, Grown.fresh hall (Nat.le_add_right _ 5) (by omega), rfl, Mem.slice_write_self hin,
        (ChangedIn.fresh _).write hin hall (.inl (Nat.le_refl _))⟩
    · exact .inl rfl

omit [BEq V] [Zero V] in
/-- After a `resize` to no fewer elements the array begins with those it had. -/
theorem slice_of_resized {xs : List (Option V)} (h : Held m a) (hle : a.size ≤ size) (hs : a'.size = size)
    (hc : contents m' a' = (contents m a).take size ++ xs) : m'.slice a'.ptr a.size = contents m a := by
  have hlen := h.length_contents
  calc m'.slice a'.ptr a.size
    _ = (contents m' a').take a.size := (Mem.slice_take (by omega)).symm
    _ = (contents m a ++ xs).take a.size := by rw [hc, List.take_of_length_le (i := size) (by omega)]
    _ = contents m a := by rw [← hlen, List.take_left]

theorem reserve_spec (room : Nat) (h : Held m a) (hsize : a.Fits size) :
    reserve room m a size = .error .refused ∨ ∃ m' a', reserve room m a size = .ok (m', a') ∧
      Grown m a m' a' ∧ a'.size = a.size ∧ size ≤ a'.capacity ∧ contents m' a' = contents m a ∧
      ChangedIn (a.ptr.add a.size) 0 m m' := by
  have hle := h.size_le
  rw [reserve]
  split_ifs with hcap
  · exact .inr ⟨m, a, rfl, .refl h, rfl, hcap, rfl, .refl⟩
  · obtain hr | ⟨m', a', hr, hgrown, hs, hc, hm⟩ := resize_spec room h hsize 0
    · exact .inl (by rw [hr]; rfl)
    · have hcap' : size ≤ a'.capacity := hs ▸ hgrown.held.size_le
      rw [if_neg hcap] at hm
      have hslice := slice_of_resized h (by omega) hs hc
      exact .inr ⟨m', { a' with size := a.size }, by rw [hr]; rfl, hgrown.resized (by omega), rfl, hcap', hslice, hm⟩

theorem reserve_one (room : Nat) (h : Held m a) (hsize : a.size = a.capacity → a.size * 2 + 10 < 2 ^ 64) :
    (if a.size = a.capacity then reserve room m a ((a.size * 2 + 5) % 2 ^ 64) else pure (m, a)) = .error .refused ∨
      ∃ m' a', (if a.size = a.capacity then reserve room m a ((a.size * 2 + 5) % 2 ^ 64) else pure (m, a)) =
        .ok (m', a') ∧ Grown m a m' a' ∧ a'.size = a.size ∧ a.size < a'.capacity ∧ contents m' a' = contents m a ∧
        ChangedIn (a.ptr.add a.size) 0 m m' := by
  have hle := h.size_le
  split_ifs with hfull
  · have hlt := hsize hfull
    rw [Nat.mod_eq_of_lt (by omega)]
    refine (reserve_spec room h (.inr (by omega))).imp_right ?_
    rintro ⟨m', a', hr, hgrown, hs, hcap, hc, hm⟩
    exact ⟨m', a', hr, hgrown, hs, by omega, hc, hm⟩
  · exact .inr ⟨m, a, rfl, .refl h, rfl, by omega, rfl, .refl⟩

/-- The element may lie anywhere, also in the array. -/
theorem pushBack_spec (room : Nat) (h : Held m a) (hsize : a.size = a.capacity → a.size * 2 + 10 < 2 ^ 64)
    {val : Reference V} {c : Option V} (hsome : c.isSome)
    (hval : ∀ m', ChangedIn (a.ptr.add a.size) 0 m m' → val.load m' = .ok [c]) :
    pushBack room m a val = .error .refused ∨ ∃ m' a', pushBack room m a val = .ok (m', a') ∧
      Grown m a m' a' ∧ contents m' a' = contents m a ++ [c] := by
  obtain hr | ⟨m', a', hr, hgrown, hs, hcap, hc, hm⟩ := reserve_one room h hsize
  · exact .inl (by rw [pushBack, hr]; rfl)
  · have hin : m'.Inside (a'.ptr.add a'.size) [c].length := hgrown.held.inside.add (by simp; omega)
    have hall : ∀ d ∈ [c], d.isSome := by simpa using hsome
    refine .inr ⟨m'.write (a'.ptr.add a'.size) [c], { a' with size := a'.size + 1 }, ?_, ?_, ?_⟩
    · rw [pushBack, hr, ok_bind]
      show (do
        let xs ← val.load m'
        let m' ← m'.store (a'.ptr.add a'.size) xs
        return (m', { a' with size := a'.size + 1 }) : Except Fault (Mem V × SharedArray)) = _
      rw [hval m' hm, ok_bind, Mem.store_of_inside hin]
      rfl
    · exact (hgrown.write hall (by simp; omega)).resized (by omega)
    · rw [← hc]
      exact Mem.slice_write_add hin

end

end SharedArray

end StepMesh
