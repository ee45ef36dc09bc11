import Mathlib.Data.Nat.Bitwise
import Mathlib.Logic.Function.Basic
import StepMesh.Lib.Run

/-!
# The hash map (`emhash8::HashMap`, `include/ps/hash_table8.hpp`)

The pairs lie in one array without gaps, in the order of insertion until one is erased. `_index` has an entry for
each bucket: the bucket after it among those with the same main bucket (the last has itself), and the place of
its pair, in the low bits of `slot` below the high bits of the hash. A read or write outside an array, a read of a
pair that is not constructed and a loop that does not end are `none`.

The types are those of a map whose pairs are not trivially destructible, and the macros have their defaults.
-/

namespace StepMesh.Emhash8

/-- `INACTIVE`, of type `uint32_t`. -/
def INACTIVE : Nat := 2 ^ 32 - 1

/-- Entries of `_index` after the last bucket. They are never empty. -/
def EAD : Nat := 2

structure Index where
  next : Nat
  slot : Nat
deriving DecidableEq, Repr

/-- `EMH_EMPTY`: `next` is negative as an `int`. -/
def Index.isEmpty (i : Index) : Bool := decide (2 ^ 31 ≤ i.next)

/-- `(size_type)(key_hash) & ~_mask`. -/
def highBits (mask keyHash : Nat) : Nat := keyHash % 2 ^ 32 &&& (2 ^ 32 - 1 - mask)

structure HashMap (K V : Type) where
  /-- `_index`, of `numBuckets + EAD` entries. -/
  index : Nat → Index
  /-- The pairs that are constructed; there are `_num_filled`. -/
  pairs : List (K × V)
  /-- What `_pairs` has room for. -/
  capacity : Nat
  mask : Nat
  numBuckets : Nat
  last : Nat
  etail : Nat

namespace HashMap

variable {K V : Type}

def numFilled (t : HashMap K V) : Nat := t.pairs.length

def indexAt (t : HashMap K V) (bucket : Nat) : Option Index :=
  if bucket < t.numBuckets + EAD then some (t.index bucket) else none

def setIndex (t : HashMap K V) (bucket : Nat) (i : Index) : Option (HashMap K V) :=
  if bucket < t.numBuckets + EAD then some { t with index := Function.update t.index bucket i } else none

/-- `_index[bucket].next = next`. -/
def setNext (t : HashMap K V) (bucket next : Nat) : Option (HashMap K V) := do
  let i ← t.indexAt bucket
  t.setIndex bucket { i with next }

def emptyAt (t : HashMap K V) (bucket : Nat) : Option Bool := do
  let i ← t.indexAt bucket
  return i.isEmpty

/-- `_index[bucket].slot & _mask`. -/
def slotAt (t : HashMap K V) (bucket : Nat) : Option Nat := do
  let i ← t.indexAt bucket
  return i.slot &&& t.mask

/-! ### Looking for an empty bucket -/

/-- The quadratic probe of `find_empty_bucket`, with the number of rounds left: `step` is 3, 4 and 5. -/
def quadraticProbe (t : HashMap K V) (bucketFrom : Nat) : (left : Nat) → (offset : Nat) → Option (Option Nat)
  | 0, _ => some none
  | left + 1, offset => do
    let bucket := (bucketFrom + offset) &&& t.mask
    if ← t.emptyAt bucket then return some bucket
    if ← t.emptyAt (bucket + 1) then return some (bucket + 1)
    t.quadraticProbe bucketFrom left (offset + (5 - left))

/-- The last loop of `find_empty_bucket`: the bucket it finds and `_last`. -/
def linearProbe (t : HashMap K V) : (fuel : Nat) → (last : Nat) → Option (Nat × Nat)
  | 0, _ => none
  | fuel + 1, last => do
    let last := (last &&& t.mask) + 1
    if ← t.emptyAt last then return (last, last)
    let medium := (t.numBuckets / 2 + last) &&& t.mask
    if ← t.emptyAt medium then return (medium, last)
    t.linearProbe fuel last

def findEmptyBucket (t : HashMap K V) (bucketFrom csize : Nat) : Option (Nat × HashMap K V) := do
  if ← t.emptyAt (bucketFrom + 1) then return (bucketFrom + 1, t)
  if ← t.emptyAt (bucketFrom + 2) then return (bucketFrom + 2, t)
  match ← t.quadraticProbe bucketFrom 3 (1 + csize) with
  | some bucket => return (bucket, t)
  | none =>
    let (bucket, last) ← t.linearProbe t.numBuckets t.last
    return (bucket, { t with last })

/-! ### Walking a chain

The source writes out the first round of each of these loops. -/

/-- Follows the links until `stop`. -/
def followUntil (t : HashMap K V) (stop : Nat → Index → Bool) : (fuel : Nat) → (bucket : Nat) → Option Nat
  | 0, _ => none
  | fuel + 1, bucket => do
    let i ← t.indexAt bucket
    if stop bucket i then return bucket else t.followUntil stop fuel i.next

def findLastBucket (t : HashMap K V) (mainBucket : Nat) : Option Nat :=
  t.followUntil (fun bucket i => i.next = bucket) t.numBuckets mainBucket

def findPrevBucket (t : HashMap K V) (mainBucket bucket : Nat) : Option Nat :=
  t.followUntil (fun _ i => i.next = bucket) t.numBuckets mainBucket

section keys
variable (hashKey : K → Nat)

/-- `hash_main`: the main bucket of the pair in a bucket. -/
def hashMain (t : HashMap K V) (bucket : Nat) : Option Nat := do
  let slot ← t.slotAt bucket
  let p ← t.pairs[slot]?
  return hashKey p.1 % 2 ^ 32 &&& t.mask

/-- `find_slot_bucket`: the bucket of the pair and its main bucket. -/
def findSlotBucket (t : HashMap K V) (slot : Nat) : Option (Nat × Nat) := do
  let p ← t.pairs[slot]?
  let mainBucket := hashKey p.1 &&& t.mask
  let bucket ← t.followUntil (fun _ i => slot = i.slot &&& t.mask) t.numBuckets mainBucket
  return (bucket, mainBucket)

end keys

/-- `kickout_bucket`. -/
def kickoutBucket (t : HashMap K V) (kmain bucket : Nat) : Option (Nat × HashMap K V) := do
  let i ← t.indexAt bucket
  let (newBucket, t) ← t.findEmptyBucket i.next 2
  let prevBucket ← t.findPrevBucket kmain bucket
  let last := if i.next = bucket then newBucket else i.next
  let t ← t.setIndex newBucket ⟨last, i.slot⟩
  let t ← t.setNext prevBucket newBucket
  let t ← t.setNext bucket INACTIVE
  return (bucket, t)

section
variable (hashKey : K → Nat)

/-- `find_unique_bucket`: a bucket for a key that is not in the map. -/
def findUniqueBucket (t : HashMap K V) (keyHash : Nat) : Option (Nat × HashMap K V) := do
  let bucket := keyHash &&& t.mask
  let i ← t.indexAt bucket
  if i.isEmpty then return (bucket, t)
  let kmain ← t.hashMain hashKey bucket
  if kmain ≠ bucket then t.kickoutBucket kmain bucket
  else
    let nextBucket ← (if i.next ≠ bucket then t.findLastBucket i.next else some i.next)
    let (newBucket, t) ← t.findEmptyBucket nextBucket 2
    let t ← t.setNext nextBucket newBucket
    return (newBucket, t)

variable [DecidableEq K]

/-- `EMH_EQHASH(bucket, key_hash)` and the key of the bucket's pair is `key`. -/
def holdsKey (t : HashMap K V) (key : K) (keyHash bucket : Nat) : Option Bool := do
  let i ← t.indexAt bucket
  if highBits t.mask keyHash = i.slot &&& (2 ^ 32 - 1 - t.mask) then
    let p ← t.pairs[i.slot &&& t.mask]?
    return p.1 = key
  else return false

/-- The loop of `find_filled_bucket`, `find_filled_slot` and `find_or_allocate`: the bucket of the key, or the last
one with the number of buckets that the loop has come through. -/
def keyLoop (t : HashMap K V) (key : K) (keyHash : Nat) :
    (fuel : Nat) → (csize : Nat) → (bucket : Nat) → Option (Nat ⊕ Nat × Nat)
  | 0, _, _ => none
  | fuel + 1, csize, bucket => do
    if ← t.holdsKey key keyHash bucket then return .inl bucket
    let i ← t.indexAt bucket
    if i.next = bucket then return .inr (bucket, csize + 1)
    else t.keyLoop key keyHash fuel (csize + 1) i.next

/-- `find_filled_bucket`; `INACTIVE` is `none`. -/
def findFilledBucket (t : HashMap K V) (key : K) (keyHash : Nat) : Option (Option Nat) := do
  let bucket := keyHash &&& t.mask
  if ← t.emptyAt bucket then return none
  match ← t.keyLoop key keyHash t.numBuckets 0 bucket with
  | .inl bucket => return some bucket
  | .inr _ => return none

/-- `find_filled_slot`: `_num_filled` if the key is not there. -/
def findFilledSlot (t : HashMap K V) (key : K) : Option Nat := do
  match ← t.findFilledBucket key (hashKey key) with
  | some bucket => t.slotAt bucket
  | none => return t.numFilled

/-- `find_or_allocate`: the bucket of the key, or an empty one for it. -/
def findOrAllocate (t : HashMap K V) (key : K) (keyHash : Nat) : Option (Nat × HashMap K V) := do
  let bucket := keyHash &&& t.mask
  let i ← t.indexAt bucket
  if i.isEmpty then return (bucket, t)
  if ← t.holdsKey key keyHash bucket then return (bucket, t)
  let kmain ← t.hashMain hashKey bucket
  if kmain ≠ bucket then t.kickoutBucket kmain bucket
  else if i.next = bucket then
    let (newBucket, t) ← t.findEmptyBucket i.next 1
    let t ← t.setNext i.next newBucket
    return (newBucket, t)
  else
    match ← t.keyLoop key keyHash t.numBuckets 1 i.next with
    | .inl bucket => return (bucket, t)
    | .inr (nextBucket, csize) =>
      let (newBucket, t) ← t.findEmptyBucket nextBucket csize
      let t ← t.setNext nextBucket newBucket
      return (newBucket, t)

end

/-! ### The size of the arrays -/

section
variable (hashKey : K → Nat)

/-- `EMH_NEW`. -/
def emhNew (t : HashMap K V) (key : K) (val : V) (bucket keyHash : Nat) : Option (HashMap K V) := do
  guard (t.numFilled < t.capacity)
  { t with pairs := t.pairs ++ [(key, val)], etail := bucket }.setIndex bucket
    ⟨bucket, t.numFilled ||| highBits t.mask keyHash⟩

/-- The loop of `rehash` that doubles `num_buckets`. -/
def double (required : Nat) : (fuel : Nat) → (numBuckets : Nat) → Option Nat
  | 0, _ => none
  | fuel + 1, numBuckets => if numBuckets < required then double required fuel (numBuckets * 2) else some numBuckets

/-- `rebuild`, which moves the pairs. `max_load_factor()` is the `float` next to 0.8. -/
def rebuild (t : HashMap K V) (numBuckets : Nat) : Option (HashMap K V) := do
  let capacity := 13421773 * numBuckets / 2 ^ 24 + 4
  guard (t.numFilled ≤ capacity)
  return { t with
    capacity
    index := fun bucket => if bucket < numBuckets then ⟨INACTIVE, INACTIVE⟩ else ⟨0, 0⟩ }

/-- A round of the last loop of `rehash`. -/
def rehashSlot (t : HashMap K V) (slot : Nat) : Option (HashMap K V) := do
  let p ← t.pairs[slot]?
  let (bucket, t) ← t.findUniqueBucket hashKey (hashKey p.1)
  t.setIndex bucket ⟨bucket, slot ||| highBits t.mask (hashKey p.1)⟩

def rehash (t : HashMap K V) (requiredBuckets : Nat) : Option (HashMap K V) := do
  if requiredBuckets < t.numFilled then return t
  guard (requiredBuckets < 2 ^ 31)
  let numBuckets ← double requiredBuckets 32 (if t.numFilled > 2 ^ 16 then 2 ^ 16 else 4)
  let t ← { t with last := 0, mask := numBuckets - 1, numBuckets }.rebuild numBuckets
  (List.range t.numFilled).foldlM (rehashSlot hashKey) { t with etail := INACTIVE }

/-- `reserve`; `_mlf` is 1.25 in units of 2⁻²⁷. -/
def reserve (t : HashMap K V) (numElems : Nat) : Option (HashMap K V) :=
  let requiredBuckets := (167772160 * numElems) >>> 27
  if requiredBuckets < t.mask then some t else t.rehash hashKey (requiredBuckets + 2)

def checkExpandNeed (t : HashMap K V) : Option (HashMap K V) := t.reserve hashKey t.numFilled

/-- The constructor `HashMap(bucket)`. -/
def init (bucket : Nat) : Option (HashMap K V) :=
  rehash hashKey
    { index := fun _ => ⟨0, 0⟩, pairs := [], capacity := 0, mask := 0, numBuckets := 0, last := 0,
      etail := INACTIVE } bucket

/-! ### Erasing -/

/-- `erase_bucket`: takes a bucket out of its chain. The one that becomes empty may be the next one, whose pair
then moves to the main bucket. -/
def eraseBucket (t : HashMap K V) (bucket mainBucket : Nat) : Option (Nat × HashMap K V) := do
  let i ← t.indexAt bucket
  if bucket = mainBucket then
    if mainBucket ≠ i.next then
      let n ← t.indexAt i.next
      let t ← t.setIndex mainBucket ⟨if n.next = i.next then mainBucket else n.next, n.slot⟩
      return (i.next, t)
    else return (i.next, t)
  else
    let prevBucket ← t.findPrevBucket mainBucket bucket
    let t ← t.setNext prevBucket (if bucket = i.next then prevBucket else i.next)
    return (bucket, t)

/-- The part of `erase_slot` that puts the last pair into the place of the erased one. -/
def moveLast (t : HashMap K V) (slot lastSlot ebucket : Nat) : Option (HashMap K V) := do
  let lastBucket ← (if t.etail = INACTIVE ∨ ebucket = t.etail then
      (t.findSlotBucket hashKey lastSlot).map Prod.fst
    else some t.etail)
  let p ← t.pairs[lastSlot]?
  let i ← t.indexAt lastBucket
  { t with pairs := t.pairs.set slot p }.setIndex lastBucket
    { i with slot := slot ||| (i.slot &&& (2 ^ 32 - 1 - t.mask)) }

/-- `erase_slot`. -/
def eraseSlot (t : HashMap K V) (sbucket mainBucket : Nat) : Option (HashMap K V) := do
  let slot ← t.slotAt sbucket
  let (ebucket, t) ← t.eraseBucket sbucket mainBucket
  let lastSlot := t.numFilled - 1
  let t ← (if slot ≠ lastSlot then t.moveLast hashKey slot lastSlot ebucket else some t)
  { t with pairs := t.pairs.take lastSlot, etail := INACTIVE }.setIndex ebucket ⟨INACTIVE, 0⟩

/-- `clear`. -/
def clear (t : HashMap K V) : HashMap K V :=
  { t with
    index := fun bucket => if bucket < t.numBuckets then ⟨INACTIVE, INACTIVE⟩ else t.index bucket
    pairs := []
    last := 0
    etail := INACTIVE }

/-! ### The calls -/

variable [DecidableEq K]

/-- `erase(key)`: whether it was there. -/
def erase (t : HashMap K V) (key : K) : Option (HashMap K V × Bool) := do
  let keyHash := hashKey key
  match ← t.findFilledBucket key keyHash with
  | none => return (t, false)
  | some sbucket =>
    let t ← t.eraseSlot hashKey sbucket (keyHash &&& t.mask)
    return (t, true)

/-- `try_get`. -/
def tryGet (t : HashMap K V) (key : K) : Option (Option V) := do
  let slot ← t.findFilledSlot hashKey key
  if slot ≠ t.numFilled then
    let p ← t.pairs[slot]?
    return some p.2
  else return none

/-- `try_set`. -/
def trySet (t : HashMap K V) (key : K) (val : V) : Option (HashMap K V × Bool) := do
  let slot ← t.findFilledSlot hashKey key
  if slot = t.numFilled then return (t, false)
  let p ← t.pairs[slot]?
  return ({ t with pairs := t.pairs.set slot (p.1, val) }, true)

/-- `contains`. -/
def contains (t : HashMap K V) (key : K) : Option Bool := do
  let slot ← t.findFilledSlot hashKey key
  return slot ≠ t.numFilled

/-- `insert_unique` and `emplace_unique`. -/
def insertUnique (t : HashMap K V) (key : K) (val : V) : Option (HashMap K V × Nat) := do
  let t ← t.checkExpandNeed hashKey
  let keyHash := hashKey key
  let (bucket, t) ← t.findUniqueBucket hashKey keyHash
  let t ← t.emhNew key val bucket keyHash
  return (t, bucket)

/-- `find_or_allocate` and `EMH_NEW` if the bucket is empty, as in `do_insert`, `do_assign`, `set_get` and
`operator[]`: the slot of the pair, and whether it is new. -/
def findOrNew (t : HashMap K V) (key : K) (val : V) : Option (HashMap K V × Nat × Bool) := do
  let t ← t.checkExpandNeed hashKey
  let keyHash := hashKey key
  let (bucket, t) ← t.findOrAllocate hashKey key keyHash
  let bempty ← t.emptyAt bucket
  let t ← (if bempty then t.emhNew key val bucket keyHash else some t)
  let slot ← t.slotAt bucket
  return (t, slot, bempty)

/-- `insert`, `emplace` and `try_emplace`: whether the pair is new. -/
def insert (t : HashMap K V) (key : K) (val : V) : Option (HashMap K V × Bool) := do
  let (t, _, bempty) ← t.findOrNew hashKey key val
  return (t, bempty)

/-- `insert_or_assign`. -/
def insertOrAssign (t : HashMap K V) (key : K) (val : V) : Option (HashMap K V × Bool) := do
  let (t, slot, bempty) ← t.findOrNew hashKey key val
  if bempty then return (t, true)
  let p ← t.pairs[slot]?
  return ({ t with pairs := t.pairs.set slot (p.1, val) }, false)

/-- `operator[]`, with the default value: the value that its reference is to. -/
def subscript (t : HashMap K V) (key : K) (default : V) : Option (HashMap K V × V) := do
  let (t, slot, _) ← t.findOrNew hashKey key default
  let p ← t.pairs[slot]?
  return (t, p.2)

end

end HashMap

end StepMesh.Emhash8
