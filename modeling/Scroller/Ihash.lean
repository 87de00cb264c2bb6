import Scroller.Basic
import Mathlib.Data.UInt

/-!
# The index-based hash table

`lib/core/src/ihash.c`. Entries are bucket slots or nodes of a shared chain pool; the links and the
freelist are indices into the pool. The `-1` that ends a chain is `none` here; the `-1` that marks an
empty slot stays a key, since a caller can pass it. Offsets and sizes in bytes are left out: a node is
a record of its key, the user's data and its link.
-/

namespace Scroller

/-- `IHASH_UNDEF` as a key. -/
def ihashUndef : Int64 := -1

/-- `ihash_hash_fn`. -/
abbrev HashFn := UInt64 → UInt64

def ihashDefaultHashFn : HashFn := fun key => key

structure Ihash.Node (V : Type) where
  key : Int64
  data : V
  next : Option Nat

/-- A pointer to an entry: a bucket slot or a node of the chain pool. -/
inductive Slot where
  | bucket (idx : Nat)
  | chain (idx : Nat)
deriving DecidableEq, Repr

structure Ihash (V : Type) where
  bucketsz : Nat
  chainsz : Nat
  chainHead : Option Nat
  hashFn : HashFn
  buckets : Nat → Ihash.Node V
  chains : Nat → Ihash.Node V

namespace Ihash

variable {V : Type}

def node (hash : Ihash V) : Slot → Node V
  | .bucket idx => hash.buckets idx
  | .chain idx => hash.chains idx

/-- Reading an entry through its pointer; the pointer has to stay inside the table. -/
def load (hash : Ihash V) : Slot → Except Fault (Node V)
  | .bucket idx => if idx < hash.bucketsz then .ok (hash.buckets idx) else .error .outOfBounds
  | .chain idx => if idx < hash.chainsz then .ok (hash.chains idx) else .error .outOfBounds

def modify (hash : Ihash V) (e : Slot) (f : Node V → Node V) : Ihash V :=
  match e with
  | .bucket idx => { hash with buckets := Function.update hash.buckets idx (f (hash.buckets idx)) }
  | .chain idx => { hash with chains := Function.update hash.chains idx (f (hash.chains idx)) }

/-- The slots that lie inside the table. -/
def InBounds (hash : Ihash V) : Slot → Prop
  | .bucket idx => idx < hash.bucketsz
  | .chain idx => idx < hash.chainsz

theorem load_eq {hash : Ihash V} {e : Slot} (h : hash.InBounds e) :
    hash.load e = .ok (hash.node e) := by
  cases e <;> simp_all [InBounds, load, node]

section Modify

variable (hash : Ihash V) (e : Slot) (f : Node V → Node V)

@[simp]
theorem bucketsz_modify : (hash.modify e f).bucketsz = hash.bucketsz := by
  cases e <;> rfl

@[simp]
theorem chainsz_modify : (hash.modify e f).chainsz = hash.chainsz := by
  cases e <;> rfl

@[simp]
theorem chainHead_modify : (hash.modify e f).chainHead = hash.chainHead := by
  cases e <;> rfl

@[simp]
theorem hashFn_modify : (hash.modify e f).hashFn = hash.hashFn := by
  cases e <;> rfl

theorem node_modify (e' : Slot) :
    (hash.modify e f).node e' = if e' = e then f (hash.node e) else hash.node e' := by
  cases e <;> cases e' <;> simp [modify, node, Function.update_apply]

@[simp]
theorem node_modify_self : (hash.modify e f).node e = f (hash.node e) := by
  simp [node_modify]

theorem node_modify_of_ne {e' : Slot} (h : e' ≠ e) :
    (hash.modify e f).node e' = hash.node e' := by
  simp [node_modify, h]

end Modify

def setKey (hash : Ihash V) (e : Slot) (key : Int64) : Ihash V :=
  hash.modify e fun n => { n with key := key }

def setNext (hash : Ihash V) (e : Slot) (next : Option Nat) : Ihash V :=
  hash.modify e fun n => { n with next := next }

/-- The caller's `e->value = value`. -/
def setData (hash : Ihash V) (e : Slot) (data : V) : Ihash V :=
  hash.modify e fun n => { n with data := data }

/-- `hash->hash_fn(key) % hash->bucketsz`. -/
def idx (hash : Ihash V) (key : Int64) : Nat :=
  (hash.hashFn key.toUInt64).toNat % hash.bucketsz

@[simp]
theorem idx_modify (hash : Ihash V) (e : Slot) (f : Node V → Node V) (key : Int64) :
    (hash.modify e f).idx key = hash.idx key := by
  simp [idx]

/-- `ihash_clear`. The user's data stays in memory as it was. -/
def clear (hash : Ihash V) (hashFn : Option HashFn) : Ihash V :=
  { hash with
    hashFn := hashFn.getD ihashDefaultHashFn
    buckets := fun i => { hash.buckets i with key := ihashUndef, next := none }
    chains := fun i =>
      { hash.chains i with
        key := ihashUndef
        next := if i + 1 = hash.chainsz then none else some (i + 1) }
    chainHead := if hash.chainsz = 0 then none else some 0 }

/-- `ihash_init_fn` over memory that holds the given slots. -/
def initFn (buckets chains : Nat → Node V) (bucketsz chainsz : Nat) (hashFn : Option HashFn) :
    Option (Ihash V) :=
  if bucketsz = 0 then none
  else some (clear { bucketsz, chainsz, chainHead := none, hashFn := ihashDefaultHashFn,
                     buckets, chains } hashFn)

/-- The loop of `ihash_get_fn`; `fuel` bounds the entries it looks at. -/
def getLoop (hash : Ihash V) (key : Int64) : Nat → Slot → Except Fault (Option Slot)
  | 0, _ => .error .diverges
  | fuel + 1, e => do
      let n ← hash.load e
      if key = n.key then
        return some e
      match n.next with
      | none => return none
      | some next => getLoop hash key fuel (.chain next)

/-- `ihash_get_fn`. -/
def getFn (hash : Ihash V) (key : Int64) : Except Fault (Option Slot) := do
  let e := Slot.bucket (hash.idx key)
  let n ← hash.load e
  if n.key = ihashUndef then
    return none
  hash.getLoop key (hash.chainsz + 1) e

/-- The end of a chain in `ihash_touch_fn`: takes a node from the freelist and links it behind `e`. -/
def appendNode (hash : Ihash V) (key : Int64) (e : Slot) : Except Fault (Ihash V × Option Slot) :=
  match hash.chainHead with
  | none => return (hash, none)
  | some new => do
      let hash := hash.setNext e (some new)
      let newNode ← hash.load (.chain new)
      let hash := { hash with chainHead := newNode.next }
      let hash := hash.setKey (.chain new) key
      let hash := hash.setNext (.chain new) none
      return (hash, some (.chain new))

/-- The loop of `ihash_touch_fn`. -/
def touchLoop (hash : Ihash V) (key : Int64) :
    Nat → Slot → Except Fault (Ihash V × Option Slot)
  | 0, _ => .error .diverges
  | fuel + 1, e => do
      let n ← hash.load e
      if key = n.key then
        return (hash, some e)
      match n.next with
      | none => hash.appendNode key e
      | some next => touchLoop hash key fuel (.chain next)

/-- `ihash_touch_fn`. -/
def touchFn (hash : Ihash V) (key : Int64) : Except Fault (Ihash V × Option Slot) := do
  let e := Slot.bucket (hash.idx key)
  let n ← hash.load e
  if n.key = ihashUndef then
    return ((hash.setKey e key).setNext e none, some e)
  hash.touchLoop key (hash.chainsz + 1) e

/-- The macro `ihash_put`: touches the key and writes the value through the pointer. -/
def put (hash : Ihash V) (key : Int64) (value : V) : Except Fault (Ihash V × Option Slot) := do
  let (hash, e) ← hash.touchFn key
  match e with
  | none => return (hash, none)
  | some e => return (hash.setData e value, some e)

/-- Clears the node and pushes it on the freelist, as both ends of `ihash_erase_fn` do. -/
def freeNode (hash : Ihash V) (cur : Nat) : Ihash V :=
  let hash := hash.setKey (.chain cur) ihashUndef
  let hash := hash.setNext (.chain cur) hash.chainHead
  { hash with chainHead := some cur }

/-- The key is in the bucket slot: the first node of the chain, if any, moves into the bucket. -/
def eraseBucket (hash : Ihash V) (e : Slot) : Except Fault (Ihash V) := do
  let n ← hash.load e
  match n.next with
  | none => return (hash.setKey e ihashUndef).setNext e none
  | some next => do
      let first ← hash.load (.chain next)
      return (hash.modify e fun _ => first).freeNode next

/-- The loop of `ihash_erase_fn` over the chain behind `prev`. -/
def eraseLoop (hash : Ihash V) (key : Int64) :
    Nat → Slot → Option Nat → Except Fault (Ihash V × Bool)
  | _, _, none => return (hash, false)
  | 0, _, some _ => .error .diverges
  | fuel + 1, prev, some cur => do
      let n ← hash.load (.chain cur)
      if key = n.key then
        return ((hash.setNext prev n.next).freeNode cur, true)
      eraseLoop hash key fuel (.chain cur) n.next

/-- `ihash_erase_fn`. -/
def eraseFn (hash : Ihash V) (key : Int64) : Except Fault (Ihash V × Bool) := do
  let e := Slot.bucket (hash.idx key)
  let n ← hash.load e
  if n.key = ihashUndef then
    return (hash, false)
  if key = n.key then
    return (← hash.eraseBucket e, true)
  hash.eraseLoop key hash.chainsz e n.next

/-! ### Iteration -/

/-- `ihash_iterator`; `datum` is `NULL` behind the last entry. -/
structure Iterator where
  bucketIdx : Nat
  datum : Option Slot

/-- The loop of `ihash_next_occupied_bucket`; `fuel` is the number of buckets left. -/
def nextOccupiedLoop (hash : Ihash V) : Nat → Nat → Nat
  | 0, idx => idx
  | fuel + 1, idx =>
      if (hash.buckets idx).key ≠ ihashUndef then idx else nextOccupiedLoop hash fuel (idx + 1)

/-- `ihash_next_occupied_bucket`. -/
def nextOccupiedBucket (hash : Ihash V) (idx : Nat) : Nat :=
  hash.nextOccupiedLoop (hash.bucketsz - idx) idx

/-- The iterator at a bucket, or behind the last one. -/
def iteratorAt (hash : Ihash V) (idx : Nat) : Iterator :=
  { bucketIdx := idx, datum := if idx = hash.bucketsz then none else some (.bucket idx) }

/-- `ihash_begin`. -/
def begin (hash : Ihash V) : Iterator := hash.iteratorAt (hash.nextOccupiedBucket 0)

/-- `ihash_next`. -/
def next (hash : Ihash V) (i : Iterator) : Except Fault Iterator :=
  match i.datum with
  | none => .error .nullPointer
  | some e => do
      let n ← hash.load e
      match n.next with
      | none => return hash.iteratorAt (hash.nextOccupiedBucket (i.bucketIdx + 1))
      | some next => return { i with datum := some (.chain next) }

/-- `ihash_is_valid`. -/
def isValid (hash : Ihash V) (i : Iterator) : Bool := i.bucketIdx != hash.bucketsz

/-- The entries that a loop `for (; ihash_is_valid(h, i); i = ihash_next(h, i))` visits. -/
def foreach (hash : Ihash V) : Nat → Iterator → Except Fault (List Slot)
  | fuel, i =>
      if hash.isValid i then
        match fuel, i.datum with
        | 0, _ => .error .diverges
        | _ + 1, none => .error .nullPointer
        | fuel + 1, some e => do
            let i ← hash.next i
            let rest ← foreach hash fuel i
            return e :: rest
      else
        return []

end Ihash

end Scroller
