import Scroller.Ihash
import Scroller.Ilist2

/-!
# The LRU cache

`lib/core/src/icache.c`. A hash table of entries and a list of keys, most recently used first; every
entry stores the list index of its key behind the user's data. The list has a node for every slot of
the table.
-/

namespace Scroller

/-- `ILIST2_UNDEF` as a key in the list. -/
def ilist2Undef : Int64 := -1

/-- The user's data and the list index behind it. -/
structure Icache.Entry (V : Type) where
  value : V
  lruIdx : Option Nat

structure Icache (V : Type) where
  hash : Ihash (Icache.Entry V)
  list : Ilist2 Int64

namespace Icache

variable {V : Type}

/-- `icache_init_fn` over memory that holds the given slots and nodes. -/
def initFn (buckets chains : Nat → Ihash.Node (Entry V)) (nodes : Nat → Ilist2.Node Int64)
    (bucketsz chainsz : Nat) (hashFn : Option HashFn) : Option (Icache V) := do
  let hash ← Ihash.initFn buckets chains bucketsz chainsz hashFn
  return { hash, list := Ilist2.initFn nodes (bucketsz + chainsz) }

/-- `icache_clear`. -/
def clear (cache : Icache V) (hashFn : Option HashFn) : Icache V :=
  { hash := cache.hash.clear hashFn, list := cache.list.clear }

/-- Puts the key in front of the list and stores the index of its node in the entry. -/
def putMru (build : Build) (hash : Ihash (Entry V)) (list : Ilist2 Int64) (e : Slot) (key : Int64) :
    Except Fault (Icache V) := do
  let (list, idx) ← list.putFront key
  let n ← hash.load e
  let hash := hash.setData e { n.data with lruIdx := idx }
  build.assert (idx ≠ none)
  return { hash, list }

/-- `icache_touch_fn`. -/
def touchFn (build : Build) (cache : Icache V) (key : Int64) :
    Except Fault (Icache V × Option Slot) := do
  match ← cache.hash.getFn key with
  | some e => do
      let n ← cache.hash.load e
      let list ← cache.list.moveFrontByIdx build n.data.lruIdx
      return ({ cache with list }, some e)
  | none => do
      match ← cache.hash.touchFn key with
      | (hash, some e) => return (← putMru build hash cache.list e key, some e)
      | (hash, none) => do
          let (list, lruKey) ← cache.list.popBack
          build.assert (lruKey ≠ ilist2Undef)
          build.assertCall (hash.getFn lruKey >>= fun e => pure e.isSome)
          let (hash, _) ← hash.eraseFn lruKey
          match ← hash.touchFn key with
          | (hash, none) => return ({ hash, list }, none)
          | (hash, some e) => return (← putMru build hash list e key, some e)

/-- The macro `icache_put`. -/
def put (build : Build) (cache : Icache V) (key : Int64) (value : V) :
    Except Fault (Icache V × Option Slot) := do
  match ← cache.touchFn build key with
  | (cache, none) => return (cache, none)
  | (cache, some e) => do
      let n ← cache.hash.load e
      return ({ cache with hash := cache.hash.setData e { n.data with value := value } }, some e)

end Icache

end Scroller
