import Scroller.Gid
import Scroller.Icache

/-!
# The file descriptor cache

`lib/core/src/fdcache.c`: an LRU cache from file ids to open descriptors, with its own copy of the touch
of `icache.c`. The operating system is a parameter: its calls act on a state of its own.
-/

namespace Scroller

/-- The calls the caches make. `openFile` names a file by the id its name is made of; `pread` gives the
frame's content afterwards; `none` is the `-1` of a failed call. -/
structure Os (W P : Type) where
  pagesz : Nat
  openFile : W → UInt64 → W × Option Int
  close : W → Int → W
  pwrite : W → Int → P → UInt64 → W × Option Nat
  pread : W → Int → P → UInt64 → W × Option P

/-- `g_fdcache` and the operating system it opens files with. -/
structure Fdcache (W : Type) where
  world : W
  cache : Icache Int

namespace Fdcache

variable {W P : Type}

/-- `fdcache_open`. -/
def openFd (os : Os W P) (world : W) (key : Int64) : W × Option Int :=
  os.openFile world (Gid.ofParts key.toUInt64 0).fileId

/-- `((FdCache *)(e))->fd = fd`. -/
def setFd (hash : Ihash (Icache.Entry Int)) (e : Slot) (fd : Int) :
    Except Fault (Ihash (Icache.Entry Int)) := do
  let n ← hash.load e
  return hash.setData e { n.data with value := fd }

/-- `ihash_get_member((FdCache *)hash, key, fd)`: 0 for an absent key. -/
def getFd (hash : Ihash (Icache.Entry Int)) (key : Int64) : Except Fault Int := do
  match ← hash.getFn key with
  | none => return 0
  | some e => return (← hash.load e).data.value

/-- Stores the descriptor in a new entry and puts its key in front of the list. -/
def enter (build : Build) (world : W) (hash : Ihash (Icache.Entry Int)) (list : Ilist2 Int64)
    (e : Slot) (key : Int64) (fd : Int) : Except Fault (Fdcache W × Option Slot) := do
  let hash ← setFd hash e fd
  let cache ← Icache.putMru build hash list e key
  return ({ world, cache }, some e)

/-- `fdcache_touch_fn`. -/
def touchFn (build : Build) (os : Os W P) (s : Fdcache W) (key : Int64) :
    Except Fault (Fdcache W × Option Slot) := do
  match ← s.cache.hash.getFn key with
  | some e => do
      let n ← s.cache.hash.load e
      let list ← s.cache.list.moveFrontByIdx build n.data.lruIdx
      return ({ s with cache := { s.cache with list } }, some e)
  | none =>
      match openFd os s.world key with
      | (world, none) => return ({ s with world }, none)
      | (world, some fd) => do
          match ← s.cache.hash.touchFn key with
          | (hash, some e) => enter build world hash s.cache.list e key fd
          | (hash, none) => do
              let (list, lruKey) ← s.cache.list.popBack
              build.assert (lruKey ≠ ilist2Undef)
              build.assertCall (hash.getFn lruKey >>= fun e => pure e.isSome)
              let world := os.close world (← getFd hash lruKey)
              let (hash, _) ← hash.eraseFn lruKey
              match ← hash.touchFn key with
              | (hash, none) => return ({ world := os.close world fd, cache := { hash, list } }, none)
              | (hash, some e) => enter build world hash list e key fd

/-- The loop of `fdcache_clear` and `fdcache_free` over the entries: every descriptor is closed. -/
def closeLoop (os : Os W P) (hash : Ihash (Icache.Entry Int)) :
    Nat → W → Ihash.Iterator → Except Fault W
  | fuel, world, i =>
      if hash.isValid i then
        match fuel, i.datum with
        | 0, _ => .error .diverges
        | _ + 1, none => .error .nullPointer
        | fuel + 1, some e => do
            let n ← hash.load e
            closeLoop os hash fuel (os.close world n.data.value) (← hash.next i)
      else
        return world

/-- `fdcache_clear`. -/
def clear (os : Os W P) (s : Fdcache W) (hashFn : Option HashFn) : Except Fault (Fdcache W) := do
  let hash := s.cache.hash
  let world ← closeLoop os hash (hash.bucketsz + hash.chainsz) s.world hash.begin
  return { world, cache := s.cache.clear hashFn }

/-- `fdcache_free`: the entries' descriptors are closed, the memory is given back. -/
def free (os : Os W P) (s : Fdcache W) : Except Fault W :=
  closeLoop os s.cache.hash (s.cache.hash.bucketsz + s.cache.hash.chainsz) s.world s.cache.hash.begin

end Fdcache

end Scroller
