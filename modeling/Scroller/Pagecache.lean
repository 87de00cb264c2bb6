import Scroller.Fdcache

/-!
# The page cache

`lib/core/src/pagecache.c`: an LRU cache from page ids to frames of `g_pages`, a stack of the frames
that back no page, and a third copy of the touch. A page is read from its file when it enters the cache
and written back when it is evicted; the files are reached through `g_fdcache`.
-/

namespace Scroller

/-- `g_pagecache` with its stack of free frames, `g_fdcache` and the frames `g_pages`. A frame index of
`none` is `PAGECACHE_UNDEF`. -/
structure Pagecache (W P : Type) where
  cache : Icache (Option Nat)
  stack : Ilist2 (Option Nat)
  fdcache : Fdcache W
  pages : Nat → P

namespace Pagecache

variable {W P : Type}

/-- Puts the frames on the stack, the last one first. -/
def fillStack (stack : Ilist2 (Option Nat)) (fullsz : Nat) : Except Fault (Ilist2 (Option Nat)) :=
  (List.range fullsz).reverse.foldlM
    (fun stack i => do
      let (stack, _) ← stack.putBack (some i)
      return stack) stack

/-- `pagecache_init_fn` over memory that holds the given slots and nodes. -/
def initFn (buckets chains : Nat → Ihash.Node (Icache.Entry (Option Nat)))
    (nodes : Nat → Ilist2.Node Int64) (stackNodes : Nat → Ilist2.Node (Option Nat))
    (bucketsz chainsz : Nat) (hashFn : Option HashFn) (fdcache : Fdcache W) (pages : Nat → P) :
    Except Fault (Option (Pagecache W P)) :=
  match Icache.initFn buckets chains nodes bucketsz chainsz hashFn with
  | none => return none
  | some cache => do
      let stack ← fillStack (Ilist2.initFn stackNodes (bucketsz + chainsz)) (bucketsz + chainsz)
      return some { cache, stack, fdcache, pages }

/-- `pagecache_clear`. -/
def clear (s : Pagecache W P) (hashFn : Option HashFn) : Except Fault (Pagecache W P) := do
  let fullsz := s.cache.hash.bucketsz + s.cache.hash.chainsz
  let stack ← fillStack s.stack.clear fullsz
  return { s with cache := s.cache.clear hashFn, stack }

/-- `g_pages + idx * PAGESZ`: the frame has to lie in `g_pages`. -/
def frame (s : Pagecache W P) (idx : Option Nat) : Except Fault Nat :=
  match idx with
  | none => .error .outOfBounds
  | some idx => if idx < s.stack.listsz then .ok idx else .error .outOfBounds

/-- `e->fd` of the entry `fdcache_put` returned. -/
def fdOf (fdcache : Fdcache W) (e : Option Slot) : Except Fault Int :=
  match e with
  | none => .error .nullPointer
  | some e => do return (← fdcache.cache.hash.load e).data.value

/-- `pagecache_read`. -/
def read (build : Build) (os : Os W P) (s : Pagecache W P) (key : Gid) :
    Except Fault (Pagecache W P × Option Nat) := do
  let (stack, curIdx) ← s.stack.popBack
  let (fdcache, e) ← s.fdcache.touchFn build os key.fileId.toInt64
  build.assert (curIdx ≠ none)
  build.assert (e ≠ none)
  let fd ← fdOf fdcache e
  let idx ← s.frame curIdx
  match os.pread fdcache.world fd (s.pages idx) key.page with
  | (world, none) => return ({ s with stack, fdcache := { fdcache with world } }, none)
  | (world, some page) =>
      return ({ s with stack, fdcache := { fdcache with world },
                       pages := Function.update s.pages idx page }, curIdx)

/-- `pagecache_write`; its result is not used. -/
def write (build : Build) (os : Os W P) (s : Pagecache W P) (key : Gid) :
    Except Fault (Pagecache W P) := do
  let (fdcache, e) ← s.fdcache.touchFn build os key.fileId.toInt64
  let ptr ← s.cache.hash.getFn key.key
  build.assert (e ≠ none)
  build.assert (ptr ≠ none)
  let fd ← fdOf fdcache e
  match ptr with
  | none => .error .nullPointer
  | some ptr => do
      let pageIdx := (← s.cache.hash.load ptr).data.value
      let idx ← s.frame pageIdx
      match os.pwrite fdcache.world fd (s.pages idx) key.page with
      | (world, none) => return { s with fdcache := { fdcache with world } }
      | (world, some writtenBytes) => do
          build.assert (writtenBytes = os.pagesz)
          let (stack, curIdx) ← s.stack.putBack pageIdx
          build.assert (curIdx ≠ none)
          return { s with stack, fdcache := { fdcache with world } }

/-- Reads the page of a new entry into a free frame and puts its key in front of the list. A `NULL`
entry is written through. -/
def enter (build : Build) (os : Os W P) (s : Pagecache W P) (e : Option Slot) (key : Gid) :
    Except Fault (Pagecache W P × Option Slot) :=
  match e with
  | none => .error .nullPointer
  | some e => do
      let (s, pageIdx) ← s.read build os key
      let n ← s.cache.hash.load e
      let hash := s.cache.hash.setData e { n.data with value := pageIdx }
      build.assert (pageIdx ≠ none)
      let cache ← Icache.putMru build hash s.cache.list e key.key
      return ({ s with cache }, some e)

/-- `pagecache_touch_fn`. -/
def touchFn (build : Build) (os : Os W P) (s : Pagecache W P) (key : Gid) :
    Except Fault (Pagecache W P × Option Slot) := do
  match ← s.cache.hash.getFn key.key with
  | some e => do
      let n ← s.cache.hash.load e
      let list ← s.cache.list.moveFrontByIdx build n.data.lruIdx
      return ({ s with cache := { s.cache with list } }, some e)
  | none => do
      match ← s.cache.hash.touchFn key.key with
      | (hash, some e) => enter build os { s with cache := { s.cache with hash } } (some e) key
      | (hash, none) => do
          let (list, lruKey) ← s.cache.list.popBack
          build.assert (lruKey ≠ ilist2Undef)
          let s ← write build os { s with cache := { hash, list } } ⟨lruKey.toUInt64⟩
          let (hash, _) ← s.cache.hash.eraseFn lruKey
          let (hash, e) ← hash.touchFn key.key
          build.assert (e ≠ none)
          enter build os { s with cache := { s.cache with hash } } e key

/-- `pagecache_put_page`: the frame the returned pointer points to, if it is not `NULL`. -/
def putPage (build : Build) (os : Os W P) (s : Pagecache W P) (key : Gid) :
    Except Fault (Pagecache W P × Option Nat) := do
  match ← s.touchFn build os key with
  | (s, none) => return (s, none)
  | (s, some e) => do
      let idx ← s.frame (← s.cache.hash.load e).data.value
      return (s, some idx)

/-- `pagecache_flush`; a result of `none` is -1. -/
def flush (build : Build) (os : Os W P) (s : Pagecache W P) (key : Gid) :
    Except Fault (Pagecache W P × Option Nat) := do
  let (fdcache, e) ← s.fdcache.touchFn build os key.fileId.toInt64
  let ptr ← s.cache.hash.getFn key.key
  build.assert (e ≠ none)
  build.assert (ptr ≠ none)
  let fd ← fdOf fdcache e
  match ptr with
  | none => .error .nullPointer
  | some ptr => do
      let idx ← s.frame (← s.cache.hash.load ptr).data.value
      let (world, writtenBytes) := os.pwrite fdcache.world fd (s.pages idx) key.page
      return ({ s with fdcache := { fdcache with world } },
        if writtenBytes = some os.pagesz then some 0 else writtenBytes)

end Pagecache

end Scroller
