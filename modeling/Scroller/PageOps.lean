import Scroller.Files
import Scroller.Lib.CrashStore
import Scroller.Tran

/-!
# What the server does with pages

A page is used through the pointer that `pagecache_put_page` returns, before any other page is touched, and
flushed by hand. A server that is started again has the files and fresh caches.
-/

namespace Scroller

open Icache (Entry)

/-- The memory that a server starts with: the caches are initialized in it, the frames hold anything. -/
structure Boot (P : Type) where
  bucketsz : Nat
  chainsz : Nat
  hashFn : Option HashFn
  buckets : Nat → Ihash.Node (Entry (Option Nat))
  chains : Nat → Ihash.Node (Entry (Option Nat))
  nodes : Nat → Ilist2.Node Int64
  stackNodes : Nat → Ilist2.Node (Option Nat)
  fdbucketsz : Nat
  fdchainsz : Nat
  fdhashFn : Option HashFn
  fdbuckets : Nat → Ihash.Node (Entry Int)
  fdchains : Nat → Ihash.Node (Entry Int)
  fdnodes : Nat → Ilist2.Node Int64
  pages : Nat → P

variable {W P : Type}

/-- `caches_create`, as far as pages and files are concerned. -/
def Boot.cachesCreate (boot : Boot P) (world : W) : Except Fault (Option (Pagecache W P)) :=
  match Icache.initFn boot.fdbuckets boot.fdchains boot.fdnodes boot.fdbucketsz boot.fdchainsz boot.fdhashFn with
  | none => return none
  | some cache =>
      Pagecache.initFn boot.buckets boot.chains boot.nodes boot.stackNodes boot.bucketsz boot.chainsz boot.hashFn
        { world, cache } boot.pages

abbrev PageOp (P : Type) : Type := CrashStore.Op Gid P (Boot P)

namespace Pagecache

variable {os : Os W P}

/-- The reply of a use is the page that it found. -/
def stepPages (build : Build) (files : os.Files) (s : Pagecache W P) :
    PageOp P → Except Fault (Pagecache W P × Option P)
  | .use key f => do
      match ← s.putPage build os key with
      | (_, none) => .error .nullPointer
      | (s, some idx) => return ({ s with pages := Function.update s.pages idx (f (s.pages idx)) }, some (s.pages idx))
  | .flush key => do
      let (s, _) ← s.flush build os key
      return (s, none)
  | .crash boot => do
      match ← boot.cachesCreate (files.restart s.fdcache.world) with
      | none => .error .nullPointer
      | some s => return (s, none)

end Pagecache

/-- What happens to the flags: they are put and got, and other pages are used, flushed and lost. -/
inductive FlagOp where
  | put (tid : Int64) (flag : TranFlag)
  | get (tid : Int64)
  | page (op : PageOp Page)

namespace TranPage

variable {os : Os W Page}

/-- The reply of a `get` is the flag. -/
def stepFlags (build : Build) (files : os.Files) (tran : Gid) (s : Pagecache W Page) :
    FlagOp → Except Fault (Pagecache W Page × Option TranFlag)
  | .put tid flag => do return (← tranFlagPut build os tran s tid flag, none)
  | .get tid => do
      let (s, flag) ← tranFlagGet build os tran s tid
      return (s, some flag)
  | .page op => do return ((← s.stepPages build files op).1, none)

end TranPage

end Scroller
