import Scroller.Proof.IcachePlaces
import Scroller.Proof.IcacheRun
import Scroller.Proof.PagecacheRun

/-!
# When a touch keeps its promise

A touch promises an entry for the key, and that no other key is disturbed, except that a full cache
gives up its least recently used key. The eviction of the code frees the slot of that key, which need not
be a slot the new key can use; and it evicts as soon as one bucket is exhausted. The three caches keep
the promise in exactly the states described here.
-/

namespace Scroller

namespace Icache

variable {V : Type}

/-- The promise of a touch of the LRU cache. -/
def TouchKept (build : Build) (cache : Icache V) (key : Int64) : Prop :=
  ∃ cache' e, cache.touchFn build key = .ok (cache', some e)
    ∧ cache'.hash.getFn key = .ok (some e) ∧ OthersUndisturbed cache cache' key

/-- A state after some run of valid calls on a fresh cache. -/
def Reachable (build : Build) (cache : Icache V) : Prop :=
  ∃ buckets chains nodes bucketsz chainsz hashFn cache₀ ops hist,
    initFn buckets chains nodes bucketsz chainsz hashFn = some cache₀ ∧ (∀ op ∈ ops, Op.Valid op)
      ∧ Machine.exec (step build) cache₀ ops = .ok (cache, hist)

theorem Reachable.inv {build : Build} {cache : Icache V} (h : cache.Reachable build) :
    ∃ m l fl, cache.Inv m l fl := by
  obtain ⟨buckets, chains, nodes, bucketsz, chainsz, hashFn, cache₀, ops, hist, hinit, hops, hexec⟩ := h
  obtain ⟨cache', hist', hexec', m, l, fl, hinv, -⟩ := Machine.exec_progress Agrees Op.Valid []
    (fun _ _ _ hagrees hvalid => agrees_step hagrees build hvalid) (agrees_init hinit) hops
  rw [hexec] at hexec'
  cases hexec'
  exact ⟨m, l, fl, hinv⟩

theorem touchKept_iff {build : Build} {cache : Icache V} (h : cache.Reachable build) {key : Int64}
    (hkey : key ≠ ihashUndef) : TouchKept build cache key ↔ cache.KeepsPromise key := by
  obtain ⟨m, l, fl, hinv⟩ := h.inv
  obtain ⟨cache', e, m', l', fl', gone, htouch, hinv', -, hout, hothers, hget⟩ :=
    hinv.touchFn build hkey
  have hpresent := hout.present_iff hinv
  constructor
  · rintro ⟨cache'', s, htouch', hget', hundisturbed⟩
    rw [htouch] at htouch'
    cases htouch'
    exact ⟨hpresent.mp rfl, (hout.othersUndisturbed_iff hinv hinv' hothers).mp hundisturbed⟩
  · rintro ⟨hadmits, hfull⟩
    obtain ⟨s, rfl⟩ := Option.isSome_iff_exists.mp (hpresent.mpr hadmits)
    exact ⟨cache', s, htouch, hget s rfl,
      (hout.othersUndisturbed_iff hinv hinv' hothers).mpr hfull⟩

end Icache

/-- Opening a file succeeds. -/
def Os.OpensSucceed {W P : Type} (os : Os W P) : Prop :=
  ∀ world file, (os.openFile world file).2 ≠ none

namespace Fdcache

variable {W P : Type}

inductive Op where
  | touch (key : Int64)
  | clear (hashFn : Option HashFn)

def Op.Valid : Op → Prop
  | .touch key => key ≠ ihashUndef
  | .clear _ => True

/-- One call on the file descriptor cache. -/
def step (build : Build) (os : Os W P) (s : Fdcache W) :
    Op → Except Fault (Fdcache W × Option Slot)
  | .touch key => s.touchFn build os key
  | .clear hashFn => do
      let s ← s.clear os hashFn
      return (s, none)

/-- The promise of a touch of the file descriptor cache. -/
def TouchKept (build : Build) (os : Os W P) (s : Fdcache W) (key : Int64) : Prop :=
  ∃ s' e, s.touchFn build os key = .ok (s', some e) ∧ s'.cache.hash.getFn key = .ok (some e)
    ∧ Icache.OthersUndisturbed s.cache s'.cache key

/-- A state after some run of valid calls on a fresh cache. -/
def Reachable (build : Build) (os : Os W P) (s : Fdcache W) : Prop :=
  ∃ buckets chains nodes bucketsz chainsz hashFn s₀ ops hist,
    Icache.initFn buckets chains nodes bucketsz chainsz hashFn = some s₀.cache
      ∧ (∀ op ∈ ops, Op.Valid op) ∧ Machine.exec (step build os) s₀ ops = .ok (s, hist)

theorem Reachable.inv {build : Build} {os : Os W P} {s : Fdcache W} (h : s.Reachable build os) :
    Pagecache.FdInv s := by
  obtain ⟨buckets, chains, nodes, bucketsz, chainsz, hashFn, s₀, ops, hist, hinit, hops, hexec⟩ := h
  obtain ⟨m₀, fl₀, hinv₀⟩ := Icache.inv_init hinit
  refine Machine.exec_invariant (fun _ s => Pagecache.FdInv s) Op.Valid [] ?_
    ⟨m₀, [], fl₀, hinv₀⟩ hops hexec
  rintro hist s op s' reply ⟨m, l, fl, hinv⟩ hvalid hstep
  cases op with
  | touch key =>
      obtain ⟨s'', e, m', l', fl', htouch, hinv', -⟩ := touchFn_eq hinv build os hvalid
      have hok : s.touchFn build os key = .ok (s', reply) := hstep
      rw [htouch] at hok
      cases hok
      exact ⟨m', l', fl', hinv'⟩
  | clear hashFn =>
      obtain ⟨s'', hclear, hret⟩ := bind_eq_ok.mp hstep
      cases hret
      exact clear_inv hinv os hclear

theorem openFd_ne_none {os : Os W P} (hos : os.OpensSucceed) (world : W) (key : Int64) :
    (openFd os world key).2 ≠ none :=
  hos _ _

theorem touchKept_iff {build : Build} {os : Os W P} (hos : os.OpensSucceed) {s : Fdcache W}
    (h : s.Reachable build os) {key : Int64} (hkey : key ≠ ihashUndef) :
    TouchKept build os s key ↔ s.cache.KeepsPromise key := by
  obtain ⟨m, l, fl, hinv⟩ := h.inv
  obtain ⟨s', e, m', l', fl', htouch, hinv', -, hget, ⟨-, hfail, -⟩ | ⟨gone, hout, hothers, -⟩⟩ :=
    touchFn_eq hinv build os hkey
  · exact absurd (congrArg Prod.snd hfail) (openFd_ne_none hos _ _)
  have hpresent := hout.present_iff hinv
  constructor
  · rintro ⟨s'', slot, htouch', -, hundisturbed⟩
    rw [htouch] at htouch'
    cases htouch'
    exact ⟨hpresent.mp rfl, (hout.othersUndisturbed_iff hinv hinv' hothers).mp hundisturbed⟩
  · rintro ⟨hadmits, hfull⟩
    obtain ⟨slot, rfl⟩ := Option.isSome_iff_exists.mp (hpresent.mpr hadmits)
    exact ⟨s', slot, htouch, hget slot rfl,
      (hout.othersUndisturbed_iff hinv hinv' hothers).mpr hfull⟩

end Fdcache

namespace Pagecache

open Icache (Entry Outcome OthersKept OthersUndisturbed)

variable {W P : Type}

/-- With files that open, the file cache serves a file exactly when the file has a place. -/
theorem fileServed_iff {build : Build} {os : Os W P} (hos : os.OpensSucceed) {fdcache : Fdcache W}
    (h : FdInv fdcache) (gid : Gid) :
    FileServed build os fdcache gid.fileId ↔ fdcache.cache.Admits gid.fileId.toInt64 := by
  obtain ⟨m, l, fl, hinv⟩ := h
  obtain ⟨fdcache', e, m', l', fl', htouch, -, -, -, ⟨-, hfail, -⟩ | ⟨gone, hout, -⟩⟩ :=
    Fdcache.touchFn_eq hinv build os (toInt64_fileId_ne gid)
  · exact absurd (congrArg Prod.snd hfail) (Fdcache.openFd_ne_none hos _ _)
  rw [← hout.present_iff hinv]
  constructor
  · rintro ⟨fdcache'', slot, htouch'⟩
    rw [htouch] at htouch'
    cases htouch'
    rfl
  · intro hsome
    obtain ⟨slot, rfl⟩ := Option.isSome_iff_exists.mp hsome
    exact ⟨fdcache', slot, htouch⟩

theorem FdInv.setWorld {fdcache : Fdcache W} (h : FdInv fdcache) (world : W) :
    FdInv { fdcache with world := world } :=
  h

/-- After a touch that returned an entry another file has a place exactly when it has one beside the
keys as the touch left them. -/
theorem admits_after_touch {build : Build} {os : Os W P} (hos : os.OpensSucceed)
    {fdcache fdcache' : Fdcache W} {gid : Gid} {slot : Slot} (h : FdInv fdcache)
    (htouch : fdcache.touchFn build os gid.fileId.toInt64 = .ok (fdcache', some slot)) :
    FdInv fdcache' ∧ ∀ key, fdcache'.cache.Admits key ↔ ∀ order, fdcache.cache.Order order →
      fdcache.cache.AdmitsBeside (fdcache.cache.touchedOrder order gid.fileId.toInt64) key := by
  obtain ⟨m, l, fl, hinv⟩ := h
  obtain ⟨fdcache'', e, m', l', fl', htouch', hinv', hshape, -, ⟨-, hfail, -⟩ | ⟨gone, hout, -⟩⟩ :=
    Fdcache.touchFn_eq hinv build os (toInt64_fileId_ne gid)
  · exact absurd (congrArg Prod.snd hfail) (Fdcache.openFd_ne_none hos _ _)
  rw [htouch] at htouch'
  cases htouch'
  refine ⟨⟨m', l', fl', hinv'⟩, fun key => ?_⟩
  rw [hinv'.admits_iff_admitsBeside, Icache.admitsBeside_congr hshape,
    Icache.Outcome.order_eq hinv hout]
  constructor
  · intro hadmits order horder
    rw [hinv.order_iff.mp horder]
    exact hadmits
  · intro hadmits
    exact hadmits _ (hinv.order_iff.mpr rfl)

/-- The files a miss needs have a place in the file cache: the file of the page, after the file of the
page that is evicted for it. -/
def FilesAdmitted (s : Pagecache W P) (key : Gid) : Prop :=
  (¬ s.cache.hash.Exhausted key.key → s.fdcache.cache.Admits key.fileId.toInt64)
    ∧ (s.cache.hash.Exhausted key.key → ∀ old, s.cache.lru = some old →
        s.fdcache.cache.Admits (Gid.fileId ⟨old.toUInt64⟩).toInt64
        ∧ ∀ order, s.fdcache.cache.Order order →
            s.fdcache.cache.AdmitsBeside
              (s.fdcache.cache.touchedOrder order (Gid.fileId ⟨old.toUInt64⟩).toInt64)
              key.fileId.toInt64)

/-- The page and the files it needs have a place, and the cache evicts only when it is full. -/
def KeepsPromise (s : Pagecache W P) (key : Gid) : Prop :=
  s.cache.KeepsPromise key.key ∧ (s.cache.Cached key.key ∨ s.FilesAdmitted key)

/-- The promise of a touch of the page cache: the other pages keep their frames and contents. -/
def TouchKept (build : Build) (os : Os W P) (s : Pagecache W P) (key : Gid) : Prop :=
  ∃ s' e, s.touchFn build os key = .ok (s', some e) ∧ s'.cache.hash.getFn key.key = .ok (some e)
    ∧ OthersUndisturbed s.cache s'.cache key.key
    ∧ ∀ k ≠ key.key, ∀ idx, s'.cache.value k = some (some idx) → s'.pages idx = s.pages idx

/-- A state after some run of valid calls on a fresh page cache over a fresh file cache. -/
def Reachable (build : Build) (os : Os W P) (s : Pagecache W P) : Prop :=
  ∃ (start : Start W P) (s₀ : Pagecache W P) (ops : List Op) (hist : List (Op × Option Slot)),
    (∃ buckets chains nodes bucketsz chainsz hashFn,
      Icache.initFn buckets chains nodes bucketsz chainsz hashFn = some start.fdcache.cache)
      ∧ start.init = .ok (some s₀) ∧ (∀ op ∈ ops, op.Valid)
      ∧ Machine.exec (step build os) s₀ ops = .ok (s, hist)

theorem Reachable.inv {build : Build} {os : Os W P} (hos : os.PageIoSucceeds) {s : Pagecache W P}
    (h : s.Reachable build os) : ∃ m l fl sl sfl, s.Inv m l fl sl sfl := by
  obtain ⟨start, s₀, ops, hist, ⟨buckets, chains, nodes, bucketsz, chainsz, hashFn, hfd⟩, hinit, hops,
    hexec⟩ := h
  obtain ⟨mfd, flfd, hfdinv⟩ := Icache.inv_init hfd
  have hholds := Machine.exec_invariant (fun _ s => Holds (start.bucketsz + start.chainsz) s) Op.Valid []
    (fun _ s op s' reply hholds hvalid hstep => by
      rcases holds_step hholds build hos hvalid with ⟨s'', reply', hstep', hholds'⟩ | ⟨e, herr, -⟩
      · rw [hstep] at hstep'
        cases hstep'
        exact hholds'
      · rw [hstep] at herr
        cases herr)
    (holds_init ⟨mfd, [], flfd, hfdinv⟩ hinit) hops hexec
  exact hholds.2

theorem touchKept_iff {build : Build} {os : Os W P} (hopen : os.OpensSucceed)
    (hos : os.PageIoSucceeds) {s : Pagecache W P} (h : s.Reachable build os) {key : Gid}
    (hkey : key.key ≠ ihashUndef) : TouchKept build os s key ↔ s.KeepsPromise key := by
  obtain ⟨m, l, fl, sl, sfl, hinv⟩ := h.inv hos
  rcases hinv.touchFn build hos hkey with ⟨s', e, m', l', fl', sl', sfl', gone, htouch, hinv', -, hget,
    hout, hothers, hserved, hpages⟩ | ⟨hcrash, hlookup, hblocked⟩
  · have hundisturbed := hout.othersUndisturbed_iff hinv.cache hinv'.cache hothers
    constructor
    · rintro ⟨s'', e', htouch', -, hkept, -⟩
      rw [htouch] at htouch'
      cases htouch'
      refine ⟨⟨(hout.present_iff hinv.cache).mp rfl, hundisturbed.mp hkept⟩, ?_⟩
      by_cases hcached : s.cache.Cached key.key
      · exact Or.inl hcached
      right
      have hnone : m.lookup key.key = none := by
        by_contra hpresent
        exact hcached (hinv.cache.cached_iff.mpr hpresent)
      have hfiles := hserved hnone
      generalize l'.map s'.cache.list.values = order' at hout
      cases hout with
      | hit hpresent => exact absurd hnone hpresent
      | fill _ hroom =>
          refine ⟨fun _ => (fileServed_iff hopen hinv.fdcache key).mp hfiles, fun hexhausted => ?_⟩
          exact absurd hroom (hinv.cache.hash.not_room_iff.mpr hexhausted)
      | evict _ hroom horder hroom₁ =>
          refine ⟨fun hnot => absurd (hinv.cache.hash.not_room_iff.mp hroom) hnot, ?_⟩
          intro _ old hold
          rw [hinv.cache.lru_eq horder] at hold
          cases hold
          obtain ⟨fdcache', slot, world, hfd, hkeyfile⟩ := hfiles
          have hafter := admits_after_touch hopen hinv.fdcache hfd
          have hadmitted := (fileServed_iff hopen (hafter.1.setWorld world) key).mp hkeyfile
          exact ⟨(fileServed_iff hopen hinv.fdcache ⟨_⟩).mp ⟨fdcache', slot, hfd⟩,
            (hafter.2 _).mp hadmitted⟩
    · rintro ⟨⟨-, hfull⟩, -⟩
      refine ⟨s', e, htouch, hget, hundisturbed.mpr hfull, ?_⟩
      intro k hk idx hvalue
      refine hpages k hk idx ?_
      rw [hinv'.cache.value_eq] at hvalue
      obtain ⟨entry, hentry, hidx⟩ := Option.map_eq_some_iff.mp hvalue
      rw [frameOf, hentry, Option.bind_some, hidx]
  · have hnotcached : ¬ s.cache.Cached key.key := by
      rw [hinv.cache.cached_iff, hlookup]
      simp
    refine iff_of_false ?_ ?_
    · rintro ⟨s', e, htouch, -⟩
      rcases hcrash with heq | heq
      · rw [heq] at htouch
        cases htouch
      · rw [heq] at htouch
        cases htouch
    · rintro ⟨⟨hadmits, -⟩, hcached | ⟨hfree, hevict⟩⟩
      · exact hnotcached hcached
      cases hblocked with
      | fill hroom hnot =>
          have hroomy : ¬ s.cache.hash.Exhausted key.key := by
            rw [← hinv.cache.hash.not_room_iff, not_not]
            exact hroom
          exact hnot ((fileServed_iff hopen hinv.fdcache key).mpr (hfree hroomy))
      | write hroom horder hnot =>
          have hold := hevict (hinv.cache.hash.not_room_iff.mp hroom) _ (hinv.cache.lru_eq horder)
          exact hnot ((fileServed_iff hopen hinv.fdcache ⟨_⟩).mpr hold.1)
      | place hroom horder hroom₁ =>
          exact hroom₁ ((hinv.cache.admits_iff hlookup hroom horder).mp hadmits)
      | @read init lru fdcache' slot world hroom horder hfd hnot =>
          have hold := hevict (hinv.cache.hash.not_room_iff.mp hroom) _ (hinv.cache.lru_eq horder)
          have hafter := admits_after_touch hopen hinv.fdcache hfd
          have hadmitted : fdcache'.cache.Admits key.fileId.toInt64 := (hafter.2 _).mpr hold.2
          exact hnot ((fileServed_iff hopen (hafter.1.setWorld world) key).mpr hadmitted)

end Pagecache

/-- **When a touch keeps its promise.** In every state that runs of valid calls reach, for each of the
three caches: the touch of a valid key keeps its promise exactly when the key has a place and the cache,
if it has to evict, is full; for the page cache also the files of a miss need a place. -/
theorem touch_kept_iff (build : Build) :
    (∀ (V : Type) (cache : Icache V), cache.Reachable build → ∀ key ≠ ihashUndef,
        (Icache.TouchKept build cache key ↔ cache.KeepsPromise key))
      ∧ (∀ (W P : Type) (os : Os W P), os.OpensSucceed → ∀ s : Fdcache W, s.Reachable build os →
          ∀ key ≠ ihashUndef, (Fdcache.TouchKept build os s key ↔ s.cache.KeepsPromise key))
      ∧ (∀ (W P : Type) (os : Os W P), os.OpensSucceed → os.PageIoSucceeds →
          ∀ s : Pagecache W P, s.Reachable build os → ∀ key : Gid, key.key ≠ ihashUndef →
            (Pagecache.TouchKept build os s key ↔ s.KeepsPromise key)) :=
  ⟨fun _ _ h _ hkey => Icache.touchKept_iff h hkey,
    fun _ _ _ hos _ h _ hkey => Fdcache.touchKept_iff hos h hkey,
    fun _ _ _ hopen hos _ h _ hkey => Pagecache.touchKept_iff hopen hos h hkey⟩

/-! ### Caches without chains -/

theorem emptyFiles_opensSucceed {P : Type} : (Pagecache.emptyFiles (P := P)).OpensSucceed :=
  fun _ _ => Option.some_ne_none _

/-- Touches of full caches: the one file of the first two makes room, and the older page of the third. -/
theorem touch_kept_iff_evicts :
    (∃ cache hist, Machine.exec (Icache.step .debug) Pagecache.smallFdcache [.touch 5] = .ok (cache, hist)
        ∧ (Icache.TouchKept .debug cache 6 ↔ cache.KeepsPromise 6))
      ∧ (∃ files hist, Machine.exec (Fdcache.step .debug (Pagecache.emptyFiles (P := Nat)))
            ⟨(), Pagecache.smallFdcache⟩ [.touch 5] = .ok (files, hist)
          ∧ (Fdcache.TouchKept .debug (Pagecache.emptyFiles (P := Nat)) files 6 ↔ files.cache.KeepsPromise 6))
      ∧ ∃ s hist, Machine.exec (Pagecache.step .debug Pagecache.emptyFiles) (Pagecache.smallCache 0)
            [.touch ⟨1⟩, .touch ⟨2⟩] = .ok (s, hist)
          ∧ (Pagecache.TouchKept .debug Pagecache.emptyFiles s ⟨3⟩ ↔ s.KeepsPromise ⟨3⟩) :=
  ⟨⟨_, _, rfl, (touch_kept_iff .debug).1 Int _
      ⟨_, _, _, 1, 0, none, _, [.touch 5], _, Pagecache.initFn_smallFdcache, by decide, rfl⟩ 6 (by decide)⟩,
    ⟨_, _, rfl, (touch_kept_iff .debug).2.1 Unit Nat Pagecache.emptyFiles emptyFiles_opensSucceed _
      ⟨_, _, _, 1, 0, none, ⟨(), Pagecache.smallFdcache⟩, [.touch 5], _, Pagecache.initFn_smallFdcache,
        List.forall_mem_singleton.mpr (show (5 : Int64) ≠ ihashUndef by decide), rfl⟩ 6 (by decide)⟩,
    _, _, rfl, (touch_kept_iff .debug).2.2 Unit Nat Pagecache.emptyFiles emptyFiles_opensSucceed
      Pagecache.emptyFiles_succeeds _
      ⟨Pagecache.smallStart 2 0, Pagecache.smallCache 0, [.touch ⟨1⟩, .touch ⟨2⟩], _,
        ⟨_, _, _, 1, 0, none, Pagecache.initFn_smallFdcache⟩, Pagecache.init_smallCache 0, by decide, rfl⟩
      ⟨3⟩ (by decide)⟩

/-- Two buckets without chains: after touches of 2 and 1 the touch of 3 evicts 2, whose bucket is not
the bucket of 3, and finds no place. -/
theorem touch_without_place :
    ∃ cache cache' : Icache Unit, cache.Reachable .debug ∧ cache.touchFn .debug 3 = .ok (cache', none)
      ∧ ¬ Icache.TouchKept .debug cache 3 := by
  refine ⟨_, _, ⟨fun _ => ⟨0, ⟨(), none⟩, none⟩, fun _ => ⟨0, ⟨(), none⟩, none⟩, fun _ => ⟨0, none, none⟩,
    2, 0, none, _, [.touch 2, .touch 1], _, rfl, by decide, rfl⟩, rfl, ?_⟩
  rintro ⟨cache', e, htouch, -⟩
  cases htouch

end Scroller
