import Scroller.Proof.TouchGuarantee

/-!
# The page cache under failing reads and writes

A release build goes on when a page cannot be read or written. The frames that back a cached page or lie
on the stack are counted here together with the failures: no touch makes the sum larger, so every failure
costs a frame.
-/

namespace Scroller

open Icache (Entry Outcome OthersKept)

variable {W P : Type}

/-- A system with the number of its reads and writes that failed. -/
structure Counting (W : Type) where
  world : W
  failed : Nat

/-- The system with its failures counted. -/
def Os.counting (os : Os W P) : Os (Counting W) P where
  pagesz := os.pagesz
  openFile c file :=
    let (world, fd) := os.openFile c.world file
    ({ c with world }, fd)
  close c fd := { c with world := os.close c.world fd }
  pwrite c fd page n :=
    match os.pwrite c.world fd page n with
    | (world, none) => ({ world, failed := c.failed + 1 }, none)
    | (world, some writtenBytes) => ({ c with world }, some writtenBytes)
  pread c fd page n :=
    match os.pread c.world fd page n with
    | (world, none) => ({ world, failed := c.failed + 1 }, none)
    | (world, some page) => ({ c with world }, some page)

namespace Pagecache

variable {os : Os W P} {s s' : Pagecache (Counting W) P} {m m' : BucketMap Int64 (Entry (Option Nat))}
  {l fl sl sfl : List Nat} {order order' : List Int64} {key : Gid} {n : Nat}

/-- The frames that back a page or lie on the stack. -/
def frameCount (m : BucketMap Int64 (Entry (Option Nat))) (order : List Int64) (sl : List Nat) : Nat :=
  (order.countP fun k => (frameOf m k).isSome) + sl.length

/-- The caches and the stack are in order, whatever frames they hold. -/
structure Sorted (s : Pagecache W P) (m : BucketMap Int64 (Entry (Option Nat))) (l fl sl sfl : List Nat) :
    Prop where
  cache : s.cache.Inv m l fl
  stack : s.stack.Layout sl sfl
  size : s.stack.listsz = s.cache.hash.bucketsz + s.cache.hash.chainsz
  fdcache : FdInv s.fdcache

/-! ### What a call costs -/

theorem failed_fd_touch {fdcache fdcache' : Fdcache (Counting W)} (h : FdInv fdcache) {e : Option Slot}
    (gid : Gid)
    (htouch : fdcache.touchFn .release os.counting gid.fileId.toInt64 = .ok (fdcache', e)) :
    FdInv fdcache' ∧ fdcache'.world.failed = fdcache.world.failed := by
  obtain ⟨m, l, fl, hinv⟩ := h
  obtain ⟨fdcache'', e', m', l', fl', htouch', hinv', -, -, hcases⟩ :=
    Fdcache.touchFn_eq hinv .release os.counting (toInt64_fileId_ne gid)
  rw [htouch] at htouch'
  cases htouch'
  refine ⟨⟨m', l', fl', hinv'⟩, ?_⟩
  have hopened : ∀ {c : Counting W} {fd : Option Int},
      Fdcache.openFd os.counting fdcache.world gid.fileId.toInt64 = (c, fd) →
      c.failed = fdcache.world.failed := by
    intro c fd hopen
    exact (congrArg (fun r => r.1.failed) hopen).symm
  rcases hcases with ⟨-, hfail, -⟩ | ⟨gone, -, -, hfd⟩
  · exact hopened hfail
  · generalize fdcache'.world = world', e.isSome = reply at hfd
    cases hfd with
    | hit => rfl
    | fill _ hopen => exact hopened hopen
    | evict _ hopen =>
        have hkept := hopened hopen
        exact hkept
    | fail _ hopen =>
        have hkept := hopened hopen
        exact hkept

theorem frame_eq_ok {s : Pagecache W P} {pageIdx : Option Nat} {idx : Nat}
    (h : s.frame pageIdx = .ok idx) : pageIdx = some idx := by
  cases pageIdx with
  | none => cases h
  | some i =>
      rw [frame] at h
      split at h
      · cases h
        rfl
      · cases h

theorem popBack_eq_ok {list list' : Ilist2 (Option Nat)} (h : list.Layout sl sfl) {v : Option Nat}
    (hpop : list.popBack = .ok (list', v)) :
    ∃ rest back, sl = rest ++ [back] ∧ list'.Layout rest (back :: sfl) ∧ list'.listsz = list.listsz := by
  rcases List.eq_nil_or_concat sl with rfl | ⟨rest, back, rfl⟩
  · have hnone : list.backIdx = none := h.bwd
    rw [Ilist2.popBack, hnone] at hpop
    cases hpop
  · rw [List.concat_eq_append] at h ⊢
    obtain ⟨list'', hpop', hlayout, -, hsz⟩ := h.popBack
    rw [hpop] at hpop'
    cases hpop'
    exact ⟨rest, back, rfl, hlayout, hsz⟩

/-- `pagecache_read` takes a frame from the stack; it is lost where the read fails. -/
theorem read_cost (hstack : s.stack.Layout sl sfl) (hfd : FdInv s.fdcache) {pageIdx : Option Nat}
    (hread : read .release os.counting s key = .ok (s', pageIdx)) :
    s'.cache = s.cache ∧ s'.stack.listsz = s.stack.listsz ∧ FdInv s'.fdcache
      ∧ s.fdcache.world.failed ≤ s'.fdcache.world.failed
      ∧ ∃ sl' sfl', s'.stack.Layout sl' sfl'
        ∧ pageIdx.isSome.toNat + sl'.length + s'.fdcache.world.failed
          ≤ sl.length + s.fdcache.world.failed := by
  obtain ⟨⟨stack, curIdx⟩, hpop, hread⟩ := bind_eq_ok.mp hread
  obtain ⟨⟨fdcache, e⟩, htouch, hread⟩ := bind_eq_ok.mp hread
  obtain ⟨-, -, hread⟩ := bind_eq_ok.mp hread
  obtain ⟨-, -, hread⟩ := bind_eq_ok.mp hread
  obtain ⟨fd, -, hread⟩ := bind_eq_ok.mp hread
  obtain ⟨idx, hframe, hread⟩ := bind_eq_ok.mp hread
  obtain ⟨rest, back, rfl, hlayout, hsz⟩ := popBack_eq_ok hstack hpop
  obtain ⟨hfd', hfailed⟩ := failed_fd_touch hfd key htouch
  simp only [Os.counting] at hread
  rcases hos : os.pread fdcache.world.world fd (s.pages idx) key.page with ⟨world, _ | page⟩
  · rw [hos] at hread
    cases hread
    refine ⟨rfl, hsz, hfd', hfailed.ge.trans (Nat.le_succ _), rest, _, hlayout, ?_⟩
    simp only [Option.isSome_none, Bool.toNat_false, List.length_append, List.length_singleton]
    omega
  · rw [hos] at hread
    cases hread
    refine ⟨rfl, hsz, hfd', hfailed.ge, rest, _, hlayout, ?_⟩
    rw [frame_eq_ok hframe]
    simp only [Option.isSome_some, Bool.toNat_true, List.length_append, List.length_singleton]
    omega

/-- `pagecache_write` puts the frame of the page on the stack, unless the write fails. -/
theorem write_cost (hstack : s.stack.Layout sl sfl) (hfd : FdInv s.fdcache) (hcache : s.cache.hash.Refines m)
    (hwrite : write .release os.counting s key = .ok s') :
    s'.cache = s.cache ∧ s'.stack.listsz = s.stack.listsz ∧ FdInv s'.fdcache
      ∧ s.fdcache.world.failed ≤ s'.fdcache.world.failed ∧ (frameOf m key.key).isSome
      ∧ ∃ sl' sfl', s'.stack.Layout sl' sfl'
        ∧ sl'.length + s'.fdcache.world.failed ≤ 1 + sl.length + s.fdcache.world.failed := by
  obtain ⟨⟨fdcache, e⟩, htouch, hwrite⟩ := bind_eq_ok.mp hwrite
  obtain ⟨ptr, hget, hwrite⟩ := bind_eq_ok.mp hwrite
  obtain ⟨-, -, hwrite⟩ := bind_eq_ok.mp hwrite
  obtain ⟨-, -, hwrite⟩ := bind_eq_ok.mp hwrite
  obtain ⟨fd, -, hwrite⟩ := bind_eq_ok.mp hwrite
  obtain ⟨hfd', hfailed⟩ := failed_fd_touch hfd key htouch
  cases ptr with
  | none => cases hwrite
  | some ptr =>
      obtain ⟨entry, hload, hwrite⟩ := bind_eq_ok.mp hwrite
      obtain ⟨idx, hframe, hwrite⟩ := bind_eq_ok.mp hwrite
      obtain ⟨hbounds, -, -, hlookup⟩ := hcache.of_getFn hget
      rw [Ihash.load_eq hbounds] at hload
      cases hload
      have hvalue := frame_eq_ok hframe
      have hsome : (frameOf m key.key).isSome := by
        rw [frameOf, hlookup, Option.bind_some, hvalue]
        rfl
      simp only [Os.counting] at hwrite
      rcases hos : os.pwrite fdcache.world.world fd (s.pages idx) key.page with ⟨world, _ | written⟩
      · rw [hos] at hwrite
        cases hwrite
        refine ⟨rfl, rfl, hfd', hfailed.ge.trans (Nat.le_succ _), hsome, sl, sfl, hstack, ?_⟩
        simp only
        omega
      · rw [hos] at hwrite
        obtain ⟨-, -, hwrite⟩ := bind_eq_ok.mp hwrite
        obtain ⟨⟨stack, curIdx⟩, hput, hwrite⟩ := bind_eq_ok.mp hwrite
        cases hwrite
        cases sfl with
        | nil =>
            rw [hstack.putBack_full] at hput
            cases hput
            refine ⟨rfl, rfl, hfd', hfailed.ge, hsome, sl, [], hstack, ?_⟩
            simp only
            omega
        | cons new sfl =>
            obtain ⟨stack', hput', hlayout, -, hsz⟩ :=
              hstack.putBack (s.cache.hash.node ptr).data.value
            rw [hput] at hput'
            cases hput'
            refine ⟨rfl, hsz, hfd', hfailed.ge, hsome, sl ++ [new], sfl, hlayout, ?_⟩
            simp only [List.length_append, List.length_singleton]
            omega

/-! ### A touch -/

theorem countP_frameOf_congr {gone : Option Int64} {k : Int64} (hothers : OthersKept m m' k gone)
    (hkey : k ∉ order) (hgone : ∀ k' ∈ order, gone ≠ some k') :
    (order.countP fun k' => (frameOf m' k').isSome) = order.countP fun k' => (frameOf m k').isSome := by
  refine List.countP_congr fun k' hk' => ?_
  have hne : k' ≠ k := fun heq => hkey (heq ▸ hk')
  rw [frameOf, hothers k' hne, if_neg (hgone k' hk'), frameOf]

/-- A page enters with the frame that its read returned, if any. -/
theorem Sorted.enter (os : Os W P) (h : s.Sorted m l fl sl sfl) (hkey : key.key ≠ ihashUndef)
    (hlookup : m.lookup key.key = none) (hroom : m.Room key.key) :
    ∃ hash' e, s.cache.hash.touchFn key.key = .ok (hash', some e)
      ∧ ∀ s' reply, Pagecache.enter .release os.counting
            { s with cache := { s.cache with hash := hash' } } (some e) key = .ok (s', reply) →
          s'.stack.listsz = s.stack.listsz ∧ s.fdcache.world.failed ≤ s'.fdcache.world.failed
            ∧ ∃ m' l' fl' sl' sfl', s'.Sorted m' l' fl' sl' sfl'
            ∧ frameCount m' (l'.map s'.cache.list.values) sl' + s'.fdcache.world.failed
              ≤ frameCount m (l.map s.cache.list.values) sl + s.fdcache.world.failed := by
  obtain ⟨hash', e, htouch, hbounds, henter⟩ := h.cache.enter .release hkey hlookup hroom
  refine ⟨hash', e, htouch, fun s' reply hok => ?_⟩
  obtain ⟨⟨s₁, pageIdx⟩, hread, hok⟩ := bind_eq_ok.mp hok
  obtain ⟨n, hload, hok⟩ := bind_eq_ok.mp hok
  obtain ⟨-, -, hok⟩ := bind_eq_ok.mp hok
  obtain ⟨cache, hput, hok⟩ := bind_eq_ok.mp hok
  cases hok
  obtain ⟨hcache₁, hsz₁, hfd₁, hmono, sl', sfl', hstack₁, hcost⟩ := 
    read_cost (s := { s with cache := { s.cache with hash := hash' } }) h.stack h.fdcache hread
  simp only [hcache₁, Ihash.load_eq hbounds] at hload hput
  cases hload
  obtain ⟨cache', m', l', fl', hput', hinv, hshape, hget, horder, hothers, hvalue⟩ :=
    henter _ (Or.inr ⟨{ (hash'.node e).data with value := pageIdx }, rfl⟩)
  rw [hput] at hput'
  cases hput'
  have hframe : frameOf m' key.key = pageIdx := by
    rw [frameOf, (hinv.hash.of_getFn hget).2.2.2, Option.bind_some, hvalue, Ihash.setData,
      Ihash.node_modify_self]
  refine ⟨hsz₁, hmono, m', l', fl', sl', sfl', ⟨hinv, hstack₁, ?_, hfd₁⟩, ?_⟩
  · change s₁.stack.listsz = cache.hash.bucketsz + cache.hash.chainsz
    rw [hsz₁, hshape.bucketsz, hshape.chainsz]
    exact h.size
  · have habsent : key.key ∉ l.map s.cache.list.values := fun hin => h.cache.mem_order.mp hin hlookup
    have hsame := countP_frameOf_congr hothers habsent (by simp)
    change frameCount m' (l'.map cache.list.values) sl' + s₁.fdcache.world.failed ≤ _
    rw [frameCount, frameCount, horder, List.countP_cons, hsame, hframe]
    cases pageIdx with
    | none =>
        simp only [Option.isSome_none, Bool.toNat_false, Bool.false_eq_true, if_false] at hcost ⊢
        omega
    | some idx =>
        simp only [Option.isSome_some, Bool.toNat_true, if_true] at hcost ⊢
        omega

/-- **The cost of a touch.** A touch that returns has lost a frame for every read or write that failed
during it. -/
theorem Sorted.touchFn (h : s.Sorted m l fl sl sfl) (hkey : key.key ≠ ihashUndef) {reply : Option Slot}
    (htouch : Pagecache.touchFn .release os.counting s key = .ok (s', reply)) :
    s'.stack.listsz = s.stack.listsz ∧ s.fdcache.world.failed ≤ s'.fdcache.world.failed
      ∧ ∃ m' l' fl' sl' sfl', s'.Sorted m' l' fl' sl' sfl'
      ∧ frameCount m' (l'.map s'.cache.list.values) sl' + s'.fdcache.world.failed
        ≤ frameCount m (l.map s.cache.list.values) sl + s.fdcache.world.failed := by
  cases hlookup : m.lookup key.key with
  | some entry =>
      obtain ⟨e, hget, -⟩ := h.cache.hash.getFn_some hlookup
      obtain ⟨list', init, idx, rest, rfl, hval, -, hmove, hinv, hvalues⟩ :=
        h.cache.moveFront .release hget
      rw [Pagecache.touchFn, hget] at htouch
      simp only [bind, Except.bind, Ihash.load_eq (h.cache.hash.of_getFn hget).1, hmove] at htouch
      cases htouch
      refine ⟨rfl, Nat.le_refl _, m, _, fl, sl, sfl, ⟨hinv, h.stack, h.size, h.fdcache⟩, ?_⟩
      have hperm : (idx :: (init ++ rest)).Perm (init ++ idx :: rest) := List.perm_middle.symm
      have hcount := (hperm.map s.cache.list.values).countP_eq fun k => (frameOf m k).isSome
      apply Nat.le_of_eq
      change frameCount m ((idx :: (init ++ rest)).map list'.values) sl + s.fdcache.world.failed = _
      rw [hvalues, frameCount, frameCount, hcount]
  | none =>
      have habsent := h.cache.hash.getFn_none hlookup
      rw [Pagecache.touchFn, habsent] at htouch
      by_cases hroom : m.Room key.key
      · obtain ⟨hash', e, hnew, henter⟩ := h.enter os hkey hlookup hroom
        simp only [bind, Except.bind, hnew] at htouch
        exact henter s' reply htouch
      · obtain ⟨list₁, hash₁, lru, l₁, fl₁, hnotouch, hpop, -, -, ⟨slot, hlru⟩, herase, hinv₁, hshape₁,
          horder₁, hlookup₁, hothers₁⟩ := h.cache.makeRoom .release hlookup hroom
        have hwrites := htouch
        simp only [bind, Except.bind, hnotouch, hpop, Build.assert] at hwrites
        cases hwrite : write .release os.counting
            { s with cache := { s.cache with list := list₁ } } ⟨lru.toUInt64⟩ with
        | error e =>
            rw [hwrite] at hwrites
            cases hwrites
        | ok s₁ =>
            rw [hwrite] at hwrites
            have hkeyeq : Gid.key ⟨lru.toUInt64⟩ = lru := by rw [Gid.key, Int64.toInt64_toUInt64]
            obtain ⟨hcache₁, hsz₁, hfd₁, hmono, hsome, sl₁, sfl₁, hstack₁, hcost⟩ :=
              write_cost (s := { s with cache := { s.cache with list := list₁ } }) h.stack h.fdcache
                h.cache.hash hwrite
            rw [hkeyeq] at hsome
            have herase₁ : s₁.cache.hash.eraseFn lru = .ok (hash₁, true) := by
              rw [hcache₁]
              exact herase
            have hlist : s₁.cache.list = list₁ := by rw [hcache₁]
            have hs₁ : Sorted { s₁ with cache := ⟨hash₁, list₁⟩ } (m.erase lru) l₁ fl₁ sl₁ sfl₁ := by
              refine ⟨hinv₁, hstack₁, ?_, hfd₁⟩
              change s₁.stack.listsz = hash₁.bucketsz + hash₁.chainsz
              rw [hsz₁, hshape₁.bucketsz, hshape₁.chainsz]
              exact h.size
            simp only [herase₁] at hwrites
            by_cases hroom₁ : (m.erase lru).Room key.key
            · obtain ⟨hash', e, hnew, henter⟩ := hs₁.enter os hkey hlookup₁ hroom₁
              have hnew' : hash₁.touchFn key.key = .ok (hash', some e) := hnew
              simp only [hnew', hlist] at hwrites
              obtain ⟨hsz', hmono', m', l', fl', sl', sfl', hsorted, htotal⟩ := henter s' reply hwrites
              refine ⟨hsz'.trans hsz₁, hmono.trans hmono', m', l', fl', sl', sfl', hsorted, htotal.trans ?_⟩
              have hnodup := h.cache.nodup_order
              rw [horder₁] at hnodup
              have habsent₁ : key.key ∉ l₁.map list₁.values := fun hin =>
                hinv₁.mem_order.mp hin hlookup₁
              have hsame := countP_frameOf_congr hothers₁ habsent₁ (Icache.ne_lru_of_nodup hnodup)
              simp only [frameCount, horder₁, List.countP_append, List.countP_singleton, hsome, hsame,
                if_true]
              have hcost' : sl₁.length + s₁.fdcache.world.failed
                  ≤ 1 + sl.length + s.fdcache.world.failed := hcost
              omega
            · have hfull := hinv₁.hash.touchFn_of_not_room hlookup₁ hroom₁
              simp only [hfull] at hwrites
              cases hwrites

/-! ### Runs -/

/-- The caches and the stack are in order, and hold at most the `n` frames there are. -/
def Bounded (n : Nat) (s : Pagecache W P) : Prop :=
  s.stack.listsz = n ∧ ∃ m l fl sl sfl, s.Sorted m l fl sl sfl
    ∧ frameCount m (l.map s.cache.list.values) sl ≤ n

theorem bounded_of_inv {s : Pagecache W P} (h : s.Inv m l fl sl sfl) : s.Bounded s.stack.listsz := by
  refine ⟨rfl, m, l, fl, sl, sfl, ⟨h.cache, h.stack, h.size, h.fdcache⟩, ?_⟩
  have hlen := h.length_frames
  have hle := List.countP_le_length (p := fun k => (frameOf m k).isSome) (l := l.map s.cache.list.values)
  rw [List.length_map] at hle
  rw [frameCount]
  omega

theorem Bounded.step (h : s.Bounded n) {op : Op} (hop : op.Valid) {reply : Option Slot}
    (hstep : step .release os.counting s op = .ok (s', reply)) : s'.Bounded n := by
  obtain ⟨hn, m, l, fl, sl, sfl, hsorted, hcount⟩ := h
  cases op with
  | touch key =>
      obtain ⟨hsz, hmono, m', l', fl', sl', sfl', hsorted', hcost⟩ := hsorted.touchFn hop hstep
      refine ⟨hsz.trans hn, m', l', fl', sl', sfl', hsorted', ?_⟩
      omega
  | clear hashFn =>
      obtain ⟨s'', hclear, hret⟩ := bind_eq_ok.mp hstep
      cases hret
      obtain ⟨cs, free, hlayout, -⟩ := hsorted.cache.hash
      obtain ⟨stack, sl', sfl', hfill, hlayout', hvalues, hsz⟩ := fillStack_eq s.stack
      rw [hsorted.size] at hfill
      simp only [clear, bind, Except.bind, hfill] at hclear
      cases hclear
      have hinv := inv_of_empty s.cache hlayout.pos hsorted.cache.size hashFn hlayout'
        (by rw [hsz]; exact hvalues) (hsz.trans hsorted.size) hsorted.fdcache s.pages
      have hbounded := bounded_of_inv hinv
      rwa [hsz, hn] at hbounded

theorem Reachable.bounded {s : Pagecache (Counting W) P} (h : s.Reachable .release os.counting) :
    s.Bounded s.stack.listsz := by
  obtain ⟨start, s₀, ops, hist, ⟨buckets, chains, nodes, bucketsz, chainsz, hashFn, hfd⟩, hinit, hops,
    hexec⟩ := h
  obtain ⟨mfd, flfd, hfdinv⟩ := Icache.inv_init hfd
  obtain ⟨-, m, l, fl, sl, sfl, hinv⟩ := holds_init ⟨mfd, [], flfd, hfdinv⟩ hinit
  have hbounded := Machine.exec_invariant (fun _ s => s.Bounded s₀.stack.listsz) Op.Valid []
    (fun _ _ _ _ _ hbounded hvalid hstep => hbounded.step hvalid hstep) (bounded_of_inv hinv) hops hexec
  rw [hbounded.1]
  exact hbounded

/-- Where the frames are partitioned, all of them are counted. -/
theorem Sorted.frameCount_eq {s : Pagecache W P} (h : s.Sorted m l fl sl sfl)
    (hpartition : s.FramesPartition n) : frameCount m (l.map s.cache.list.values) sl = n := by
  obtain ⟨keys, stackIdxs, hnodup, hkeys, hchain, hperm⟩ := hpartition
  have hstack : stackIdxs = sl := hchain.unique h.stack.fwd
  have horder : keys.Perm (l.map s.cache.list.values) := by
    refine (List.perm_ext_iff_of_nodup hnodup h.cache.nodup_order).mpr fun key => ?_
    rw [hkeys, h.cache.mem_order, h.cache.hash.present_iff]
  have hall : ∀ key ∈ keys, (frameOf m key).isSome := by
    intro key hkey
    obtain ⟨e, hget⟩ := (hkeys key).mp hkey
    have hmem := hperm.mem_iff.mp (List.mem_append_left _ (List.mem_map_of_mem (f := s.pageIdx) hkey))
    obtain ⟨idx, -, hidx⟩ := List.mem_map.mp hmem
    rw [pageIdx, hget] at hidx
    have hvalue : (s.cache.hash.node e).data.value = some idx := hidx.symm
    rw [frameOf, (h.cache.hash.of_getFn hget).2.2.2, Option.bind_some, hvalue]
    rfl
  have hlen := hperm.length_eq
  rw [List.length_append, List.length_map, List.length_map, List.length_map, List.length_range, hstack]
    at hlen
  rw [frameCount, ← horder.countP_eq, List.countP_eq_length.mpr hall, hlen]

/-- **Failing reads and writes.** In every state that runs of valid calls reach, with whatever reads and
writes failed before: a touch that returns although a read or a write failed during it has lost a frame. -/
theorem failed_touch_loses_frame {s : Pagecache (Counting W) P} (h : s.Reachable .release os.counting)
    (hkey : key.key ≠ ihashUndef) {reply : Option Slot}
    (htouch : touchFn .release os.counting s key = .ok (s', reply))
    (hfailed : s.fdcache.world.failed < s'.fdcache.world.failed) :
    ¬ s'.FramesPartition s.stack.listsz := by
  obtain ⟨-, m, l, fl, sl, sfl, hsorted, hcount⟩ := h.bounded
  obtain ⟨-, -, m', l', fl', sl', sfl', hsorted', hcost⟩ := hsorted.touchFn hkey htouch
  intro hpartition
  have hall := hsorted'.frameCount_eq hpartition
  omega

/-! ### Files that fail -/

/-- A system whose files open, but can be neither read nor written. -/
def failingFiles {P : Type} : Os Unit P where
  pagesz := 4096
  openFile world _ := (world, some 3)
  close world _ := world
  pwrite world _ _ _ := (world, none)
  pread world _ _ _ := (world, none)

/-- A system whose files open and can be read, but not written. -/
def readOnlyFiles {P : Type} : Os Unit P :=
  { failingFiles with pread := fun world _ page _ => (world, some page) }

def countingStart (bucketsz : Nat) (page : P) : Start (Counting Unit) P :=
  { smallStart bucketsz page with fdcache := ⟨⟨(), 0⟩, smallFdcache⟩ }

/-- The first page cannot be read. -/
theorem failed_touch_loses_frame_read :
    ∃ s₀ s e, (countingStart 1 0).init = .ok (some s₀)
      ∧ touchFn .release failingFiles.counting s₀ ⟨1⟩ = .ok (s, some e)
      ∧ s₀.fdcache.world.failed < s.fdcache.world.failed
      ∧ ¬ s.FramesPartition s₀.stack.listsz := by
  refine ⟨_, _, _, rfl, rfl, Nat.lt_succ_self 0, ?_⟩
  apply failed_touch_loses_frame _ (by decide : Gid.key ⟨1⟩ ≠ ihashUndef)
    (rfl : touchFn .release failingFiles.counting _ ⟨1⟩ = _) (Nat.lt_succ_self 0)
  exact ⟨countingStart 1 0, _, [], [], ⟨_, _, _, 1, 0, none, initFn_smallFdcache⟩, rfl, nofun, rfl⟩

/-- The page 1 cannot be written when the page 3 needs its place: it is cached no more, and its frame
is lost. -/
theorem unwritten_page_loses_frame :
    ∃ s₀ s₁ s₂ e₁ e₂, (countingStart 2 0).init = .ok (some s₀)
      ∧ touchFn .release readOnlyFiles.counting s₀ ⟨1⟩ = .ok (s₁, some e₁)
      ∧ touchFn .release readOnlyFiles.counting s₁ ⟨3⟩ = .ok (s₂, some e₂)
      ∧ s₁.fdcache.world.failed < s₂.fdcache.world.failed
      ∧ (∀ key e, s₂.cache.hash.getFn key = .ok (some e) → key = 3) ∧ ¬ s₂.FramesPartition 2 := by
  refine ⟨_, _, _, _, _, rfl, rfl, rfl, Nat.lt_succ_self 0, ?_⟩
  generalize hs : Pagecache.mk _ _ _ _ = s
  have honly : ∀ key e, s.cache.hash.getFn key = .ok (some e) → key = 3 := by
    intro key e hget
    rw [Ihash.getFn] at hget
    have hidx : s.cache.hash.idx key = 0 ∨ s.cache.hash.idx key = 1 := by
      subst hs
      exact Nat.mod_two_eq_zero_or_one _
    rcases hidx with hidx | hidx
    · rw [hidx] at hget
      subst hs
      cases hget
    · rw [hidx] at hget
      subst hs
      have hloop : (if key = (3 : Int64) then Except.ok (some (Slot.bucket 1)) else .ok none)
          = (.ok (some e) : Except Fault (Option Slot)) := hget
      split at hloop
      · assumption
      · cases hloop
  have hfront : s.stack.frontIdx = none := by
    subst hs
    rfl
  refine ⟨honly, ?_⟩
  rintro ⟨keys, stackIdxs, hnodup, hkeys, hchain, hperm⟩
  rw [hfront] at hchain
  have hstack : stackIdxs = [] := IndexChain.isChain_none.mp hchain
  have hall : ∀ key ∈ keys, key ∈ [(3 : Int64)] := by
    intro key hkey
    obtain ⟨e, he⟩ := (hkeys key).mp hkey
    exact List.mem_singleton.mpr (honly key e he)
  have hle := (List.subperm_of_subset hnodup hall).length_le
  have hlen := hperm.length_eq
  simp [hstack] at hlen hle
  omega

end Pagecache

end Scroller
