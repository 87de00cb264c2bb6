import Scroller.Proof.FileServing
import Scroller.Proof.PagecacheFailures

/-!
# Pages between the cache and the files

What is held for a page is its frame while it is cached and its place in a file otherwise. A touch moves pages
in and out, and nothing that is held is lost by it.
-/

namespace Scroller.Pagecache

open Icache (Entry Outcome OthersKept)

variable {W P : Type} {os : Os W P} {files : os.Files} {build : Build} {s s' : Pagecache W P}
  {m m' : BucketMap Int64 (Entry (Option Nat))} {l fl sl sfl : List Nat} {key : Gid}

/-- The page with an id in the files. -/
def onDisk (files : os.Files) (s : Pagecache W P) (gid : Gid) : Option P := files.page s.fdcache.world gid

/-- What is held for a page. -/
def held (files : os.Files) (s : Pagecache W P) (gid : Gid) : Option P :=
  match s.pageIdx gid.key with
  | some idx => some (s.pages idx)
  | none => s.onDisk files gid

theorem key_injective {g g' : Gid} (h : g.key = g'.key) : g = g' := by
  have hfull := congrArg Int64.toUInt64 h
  rw [Gid.key, Gid.key, UInt64.toUInt64_toInt64, UInt64.toUInt64_toInt64] at hfull
  cases g
  cases g'
  exact congrArg Gid.mk hfull

theorem key_mk (k : Int64) : Gid.key ⟨k.toUInt64⟩ = k := by rw [Gid.key, Int64.toInt64_toUInt64]

theorem Inv.pageIdx_eq (h : s.Inv m l fl sl sfl) (k : Int64) : s.pageIdx k = frameOf m k := by
  cases hlookup : m.lookup k with
  | none =>
      rw [pageIdx, h.cache.hash.getFn_none hlookup, frameOf, hlookup]
      rfl
  | some entry =>
      obtain ⟨e, hget, hdata⟩ := h.cache.hash.getFn_some hlookup
      rw [pageIdx, hget, frameOf, hlookup, ← hdata]
      rfl

/-! ### One page -/

/-- A page of a file is written, and no other page that the files had is changed. -/
structure Written (files : os.Files) (world world' : W) (gid : Gid) (page : P) : Prop where
  written : files.page world' gid = some page
  kept : ∀ {other p}, other ≠ gid → files.page world other = some p → files.page world' other = some p

theorem written_of_pwrite {world world' : W} {fd : Int} {page : P} (hrefers : files.refers world fd = some (gid2hex key))
    (hwrite : os.pwrite world fd page key.page = (world', some os.pagesz)) :
    files.refers world' = files.refers world ∧ Written files world world' key page := by
  obtain ⟨hsame, hwritten, hkept⟩ := files.pwrite hwrite hrefers
  refine ⟨hsame, hwritten, ?_⟩
  intro other p hother hp
  exact hkept (ne_of_location hother) hp

theorem of_read (hos : os.PageIoSucceeds) (hserves : s.fdcache.Serves files) {pageIdx : Option Nat}
    (hread : read build os s key = .ok (s', pageIdx)) :
    ∃ idx, pageIdx = some idx ∧ s'.cache = s.cache ∧ s'.fdcache.Serves files
      ∧ files.stored s'.fdcache.world = files.stored s.fdcache.world
      ∧ s'.pages = Function.update s.pages idx ((s.onDisk files key).getD (s.pages idx)) := by
  obtain ⟨⟨stack, curIdx⟩, -, hread⟩ := bind_eq_ok.mp hread
  obtain ⟨⟨fdcache, e⟩, htouch, hread⟩ := bind_eq_ok.mp hread
  obtain ⟨-, -, hread⟩ := bind_eq_ok.mp hread
  obtain ⟨-, -, hread⟩ := bind_eq_ok.mp hread
  obtain ⟨fd, hfd, hread⟩ := bind_eq_ok.mp hread
  obtain ⟨idx, hframe, hread⟩ := bind_eq_ok.mp hread
  obtain ⟨hserves', hstored, hrefers⟩ := hserves.touch (toInt64_fileId_ne key) htouch
  have hname := hrefers fd hfd
  rw [fileName_fileId] at hname
  rcases hpread : os.pread fdcache.world fd (s.pages idx) key.page with ⟨world, _ | page⟩
  · have hsome := hos.pread fdcache.world fd (s.pages idx) key.page
    rw [hpread] at hsome
    exact absurd rfl hsome
  · simp only [hpread] at hread
    cases hread
    obtain ⟨hrefers', hstored', hpage⟩ := files.pread hpread hname
    refine ⟨idx, frame_eq_ok hframe, rfl, hserves'.setWorld hrefers', hstored'.trans hstored, ?_⟩
    rw [hpage, hstored]
    rfl

theorem of_write (hos : os.PageIoSucceeds) (hserves : s.fdcache.Serves files) (hrefines : s.cache.hash.Refines m)
    (hwrite : write build os s key = .ok s') :
    ∃ idx, frameOf m key.key = some idx ∧ s'.cache = s.cache ∧ s'.fdcache.Serves files ∧ s'.pages = s.pages
      ∧ Written files s.fdcache.world s'.fdcache.world key (s.pages idx) := by
  obtain ⟨⟨fdcache, e⟩, htouch, hwrite⟩ := bind_eq_ok.mp hwrite
  obtain ⟨ptr, hget, hwrite⟩ := bind_eq_ok.mp hwrite
  obtain ⟨-, -, hwrite⟩ := bind_eq_ok.mp hwrite
  obtain ⟨-, -, hwrite⟩ := bind_eq_ok.mp hwrite
  obtain ⟨fd, hfd, hwrite⟩ := bind_eq_ok.mp hwrite
  cases ptr with
  | none => cases hwrite
  | some ptr =>
      obtain ⟨hbounds, -, -, hlookup⟩ := hrefines.of_getFn hget
      obtain ⟨entry, hload, hpage⟩ := bind_eq_ok.mp hwrite
      rw [Ihash.load_eq hbounds] at hload
      cases hload
      obtain ⟨idx, hframe, hwrite⟩ := bind_eq_ok.mp hpage
      obtain ⟨hserves', hstored, hrefers⟩ := hserves.touch (toInt64_fileId_ne key) htouch
      have hname := hrefers fd hfd
      rw [fileName_fileId] at hname
      have hpwrite := hos.pwrite fdcache.world fd (s.pages idx) key.page
      rcases hos : os.pwrite fdcache.world fd (s.pages idx) key.page with ⟨world, written⟩
      rw [hos] at hpwrite
      cases hpwrite
      obtain ⟨hrefers', hpages⟩ := written_of_pwrite hname hos
      simp only [hos] at hwrite
      obtain ⟨-, -, hwrite⟩ := bind_eq_ok.mp hwrite
      obtain ⟨⟨stack, curIdx⟩, -, hwrite⟩ := bind_eq_ok.mp hwrite
      obtain ⟨-, -, hwrite⟩ := bind_eq_ok.mp hwrite
      cases hwrite
      refine ⟨idx, ?_, rfl, hserves'.setWorld hrefers', rfl, hpages.written, ?_⟩
      · rw [frameOf, hlookup, Option.bind_some]
        exact frame_eq_ok hframe
      · intro other p hother hp
        refine hpages.kept hother ?_
        rw [Os.Files.page, hstored]
        exact hp

theorem of_flush (hos : os.PageIoSucceeds) (h : s.Inv m l fl sl sfl) (hserves : s.fdcache.Serves files)
    {n : Option Nat} (hflush : s.flush build os key = .ok (s', n)) :
    ∃ idx, frameOf m key.key = some idx ∧ n = some 0 ∧ s'.fdcache.Serves files
      ∧ s' = { s with fdcache := s'.fdcache } ∧ Written files s.fdcache.world s'.fdcache.world key (s.pages idx) := by
  obtain ⟨⟨fdcache, e⟩, htouch, hflush⟩ := bind_eq_ok.mp hflush
  obtain ⟨ptr, hget, hflush⟩ := bind_eq_ok.mp hflush
  obtain ⟨-, -, hflush⟩ := bind_eq_ok.mp hflush
  obtain ⟨-, -, hflush⟩ := bind_eq_ok.mp hflush
  obtain ⟨fd, hfd, hflush⟩ := bind_eq_ok.mp hflush
  cases ptr with
  | none => cases hflush
  | some ptr =>
      obtain ⟨hbounds, -, -, hlookup⟩ := h.cache.hash.of_getFn hget
      obtain ⟨entry, hload, hpage⟩ := bind_eq_ok.mp hflush
      rw [Ihash.load_eq hbounds] at hload
      cases hload
      obtain ⟨idx, hframe, hflush⟩ := bind_eq_ok.mp hpage
      obtain ⟨hserves', hstored, hrefers⟩ := hserves.touch (toInt64_fileId_ne key) htouch
      have hname := hrefers fd hfd
      rw [fileName_fileId] at hname
      have hpwrite := hos.pwrite fdcache.world fd (s.pages idx) key.page
      rcases hos : os.pwrite fdcache.world fd (s.pages idx) key.page with ⟨world, written⟩
      rw [hos] at hpwrite
      cases hpwrite
      obtain ⟨hrefers', hpages⟩ := written_of_pwrite hname hos
      rw [hos] at hflush
      cases hflush
      refine ⟨idx, ?_, if_pos rfl, hserves'.setWorld hrefers', rfl, hpages.written, ?_⟩
      · rw [frameOf, hlookup, Option.bind_some]
        exact frame_eq_ok hframe
      · intro other p hother hp
        refine hpages.kept hother ?_
        rw [Os.Files.page, hstored]
        exact hp

theorem node_of_load {V : Type} {hash : Ihash V} {e : Slot} {n : Ihash.Node V} (h : hash.load e = .ok n) :
    n = hash.node e := by
  cases e with
  | bucket idx =>
      rw [Ihash.load] at h
      split at h
      · exact (Except.ok.inj h).symm
      · cases h
  | chain idx =>
      rw [Ihash.load] at h
      split at h
      · exact (Except.ok.inj h).symm
      · cases h

/-- The entry of a page that was brought in has the frame that it was read into. -/
theorem of_enter {e : Slot} {reply : Option Slot} (henter : enter build os s (some e) key = .ok (s', reply)) :
    ∃ s₁ pageIdx, read build os s key = .ok (s₁, pageIdx) ∧ s'.pages = s₁.pages ∧ s'.fdcache = s₁.fdcache
      ∧ (s'.cache.hash.node e).data.value = pageIdx ∧ reply = some e := by
  obtain ⟨⟨s₁, pageIdx⟩, hread, henter⟩ := bind_eq_ok.mp henter
  obtain ⟨n, -, henter⟩ := bind_eq_ok.mp henter
  obtain ⟨-, -, henter⟩ := bind_eq_ok.mp henter
  obtain ⟨cache, hput, henter⟩ := bind_eq_ok.mp henter
  cases henter
  obtain ⟨⟨list, idx⟩, -, hput⟩ := bind_eq_ok.mp hput
  obtain ⟨n', hload, hput⟩ := bind_eq_ok.mp hput
  obtain ⟨-, -, hput⟩ := bind_eq_ok.mp hput
  cases hput
  refine ⟨s₁, pageIdx, hread, rfl, rfl, ?_, rfl⟩
  rw [node_of_load hload]
  simp only [Ihash.setData, Ihash.node_modify_self]

/-! ### A touch -/

theorem Inv.held_of_frame (h : s.Inv m l fl sl sfl) {gid : Gid} {idx : Nat} (hframe : frameOf m gid.key = some idx) :
    s.held files gid = some (s.pages idx) := by
  rw [held, h.pageIdx_eq, hframe]

theorem Inv.held_of_no_frame (h : s.Inv m l fl sl sfl) {gid : Gid} (hframe : frameOf m gid.key = none) :
    s.held files gid = s.onDisk files gid := by
  rw [held, h.pageIdx_eq, hframe]

/-- A page was brought in, after another one may have been written back: what was held is held. -/
theorem Inv.held_of_moved (h : s.Inv m l fl sl sfl) {l' fl' sl' sfl' : List Nat} (h' : s'.Inv m' l' fl' sl' sfl')
    {gone : Option Int64} (habsent : m.lookup key.key = none) (hothers : OthersKept m m' key.key gone)
    (hpages : ∀ k ≠ key.key, ∀ i, frameOf m' k = some i → s'.pages i = s.pages i) {idx : Nat} {frame : P} {world : W}
    (hframe : frameOf m' key.key = some idx) (hread : s'.pages idx = (files.page world key).getD frame)
    (hstored : files.stored s'.fdcache.world = files.stored world)
    (hdisk : ∀ {gid p}, frameOf m gid.key = none ∨ gone = some gid.key → s.held files gid = some p →
      files.page world gid = some p) {gid : Gid} {p : P} (hp : s.held files gid = some p) :
    s'.held files gid = some p := by
  have hondisk : s'.onDisk files gid = files.page world gid := by rw [onDisk, Os.Files.page, hstored, Os.Files.page]
  by_cases hgid : gid = key
  · subst hgid
    have hnone : frameOf m gid.key = none := by
      rw [frameOf, habsent]
      rfl
    rw [h'.held_of_frame hframe, hread, hdisk (Or.inl hnone) hp]
    rfl
  · have hne : gid.key ≠ key.key := fun heq => hgid (key_injective heq)
    have hkept : frameOf m' gid.key = if gone = some gid.key then none else frameOf m gid.key := by
      rw [frameOf, hothers _ hne]
      split
      · rfl
      · rfl
    by_cases hgone : gone = some gid.key
    · rw [if_pos hgone] at hkept
      rw [h'.held_of_no_frame hkept, hondisk]
      exact hdisk (Or.inr hgone) hp
    · rw [if_neg hgone] at hkept
      cases hold : frameOf m gid.key with
      | none =>
          rw [hold] at hkept
          rw [h'.held_of_no_frame hkept, hondisk]
          exact hdisk (Or.inl hold) hp
      | some i =>
          rw [hold] at hkept
          rw [h'.held_of_frame hkept, hpages _ hne i hkept, ← h.held_of_frame hold]
          exact hp

/-- The frame that a page was read into. -/
theorem of_enter_files (hos : os.PageIoSucceeds) (hserves : s.fdcache.Serves files) {e : Slot} {reply : Option Slot}
    (henter : enter build os s (some e) key = .ok (s', reply)) {l fl sl sfl : List Nat} (h' : s'.Inv m' l fl sl sfl)
    {e' : Slot} (hreply : reply = some e') (hget : s'.cache.hash.getFn key.key = .ok (some e')) :
    ∃ idx, frameOf m' key.key = some idx ∧ s'.fdcache.Serves files
      ∧ files.stored s'.fdcache.world = files.stored s.fdcache.world
      ∧ s'.pages idx = (s.onDisk files key).getD (s.pages idx) := by
  obtain ⟨s₁, pageIdx, hread, hpages, hfdcache, hvalue, hsame⟩ := of_enter henter
  obtain ⟨idx, rfl, -, hserves₁, hstored₁, hpages₁⟩ := of_read hos hserves hread
  rw [hreply] at hsame
  cases hsame
  refine ⟨idx, ?_, hfdcache ▸ hserves₁, by rw [hfdcache, hstored₁], ?_⟩
  · rw [frameOf, (h'.cache.hash.of_getFn hget).2.2.2, Option.bind_some]
    exact hvalue
  · rw [hpages, hpages₁, Function.update_self]

/-- **A touch loses nothing.** What was held for a page is held afterwards, and the files have what they had or
what was held. -/
theorem Inv.of_touchFn (h : s.Inv m l fl sl sfl) (hserves : s.fdcache.Serves files) (hos : os.PageIoSucceeds)
    (hkey : key.key ≠ ihashUndef) {reply : Option Slot} (htouch : Pagecache.touchFn build os s key = .ok (s', reply)) :
    ∃ m' l' fl' sl' sfl' e idx, reply = some e ∧ s'.Inv m' l' fl' sl' sfl' ∧ s'.fdcache.Serves files
      ∧ s'.cache.hash.getFn key.key = .ok (some e) ∧ frameOf m' key.key = some idx
      ∧ (∀ gid p, s.held files gid = some p → s'.held files gid = some p)
      ∧ ∀ gid p, s.onDisk files gid = some p →
          ∃ q, s'.onDisk files gid = some q ∧ (q = p ∨ s.held files gid = some q) := by
  rcases h.touchFn build hos hkey with ⟨s₂, e, m', l', fl', sl', sfl', gone, htouch', hinv', -, hget, hout, hothers,
    -, hpages⟩ | ⟨hcrash | hcrash, -⟩
  swap
  · rw [hcrash] at htouch
    cases htouch
  swap
  · rw [hcrash] at htouch
    cases htouch
  rw [htouch] at htouch'
  cases htouch'
  cases hlookup : m.lookup key.key with
  | some entry =>
      obtain ⟨list', l₁, e₁, hhit, hinv₁, -, -⟩ := h.touchFn_hit build os hlookup
      rw [htouch] at hhit
      cases hhit
      obtain ⟨idx, hidx, -⟩ := hinv₁.cached_frame (hinv₁.cache.mem_order.mpr (by rw [hlookup]; simp))
      exact ⟨m, l₁, fl, sl, sfl, e, idx, rfl, hinv₁, hserves, hget, hidx, fun _ _ hp => hp,
        fun _ p hp => ⟨p, hp, Or.inl rfl⟩⟩
  | none =>
      have habsent := h.cache.hash.getFn_none hlookup
      have henters := htouch
      rw [Pagecache.touchFn, habsent] at henters
      by_cases hroom : m.Room key.key
      · obtain ⟨hash', e₁, hnew, -, -⟩ := h.cache.enter build hkey hlookup hroom
        simp only [bind, Except.bind, hnew] at henters
        obtain ⟨idx, hidx, hserves', hstored, hread⟩ :=
          of_enter_files (s := { s with cache := { s.cache with hash := hash' } }) hos hserves henters hinv' rfl hget
        refine ⟨m', l', fl', sl', sfl', e, idx, rfl, hinv', hserves', hget, hidx, ?_, ?_⟩
        · intro gid p hp
          refine h.held_of_moved hinv' hlookup hothers hpages hidx hread hstored ?_ hp
          intro gid p hgone hp
          have hnone : frameOf m gid.key = none := by
            rcases hgone with hnone | hgone
            · exact hnone
            · generalize l'.map s'.cache.list.values = order' at hout
              cases hout with
              | hit => cases hgone
              | fill => cases hgone
              | evict _ hfull => exact absurd hroom hfull
          rw [h.held_of_no_frame hnone] at hp
          exact hp
        · intro gid p hp
          refine ⟨p, ?_, Or.inl rfl⟩
          rw [onDisk, Os.Files.page, hstored]
          exact hp
      · obtain ⟨list₁, hash₁, lru, l₁, fl₁, hnotouch, hpop, hassert, -, ⟨slot, hlru⟩, herase, hinv₁, hshape₁, horder₁,
          hlookup₁, -⟩ := h.cache.makeRoom build hlookup hroom
        simp only [bind, Except.bind, hnotouch, hpop, hassert] at henters
        cases hwrite : write build os { s with cache := { s.cache with list := list₁ } } ⟨lru.toUInt64⟩ with
        | error err =>
            rw [hwrite] at henters
            cases henters
        | ok s₁ =>
            rw [hwrite] at henters
            obtain ⟨i, hi, hcache₁, hserves₁, hpages₁, hwritten⟩ :=
              of_write (s := { s with cache := { s.cache with list := list₁ } }) hos hserves h.cache.hash hwrite
            rw [key_mk] at hi
            have herase₁ : s₁.cache.hash.eraseFn lru = .ok (hash₁, true) := by
              rw [hcache₁]
              exact herase
            simp only [herase₁] at henters
            by_cases hroom₁ : (m.erase lru).Room key.key
            swap
            · simp only [hinv₁.hash.touchFn_of_not_room hlookup₁ hroom₁] at henters
              cases build with
              | debug => cases henters
              | release => cases henters
            obtain ⟨hash', e₁, hnew, -, -⟩ := hinv₁.enter build hkey hlookup₁ hroom₁
            have hnew' : hash₁.touchFn key.key = .ok (hash', some e₁) := hnew
            simp only [hnew'] at henters
            rw [Build.assert_of build (by simp)] at henters
            obtain ⟨idx, hidx, hserves', hstored, hread⟩ :=
              of_enter_files (s := { s₁ with cache := { s₁.cache with hash := hash' } }) hos hserves₁ henters hinv' rfl
                hget
            have hgone : gone = some lru := by
              generalize l'.map s'.cache.list.values = order' at hout
              cases hout with
              | hit hpresent => exact absurd hlookup hpresent
              | fill _ hroom' => exact absurd hroom' hroom
              | evict _ _ hsplit =>
                  rw [horder₁] at hsplit
                  obtain ⟨-, hlast⟩ := List.append_inj' hsplit rfl
                  cases hlast
                  rfl
            refine ⟨m', l', fl', sl', sfl', e, idx, rfl, hinv', hserves', hget, hidx, ?_, ?_⟩
            · intro gid p hp
              refine h.held_of_moved hinv' hlookup hothers hpages hidx hread hstored ?_ hp
              intro gid p hcase hp
              by_cases hgid : gid = ⟨lru.toUInt64⟩
              · subst hgid
                rw [h.held_of_frame (by rw [key_mk]; exact hi)] at hp
                rw [← hp]
                exact hwritten.written
              · have hnone : frameOf m gid.key = none := by
                  rcases hcase with hnone | hcase
                  · exact hnone
                  · rw [hgone] at hcase
                    refine absurd (key_injective ?_) hgid
                    rw [key_mk]
                    exact (Option.some.inj hcase).symm
                rw [h.held_of_no_frame hnone] at hp
                exact hwritten.kept hgid hp
            · intro gid p hp
              have hondisk : s'.onDisk files gid = files.page s₁.fdcache.world gid := by
                rw [onDisk, Os.Files.page, hstored, Os.Files.page]
              rw [hondisk]
              by_cases hgid : gid = ⟨lru.toUInt64⟩
              · subst hgid
                exact ⟨_, hwritten.written, Or.inr (h.held_of_frame (by rw [key_mk]; exact hi))⟩
              · exact ⟨p, hwritten.kept hgid hp, Or.inl rfl⟩

end Scroller.Pagecache
