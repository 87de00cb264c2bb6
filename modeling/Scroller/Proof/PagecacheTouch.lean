import Scroller.Proof.PagecacheInvariant

/-!
# Touching the page cache

The copy of the touch in `pagecache.c` writes the evicted page and reads the new one. It has the
outcomes of the LRU cache, except that a key which finds no place after an eviction crashes the call
where the LRU cache returns `NULL`.
-/

namespace Scroller.Pagecache

open Icache (Entry Outcome OthersKept)

variable {W P : Type} {s : Pagecache W P} {m : BucketMap Int64 (Entry (Option Nat))}
  {l fl sl sfl : List Nat} {key : Gid}

/-- A frame on the stack is one of `g_pages`. -/
theorem Inv.stack_frame (h : s.Inv m l fl sl sfl) {i : Nat} (hi : i ∈ sl) :
    ∃ idx, s.stack.values i = some idx ∧ idx < s.stack.listsz := by
  have hmem := h.frames.mem_iff.mp
    (List.mem_append_right _ (List.mem_map_of_mem (f := s.stack.values) hi))
  obtain ⟨idx, hidx, heq⟩ := List.mem_map.mp hmem
  exact ⟨idx, heq.symm, List.mem_range.mp hidx⟩

/-- A frame that backs a cached key is one of `g_pages`. -/
theorem Inv.cached_frame (h : s.Inv m l fl sl sfl) {k : Int64}
    (hk : k ∈ l.map s.cache.list.values) :
    ∃ idx, frameOf m k = some idx ∧ idx < s.stack.listsz := by
  have hmem := h.frames.mem_iff.mp
    (List.mem_append_left _ (List.mem_map_of_mem (f := frameOf m) hk))
  obtain ⟨idx, hidx, heq⟩ := List.mem_map.mp hmem
  exact ⟨idx, heq.symm, List.mem_range.mp hidx⟩

theorem Inv.length_frames (h : s.Inv m l fl sl sfl) : l.length + sl.length = s.stack.listsz := by
  have hlen := h.frames.length_eq
  simpa using hlen

/-- Where the table has room for a new key, the stack has a frame for it. -/
theorem Inv.exists_frame (h : s.Inv m l fl sl sfl) {k : Int64} (hroom : m.Room k) :
    ∃ rest back, sl = rest ++ [back] := by
  have hlt := BucketMap.length_keys_lt h.cache.hash.wf hroom
  have hlen := h.length_frames
  rw [h.size, ← h.cache.size, h.cache.listsz_eq, h.cache.length_list] at hlen
  rcases List.eq_nil_or_concat sl with rfl | ⟨rest, back, hsplit⟩
  · simp only [List.length_nil] at hlen
    omega
  · exact ⟨rest, back, by simpa using hsplit⟩

/-- A cached page leaves a free node on the stack for its frame. -/
theorem Inv.exists_stack_node (h : s.Inv m l fl sl sfl) (hl : l ≠ []) :
    ∃ new sfl', sfl = new :: sfl' := by
  have hlen := h.length_frames
  have hsum := h.stack.length_add
  have hpos := List.length_pos_iff.mpr hl
  cases sfl with
  | nil =>
      simp only [List.length_nil] at hsum
      omega
  | cons new sfl' => exact ⟨new, sfl', rfl⟩

/-- Bringing a page in: the frame at the back of the stack backs it now. -/
theorem Inv.enter {back : Nat} (h : s.Inv m l fl (sl ++ [back]) sfl) (build : Build) {os : Os W P}
    (hos : os.PageIoSucceeds) (hkey : key.key ≠ ihashUndef) (hlookup : m.lookup key.key = none)
    (hroom : m.Room key.key) :
    ∃ hash' e, s.cache.hash.touchFn key.key = .ok (hash', some e)
      ∧ ((FileServed build os s.fdcache key.fileId ∧ ∃ s' m' l' fl' idx page,
            Pagecache.enter build os { s with cache := { s.cache with hash := hash' } } (some e) key
              = .ok (s', some e)
            ∧ s'.Inv m' l' fl' sl (back :: sfl) ∧ Ihash.SameShape s'.cache.hash s.cache.hash
            ∧ s'.cache.hash.getFn key.key = .ok (some e)
            ∧ l'.map s'.cache.list.values = key.key :: l.map s.cache.list.values
            ∧ OthersKept m m' key.key none
            ∧ frameOf m' key.key = some idx ∧ s'.pages = Function.update s.pages idx page)
        ∨ (¬ FileServed build os s.fdcache key.fileId
          ∧ Crashes (Pagecache.enter build os { s with cache := { s.cache with hash := hash' } }
              (some e) key))) := by
  obtain ⟨hash', e, htouch, hbounds, henter⟩ := h.cache.enter build hkey hlookup hroom
  refine ⟨hash', e, htouch, ?_⟩
  obtain ⟨idx, hidx, hlt⟩ := h.stack_frame (i := back) (by simp)
  rcases read_eq (s := { s with cache := { s.cache with hash := hash' } }) h.stack h.fdcache hos build
    hidx hlt key with ⟨hserved, s₁, page, hread, hcache₁, hstack₁, hvalues₁, hsz₁, hfd₁, hpages₁⟩
      | ⟨hnot, hcrash⟩
  · left
    obtain ⟨cache', m', l', fl', hput, hinv, hshape, hget, horder, hothers, hvalue⟩ :=
      henter _ (Or.inr ⟨{ (hash'.node e).data with value := some idx }, rfl⟩)
    have hframe : frameOf m' key.key = some idx := by
      rw [frameOf, (hinv.hash.of_getFn hget).2.2.2, Option.bind_some, hvalue, Ihash.setData,
        Ihash.node_modify_self]
    refine ⟨hserved, { s₁ with cache := cache' }, m', l', fl', idx, page, ?_,
      ⟨hinv, hstack₁, ?_, hfd₁, ?_⟩, hshape, hget, horder, hothers, hframe, hpages₁⟩
    · simp only [Pagecache.enter, hread, bind, Except.bind, hcache₁, Ihash.load_eq hbounds]
      rw [Build.assert_of _ (by simp)]
      simp only [hput]
      rfl
    · change s₁.stack.listsz = cache'.hash.bucketsz + cache'.hash.chainsz
      rw [hsz₁, hshape.bucketsz, hshape.chainsz]
      exact h.size
    · change ((l'.map cache'.list.values).map (frameOf m') ++ sl.map s₁.stack.values).Perm
        ((List.range s₁.stack.listsz).map some)
      have hold : (l.map s.cache.list.values).map (frameOf m')
          = (l.map s.cache.list.values).map (frameOf m) := by
        refine List.map_congr_left fun k hk => ?_
        have hne : k ≠ key.key := by
          rintro rfl
          exact h.cache.mem_order.mp hk hlookup
        rw [frameOf, hothers k hne, if_neg (by simp), frameOf]
      have hframes := h.frames
      rw [List.map_append, List.map_singleton, hidx] at hframes
      rw [horder, List.map_cons, hframe, hold, hvalues₁, hsz₁]
      refine List.Perm.trans ?_ hframes
      rw [List.cons_append, ← List.append_assoc]
      exact (List.perm_append_singleton _ _).symm
  · right
    refine ⟨hnot, ?_⟩
    rcases hcrash with hread | hread
    · left
      simp only [Pagecache.enter, hread, bind, Except.bind]
    · right
      simp only [Pagecache.enter, hread, bind, Except.bind]

theorem Inv.frameOf_inj (h : s.Inv m l fl sl sfl) {k k' : Int64} {idx : Nat}
    (hk : frameOf m k = some idx) (hk' : frameOf m k' = some idx) : k = k' := by
  have hcached : ∀ k, frameOf m k = some idx → k ∈ l.map s.cache.list.values := by
    intro k hk
    refine h.cache.covered k fun hnone => ?_
    rw [frameOf, hnone] at hk
    cases hk
  have hnodup : ((l.map s.cache.list.values).map (frameOf m)).Nodup := by
    have hall : ((List.range s.stack.listsz).map some).Nodup :=
      List.nodup_range.map (Option.some_injective _)
    exact (List.nodup_append.mp (h.frames.nodup_iff.mpr hall)).1
  exact List.inj_on_of_nodup_map hnodup (hcached k hk) (hcached k' hk') (hk.trans hk'.symm)

/-- Evicting a page: its frame is on the stack and its key has left the table and the list. -/
theorem Inv.evict (h : s.Inv m l fl sl sfl) (build : Build) {os : Os W P}
    (hos : os.PageIoSucceeds) {list₁ : Ilist2 Int64} {hash₁ : Ihash (Entry (Option Nat))}
    {lru : Int64} {l₁ fl₁ : List Nat} {slot : Slot}
    (hlru : s.cache.hash.getFn lru = .ok (some slot))
    (hcache₁ : Icache.Inv ⟨hash₁, list₁⟩ (m.erase lru) l₁ fl₁)
    (hshape₁ : Ihash.SameShape hash₁ s.cache.hash)
    (horder₁ : l.map s.cache.list.values = l₁.map list₁.values ++ [lru]) :
    (∃ s₁ fdcache' fdslot world sl₁ sfl₁,
        write build os { s with cache := { s.cache with list := list₁ } } ⟨lru.toUInt64⟩ = .ok s₁
        ∧ s.fdcache.touchFn build os (Gid.fileId ⟨lru.toUInt64⟩).toInt64 = .ok (fdcache', some fdslot)
        ∧ s₁.fdcache = { fdcache' with world := world } ∧ s₁.pages = s.pages
        ∧ s₁.cache = { s.cache with list := list₁ }
        ∧ Inv { s₁ with cache := ⟨hash₁, list₁⟩ } (m.erase lru) l₁ fl₁ sl₁ sfl₁)
      ∨ (¬ FileServed build os s.fdcache (Gid.fileId ⟨lru.toUInt64⟩)
        ∧ Crashes (write build os { s with cache := { s.cache with list := list₁ } }
            ⟨lru.toUInt64⟩)) := by
  have hlmem : lru ∈ l.map s.cache.list.values := by
    rw [horder₁]
    simp
  obtain ⟨idx, hidx, hlt⟩ := h.cached_frame hlmem
  have hlne : l ≠ [] := by
    rintro rfl
    simp at hlmem
  obtain ⟨new, sfl₁, rfl⟩ := h.exists_stack_node hlne
  have hkeyeq : Gid.key ⟨lru.toUInt64⟩ = lru := by
    rw [Gid.key, Int64.toInt64_toUInt64]
  have hvalue : (s.cache.hash.node slot).data.value = some idx := by
    rw [frameOf, (h.cache.hash.of_getFn hlru).2.2.2] at hidx
    exact hidx
  rcases write_eq { s with cache := { s.cache with list := list₁ } } ⟨lru.toUInt64⟩ h.stack h.fdcache hos build
          h.cache.hash (by rw [hkeyeq]; exact hlru)
    hvalue hlt with ⟨s₁, fdcache', fdslot, world, hwrite, htouch, hfdeq, hfd₁, hcacheeq, hstack₁,
      hvalues₁, hsz₁, hpages₁⟩ | hcrash
  · left
    refine ⟨s₁, fdcache', fdslot, world, sl ++ [new], sfl₁, hwrite, htouch, hfdeq, hpages₁, hcacheeq,
      hcache₁, hstack₁, ?_, hfd₁, ?_⟩
    · change s₁.stack.listsz = hash₁.bucketsz + hash₁.chainsz
      rw [hsz₁, hshape₁.bucketsz, hshape₁.chainsz]
      exact h.size
    · change ((l₁.map list₁.values).map (frameOf (m.erase lru))
        ++ (sl ++ [new]).map s₁.stack.values).Perm ((List.range s₁.stack.listsz).map some)
      have hnodup := h.cache.nodup_order
      rw [horder₁] at hnodup
      have hold : (l₁.map list₁.values).map (frameOf (m.erase lru))
          = (l₁.map list₁.values).map (frameOf m) := by
        refine List.map_congr_left fun k hk => ?_
        have hne : k ≠ lru := by
          rintro rfl
          exact (List.nodup_append.mp hnodup).2.2 k hk k (by simp) rfl
        rw [frameOf, BucketMap.lookup_erase_of_ne hne, frameOf]
      have hnotin : new ∉ sl := fun hmem => h.stack.not_mem_free hmem (by simp)
      have hsame : sl.map s₁.stack.values = sl.map s.stack.values := by
        rw [hvalues₁]
        refine List.map_congr_left fun i hi => Function.update_of_ne ?_ _ _
        rintro rfl
        exact hnotin hi
      have hframes := h.frames
      rw [horder₁, List.map_append, List.map_singleton, hidx] at hframes
      rw [hold, List.map_append, List.map_singleton, hsame, hvalues₁, Function.update_self, hsz₁]
      refine List.Perm.trans ?_ hframes
      rw [List.append_assoc]
      exact List.Perm.append_left _ (List.perm_append_singleton _ _)
  · right
    exact hcrash

/-- Why a touch of an absent key crashes: a file it needs is not served, or the key finds no place
after the eviction. -/
inductive Blocked (build : Build) (os : Os W P) (fdcache : Fdcache W)
    (m : BucketMap Int64 (Entry (Option Nat))) (order : List Int64) (key : Gid) : Prop where
  | fill : m.Room key.key → ¬ FileServed build os fdcache key.fileId → Blocked ..
  | write {init : List Int64} {lru : Int64} : ¬ m.Room key.key → order = init ++ [lru] →
      ¬ FileServed build os fdcache (Gid.fileId ⟨lru.toUInt64⟩) → Blocked ..
  | place {init : List Int64} {lru : Int64} : ¬ m.Room key.key → order = init ++ [lru] →
      ¬ (m.erase lru).Room key.key → Blocked ..
  | read {init : List Int64} {lru : Int64} {fdcache' : Fdcache W} {slot : Slot} {world : W} :
      ¬ m.Room key.key → order = init ++ [lru] →
      fdcache.touchFn build os (Gid.fileId ⟨lru.toUInt64⟩).toInt64 = .ok (fdcache', some slot) →
      ¬ FileServed build os { fdcache' with world := world } key.fileId → Blocked ..

/-- What the file cache did in a touch that missed and returned: it served the file of the evicted
page, if there was one, then the file of the new page. -/
def FilesServed (build : Build) (os : Os W P) (fdcache : Fdcache W) (key : Gid) :
    Option Int64 → Prop
  | none => FileServed build os fdcache key.fileId
  | some lru => ∃ fdcache' slot world,
      fdcache.touchFn build os (Gid.fileId ⟨lru.toUInt64⟩).toInt64 = .ok (fdcache', some slot)
        ∧ FileServed build os { fdcache' with world := world } key.fileId

/-- A touch of a cached page moves its key to the front of the list and nothing else. -/
theorem Inv.touchFn_hit (h : s.Inv m l fl sl sfl) (build : Build) (os : Os W P)
    {entry : Entry (Option Nat)} (hlookup : m.lookup key.key = some entry) :
    ∃ list' l' e, Pagecache.touchFn build os s key
        = .ok ({ s with cache := { s.cache with list := list' } }, some e)
      ∧ Inv { s with cache := { s.cache with list := list' } } m l' fl sl sfl
      ∧ s.cache.hash.getFn key.key = .ok (some e)
      ∧ l'.map list'.values = key.key :: (l.map s.cache.list.values).erase key.key := by
  obtain ⟨e, hget, -⟩ := h.cache.hash.getFn_some hlookup
  obtain ⟨list', init, idx, rest, rfl, hval, -, hmove, hinv, hvalues⟩ := h.cache.moveFront build hget
  refine ⟨list', _, e, ?_, ⟨hinv, h.stack, h.size, h.fdcache, ?_⟩, hget, ?_⟩
  · rw [Pagecache.touchFn, hget]
    simp only [bind, Except.bind, Ihash.load_eq (h.cache.hash.of_getFn hget).1, hmove]
    rfl
  · have hperm : (idx :: (init ++ rest)).Perm (init ++ idx :: rest) := List.perm_middle.symm
    refine List.Perm.trans (List.Perm.append_right _ ?_) h.frames
    change ((idx :: (init ++ rest)).map list'.values |>.map (frameOf m)).Perm _
    rw [hvalues]
    exact (hperm.map _).map _
  · rw [hvalues, h.cache.order_moveFront hval]

/-- **Touch.** From the invariant a touch returns an entry and keeps the invariant, with an outcome of
the LRU cache, or it crashes because something blocks it. -/
theorem Inv.touchFn (h : s.Inv m l fl sl sfl) (build : Build) {os : Os W P}
    (hos : os.PageIoSucceeds) (hkey : key.key ≠ ihashUndef) :
    (∃ s' e m' l' fl' sl' sfl' gone, Pagecache.touchFn build os s key = .ok (s', some e)
        ∧ s'.Inv m' l' fl' sl' sfl' ∧ Ihash.SameShape s'.cache.hash s.cache.hash
        ∧ s'.cache.hash.getFn key.key = .ok (some e)
        ∧ Outcome m (l.map s.cache.list.values) key.key (l'.map s'.cache.list.values) true gone
        ∧ OthersKept m m' key.key gone
        ∧ (m.lookup key.key = none → FilesServed build os s.fdcache key gone)
        ∧ ∀ k ≠ key.key, ∀ idx, frameOf m' k = some idx → s'.pages idx = s.pages idx)
      ∨ (Crashes (Pagecache.touchFn build os s key) ∧ m.lookup key.key = none
        ∧ Blocked build os s.fdcache m (l.map s.cache.list.values) key) := by
  cases hlookup : m.lookup key.key with
  | some entry =>
      left
      obtain ⟨list', l', e, htouch, hinv, hget, horder⟩ := h.touchFn_hit build os hlookup
      refine ⟨_, e, m, l', fl, sl, sfl, none, htouch, hinv, ⟨rfl, rfl, rfl⟩, hget, ?_,
        fun _ _ => rfl, ?_, fun _ _ _ _ => rfl⟩
      · rw [horder]
        exact .hit (by rw [hlookup]; simp)
      · intro hnone
        cases hnone
  | none =>
      have habsent := h.cache.hash.getFn_none hlookup
      have hkept : ∀ {s' : Pagecache W P} {m' l' fl' sl' sfl' idx page},
          s'.Inv m' l' fl' sl' sfl' → frameOf m' key.key = some idx →
          s'.pages = Function.update s.pages idx page →
          ∀ k ≠ key.key, ∀ i, frameOf m' k = some i → s'.pages i = s.pages i := by
        intro s' m' l' fl' sl' sfl' idx page hinv hframe hpages k hk i hi
        rw [hpages, Function.update_of_ne]
        rintro rfl
        exact hk (hinv.frameOf_inj hi hframe)
      by_cases hroom : m.Room key.key
      · obtain ⟨rest, back, rfl⟩ := h.exists_frame hroom
        obtain ⟨hash', e, htouch, henter⟩ := h.enter build hos hkey hlookup hroom
        have hstep : Pagecache.touchFn build os s key
            = Pagecache.enter build os { s with cache := { s.cache with hash := hash' } } (some e)
                key := by
          rw [Pagecache.touchFn, habsent]
          simp only [bind, Except.bind, htouch]
        rw [hstep]
        rcases henter with ⟨hserved, s', m', l', fl', idx, page, hok, hinv, hshape, hget, horder,
          hothers, hframe, hpages⟩ | ⟨hnot, hcrash⟩
        · left
          refine ⟨s', e, m', l', fl', rest, _, none, hok, hinv, hshape, hget, ?_, hothers,
            fun _ => hserved, hkept hinv hframe hpages⟩
          rw [horder]
          exact .fill hlookup hroom
        · exact Or.inr ⟨hcrash, rfl, .fill hroom hnot⟩
      · obtain ⟨list₁, hash₁, lru, l₁, fl₁, hnotouch, hpop, hassert, -, ⟨slot, hlru⟩, herase, hinv₁,
          hshape₁, horder₁, hlookup₁, hothers₁⟩ := h.cache.makeRoom build hlookup hroom
        have hstep : Pagecache.touchFn build os s key
            = (write build os { s with cache := { s.cache with list := list₁ } } ⟨lru.toUInt64⟩ >>=
                fun s₁ => s₁.cache.hash.eraseFn lru >>= fun r => r.1.touchFn key.key >>= fun r =>
                  build.assert (r.2 ≠ none) >>= fun _ =>
                    Pagecache.enter build os { s₁ with cache := { s₁.cache with hash := r.1 } } r.2
                      key) := by
          rw [Pagecache.touchFn, habsent]
          simp only [bind, Except.bind, hnotouch, hpop, hassert]
        rw [hstep]
        rcases h.evict build hos hlru hinv₁ hshape₁ horder₁ with
          ⟨s₁, fdcache', fdslot, world, sl₁, sfl₁, hwrite, hfdtouch, hfdeq, hpages₁, hcache₁, hs₁⟩
            | ⟨hnot, hcrash⟩
        · have herase₁ : s₁.cache.hash.eraseFn lru = .ok (hash₁, true) := by
            rw [hcache₁]
            exact herase
          simp only [bind, Except.bind, hwrite, herase₁]
          by_cases hroom₁ : (m.erase lru).Room key.key
          · obtain ⟨rest, back, rfl⟩ := hs₁.exists_frame hroom₁
            obtain ⟨hash', e, htouch, henter⟩ := hs₁.enter build hos hkey hlookup₁ hroom₁
            have htouch' : hash₁.touchFn key.key = .ok (hash', some e) := htouch
            have hlist : s₁.cache.list = list₁ := by rw [hcache₁]
            have hassert' : build.assert (some e ≠ none) = .ok () := Build.assert_of _ (by simp)
            simp only [htouch', hassert', hlist]
            rcases henter with ⟨hserved, s', m', l', fl', idx, page, hok, hinv, hshape, hget, horder,
              hothers, hframe, hpages⟩ | ⟨hnot, hcrash⟩
            · left
              refine ⟨s', e, m', l', fl', rest, _, some lru, hok, hinv, hshape.trans hshape₁, hget, ?_,
                hothers₁.trans_none hothers, fun _ => ?_, ?_⟩
              · rw [horder]
                exact .evict hlookup hroom horder₁ hroom₁
              · have hserved' : FileServed build os s₁.fdcache key.fileId := hserved
                rw [hfdeq] at hserved'
                exact ⟨fdcache', fdslot, world, hfdtouch, hserved'⟩
              · have hpages' : s'.pages = Function.update s₁.pages idx page := hpages
                rw [hpages₁] at hpages'
                exact hkept hinv hframe hpages'
            · right
              have hnot' : ¬ FileServed build os s₁.fdcache key.fileId := hnot
              rw [hfdeq] at hnot'
              exact ⟨hcrash, trivial, .read hroom horder₁ hfdtouch hnot'⟩
          · right
            have hnotouch₁ : hash₁.touchFn key.key = .ok (hash₁, none) :=
              hinv₁.hash.touchFn_of_not_room hlookup₁ hroom₁
            refine ⟨?_, trivial, .place hroom horder₁ hroom₁⟩
            simp only [hnotouch₁]
            cases build with
            | debug => exact Or.inl rfl
            | release => exact Or.inr rfl
        · right
          refine ⟨?_, rfl, .write hroom horder₁ hnot⟩
          rcases hcrash with heq | heq
          · left
            rw [heq]
            rfl
          · right
            rw [heq]
            rfl

end Scroller.Pagecache
