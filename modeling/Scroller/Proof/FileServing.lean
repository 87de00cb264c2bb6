import Scroller.Proof.GidNames
import Scroller.Proof.PagecacheInvariant

/-!
# Files through the file descriptor cache

The descriptor in an entry of the cache refers to the file of its key, whatever was opened, evicted and closed.
Neither opening nor closing changes what the files hold.
-/

namespace Scroller

open Icache (Entry Outcome OthersKept)

variable {W P : Type}

namespace Fdcache

variable {os : Os W P} {files : os.Files} {m m' : BucketMap Int64 (Entry Int)} {world world' : W} {key : Int64}

/-- The name of the file of a key. -/
def fileName (key : Int64) : List UInt8 := gid2hex (.ofParts (Gid.ofParts key.toUInt64 0).fileId 0)

/-- Every key has a descriptor of its own, which refers to the file of the key. -/
structure Refers (files : os.Files) (fds : Int64 → Option Int) (world : W) : Prop where
  file : ∀ {key fd}, fds key = some fd → files.refers world fd = some (fileName key)
  own : ∀ {key key' fd}, fds key = some fd → fds key' = some fd → key = key'

namespace Refers

variable {fds : Int64 → Option Int} {fd : Int}

theorem opened (h : Refers files fds world) (hopen : openFd os world key = (world', some fd)) :
    Refers files (Function.update fds key (some fd)) world' ∧ files.stored world' = files.stored world := by
  obtain ⟨hfree, hrefers, hstored⟩ := files.openFile_some hopen
  have hfresh : ∀ {k}, fds k ≠ some fd := by
    intro k hk
    rw [h.file hk] at hfree
    cases hfree
  refine ⟨⟨?_, ?_⟩, hstored⟩
  · intro k fd' hk
    rw [hrefers]
    by_cases hkey : k = key
    · subst hkey
      rw [Function.update_self] at hk
      cases hk
      exact Function.update_self _ _ _
    · rw [Function.update_of_ne hkey] at hk
      have hne : fd' ≠ fd := by
        rintro rfl
        exact hfresh hk
      rw [Function.update_of_ne hne]
      exact h.file hk
  · intro k k' fd' hk hk'
    by_cases hkey : k = key
    · by_cases hkey' : k' = key
      · exact hkey.trans hkey'.symm
      · subst hkey
        rw [Function.update_self] at hk
        rw [Function.update_of_ne hkey', ← hk] at hk'
        exact absurd hk' hfresh
    · rw [Function.update_of_ne hkey] at hk
      by_cases hkey' : k' = key
      · subst hkey'
        rw [Function.update_self] at hk'
        rw [← hk'] at hk
        exact absurd hk hfresh
      · rw [Function.update_of_ne hkey'] at hk'
        exact h.own hk hk'

theorem closed (h : Refers files fds world) (hfd : fds key = some fd) :
    Refers files (Function.update fds key none) (os.close world fd)
      ∧ files.stored (os.close world fd) = files.stored world := by
  obtain ⟨hrefers, hstored⟩ := files.close world fd
  have hother : ∀ {k fd'}, Function.update fds key none k = some fd' → k ≠ key ∧ fds k = some fd' := by
    intro k fd' hk
    by_cases hkey : k = key
    · rw [hkey, Function.update_self] at hk
      cases hk
    · rw [Function.update_of_ne hkey] at hk
      exact ⟨hkey, hk⟩
  refine ⟨⟨?_, ?_⟩, hstored⟩
  · intro k fd' hk
    obtain ⟨hkey, hk⟩ := hother hk
    have hne : fd' ≠ fd := by
      rintro rfl
      exact hkey (h.own hk hfd)
    rw [hrefers, Function.update_of_ne hne]
    exact h.file hk
  · intro k k' fd' hk hk'
    exact h.own (hother hk).2 (hother hk').2

end Refers

theorem fdAt_of_kept {gone : Option Int64} (h : OthersKept m m' key gone) {k : Int64} (hk : k ≠ key) :
    fdAt m' k = if gone = some k then none else fdAt m k := by
  rw [fdAt, h k hk]
  split
  · rfl
  · rfl

/-- What a touch does with descriptors keeps them in order; the files stay as they were. -/
theorem Refers.touch {reply : Bool} {gone : Option Int64} (h : Refers files (fdAt m) world)
    (hothers : OthersKept m m' key gone) (hfailed : reply = false → m'.lookup key = none)
    (hfd : Descriptors os world m m' key world' reply gone) :
    Refers files (fdAt m') world' ∧ files.stored world' = files.stored world := by
  cases hfd with
  | hit _ hsame =>
      rw [hsame]
      exact ⟨h, rfl⟩
  | @fill _ fd absent hopen hnew =>
      have hfds : fdAt m' = Function.update (fdAt m) key (some fd) := by
        funext k
        by_cases hk : k = key
        · rw [hk, hnew, Function.update_self]
        · rw [fdAt_of_kept hothers hk, if_neg (by simp), Function.update_of_ne hk]
      rw [hfds]
      exact h.opened hopen
  | @evict _ fd old lru habsent hopen hold hnew =>
      have hne : lru ≠ key := by
        rintro rfl
        rw [fdAt, habsent] at hold
        cases hold
      have hfds : fdAt m' = Function.update (Function.update (fdAt m) key (some fd)) lru none := by
        funext k
        by_cases hk : k = key
        · rw [hk, hnew, Function.update_of_ne hne.symm, Function.update_self]
        · rw [fdAt_of_kept hothers hk]
          by_cases hlru : k = lru
          · rw [hlru, if_pos rfl, Function.update_self]
          · rw [if_neg fun heq => hlru (Option.some.inj heq).symm, Function.update_of_ne hlru,
              Function.update_of_ne hk]
      obtain ⟨hopened, hstored⟩ := h.opened hopen
      obtain ⟨hclosed, hstored'⟩ := hopened.closed ((Function.update_of_ne hne _ _).trans hold)
      rw [hfds]
      exact ⟨hclosed, hstored'.trans hstored⟩
  | @fail _ fd old lru habsent hopen hold =>
      have hne : lru ≠ key := by
        rintro rfl
        rw [fdAt, habsent] at hold
        cases hold
      have hfds : fdAt m' = Function.update
          (Function.update (Function.update (fdAt m) key (some fd)) lru none) key none := by
        funext k
        by_cases hk : k = key
        · rw [hk, Function.update_self, fdAt, hfailed rfl]
          rfl
        · rw [fdAt_of_kept hothers hk, Function.update_of_ne hk]
          by_cases hlru : k = lru
          · rw [hlru, if_pos rfl, Function.update_self]
          · rw [if_neg fun heq => hlru (Option.some.inj heq).symm, Function.update_of_ne hlru,
              Function.update_of_ne hk]
      obtain ⟨hopened, hstored⟩ := h.opened hopen
      obtain ⟨hclosed, hstored'⟩ := hopened.closed ((Function.update_of_ne hne _ _).trans hold)
      obtain ⟨hagain, hstored''⟩ :=
        hclosed.closed ((Function.update_of_ne hne.symm _ _).trans (Function.update_self _ _ _))
      rw [hfds]
      exact ⟨hagain, hstored''.trans (hstored'.trans hstored)⟩

/-- The descriptors of a cache refer to the files of their keys. -/
def Serves (files : os.Files) (s : Fdcache W) : Prop :=
  ∃ m l fl, s.cache.Inv m l fl ∧ Refers files (fdAt m) s.world

theorem Serves.fdInv {s : Fdcache W} (h : s.Serves files) : Pagecache.FdInv s := by
  obtain ⟨m, l, fl, hinv, -⟩ := h
  exact ⟨m, l, fl, hinv⟩

theorem Serves.setWorld {s : Fdcache W} (h : s.Serves files) (hrefers : files.refers world = files.refers s.world) :
    Serves files { s with world } := by
  obtain ⟨m, l, fl, hinv, hfds⟩ := h
  refine ⟨m, l, fl, hinv, ?_, hfds.own⟩
  intro key fd hfd
  rw [hrefers]
  exact hfds.file hfd

/-- **Serving a file.** The entry that a touch returns has a descriptor of the file. -/
theorem Serves.touch {s s' : Fdcache W} (h : s.Serves files) {build : Build} (hkey : key ≠ ihashUndef) {e : Option Slot}
    (htouch : s.touchFn build os key = .ok (s', e)) :
    s'.Serves files ∧ files.stored s'.world = files.stored s.world
      ∧ ∀ fd, Pagecache.fdOf s' e = .ok fd → files.refers s'.world fd = some (fileName key) := by
  obtain ⟨m, l, fl, hinv, hfds⟩ := h
  obtain ⟨s₁, e₁, m', l', fl', htouch', hinv', -, hget, hcases⟩ := touchFn_eq hinv build os hkey
  rw [htouch] at htouch'
  cases htouch'
  have hkept : Refers files (fdAt m') s'.world ∧ files.stored s'.world = files.stored s.world := by
    rcases hcases with ⟨-, hfail, rfl, hsame⟩ | ⟨gone, hout, hothers, hdesc⟩
    · obtain ⟨hrefers, hstored⟩ := files.openFile_none hfail
      have hlookup : ∀ k, m'.lookup k = m.lookup k := by
        intro k
        have hrefines := hinv'.hash
        rw [hsame] at hrefines
        cases hk : m.lookup k with
        | none =>
            by_contra hne
            obtain ⟨slot, hpresent⟩ := hrefines.present_iff.mp hne
            rw [hinv.hash.getFn_none hk] at hpresent
            cases hpresent
        | some entry =>
            obtain ⟨slot, hpresent, -⟩ := hinv.hash.getFn_some hk
            rw [(hrefines.of_getFn hpresent).2.2.2, ← (hinv.hash.of_getFn hpresent).2.2.2, hk]
      have heq : fdAt m' = fdAt m := by
        funext k
        rw [fdAt, hlookup, fdAt]
      refine ⟨⟨?_, ?_⟩, hstored⟩
      · intro k fd hfd
        rw [hrefers]
        exact hfds.file (by rw [← heq]; exact hfd)
      · rw [heq]
        exact hfds.own
    · refine hfds.touch hothers ?_ hdesc
      intro hfailed
      rw [hfailed] at hout
      by_contra hpresent
      have hmem := hinv'.mem_order.mpr hpresent
      generalize l'.map s'.cache.list.values = order' at hout hmem
      cases hout with
      | fail habsent _ hsplit =>
          exact hinv.mem_order.mp (by rw [hsplit]; exact List.mem_append_left _ hmem) habsent
  refine ⟨⟨m', l', fl', hinv', hkept.1⟩, hkept.2, ?_⟩
  intro fd hfd
  cases e with
  | none => cases hfd
  | some slot =>
      obtain ⟨hbounds, -, -, hlookup⟩ := hinv'.hash.of_getFn (hget slot rfl)
      rw [Pagecache.fdOf, Ihash.load_eq hbounds] at hfd
      cases hfd
      exact hkept.1.file (by rw [fdAt, hlookup, Option.map_some])

end Fdcache

theorem fileName_fileId (gid : Gid) : Fdcache.fileName gid.fileId.toInt64 = gid2hex gid := by
  rw [Fdcache.fileName, UInt64.toUInt64_toInt64]
  exact (gid2hex_ofParts_fileId _).trans (gid2hex_ofParts_fileId gid)

end Scroller
