import Scroller.Pagecache
import Scroller.Proof.FdcacheTouch

/-!
# The frames of the page cache

Every frame backs one cached page or lies on the stack of free frames. Reading a page takes the frame
at the back of the stack, writing an evicted page puts its frame there, and nothing else moves frames.
-/

namespace Scroller

/-- Reads and writes of pages succeed. -/
structure Os.PageIoSucceeds {W P : Type} (os : Os W P) : Prop where
  pwrite : ∀ world fd page n, (os.pwrite world fd page n).2 = some os.pagesz
  pread : ∀ world fd page n, (os.pread world fd page n).2 ≠ none

namespace Pagecache

open Icache (Entry Outcome OthersKept)

variable {W P : Type}

/-- A call does not return: an assertion fails or `NULL` is dereferenced. -/
def Crashes {α : Type} (x : Except Fault α) : Prop :=
  x = .error .assertion ∨ x = .error .nullPointer

/-- The file cache returns an entry for the file. -/
def FileServed (build : Build) (os : Os W P) (fdcache : Fdcache W) (file : UInt64) : Prop :=
  ∃ fdcache' slot, fdcache.touchFn build os file.toInt64 = .ok (fdcache', some slot)

def FdInv (fdcache : Fdcache W) : Prop := ∃ m l fl, fdcache.cache.Inv m l fl

/-- The frame that backs a key, as the map has it. -/
def frameOf (m : BucketMap Int64 (Entry (Option Nat))) (key : Int64) : Option Nat :=
  (m.lookup key).bind Entry.value

/-- The frames of the cached keys and the frames on the stack are all frames, each once. -/
structure Inv (s : Pagecache W P) (m : BucketMap Int64 (Entry (Option Nat)))
    (l fl sl sfl : List Nat) : Prop where
  cache : s.cache.Inv m l fl
  stack : s.stack.Layout sl sfl
  size : s.stack.listsz = s.cache.hash.bucketsz + s.cache.hash.chainsz
  fdcache : FdInv s.fdcache
  frames : ((l.map s.cache.list.values).map (frameOf m) ++ sl.map s.stack.values).Perm
    ((List.range s.stack.listsz).map some)

/-! ### Reaching a file -/

theorem toInt64_fileId_ne (gid : Gid) : gid.fileId.toInt64 ≠ ihashUndef := by
  intro h
  have hlt : gid.fileId.toNat < 2 ^ 40 := by
    rw [Gid.fileId, UInt64.toNat_mod]
    exact Nat.mod_lt _ (by decide)
  have hnat := congrArg (fun x => x.toUInt64.toNat) h
  simp only [UInt64.toUInt64_toInt64] at hnat
  rw [hnat] at hlt
  exact absurd hlt (by decide)

theorem fd_touch (fdcache : Fdcache W) (h : FdInv fdcache) (build : Build) (os : Os W P)
    (gid : Gid) :
    ∃ fdcache' e, fdcache.touchFn build os gid.fileId.toInt64 = .ok (fdcache', e)
      ∧ FdInv fdcache' ∧ (∀ slot, e = some slot → ∃ fd, fdOf fdcache' e = .ok fd)
      ∧ (e = none ↔ ¬ FileServed build os fdcache gid.fileId) := by
  obtain ⟨m, l, fl, hinv⟩ := h
  obtain ⟨fdcache', e, m', l', fl', htouch, hinv', -, hget, -⟩ :=
    Fdcache.touchFn_eq hinv build os (toInt64_fileId_ne gid)
  refine ⟨fdcache', e, htouch, ⟨m', l', fl', hinv'⟩, ?_, ?_⟩
  · rintro slot rfl
    refine ⟨(fdcache'.cache.hash.node slot).data.value, ?_⟩
    rw [fdOf]
    simp only [bind, Except.bind, Ihash.load_eq (hinv'.hash.of_getFn (hget slot rfl)).1]
    rfl
  · constructor
    · rintro rfl ⟨fdcache'', slot, hserved⟩
      rw [htouch] at hserved
      cases hserved
    · intro hnot
      cases e with
      | none => rfl
      | some slot => exact absurd ⟨fdcache', slot, htouch⟩ hnot

/-! ### Reading and writing pages -/

section Pages

variable {s : Pagecache W P} {sl sfl : List Nat} {key : Gid}

/-- `pagecache_read` takes the frame at the back of the stack, or crashes without a descriptor. -/
theorem read_eq {back : Nat} (hstack : s.stack.Layout (sl ++ [back]) sfl) (hfd : FdInv s.fdcache)
    {os : Os W P} (hos : os.PageIoSucceeds) (build : Build) {idx : Nat}
    (hidx : s.stack.values back = some idx) (hlt : idx < s.stack.listsz) (key : Gid) :
    (FileServed build os s.fdcache key.fileId ∧ ∃ s' page, read build os s key = .ok (s', some idx)
        ∧ s'.cache = s.cache ∧ s'.stack.Layout sl (back :: sfl) ∧ s'.stack.values = s.stack.values
        ∧ s'.stack.listsz = s.stack.listsz ∧ FdInv s'.fdcache
        ∧ s'.pages = Function.update s.pages idx page)
      ∨ (¬ FileServed build os s.fdcache key.fileId ∧ Crashes (read build os s key)) := by
  obtain ⟨stack', hpop, hlayout', hvalues', hsz'⟩ := hstack.popBack
  obtain ⟨fdcache', e, htouch, hfd', hfdof, hserved⟩ := fd_touch s.fdcache hfd build os key
  rw [hidx] at hpop
  cases he : e with
  | none =>
      right
      refine ⟨hserved.mp he, ?_⟩
      rw [read, hpop]
      simp only [bind, Except.bind, htouch, he]
      rw [Build.assert_of _ (by simp)]
      cases build with
      | debug => exact Or.inl rfl
      | release => exact Or.inr rfl
  | some slot =>
      left
      obtain ⟨fd, hfdeq⟩ := hfdof slot he
      have hpread := hos.pread fdcache'.world fd (s.pages idx) key.page
      obtain ⟨page, hpage⟩ := Option.ne_none_iff_exists'.mp hpread
      refine ⟨by rw [← not_not (a := FileServed _ _ _ _), ← hserved, he]; simp, ?_⟩
      subst he
      refine ⟨{ s with
          stack := stack'
          fdcache := { fdcache' with
            world := (os.pread fdcache'.world fd (s.pages idx) key.page).1 }
          pages := Function.update s.pages idx page }, page, ?_, rfl, hlayout', hvalues', hsz', hfd',
        rfl⟩
      rw [read, hpop]
      simp only [bind, Except.bind, htouch]
      rw [Build.assert_of _ (by simp), Build.assert_of _ (by simp)]
      simp only [hfdeq, frame, hlt, if_true]
      rw [show os.pread fdcache'.world fd (s.pages idx) key.page
        = ((os.pread fdcache'.world fd (s.pages idx) key.page).1, some page) from
          Prod.ext rfl hpage]
      rfl

/-- `pagecache_write` puts the frame of an evicted page on the stack, or crashes without a
descriptor. -/
theorem write_eq (s : Pagecache W P) (key : Gid) {new : Nat} (hstack : s.stack.Layout sl (new :: sfl))
    (hfd : FdInv s.fdcache)
    {os : Os W P} (hos : os.PageIoSucceeds) (build : Build) {m : BucketMap Int64 (Entry (Option Nat))}
    (hrefines : s.cache.hash.Refines m) {ptr : Slot}
    (hget : s.cache.hash.getFn key.key = .ok (some ptr)) {idx : Nat}
    (hidx : (s.cache.hash.node ptr).data.value = some idx) (hlt : idx < s.stack.listsz) :
    (∃ s' fdcache' slot world, write build os s key = .ok s'
        ∧ s.fdcache.touchFn build os key.fileId.toInt64 = .ok (fdcache', some slot)
        ∧ s'.fdcache = { fdcache' with world := world } ∧ FdInv s'.fdcache
        ∧ s'.cache = s.cache ∧ s'.stack.Layout (sl ++ [new]) sfl
        ∧ s'.stack.values = Function.update s.stack.values new (some idx)
        ∧ s'.stack.listsz = s.stack.listsz ∧ s'.pages = s.pages)
      ∨ (¬ FileServed build os s.fdcache key.fileId ∧ Crashes (write build os s key)) := by
  obtain ⟨stack', hput, hlayout', hvalues', hsz'⟩ := hstack.putBack (some idx)
  obtain ⟨fdcache', e, htouch, hfd', hfdof, hserved⟩ := fd_touch s.fdcache hfd build os key
  cases he : e with
  | none =>
      right
      refine ⟨hserved.mp he, ?_⟩
      rw [write]
      simp only [bind, Except.bind, htouch, hget, he]
      cases build with
      | debug => exact Or.inl rfl
      | release => exact Or.inr rfl
  | some slot =>
      left
      obtain ⟨fd, hfdeq⟩ := hfdof slot he
      subst he
      have hpwrite := hos.pwrite fdcache'.world fd (s.pages idx) key.page
      refine ⟨{ s with
          stack := stack'
          fdcache := { fdcache' with
            world := (os.pwrite fdcache'.world fd (s.pages idx) key.page).1 } }, fdcache', slot, _,
        ?_, htouch, rfl, hfd', rfl, hlayout', hvalues', hsz', rfl⟩
      rw [write]
      simp only [bind, Except.bind, htouch, hget]
      rw [Build.assert_of _ (by simp), Build.assert_of _ (by simp)]
      simp only [hfdeq, Ihash.load_eq (hrefines.of_getFn hget).1, hidx, frame, hlt, if_true]
      rw [show os.pwrite fdcache'.world fd (s.pages idx) key.page
        = ((os.pwrite fdcache'.world fd (s.pages idx) key.page).1, some os.pagesz) from
          Prod.ext rfl hpwrite]
      simp only [hput]
      rw [Build.assert_of _ trivial, Build.assert_of _ (by simp)]
      rfl

end Pages

end Pagecache

end Scroller
