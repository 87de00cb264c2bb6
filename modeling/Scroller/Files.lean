import Scroller.Fdcache

/-!
# The files behind the caches

What `open`, `close`, `pwrite` and `pread` do. A descriptor refers to a file by its name, and a file is its
pages; reading a page that the file does not have leaves the buffer as it was. A server that is started again
finds the files as they are.
-/

namespace Scroller

/-- The documented behaviour of the calls: what a descriptor refers to, and what the files hold. -/
structure Os.Files {W P : Type} (os : Os W P) where
  refers : W → Int → Option (List UInt8)
  stored : W → List UInt8 → UInt64 → Option P
  restart : W → W
  openFile_some : ∀ {world world' file fd}, os.openFile world file = (world', some fd) →
    refers world fd = none ∧ refers world' = Function.update (refers world) fd (some (gid2hex (.ofParts file 0)))
      ∧ stored world' = stored world
  openFile_none : ∀ {world world' file}, os.openFile world file = (world', none) →
    refers world' = refers world ∧ stored world' = stored world
  close : ∀ world fd, refers (os.close world fd) = Function.update (refers world) fd none
    ∧ stored (os.close world fd) = stored world
  pwrite : ∀ {world world' fd page n name}, os.pwrite world fd page n = (world', some os.pagesz) →
    refers world fd = some name → refers world' = refers world ∧ stored world' name n = some page
      ∧ ∀ {other k p}, (other, k) ≠ (name, n) → stored world other k = some p → stored world' other k = some p
  pread : ∀ {world world' fd frame n page name}, os.pread world fd frame n = (world', some page) →
    refers world fd = some name → refers world' = refers world ∧ stored world' = stored world
      ∧ page = (stored world name n).getD frame
  restart_stored : ∀ world, stored (restart world) = stored world

/-- The page with an id. -/
def Os.Files.page {W P : Type} {os : Os W P} (files : os.Files) (world : W) (gid : Gid) : Option P :=
  files.stored world (gid2hex gid) gid.page

/-! ### A file system -/

/-- The files by their names, and the files that the descriptors below `next` refer to. A descriptor that
refers to no file takes every page and has none. -/
structure Disk (P : Type) where
  files : List UInt8 → List P
  open? : Int → Option (List UInt8)
  next : Int

namespace Disk

variable {P : Type}

/-- Descriptors are not given out again, so that each of them is new. -/
def openFile (disk : Disk P) (file : UInt64) : Disk P × Option Int :=
  ({ disk with open? := Function.update disk.open? disk.next (some (gid2hex (.ofParts file 0))),
               next := disk.next + 1 }, some disk.next)

/-- Pages in front of the written one that the file did not have are holes of zero bytes. -/
def writePage (pages : List P) (zero page : P) (n : Nat) : List P :=
  if n < pages.length then pages.set n page
  else pages ++ List.replicate (n - pages.length) zero ++ [page]

def calls (zero : P) (pagesz : Nat) : Os (Disk P) P where
  pagesz
  openFile := openFile
  close disk fd := { disk with open? := Function.update disk.open? fd none }
  pwrite disk fd page n :=
    match disk.open? fd with
    | none => (disk, some pagesz)
    | some name =>
        ({ disk with files := Function.update disk.files name (writePage (disk.files name) zero page n.toNat) },
          some pagesz)
  pread disk fd frame n :=
    match disk.open? fd with
    | none => (disk, some frame)
    | some name => (disk, some ((disk.files name)[n.toNat]?.getD frame))

def refers (disk : Disk P) (fd : Int) : Option (List UInt8) := if fd < disk.next then disk.open? fd else none

theorem getElem?_writePage_self (pages : List P) (zero page : P) (n : Nat) :
    (writePage pages zero page n)[n]? = some page := by
  rw [writePage]
  split
  · rename_i hlt
    rw [List.getElem?_set_self hlt]
  · rename_i hle
    have hlen : (pages ++ List.replicate (n - pages.length) zero).length = n := by
      rw [List.length_append, List.length_replicate]
      omega
    rw [List.getElem?_append_right hlen.le, hlen, Nat.sub_self]
    rfl

theorem getElem?_writePage_of_ne {pages : List P} {zero page p : P} {n k : Nat} (hne : k ≠ n)
    (h : pages[k]? = some p) : (writePage pages zero page n)[k]? = some p := by
  rw [writePage]
  split
  · rw [List.getElem?_set_ne (Ne.symm hne)]
    exact h
  · have hlt : k < pages.length := (List.getElem?_eq_some_iff.mp h).1
    rw [List.append_assoc, List.getElem?_append_left hlt]
    exact h

theorem refers_open {disk : Disk P} {fd : Int} {name : List UInt8} (h : disk.refers fd = some name) :
    disk.open? fd = some name := by
  rw [refers] at h
  split at h
  · exact h
  · cases h

/-- The file system keeps what the calls promise. -/
def documented (zero : P) (pagesz : Nat) : (calls zero pagesz).Files where
  refers := refers
  stored disk name n := (disk.files name)[n.toNat]?
  restart disk := { disk with open? := fun _ => none }
  openFile_some := by
    intro disk disk' file fd hopen
    cases hopen
    refine ⟨if_neg (Int.lt_irrefl _), ?_, rfl⟩
    funext fd
    by_cases hfd : fd = disk.next
    · subst hfd
      simp only [refers, Function.update_self]
      exact if_pos (by omega)
    · have hiff : fd < disk.next + 1 ↔ fd < disk.next := by omega
      simp only [refers, Function.update_of_ne hfd, hiff]
  openFile_none := by
    intro disk disk' file hopen
    cases hopen
  close := by
    intro disk fd
    refine ⟨?_, rfl⟩
    funext other
    by_cases hfd : other = fd
    · subst hfd
      simp only [refers, calls, Function.update_self, ite_self]
    · simp only [refers, calls, Function.update_of_ne hfd]
  pwrite := by
    intro disk disk' fd page n name hwrite hrefers
    simp only [calls, refers_open hrefers] at hwrite
    cases hwrite
    refine ⟨rfl, ?_, ?_⟩
    · simp only [Function.update_self, getElem?_writePage_self]
    · intro other k p hne hp
      by_cases hother : other = name
      · subst hother
        have hk : k.toNat ≠ n.toNat := fun heq => hne (by rw [UInt64.toNat_inj.mp heq])
        simp only [Function.update_self, getElem?_writePage_of_ne hk hp]
      · simp only [Function.update_of_ne hother, hp]
  pread := by
    intro disk disk' fd frame n page name hread hrefers
    simp only [calls, refers_open hrefers] at hread
    cases hread
    exact ⟨rfl, rfl, rfl⟩
  restart_stored _ := rfl

end Disk

end Scroller
