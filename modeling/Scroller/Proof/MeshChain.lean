import Scroller.Lib.Machine
import Scroller.Proof.MeshAlloc

/-!
# The chain of pages behind a mesh

Rows that are allocated with the tail of the allocation before go to the last page of a chain, a full page gets
a successor in its file, and the last page of a file one in a new file. An iterator from the first row meets
the rows in the order of their allocation.
-/

namespace Scroller

/-! ### Ids of pages -/

namespace Gid

theorem fileId_ofParts (fileId page : UInt64) :
    (ofParts fileId page).fileId.toNat = fileId.toNat % 2 ^ 40 := by
  have hnum := num_ofParts fileId page
  rw [num] at hnum
  rw [Gid.fileId, UInt64.toNat_mod, hnum]
  show _ % 2 ^ 40 = _
  omega

theorem page_ofParts (fileId page : UInt64) :
    (ofParts fileId page).page.toNat = page.toNat % 2 ^ 24 := by
  have hnum := num_ofParts fileId page
  rw [num] at hnum
  rw [Gid.page, UInt64.toNat_div, hnum]
  show _ / 2 ^ 40 = _
  omega

theorem fileId_lt (g : Gid) : g.fileId.toNat < 2 ^ 40 := by
  rw [fileId, UInt64.toNat_mod]
  exact Nat.mod_lt _ (by decide)

theorem fileId_successor (g : Gid) : g.successor.fileId = g.fileId := by
  apply UInt64.toNat_inj.mp
  rw [successor, fileId_ofParts, Nat.mod_eq_of_lt g.fileId_lt]

theorem page_successor {g : Gid} (h : g.page < gidMaxpage) :
    g.successor.page.toNat = g.page.toNat + 1 := by
  have hlt : g.page.toNat < 2 ^ 24 - 1 := UInt64.lt_iff_toNat_lt.mp h
  rw [successor, page_ofParts, UInt64.toNat_add]
  show (g.page.toNat + 1) % 2 ^ 64 % 2 ^ 24 = _
  omega

end Gid

/-- The sequence gives `k` times no file id of `used` and none twice, up to where it is used up. -/
def FreshIds (build : Build) : Nat → Sequence → List UInt64 → Prop
  | 0, _, _ => True
  | k + 1, s, used =>
      match sequenceNextval build s with
      | .error _ => False
      | .ok none => True
      | .ok (some (s, currval)) =>
          (Gid.ofParts currval.toUInt64 0).fileId ≠ 0
            ∧ (Gid.ofParts currval.toUInt64 0).fileId ∉ used
            ∧ FreshIds build k s ((Gid.ofParts currval.toUInt64 0).fileId :: used)

theorem FreshIds.of_succ {build : Build} {k : Nat} {s : Sequence} {used : List UInt64}
    (h : FreshIds build (k + 1) s used) : FreshIds build k s used := by
  induction k generalizing s used with
  | zero => exact trivial
  | succ k ih =>
      unfold FreshIds at h ⊢
      cases hnext : sequenceNextval build s with
      | error fault =>
          rw [hnext] at h
          exact h
      | ok next =>
          rw [hnext] at h
          cases next with
          | none => exact trivial
          | some next => exact ⟨h.1, h.2.1, ih h.2.2⟩

namespace Db

/-- The row under an iterator. -/
def rowAt (db : Db) (m : Mitor) : Row := (db.pages m.gp.data).rows m.row

/-- The iterators that `mitor_next` makes of a first one while it is valid. -/
def walk (db : Db) : Nat → Mitor → List Mitor
  | 0, _ => []
  | fuel + 1, m => if mitorIsValid db m then m :: walk db fuel (mitorNext db m) else []

/-- The pages `front` are linked up to the tail, which has no successor. -/
def Linked (db : Db) : List Gid → Gid → Prop
  | [], tail => (db.pages tail).next = .undef
  | g :: front, tail => (db.pages g).next = front.headD tail ∧ Linked db front tail

/-- The rows of some pages, one page after the other. -/
def places (db : Db) (header : Gid) (chain : List Gid) : List Mitor :=
  chain.flatMap fun g => (List.range (db.pages g).occupied).map fun row => ⟨⟨header, g⟩, row⟩

/-! ### Walking over a chain -/

section Walk

variable {db : Db} {header : Gid}

theorem walk_invalid {m : Mitor} (h : mitorIsValid db m = false) (fuel : Nat) : db.walk fuel m = [] := by
  cases fuel with
  | zero => rfl
  | succ fuel => rw [walk, h]; rfl

theorem isValid_iff (hheader : header ≠ .undef) {g : Gid} (hg : g ≠ .undef) (row : Nat) :
    mitorIsValid db ⟨⟨header, g⟩, row⟩ = true ↔ row < (db.pages g).occupied := by
  simp [mitorIsValid, hheader, hg]

/-- Where `mitor_next` leads behind the last row of a page. -/
def behind (db : Db) (header g : Gid) : Mitor :=
  if (db.pages g).next ≠ .undef then ⟨⟨header, (db.pages g).next⟩, 0⟩
  else ⟨⟨header, g⟩, (db.pages g).occupied⟩

theorem walk_page (hheader : header ≠ .undef) {g : Gid} (hg : g ≠ .undef) {n row : Nat}
    (hrow : row + (n + 1) = (db.pages g).occupied) (fuel : Nat) :
    db.walk (fuel + (n + 1)) ⟨⟨header, g⟩, row⟩
      = ((List.range' row (n + 1)).map fun row => ⟨⟨header, g⟩, row⟩)
        ++ db.walk fuel (db.behind header g) := by
  have hvalid : mitorIsValid db ⟨⟨header, g⟩, row⟩ = true :=
    (isValid_iff hheader hg row).mpr (by omega)
  induction n generalizing row with
  | zero =>
      have hlast : mitorIsValid db ⟨⟨header, g⟩, row + 1⟩ = false := by
        rw [← Bool.not_eq_true, isValid_iff hheader hg]
        omega
      have hnext : mitorNext db ⟨⟨header, g⟩, row⟩ = db.behind header g := by
        rw [mitorNext, if_pos hvalid, behind]
        simp only [hlast, Bool.false_eq_true, not_false_eq_true, true_and]
        rw [← hrow]
      rw [walk, if_pos hvalid, hnext]
      rfl
  | succ n ih =>
      have hvalid' : mitorIsValid db ⟨⟨header, g⟩, row + 1⟩ = true :=
        (isValid_iff hheader hg (row + 1)).mpr (by omega)
      have hnext : mitorNext db ⟨⟨header, g⟩, row⟩ = ⟨⟨header, g⟩, row + 1⟩ := by
        rw [mitorNext, if_pos hvalid]
        simp only [hvalid', not_true_eq_false, false_and, if_false]
      have hrest := @ih (row + 1) (by omega) hvalid'
      rw [← Nat.add_assoc, walk, if_pos hvalid, hnext, hrest, List.range'_succ]
      rfl

theorem places_cons (g : Gid) (chain : List Gid) :
    db.places header (g :: chain)
      = ((List.range (db.pages g).occupied).map fun row => ⟨⟨header, g⟩, row⟩)
        ++ db.places header chain := List.flatMap_cons

/-- **Walking over a chain** meets its rows one after the other. -/
theorem walk_chain (hheader : header ≠ .undef) {front : List Gid} {tail : Gid}
    (hdefined : ∀ g ∈ front ++ [tail], g ≠ .undef) (hrows : ∀ g ∈ front, 0 < (db.pages g).occupied)
    (hlinked : db.Linked front tail) {fuel : Nat}
    (hfuel : (db.places header (front ++ [tail])).length < fuel) :
    db.walk fuel ⟨⟨header, front.headD tail⟩, 0⟩ = db.places header (front ++ [tail]) := by
  induction front generalizing fuel with
  | nil =>
      have htail : tail ≠ .undef := hdefined tail List.mem_cons_self
      rw [List.nil_append, places_cons, List.length_append, List.length_map, List.length_range] at hfuel
      rw [List.nil_append, places_cons]
      cases hoccupied : (db.pages tail).occupied with
      | zero =>
          apply walk_invalid
          rw [← Bool.not_eq_true]
          exact mt (isValid_iff hheader htail 0).mp (by rw [hoccupied]; exact Nat.lt_irrefl 0)
      | succ n =>
          obtain ⟨fuel, rfl⟩ := Nat.exists_eq_add_of_lt
            (show n + 1 < fuel by rw [hoccupied] at hfuel; omega)
          have hlast : (db.pages tail).next = .undef := hlinked
          have hbehind : mitorIsValid db (db.behind header tail) = false := by
            rw [behind, if_neg (not_not.mpr hlast), ← Bool.not_eq_true, isValid_iff hheader htail]
            exact Nat.lt_irrefl _
          have hpage := @walk_page db header hheader tail htail n 0 (by omega) (fuel + 1)
          rw [show n + 1 + fuel + 1 = fuel + 1 + (n + 1) by omega]
          show db.walk (fuel + 1 + (n + 1)) ⟨⟨header, tail⟩, 0⟩ = _
          rw [hpage, walk_invalid hbehind, List.range_eq_range']
          rfl
  | cons g front ih =>
      obtain ⟨hnext, hlinked⟩ := hlinked
      have hg : g ≠ .undef := hdefined g List.mem_cons_self
      have hrest : front.headD tail ≠ .undef := by
        cases front with
        | nil => exact hdefined tail (List.mem_cons_of_mem _ List.mem_cons_self)
        | cons g' front => exact hdefined g' (List.mem_cons_of_mem _ List.mem_cons_self)
      obtain ⟨n, hn⟩ := Nat.exists_eq_succ_of_ne_zero
        (Nat.pos_iff_ne_zero.mp (hrows g List.mem_cons_self))
      rw [List.cons_append, places_cons, List.length_append, List.length_map, List.length_range,
        hn] at hfuel
      obtain ⟨fuel, rfl⟩ := Nat.exists_eq_add_of_le (show n + 1 ≤ fuel by omega)
      have hpage := @walk_page db header hheader g hg n 0 (by omega) fuel
      have htail := @ih (fun g hg => hdefined g (List.mem_cons_of_mem _ hg))
        (fun g hg => hrows g (List.mem_cons_of_mem _ hg)) hlinked fuel (by omega)
      rw [Nat.add_comm (n + 1) fuel]
      show db.walk (fuel + (n + 1)) ⟨⟨header, g⟩, 0⟩ = _
      rw [hpage, behind, hnext, if_pos hrest, htail, List.cons_append, places_cons, hn,
        List.range_eq_range']

end Walk

/-! ### Allocation with the tail of the allocation before -/

/-- A chain of data pages that started as `page`: all but the last one are full. -/
structure Threaded (header : Gid) (page : Grid) (db : Db) (front : List Gid) (tail : Gid) : Prop where
  nodup : (front ++ [tail]).Nodup
  defined : ∀ g ∈ front ++ [tail], g ≠ .undef
  apart : ∀ g ∈ front ++ [tail], g ≠ header
  content : (db.pages tail).content = page.content
  rown : (db.pages tail).rown = page.rown
  full : ∀ g ∈ front, (db.pages g).occupied = page.rown
  room : (db.pages tail).occupied ≤ page.rown
  linked : db.Linked front tail

/-- The files of a chain; the pages behind the tail in its file are not in use. -/
structure Files (header : Gid) (chain : List Gid) (tail : Gid) (used : List UInt64) : Prop where
  files : ∀ g ∈ chain, g.fileId ∈ used
  behind : ∀ g ∈ chain, g.fileId = tail.fileId → g.page ≤ tail.page
  known : header.fileId ∈ used
  apart : header.fileId ≠ tail.fileId

section Pages

variable {db db' : Db} {header tail : Gid} {front : List Gid} {page : Grid}

theorem next_of_linked (h : db.Linked front tail) : (db.pages tail).next = .undef := by
  induction front with
  | nil => exact h
  | cons g front ih => exact ih h.2

theorem linked_congr (h : ∀ g ∈ front ++ [tail], (db'.pages g).next = (db.pages g).next)
    (hlinked : db.Linked front tail) : db'.Linked front tail := by
  induction front with
  | nil => exact (h tail List.mem_cons_self).trans hlinked
  | cons g front ih =>
      exact ⟨(h g List.mem_cons_self).trans hlinked.1,
        ih (fun g hg => h g (List.mem_cons_of_mem _ hg)) hlinked.2⟩

theorem linked_append {next : Gid} (hfront : ∀ g ∈ front, (db'.pages g).next = (db.pages g).next)
    (htail : (db'.pages tail).next = next) (hnext : (db'.pages next).next = .undef)
    (hlinked : db.Linked front tail) : db'.Linked (front ++ [tail]) next := by
  induction front with
  | nil => exact ⟨htail, hnext⟩
  | cons g front ih =>
      refine ⟨?_, ih (fun g hg => hfront g (List.mem_cons_of_mem _ hg)) hlinked.2⟩
      rw [hfront g List.mem_cons_self, hlinked.1]
      cases front <;> rfl

theorem places_append (chain chain' : List Gid) :
    db.places header (chain ++ chain') = db.places header chain ++ db.places header chain' :=
  List.flatMap_append

theorem places_congr {chain : List Gid}
    (h : ∀ g ∈ chain, (db'.pages g).occupied = (db.pages g).occupied) :
    db'.places header chain = db.places header chain := by
  induction chain with
  | nil => rfl
  | cons g chain ih =>
      rw [places_cons, places_cons, h g List.mem_cons_self,
        ih fun g hg => h g (List.mem_cons_of_mem _ hg)]

theorem places_grown (hfront : ∀ g ∈ front, db'.pages g = db.pages g)
    (htail : (db'.pages tail).occupied = (db.pages tail).occupied + 1) :
    db'.places header (front ++ [tail])
      = db.places header (front ++ [tail]) ++ [⟨⟨header, tail⟩, (db.pages tail).occupied⟩] := by
  have hsame : db'.places header front = db.places header front :=
    places_congr fun g hg => by rw [hfront g hg]
  have hnone : ∀ db : Db, db.places header [] = [] := fun _ => rfl
  rw [places_append, places_append, hsame, places_cons, places_cons, htail, hnone, hnone,
    List.range_succ, List.map_append, List.append_nil, List.append_nil, List.append_assoc]
  rfl

theorem mem_places {chain : List Gid} {m : Mitor} :
    m ∈ db.places header chain
      ↔ m.gp.header = header ∧ m.gp.data ∈ chain ∧ m.row < (db.pages m.gp.data).occupied := by
  rw [places, List.mem_flatMap]
  constructor
  · rintro ⟨g, hg, hm⟩
    obtain ⟨row, hrow, rfl⟩ := List.mem_map.mp hm
    exact ⟨rfl, hg, List.mem_range.mp hrow⟩
  · rintro ⟨rfl, hdata, hrow⟩
    exact ⟨m.gp.data, hdata, List.mem_map.mpr ⟨m.row, List.mem_range.mpr hrow, rfl⟩⟩

theorem Threaded.notMem (h : Threaded header page db front tail) : tail ∉ front := by
  intro hmem
  exact (List.nodup_append.mp h.nodup).2.2 tail hmem tail List.mem_cons_self rfl

theorem Threaded.putRow (h : Threaded header page db front tail) (m : Mitor) (row : Row) :
    Threaded header page (db.putRow m row) front tail where
  nodup := h.nodup
  defined := h.defined
  apart := h.apart
  content := by rw [content_putRow, h.content]
  rown := by rw [rown_putRow, h.rown]
  full g hg := by rw [occupied_putRow, h.full g hg]
  room := by
    rw [occupied_putRow]
    exact h.room
  linked := linked_congr (fun g _ => next_putRow db m row g) h.linked

end Pages

/-- A row was allocated for an iterator: it is the last one of the chain, and no other row changed. -/
structure Grown (header : Gid) (page : Grid) (db : Db) (front : List Gid) (tail : Gid) (db' : Db)
    (front' : List Gid) (tail' : Gid) (m : Mitor) : Prop where
  threaded : Threaded header page db' front' tail'
  first : front'.headD tail' = front.headD tail
  places : db'.places header (front' ++ [tail']) = db.places header (front ++ [tail]) ++ [m]
  fresh : m ∉ db.places header (front ++ [tail])
  rows : ∀ m' ∈ db.places header (front ++ [tail]), db'.rowAt m' = db.rowAt m'
  kept : db'.pages header = db.pages header

section Alloc

variable {cfg : Config} {db : Db} {header tail : Gid} {front : List Gid} {page : Grid}

theorem alloc_room (h : Threaded header page db front tail)
    (hroom : (db.pages tail).occupied < page.rown) :
    ∃ db', meshAllocRow cfg db ⟨header, tail⟩
        = .ok (db', ⟨header, tail⟩, some ⟨⟨header, tail⟩, (db.pages tail).occupied⟩)
      ∧ Grown header page db front tail db' front tail ⟨⟨header, tail⟩, (db.pages tail).occupied⟩
      ∧ db'.meshSequence = db.meshSequence := by
  have hnext : (db.pages tail).next = .undef := next_of_linked h.linked
  have hgrid : gridAllocRow (db.pages tail)
      = ({ db.pages tail with occupied := (db.pages tail).occupied + 1 },
        some (db.pages tail).occupied) := by
    rw [gridAllocRow, if_pos (by rw [h.rown]; exact hroom)]
  have halloc : meshAllocRow cfg db ⟨header, tail⟩
      = .ok (db.setPage tail { db.pages tail with occupied := (db.pages tail).occupied + 1 },
        ⟨header, tail⟩, some ⟨⟨header, tail⟩, (db.pages tail).occupied⟩) := by
    rw [meshAllocRow]
    simp only [hgrid]
    rw [Build.assert_of cfg.build hnext]
    rfl
  have hother : ∀ g ∈ front, (db.setPage tail
      { db.pages tail with occupied := (db.pages tail).occupied + 1 }).pages g = db.pages g := by
    intro g hg
    exact pages_setPage_of_ne db _ fun heq => h.notMem (heq ▸ hg)
  refine ⟨_, halloc, ⟨?_, rfl, ?_, ?_, ?_, ?_⟩, rfl⟩
  · refine ⟨h.nodup, h.defined, h.apart, ?_, ?_, ?_, ?_, ?_⟩
    · rw [pages_setPage_self]
      exact h.content
    · rw [pages_setPage_self]
      exact h.rown
    · intro g hg
      rw [hother g hg]
      exact h.full g hg
    · rw [pages_setPage_self]
      exact hroom
    · apply linked_congr _ h.linked
      intro g hg
      rcases List.mem_append.mp hg with hg | hg
      · rw [hother g hg]
      · rw [List.mem_singleton.mp hg, pages_setPage_self]
  · exact places_grown hother (by rw [pages_setPage_self])
  · exact fun hmem => Nat.lt_irrefl _ (mem_places.mp hmem).2.2
  · intro m hm
    obtain ⟨-, hdata, -⟩ := mem_places.mp hm
    rcases List.mem_append.mp hdata with hdata | hdata
    · rw [rowAt, hother _ hdata, rowAt]
    · rw [rowAt, rowAt, List.mem_singleton.mp hdata, pages_setPage_self]
  · exact pages_setPage_of_ne db _ (h.apart tail (List.mem_append_right _ List.mem_cons_self)).symm

/-- The page behind a full tail, in its file or in a new one. -/
structure NewTail (header : Gid) (chain : List Gid) (used : List UInt64) (g : Gid) : Prop where
  fresh : g ∉ chain
  defined : g ≠ .undef
  apart : g ≠ header
  files : Files header (chain ++ [g]) g used

theorem nextTail_spec {k : Nat} {chain : List Gid} {used : List UInt64} (htail : tail ∈ chain)
    (hfiles : Files header chain tail used)
    (hfresh : FreshIds cfg.build (k + 1) db.meshSequence used) :
    (nextTail cfg db tail = .ok none ∧ sequenceNextval cfg.build db.meshSequence = .ok none)
      ∨ ∃ s g used', nextTail cfg db tail = .ok (some ({ db with meshSequence := s }, g))
        ∧ NewTail header chain used' g ∧ FreshIds cfg.build k s used'
        ∧ (sequenceNextval cfg.build db.meshSequence = .ok none → s = db.meshSequence) := by
  by_cases hpage : tail.page < gidMaxpage
  · have hnext := Gid.page_successor hpage
    have hfile := Gid.fileId_successor tail
    right
    refine ⟨db.meshSequence, tail.successor, used, ?_, ?_, hfresh.of_succ, fun _ => rfl⟩
    · rw [nextTail, if_pos hpage]
      rfl
    · constructor
      · intro hmem
        have hle := UInt64.le_iff_toNat_le.mp (hfiles.behind _ hmem hfile)
        omega
      · intro hundef
        rw [hundef] at hnext
        exact Nat.succ_ne_zero _ hnext.symm
      · intro heq
        apply hfiles.apart
        rw [← heq, hfile]
      · refine ⟨fun g hg => ?_, fun g hg heq => ?_, hfiles.known, ?_⟩
        · rcases List.mem_append.mp hg with hg | hg
          · exact hfiles.files g hg
          · rw [List.mem_singleton.mp hg, hfile]
            exact hfiles.files tail htail
        · rcases List.mem_append.mp hg with hg | hg
          · rw [hfile] at heq
            have hle := UInt64.le_iff_toNat_le.mp (hfiles.behind g hg heq)
            rw [UInt64.le_iff_toNat_le]
            omega
          · obtain rfl := List.mem_singleton.mp hg
            exact UInt64.le_iff_toNat_le.mpr (Nat.le_refl _)
        · rw [hfile]
          exact hfiles.apart
  · unfold FreshIds at hfresh
    rw [nextTail, if_neg hpage]
    cases hnext : sequenceNextval cfg.build db.meshSequence with
    | error fault =>
        rw [hnext] at hfresh
        exact hfresh.elim
    | ok next =>
        rw [hnext] at hfresh
        cases next with
        | none => exact Or.inl ⟨rfl, rfl⟩
        | some next =>
            obtain ⟨s, currval⟩ := next
            obtain ⟨hzero, hnew, hrest⟩ := hfresh
            right
            refine ⟨s, .ofParts currval.toUInt64 0, _, rfl, ?_, hrest, fun h => by cases h⟩
            generalize Gid.ofParts currval.toUInt64 0 = g at hzero hnew
            constructor
            · exact fun hmem => hnew (hfiles.files g hmem)
            · rintro rfl
              exact hzero rfl
            · rintro rfl
              exact hnew hfiles.known
            · refine ⟨fun g' hg' => ?_, fun g' hg' heq => ?_, ?_, ?_⟩
              · rcases List.mem_append.mp hg' with hg' | hg'
                · exact List.mem_cons_of_mem _ (hfiles.files g' hg')
                · rw [List.mem_singleton.mp hg']
                  exact List.mem_cons_self
              · rcases List.mem_append.mp hg' with hg' | hg'
                · exact absurd (heq ▸ hfiles.files g' hg') hnew
                · obtain rfl := List.mem_singleton.mp hg'
                  exact UInt64.le_iff_toNat_le.mpr (Nat.le_refl _)
              · exact List.mem_cons_of_mem _ hfiles.known
              · exact fun heq => hnew (heq ▸ hfiles.known)

theorem alloc_full {s : Sequence} {g : Gid} {content : GridContent}
    (h : Threaded header page db front tail) (hfull : (db.pages tail).occupied = page.rown)
    (hinit : dgridInit cfg.build cfg.pagesz content (db.pages header) = .ok page)
    (hpos : page.rown ≠ 0) (hnext : nextTail cfg db tail = .ok (some ({ db with meshSequence := s }, g)))
    (hfresh : g ∉ front ++ [tail]) (hdefined : g ≠ .undef) (hapart : g ≠ header) :
    ∃ db', meshAllocRow cfg db ⟨header, tail⟩ = .ok (db', ⟨header, g⟩, some ⟨⟨header, g⟩, 0⟩)
      ∧ Grown header page db front tail db' (front ++ [tail]) g ⟨⟨header, g⟩, 0⟩
      ∧ db'.meshSequence = s := by
  obtain ⟨hcontent, hlast, -, hoccupied, -⟩ := dgridInit_eq_ok hinit
  have hundef : (db.pages tail).next = .undef := next_of_linked h.linked
  have hgt : g ≠ tail := fun heq => hfresh (heq ▸ List.mem_append_right _ List.mem_cons_self)
  have hheader : header ≠ tail :=
    (h.apart tail (List.mem_append_right _ List.mem_cons_self)).symm
  have hgrid : gridAllocRow (db.pages tail) = (db.pages tail, none) := by
    rw [gridAllocRow, if_neg (by rw [h.rown, hfull]; exact Nat.lt_irrefl _)]
  have hgrid' : gridAllocRow page = ({ page with occupied := 1 }, some 0) := by
    rw [gridAllocRow, if_pos (by omega), hoccupied]
  obtain ⟨db', hdb'⟩ : ∃ db' : Db, db' = ((({ db with meshSequence := s }).setPage g page).setPage tail
      { db.pages tail with next := g }).setPage g { page with occupied := 1 } := ⟨_, rfl⟩
  have halloc : meshAllocRow cfg db ⟨header, tail⟩
      = .ok (db', ⟨header, g⟩, some ⟨⟨header, g⟩, 0⟩) := by
    rw [meshAllocRow]
    simp only [hgrid, setPage_self]
    rw [Build.assert_of cfg.build hundef]
    simp only [bind, Except.bind, hnext, h.content, hcontent, hinit]
    simp only [pages_setPage_self, pages_setPage_of_ne _ _ hgt, pages_setPage_of_ne _ _ hgt.symm,
      hgrid', hdb']
    rfl
  have hnew : db'.pages g = { page with occupied := 1 } := by
    rw [hdb', pages_setPage_self]
  have hold : db'.pages tail = { db.pages tail with next := g } := by
    rw [hdb', pages_setPage_of_ne _ _ hgt.symm, pages_setPage_self]
  have hother : ∀ g', g' ≠ g → g' ≠ tail → db'.pages g' = db.pages g' := by
    intro g' hg' htail
    rw [hdb', pages_setPage_of_ne _ _ hg', pages_setPage_of_ne _ _ htail, pages_setPage_of_ne _ _ hg']
  have hfront : ∀ g' ∈ front, db'.pages g' = db.pages g' := by
    intro g' hg'
    apply hother g'
    · exact fun heq => hfresh (heq ▸ List.mem_append_left _ hg')
    · exact fun heq => h.notMem (heq ▸ hg')
  refine ⟨db', halloc, ⟨?_, ?_, ?_, ?_, ?_, ?_⟩, by rw [hdb']; rfl⟩
  · refine ⟨?_, ?_, ?_, ?_, ?_, ?_, ?_, ?_⟩
    · rw [List.nodup_append]
      refine ⟨h.nodup, List.nodup_singleton g, fun a ha b hb heq => ?_⟩
      rw [List.mem_singleton.mp hb] at heq
      exact hfresh (heq ▸ ha)
    · intro g' hg'
      rcases List.mem_append.mp hg' with hg' | hg'
      · exact h.defined g' hg'
      · rw [List.mem_singleton.mp hg']
        exact hdefined
    · intro g' hg'
      rcases List.mem_append.mp hg' with hg' | hg'
      · exact h.apart g' hg'
      · rw [List.mem_singleton.mp hg']
        exact hapart
    · rw [hnew]
    · rw [hnew]
    · intro g' hg'
      rcases List.mem_append.mp hg' with hg' | hg'
      · rw [hfront g' hg']
        exact h.full g' hg'
      · rw [List.mem_singleton.mp hg', hold]
        exact hfull
    · rw [hnew]
      exact Nat.pos_of_ne_zero hpos
    · apply linked_append (fun g' hg' => by rw [hfront g' hg']) (by rw [hold]) _ h.linked
      rw [hnew]
      exact hlast
  · cases front <;> rfl
  · have hsame : db'.places header (front ++ [tail]) = db.places header (front ++ [tail]) := by
      apply places_congr
      intro g' hg'
      rcases List.mem_append.mp hg' with hg' | hg'
      · rw [hfront g' hg']
      · rw [List.mem_singleton.mp hg', hold]
    rw [places_append, hsame, places_cons, hnew]
    rfl
  · exact fun hmem => hfresh (mem_places.mp hmem).2.1
  · intro m hm
    obtain ⟨-, hdata, -⟩ := mem_places.mp hm
    rcases List.mem_append.mp hdata with hdata | hdata
    · rw [rowAt, hfront _ hdata, rowAt]
    · rw [rowAt, rowAt, List.mem_singleton.mp hdata, hold]
  · exact hother header hapart.symm hheader

theorem Grown.putRow {db' : Db} {front' : List Gid} {tail' : Gid} {m : Mitor}
    (h : Grown header page db front tail db' front' tail' m) (row : Row) :
    Grown header page db front tail (db'.putRow m row) front' tail' m
      ∧ (db'.putRow m row).rowAt m = row := by
  have hm : m ∈ db'.places header (front' ++ [tail']) := by
    rw [h.places]
    exact List.mem_append_right _ List.mem_cons_self
  obtain ⟨hheader, hdata, -⟩ := mem_places.mp hm
  refine ⟨⟨h.threaded.putRow m row, h.first, ?_, h.fresh, ?_, ?_⟩, row_putRow db' m row⟩
  · rw [← h.places]
    exact places_congr fun g _ => occupied_putRow db' m row g
  · intro m' hm'
    rw [← h.rows m' hm', rowAt, rowAt]
    by_cases hpage : m'.gp.data = m.gp.data
    · have hrow : m'.row ≠ m.row := by
        intro hrow
        apply h.fresh
        have hsame : m' = m := by
          obtain ⟨⟨header', data'⟩, row'⟩ := m'
          obtain ⟨⟨header'', data''⟩, row''⟩ := m
          have hheader' : header' = header := (mem_places.mp hm').1
          cases hheader
          cases hheader'
          cases hpage
          cases hrow
          rfl
        exact hsame ▸ hm'
      rw [hpage, Db.putRow, pages_setPage_self]
      exact Function.update_of_ne hrow _ _
    · rw [pages_putRow_of_ne db' m row hpage]
  · rw [pages_putRow_of_ne db' m row (h.threaded.apart _ hdata).symm, h.kept]

end Alloc

end Db

/-- A row is allocated, and the caller writes it. -/
def allocStep (cfg : Config) (s : Db × GidPair) (row : Row) :
    Except Fault ((Db × GidPair) × Option Mitor) := do
  let (db, tail, m) ← meshAllocRow cfg s.1 s.2
  match m with
  | none => return ((db, tail), none)
  | some m => return ((db.putRow m row, tail), some m)

namespace Db

section Run

variable {cfg : Config} {db : Db} {header tail : Gid} {front : List Gid} {page : Grid}
  {content : GridContent}

theorem allocStep_spec {k : Nat} {used : List UInt64} (h : Threaded header page db front tail)
    (hfiles : Files header (front ++ [tail]) tail used)
    (hfresh : FreshIds cfg.build (k + 1) db.meshSequence used)
    (hinit : dgridInit cfg.build cfg.pagesz content (db.pages header) = .ok page)
    (hpos : page.rown ≠ 0) (row : Row) :
    (allocStep cfg (db, ⟨header, tail⟩) row = .ok ((db, ⟨header, tail⟩), none)
        ∧ sequenceNextval cfg.build db.meshSequence = .ok none)
      ∨ ∃ db' front' tail' used' m,
        allocStep cfg (db, ⟨header, tail⟩) row = .ok ((db', ⟨header, tail'⟩), some m)
        ∧ Grown header page db front tail db' front' tail' m ∧ db'.rowAt m = row
        ∧ Files header (front' ++ [tail']) tail' used'
        ∧ FreshIds cfg.build k db'.meshSequence used'
        ∧ (sequenceNextval cfg.build db.meshSequence = .ok none →
          db'.meshSequence = db.meshSequence) := by
  have htail : tail ∈ front ++ [tail] := List.mem_append_right _ List.mem_cons_self
  by_cases hroom : (db.pages tail).occupied < page.rown
  · obtain ⟨db', halloc, hgrown, hsequence⟩ := alloc_room h hroom
    obtain ⟨hput, hrow⟩ := hgrown.putRow row
    right
    refine ⟨_, front, tail, used, _, ?_, hput, hrow, hfiles, ?_, fun _ => hsequence⟩
    · rw [allocStep, halloc]
      rfl
    · show FreshIds cfg.build k db'.meshSequence used
      rw [hsequence]
      exact hfresh.of_succ
  · have hfull : (db.pages tail).occupied = page.rown := Nat.le_antisymm h.room (Nat.not_lt.mp hroom)
    rcases nextTail_spec htail hfiles hfresh with
      ⟨hnext, hused⟩ | ⟨s, g, used', hnext, hnew, hrest, hsame⟩
    · left
      have hgrid : gridAllocRow (db.pages tail) = (db.pages tail, none) := by
        rw [gridAllocRow, if_neg (by rw [h.rown]; exact hroom)]
      refine ⟨?_, hused⟩
      rw [allocStep, meshAllocRow]
      simp only [hgrid, setPage_self]
      rw [Build.assert_of cfg.build (next_of_linked h.linked)]
      simp only [bind, Except.bind, hnext]
      rfl
    · obtain ⟨db', halloc, hgrown, rfl⟩ :=
        alloc_full h hfull hinit hpos hnext hnew.fresh hnew.defined hnew.apart
      obtain ⟨hput, hrow⟩ := hgrown.putRow row
      right
      refine ⟨_, front ++ [tail], g, used', _, ?_, hput, hrow, hnew.files, hrest, hsame⟩
      rw [allocStep, halloc]
      rfl

/-- What a run of allocations leaves: the chain with its rows. -/
structure Allocations (cfg : Config) (header : Gid) (page : Grid) (first : Gid) (db : Db)
    (front : List Gid) (tail : Gid) (hist : List (Row × Option Mitor)) : Prop where
  threaded : Threaded header page db front tail
  first : front.headD tail = first
  places : db.places header (front ++ [tail]) = hist.filterMap Prod.snd
  rows : (db.places header (front ++ [tail])).map db.rowAt
    = hist.filterMap fun answer => answer.2.map fun _ => answer.1
  complete : (∀ answer ∈ hist, answer.2 ≠ none)
    ∨ sequenceNextval cfg.build db.meshSequence = .ok none

theorem exec_allocStep {first : Gid} {used : List UInt64} {hist : List (Row × Option Mitor)}
    (rows : List Row) (h : Allocations cfg header page first db front tail hist)
    (hfiles : Files header (front ++ [tail]) tail used)
    (hfresh : FreshIds cfg.build rows.length db.meshSequence used)
    (hinit : dgridInit cfg.build cfg.pagesz content (db.pages header) = .ok page)
    (hpos : page.rown ≠ 0) :
    ∃ db' front' tail' hist', Machine.exec (allocStep cfg) (db, ⟨header, tail⟩) rows
        = .ok ((db', ⟨header, tail'⟩), hist')
      ∧ Allocations cfg header page first db' front' tail' (hist ++ hist') := by
  induction rows generalizing db front tail used hist with
  | nil => exact ⟨db, front, tail, [], rfl, by rwa [List.append_nil]⟩
  | cons row rows ih =>
      have hcons : ∀ answer : Row × Option Mitor, ∀ rest,
          hist ++ answer :: rest = hist ++ [answer] ++ rest := fun answer rest => by
        rw [List.append_assoc, List.singleton_append]
      rcases allocStep_spec h.threaded hfiles hfresh hinit hpos row with
        ⟨hstep, hused⟩ | ⟨db₁, front₁, tail₁, used₁, m, hstep, hgrown, hrow, hfiles₁, hfresh₁, hsame⟩
      · have hadded : Allocations cfg header page first db front tail (hist ++ [(row, none)]) := by
          refine ⟨h.threaded, h.first, ?_, ?_, Or.inr hused⟩
          · rw [List.filterMap_append, h.places]
            exact (List.append_nil _).symm
          · rw [List.filterMap_append, h.rows]
            exact (List.append_nil _).symm
        obtain ⟨db', front', tail', hist', hexec, hall⟩ := ih hadded hfiles hfresh.of_succ hinit
        refine ⟨db', front', tail', (row, none) :: hist', ?_, by rwa [hcons]⟩
        exact Machine.exec_cons_eq_ok.mpr ⟨_, _, _, hstep, hexec, rfl⟩
      · have hadded : Allocations cfg header page first db₁ front₁ tail₁ (hist ++ [(row, some m)]) := by
          refine ⟨hgrown.threaded, hgrown.first.trans h.first, ?_, ?_, ?_⟩
          · rw [hgrown.places, List.filterMap_append, h.places]
            rfl
          · rw [hgrown.places, List.map_append, List.map_congr_left hgrown.rows,
              List.filterMap_append, h.rows, List.map_singleton, hrow]
            rfl
          · rcases h.complete with hcomplete | hused
            · left
              intro answer hanswer
              rcases List.mem_append.mp hanswer with hanswer | hanswer
              · exact hcomplete answer hanswer
              · rw [List.mem_singleton.mp hanswer]
                exact Option.some_ne_none m
            · right
              rw [hsame hused, hused]
        obtain ⟨db', front', tail', hist', hexec, hall⟩ :=
          ih hadded hfiles₁ hfresh₁ (by rw [hgrown.kept]; exact hinit)
        refine ⟨db', front', tail', (row, some m) :: hist', ?_, by rwa [hcons]⟩
        exact Machine.exec_cons_eq_ok.mpr ⟨_, _, _, hstep, hexec, rfl⟩

/-- A page that `next` leads to from another one. -/
inductive Reaches (db : Db) (first : Gid) : Gid → Prop where
  | first : Reaches db first first
  | next {g : Gid} : Reaches db first g → (db.pages g).next ≠ .undef →
      Reaches db first (db.pages g).next

theorem headD_mem (front : List Gid) (tail : Gid) : front.headD tail ∈ front ++ [tail] := by
  cases front <;> exact List.mem_cons_self

/-- The page behind one that is not the last is in the chain. -/
theorem next_mem_of_linked (h : db.Linked front tail) {g : Gid} (hg : g ∈ front) :
    (db.pages g).next ∈ front ++ [tail] := by
  induction front with
  | nil => cases hg
  | cons g' front ih =>
      rcases List.mem_cons.mp hg with rfl | hg
      · rw [h.1]
        exact List.mem_cons_of_mem _ (headD_mem front tail)
      · exact List.mem_cons_of_mem _ (ih h.2 hg)

theorem mem_of_reaches (h : db.Linked front tail) {g : Gid}
    (hreaches : db.Reaches (front.headD tail) g) : g ∈ front ++ [tail] := by
  induction hreaches with
  | first => exact headD_mem front tail
  | @next g _ hnext hg =>
      rcases List.mem_append.mp hg with hg | hg
      · exact next_mem_of_linked h hg
      · rw [List.mem_singleton.mp hg] at hnext
        exact absurd (next_of_linked h) hnext

theorem Reaches.cons {g g' : Gid} (hnext : (db.pages g).next ≠ .undef)
    (h : db.Reaches (db.pages g).next g') : db.Reaches g g' := by
  induction h with
  | first => exact .next .first hnext
  | next _ hnext' ih => exact .next ih hnext'

theorem reaches_tail (h : db.Linked front tail) (hdefined : ∀ g ∈ front ++ [tail], g ≠ .undef) :
    db.Reaches (front.headD tail) tail := by
  induction front with
  | nil => exact .first
  | cons g front ih =>
      have hrest := ih h.2 fun g hg => hdefined g (List.mem_cons_of_mem _ hg)
      have hnext : (db.pages g).next ≠ .undef := by
        rw [h.1]
        exact hdefined _ (List.mem_cons_of_mem _ (headD_mem front tail))
      rw [← h.1] at hrest
      exact hrest.cons hnext

theorem Threaded.next_eq_undef_iff (h : Threaded header page db front tail) {g : Gid}
    (hg : g ∈ front ++ [tail]) : (db.pages g).next = .undef ↔ g = tail := by
  constructor
  · intro hnext
    rcases List.mem_append.mp hg with hg | hg
    · exact absurd hnext (h.defined _ (next_mem_of_linked h.linked hg))
    · exact List.mem_singleton.mp hg
  · rintro rfl
    exact next_of_linked h.linked

end Run

end Db

/-- **The chain of pages behaves like a list of rows**: `mitor_next` meets the rows in the order of their
allocation, each as the caller wrote it, and only the tail has no successor. A call allocates no row only where the
sequence is used up. -/
theorem mesh_alloc_row_refines_list (cfg : Config) {db : Db} {gp : GidPair} {content : GridContent}
    {page : Grid} (hinit : dgridInit cfg.build cfg.pagesz content (db.pages gp.header) = .ok page)
    (hpage : db.pages gp.data = page) (hpos : page.rown ≠ 0) (hheader : gp.header ≠ .undef)
    (hdata : gp.data ≠ .undef) (hapart : gp.header.fileId ≠ gp.data.fileId) (rows : List Row)
    (hfresh : FreshIds cfg.build rows.length db.meshSequence [gp.header.fileId, gp.data.fileId]) :
    ∃ db' tail hist, Machine.exec (allocStep cfg) (db, gp) rows = .ok ((db', tail), hist)
      ∧ (∀ fuel, rows.length < fuel → db'.walk fuel ⟨gp, 0⟩ = hist.filterMap Prod.snd)
      ∧ (hist.filterMap Prod.snd).map db'.rowAt
        = (hist.filterMap fun answer => answer.2.map fun _ => answer.1)
      ∧ db'.Reaches gp.data tail.data
      ∧ (∀ g, db'.Reaches gp.data g → ((db'.pages g).next = .undef ↔ g = tail.data))
      ∧ ((∀ answer ∈ hist, answer.2 ≠ none)
        ∨ sequenceNextval cfg.build db'.meshSequence = .ok none) := by
  obtain ⟨header, data⟩ := gp
  obtain ⟨-, hlast, -, hoccupied, -⟩ := dgridInit_eq_ok hinit
  have hplaces : db.places header [data] = [] := by
    rw [Db.places_cons, hpage, hoccupied]
    rfl
  have hthreaded : Db.Threaded header page db [] data := by
    refine ⟨List.nodup_singleton data, fun g hg => ?_, fun g hg => ?_, ?_, ?_, fun g hg => ?_, ?_, ?_⟩
    · rwa [List.mem_singleton.mp hg]
    · rw [List.mem_singleton.mp hg]
      exact fun heq => hapart (congrArg Gid.fileId heq).symm
    · rw [hpage]
    · rw [hpage]
    · cases hg
    · rw [hpage, hoccupied]
      exact Nat.zero_le _
    · show (db.pages data).next = .undef
      rw [hpage, hlast]
  have hnone : Db.Allocations cfg header page data db [] data [] :=
    ⟨hthreaded, rfl, hplaces, by rw [List.nil_append, hplaces]; rfl,
      Or.inl fun answer hanswer => nomatch hanswer⟩
  have hfiles : Db.Files header [data] data [header.fileId, data.fileId] := by
    refine ⟨fun g hg => ?_, fun g hg _ => ?_, List.mem_cons_self, hapart⟩
    · rw [List.mem_singleton.mp hg]
      exact List.mem_cons_of_mem _ List.mem_cons_self
    · obtain rfl := List.mem_singleton.mp hg
      exact UInt64.le_iff_toNat_le.mpr (Nat.le_refl _)
  obtain ⟨db', front, tail, hist, hexec, h⟩ := Db.exec_allocStep rows hnone hfiles hfresh hinit hpos
  rw [List.nil_append] at h
  have hdefined := h.threaded.defined
  have hlinked := h.threaded.linked
  have hlen : (hist.filterMap Prod.snd).length ≤ rows.length := by
    rw [← Machine.map_fst_of_exec hexec, List.length_map]
    exact List.length_filterMap_le _ _
  refine ⟨db', ⟨header, tail⟩, hist, hexec, fun fuel hfuel => ?_, ?_, ?_, fun g hg => ?_, h.complete⟩
  · rw [← h.places, ← h.first]
    apply Db.walk_chain hheader hdefined _ hlinked
    · rw [h.places]
      omega
    · intro g hg
      rw [h.threaded.full g hg]
      exact Nat.pos_of_ne_zero hpos
  · rw [← h.places, h.rows]
  · rw [← h.first]
    exact Db.reaches_tail hlinked hdefined
  · rw [← h.first] at hg
    exact h.threaded.next_eq_undef_iff (Db.mem_of_reaches hlinked hg)

/-- The header of a table with one column. -/
def narrowHeader : Grid where
  content := .pure
  next := .undef
  rowsz := 40
  rown := 101
  occupied := 1
  datasz := 4
  columns := fun _ => ⟨[97], 0, .integer, 0⟩
  rows := fun _ => .zero

/-- A page of it with room for one row. -/
def narrowPage : Grid where
  content := .mvcc
  next := .undef
  rowsz := 4
  rown := 1
  occupied := 0
  datasz := 0
  columns := fun _ => ⟨[], 0, .unknown, 0⟩
  rows := fun _ => .zero

def narrowDb : Db where
  pages g := if g = ⟨1⟩ then narrowHeader else narrowPage
  sequence := ⟨1, 100, 2, 1, 0, 1⟩
  meshSequence := ⟨1, 100, 2, 1, 0, 1⟩
  user := ⟨10, false, []⟩
  schema := ⟨10, false, []⟩
  relation := ⟨10, false, []⟩
  trans := ⟨⟨10, false, []⟩, fun _ => .aborted⟩

/-- The last page of a file. -/
def narrowGid : GidPair := ⟨⟨1⟩, .ofParts 2 gidMaxpage⟩

/-- Three rows from the last page of a file on. -/
theorem mesh_alloc_row_refines_list_narrow :
    ∃ db' tail hist, Machine.exec (allocStep ⟨.debug, 28⟩) (narrowDb, narrowGid)
        [Row.zero, fun _ => ⟨7, []⟩, Row.zero] = .ok ((db', tail), hist)
      ∧ (∀ fuel, 3 < fuel → db'.walk fuel ⟨narrowGid, 0⟩ = hist.filterMap Prod.snd)
      ∧ (hist.filterMap Prod.snd).map db'.rowAt
        = (hist.filterMap fun answer => answer.2.map fun _ => answer.1)
      ∧ db'.Reaches narrowGid.data tail.data
      ∧ (∀ g, db'.Reaches narrowGid.data g → ((db'.pages g).next = .undef ↔ g = tail.data))
      ∧ ((∀ answer ∈ hist, answer.2 ≠ none)
        ∨ sequenceNextval .debug db'.meshSequence = .ok none) := by
  have hinit : dgridInit .debug 28 .mvcc narrowHeader = .ok narrowPage := by rfl
  have hfresh : FreshIds .debug 3 ⟨1, 100, 2, 1, 0, 1⟩ [1, 2] :=
    ⟨by decide, by decide, by decide, by decide, by decide, by decide, trivial⟩
  have hheader : narrowGid.header.fileId = 1 := by decide
  have hdata : narrowGid.data.fileId = 2 := by decide
  have hpage : narrowDb.pages narrowGid.data = narrowPage := rfl
  exact @mesh_alloc_row_refines_list ⟨.debug, 28⟩ narrowDb narrowGid .mvcc narrowPage hinit hpage
    (by decide) (by decide) (by decide) (by decide) [Row.zero, fun _ => ⟨7, []⟩, Row.zero]
    (by rw [hheader, hdata]; exact hfresh)

end Scroller
