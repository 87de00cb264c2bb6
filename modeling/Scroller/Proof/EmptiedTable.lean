import Scroller.Proof.DeleteLoop
import Scroller.Proof.StoredPages

/-!
# Deleting all rows of a table

A `DELETE` without a clause leaves a table with versions empty. In a table without versions a deletion moves the
rows behind it up while the iterator goes on: every second row of a page stays, and the loop ends behind a page with
an odd number of rows. A debug build also stops at the last slot of a page.
-/

namespace Scroller.Db

open Execute GridPage

/-- A table with the chain of its data pages. In a table with versions the columns lie apart within the rows. -/
structure Table (content : GridContent) (gp : GidPair) (front : List Gid) (tail : Gid) (db : Db) : Prop where
  header : gp.header ≠ .undef
  first : gp.data = front.headD tail
  linked : db.Linked front tail
  nodup : (front ++ [tail]).Nodup
  defined : ∀ g ∈ front ++ [tail], g ≠ .undef
  apart : gp.header ∉ front ++ [tail]
  contents : ∀ g ∈ front ++ [tail], (db.pages g).content = content
  room : ∀ g ∈ front ++ [tail], (db.pages g).occupied ≤ (db.pages g).rown
  rown : ∀ g ∈ front ++ [tail], (db.pages g).rown < 2 ^ 16
  columns : content = .mvcc → (db.pages gp.header).HeaderPage
  laid : content = .mvcc → (db.pages gp.header).Laid

/-- A session with a transaction, which it needs in a table with versions. -/
def HasTran (content : GridContent) (session : Session) : Prop :=
  content = .mvcc → ∃ tran, session.tran = some tran ∧ tran.key ≠ tranInvalidId

/-- The places that rows had in the beginning, where every one is deleted before the next: in a table without versions
the rows behind a deleted one move up. -/
def origins (db : Db) : (Gid → Nat → Nat) → List Mitor → List (Gid × Nat)
  | _, [] => []
  | row, m :: ms =>
      (m.gp.data, row m.gp.data m.row) ::
        origins db (match (db.pages m.gp.data).content with
          | .pure => Function.update row m.gp.data fun n =>
              if n < m.row then row m.gp.data n else row m.gp.data (n + 1)
          | .mvcc => row) ms

/-- The loop of a `DELETE` without a clause comes to its end; it deleted every visible row of the table once and no
other row, and a new scan finds no row. -/
def Emptied (cfg : Config) (session : Session) (gp : GidPair) (chain : List Gid) (db : Db) : Prop :=
  ∃ fuel t db' ms t', titorInit cfg fuel db session.tran gp = .ok t
    ∧ rowLoop cfg (dmlDeleteRow cfg session) (fun _ => some true) fuel db t = .ok (db', ms, true)
    ∧ (db.origins (fun _ n => n) ms).Perm
      (((db.places gp.header chain).filter (db.isVisible cfg session.tran)).map Execute.place)
    ∧ titorInit cfg fuel db' session.tran gp = .ok t' ∧ titorIsValid db' t' = false

/-- The pages of a chain lie in their frames with the bytes of their rows. -/
def ChainStored (cfg : Config) (mem : Memory) (gp : GidPair) (chain : List Gid) (db : Db) : Prop :=
  ∀ g ∈ chain, Mirrors (db.pages gp.header) mem (cfg.frame g) cfg.psz.toNat (db.pages g) (db.pages g).rown

/-- What happens to the rows of a chain happens to their bytes. -/
def ChainOnBytes (cfg : Config) (gp : GidPair) (chain : List Gid) (db db' : Db) : Prop :=
  ∃ hist, db.Calls cfg hist db' ∧ ∀ mem, db.ChainStored cfg mem gp chain →
    ∃ mem', Machine.exec (GridPage.call cfg) mem (hist.map Prod.fst) = .ok (mem', hist)
      ∧ db'.ChainStored cfg mem' gp chain

/-- Without versions the table has at most one row, and that on its first page; in a debug build it is not in the
last slot of the page. With versions its first page has a
row, the tests of the rows in front of the first page without rows come to an end, and no visible row is behind it. -/
def CanBeEmptied (cfg : Config) (session : Session) (content : GridContent) (gp : GidPair) (chain : List Gid)
    (db : Db) : Prop :=
  match content with
  | .pure =>
      (db.places gp.header chain).length ≤ 1 ∧ db.places gp.header chain.tail = []
        ∧ (cfg.build = .debug → 0 < (db.pages gp.data).occupied → 1 < (db.pages gp.data).rown)
  | .mvcc =>
      0 < (db.pages gp.data).occupied
        ∧ (∀ m ∈ db.scanned gp.header chain, ∃ visible, rowIsVisible cfg db session.tran m = .ok visible)
        ∧ ∀ m ∈ db.places gp.header chain, db.isVisible cfg session.tran m → m ∈ db.scanned gp.header chain

variable {cfg : Config} {fuel : Nat} {session : Session} {db db' : Db} {gp : GidPair} {front : List Gid} {tail : Gid}

/-! ### Tables with versions -/

section Versions

variable {tran : Tran} {rows : List Mitor}

/-- `titor_init` for a table whose first page has a row. -/
theorem titorInit_eq (hrow : db.VersionRow (db.pages gp.header) ⟨gp, 0⟩) (hvalid : mitorIsValid db ⟨gp, 0⟩ = true) :
    titorInit cfg fuel db (some tran) gp
      = (rowIsVisible cfg db (some tran) ⟨gp, 0⟩ >>= fun visible =>
          if visible then return ⟨⟨gp, 0⟩, some tran⟩ else titorNextLoop cfg db (some tran) fuel ⟨gp, 0⟩) := by
  have hcontent : (db.pages gp.data).content = .mvcc := hrow.content
  have htitor : titorIsValid db ⟨⟨gp, 0⟩, some tran⟩ = true := by simp [titorIsValid, hvalid]
  unfold titorInit titorNext
  dsimp only
  rw [hcontent, hrow.getTmin, hrow.getTmax]
  dsimp only [bind, Except.bind]
  rw [Build.assert_of _ (Option.some_ne_none tran), Build.assert_of _ hrow.page.findTmin,
    Build.assert_of _ hrow.page.findTmax, Build.assert_of _ rfl]
  dsimp only
  rw [if_neg (not_not.mpr htitor)]

theorem titorInit_passed {t : Titor} (hrow : db.VersionRow (db.pages gp.header) ⟨gp, 0⟩)
    (hwalks : db.Walks ⟨gp, 0⟩ (⟨gp, 0⟩ :: rows)) (h : titorInit cfg fuel db (some tran) gp = .ok t) :
    db.Passed cfg tran (⟨gp, 0⟩ :: rows) t := by
  cases hwalks with
  | cons hvalid hrows =>
      rw [titorInit_eq hrow hvalid] at h
      obtain ⟨visible, hvisible, h⟩ := bind_eq_ok.mp h
      cases visible with
      | true =>
          cases h
          exact ⟨[], _, rfl, List.forall_mem_nil _, rfl, .cons hvalid hrows, fun _ => hvisible⟩
      | false =>
          obtain ⟨passed, rest, rfl, hpassed, hstands⟩ := titorNextLoop_passed hrows h
          exact ⟨_ :: passed, rest, rfl, List.forall_mem_cons.mpr ⟨hvisible, hpassed⟩, hstands⟩

theorem titorInit_ok (hrow : db.VersionRow (db.pages gp.header) ⟨gp, 0⟩)
    (hwalks : db.Walks ⟨gp, 0⟩ (⟨gp, 0⟩ :: rows)) (htested : db.Tested cfg tran (⟨gp, 0⟩ :: rows))
    (hfuel : rows.length < fuel) : ∃ t, titorInit cfg fuel db (some tran) gp = .ok t := by
  cases hwalks with
  | cons hvalid hrows =>
      obtain ⟨visible, hvisible⟩ := htested _ List.mem_cons_self
      rw [titorInit_eq hrow hvalid, hvisible]
      cases visible with
      | true => exact ⟨_, rfl⟩
      | false => exact titorNextLoop_ok hrows (fun m hm => htested m (List.mem_cons_of_mem _ hm)) hfuel

theorem Passed.titorIsValid {t : Titor} (h : db.Passed cfg tran rows t)
    (hhidden : ∀ m ∈ rows, rowIsVisible cfg db (some tran) m = .ok false) : titorIsValid db t = false := by
  obtain ⟨passed, rest, rfl, -, hstands⟩ := h
  cases rest with
  | nil => exact hstands.titorIsValid_nil
  | cons m rest =>
      have hvisible := hstands.visible (List.cons_ne_nil _ _)
      have hwalks := hstands.walks
      generalize t.m = m' at hvisible hwalks
      cases hwalks with
      | cons hvalid hrows =>
          rw [hhidden m (List.mem_append_right _ List.mem_cons_self)] at hvisible
          cases hvisible

theorem origins_eq {ms : List Mitor} (h : ∀ m ∈ ms, (db.pages m.gp.data).content = .mvcc) :
    db.origins (fun _ n => n) ms = ms.map Execute.place := by
  induction ms with
  | nil => rfl
  | cons m ms ih =>
      rw [origins, h m List.mem_cons_self, List.map_cons]
      dsimp only
      rw [ih fun x hx => h x (List.mem_cons_of_mem _ hx)]
      rfl

theorem nodup_places (gid : Gid) {chain : List Gid} (hnodup : chain.Nodup) :
    ((db.places gid chain).map Execute.place).Nodup := by
  induction chain with
  | nil => exact List.nodup_nil
  | cons g chain ih =>
      obtain ⟨hg, hchain⟩ := List.nodup_cons.mp hnodup
      rw [places_cons, List.map_append, List.map_map]
      refine List.Nodup.append ?_ (ih hchain) ?_
      · exact List.nodup_range.map fun n n' heq => congrArg Prod.snd heq
      · intro x hx hx'
        obtain ⟨n, -, rfl⟩ := List.mem_map.mp hx
        obtain ⟨m, hm, heq⟩ := List.mem_map.mp hx'
        obtain rfl : m.gp.data = g := congrArg Prod.fst heq
        exact hg (mem_places.mp hm).2.1

theorem places_eq_scanned (gid : Gid) (chain : List Gid) :
    db.places gid chain
      = db.scanned gid chain ++ db.places gid (chain.dropWhile fun g => (db.pages g).occupied ≠ 0) := by
  unfold scanned
  rw [← places_append, List.takeWhile_append_dropWhile]

theorem mem_places_of_scanned {gid : Gid} {chain : List Gid} {m : Mitor} (h : m ∈ db.scanned gid chain) :
    m ∈ db.places gid chain := by
  rw [places_eq_scanned]
  exact List.mem_append_left _ h

theorem nodup_scanned (gid : Gid) {chain : List Gid} (hnodup : chain.Nodup) :
    ((db.scanned gid chain).map Execute.place).Nodup := by
  have hplaces := @nodup_places db gid _ hnodup
  rw [places_eq_scanned, List.map_append] at hplaces
  exact (List.nodup_append.mp hplaces).1

namespace Table

variable {content : GridContent}

theorem walks (h : db.Table content gp front tail) : db.Walks ⟨gp, 0⟩ (db.scanned gp.header (front ++ [tail])) := by
  have hwalks := walks_scanned h.header h.defined h.linked
  rw [← h.first] at hwalks
  exact hwalks

theorem data_mem (h : db.Table content gp front tail) : gp.data ∈ front ++ [tail] := by
  rw [h.first]
  exact headD_mem front tail

theorem isValid_first (h : db.Table content gp front tail) :
    mitorIsValid db ⟨gp, 0⟩ = true ↔ 0 < (db.pages gp.data).occupied :=
  isValid_iff h.header (h.defined _ h.data_mem) 0

theorem scanned_eq_cons (h : db.Table content gp front tail) (hfirst : 0 < (db.pages gp.data).occupied) :
    ∃ rows, db.scanned gp.header (front ++ [tail]) = ⟨gp, 0⟩ :: rows := by
  have hwalks := h.walks
  generalize db.scanned gp.header (front ++ [tail]) = rows at hwalks
  cases hwalks with
  | nil hinvalid =>
      rw [h.isValid_first.mpr hfirst] at hinvalid
      cases hinvalid
  | @cons _ rows hvalid hrows => exact ⟨rows, rfl⟩

theorem versionRow (h : db.Table .mvcc gp front tail) {m : Mitor} (hm : m ∈ db.places gp.header (front ++ [tail])) :
    db.VersionRow (db.pages m.gp.header) m := by
  obtain ⟨hheader, hdata, hrow⟩ := mem_places.mp hm
  exact ⟨hheader ▸ h.columns rfl, rfl, h.contents _ hdata, hrow, h.room _ hdata⟩

end Table

/-- What a loop behind `titor_init` has done to all rows of the scan. -/
theorem DeletedAll.of_passed {passed rest ms : List Mitor} (h : DeletedAll cfg tran db rest ms db')
    (hpassed : ∀ m ∈ passed, rowIsVisible cfg db (some tran) m = .ok false)
    (hcontent : ∀ m ∈ passed, (db.pages m.gp.data).content = .mvcc) (hnodup : ((passed ++ rest).map Execute.place).Nodup) :
    DeletedAll cfg tran db (passed ++ rest) ms db' := by
  have hnone : passed.filter (db.isVisible cfg (some tran)) = [] := by
    refine List.filter_eq_nil_iff.mpr fun m hm => ?_
    rw [isVisible_eq (hcontent m hm) (hpassed m hm)]
    exact Bool.false_ne_true
  have hlater : ∀ m ∈ passed, Execute.place m ∉ ms.map Execute.place := by
    intro m hm hmem
    obtain ⟨y, hy, heq⟩ := List.mem_map.mp hmem
    rw [h.hits] at hy
    rw [List.map_append] at hnodup
    exact (List.nodup_append.mp hnodup).2.2 _ (List.mem_map_of_mem hm) _
      (List.mem_map_of_mem (List.mem_filter.mp hy).1) heq.symm
  refine ⟨?_, ?_, h.changed, ?_⟩
  · intro m hm
    rcases List.mem_append.mp hm with hm | hm
    · exact ⟨false, hpassed m hm⟩
    · exact h.tested m hm
  · rw [List.filter_append, hnone, List.nil_append]
    exact h.hits
  · intro m hm
    rcases List.mem_append.mp hm with hm | hm
    · rw [h.changed.rowIsVisible (hlater m hm)]
      exact hpassed m hm
    · exact h.hidden m hm

namespace Table

variable (h : db.Table .mvcc gp front tail) (hkey : tran.key ≠ 0) (hsession : session.tran = some tran)
include h hkey hsession

/-- The loop deletes the visible ones of the rows that it is led over. -/
theorem deleted_of_loop {t : Titor} {ms : List Mitor} {finished : Bool}
    (hinit : titorInit cfg fuel db (some tran) gp = .ok t)
    (hloop : rowLoop cfg (dmlDeleteRow cfg session) (fun _ => some true) fuel db t = .ok (db', ms, finished)) :
    DeletedAll cfg tran db (db.scanned gp.header (front ++ [tail])) ms db' := by
  have hfirst := titorInit_first (h.contents _ h.data_mem) hinit
  obtain ⟨rows, hrows⟩ := h.scanned_eq_cons hfirst
  have hmem : ∀ m ∈ db.scanned gp.header (front ++ [tail]), db.VersionRow (db.pages m.gp.header) m :=
    fun m hm => h.versionRow (mem_places_of_scanned hm)
  have hnodup := @nodup_scanned db gp.header _ h.nodup
  have hwalks := h.walks
  rw [hrows] at hmem hnodup hwalks ⊢
  obtain ⟨passed, rest, heq, hpassed, hstands⟩ := titorInit_passed (hmem _ List.mem_cons_self) hwalks hinit
  rw [heq] at hmem hnodup ⊢
  have hrest := hnodup
  rw [List.map_append] at hrest
  have hdeleted := deleteLoop_spec hkey hsession hstands (fun m hm => hmem m (List.mem_append_right _ hm))
    (List.nodup_append.mp hrest).2.1 hloop
  exact hdeleted.of_passed hpassed (fun m hm => (hmem m (List.mem_append_left _ hm)).content) hnodup

theorem loop_ok (hfirst : 0 < (db.pages gp.data).occupied)
    (htested : db.Tested cfg tran (db.scanned gp.header (front ++ [tail]))) :
    ∃ fuel t db' ms, (db.scanned gp.header (front ++ [tail])).length ≤ fuel
      ∧ titorInit cfg fuel db (some tran) gp = .ok t
      ∧ rowLoop cfg (dmlDeleteRow cfg session) (fun _ => some true) fuel db t = .ok (db', ms, true) := by
  obtain ⟨rows, hrows⟩ := h.scanned_eq_cons hfirst
  have hmem : ∀ m ∈ db.scanned gp.header (front ++ [tail]), db.VersionRow (db.pages m.gp.header) m :=
    fun m hm => h.versionRow (mem_places_of_scanned hm)
  have hnodup := @nodup_scanned db gp.header _ h.nodup
  have hwalks := h.walks
  rw [hrows] at hmem hnodup hwalks htested ⊢
  obtain ⟨t, hinit⟩ := titorInit_ok (hmem _ List.mem_cons_self) hwalks htested
    (show rows.length < rows.length + 2 by omega)
  obtain ⟨passed, rest, heq, hpassed, hstands⟩ := titorInit_passed (hmem _ List.mem_cons_self) hwalks hinit
  rw [heq] at hmem hnodup htested
  rw [List.map_append] at hnodup
  have hlength := congrArg List.length heq
  rw [List.length_cons, List.length_append] at hlength
  obtain ⟨db', ms, hloop⟩ := deleteLoop_ok hkey hsession hstands
    (fun m hm => hmem m (List.mem_append_right _ hm)) (List.nodup_append.mp hnodup).2.1
    (fun m hm => htested m (List.mem_append_right _ hm)) (show rest.length < rows.length + 2 by omega)
  exact ⟨_, t, db', ms, by rw [List.length_cons]; omega, hinit, hloop⟩

omit hkey hsession in
theorem scan_again {ms : List Mitor} (hfirst : 0 < (db.pages gp.data).occupied)
    (hdeleted : DeletedAll cfg tran db (db.scanned gp.header (front ++ [tail])) ms db')
    (hfuel : (db.scanned gp.header (front ++ [tail])).length ≤ fuel) :
    ∃ t, titorInit cfg fuel db' (some tran) gp = .ok t ∧ titorIsValid db' t = false := by
  obtain ⟨rows, hrows⟩ := h.scanned_eq_cons hfirst
  have hplace : (⟨gp, 0⟩ : Mitor) ∈ db.places gp.header (front ++ [tail]) :=
    mem_places.mpr ⟨rfl, h.data_mem, hfirst⟩
  have hrow := (h.versionRow hplace).changedAt hdeleted.changed
  have hwalks := h.walks.changedAt hdeleted.changed
  have hhidden := hdeleted.hidden
  rw [hrows] at hwalks hhidden hfuel
  obtain ⟨t, hinit⟩ := titorInit_ok hrow hwalks (fun m hm => ⟨false, hhidden m hm⟩) hfuel
  exact ⟨t, hinit, (titorInit_passed hrow hwalks hinit).titorIsValid hhidden⟩

theorem emptied_iff_mvcc :
    Emptied cfg session gp (front ++ [tail]) db ↔ CanBeEmptied cfg session .mvcc gp (front ++ [tail]) db := by
  have horigins : ∀ {ms : List Mitor},
      ms = (db.scanned gp.header (front ++ [tail])).filter (db.isVisible cfg (some tran)) →
        db.origins (fun _ n => n) ms = ms.map Execute.place := by
    intro ms hms
    refine origins_eq fun m hm => ?_
    rw [hms] at hm
    exact (h.versionRow (mem_places_of_scanned (List.mem_filter.mp hm).1)).content
  unfold Emptied CanBeEmptied
  rw [hsession]
  constructor
  · rintro ⟨fuel, t, db', ms, t', hinit, hloop, hperm, -, -⟩
    have hdeleted := h.deleted_of_loop hkey hsession hinit hloop
    refine ⟨titorInit_first (h.contents _ h.data_mem) hinit, hdeleted.tested, fun m hm hvisible => ?_⟩
    rw [horigins hdeleted.hits] at hperm
    have hmem := hperm.mem_iff.mpr (List.mem_map_of_mem (List.mem_filter.mpr ⟨hm, hvisible⟩))
    obtain ⟨y, hy, heq⟩ := List.mem_map.mp hmem
    rw [hdeleted.hits] at hy
    have hy := (List.mem_filter.mp hy).1
    have hheader : y.gp.header = m.gp.header := by
      rw [(mem_places.mp hm).1, (mem_places.mp (mem_places_of_scanned hy)).1]
    exact eq_of_place hheader heq ▸ hy
  · rintro ⟨hfirst, htested, hvisible⟩
    obtain ⟨fuel, t, db', ms, hfuel, hinit, hloop⟩ := h.loop_ok hkey hsession hfirst htested
    have hdeleted := h.deleted_of_loop hkey hsession hinit hloop
    obtain ⟨t', hinit', hinvalid⟩ := h.scan_again hfirst hdeleted hfuel
    refine ⟨fuel, t, db', ms, t', hinit, hloop, ?_, hinit', hinvalid⟩
    have hnodup := @nodup_places db gp.header _ h.nodup
    have hbehind : (db.places gp.header ((front ++ [tail]).dropWhile fun g => (db.pages g).occupied ≠ 0)).filter
        (db.isVisible cfg (some tran)) = [] := by
      refine List.filter_eq_nil_iff.mpr fun m hm hseen => ?_
      have hplace : m ∈ db.places gp.header (front ++ [tail]) := by
        rw [places_eq_scanned]
        exact List.mem_append_right _ hm
      rw [places_eq_scanned, List.map_append] at hnodup
      exact (List.nodup_append.mp hnodup).2.2 _ (List.mem_map_of_mem (hvisible m hplace hseen)) _
        (List.mem_map_of_mem hm) rfl
    rw [horigins hdeleted.hits, places_eq_scanned, List.filter_append, hbehind, List.append_nil, ← hdeleted.hits]

end Table

end Versions

/-! ### Bytes -/

section Bytes

variable {chain : List Gid} {db'' : Db}

theorem ChainOnBytes.refl (cfg : Config) (gp : GidPair) (chain : List Gid) (db : Db) :
    db.ChainOnBytes cfg gp chain db :=
  ⟨[], .refl db, fun mem hmem => ⟨mem, rfl, hmem⟩⟩

theorem ChainOnBytes.trans (h : db.ChainOnBytes cfg gp chain db') (h' : db'.ChainOnBytes cfg gp chain db'') :
    db.ChainOnBytes cfg gp chain db'' := by
  obtain ⟨hist, hcalls, hbytes⟩ := h
  obtain ⟨rest, hcalls', hbytes'⟩ := h'
  refine ⟨hist ++ rest, hcalls.append hcalls', fun mem hmem => ?_⟩
  obtain ⟨mem₁, hexec, hmem₁⟩ := hbytes mem hmem
  obtain ⟨mem₂, hexec', hmem₂⟩ := hbytes' mem₁ hmem₁
  rw [List.map_append]
  exact ⟨mem₂, Machine.exec_append hexec hexec', hmem₂⟩

variable (hpage : sizeofGrid ≤ cfg.psz.toNat) (hapart : gp.header ∉ chain)
include hpage hapart

theorem chainOnBytes_put {m : Mitor} {column : Nat} {datum : Datum} (hlaid : (db.pages gp.header).Laid)
    (hheader : m.gp.header = gp.header) (hdata : m.gp.data ∈ chain) (hrow : m.row < 2 ^ 16)
    (h : mitorPutDatum cfg db m column datum = .ok (some db')) : db.ChainOnBytes cfg gp chain db' := by
  obtain ⟨grid, hgrid, h⟩ := bind_eq_ok.mp h
  cases grid with
  | none => cases h
  | some grid =>
      cases h
      have hcell : Grid.cellStep cfg.build (db.pages gp.header) cfg.psz (db.pages m.gp.data)
          (.put m.row.toUInt16 column datum) = .ok (grid, .put true) := by
        rw [Grid.cellStep, Nat.toUInt16, UInt16.toNat_ofNat', Nat.mod_eq_of_lt hrow, ← hheader, hgrid]
        rfl
      refine ⟨[(⟨db.pages gp.header, m.gp.data, _⟩, _)], .one hcell, fun mem hmem => ?_⟩
      obtain ⟨mem', hcall, hmirrors, hout⟩ := call_mirrors (c := ⟨db.pages gp.header, m.gp.data, _⟩) hpage hlaid
        (put_ne_delete _ _ _) (Or.inr (hmem _ hdata)) hcell
      refine ⟨mem', exec_one hcall, fun g hg => ?_⟩
      have hne : gp.header ≠ m.gp.data := fun heq => hapart (heq ▸ hdata)
      rw [pages_setPage_of_ne _ _ hne]
      by_cases heq : g = m.gp.data
      · subst heq
        rw [pages_setPage_self]
        exact hmirrors
      · rw [pages_setPage_of_ne _ _ heq]
        refine (hmem g hg).congr fun p hlow hhigh => hout p ?_
        exact Config.outside_of_ne (Ne.symm heq) hlow hhigh

/-- What the loop does to the rows of the chain it does to their bytes. -/
theorem deleteLoop_onBytes {tran : Tran} {t : Titor} {rows ms : List Mitor} {finished : Bool} (hkey : tran.key ≠ 0)
    (hsession : session.tran = some tran) (hlaid : (db.pages gp.header).Laid) (hstands : db.StandsAt cfg tran t rows)
    (hrows : ∀ m ∈ rows, db.VersionRow (db.pages m.gp.header) m)
    (hchain : ∀ m ∈ rows, m.gp.header = gp.header ∧ m.gp.data ∈ chain ∧ m.row < 2 ^ 16)
    (hloop : rowLoop cfg (dmlDeleteRow cfg session) (fun _ => some true) fuel db t = .ok (db', ms, finished)) :
    db.ChainOnBytes cfg gp chain db' := by
  induction fuel generalizing db t rows ms with
  | zero => cases hloop
  | succ fuel ih =>
      rw [rowLoop] at hloop
      cases rows with
      | nil =>
          rw [if_pos (by rw [hstands.titorIsValid_nil]; exact Bool.false_ne_true)] at hloop
          cases hloop
          exact .refl cfg gp chain _
      | cons m rows =>
          have hrow := hrows m List.mem_cons_self
          obtain ⟨hheader, hdata, hlt⟩ := hchain m List.mem_cons_self
          obtain ⟨db₁, hone⟩ := hstands.delete fuel hkey hsession hrow
          rw [if_neg (not_not.mpr hone.valid)] at hloop
          obtain ⟨db₁', hdelete, hloop⟩ := bind_eq_ok.mp hloop
          rw [hone.delete] at hdelete
          cases hdelete
          obtain ⟨next, hnext, hloop⟩ := bind_eq_ok.mp hloop
          obtain ⟨⟨db₂, ms', finished'⟩, hloop, hresult⟩ := bind_eq_ok.mp hloop
          cases hresult
          rw [hone.next] at hnext
          obtain ⟨passed, rest, rfl, -, hrest⟩ := titorNextLoop_passed hone.walks hnext
          -- the deletion is one call that puts `*tmax`
          have hput := hone.delete
          rw [hone.at_row, hrow.deleteRow cfg hkey hsession] at hput
          cases hput
          have hfirst := chainOnBytes_put hpage hapart hlaid hheader hdata hlt (hrow.putTmax cfg tran.key)
          have hsame := db.pages_putRow_of_ne m (((db.pages m.gp.data).rows m.row).setTmax tran.key)
            (g := gp.header) fun heq => hapart (heq ▸ hdata)
          refine hfirst.trans (ih (hsame ▸ hlaid) hrest (fun x hx => ?_) (fun x hx => ?_) hloop)
          · exact (hrows x (List.mem_cons_of_mem _ (List.mem_append_right _ hx))).changedAt hone.changed
          · exact hchain x (List.mem_cons_of_mem _ (List.mem_append_right _ hx))

end Bytes

/-! ### Tables without versions -/

section Pure

/-- An iterator of the loop, while the first page keeps a row. -/
structure Held (chain : List Gid) (first : Gid) (db : Db) (m : Mitor) : Prop where
  page : m.gp.data ∈ chain
  contents : ∀ g ∈ chain, (db.pages g).content = .pure
  next : ∀ g ∈ chain, (db.pages g).next ≠ .undef → (db.pages g).next ∈ chain ∧ (db.pages g).next ≠ first
  left : 0 < (db.pages first).occupied
  row : m.gp.data = first → 0 < m.row ∨ 1 < (db.pages first).occupied

variable {chain : List Gid} {first : Gid} {t : Titor}

theorem titorInit_pure {tran : Option Tran} (hcontent : (db.pages gp.data).content = .pure) :
    titorInit cfg fuel db tran gp = .ok ⟨⟨gp, 0⟩, tran⟩ := by
  unfold titorInit
  dsimp only
  rw [hcontent]
  rfl

theorem deleteRow_pure {m : Mitor} (hcontent : (db.pages m.gp.data).content = .pure)
    (hvalid : mitorIsValid db m = true) :
    dmlDeleteRow cfg session db m
      = (cfg.build.assert (m.row + 1 < (db.pages m.gp.data).rown) >>= fun _ =>
          .ok (db.setPage m.gp.data (gridDeleteRow (db.pages m.gp.data) m.row))) := by
  unfold dmlDeleteRow
  rw [hcontent]
  dsimp only
  unfold mitorDelete
  rw [if_pos (of_decide_eq_true hvalid).2.2]
  rfl

theorem titorNext_pure (hcontent : (db.pages t.m.gp.data).content = .pure) :
    titorNext cfg fuel db t = .ok { t with m := mitorNext db t.m } := by
  unfold titorNext
  rw [hcontent]
  rfl

theorem Held.delete {m : Mitor} (h : Held chain first db m) (hvalid : mitorIsValid db m = true) :
    Held chain first (db.setPage m.gp.data (gridDeleteRow (db.pages m.gp.data) m.row))
      (mitorNext (db.setPage m.gp.data (gridDeleteRow (db.pages m.gp.data) m.row)) m) := by
  obtain ⟨hheader, hdata, hrow⟩ := of_decide_eq_true hvalid
  generalize hdb : db.setPage m.gp.data (gridDeleteRow (db.pages m.gp.data) m.row) = db₁
  have hself : db₁.pages m.gp.data = gridDeleteRow (db.pages m.gp.data) m.row := by
    rw [← hdb, pages_setPage_self]
  have hother : ∀ g, g ≠ m.gp.data → db₁.pages g = db.pages g := by
    intro g hg
    rw [← hdb]
    exact Function.update_of_ne hg _ _
  have hcontent : ∀ g, (db₁.pages g).content = (db.pages g).content := by
    intro g
    by_cases hg : g = m.gp.data
    · rw [hg, hself]
      rfl
    · rw [hother g hg]
  have hnext : ∀ g, (db₁.pages g).next = (db.pages g).next := by
    intro g
    by_cases hg : g = m.gp.data
    · rw [hg, hself]
      rfl
    · rw [hother g hg]
  have hoccupied : (db₁.pages m.gp.data).occupied = (db.pages m.gp.data).occupied - 1 := by
    rw [hself]
    rfl
  have hleft : 0 < (db₁.pages first).occupied := by
    by_cases hfirst : m.gp.data = first
    · have hle := h.row hfirst
      rw [hfirst] at hoccupied hrow
      omega
    · rw [hother first fun heq => hfirst heq.symm]
      exact h.left
  have hsame : ∀ row, (m.gp.data = first → 0 < row ∨ 1 < (db₁.pages first).occupied) →
      Held chain first db₁ ⟨m.gp, row⟩ := by
    intro row hrow
    refine ⟨h.page, fun g hg => ?_, fun g hg hundef => ?_, hleft, hrow⟩
    · rw [hcontent]
      exact h.contents g hg
    · rw [hnext] at hundef ⊢
      exact h.next g hg hundef
  unfold mitorNext
  by_cases hvalid₁ : mitorIsValid db₁ m
  · rw [if_pos hvalid₁]
    dsimp only
    split
    next hbehind =>
      rw [hnext] at hbehind ⊢
      obtain ⟨hmem, hne⟩ := h.next _ h.page hbehind.2
      have hheld := hsame 1 fun _ => Or.inl Nat.one_pos
      exact ⟨hmem, hheld.contents, hheld.next, hleft, fun heq => absurd heq hne⟩
    next => exact hsame _ fun _ => Or.inl (Nat.succ_pos _)
  · rw [if_neg hvalid₁]
    refine hsame m.row fun hfirst => ?_
    have hle : ¬ m.row < (db₁.pages m.gp.data).occupied := by
      intro hlt
      exact hvalid₁ (decide_eq_true ⟨hheader, hdata, hlt⟩)
    rw [hfirst] at hle
    exact Or.inl (Nat.lt_of_lt_of_le hleft (Nat.not_lt.mp hle))

theorem Held.loop {ms : List Mitor} {finished : Bool} (h : Held chain first db t.m)
    (hloop : rowLoop cfg (dmlDeleteRow cfg session) (fun _ => some true) fuel db t = .ok (db', ms, finished)) :
    0 < (db'.pages first).occupied ∧ ∀ g ∈ chain, (db'.pages g).content = .pure := by
  induction fuel generalizing db t ms with
  | zero => cases hloop
  | succ fuel ih =>
      rw [rowLoop] at hloop
      split at hloop
      · cases hloop
        exact ⟨h.left, h.contents⟩
      next hvalid =>
        have hvalid : mitorIsValid db t.m = true := by
          have htitor : titorIsValid db t = true := not_not.mp hvalid
          unfold titorIsValid at htitor
          exact (of_decide_eq_true htitor).1
        have hnext := h.delete hvalid
        rw [deleteRow_pure (h.contents _ h.page) hvalid] at hloop
        obtain ⟨db₁, hdelete, hloop⟩ := bind_eq_ok.mp hloop
        obtain ⟨-, -, hdelete⟩ := bind_eq_ok.mp hdelete
        cases hdelete
        obtain ⟨next, hstep, hloop⟩ := bind_eq_ok.mp hloop
        obtain ⟨⟨db₂, ms', finished'⟩, hloop, hresult⟩ := bind_eq_ok.mp hloop
        cases hresult
        have hcontent : ((db.setPage t.m.gp.data (gridDeleteRow (db.pages t.m.gp.data) t.m.row)).pages
            t.m.gp.data).content = .pure := by
          rw [pages_setPage_self]
          exact h.contents _ h.page
        rw [titorNext_pure hcontent] at hstep
        cases hstep
        exact ih hnext hloop

theorem next_mem_tail (hlinked : db.Linked front tail) {g : Gid} (hg : g ∈ front ++ [tail])
    (hnext : (db.pages g).next ≠ .undef) : (db.pages g).next ∈ (front ++ [tail]).tail := by
  induction front with
  | nil =>
      rw [List.mem_singleton.mp hg] at hnext
      exact absurd hlinked hnext
  | cons g₀ front ih =>
      rw [List.cons_append, List.tail_cons]
      rcases List.mem_cons.mp hg with rfl | hg
      · rw [hlinked.1]
        exact headD_mem front tail
      · exact List.mem_of_mem_tail (ih hlinked.2 hg)

namespace Table

variable (h : db.Table .pure gp front tail)
include h

theorem eq_cons : ∃ chain, front ++ [tail] = gp.data :: chain := by
  rw [h.first]
  cases front with
  | nil => exact ⟨[], rfl⟩
  | cons g front => exact ⟨front ++ [tail], rfl⟩

theorem held (hrows : 1 < (db.pages gp.data).occupied) : Held (front ++ [tail]) gp.data db ⟨gp, 0⟩ := by
  refine ⟨h.data_mem, h.contents, fun g hg hnext => ?_, Nat.zero_lt_of_lt hrows, fun _ => Or.inr hrows⟩
  have hmem := next_mem_tail h.linked hg hnext
  refine ⟨List.mem_of_mem_tail hmem, ?_⟩
  rintro heq
  obtain ⟨chain, hchain⟩ := h.eq_cons
  have hnodup := h.nodup
  rw [heq, hchain] at hmem
  rw [hchain] at hnodup
  exact (List.nodup_cons.mp hnodup).1 hmem

theorem filter_isVisible (tran : Option Tran) :
    (db.places gp.header (front ++ [tail])).filter (db.isVisible cfg tran) = db.places gp.header (front ++ [tail]) := by
  refine List.filter_eq_self.mpr fun m hm => ?_
  unfold isVisible
  rw [h.contents _ (mem_places.mp hm).2.1]

theorem not_emptied (hrows : 1 < (db.pages gp.data).occupied) : ¬ Emptied cfg session gp (front ++ [tail]) db := by
  rintro ⟨fuel, t, db', ms, t', hinit, hloop, -, hinit', hinvalid⟩
  rw [titorInit_pure (h.contents _ h.data_mem)] at hinit
  cases hinit
  obtain ⟨hleft, hcontent⟩ := (h.held hrows).loop hloop
  rw [titorInit_pure (hcontent _ h.data_mem)] at hinit'
  cases hinit'
  have hvalid : mitorIsValid db' ⟨gp, 0⟩ = true :=
    (isValid_iff h.header (h.defined _ h.data_mem) 0).mpr hleft
  simp [titorIsValid, hvalid, hcontent _ h.data_mem] at hinvalid

theorem loop_none (hrows : (db.pages gp.data).occupied = 0) (tran : Option Tran) :
    rowLoop cfg (dmlDeleteRow cfg session) (fun _ => some true) (fuel + 1) db ⟨⟨gp, 0⟩, tran⟩ = .ok (db, [], true) := by
  have hinvalid : mitorIsValid db ⟨gp, 0⟩ = false := by
    rw [← Bool.not_eq_true, h.isValid_first, hrows]
    exact Nat.lt_irrefl 0
  rw [rowLoop, if_pos (by simp [titorIsValid, hinvalid])]
  rfl

/-- The only row of the first page is deleted, which ends the loop. -/
theorem loop_one (hrows : (db.pages gp.data).occupied = 1)
    (hslot : cfg.build = .debug → 1 < (db.pages gp.data).rown) (tran : Option Tran) :
    rowLoop cfg (dmlDeleteRow cfg session) (fun _ => some true) (fuel + 2) db ⟨⟨gp, 0⟩, tran⟩
      = .ok (db.setPage gp.data (gridDeleteRow (db.pages gp.data) 0), [⟨gp, 0⟩], true) := by
  have hcontent := h.contents _ h.data_mem
  have hvalid : mitorIsValid db ⟨gp, 0⟩ = true := h.isValid_first.mpr (by rw [hrows]; exact Nat.one_pos)
  generalize hdb : db.setPage gp.data (gridDeleteRow (db.pages gp.data) 0) = db₁
  have hpage : db₁.pages gp.data = gridDeleteRow (db.pages gp.data) 0 := by rw [← hdb, pages_setPage_self]
  have hinvalid : mitorIsValid db₁ ⟨gp, 0⟩ = false := by
    rw [← Bool.not_eq_true, isValid_iff h.header (h.defined _ h.data_mem), hpage]
    intro hlt
    exact Nat.not_lt_zero 0 (Nat.lt_of_lt_of_eq hlt (by unfold gridDeleteRow; rw [hrows]))
  have hdelete : dmlDeleteRow cfg session db ⟨gp, 0⟩ = .ok db₁ := by
    rw [deleteRow_pure hcontent hvalid, Build.assert_eq_ok.mpr hslot, hdb]
    rfl
  have hnext : titorNext cfg (fuel + 1) db₁ ⟨⟨gp, 0⟩, tran⟩ = .ok ⟨⟨gp, 0⟩, tran⟩ := by
    rw [titorNext_pure (by rw [hpage]; exact hcontent)]
    unfold mitorNext
    rw [hinvalid]
    rfl
  have hend : rowLoop cfg (dmlDeleteRow cfg session) (fun _ => some true) (fuel + 1) db₁ ⟨⟨gp, 0⟩, tran⟩
      = .ok (db₁, [], true) := by
    rw [rowLoop, if_pos (by simp [titorIsValid, hinvalid])]
    rfl
  rw [rowLoop, if_neg (by simp [titorIsValid, hvalid, hcontent])]
  simp only [hdelete, hnext, hend, bind, Except.bind]
  rfl

theorem loop_fuel {tran : Option Tran} {r : Db × List Mitor × Bool} (hrows : (db.pages gp.data).occupied = 1)
    (hloop : rowLoop cfg (dmlDeleteRow cfg session) (fun _ => some true) fuel db ⟨⟨gp, 0⟩, tran⟩ = .ok r) :
    (cfg.build = .debug → 1 < (db.pages gp.data).rown)
      ∧ r = (db.setPage gp.data (gridDeleteRow (db.pages gp.data) 0), [⟨gp, 0⟩], true) := by
  have hcontent := h.contents _ h.data_mem
  have hvalid : mitorIsValid db ⟨gp, 0⟩ = true := h.isValid_first.mpr (by rw [hrows]; exact Nat.one_pos)
  have hslot : cfg.build = .debug → 1 < (db.pages gp.data).rown := by
    cases fuel with
    | zero => cases hloop
    | succ fuel =>
        rw [rowLoop, if_neg (by simp [titorIsValid, hvalid, hcontent])] at hloop
        obtain ⟨db₁, hdelete, -⟩ := bind_eq_ok.mp hloop
        rw [deleteRow_pure hcontent hvalid] at hdelete
        obtain ⟨⟨⟩, hassert, -⟩ := bind_eq_ok.mp hdelete
        exact Build.assert_eq_ok.mp hassert
  refine ⟨hslot, ?_⟩
  cases fuel with
  | zero => cases hloop
  | succ fuel =>
      cases fuel with
      | zero =>
          rw [rowLoop, if_neg (by simp [titorIsValid, hvalid, hcontent])] at hloop
          obtain ⟨db₁, -, hloop⟩ := bind_eq_ok.mp hloop
          obtain ⟨next, -, hloop⟩ := bind_eq_ok.mp hloop
          cases hloop
      | succ fuel =>
          rw [h.loop_one hrows hslot] at hloop
          exact (Except.ok.inj hloop).symm

/-- What a table without versions is like behind a loop that finds at most one row on the first page. -/
theorem emptied_iff_perm (hrows : (db.pages gp.data).occupied ≤ 1) :
    Emptied cfg session gp (front ++ [tail]) db ↔
      ((List.range (db.pages gp.data).occupied).map fun n => (gp.data, n)).Perm
          ((db.places gp.header (front ++ [tail])).map Execute.place)
        ∧ (cfg.build = .debug → 0 < (db.pages gp.data).occupied → 1 < (db.pages gp.data).rown) := by
  have hcontent := h.contents _ h.data_mem
  have hagain : ∀ db' : Db, (db'.pages gp.data).content = .pure → (db'.pages gp.data).occupied = 0 →
      ∃ t, titorInit cfg 2 db' session.tran gp = .ok t ∧ titorIsValid db' t = false := by
    intro db' hcontent' hzero
    refine ⟨_, titorInit_pure hcontent', ?_⟩
    have hinvalid : mitorIsValid db' ⟨gp, 0⟩ = false := by
      rw [← Bool.not_eq_true, isValid_iff h.header (h.defined _ h.data_mem), hzero]
      exact Nat.lt_irrefl 0
    simp [titorIsValid, hinvalid]
  unfold Emptied
  rw [h.filter_isVisible]
  rcases Nat.le_one_iff_eq_zero_or_eq_one.mp hrows with hzero | hone
  · rw [hzero]
    constructor
    · rintro ⟨fuel, t, db', ms, t', hinit, hloop, hperm, -⟩
      rw [titorInit_pure hcontent] at hinit
      cases hinit
      cases fuel with
      | zero => cases hloop
      | succ fuel =>
          rw [h.loop_none hzero] at hloop
          cases hloop
          exact ⟨hperm, fun _ hpos => absurd hpos (Nat.lt_irrefl 0)⟩
    · rintro ⟨hperm, -⟩
      obtain ⟨t', hinit', hinvalid⟩ := hagain db hcontent hzero
      exact ⟨2, _, db, [], t', titorInit_pure hcontent, h.loop_none hzero _, hperm, hinit', hinvalid⟩
  · rw [hone]
    constructor
    · rintro ⟨fuel, t, db', ms, t', hinit, hloop, hperm, -⟩
      rw [titorInit_pure hcontent] at hinit
      cases hinit
      obtain ⟨hslot, hresult⟩ := h.loop_fuel hone hloop
      cases hresult
      exact ⟨hperm, fun hdebug _ => hslot hdebug⟩
    · rintro ⟨hperm, hslot⟩
      have hpage := pages_setPage_self db gp.data (gridDeleteRow (db.pages gp.data) 0)
      obtain ⟨t', hinit', hinvalid⟩ := hagain (db.setPage gp.data (gridDeleteRow (db.pages gp.data) 0))
        (by rw [hpage]; exact hcontent) (by rw [hpage]; unfold gridDeleteRow; rw [hone])
      exact ⟨2, _, _, _, t', titorInit_pure hcontent, h.loop_one hone (fun hdebug => hslot hdebug Nat.one_pos) _, hperm,
        hinit', hinvalid⟩

theorem emptied_iff_pure :
    Emptied cfg session gp (front ++ [tail]) db ↔ CanBeEmptied cfg session .pure gp (front ++ [tail]) db := by
  obtain ⟨chain, hchain⟩ := h.eq_cons
  have hlength : (db.places gp.header (front ++ [tail])).length
      = (db.pages gp.data).occupied + (db.places gp.header chain).length := by
    rw [hchain, places_cons, List.length_append, List.length_map, List.length_range]
  have hplaces : (db.places gp.header (front ++ [tail])).map Execute.place
      = ((List.range (db.pages gp.data).occupied).map fun n => (gp.data, n))
        ++ (db.places gp.header chain).map Execute.place := by
    rw [hchain, places_cons, List.map_append, List.map_map]
    rfl
  have htail : (front ++ [tail]).tail = chain := by rw [hchain, List.tail_cons]
  unfold CanBeEmptied
  rw [htail, hlength]
  by_cases hrows : 1 < (db.pages gp.data).occupied
  · refine iff_of_false (h.not_emptied hrows) ?_
    rintro ⟨hle, -⟩
    omega
  · have hrows := Nat.le_of_not_lt hrows
    rw [h.emptied_iff_perm hrows, hplaces]
    constructor
    · rintro ⟨hperm, hslot⟩
      have hnil := hperm.length_eq
      rw [List.length_append, List.length_map, List.length_map, List.length_range] at hnil
      have hnil : (db.places gp.header chain).length = 0 := by omega
      exact ⟨by omega, List.length_eq_zero_iff.mp hnil, hslot⟩
    · rintro ⟨-, hnil, hslot⟩
      refine ⟨?_, hslot⟩
      rw [hnil, List.map_nil, List.append_nil]

end Table

end Pure

theorem Table.loop_onBytes (h : db.Table .mvcc gp front tail) (hpage : sizeofGrid ≤ cfg.psz.toNat) {tran : Tran}
    (hkey : tran.key ≠ 0) (hsession : session.tran = some tran) {t : Titor} {ms : List Mitor} {finished : Bool}
    (hinit : titorInit cfg fuel db session.tran gp = .ok t)
    (hloop : rowLoop cfg (dmlDeleteRow cfg session) (fun _ => some true) fuel db t = .ok (db', ms, finished)) :
    db.ChainOnBytes cfg gp (front ++ [tail]) db' := by
  rw [hsession] at hinit
  obtain ⟨rows, hrows⟩ := h.scanned_eq_cons (titorInit_first (h.contents _ h.data_mem) hinit)
  have hplaces : ∀ m ∈ ⟨gp, 0⟩ :: rows, m ∈ db.places gp.header (front ++ [tail]) := by
    rw [← hrows]
    exact fun m hm => mem_places_of_scanned hm
  have hwalks := h.walks
  rw [hrows] at hwalks
  obtain ⟨passed, rest, heq, -, hstands⟩ := titorInit_passed (h.versionRow (hplaces _ List.mem_cons_self)) hwalks hinit
  have hrest (m : Mitor) (hm : m ∈ rest) := hplaces m (heq ▸ List.mem_append_right passed hm)
  refine deleteLoop_onBytes hpage h.apart hkey hsession (h.laid rfl) hstands (fun m hm => h.versionRow (hrest m hm))
    (fun m hm => ?_) hloop
  obtain ⟨hheader, hdata, hrow⟩ := mem_places.mp (hrest m hm)
  have hroom := h.room _ hdata
  have hrown := h.rown _ hdata
  exact ⟨hheader, hdata, by omega⟩

/-- **Deleting all rows** empties a table with versions that a scan can go through to its last visible row, and does
so to the bytes of the rows. A table without versions is emptied exactly if it has no row, or a single one on its
first page; a debug build also needs a slot behind that row. -/
theorem emptied_iff {content : GridContent} (hpage : sizeofGrid ≤ cfg.pagesz % 2 ^ 16)
    (h : db.Table content gp front tail) (htran : HasTran content session) :
    (Emptied cfg session gp (front ++ [tail]) db ↔ CanBeEmptied cfg session content gp (front ++ [tail]) db)
      ∧ (content = .mvcc → ∀ fuel t db' ms finished, titorInit cfg fuel db session.tran gp = .ok t →
          rowLoop cfg (dmlDeleteRow cfg session) (fun _ => some true) fuel db t = .ok (db', ms, finished) →
          db.ChainOnBytes cfg gp (front ++ [tail]) db') := by
  cases content with
  | pure => exact ⟨h.emptied_iff_pure, nofun⟩
  | mvcc =>
      obtain ⟨tran, hsession, hkey⟩ := htran rfl
      refine ⟨h.emptied_iff_mvcc hkey hsession, fun _ fuel t db' ms finished hinit hloop => ?_⟩
      exact h.loop_onBytes (cfg.psz_toNat ▸ hpage) hkey hsession hinit hloop

/-- The header of a table with versions and a column `a`. -/
def versionsHeader : Grid where
  content := .pure
  next := .undef
  rowsz := 40
  rown := 3
  occupied := 3
  datasz := 24
  columns := fun n =>
    [⟨tminName, 0, .bigint, 0⟩, ⟨tmaxName, 8, .bigint, 0⟩, ⟨[97], 16, .bigint, 0⟩].getD n ⟨[], 0, .unknown, 0⟩
  rows := fun _ => .zero

/-- A page of it. A transaction that was rolled back has put the first row, another one the rows behind it. -/
def versionsPage (next : Gid) (occupied : Nat) : Grid where
  content := .mvcc
  next := next
  rowsz := 24
  rown := 5
  occupied := occupied
  datasz := 0
  columns := fun _ => ⟨[], 0, .unknown, 0⟩
  rows := fun n => Function.update Row.zero tminIdx ⟨if n = 0 then 7 else 1, []⟩

/-- A full page and one with two rows. -/
def versionsDb : Db :=
  { narrowDb with
    pages := fun g =>
      if g = ⟨1⟩ then versionsHeader else if g = ⟨2⟩ then versionsPage ⟨3⟩ 5 else versionsPage .undef 2 }

theorem versionsDb_table : versionsDb.Table .mvcc ⟨⟨1⟩, ⟨2⟩⟩ [⟨2⟩] ⟨3⟩ where
  header := by decide
  first := rfl
  linked := ⟨rfl, rfl⟩
  nodup := by decide
  defined := by decide
  apart := by decide
  contents := by decide
  room := by decide
  rown := by decide
  columns _ := {
    occupied := by decide
    versions := by decide
    tminName := rfl
    tminType := rfl
    tmaxName := rfl
    tmaxType := rfl
    types := by decide }
  laid _ := { datasz_lt := by decide, within := by decide, disjoint := by decide }

/-- The five rows that the transaction sees are deleted from two pages. -/
theorem emptied_twoPages :
    Emptied ⟨.debug, 144⟩ ⟨none, some ⟨1, false⟩⟩ ⟨⟨1⟩, ⟨2⟩⟩ [⟨2⟩, ⟨3⟩] versionsDb
      ∧ ∀ fuel t db' ms finished, titorInit ⟨.debug, 144⟩ fuel versionsDb (some ⟨1, false⟩) ⟨⟨1⟩, ⟨2⟩⟩ = .ok t →
          rowLoop ⟨.debug, 144⟩ (dmlDeleteRow ⟨.debug, 144⟩ ⟨none, some ⟨1, false⟩⟩) (fun _ => some true) fuel
            versionsDb t = .ok (db', ms, finished) →
          versionsDb.ChainOnBytes ⟨.debug, 144⟩ ⟨⟨1⟩, ⟨2⟩⟩ [⟨2⟩, ⟨3⟩] db' := by
  obtain ⟨hemptied, hbytes⟩ := @emptied_iff ⟨.debug, 144⟩ ⟨none, some ⟨1, false⟩⟩ _ _ _ _ _ (by decide)
    versionsDb_table fun _ => ⟨⟨1, false⟩, rfl, by decide⟩
  refine ⟨hemptied.mpr ⟨by decide, fun m hm => ?_, fun m hm _ => hm⟩, hbytes rfl⟩
  have hvisible : ∀ m ∈ versionsDb.places ⟨1⟩ [⟨2⟩, ⟨3⟩],
      rowIsVisible ⟨.debug, 144⟩ versionsDb (some ⟨1, false⟩) m = .ok true
        ∨ rowIsVisible ⟨.debug, 144⟩ versionsDb (some ⟨1, false⟩) m = .ok false := by decide
  rcases hvisible m (mem_places_of_scanned hm) with h | h
  · exact ⟨true, h⟩
  · exact ⟨false, h⟩

/-- A table without versions with one page. -/
def onePageDb (rows : Nat) : Db :=
  { narrowDb with
    pages := fun g =>
      if g = ⟨1⟩ then narrowHeader else { narrowPage with content := .pure, rown := 10, occupied := rows } }

theorem onePageDb_table {rows : Nat} (hrows : rows ≤ 10) : (onePageDb rows).Table .pure ⟨⟨1⟩, ⟨2⟩⟩ [] ⟨2⟩ where
  header := by decide
  first := rfl
  linked := rfl
  nodup := List.nodup_singleton _
  defined := by
    rintro g hg
    rw [List.mem_singleton.mp hg]
    decide
  apart := by decide
  contents := by
    rintro g hg
    rw [List.mem_singleton.mp hg]
    rfl
  room := by
    rintro g hg
    rw [List.mem_singleton.mp hg]
    exact hrows
  rown := by
    rintro g hg
    rw [List.mem_singleton.mp hg]
    show 10 < 2 ^ 16
    decide
  columns := nofun
  laid := nofun

/-- Of two rows the second one stays. -/
theorem not_emptied_onePage :
    ¬ Emptied ⟨.debug, 28⟩ ⟨none, none⟩ ⟨⟨1⟩, ⟨2⟩⟩ [⟨2⟩] (onePageDb 2) :=
  (onePageDb_table (by decide)).not_emptied (by decide)

end Scroller.Db
