import Scroller.Lib.Agreement
import Scroller.Proof.TableCommands

/-!
# Inserting into the store

What `insert` does to the pages of a database is what it does to the lists of rows of its store.
-/

namespace Scroller

open Outcome

/-! ### Cells -/

theorem hgridGetColumnIdx_lt {g : Grid} {name : List UInt8} {i : Nat}
    (h : hgridGetColumnIdx g name = some i) : i < g.occupied :=
  List.mem_range.mp (List.mem_of_find?_eq_some h)

theorem columnIndices_lt {header : Grid} {names : List (List UInt8)} {indices : List Nat}
    (h : columnIndices header names = some indices) : ∀ i ∈ indices, i < header.occupied := by
  induction names generalizing indices with
  | nil =>
      cases h
      exact nofun
  | cons name names ih =>
      rw [columnIndices, List.mapM_cons] at h
      obtain ⟨i, hi, h⟩ := Option.bind_eq_some_iff.mp h
      obtain ⟨rest, hrest, h⟩ := Option.bind_eq_some_iff.mp h
      cases h
      intro j hj
      rcases List.mem_cons.mp hj with rfl | hj
      · exact hgridGetColumnIdx_lt hi
      · exact ih hrest j hj

theorem gridGetRow_of_lt (build : Build) {g : Grid} {n : Nat} (hn : n < g.occupied)
    (hle : g.occupied ≤ g.rown) : gridGetRow build g n = .ok () := by
  rw [gridGetRow, Build.assert_of _ (Nat.lt_of_lt_of_le hn hle)]
  simp only [bind, Except.bind, if_pos hn]
  rfl

/-! ### Ids -/

namespace Sequence.Plain

variable {s : Sequence}

theorem toInt_next_of_called (hs : s.Plain) (hcalled : s.isCalled ≠ 0) :
    s.next.toInt = ((s.issued : Int) + 1).bmod (2 ^ 64) := by
  have hlater := hs.later hcalled
  rw [next, if_neg hcalled, hs.increment, Int64.toInt_add, issued, if_neg hcalled,
    Int.toNat_of_nonneg (by omega)]
  rfl

theorem issued_lt (s : Sequence) : s.issued < 2 ^ 63 := by
  have h := s.lastVal.toInt_lt
  unfold issued
  split
  · decide
  · omega

theorem issued_of_next (hs : s.Plain) (hnext : 0 ≤ s.next) : s.issued + 1 < 2 ^ 63 := by
  have hlt := issued_lt s
  by_cases hcalled : s.isCalled = 0
  · rw [issued, if_pos hcalled]
    decide
  · have hvalue := hs.toInt_next_of_called hcalled
    have hnonneg := Int64.le_iff_toInt_le.mp hnext
    rw [hvalue] at hnonneg
    by_contra hfull
    have hissued : s.issued = 2 ^ 63 - 1 := by omega
    rw [hissued] at hnonneg
    exact absurd hnonneg (by decide)

theorem nextval_ok (build : Build) (hs : s.Plain) (hissued : s.issued + 1 < 2 ^ 63) :
    ∃ s', sequenceNextval build s = .ok (some (s', s.next)) ∧ s'.Plain ∧ s'.issued = s.issued + 1
      ∧ s.next.toInt = (s.issued + 1 : Nat) := by
  have hspec := Outcome.ensures_iff.mp
    (@Sequence.nextval_ensures ⟨build, 0⟩ (fun _ => True) (fun _ _ => True.intro) s hs)
  cases hnext : sequenceNextval build s with
  | ok out =>
      obtain ⟨s', rfl, h⟩ := hspec.1 out hnext
      exact ⟨s', rfl, h⟩
  | error e =>
      exfalso
      have hne : s.increment ≠ 0 := by
        rw [hs.increment]
        decide
      rw [sequenceNextval, Build.assert_of _ hne] at hnext
      simp only [bind, Except.bind, pure, Except.pure] at hnext
      by_cases hcalled : s.isCalled = 0
      · rw [if_neg (not_not.mpr hcalled)] at hnext
        cases hnext
      · have hlater := hs.later hcalled
        have hvalue := hs.toInt_next_of_called hcalled
        rw [Int.bmod_eq_of_le (by omega) (by omega), next, if_neg hcalled] at hvalue
        have hone : s.increment.toInt = 1 := by
          rw [hs.increment]
          rfl
        have hadd : addInt64 s.lastVal s.increment = .ok (s.lastVal + s.increment) := by
          refine addInt64_eq_ok.mpr ⟨rfl, ?_⟩
          rw [hvalue, hone, issued, if_neg hcalled]
          omega
        have hle : ¬ s.lastVal + s.increment > s.maxVal := by
          rw [hs.maxVal]
          intro hgt
          have := Int64.lt_iff_toInt_lt.mp hgt
          have := toInt_le_max (s.lastVal + s.increment)
          omega
        have hpos : s.increment > 0 := by
          rw [hs.increment]
          decide
        rw [if_pos hcalled, hadd] at hnext
        simp only [if_pos hpos, if_neg hle] at hnext
        cases hnext

end Sequence.Plain

namespace Db

variable {cfg : Config} {db db' : Db} {gp : GidPair} {header : Grid}

theorem putRow_self (db : Db) (m : Mitor) : db.putRow m ((db.pages m.gp.data).rows m.row) = db := by
  rw [putRow, Function.update_eq_self]
  exact setPage_self db m.gp.data

/-- An iterator at a row of a page in order, apart from the header page. -/
structure AtRow (db : Db) (m : Mitor) (header : Grid) : Prop where
  headerPage : db.pages m.gp.header = header
  columns : header.occupied ≤ header.rown
  row : m.row < (db.pages m.gp.data).occupied
  page : (db.pages m.gp.data).occupied ≤ (db.pages m.gp.data).rown
  apart : m.gp.header ≠ m.gp.data

theorem AtRow.putRow {m : Mitor} (h : db.AtRow m header) (row : Row) : (db.putRow m row).AtRow m header where
  headerPage := by
    rw [pages_putRow_of_ne db m row h.apart]
    exact h.headerPage
  columns := h.columns
  row := by
    rw [occupied_putRow]
    exact h.row
  page := by
    rw [occupied_putRow, rown_putRow]
    exact h.page
  apart := h.apart

theorem mitorPutDatum_eq {m : Mitor} (h : db.AtRow m header) {column : Nat}
    (hcolumn : column < header.occupied) (datum : Datum) :
    mitorPutDatum cfg db m column datum = do
      match ← putCell cfg.build (header.columns column) ((db.pages m.gp.data).rows m.row column) datum with
      | none => return none
      | some cell =>
          return some (db.putRow m
            (Function.update ((db.pages m.gp.data).rows m.row) column cell)) := by
  rw [mitorPutDatum, gridPutDatum, h.headerPage, gridGetRow_of_lt _ hcolumn h.columns,
    gridGetRow_of_lt _ h.row h.page]
  simp only [bind, Except.bind, Build.assert_of cfg.build hcolumn]
  cases putCell cfg.build (header.columns column) ((db.pages m.gp.data).rows m.row column) datum with
  | error e => rfl
  | ok cell =>
      cases cell with
      | none => rfl
      | some cell => rfl

theorem putValues_eq {m : Mitor} (h : db.AtRow m header) {indices : List Nat}
    (hindices : ∀ i ∈ indices, i < header.occupied) (values : List Datum) :
    putValues cfg db m indices values = do
      let (row, filled) ← putCells cfg.build header ((db.pages m.gp.data).rows m.row) indices values
      return (db.putRow m row, filled) := by
  induction indices generalizing db values with
  | nil =>
      rw [putValues, putCells]
      simp only [bind, Except.bind, pure, Except.pure, putRow_self]
  | cons index indices ih =>
      cases values with
      | nil => rfl
      | cons value values =>
          rw [putValues, putCells, mitorPutDatum_eq h (hindices index (by simp))]
          cases putCell cfg.build (header.columns index) ((db.pages m.gp.data).rows m.row index) value with
          | error e => rfl
          | ok cell =>
              cases cell with
              | none =>
                  simp only [bind, Except.bind, pure, Except.pure, putRow_self]
              | some cell =>
                  have hrest := ih (h.putRow (Function.update ((db.pages m.gp.data).rows m.row) index cell))
                    (fun i hi => hindices i (List.mem_cons_of_mem index hi)) values
                  rw [row_putRow] at hrest
                  simp only [bind, Except.bind, pure, Except.pure, putRow_putRow] at hrest ⊢
                  exact hrest

/-! ### Rows -/

/-- What `mesh_alloc_row` answers for a mesh with a new row, or for one without room on its pages. -/
structure Allocation (cfg : Config) (header : Grid) (db : Db) (gp : GidPair)
    (out : Db × GidPair × Option Mitor) (out' : Mesh Row × Bool) : Prop where
  mesh : out'.1 = out.1.mesh gp.data
  same : db.SameBut out.1 gp.data
  row : ∃ m, out.2.2 = some m
    ∧ if out'.2 then Allocated cfg header gp out.1 m else mitorIsValid out.1 m = false

theorem rown_le_length (hfull : (db.pages gp.data).occupied = (db.pages gp.data).rown) :
    (db.mesh gp.data).rown ≤ (db.mesh gp.data).rows.length := by
  change (db.pages gp.data).rown ≤ ((db.pages gp.data).list ++ _).length
  rw [List.length_append, Grid.length_list]
  omega

theorem extended_mesh (db : Db) (data : Gid) :
    (db.mesh data).extended = decide ((db.pages data).next ≠ .undef) := rfl

theorem assert_congr (build : Build) {p q : Prop} [Decidable p] [Decidable q] (h : p ↔ q) :
    build.assert p = build.assert q := by
  cases build with
  | debug => simp only [Build.assert, h]
  | release => rfl

/-- A database whose first page is full, with the second page started over. -/
def startOver (db : Db) (gp : GidPair) (data : Grid) : Db :=
  let db := db.setPage gp.data.successor data
  let db := db.setPage gp.data { db.pages gp.data with next := gp.data.successor }
  db.setPage gp.data.successor (gridAllocRow data).1

theorem sameBut_startOver (db : Db) (gp : GidPair) (data : Grid) :
    db.SameBut (db.startOver gp data) gp.data :=
  ((SameBut.setPage (Or.inr rfl) _).trans' (SameBut.setPage (Or.inl rfl) _)).trans'
    (SameBut.setPage (Or.inr rfl) _)

theorem pages_startOver_successor (db : Db) (gp : GidPair) (data : Grid) :
    (db.startOver gp data).pages gp.data.successor = (gridAllocRow data).1 := by
  rw [startOver, pages_setPage_self]

theorem startedOver {data : Grid} (hgp : gp.Apart)
    (hfull : (db.pages gp.data).occupied = (db.pages gp.data).rown)
    (hinit : dgridInit cfg.build cfg.pagesz .mvcc (db.pages gp.header) = .ok data) :
    StartedOver cfg db (db.startOver gp data) gp data where
  full := hfull
  init := hinit
  first := by
    rw [startOver, pages_setPage_of_ne _ _ hgp.data_ne_successor, pages_setPage_self,
      pages_setPage_of_ne _ _ hgp.data_ne_successor]

theorem meshAllocRow_full {data : Grid} (hmesh : db.IsMesh cfg (db.pages gp.header) gp.data)
    (hgp : gp.Apart) (hfull : ¬ (db.pages gp.data).occupied < (db.pages gp.data).rown)
    (hinit : dgridInit cfg.build cfg.pagesz .mvcc (db.pages gp.header) = .ok data) :
    meshAllocRow cfg db gp = do
      cfg.build.assert ((db.pages gp.data).next = .undef)
      return (db.startOver gp data, ⟨gp.header, gp.data.successor⟩,
        some ⟨⟨gp.header, gp.data.successor⟩, (gridAllocRow data).2.getD gridInvalidIdx⟩) := by
  rw [meshAllocRow, gridAllocRow_full hfull]
  dsimp only
  rw [setPage_self]
  refine bind_congr fun _ => ?_
  rw [nextTail_eq hgp.dataFile]
  dsimp only [bind, Except.bind]
  rw [hmesh.page.content, hinit]
  dsimp only
  rw [pages_setPage_of_ne _ _ hgp.data_ne_successor.symm, pages_setPage_self]
  rfl

theorem meshAllocRow_agrees (hmesh : db.IsMesh cfg (db.pages gp.header) gp.data) (hgp : gp.Apart) :
    Agrees (Allocation cfg (db.pages gp.header) db gp) (meshAllocRow cfg db gp)
      ((db.mesh gp.data).allocRow cfg.build Row.zero) := by
  by_cases hroom : (db.pages gp.data).occupied < (db.pages gp.data).rown
  · have hlast : (db.pages gp.data).next = .undef := by
      rcases hmesh.next with hlast | hsecond
      · exact hlast
      · have := hsecond.full
        omega
    obtain ⟨hrows, halloc⟩ := alloc_first hmesh hgp hroom (pages_setPage_self db gp.data _)
    have hlength : (db.mesh gp.data).rows.length < (db.mesh gp.data).rown := by
      rw [rows_mesh_of_last hlast, Grid.length_list]
      exact hroom
    rw [meshAllocRow, gridAllocRow_room hroom, Mesh.allocRow, if_pos hlength]
    simp only [Build.assert_of cfg.build hlast, bind, Except.bind, pure, Except.pure]
    exact .ok ⟨hrows.symm, SameBut.setPage (Or.inl rfl) _, _, rfl, halloc⟩
  · have hfull : (db.pages gp.data).occupied = (db.pages gp.data).rown :=
      Nat.le_antisymm hmesh.page.occupied (Nat.le_of_not_lt hroom)
    have hassert : cfg.build.assert ((db.pages gp.data).next = .undef)
        = cfg.build.assert ((db.mesh gp.data).extended = false) := by
      apply assert_congr
      simp [extended_mesh]
    obtain ⟨data, hinit⟩ := dgridInit_of_rowSize .mvcc hmesh.page.sized
    have hsame := sameBut_startOver db gp data
    have hover := startedOver hgp hfull hinit
    have hnext := pages_startOver_successor db gp data
    obtain ⟨-, -, hrown, hoccupied, -⟩ := dgridInit_eq_ok hinit
    have hrown : (db.mesh gp.data).rown = data.rown := hmesh.page.rown.trans hrown.symm
    rw [meshAllocRow_full hmesh hgp hroom hinit, Mesh.allocRow,
      if_neg (Nat.not_lt.mpr (rown_le_length hfull)), hassert]
    apply Agrees.bind_same
    intro _ _
    by_cases hzero : data.rown = 0
    · have hnone : gridAllocRow data = (data, none) := gridAllocRow_full (by omega)
      rw [hnone] at hnext
      rw [if_pos (hrown.trans hzero)]
      refine .ok ⟨(alloc_none hover hmesh hgp hnext hzero).1.symm, hsame, _, rfl, ?_⟩
      change mitorIsValid _ _ = false
      rw [mitorIsValid_eq _ hgp.header hgp.successor_ne_undef, hnext, hoccupied]
      exact decide_eq_false (Nat.not_lt_zero _)
    · have hsome : gridAllocRow data = ({ data with occupied := data.occupied + 1 }, some data.occupied) :=
        gridAllocRow_room (by omega)
      rw [hsome] at hnext
      obtain ⟨hrows, halloc⟩ := alloc_second hover hmesh hgp hnext hzero
      rw [if_neg (hrown ▸ hzero), hsome, Option.getD_some, hoccupied]
      exact .ok ⟨hrows.symm, hsame, _, rfl, halloc⟩

/-- What `insert` makes of a mesh: the rows, the status and the number of the new row. -/
structure Insertion (db : Db) (data : Gid) (out : Db × ScrcStatus × Option Mitor)
    (out' : Mesh Row × ScrcStatus × Option Nat) : Prop where
  mesh : out'.1 = out.1.mesh data
  same : db.SameBut out.1 data
  status : out'.2.1 = out.2.1
  number : out'.2.2 = out.2.2.map (out.1.rowNumber data)

theorem Allocated.atRow {m : Mitor} (hgp : gp.Apart) (h : Allocated cfg header gp db m)
    (hheader : db.pages gp.header = header) (hcolumns : header.occupied ≤ header.rown) :
    db.AtRow m header where
  headerPage := by
    rw [h.onMesh.header]
    exact hheader
  columns := hcolumns
  row := by
    have hvalid := h.valid
    simp only [mitorIsValid, decide_eq_true_eq] at hvalid
    exact hvalid.2.2
  page := (h.onMesh.dataPage h.isMesh).occupied
  apart := by
    rw [h.onMesh.header]
    rcases h.onMesh.page h.isMesh with hdata | hdata
    · rw [hdata]
      exact hgp.ne
    · rw [hdata]
      exact hgp.header_ne_successor

theorem Allocated.titorIsValid_eq {m : Mitor} (h : Allocated cfg header gp db m) (tran : Option Tran) :
    titorIsValid db ⟨m, tran⟩ = decide (tran ≠ none) := by
  have hcontent := (h.onMesh.dataPage h.isMesh).content
  simp [titorIsValid, h.valid, hcontent]

theorem insertRow_agrees {leftover : Option Tran} {indices : List Nat} {values : List Datum}
    (hmesh : db.IsMesh cfg (db.pages gp.header) gp.data) (hgp : gp.Apart)
    (hheader : (db.pages gp.header).HeaderPage)
    (hindices : ∀ i ∈ indices, i < (db.pages gp.header).occupied) :
    Agrees (Insertion db gp.data) (insertRow cfg db gp leftover indices values)
      ((db.mesh gp.data).insert cfg (db.pages gp.header) leftover indices values) := by
  apply (meshAllocRow_agrees hmesh hgp).bind
  rintro ⟨db', tail, row⟩ ⟨mesh, valid⟩ ⟨heq, hsame, m, hrow, hvalid⟩
  have hmesh' : mesh = db'.mesh gp.data := heq
  cases hrow
  cases valid with
  | false =>
      have hinvalid : mitorIsValid db' m = false := hvalid
      simp only [hinvalid]
      exact .ok ⟨hmesh', hsame, rfl, rfl⟩
  | true =>
      have halloc : Allocated cfg (db.pages gp.header) gp db' m := hvalid
      have hat := halloc.atRow hgp (hsame.pages _ hgp.ne hgp.header_ne_successor) hheader.occupied
      have hnumber : mesh.rows.length - 1 = db'.rowNumber gp.data m := by
        rw [hmesh', halloc.number]
      simp only [halloc.valid, halloc.titorIsValid_eq, hnumber, not_true, if_false, decide_eq_true_eq,
        not_not]
      by_cases hleftover : leftover = none
      · rw [if_pos hleftover, if_pos hleftover]
        exact .ok ⟨hmesh', hsame, rfl, rfl⟩
      · rw [if_neg hleftover, if_neg hleftover, putValues_eq hat hindices values, halloc.zero, bind_assoc]
        apply Agrees.bind_same
        rintro ⟨row, filled⟩ -
        refine .ok ⟨?_, ?_, rfl, ?_⟩
        · rw [mesh_putRow halloc.isMesh hgp halloc.onMesh halloc.valid, ← hmesh']
        · exact hsame.trans' (sameBut_putRow halloc.onMesh halloc.isMesh row)
        · rw [Option.map_some, rowNumber_putRow]

/-! ### Tables -/

variable {row row' : RelationRow} {i : Nat}

theorem mesh_congr {data : Gid} (h : db.IsMesh cfg header data) (hdata : db'.pages data = db.pages data)
    (hnext : db'.pages data.successor = db.pages data.successor) : db'.mesh data = db.mesh data := by
  rcases h.next with hlast | hsecond
  · simp only [mesh, hdata, hlast]
    rfl
  · simp only [mesh, hdata, hsecond.next, hnext]

theorem relationOf_congr (h : db.IsTable cfg row) (hpages : ∀ g, row.Owns g → db'.pages g = db.pages g) :
    db'.relationOf row = db.relationOf row := by
  have hheader := hpages row.header (Or.inl (Or.inl rfl))
  by_cases hdata : row.dataGid = 0
  · simp only [relationOf, hheader, if_pos hdata]
  · have hfirst := hpages row.data (Or.inl (Or.inr ⟨hdata, rfl⟩))
    have hnext := hpages row.data.successor (Or.inr ⟨hdata, rfl⟩)
    simp only [relationOf, hheader, if_neg hdata, mesh_congr (h.data hdata).2 hfirst hnext]

theorem Tables.relations_replace (h : db.Tables cfg) (hrow : db.relation.rows[i]? = some row)
    (hrows : db'.relation.rows = db.relation.rows.set i row')
    (hbound : db.sequence.issued < 2 ^ 40)
    (hpages : ∀ g, ¬ row.Owns g → g.num ≤ db.sequence.issued ∨ 2 ^ 40 ≤ g.num →
      db'.pages g = db.pages g) :
    db'.store.relations = db.store.relations.set i (db'.relationOf row') := by
  have hother : ∀ j row₁, j ≠ i → db.relation.rows[j]? = some row₁ →
      db'.relationOf row₁ = db.relationOf row₁ := by
    intro j row₁ hj hrow₁
    have htable := h.table j row₁ hrow₁
    refine relationOf_congr htable fun g hg => hpages g ?_ ?_
    · exact htable.not_owns (h.table i row hrow) hbound (h.apart j i row₁ row hrow₁ hrow hj) hg
    · rcases hg with hg | ⟨hdata, rfl⟩
      · exact Or.inl (htable.names g hg).2
      · have hnum := Gid.num_successor (htable.num_lt hbound (Or.inr ⟨hdata, rfl⟩))
        exact Or.inr (by omega)
  apply List.ext_getElem?
  intro j
  simp only [store, hrows, List.map_set, List.getElem?_set, List.getElem?_map, List.length_map]
  by_cases hj : i = j
  · simp only [if_pos hj]
  · rw [if_neg hj, if_neg hj]
    cases hrow₁ : db.relation.rows[j]? with
    | none => rfl
    | some row₁ => exact congrArg some (hother j row₁ (fun heq => hj heq.symm) hrow₁)

theorem relationOf_of_data (hdata : row.dataGid ≠ 0) :
    (db.relationOf row).data = some (db.mesh row.data) := if_neg hdata

/-- Where the mesh of a table changes, the store gets the new one. -/
theorem Tables.store_mesh (h : db.Tables cfg) (hrow : db.relation.rows[i]? = some row)
    (hdata : row.dataGid ≠ 0) (hbound : db.sequence.issued < 2 ^ 40) (hsame : db.SameBut db' row.data) :
    db'.store = db.store.setData i (db.relationOf row) (db'.mesh row.data) := by
  have htable := h.table i row hrow
  have happart := htable.apart hbound hdata
  have hheader : db'.pages row.header = db.pages row.header :=
    hsame.pages _ happart.ne happart.header_ne_successor
  have hrows : db'.relation.rows = db.relation.rows.set i row := by
    obtain ⟨hlt, hget⟩ := List.getElem?_eq_some_iff.mp hrow
    rw [hsame.relation, ← hget, List.set_getElem_self]
  have hrelation : db'.relationOf row = { db.relationOf row with data := some (db'.mesh row.data) } := by
    simp only [relationOf, hheader, if_neg hdata]
  have hrelations := h.relations_replace hrow hrows hbound fun g hg _ => by
    apply hsame.pages
    · rintro rfl
      exact hg (Or.inl (Or.inr ⟨hdata, rfl⟩))
    · rintro rfl
      exact hg (Or.inr ⟨hdata, rfl⟩)
  rw [hrelation] at hrelations
  exact congrArg₂ Store.mk hrelations hsame.trans

theorem find_store (db : Db) (session : Session) (schema table : List UInt8) :
    db.store.find session schema table
      = (db.relationRow session schema table).map fun (row, i) => (db.relationOf row, i) := by
  rw [Store.find, relationRow, store, List.zipIdx_map, List.find?_map]
  rfl

/-! ### Finding the table -/

theorem relationRow_eq_some_iff {session : Session} {schema table : List UInt8} :
    db.relationRow session schema table = some (row, i) ↔
      db.relation.rows[i]? = some row ∧ row.isNamed session schema table = true
        ∧ ∀ (j : Nat) row₁, j < i → db.relation.rows[j]? = some row₁ →
          row₁.isNamed session schema table = false := by
  rw [relationRow, List.find?_eq_some_iff_getElem]
  constructor
  · rintro ⟨hnamed, j, hj, hget, hbefore⟩
    rw [List.getElem_zipIdx, Prod.mk.injEq] at hget
    obtain ⟨hrow, hij⟩ := hget
    rw [Nat.zero_add] at hij
    subst hij
    refine ⟨List.getElem?_eq_some_iff.mpr ⟨_, hrow⟩, hnamed, fun k row₁ hk hrow₁ => ?_⟩
    obtain ⟨hlt, rfl⟩ := List.getElem?_eq_some_iff.mp hrow₁
    have := hbefore k hk
    rw [List.getElem_zipIdx] at this
    simpa using this
  · rintro ⟨hrow, hnamed, hbefore⟩
    obtain ⟨hlt, rfl⟩ := List.getElem?_eq_some_iff.mp hrow
    refine ⟨hnamed, i, by rwa [List.length_zipIdx], by simp, fun j hj => ?_⟩
    have hget := List.getElem?_eq_getElem (Nat.lt_trans hj hlt)
    rw [List.getElem_zipIdx]
    simpa using hbefore j _ hj hget

/-- What `find_relation` answers for an `INSERT` into a table: the database has the data of the table. -/
structure Found (cfg : Config) (db : Db) (session : Session) (schema table : List UInt8) (t : Relation)
    (i : Nat) (out : Db × GidPair) (mesh : Mesh Row) : Prop where
  laid : out.1.Laid cfg
  issued : out.1.sequence.issued < 2 ^ 40
  row : ∃ row, out.1.relationRow session schema table = some (row, i) ∧ row.dataGid ≠ 0
    ∧ out.2 = row.gids ∧ out.1.relationOf row = { t with data := some mesh }
  store : out.1.store = db.store.setData i t mesh
  trans : out.1.trans = db.trans

theorem setData_self (hrow : db.relation.rows[i]? = some row) (hdata : row.dataGid ≠ 0) :
    db.store.setData i (db.relationOf row) (db.mesh row.data) = db.store := by
  have hself : { db.relationOf row with data := some (db.mesh row.data) } = db.relationOf row := by
    rw [← relationOf_of_data hdata]
  have hget : db.store.relations[i]? = some (db.relationOf row) := by
    rw [store, List.getElem?_map, hrow]
    rfl
  obtain ⟨hlt, hget⟩ := List.getElem?_eq_some_iff.mp hget
  rw [Store.setData, hself, ← hget, List.set_getElem_self]

theorem relationRow_set {session : Session} {schema table : List UInt8}
    (hfound : db.relationRow session schema table = some (row, i))
    (hrows : db'.relation.rows = db.relation.rows.set i row')
    (hnamed : row'.isNamed session schema table = row.isNamed session schema table) :
    db'.relationRow session schema table = some (row', i) := by
  obtain ⟨hrow, hrowNamed, hbefore⟩ := relationRow_eq_some_iff.mp hfound
  have hlt := (List.getElem?_eq_some_iff.mp hrow).1
  refine relationRow_eq_some_iff.mpr ⟨?_, hnamed.trans hrowNamed, fun j row₁ hj hrow₁ => ?_⟩
  · rw [hrows, List.getElem?_set_self hlt]
  · rw [hrows, List.getElem?_set_ne (by omega)] at hrow₁
    exact hbefore j row₁ hj hrow₁

theorem mesh_of_dgridInit {data : Gid} {grid : Grid}
    (hinit : dgridInit cfg.build cfg.pagesz .mvcc header = .ok grid) (hpage : db.pages data = grid) :
    db.mesh data = ⟨grid.rown, false, []⟩ := by
  obtain ⟨-, hlast, -, hoccupied, -⟩ := dgridInit_eq_ok hinit
  have hnext : (db.pages data).next = .undef := hpage ▸ hlast
  apply mesh_eq
  · rw [hpage]
  · simp [hnext]
  · have hrows : (db.mesh data).rows = (db.pages data).list := by
      simp [mesh, hnext]
    rw [hrows, hpage, Grid.list_of_occupied_eq_zero hoccupied]

/-- The data that the first `INSERT` creates are those of an empty mesh. -/
theorem createData_agrees {session : Session} {schema table : List UInt8} (h : db.Laid cfg)
    (hissued : db.sequence.issued + 1 < 2 ^ 40)
    (hfound : db.relationRow session schema table = some (row, i)) (hdata : row.dataGid = 0) :
    Agrees (Found cfg db session schema table (db.relationOf row) i)
      (do
        match ← createData cfg db i row with
        | none => return (db, ⟨.undef, .undef⟩)
        | some (db, row) => return (db, ⟨row.header, ⟨row.tailGid.toUInt64⟩⟩))
      ((db.relationOf row).dataOrNew cfg) := by
  have hrow := relationRow_eq_some hfound
  have htables := h.tables (by omega)
  have htable := htables.table i row hrow
  obtain ⟨sequence, hnext, hplain, hissued', hvalue⟩ :=
    h.sequence.nextval_ok cfg.build (by omega)
  have hnone : (db.relationOf row).data = none := if_pos hdata
  have hheader : (db.relationOf row).header = db.pages row.header := rfl
  rw [Relation.dataOrNew, hnone]
  dsimp only
  rw [hheader]
  cases hinit : dgridInit cfg.build cfg.pagesz .mvcc (db.pages row.header) with
  | error e =>
      have hcreate : createData cfg db i row = .error e := by
        rw [createData, hnext]
        dsimp only [bind, Except.bind]
        rw [hinit]
      rw [hcreate]
      exact .error e
  | ok dtable =>
      generalize db.sequence.next = v at *
      have hgid : Gid.ofParts v.toUInt64 0 = ⟨v.toUInt64⟩ := Gid.ofParts_value hvalue (by omega)
      have hcreate : createData cfg db i row = .ok (some
          ((Db.setPage { db with sequence } ⟨v.toUInt64⟩ dtable).setRelationRow i
            { row with dataGid := v, tailGid := v }, { row with dataGid := v, tailGid := v })) := by
        rw [createData, hnext]
        dsimp only [bind, Except.bind]
        rw [hinit, hgid]
        rfl
      rw [hcreate]
      obtain ⟨hlaid, hrow₁, -, hdata₁⟩ := createData_laid h hrow hcreate
      generalize hdb₁ : Db.setRelationRow _ i _ = db₁ at *
      have hpage : db₁.pages ⟨v.toUInt64⟩ = dtable := by
        rw [← hdb₁, pages_setRelationRow, pages_setPage_self]
      have hpages : ∀ g, g ≠ ⟨v.toUInt64⟩ → db₁.pages g = db.pages g := by
        intro g hg
        rw [← hdb₁, pages_setRelationRow, pages_setPage_of_ne _ _ hg]
      have hrows : db₁.relation.rows
          = db.relation.rows.set i { row with dataGid := v, tailGid := v } := by
        rw [← hdb₁]
        rfl
      have hnum : Gid.num ⟨v.toUInt64⟩ = db.sequence.issued + 1 := Gid.num_of_value hvalue
      have hne : row.header ≠ ⟨v.toUInt64⟩ := by
        intro heq
        have := (htable.names _ (Or.inl rfl)).2
        rw [heq] at this
        omega
      have hrelation : db₁.relationOf { row with dataGid := v, tailGid := v }
          = { db.relationOf row with data := some ⟨dtable.rown, false, []⟩ } := by
        have hmesh := mesh_of_dgridInit hinit hpage
        have hpageHeader := hpages row.header hne
        simp only [relationOf, RelationRow.header, RelationRow.data, if_neg hdata₁] at hpageHeader hmesh ⊢
        rw [hpageHeader, hmesh]
      refine .ok ⟨hlaid, ?_, ⟨_, relationRow_set hfound hrows rfl, hdata₁, rfl, hrelation⟩, ?_, ?_⟩
      · rw [← hdb₁]
        change sequence.issued < 2 ^ 40
        omega
      · have hrelations := htables.relations_replace hrow hrows (by omega) fun g _ hg => by
          apply hpages
          rintro rfl
          omega
        rw [hrelation] at hrelations
        refine congrArg₂ Store.mk hrelations ?_
        rw [← hdb₁]
        rfl
      · rw [← hdb₁]
        rfl

theorem findRelation_agrees {session : Session} {schema table : List UInt8} (h : db.Laid cfg)
    (hissued : db.sequence.issued + 1 < 2 ^ 40)
    (hfound : db.relationRow session schema table = some (row, i)) :
    Agrees (Found cfg db session schema table (db.relationOf row) i)
      (findRelation cfg db session schema table true true) ((db.relationOf row).dataOrNew cfg) := by
  obtain ⟨hrow, hnamed, hbefore⟩ := relationRow_eq_some_iff.mp hfound
  have htable := (h.tables (by omega)).table i row hrow
  have hheaderGid : row.headerGid ≠ 0 := fun hzero =>
    htable.ne_undef (Or.inl rfl) (gid_eq_undef_iff.mpr hzero)
  rw [findRelation, hfound]
  simp only [Build.assert_of cfg.build hheaderGid, true_and, if_true]
  by_cases hdata : row.dataGid = 0
  · rw [if_pos hdata]
    exact createData_agrees h hissued hfound hdata
  · rw [if_neg hdata, Relation.dataOrNew, relationOf_of_data hdata]
    refine .ok ⟨h, Nat.lt_of_succ_lt hissued, ⟨row, hfound, hdata, ?_, ?_⟩, ?_, rfl⟩
    · rw [htable.tail]
      rfl
    · rw [← relationOf_of_data hdata]
    · exact (setData_self hrow hdata).symm

/-! ### INSERT -/

theorem putTranIfNone_catalog {session session' : Session} {ts ts' : TranState} {status : ScrcStatus}
    (h : putTranIfNone cfg ts session = .ok (ts', session', status)) :
    session'.catalog = session.catalog := by
  unfold putTranIfNone at h
  split at h
  · unfold tranPut at h
    split at h
    · obtain ⟨-, -, h⟩ := bind_eq_ok.mp h
      cases h
    · split at h
      · obtain ⟨-, -, h⟩ := bind_eq_ok.mp h
        cases h
      · obtain ⟨out, -, h⟩ := bind_eq_ok.mp h
        cases out with
        | none =>
            cases h
            rfl
        | some next =>
            obtain ⟨flags, -, h⟩ := bind_eq_ok.mp h
            cases h
            rfl
  · cases h
    rfl

theorem relationRow_congr {session session' : Session} {schema table : List UInt8}
    (hcatalog : session'.catalog = session.catalog) (hrelation : db'.relation = db.relation) :
    db'.relationRow session' schema table = db.relationRow session schema table := by
  rw [relationRow, relationRow, hrelation]
  simp only [RelationRow.isNamed, hcatalog]

/-- The answer of `insert` with the state of the store that it leaves. -/
structure Inserts (schema table : List UInt8) (out : Db × Session × ScrcStatus × Option Mitor)
    (out' : Store × Session × Reply) : Prop where
  store : out'.1 = out.1.store
  session : out'.2.1 = out.2.1
  reply : out'.2.2 = ⟨out.2.2.1, out.2.2.2.map (out.1.rowName out.2.1 schema table), []⟩

/-- `insert` on pages does what it does on lists of rows. -/
theorem insert_agrees {session : Session} {schema table : List UInt8} {names : List (List UInt8)}
    {values : List Datum} {leftover : Option Tran} (h : db.Laid cfg)
    (hissued : db.sequence.issued + 1 < 2 ^ 40) :
    Agrees (Inserts schema table) (insert cfg db session schema table names values .mvcc leftover)
      (db.store.insert cfg session schema table names values leftover) := by
  rw [Store.insert, find_store]
  cases hfound : db.relationRow session schema table with
  | none =>
      rw [insert, findRelation, hfound]
      exact Agrees.bind_same (x := cfg.build.assert (names.length = values.length)) fun _ _ =>
        .ok ⟨rfl, rfl, rfl⟩
  | some found =>
      obtain ⟨row, i⟩ := found
      apply (findRelation_agrees h hissued hfound).bind
      rintro ⟨db₁, gp⟩ mesh ⟨hlaid, hbound, ⟨row₁, hfound₁, hdata₁, heq, hrelation⟩, hstore, htrans⟩
      obtain rfl : gp = row₁.gids := heq
      dsimp only at hlaid hbound hfound₁ hrelation hstore htrans ⊢
      have hrow₁ := relationRow_eq_some hfound₁
      have htable := (hlaid.tables hbound).table i row₁ hrow₁
      have happart := htable.apart hbound hdata₁
      have hheader : (db.relationOf row).header = db₁.pages row₁.gids.header :=
        congrArg Relation.header hrelation.symm
      apply Agrees.bind_same
      intro _ _
      rw [if_neg happart.header, Build.assert_of cfg.build happart.data, htrans]
      refine Agrees.bind_same (x := putTranIfNone cfg db.trans session) ?_
      rintro ⟨ts, session', status⟩ hput
      have hstore₂ : store { db₁ with trans := ts }
          = { db.store.setData i (db.relationOf row) mesh with trans := ts } := by
        rw [← hstore]
        rfl
      rw [hheader]
      dsimp only
      cases status with
      | ok =>
          cases htran : session'.tran with
          | none => exact .error _
          | some tran =>
              dsimp only
              cases hindices : columnIndices (db₁.pages row₁.gids.header) (names ++ [tminName, tmaxName]) with
              | none => exact .ok ⟨hstore₂.symm, rfl, rfl⟩
              | some indices =>
                  have hmesh : IsMesh cfg (db₁.pages row₁.header) { db₁ with trans := ts } row₁.data :=
                    (htable.data hdata₁).2.congr rfl rfl
                  have hagrees := @insertRow_agrees cfg { db₁ with trans := ts } row₁.gids leftover indices
                    (values ++ [makeTranid tran.key, makeTranid tranInvalidId]) hmesh happart htable.header
                    (columnIndices_lt hindices)
                  have hmeshOf : mesh = Db.mesh { db₁ with trans := ts } row₁.data := by
                    have hdata := congrArg Relation.data hrelation
                    rw [relationOf_of_data hdata₁] at hdata
                    exact (Option.some_injective _ hdata).symm
                  rw [hmeshOf]
                  refine hagrees.bind ?_
                  rintro ⟨db₂, status, m⟩ ⟨mesh₂, status₂, n⟩ ⟨heqMesh, hsame, heqStatus, heqNumber⟩
                  have hmesh₂ : mesh₂ = db₂.mesh row₁.data := heqMesh
                  have hstatus : status₂ = status := heqStatus
                  have hnumber : n = m.map (db₂.rowNumber row₁.data) := heqNumber
                  have hsame : SameBut { db₁ with trans := ts } db₂ row₁.data := hsame
                  have hfound₂ : db₂.relationRow session' schema table = some (row₁, i) :=
                    (relationRow_congr (putTranIfNone_catalog hput) hsame.relation).trans hfound₁
                  have htables : Tables cfg { db₁ with trans := ts } :=
                    (hlaid.tables hbound).congr rfl rfl (Nat.le_refl _)
                  have hresult := htables.store_mesh hrow₁ hdata₁ hbound hsame
                  refine .ok ⟨?_, rfl, ?_⟩
                  · change Store.setData _ i (db.relationOf row) mesh₂ = db₂.store
                    rw [hresult, hstore₂, ← hmeshOf]
                    change _ = Store.setData _ i (db₁.relationOf row₁) _
                    rw [hrelation, hmesh₂]
                    rfl
                  · change Reply.mk status₂ (n.map _) [] = Reply.mk status (m.map _) []
                    have hname : db₂.rowName session' schema table
                        = fun m => (i, db₂.rowNumber row₁.data m) := by
                      funext m
                      rw [rowName, hfound₂]
                    rw [hname, hstatus, hnumber, Option.map_map]
                    rfl
      | _ => exact .ok ⟨hstore₂.symm, rfl, rfl⟩

end Db

end Scroller
