import Scroller.Ddl
import Scroller.Lib.Outcome
import Scroller.Proof.TableLayout

/-!
# Commands keep the tables in order

What every function of `ddl.c` and `dml.c` does to the tables of a database: a new table gets a new header, the
first `INSERT` gives it data under a new id, and rows are allocated and changed inside of its mesh.
-/

namespace Scroller

open Outcome

/-! ### New ids -/

namespace Sequence

theorem toNat_toUInt64 {v : Int64} {n : Nat} (hv : v.toInt = n) : v.toUInt64.toNat = n := by
  have hnonneg : (0 : Int64) ≤ v := by
    rw [Int64.le_iff_toInt_le, hv]
    exact Int.natCast_nonneg n
  rw [Int64.toNat_toUInt64_of_le hnonneg, Int64.toNatClampNeg, hv]
  rfl

end Sequence

namespace Gid

theorem num_of_value {v : Int64} {n : Nat} (hv : v.toInt = n) : num ⟨v.toUInt64⟩ = n :=
  Sequence.toNat_toUInt64 hv

theorem ofParts_value {v : Int64} {n : Nat} (hv : v.toInt = n) (hn : n < 2 ^ 40) :
    ofParts v.toUInt64 0 = ⟨v.toUInt64⟩ := by
  apply ofParts_zero
  rw [Sequence.toNat_toUInt64 hv]
  exact hn

end Gid

/-! ### Allocating and filling rows -/

namespace Db

variable {cfg : Config} {db db' : Db} {gp : GidPair}

theorem gridAllocRow_room {g : Grid} (h : g.occupied < g.rown) :
    gridAllocRow g = ({ g with occupied := g.occupied + 1 }, some g.occupied) := if_pos h

theorem gridAllocRow_full {g : Grid} (h : ¬ g.occupied < g.rown) : gridAllocRow g = (g, none) := if_neg h

theorem nextTail_eq (hdata : gp.data.num < 2 ^ 40) :
    nextTail cfg db gp.data = .ok (some (db, gp.data.successor)) := by
  have hpage : gp.data.page < gidMaxpage := by
    rw [Gid.page_of_num_lt hdata]
    decide
  exact if_pos hpage

/-- `mesh_alloc_row` changes the mesh that it starts from. -/
theorem meshAllocRow_spec {tail : GidPair} {row : Option Mitor}
    (hmesh : db.IsMesh cfg (db.pages gp.header) gp.data) (hgp : gp.Apart)
    (h : meshAllocRow cfg db gp = .ok (db', tail, row)) :
    db.SameBut db' gp.data ∧ db'.IsMesh cfg (db.pages gp.header) gp.data
      ∧ ∀ m, row = some m → mitorIsValid db' m = true → db'.OnMesh gp m := by
  have hsuccessor := hgp.data_ne_successor.symm
  unfold meshAllocRow at h
  by_cases hroom : (db.pages gp.data).occupied < (db.pages gp.data).rown
  · rw [gridAllocRow_room hroom] at h
    obtain ⟨-, -, h⟩ := bind_eq_ok.mp h
    cases h
    obtain ⟨-, halloc⟩ := alloc_first hmesh hgp hroom (pages_setPage_self db gp.data _)
    refine ⟨SameBut.setPage (Or.inl rfl) _, halloc.isMesh, fun m hm _ => ?_⟩
    cases hm
    exact halloc.onMesh
  · rw [gridAllocRow_full hroom] at h
    dsimp only at h
    rw [setPage_self] at h
    obtain ⟨-, -, h⟩ := bind_eq_ok.mp h
    obtain ⟨found, hfound, h⟩ := bind_eq_ok.mp h
    rw [nextTail_eq hgp.dataFile] at hfound
    cases hfound
    obtain ⟨data, hinit, h⟩ := bind_eq_ok.mp h
    rw [hmesh.page.content] at hinit
    cases h
    have hfull : (db.pages gp.data).occupied = (db.pages gp.data).rown :=
      Nat.le_antisymm hmesh.page.occupied (Nat.le_of_not_lt hroom)
    rw [pages_setPage_of_ne _ _ hgp.data_ne_successor, pages_setPage_of_ne _ _ hsuccessor,
      pages_setPage_self]
    generalize hdb' : Db.setPage _ gp.data.successor (gridAllocRow data).1 = db₂
    have hnext : db₂.pages gp.data.successor = (gridAllocRow data).1 := by
      rw [← hdb', pages_setPage_self]
    have hover : StartedOver cfg db db₂ gp data := by
      refine ⟨hfull, hinit, ?_⟩
      rw [← hdb', pages_setPage_of_ne _ _ hgp.data_ne_successor, pages_setPage_self]
    have hsame : db.SameBut db₂ gp.data := by
      rw [← hdb']
      exact ((SameBut.setPage (Or.inr rfl) _).trans' (SameBut.setPage (Or.inl rfl) _)).trans'
        (SameBut.setPage (Or.inr rfl) _)
    by_cases hzero : data.rown = 0
    · have hnone : gridAllocRow data = (data, none) := gridAllocRow_full (by omega)
      rw [hnone] at hnext
      refine ⟨hsame, (alloc_none hover hmesh hgp hnext hzero).2, fun m hm hvalid => ?_⟩
      rw [hnone] at hm
      cases hm
      rw [mitorIsValid_eq db₂ hgp.header hgp.successor_ne_undef, hnext,
        (dgridInit_eq_ok hinit).2.2.2.1] at hvalid
      exact absurd (of_decide_eq_true hvalid) (Nat.not_lt_zero _)
    · have hoccupied := (dgridInit_eq_ok hinit).2.2.2.1
      have hsome : gridAllocRow data = ({ data with occupied := data.occupied + 1 }, some data.occupied) :=
        gridAllocRow_room (by omega)
      rw [hsome] at hnext
      obtain ⟨-, halloc⟩ := alloc_second hover hmesh hgp hnext hzero
      refine ⟨hsame, halloc.isMesh, fun m hm _ => ?_⟩
      rw [hsome] at hm
      cases hm
      rw [Option.getD_some, hoccupied]
      exact halloc.onMesh

theorem mitorPutDatum_spec {m : Mitor} {column : Nat} {datum : Datum}
    (h : mitorPutDatum cfg db m column datum = .ok (some db')) :
    ∃ row, db' = db.putRow m row := by
  obtain ⟨grid, hgrid, h⟩ := bind_eq_ok.mp h
  unfold gridPutDatum at hgrid
  obtain ⟨-, -, hgrid⟩ := bind_eq_ok.mp hgrid
  obtain ⟨-, -, hgrid⟩ := bind_eq_ok.mp hgrid
  obtain ⟨-, -, hgrid⟩ := bind_eq_ok.mp hgrid
  obtain ⟨cell, -, hgrid⟩ := bind_eq_ok.mp hgrid
  cases cell with
  | none =>
      cases hgrid
      cases h
  | some cell =>
      cases hgrid
      cases h
      exact ⟨_, rfl⟩

theorem mitorPutDatum_occupied {m : Mitor} {column : Nat} {datum : Datum} {put : Option Db}
    (h : mitorPutDatum cfg db m column datum = .ok put) : m.row < (db.pages m.gp.data).occupied := by
  obtain ⟨grid, hgrid, -⟩ := bind_eq_ok.mp h
  obtain ⟨-, -, hgrid⟩ := bind_eq_ok.mp hgrid
  obtain ⟨_, hrow, -⟩ := bind_eq_ok.mp hgrid
  obtain ⟨-, -, hrow⟩ := bind_eq_ok.mp hrow
  split at hrow
  · assumption
  · cases hrow

/-- Two meshes in the same place with the same rest of the database. -/
structure SameMesh (cfg : Config) (db db' : Db) (gp : GidPair) (header : Grid) : Prop where
  same : db.SameBut db' gp.data
  isMesh : db'.IsMesh cfg header gp.data

theorem sameBut_refl (db : Db) (data : Gid) : db.SameBut db data := ⟨rfl, rfl, rfl, fun _ _ _ => rfl⟩

theorem OnMesh.page {header : Grid} {m : Mitor} (hm : db.OnMesh gp m)
    (hmesh : db.IsMesh cfg header gp.data) : m.gp.data = gp.data ∨ m.gp.data = gp.data.successor := by
  rcases hm.place with ⟨hdata, -⟩ | ⟨hnext, hdata⟩
  · exact Or.inl hdata
  · rcases hmesh.next with hlast | hsecond
    · exact absurd hlast hnext
    · right
      rw [hdata, hsecond.next]

theorem OnMesh.dataPage {header : Grid} {m : Mitor} (hm : db.OnMesh gp m)
    (hmesh : db.IsMesh cfg header gp.data) : (db.pages m.gp.data).DataPage cfg header := by
  rcases hm.place with ⟨hdata, -⟩ | ⟨hnext, hdata⟩
  · rw [hdata]
    exact hmesh.page
  · rcases hmesh.next with hlast | hsecond
    · exact absurd hlast hnext
    · rw [hdata, hsecond.next]
      exact hsecond.page

theorem sameBut_putRow {header : Grid} {m : Mitor} (hm : db.OnMesh gp m)
    (hmesh : db.IsMesh cfg header gp.data) (row : Row) : db.SameBut (db.putRow m row) gp.data :=
  SameBut.setPage (hm.page hmesh) _

theorem putValues_spec {header : Grid} {m : Mitor} {indices : List Nat} {values : List Datum}
    {filled : Bool} (hmesh : db.IsMesh cfg header gp.data) (hm : db.OnMesh gp m)
    (hvalid : mitorIsValid db m = true)
    (h : putValues cfg db m indices values = .ok (db', filled)) : SameMesh cfg db db' gp header := by
  induction indices generalizing db values with
  | nil =>
      cases h
      exact ⟨sameBut_refl _ gp.data, hmesh⟩
  | cons index indices ih =>
      cases values with
      | nil => cases h
      | cons value values =>
          obtain ⟨put, hput, h⟩ := bind_eq_ok.mp h
          cases put with
          | none =>
              cases h
              exact ⟨sameBut_refl _ gp.data, hmesh⟩
          | some db₁ =>
              obtain ⟨row, rfl⟩ := mitorPutDatum_spec hput
              have hrest := ih (hmesh.putRow hvalid row) (hm.putRow row)
                (by rwa [mitorIsValid_putRow]) h
              exact ⟨(sameBut_putRow hm hmesh row).trans' hrest.same, hrest.isMesh⟩

theorem insertRow_spec {leftover : Option Tran} {indices : List Nat} {values : List Datum}
    {status : ScrcStatus} {row : Option Mitor}
    (hmesh : db.IsMesh cfg (db.pages gp.header) gp.data) (hgp : gp.Apart)
    (h : insertRow cfg db gp leftover indices values = .ok (db', status, row)) :
    SameMesh cfg db db' gp (db.pages gp.header) := by
  obtain ⟨⟨db₁, tail, allocated⟩, halloc, h⟩ := bind_eq_ok.mp h
  obtain ⟨hsame, hmesh₁, hon⟩ := meshAllocRow_spec hmesh hgp halloc
  cases allocated with
  | none =>
      cases h
      exact ⟨hsame, hmesh₁⟩
  | some m =>
      dsimp only at h
      split at h
      · cases h
        exact ⟨hsame, hmesh₁⟩
      next hvalid =>
        split at h
        · cases h
          exact ⟨hsame, hmesh₁⟩
        · obtain ⟨⟨db₂, filled⟩, hput, h⟩ := bind_eq_ok.mp h
          cases h
          have hvalid : mitorIsValid db₁ m = true := not_not.mp hvalid
          have hrest := putValues_spec hmesh₁ (hon m rfl hvalid) hvalid hput
          exact ⟨hsame.trans' hrest.same, hrest.isMesh⟩


/-! ### What stays the same in any mesh -/

/-- Nothing differs but pages and the sequence of meshes. -/
structure SameSystem (db db' : Db) : Prop where
  relation : db'.relation = db.relation
  sequence : db'.sequence = db.sequence
  trans : db'.trans = db.trans

theorem SameSystem.trans' {db'' : Db} (h : db.SameSystem db') (h' : db'.SameSystem db'') :
    db.SameSystem db'' where
  relation := h'.relation.trans h.relation
  sequence := h'.sequence.trans h.sequence
  trans := h'.trans.trans h.trans

theorem sameSystem_refl (db : Db) : db.SameSystem db := ⟨rfl, rfl, rfl⟩

theorem sameSystem_setPage (db : Db) (g : Gid) (grid : Grid) : db.SameSystem (db.setPage g grid) :=
  ⟨rfl, rfl, rfl⟩

theorem nextTail_sameSystem {tail new : Gid} (h : nextTail cfg db tail = .ok (some (db', new))) :
    db.SameSystem db' := by
  unfold nextTail at h
  split at h
  · cases h
    exact sameSystem_refl _
  · obtain ⟨out, -, h⟩ := bind_eq_ok.mp h
    cases out with
    | none => cases h
    | some next =>
        cases h
        exact ⟨rfl, rfl, rfl⟩

theorem meshAllocRow_sameSystem {tail : GidPair} {row : Option Mitor}
    (h : meshAllocRow cfg db gp = .ok (db', tail, row)) : db.SameSystem db' := by
  unfold meshAllocRow at h
  dsimp only at h
  obtain ⟨-, -, h⟩ := bind_eq_ok.mp h
  split at h
  · cases h
    exact sameSystem_setPage _ _ _
  · obtain ⟨found, hfound, h⟩ := bind_eq_ok.mp h
    cases found with
    | none =>
        cases h
        exact sameSystem_setPage _ _ _
    | some found =>
        have hnext := (sameSystem_setPage _ _ _).trans' (nextTail_sameSystem hfound)
        obtain ⟨data, -, h⟩ := bind_eq_ok.mp h
        cases h
        exact ((hnext.trans' (sameSystem_setPage _ _ _)).trans' (sameSystem_setPage _ _ _)).trans'
          (sameSystem_setPage _ _ _)

theorem putValues_sameSystem {m : Mitor} {indices : List Nat} {values : List Datum} {filled : Bool}
    (h : putValues cfg db m indices values = .ok (db', filled)) : db.SameSystem db' := by
  induction indices generalizing db values with
  | nil =>
      cases h
      exact sameSystem_refl _
  | cons index indices ih =>
      cases values with
      | nil => cases h
      | cons value values =>
          obtain ⟨put, hput, h⟩ := bind_eq_ok.mp h
          cases put with
          | none =>
              cases h
              exact sameSystem_refl _
          | some db₁ =>
              obtain ⟨row, rfl⟩ := mitorPutDatum_spec hput
              exact (sameSystem_setPage _ _ _).trans' (ih h)

theorem insertRow_sameSystem {leftover : Option Tran} {indices : List Nat} {values : List Datum}
    {status : ScrcStatus} {row : Option Mitor}
    (h : insertRow cfg db gp leftover indices values = .ok (db', status, row)) : db.SameSystem db' := by
  obtain ⟨⟨db₁, tail, allocated⟩, halloc, h⟩ := bind_eq_ok.mp h
  have hsame := meshAllocRow_sameSystem halloc
  cases allocated with
  | none =>
      cases h
      exact hsame
  | some m =>
      dsimp only at h
      split at h
      · cases h
        exact hsame
      · split at h
        · cases h
          exact hsame
        · obtain ⟨⟨db₂, filled⟩, hput, h⟩ := bind_eq_ok.mp h
          cases h
          exact hsame.trans' (putValues_sameSystem hput)

/-! ### Finding a table -/

theorem relationRow_eq_some {session : Session} {schema table : List UInt8} {row : RelationRow} {i : Nat}
    (h : db.relationRow session schema table = some (row, i)) : db.relation.rows[i]? = some row := by
  have hmem := List.mem_of_find?_eq_some h
  exact List.mem_zipIdx_iff_getElem?.mp hmem

theorem pages_setRelationRow (i : Nat) (row : RelationRow) :
    (db.setRelationRow i row).pages = db.pages := rfl

theorem nextval_spec {cfg : Config} {s : Sequence} {out : Option (Sequence × Int64)} (hs : s.Plain)
    (h : sequenceNextval cfg.build s = .ok out) :
    ∃ s' v, out = some (s', v) ∧ s'.Plain ∧ s'.issued = s.issued + 1
      ∧ v.toInt = (s.issued + 1 : Nat) := hs.nextval h

/-- The table of a command: its ids are those of a row of `relation`, with data where they are created. -/
def IsFound (db : Db) (create : Bool) (gp : GidPair) : Prop :=
  gp.header = .undef ∨ ∃ (i : Nat) (row : RelationRow), db.relation.rows[i]? = some row
    ∧ gp.header = row.header ∧ (db.sequence.issued < 2 ^ 40 → gp.data = row.data)
    ∧ (create = true → row.dataGid ≠ 0)

theorem gid_eq_undef_iff {v : Int64} : (⟨v.toUInt64⟩ : Gid) = .undef ↔ v = 0 := by
  constructor
  · intro h
    have hv : v.toUInt64 = 0 := congrArg Gid.full h
    rw [← Int64.toInt64_toUInt64 v, hv]
    rfl
  · rintro rfl
    rfl

theorem Tables.newData {i : Nat} {row : RelationRow} {v : Int64} {dtable : Grid} (h : db.Tables cfg)
    (hbound : db'.sequence.issued < 2 ^ 40) (hrow : db.relation.rows[i]? = some row)
    (hv : v.toInt = (db.sequence.issued + 1 : Nat))
    (hinit : dgridInit cfg.build cfg.pagesz .mvcc (db.pages row.header) = .ok dtable)
    (hissued : db'.sequence.issued = db.sequence.issued + 1)
    (hrows : db'.relation.rows = db.relation.rows.set i { row with dataGid := v, tailGid := v })
    (hnew : db'.pages ⟨v.toUInt64⟩ = dtable)
    (hpages : ∀ g, g ≠ ⟨v.toUInt64⟩ → db'.pages g = db.pages g) : db'.Tables cfg := by
  have htable := h.table i row hrow
  have hnum : Gid.num ⟨v.toUInt64⟩ = db.sequence.issued + 1 := Gid.num_of_value hv
  have hheader : row.header ≠ ⟨v.toUInt64⟩ := by
    intro heq
    have := (htable.names _ (Or.inl rfl)).2
    rw [heq] at this
    omega
  have hnames : ∀ g, RelationRow.Names { row with dataGid := v, tailGid := v } g →
      g = row.header ∨ g = ⟨v.toUInt64⟩ := by
    rintro g (hg | ⟨-, hg⟩)
    · exact Or.inl hg
    · exact Or.inr hg
  apply h.replace hrow hrows (by omega) (by omega)
  · intro g _ hg
    apply hpages
    rintro rfl
    omega
  · refine ⟨?_, ?_, rfl, fun _ => ⟨hheader, ?_⟩⟩
    · intro g hg
      rcases hnames g hg with rfl | rfl
      · have := htable.names row.header (Or.inl rfl)
        omega
      · omega
    · have hpage : db'.pages row.header = db.pages row.header := hpages _ hheader
      exact hpage ▸ htable.header
    · have hpage : db'.pages row.header = db.pages row.header := hpages _ hheader
      refine ⟨?_, Or.inl ?_⟩
      · exact hpage ▸ hnew ▸ dataPage_of_dgridInit hinit
      · exact hnew ▸ (dgridInit_eq_ok hinit).2.1
  · intro g hg
    rcases hnames g hg with rfl | rfl
    · exact Or.inl (Or.inl rfl)
    · exact Or.inr (by omega)

/-- The first `INSERT` gives a table its data. -/
theorem createData_laid {i : Nat} {row row' : RelationRow} (h : db.Laid cfg)
    (hrow : db.relation.rows[i]? = some row)
    (hcreate : createData cfg db i row = .ok (some (db', row'))) :
    db'.Laid cfg ∧ db'.relation.rows[i]? = some row' ∧ row'.header = row.header ∧ row'.dataGid ≠ 0 := by
  obtain ⟨out, hnext, hcreate⟩ := bind_eq_ok.mp hcreate
  obtain ⟨sequence, v, rfl, hplain, hissued, hv⟩ := nextval_spec h.sequence hnext
  obtain ⟨dtable, hinit, hcreate⟩ := bind_eq_ok.mp hcreate
  cases hcreate
  have hlt : i < db.relation.rows.length := (List.getElem?_eq_some_iff.mp hrow).1
  have hne : v ≠ 0 := by
    rintro rfl
    have : (0 : Int) = (db.sequence.issued + 1 : Nat) := hv
    omega
  refine ⟨⟨hplain, h.catalog, fun hbound => ?_⟩, List.getElem?_set_self hlt, rfl, hne⟩
  have hfile : sequence.issued < 2 ^ 40 := hbound
  have hgid : Gid.ofParts v.toUInt64 0 = ⟨v.toUInt64⟩ := Gid.ofParts_value hv (by omega)
  have htables := h.tables (by omega)
  refine htables.newData hbound hrow hv hinit hissued rfl ?_ ?_
  · rw [pages_setRelationRow, hgid, pages_setPage_self]
  · intro g hg
    rw [pages_setRelationRow, hgid, pages_setPage_of_ne _ _ hg]

theorem createData_trans {i : Nat} {row row' : RelationRow}
    (hcreate : createData cfg db i row = .ok (some (db', row'))) : db'.trans = db.trans := by
  obtain ⟨out, -, hcreate⟩ := bind_eq_ok.mp hcreate
  cases out with
  | none => cases hcreate
  | some next =>
      obtain ⟨dtable, -, hcreate⟩ := bind_eq_ok.mp hcreate
      cases hcreate
      rfl

/-- What `find_relation` finds of a row. -/
theorem isFound_row {i : Nat} {row : RelationRow} {create : Bool} (h : db.Laid cfg)
    (hrow : db.relation.rows[i]? = some row) (hcreate : create = true → row.dataGid ≠ 0)
    (returnTail : Bool) :
    db.IsFound create ⟨row.header, if returnTail then ⟨row.tailGid.toUInt64⟩ else row.data⟩ := by
  refine Or.inr ⟨i, row, hrow, rfl, fun hbound => ?_, hcreate⟩
  have htail := ((h.tables hbound).table i row hrow).tail
  rw [htail]
  exact ite_self row.data

theorem findRelation_laid {session : Session} {schema table : List UInt8} {returnTail create : Bool}
    (h : db.Laid cfg)
    (hfind : findRelation cfg db session schema table returnTail create = .ok (db', gp)) :
    db'.Laid cfg ∧ db'.trans = db.trans ∧ db'.IsFound create gp := by
  unfold findRelation at hfind
  split at hfind
  · cases hfind
    exact ⟨h, rfl, Or.inl rfl⟩
  next row i hfound =>
    have hrow := relationRow_eq_some hfound
    obtain ⟨-, -, hfind⟩ := bind_eq_ok.mp hfind
    dsimp only at hfind
    split at hfind
    · obtain ⟨created, hcreated, hfind⟩ := bind_eq_ok.mp hfind
      cases created with
      | none =>
          cases hfind
          exact ⟨h, rfl, Or.inl rfl⟩
      | some created =>
          cases hfind
          obtain ⟨hlaid, hrow₁, -, hdata⟩ := createData_laid h hrow hcreated
          exact ⟨hlaid, createData_trans hcreated,
            isFound_row hlaid hrow₁ (fun _ => hdata) returnTail⟩
    · rename_i hcond
      cases hfind
      exact ⟨h, rfl, isFound_row h hrow (fun hcreate hdata => hcond ⟨hcreate, hdata⟩) returnTail⟩

/-! ### Rows and transactions -/

theorem Laid.withTrans (h : db.Laid cfg) {ts : TranState} (hts : ts.Plain) :
    Laid cfg { db with trans := ts } where
  sequence := h.sequence
  catalog := hts
  tables hbound := (h.tables hbound).congr rfl rfl (Nat.le_refl _)

theorem IsFound.withTrans {create : Bool} (h : db.IsFound create gp) (ts : TranState) :
    IsFound { db with trans := ts } create gp := h

theorem Laid.mesh (h : db.Laid cfg) {i : Nat} {row : RelationRow}
    (hrow : db.relation.rows[i]? = some row) (hdata : row.dataGid ≠ 0) (hsystem : db.SameSystem db')
    (hmesh : db.sequence.issued < 2 ^ 40 → SameMesh cfg db db' row.gids (db.pages row.header)) :
    db'.Laid cfg where
  sequence := by
    rw [hsystem.sequence]
    exact h.sequence
  catalog := by
    rw [hsystem.trans]
    exact h.catalog
  tables hbound := by
    rw [hsystem.sequence] at hbound
    exact (h.tables hbound).mesh hrow hdata hbound (hmesh hbound).same (hmesh hbound).isMesh

theorem insertRow_laid {leftover : Option Tran} {indices : List Nat} {values : List Datum}
    {status : ScrcStatus} {m : Option Mitor} (h : db.Laid cfg) (hfound : db.IsFound true gp)
    (hheader : gp.header ≠ .undef)
    (hinsert : insertRow cfg db gp leftover indices values = .ok (db', status, m)) : db'.Laid cfg := by
  obtain hundef | ⟨i, row, hrow, hgpHeader, hgpData, hdata⟩ := hfound
  · exact absurd hundef hheader
  have hdata := hdata rfl
  refine h.mesh hrow hdata (insertRow_sameSystem hinsert) fun hbound => ?_
  have htable := (h.tables hbound).table i row hrow
  have hgp : gp = row.gids := by
    cases gp
    cases hgpHeader
    cases hgpData hbound
    rfl
  subst hgp
  exact insertRow_spec (htable.data hdata).2 (htable.apart hbound hdata) hinsert

theorem putTranIfNone_laid {session session' : Session} {ts : TranState} {status : ScrcStatus}
    (h : db.Laid cfg) (hsession : session.Positive)
    (hput : putTranIfNone cfg db.trans session = .ok (ts, session', status)) :
    Laid cfg { db with trans := ts } ∧ session'.Positive := by
  unfold putTranIfNone at hput
  split at hput
  · have hspec := (tranPut_ensures (F := fun _ => True) (fun _ _ => True.intro) h.catalog
      (Or.inl True.intro) true).of_ok hput
    exact ⟨h.withTrans hspec.1, hspec.2.1⟩
  · cases hput
    exact ⟨h, hsession⟩

/-- `insert` keeps the tables in order. -/
theorem insert_laid {session session' : Session} {schema table : List UInt8} {names : List (List UInt8)}
    {values : List Datum} {content : GridContent} {leftover : Option Tran} {status : ScrcStatus}
    {m : Option Mitor} (h : db.Laid cfg) (hsession : session.Positive)
    (hinsert : insert cfg db session schema table names values content leftover
      = .ok (db', session', status, m)) : db'.Laid cfg ∧ session'.Positive := by
  obtain ⟨⟨db₁, gp⟩, hfind, hinsert⟩ := bind_eq_ok.mp hinsert
  obtain ⟨hlaid, -, hfound⟩ := findRelation_laid h hfind
  obtain ⟨-, -, hinsert⟩ := bind_eq_ok.mp hinsert
  split at hinsert
  · cases hinsert
    exact ⟨hlaid, hsession⟩
  next hheader =>
    obtain ⟨-, -, hinsert⟩ := bind_eq_ok.mp hinsert
    split at hinsert
    · split at hinsert
      · cases hinsert
        exact ⟨hlaid, hsession⟩
      · obtain ⟨⟨db₂, status₂, row₂⟩, hrow, hinsert⟩ := bind_eq_ok.mp hinsert
        cases hinsert
        exact ⟨insertRow_laid hlaid hfound hheader hrow, hsession⟩
    · obtain ⟨⟨ts, session₁, status₁⟩, hput, hinsert⟩ := bind_eq_ok.mp hinsert
      obtain ⟨hlaid₁, hsession₁⟩ := putTranIfNone_laid hlaid hsession hput
      dsimp only at hinsert
      split at hinsert
      · split at hinsert
        · cases hinsert
          exact ⟨hlaid₁, hsession₁⟩
        · obtain ⟨⟨db₂, status₂, row₂⟩, hrow, hinsert⟩ := bind_eq_ok.mp hinsert
          cases hinsert
          exact ⟨insertRow_laid hlaid₁ (hfound.withTrans ts) hheader hrow, hsession₁⟩
      · cases hinsert
      · cases hinsert
        exact ⟨hlaid₁, hsession₁⟩

end Db

/-! ### New tables -/

/-- A column of a header page with the name and the type of its declaration. -/
def Column.Declares (c : Column) (decl : Decl) : Prop :=
  c.name = decl.name.take (namesz - 1) ∧ c.type = decl.type

theorem hgridAddColumn_spec {g g' : Grid} {decl : Decl}
    (h : hgridAddColumn g decl.name decl.type decl.size = some g') :
    g'.rown = g.rown ∧ g'.occupied = g.occupied + 1 ∧ g'.occupied ≤ g'.rown
      ∧ (∀ i, i < g.occupied → g'.columns i = g.columns i)
      ∧ (g'.columns g.occupied).Declares decl := by
  unfold hgridAddColumn at h
  by_cases hroom : g.occupied < g.rown
  · rw [Db.gridAllocRow_room hroom] at h
    cases h
    refine ⟨rfl, rfl, hroom, fun i hi => ?_, ?_⟩
    · exact Function.update_of_ne (Nat.ne_of_lt hi) _ _
    · dsimp only
      rw [Function.update_self]
      exact ⟨rfl, rfl⟩
  · rw [Db.gridAllocRow_full hroom] at h
    cases h

/-- The columns of a header page in the order of their declarations. -/
theorem addColumns_spec {g g' : Grid} {decls : List Decl} (hle : g.occupied ≤ g.rown)
    (h : addColumns g decls = (g', true)) :
    g'.occupied = g.occupied + decls.length ∧ g'.occupied ≤ g'.rown
      ∧ (∀ i, i < g.occupied → g'.columns i = g.columns i)
      ∧ ∀ k decl, decls[k]? = some decl → (g'.columns (g.occupied + k)).Declares decl := by
  induction decls generalizing g with
  | nil =>
      cases h
      exact ⟨rfl, hle, fun _ _ => rfl, fun k decl hk => nomatch hk⟩
  | cons decl decls ih =>
      rw [addColumns] at h
      split at h
      · cases h
      next g₁ hadd =>
        obtain ⟨hrown, hoccupied, hle₁, hold, hnew⟩ := hgridAddColumn_spec hadd
        obtain ⟨hoccupied', hle', hold', hnew'⟩ := ih hle₁ h
        refine ⟨?_, hle', ?_, ?_⟩
        · rw [hoccupied', hoccupied, List.length_cons]
          omega
        · intro i hi
          rw [hold' i (by omega), hold i hi]
        · intro k decl' hk
          cases k with
          | zero =>
              cases hk
              rw [Nat.add_zero, hold' _ (by omega)]
              exact hnew
          | succ k =>
              have hlast := hnew' k decl' hk
              rw [hoccupied, Nat.add_assoc, Nat.add_comm 1] at hlast
              exact hlast

/-- A new header page opens with the columns of the versions. -/
theorem headerPage_of_addColumns {build : Build} {pagesz : Nat} {g g' : Grid} {decls : List Decl}
    (hinit : gridInit build pagesz .pure sizeofColumn = .ok g)
    (hadd : addColumns g (versionDecls .mvcc ++ decls) = (g', true))
    (htypes : ∀ decl ∈ decls, decl.type.group ≠ .unknown) : g'.HeaderPage := by
  have hzero : g.occupied = 0 := by
    have hg := gridInit_eq_ok hinit
    subst hg
    rfl
  obtain ⟨hoccupied, hle, -, hnew⟩ := addColumns_spec (by omega) hadd
  have hnew : ∀ k decl, (versionDecls .mvcc ++ decls)[k]? = some decl → (g'.columns k).Declares decl := by
    intro k decl hk
    have := hnew k decl hk
    rwa [hzero, Nat.zero_add] at this
  have hlength : (versionDecls .mvcc ++ decls).length = decls.length + 2 := by
    rw [List.length_append]
    exact Nat.add_comm _ _
  have htmin := hnew tminIdx _ rfl
  have htmax := hnew tmaxIdx _ rfl
  refine ⟨hle, by omega, htmin.1, htmin.2, htmax.1, htmax.2, fun i hi => ?_⟩
  have hlt : i < (versionDecls .mvcc ++ decls).length := by omega
  have hdecl := hnew i _ (List.getElem?_eq_getElem hlt)
  rw [hdecl.2]
  rcases List.mem_append.mp (List.getElem_mem hlt) with hmem | hmem
  · rcases List.mem_cons.mp hmem with heq | hmem
    · rw [heq]
      exact nofun
    · rw [List.mem_singleton.mp hmem]
      exact nofun
  · exact htypes _ hmem

theorem Mesh.allocRow_rows {R : Type} {build : Build} {mesh mesh' : Mesh R} {row : R} {valid : Bool}
    (h : mesh.allocRow build row = .ok (mesh', valid)) :
    mesh'.rows = mesh.rows ∨ ∃ n, mesh'.rows = mesh.rows.take n ++ [row] := by
  unfold Mesh.allocRow at h
  split at h
  · cases h
    right
    exact ⟨mesh.rows.length, by rw [List.take_length]⟩
  · obtain ⟨-, -, h⟩ := bind_eq_ok.mp h
    split at h
    · cases h
      exact Or.inl rfl
    · cases h
      exact Or.inr ⟨mesh.rown, rfl⟩

namespace Db

variable {cfg : Config} {db db' : Db}

/-- The commands on users, catalogs and schemas leave the tables alone. -/
theorem Laid.other (h : db.Laid cfg) (hsequence : db'.sequence.Plain)
    (hissued : db.sequence.issued ≤ db'.sequence.issued) (htrans : db'.trans.Plain)
    (hrows : db'.relation.rows = db.relation.rows) (hpages : db'.pages = db.pages) : db'.Laid cfg where
  sequence := hsequence
  catalog := htrans
  tables hbound := (h.tables (Nat.lt_of_le_of_lt hissued hbound)).congr hrows hpages hissued

theorem createUser_laid {user : List UInt8} {status : ScrcStatus} (h : db.Laid cfg)
    (hcreate : createUser cfg db user = .ok (db', status)) : db'.Laid cfg := by
  obtain ⟨⟨rows, valid⟩, -, hcreate⟩ := bind_eq_ok.mp hcreate
  cases hcreate
  exact h.other h.sequence (Nat.le_refl _) h.catalog rfl rfl

theorem createSchema_laid {session : Session} {schema : List UInt8} {status : ScrcStatus}
    (h : db.Laid cfg) (hcreate : createSchema cfg db session schema = .ok (db', status)) :
    db'.Laid cfg := by
  obtain ⟨⟨rows, valid⟩, -, hcreate⟩ := bind_eq_ok.mp hcreate
  cases hcreate
  exact h.other h.sequence (Nat.le_refl _) h.catalog rfl rfl

theorem plain_catalog {ts : TranState} {catalog : Mesh CatalogRow} {name : List UInt8} (h : ts.Plain)
    (hrows : catalog.rows = ts.catalog.rows ∨ ∃ n, catalog.rows = ts.catalog.rows.take n ++ [⟨name, none⟩]) :
    TranState.Plain { ts with catalog } := by
  intro row hrow s hs
  rcases hrows with hrows | ⟨n, hrows⟩
  · exact h row (hrows ▸ hrow) s hs
  · have hrow : row ∈ ts.catalog.rows.take n ++ [⟨name, none⟩] := hrows ▸ hrow
    rcases List.mem_append.mp hrow with hrow | hrow
    · exact h row (List.mem_of_mem_take hrow) s hs
    · rw [List.mem_singleton.mp hrow] at hs
      cases hs

theorem createCatalog_laid {catalog : List UInt8} {status : ScrcStatus} (h : db.Laid cfg)
    (hcreate : createCatalog cfg db catalog = .ok (db', status)) : db'.Laid cfg := by
  obtain ⟨⟨rows, valid⟩, hrows, hcreate⟩ := bind_eq_ok.mp hcreate
  have hplain : TranState.Plain { db.trans with catalog := rows } :=
    plain_catalog h.catalog (Mesh.allocRow_rows hrows)
  dsimp only at hcreate
  split at hcreate
  · cases hcreate
    exact h.other h.sequence (Nat.le_refl _) hplain rfl rfl
  · obtain ⟨out, hnext, hcreate⟩ := bind_eq_ok.mp hcreate
    obtain ⟨sequence, v, rfl, hsequence, hissued, -⟩ := nextval_spec h.sequence hnext
    have hle : db.sequence.issued ≤ sequence.issued := by omega
    obtain ⟨-, -, hcreate⟩ := bind_eq_ok.mp hcreate
    split at hcreate
    · cases hcreate
      exact h.other hsequence hle hplain rfl rfl
    · cases hcreate
      refine h.other hsequence hle (hplain.setCatalogRow ?_) rfl rfl
      intro s hs
      exact (Sequence.plain_sequenceInit hs).1

theorem createTable_laid {session : Session} {schema tname : List UInt8} {decls : List Decl}
    {status : ScrcStatus} (h : db.Laid cfg) (htypes : ∀ decl ∈ decls, decl.type.group ≠ .unknown)
    (hcreate : createTable cfg db session schema tname decls .mvcc = .ok (db', status)) :
    db'.Laid cfg := by
  obtain ⟨out, hnext, hcreate⟩ := bind_eq_ok.mp hcreate
  obtain ⟨sequence, v, rfl, hsequence, hissued, hv⟩ := nextval_spec h.sequence hnext
  obtain ⟨grid, hinit, hcreate⟩ := bind_eq_ok.mp hcreate
  have hnum : Gid.num ⟨v.toUInt64⟩ = db.sequence.issued + 1 := Gid.num_of_value hv
  cases hadd : addColumns grid (versionDecls .mvcc ++ decls) with
  | mk table added =>
      rw [hadd] at hcreate
      have hpage (hbound : sequence.issued < 2 ^ 40) :
          (db.setPage (Gid.ofParts v.toUInt64 0) table).Tables cfg
            ∧ Gid.ofParts v.toUInt64 0 = ⟨v.toUInt64⟩ := by
        have hgid : Gid.ofParts v.toUInt64 0 = ⟨v.toUInt64⟩ := Gid.ofParts_value hv (by omega)
        refine ⟨?_, hgid⟩
        rw [hgid]
        exact (h.tables (by omega)).setPage_fresh (by omega) (by omega) (by omega) table
      have hle : db.sequence.issued ≤ sequence.issued := by omega
      have hother (hrows : db'.relation.rows = db.relation.rows) (hsequence' : db'.sequence = sequence)
          (hpages : db'.pages = (db.setPage (Gid.ofParts v.toUInt64 0) table).pages)
          (htrans : db'.trans = db.trans) : db'.Laid cfg := by
        refine ⟨hsequence' ▸ hsequence, htrans ▸ h.catalog, fun hbound => ?_⟩
        rw [hsequence'] at hbound
        exact (hpage hbound).1.congr hrows hpages (by rw [hsequence']; exact hle)
      dsimp only at hcreate
      split at hcreate
      · cases hcreate
        exact hother rfl rfl rfl rfl
      next hadded =>
        obtain ⟨⟨rows, valid⟩, hrows, hcreate⟩ := bind_eq_ok.mp hcreate
        cases hcreate
        rw [not_not.mp hadded] at hadd
        rcases Mesh.allocRow_rows hrows with hrows | ⟨n, hrows⟩
        · exact hother hrows rfl rfl rfl
        · refine ⟨hsequence, h.catalog, fun hbound => ?_⟩
          obtain ⟨htables, hgid⟩ := hpage hbound
          have hnames : ∀ g, RelationRow.Names ⟨putChar (session.catalog.getD []) 32, putChar schema 32,
              putChar tname 32, v, 0, 0⟩ g → g.num = db.sequence.issued + 1 := by
            rintro g (rfl | ⟨hdata, -⟩)
            · exact hnum
            · exact absurd rfl hdata
          refine htables.append hrows hle rfl ?_ ?_
          · refine ⟨?_, ?_, rfl, fun hdata => absurd rfl hdata⟩
            · intro g hg
              have := hnames g hg
              have hissued' : _ = sequence.issued := rfl
              exact ⟨by omega, by rw [this, ← hissued]; exact Nat.le_refl _⟩
            · have hheader :
                  ((db.setPage (Gid.ofParts v.toUInt64 0) table).pages ⟨v.toUInt64⟩).HeaderPage := by
                rw [hgid, pages_setPage_self]
                exact headerPage_of_addColumns hinit hadd htypes
              exact hheader
          · intro g hg
            have := hnames g hg
            have hissued' : (db.setPage (Gid.ofParts v.toUInt64 0) table).sequence.issued
              = db.sequence.issued := rfl
            omega

end Db

end Scroller
