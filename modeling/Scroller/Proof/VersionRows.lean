import Scroller.Proof.MeshRows
import Scroller.Proof.TableLayout
import Scroller.Store

/-!
# Rows with versions

Access to the row under an iterator in a table with versions: its first two columns are the ids of the transactions
that put and deleted it.
-/

namespace Scroller

namespace Grid.HeaderPage

variable {header : Grid} (h : header.HeaderPage)
include h

theorem tminIdx_lt : tminIdx < header.occupied := Nat.lt_of_lt_of_le (by decide) h.versions

theorem tmaxIdx_lt : tmaxIdx < header.occupied := Nat.lt_of_lt_of_le (by decide) h.versions

theorem findTmin : hgridGetColumnIdx header Scroller.tminName = some tminIdx := by
  unfold hgridGetColumnIdx
  obtain ⟨n, hn⟩ := Nat.exists_eq_succ_of_ne_zero (Nat.ne_zero_of_lt h.tminIdx_lt)
  rw [hn, List.range_succ_eq_map, List.find?_cons_of_pos]
  · rfl
  · exact decide_eq_true h.tminName

theorem findTmax : hgridGetColumnIdx header Scroller.tmaxName = some tmaxIdx := by
  unfold hgridGetColumnIdx
  obtain ⟨n, hn⟩ := Nat.exists_eq_add_of_le' h.versions
  have hfirst : ¬ (header.columns 0).name = Scroller.tmaxName := by
    rw [show (header.columns 0).name = Scroller.tminName from h.tminName]
    decide
  rw [hn, List.range_succ_eq_map, List.find?_cons_of_neg, List.range_succ_eq_map, List.map_cons,
    List.find?_cons_of_pos]
  · rfl
  · exact decide_eq_true h.tmaxName
  · rw [decide_eq_true_eq]
    exact hfirst

end Grid.HeaderPage

/-- The row under an iterator in a table with versions, with the header page of the table. -/
structure Db.VersionRow (header : Grid) (db : Db) (m : Mitor) : Prop where
  page : header.HeaderPage
  found : db.pages m.gp.header = header
  content : (db.pages m.gp.data).content = .mvcc
  row : m.row < (db.pages m.gp.data).occupied
  room : (db.pages m.gp.data).occupied ≤ (db.pages m.gp.data).rown

namespace Db.VersionRow

variable {header : Grid} {db : Db} {m : Mitor} (h : db.VersionRow header m)
include h

theorem getRow (build : Build) : gridGetRow build (db.pages m.gp.data) m.row = .ok () := by
  unfold gridGetRow
  rw [Build.assert_of _ (Nat.lt_of_lt_of_le h.row h.room)]
  exact if_pos h.row

theorem getHeader (build : Build) {column : Nat} (hcolumn : column < header.occupied) :
    gridGetRow build (db.pages m.gp.header) column = .ok () := by
  rw [h.found]
  unfold gridGetRow
  rw [Build.assert_of _ (Nat.lt_of_lt_of_le hcolumn h.page.occupied)]
  exact if_pos hcolumn

theorem getDatum (cfg : Config) {column : Nat} (hcolumn : column < header.occupied) :
    mitorGetDatum cfg db m column
      = getCell cfg.build (header.columns column) ((db.pages m.gp.data).rows m.row column) := by
  unfold mitorGetDatum gridGetDatum
  have hassert : column < (db.pages m.gp.header).occupied := by rwa [h.found]
  rw [h.getHeader _ hcolumn, h.getRow, Build.assert_of _ hassert, h.found]
  rfl

theorem getTmin (cfg : Config) :
    mitorGetDatum cfg db m tminIdx = .ok ⟨tTranid, ((db.pages m.gp.data).rows m.row).tmin, []⟩ := by
  rw [h.getDatum cfg h.page.tminIdx_lt]
  unfold getCell
  rw [h.page.tminType]
  rfl

theorem getTmax (cfg : Config) :
    mitorGetDatum cfg db m tmaxIdx = .ok ⟨tTranid, ((db.pages m.gp.data).rows m.row).tmax, []⟩ := by
  rw [h.getDatum cfg h.page.tmaxIdx_lt]
  unfold getCell
  rw [h.page.tmaxType]
  rfl

theorem rowIsVisible_eq (cfg : Config) (tran : Tran) :
    rowIsVisible cfg db (some tran) m
      = tranRowIsVisible cfg db.trans.flags tran ((db.pages m.gp.data).rows m.row).tmin
        ((db.pages m.gp.data).rows m.row).tmax := by
  unfold rowIsVisible
  rw [h.getTmin, h.getTmax]
  rfl

theorem putTmax (cfg : Config) (tid : Int64) :
    mitorPutDatum cfg db m tmaxIdx (makeTranid tid)
      = .ok (some (db.putRow m (((db.pages m.gp.data).rows m.row).setTmax tid))) := by
  have hassert : tmaxIdx < (db.pages m.gp.header).occupied := by
    rw [h.found]
    exact h.page.tmaxIdx_lt
  have htype : ((db.pages m.gp.header).columns tmaxIdx).type = tTranid := by
    rw [h.found]
    exact h.page.tmaxType
  have hcell : putCell cfg.build ((db.pages m.gp.header).columns tmaxIdx)
      ((db.pages m.gp.data).rows m.row tmaxIdx) (makeTranid tid)
        = .ok (some { (db.pages m.gp.data).rows m.row tmaxIdx with integer := tid }) := by
    unfold putCell
    rw [Build.assert_of _ (show (makeTranid tid).type ≠ .unknown from nofun), htype]
    rfl
  unfold mitorPutDatum gridPutDatum
  rw [h.getHeader _ h.page.tmaxIdx_lt, h.getRow, Build.assert_of _ hassert, hcell]
  rfl

theorem deleteRow (cfg : Config) {session : Session} {tran : Tran} (hkey : tran.key ≠ 0)
    (hsession : session.tran = some tran) :
    dmlDeleteRow cfg session db m
      = .ok (db.putRow m (((db.pages m.gp.data).rows m.row).setTmax tran.key)) := by
  have hfind : hgridGetColumnIdx (db.pages m.gp.header) tmaxName = some tmaxIdx := by
    rw [h.found]
    exact h.page.findTmax
  unfold dmlDeleteRow
  rw [h.content]
  dsimp only
  rw [Build.assert_of _ hfind, hsession]
  dsimp only [bind, Except.bind]
  rw [Build.assert_of _ hkey, h.putTmax]
  dsimp only
  rw [Build.assert_of _ Option.isSome_some]
  rfl

end Db.VersionRow

end Scroller
