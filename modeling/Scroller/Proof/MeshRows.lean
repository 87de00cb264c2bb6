import Scroller.Proof.MeshLayout

/-!
# Rows of a mesh

Writing a cell changes one row of the mesh, at the number of the iterator. Allocating a row appends it, and
where the first page is full it starts the second page over.
-/

namespace Scroller

namespace Db

/-- The row under an iterator replaced. -/
def putRow (db : Db) (m : Mitor) (row : Row) : Db :=
  db.setPage m.gp.data
    { db.pages m.gp.data with rows := Function.update (db.pages m.gp.data).rows m.row row }

section Fields

variable (db : Db) (m : Mitor) (row : Row) (g : Gid)

theorem pages_putRow_of_ne {g : Gid} (h : g ≠ m.gp.data) : (db.putRow m row).pages g = db.pages g :=
  pages_setPage_of_ne db _ h

@[simp]
theorem next_putRow : ((db.putRow m row).pages g).next = (db.pages g).next := by
  by_cases h : g = m.gp.data
  · subst h
    simp [putRow]
  · rw [pages_putRow_of_ne db m row h]

@[simp]
theorem occupied_putRow : ((db.putRow m row).pages g).occupied = (db.pages g).occupied := by
  by_cases h : g = m.gp.data
  · subst h
    simp [putRow]
  · rw [pages_putRow_of_ne db m row h]

@[simp]
theorem rown_putRow : ((db.putRow m row).pages g).rown = (db.pages g).rown := by
  by_cases h : g = m.gp.data
  · subst h
    simp [putRow]
  · rw [pages_putRow_of_ne db m row h]

@[simp]
theorem content_putRow : ((db.putRow m row).pages g).content = (db.pages g).content := by
  by_cases h : g = m.gp.data
  · subst h
    simp [putRow]
  · rw [pages_putRow_of_ne db m row h]

@[simp]
theorem trans_putRow : (db.putRow m row).trans = db.trans := rfl

@[simp]
theorem rowNumber_putRow (data : Gid) (m' : Mitor) :
    (db.putRow m row).rowNumber data m' = db.rowNumber data m' := by
  simp [rowNumber]

@[simp]
theorem mitorIsValid_putRow (m' : Mitor) :
    mitorIsValid (db.putRow m row) m' = mitorIsValid db m' := by
  simp [mitorIsValid]

theorem putRow_putRow (row' : Row) : (db.putRow m row).putRow m row' = db.putRow m row' := by
  simp [putRow, setPage]

theorem row_putRow : ((db.putRow m row).pages m.gp.data).rows m.row = row := by
  simp [putRow]

end Fields

variable {cfg : Config} {db : Db} {gp : GidPair} {header : Grid} {m : Mitor}

theorem dataPage_putRow {g : Gid} (hg : (db.pages g).DataPage cfg header)
    (hvalid : mitorIsValid db m = true) (row : Row) :
    ((db.putRow m row).pages g).DataPage cfg header := by
  by_cases h : g = m.gp.data
  · subst h
    have hrow : m.row < (db.pages m.gp.data).occupied := by
      simp only [mitorIsValid, decide_eq_true_eq] at hvalid
      exact hvalid.2.2
    rw [putRow, pages_setPage_self]
    exact hg.update hrow row
  · rwa [pages_putRow_of_ne db m row h]

theorem IsMesh.putRow {data : Gid} (h : db.IsMesh cfg header data) (hvalid : mitorIsValid db m = true)
    (row : Row) : (db.putRow m row).IsMesh cfg header data where
  page := dataPage_putRow h.page hvalid row
  next := by
    rcases h.next with hlast | hsecond
    · left
      rwa [next_putRow]
    · right
      exact {
        next := by rw [next_putRow, hsecond.next]
        full := by rw [occupied_putRow, rown_putRow, hsecond.full]
        page := dataPage_putRow hsecond.page hvalid row
        last := by rw [next_putRow, hsecond.last]
        single := by rw [occupied_putRow, rown_putRow, hsecond.single] }

theorem length_rows_mesh_putRow (data : Gid) (row : Row) :
    ((db.putRow m row).mesh data).rows.length = (db.mesh data).rows.length := by
  by_cases h : (db.pages data).next = .undef
  · simp [mesh, h]
  · simp [mesh, h]

theorem OnMesh.putRow {m' : Mitor} (hm : db.OnMesh gp m') (row : Row) :
    (db.putRow m row).OnMesh gp m' where
  header := hm.header
  place := by
    rw [occupied_putRow, next_putRow, length_rows_mesh_putRow]
    exact hm.place

theorem list_putRow_self (row : Row) :
    ((db.putRow m row).pages m.gp.data).list = (db.pages m.gp.data).list.set m.row row := by
  rw [Db.putRow, pages_setPage_self, Grid.list_update]

/-- Writing the row under a valid iterator sets the row with its number. -/
theorem mesh_putRow (hmesh : db.IsMesh cfg header gp.data) (hgp : gp.Apart) (hm : db.OnMesh gp m)
    (hvalid : mitorIsValid db m = true) (row : Row) :
    (db.putRow m row).mesh gp.data
      = { db.mesh gp.data with
          rows := (db.mesh gp.data).rows.set (db.rowNumber gp.data m) row } := by
  have hrows : ((db.putRow m row).mesh gp.data).rows
      = (db.mesh gp.data).rows.set (db.rowNumber gp.data m) row := by
    have hnumber := (hm.valid_iff hmesh hgp).mp hvalid
    rcases hmesh.next with hlast | hsecond
    · rcases hm.place with ⟨hdata, -⟩ | ⟨hnext, -⟩
      · rw [rows_mesh_of_last (by rwa [next_putRow]), rows_mesh_of_last hlast,
          OnMesh.rowNumber_of_eq hdata, ← hdata, list_putRow_self]
      · exact absurd hlast hnext
    · have hne := hgp.successor_ne_undef
      rw [rows_mesh_of_next (by rw [next_putRow, hsecond.next]) hne,
        rows_mesh_of_next hsecond.next hne]
      rcases hm.place with ⟨hdata, hrow⟩ | ⟨-, hdata⟩
      · rw [OnMesh.rowNumber_of_eq hdata] at hnumber ⊢
        have hlt : m.row < (db.pages gp.data).list.length := by
          rw [Grid.length_list]
          rcases hrow with hrow | hrow
          · exact hrow
          · omega
        rw [List.set_append_left _ _ hlt]
        congr 1
        · rw [← hdata, list_putRow_self]
        · rw [pages_putRow_of_ne db m row (by rw [hdata]; exact hgp.data_ne_successor.symm)]
      · rw [hsecond.next] at hdata
        have hnum : db.rowNumber gp.data m = (db.pages gp.data).list.length + m.row := by
          simp [rowNumber, hdata, hgp.data_ne_successor.symm]
        rw [hnum, List.set_append_right _ _ (by omega), Nat.add_sub_cancel_left]
        congr 1
        · rw [pages_putRow_of_ne db m row (by rw [hdata]; exact hgp.data_ne_successor)]
        · rw [← hdata, list_putRow_self]
  unfold mesh at hrows ⊢
  rw [Mesh.mk.injEq]
  exact ⟨by rw [rown_putRow], by rw [next_putRow], hrows⟩

end Db

end Scroller
