import Scroller.Proof.MeshRows

/-!
# Allocating rows

`mesh_alloc_row` from the first page of a mesh: the row goes behind the last one, or the second page is
started over with it.
-/

namespace Scroller

namespace Db

/-- Nothing differs but the two pages of the mesh that starts at `data`. -/
structure SameBut (db db' : Db) (data : Gid) : Prop where
  relation : db'.relation = db.relation
  sequence : db'.sequence = db.sequence
  trans : db'.trans = db.trans
  pages : ∀ g, g ≠ data → g ≠ data.successor → db'.pages g = db.pages g

theorem SameBut.setPage {db : Db} {data g : Gid} (hg : g = data ∨ g = data.successor) (grid : Grid) :
    db.SameBut (db.setPage g grid) data where
  relation := rfl
  sequence := rfl
  trans := rfl
  pages g' hdata hsuccessor := by
    apply pages_setPage_of_ne
    rintro rfl
    rcases hg with rfl | rfl
    · exact hdata rfl
    · exact hsuccessor rfl

theorem SameBut.trans' {db db' db'' : Db} {data : Gid} (h : db.SameBut db' data)
    (h' : db'.SameBut db'' data) : db.SameBut db'' data where
  relation := h'.relation.trans h.relation
  sequence := h'.sequence.trans h.sequence
  trans := h'.trans.trans h.trans
  pages g hdata hsuccessor := (h'.pages g hdata hsuccessor).trans (h.pages g hdata hsuccessor)

theorem setPage_self (db : Db) (g : Gid) : db.setPage g (db.pages g) = db := by
  simp [setPage]

/-- A row was allocated: the mesh got a zero row at its end, where the iterator stands. -/
structure Allocated (cfg : Config) (header : Grid) (gp : GidPair) (db' : Db) (m : Mitor) : Prop where
  isMesh : db'.IsMesh cfg header gp.data
  onMesh : db'.OnMesh gp m
  valid : mitorIsValid db' m = true
  number : db'.rowNumber gp.data m = (db'.mesh gp.data).rows.length - 1
  zero : (db'.pages m.gp.data).rows m.row = Row.zero

variable {cfg : Config} {db : Db} {gp : GidPair} {header : Grid}

theorem mesh_eq {db : Db} {data : Gid} {rown : Nat} {extended : Bool} {rows : List Row}
    (hrown : (db.pages data).rown = rown)
    (hextended : extended = decide ((db.pages data).next ≠ .undef))
    (hrows : (db.mesh data).rows = rows) : db.mesh data = ⟨rown, extended, rows⟩ := by
  subst hrown hextended hrows
  rfl

variable {db' : Db}

theorem rows_take_rown (hfull : (db.pages gp.data).occupied = (db.pages gp.data).rown) :
    (db.mesh gp.data).rows.take (db.mesh gp.data).rown = (db.pages gp.data).list := by
  have hlen : (db.mesh gp.data).rown = (db.pages gp.data).list.length := by
    rw [Grid.length_list, hfull]
    rfl
  rw [hlen]
  exact List.take_left

theorem alloc_first (hmesh : db.IsMesh cfg header gp.data) (hgp : gp.Apart)
    (hroom : (db.pages gp.data).occupied < (db.pages gp.data).rown)
    (hpage : db'.pages gp.data
      = { db.pages gp.data with occupied := (db.pages gp.data).occupied + 1 }) :
    db'.mesh gp.data = { db.mesh gp.data with rows := (db.mesh gp.data).rows ++ [Row.zero] }
      ∧ Allocated cfg header gp db' ⟨gp, (db.pages gp.data).occupied⟩ := by
  have hlast : (db.pages gp.data).next = .undef := by
    rcases hmesh.next with hlast | hsecond
    · exact hlast
    · have := hsecond.full
      omega
  have hlast' : (db'.pages gp.data).next = .undef := by
    rw [hpage]
    exact hlast
  have hzero : (db.pages gp.data).rows (db.pages gp.data).occupied = Row.zero :=
    hmesh.page.free _ (Nat.le_refl _)
  refine ⟨mesh_eq ?_ ?_ ?_, ?_⟩
  · rw [hpage]
    rfl
  · rw [hpage]
    rfl
  · rw [rows_mesh_of_last hlast', rows_mesh_of_last hlast, hpage, Grid.list_succ, hzero]
  · refine ⟨⟨?_, Or.inl hlast'⟩, ⟨rfl, Or.inl ⟨rfl, Or.inl ?_⟩⟩, ?_, ?_, ?_⟩
    · rw [hpage]
      exact hmesh.page.alloc hroom
    · rw [hpage]
      exact Nat.lt_succ_self _
    · simp [mitorIsValid, hpage, hgp.header, hgp.data]
    · rw [rowNumber, if_pos rfl, rows_mesh_of_last hlast', hpage, Grid.length_list]
      rfl
    · change (db'.pages gp.data).rows _ = Row.zero
      rw [hpage]
      exact hzero

section Second

variable {data : Grid}

/-- The first page is full, and its successor was started over. -/
structure StartedOver (cfg : Config) (db db' : Db) (gp : GidPair) (data : Grid) : Prop where
  full : (db.pages gp.data).occupied = (db.pages gp.data).rown
  init : dgridInit cfg.build cfg.pagesz .mvcc (db.pages gp.header) = .ok data
  first : db'.pages gp.data = { db.pages gp.data with next := gp.data.successor }

theorem list_setNext (g : Grid) (next : Gid) : { g with next := next }.list = g.list := rfl

theorem StartedOver.rows (h : StartedOver cfg db db' gp data) (hgp : gp.Apart) :
    (db'.mesh gp.data).rows
      = (db.mesh gp.data).rows.take (db.mesh gp.data).rown ++ (db'.pages gp.data.successor).list := by
  rw [rows_mesh_of_next (by rw [h.first]) hgp.successor_ne_undef, rows_take_rown h.full, h.first,
    list_setNext]

theorem StartedOver.isMesh (h : StartedOver cfg db db' gp data)
    (hmesh : db.IsMesh cfg (db.pages gp.header) gp.data)
    (hpage : (db'.pages gp.data.successor).DataPage cfg (db.pages gp.header))
    (hlast : (db'.pages gp.data.successor).next = .undef)
    (hsingle : (db'.pages gp.data.successor).occupied
      = min 1 (db'.pages gp.data.successor).rown) :
    db'.IsMesh cfg (db.pages gp.header) gp.data where
  page := by
    rw [h.first]
    exact hmesh.page.setNext _
  next := Or.inr {
    next := by rw [h.first]
    full := by
      rw [h.first]
      exact h.full
    page := hpage
    last := hlast
    single := hsingle }

theorem alloc_none (h : StartedOver cfg db db' gp data)
    (hmesh : db.IsMesh cfg (db.pages gp.header) gp.data) (hgp : gp.Apart)
    (hnext : db'.pages gp.data.successor = data) (hzero : data.rown = 0) :
    db'.mesh gp.data = { db.mesh gp.data with extended := true }
      ∧ db'.IsMesh cfg (db.pages gp.header) gp.data := by
  obtain ⟨-, hlast, hrown, hoccupied, -⟩ := dgridInit_eq_ok h.init
  have hzero₀ : (db.pages gp.data).rown = 0 := by
    rw [hmesh.page.rown, ← hrown, hzero]
  have hempty : (db.mesh gp.data).rows = [] := by
    have hfirst := Grid.list_of_occupied_eq_zero (h.full.trans hzero₀)
    rcases hmesh.next with hlast₀ | hsecond
    · rw [rows_mesh_of_last hlast₀, hfirst]
    · have hsingle : (db.pages gp.data.successor).occupied = 0 := by
        rw [hsecond.single, hsecond.page.rown, ← hmesh.page.rown, hzero₀]
        exact Nat.min_zero 1
      rw [rows_mesh_of_next hsecond.next hgp.successor_ne_undef, hfirst,
        Grid.list_of_occupied_eq_zero hsingle, List.nil_append]
  refine ⟨mesh_eq ?_ ?_ ?_, h.isMesh hmesh ?_ ?_ ?_⟩
  · rw [h.first]
    rfl
  · rw [h.first]
    simp [hgp.successor_ne_undef]
  · rw [h.rows hgp, hempty, hnext, Grid.list_of_occupied_eq_zero hoccupied]
    simp
  · rw [hnext]
    exact dataPage_of_dgridInit h.init
  · rw [hnext, hlast]
  · rw [hnext, hoccupied, hzero]
    exact (Nat.min_zero 1).symm

theorem onMesh_next {next : Gid} (hundef : next ≠ .undef) (hnext : (db.pages gp.data).next = next)
    (row : Nat) : db.OnMesh gp ⟨⟨gp.header, next⟩, row⟩ := by
  refine ⟨rfl, Or.inr ⟨?_, ?_⟩⟩
  · rwa [hnext]
  · exact hnext.symm

theorem mitorIsValid_eq (db : Db) {header data : Gid} (hheader : header ≠ .undef)
    (hdata : data ≠ .undef) (row : Nat) :
    mitorIsValid db ⟨⟨header, data⟩, row⟩ = decide (row < (db.pages data).occupied) := by
  simp [mitorIsValid, hheader, hdata]

theorem rowNumber_of_ne (db : Db) {header data next : Gid} (hne : next ≠ data) (row : Nat) :
    db.rowNumber data ⟨⟨header, next⟩, row⟩ = (db.pages data).occupied + row := by
  simp [rowNumber, hne]

theorem alloc_second (h : StartedOver cfg db db' gp data)
    (hmesh : db.IsMesh cfg (db.pages gp.header) gp.data) (hgp : gp.Apart)
    (hnext : db'.pages gp.data.successor = { data with occupied := data.occupied + 1 })
    (hpos : data.rown ≠ 0) :
    db'.mesh gp.data = { db.mesh gp.data with
        extended := true
        rows := (db.mesh gp.data).rows.take (db.mesh gp.data).rown ++ [Row.zero] }
      ∧ Allocated cfg (db.pages gp.header) gp db' ⟨⟨gp.header, gp.data.successor⟩, 0⟩ := by
  obtain ⟨-, hlast, -, hoccupied, hrows⟩ := dgridInit_eq_ok h.init
  have hroom : data.occupied < data.rown := by omega
  have hundef := hgp.successor_ne_undef
  have hne := hgp.data_ne_successor.symm
  have hfirst := h.first
  have hlist : (db'.pages gp.data.successor).list = [Row.zero] := by
    rw [hnext, Grid.list_succ, Grid.list_of_occupied_eq_zero hoccupied, hrows]
    rfl
  have hrows' := h.rows hgp
  rw [hlist] at hrows'
  have hisMesh : db'.IsMesh cfg (db.pages gp.header) gp.data := by
    apply h.isMesh hmesh
    · rw [hnext]
      exact (dataPage_of_dgridInit h.init).alloc hroom
    · rw [hnext]
      exact hlast
    · rw [hnext]
      change data.occupied + 1 = min 1 data.rown
      omega
  generalize gp.data.successor = next at *
  refine ⟨mesh_eq ?_ ?_ hrows', ⟨hisMesh, onMesh_next hundef ?_ 0, ?_, ?_, ?_⟩⟩
  · rw [hfirst]
    rfl
  · rw [hfirst]
    simp [hundef]
  · rw [hfirst]
  · rw [mitorIsValid_eq db' hgp.header hundef, hnext]
    simp
  · rw [rowNumber_of_ne db' hne, hrows', rows_take_rown h.full, List.length_append,
      Grid.length_list, hfirst]
    rfl
  · rw [hnext]
    change data.rows 0 = Row.zero
    rw [hrows]

end Second

end Db

end Scroller
