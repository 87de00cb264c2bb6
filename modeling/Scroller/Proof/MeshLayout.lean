import Scroller.Proof.Ids

/-!
# The pages of a mesh

The data of a table fill a first page and, behind it, at most one second page: every `INSERT` starts from
the first page again. The rows of the mesh are those of the first page and then those of the second; an
iterator stands at one of them, and its number tells which.
-/

namespace Scroller

/-! ### Grids -/

namespace Grid

theorem getElem?_list (g : Grid) (n : Nat) :
    g.list[n]? = if n < g.occupied then some (g.rows n) else none := by
  unfold list
  rw [List.getElem?_map]
  by_cases hn : n < g.occupied
  · simp [hn]
  · simp [hn]

@[simp]
theorem length_list (g : Grid) : g.list.length = g.occupied := by
  simp [list]

theorem list_of_occupied_eq_zero {g : Grid} (hg : g.occupied = 0) : g.list = [] := by
  simp [list, hg]

theorem list_succ (g : Grid) :
    { g with occupied := g.occupied + 1 }.list = g.list ++ [g.rows g.occupied] := by
  simp [list, List.range_succ]

theorem list_update (g : Grid) (n : Nat) (row : Row) :
    { g with rows := Function.update g.rows n row }.list = g.list.set n row := by
  apply List.ext_getElem?
  intro k
  rw [getElem?_list, List.getElem?_set, getElem?_list, length_list]
  by_cases hk : n = k
  · subst hk
    simp
  · have hne : k ≠ n := fun h => hk h.symm
    simp [hk, hne]

end Grid

/-- The rows that a data page of a table has room for. -/
def Config.rowsOnPage (cfg : Config) (header : Grid) : Nat :=
  (cfg.pagesz % 2 ^ 16 + 2 ^ 64 - sizeofGrid) % 2 ^ 64 / (hgridGetRowSize header % 2 ^ 16) % 2 ^ 16

/-- A data page of a table with versions: the slots behind the last row are zero. -/
structure Grid.DataPage (cfg : Config) (g header : Grid) : Prop where
  content : g.content = .mvcc
  sized : hgridGetRowSize header % 2 ^ 16 ≠ 0
  rown : g.rown = cfg.rowsOnPage header
  occupied : g.occupied ≤ g.rown
  free : ∀ n, g.occupied ≤ n → g.rows n = Row.zero

theorem gridInit_eq_ok {build : Build} {pagesz rowsz : Nat} {content : GridContent} {g : Grid}
    (h : gridInit build pagesz content rowsz = .ok g) :
    g = {
      content
      next := .undef
      rowsz := rowsz % 2 ^ 16
      rown := (pagesz % 2 ^ 16 + 2 ^ 64 - sizeofGrid) % 2 ^ 64 / (rowsz % 2 ^ 16) % 2 ^ 16
      occupied := 0
      datasz := 0
      columns := fun _ => ⟨[], 0, .unknown, 0⟩
      rows := fun _ => .zero } := by
  unfold gridInit at h
  obtain ⟨-, -, h⟩ := bind_eq_ok.mp h
  split at h
  · cases h
  · cases h
    rfl

theorem dgridInit_eq_ok {cfg : Config} {content : GridContent} {header g : Grid}
    (h : dgridInit cfg.build cfg.pagesz content header = .ok g) :
    g.content = content ∧ g.next = .undef ∧ g.rown = cfg.rowsOnPage header ∧ g.occupied = 0
      ∧ g.rows = fun _ => Row.zero := by
  have hg := gridInit_eq_ok h
  subst hg
  exact ⟨rfl, rfl, rfl, rfl, rfl⟩

/-- A page can be initialised exactly for rows that have a size. -/
theorem rowSize_of_dgridInit {cfg : Config} {content : GridContent} {header g : Grid}
    (h : dgridInit cfg.build cfg.pagesz content header = .ok g) :
    hgridGetRowSize header % 2 ^ 16 ≠ 0 := by
  obtain ⟨-, -, h⟩ := bind_eq_ok.mp h
  split at h
  · cases h
  next hsize => exact hsize

theorem dgridInit_of_rowSize {cfg : Config} {header : Grid} (content : GridContent)
    (h : hgridGetRowSize header % 2 ^ 16 ≠ 0) :
    ∃ g, dgridInit cfg.build cfg.pagesz content header = .ok g := by
  rw [dgridInit, gridInit]
  simp only [Build.assert_of cfg.build h, if_neg h, bind, Except.bind]
  exact ⟨_, rfl⟩

theorem dataPage_of_dgridInit {cfg : Config} {header g : Grid}
    (h : dgridInit cfg.build cfg.pagesz .mvcc header = .ok g) : g.DataPage cfg header := by
  obtain ⟨hcontent, -, hrown, hoccupied, hrows⟩ := dgridInit_eq_ok h
  refine ⟨hcontent, rowSize_of_dgridInit h, hrown, by omega, ?_⟩
  intro n _
  rw [hrows]

namespace Grid.DataPage

variable {cfg : Config} {header g : Grid}

theorem alloc (hg : g.DataPage cfg header) (hroom : g.occupied < g.rown) :
    { g with occupied := g.occupied + 1 }.DataPage cfg header where
  content := hg.content
  sized := hg.sized
  rown := hg.rown
  occupied := hroom
  free n hn := hg.free n (Nat.le_of_succ_le hn)

theorem update (hg : g.DataPage cfg header) {n : Nat} (hn : n < g.occupied) (row : Row) :
    { g with rows := Function.update g.rows n row }.DataPage cfg header where
  content := hg.content
  sized := hg.sized
  rown := hg.rown
  occupied := hg.occupied
  free k hk := by
    have hk : g.occupied ≤ k := hk
    have hne : k ≠ n := by omega
    simpa [hne] using hg.free k hk

theorem setNext (hg : g.DataPage cfg header) (next : Gid) :
    { g with next := next }.DataPage cfg header where
  content := hg.content
  sized := hg.sized
  rown := hg.rown
  occupied := hg.occupied
  free := hg.free

end Grid.DataPage

/-! ### Meshes of at most two pages -/

namespace Db

@[simp]
theorem pages_setPage_self (db : Db) (g : Gid) (grid : Grid) : (db.setPage g grid).pages g = grid := by
  simp [setPage]

@[simp]
theorem pages_setPage_of_ne (db : Db) {g g' : Gid} (grid : Grid) (h : g' ≠ g) :
    (db.setPage g grid).pages g' = db.pages g' := by
  simp [setPage, h]

@[simp]
theorem relation_setPage (db : Db) (g : Gid) (grid : Grid) :
    (db.setPage g grid).relation = db.relation := rfl

@[simp]
theorem sequence_setPage (db : Db) (g : Gid) (grid : Grid) :
    (db.setPage g grid).sequence = db.sequence := rfl

@[simp]
theorem trans_setPage (db : Db) (g : Gid) (grid : Grid) : (db.setPage g grid).trans = db.trans := rfl

/-- The page behind the first one has been started. -/
structure SecondPage (cfg : Config) (header : Grid) (db : Db) (data : Gid) : Prop where
  next : (db.pages data).next = data.successor
  full : (db.pages data).occupied = (db.pages data).rown
  page : (db.pages data.successor).DataPage cfg header
  last : (db.pages data.successor).next = .undef
  single : (db.pages data.successor).occupied = min 1 (db.pages data.successor).rown

/-- The mesh of a table with the given header that starts at `data`. -/
structure IsMesh (cfg : Config) (header : Grid) (db : Db) (data : Gid) : Prop where
  page : (db.pages data).DataPage cfg header
  next : (db.pages data).next = .undef ∨ db.SecondPage cfg header data

/-- An iterator over the mesh that starts at `gp.data`: in front of a row, or behind the last one. -/
structure OnMesh (db : Db) (gp : GidPair) (m : Mitor) : Prop where
  header : m.gp.header = gp.header
  place : (m.gp.data = gp.data
      ∧ (m.row < (db.pages gp.data).occupied ∨ (db.mesh gp.data).rows.length ≤ m.row))
    ∨ ((db.pages gp.data).next ≠ .undef ∧ m.gp.data = (db.pages gp.data).next)

end Db

/-- The ids of a table: those of its header and of its first data page are defined and differ. -/
structure GidPair.Apart (gp : GidPair) : Prop where
  header : gp.header ≠ .undef
  headerFile : gp.header.num < 2 ^ 40
  data : gp.data ≠ .undef
  dataFile : gp.data.num < 2 ^ 40
  ne : gp.header ≠ gp.data

namespace GidPair.Apart

variable {gp : GidPair}

theorem data_ne_successor (h : gp.Apart) : gp.data ≠ gp.data.successor := by
  intro heq
  have hnum := congrArg Gid.num heq
  rw [Gid.num_successor h.dataFile] at hnum
  omega

theorem header_ne_successor (h : gp.Apart) : gp.header ≠ gp.data.successor := by
  intro heq
  have hnum := congrArg Gid.num heq
  have := h.headerFile
  rw [Gid.num_successor h.dataFile] at hnum
  omega

theorem successor_ne_undef (h : gp.Apart) : gp.data.successor ≠ .undef := by
  intro heq
  have hnum := congrArg Gid.num heq
  rw [Gid.num_successor h.dataFile, Gid.undef_num] at hnum
  omega

end GidPair.Apart

namespace Db

variable {cfg : Config} {db : Db} {gp : GidPair} {header : Grid}

theorem rows_mesh_of_last (h : (db.pages gp.data).next = .undef) :
    (db.mesh gp.data).rows = (db.pages gp.data).list := by
  simp [mesh, h]

theorem rows_mesh_of_next {data : Gid} (h : (db.pages data).next = data.successor)
    (hne : data.successor ≠ .undef) :
    (db.mesh data).rows = (db.pages data).list ++ (db.pages data.successor).list := by
  simp [mesh, h, hne]

/-! ### Iterators -/

theorem OnMesh.rowNumber_of_eq {m : Mitor} (h : m.gp.data = gp.data) :
    db.rowNumber gp.data m = m.row := by
  simp [rowNumber, h]

section

variable (hmesh : db.IsMesh cfg header gp.data) (hgp : gp.Apart)
include hmesh hgp

/-- An iterator stands at the row with its number, and it is valid when there is one. -/
theorem OnMesh.getElem? {m : Mitor} (hm : db.OnMesh gp m) :
    (db.mesh gp.data).rows[db.rowNumber gp.data m]?
      = if mitorIsValid db m then some ((db.pages m.gp.data).rows m.row) else none := by
  have hheader : m.gp.header ≠ .undef := hm.header ▸ hgp.header
  rcases hmesh.next with hlast | hsecond
  · rcases hm.place with ⟨hdata, -⟩ | ⟨hnext, -⟩
    · have hvalid : mitorIsValid db m = decide (m.row < (db.pages gp.data).occupied) := by
        simp [mitorIsValid, hheader, hdata, hgp.data]
      rw [rows_mesh_of_last hlast, rowNumber_of_eq hdata, Grid.getElem?_list, hvalid, hdata]
      simp
    · exact absurd hlast hnext
  · have hrows := rows_mesh_of_next hsecond.next hgp.successor_ne_undef
    rcases hm.place with ⟨hdata, hrow⟩ | ⟨-, hdata⟩
    · have hvalid : mitorIsValid db m = decide (m.row < (db.pages gp.data).occupied) := by
        simp [mitorIsValid, hheader, hdata, hgp.data]
      rw [rowNumber_of_eq hdata, hvalid, hdata]
      rcases hrow with hrow | hrow
      · rw [hrows, List.getElem?_append_left (by simpa using hrow), Grid.getElem?_list]
        simp [hrow]
      · have hlen : (db.pages gp.data).occupied ≤ m.row := by
          rw [hrows, List.length_append, Grid.length_list] at hrow
          omega
        rw [List.getElem?_eq_none hrow]
        simp [hlen]
    · rw [hsecond.next] at hdata
      have hvalid : mitorIsValid db m
          = decide (m.row < (db.pages gp.data.successor).occupied) := by
        simp [mitorIsValid, hheader, hdata, hgp.successor_ne_undef]
      have hnumber : db.rowNumber gp.data m = (db.pages gp.data).occupied + m.row := by
        simp [rowNumber, hdata, hgp.data_ne_successor.symm]
      rw [hrows, hnumber, List.getElem?_append_right (by simp), Grid.length_list,
        Nat.add_sub_cancel_left, Grid.getElem?_list, hvalid, hdata]
      simp

theorem OnMesh.valid_iff {m : Mitor} (hm : db.OnMesh gp m) :
    mitorIsValid db m = true ↔ db.rowNumber gp.data m < (db.mesh gp.data).rows.length := by
  have hget := hm.getElem? hmesh hgp
  by_cases hvalid : mitorIsValid db m = true
  · rw [if_pos hvalid] at hget
    exact ⟨fun _ => (List.getElem?_eq_some_iff.mp hget).1, fun _ => hvalid⟩
  · rw [if_neg hvalid] at hget
    have hle := List.getElem?_eq_none_iff.mp hget
    exact ⟨fun h => absurd h hvalid, fun h => absurd hle (by omega)⟩

theorem onMesh_first : db.OnMesh gp ⟨gp, 0⟩ := by
  refine ⟨rfl, Or.inl ⟨rfl, ?_⟩⟩
  by_cases hempty : (db.pages gp.data).occupied = 0
  · right
    rcases hmesh.next with hlast | hsecond
    · rw [rows_mesh_of_last hlast, Grid.length_list, hempty]
    · have hrown : (db.pages gp.data.successor).rown = 0 := by
        rw [hsecond.page.rown, ← hmesh.page.rown, ← hsecond.full, hempty]
      rw [rows_mesh_of_next hsecond.next hgp.successor_ne_undef, List.length_append,
        Grid.length_list, Grid.length_list, hempty, hsecond.single, hrown]
      simp
  · exact Or.inl (Nat.pos_of_ne_zero hempty)

/-- `mitor_next` goes from a row to the next one, over the end of the first page too. -/
theorem OnMesh.next {m : Mitor} (hm : db.OnMesh gp m) (hvalid : mitorIsValid db m = true) :
    db.OnMesh gp (mitorNext db m)
      ∧ db.rowNumber gp.data (mitorNext db m) = db.rowNumber gp.data m + 1 := by
  have hheader : m.gp.header ≠ .undef := hm.header ▸ hgp.header
  have hnumber := (hm.valid_iff hmesh hgp).mp hvalid
  unfold mitorNext
  rw [if_pos hvalid]
  rcases hm.place with ⟨hdata, hrow⟩ | ⟨hnext, hdata⟩
  · rw [rowNumber_of_eq hdata] at hnumber ⊢
    have hlt : m.row < (db.pages gp.data).occupied := by
      rcases hrow with hrow | hrow
      · exact hrow
      · omega
    have hstep : mitorIsValid db { m with row := m.row + 1 }
        = decide (m.row + 1 < (db.pages gp.data).occupied) := by
      simp [mitorIsValid, hheader, hdata, hgp.data]
    simp only [hstep, hdata]
    split
    · rename_i hcond
      have hend : (db.pages gp.data).occupied = m.row + 1 := by
        have := hcond.1
        simp only [decide_eq_true_eq] at this
        omega
      refine ⟨⟨hm.header, Or.inr ⟨hcond.2, rfl⟩⟩, ?_⟩
      have hne : (db.pages gp.data).next ≠ gp.data := by
        rcases hmesh.next with hlast | hsecond
        · exact absurd hlast hcond.2
        · rw [hsecond.next]
          exact hgp.data_ne_successor.symm
      simp [rowNumber, hne, hend]
    · rename_i hcond
      refine ⟨⟨hm.header, Or.inl ⟨hdata, ?_⟩⟩, ?_⟩
      · by_cases hinside : m.row + 1 < (db.pages gp.data).occupied
        · exact Or.inl hinside
        · right
          have hlast : (db.pages gp.data).next = .undef := by
            by_contra hnext
            exact hcond ⟨by simpa using hinside, hnext⟩
          rw [rows_mesh_of_last hlast, Grid.length_list]
          simp only
          omega
      · simp [rowNumber, hdata]
  · rcases hmesh.next with hlast | hsecond
    · exact absurd hlast hnext
    · have hlast : (db.pages m.gp.data).next = .undef := by
        rw [hdata, hsecond.next]
        exact hsecond.last
      have hne : m.gp.data ≠ gp.data := by
        rw [hdata, hsecond.next]
        exact hgp.data_ne_successor.symm
      rw [if_neg (by simp [hlast])]
      refine ⟨⟨hm.header, Or.inr ⟨hnext, hdata⟩⟩, ?_⟩
      simp [rowNumber, hne]
      omega

end

end Db

end Scroller
