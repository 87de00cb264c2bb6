import Scroller.CellOps
import Scroller.Proof.GridLayers
import Scroller.Proof.TableCommands

/-!
# The rows of tables in memory

While the columns of the tables lie apart, what commands do to the rows of tables they do to the bytes of the
pages as well: the calls that they make on the cells, made on the bytes, give the same answers and leave the bytes
of the rows that the tables have then.
-/

namespace Scroller

open GridPage

/-- Rows have their bytes to themselves: a page has room for the header of its grid, and the columns of every
table lie apart from each other within its rows, none of them of no characters. -/
structure Db.LaidOut (cfg : Config) (db : Db) : Prop where
  page : sizeofGrid ≤ cfg.pagesz % 2 ^ 16
  columns : ∀ row ∈ db.relation.rows, (db.pages row.header).LaidOut

/-- Every page with data of a table lies in its frame with the bytes of its rows. -/
def Db.Stored (cfg : Config) (mem : Memory) (db : Db) : Prop :=
  ∀ row ∈ db.relation.rows, ∀ g, db.HasData row g →
    Mirrors (db.pages row.header) mem (cfg.frame g) cfg.psz.toNat (db.pages g) (db.pages g).rown

/-- The second database is what the calls on the cells make of the first one, and the same calls on the bytes,
with the same answers, make memory that stores the second one of memory that stores the first one. -/
def Db.OnBytes (cfg : Config) (db db' : Db) : Prop :=
  ∃ hist, db.Calls cfg hist db' ∧ ∀ mem, db.Stored cfg mem →
    ∃ mem', Machine.exec (GridPage.call cfg) mem (hist.map Prod.fst) = .ok (mem', hist) ∧ db'.Stored cfg mem'

/-! ### Frames -/

variable {cfg : Config} {db db' db'' : Db} {mem mem' : Memory} {gp : GidPair} {g : Gid}

theorem Config.psz_toNat (cfg : Config) : cfg.psz.toNat = cfg.pagesz % 2 ^ 16 := UInt16.toNat_ofNat'

theorem Config.frame_apart (cfg : Config) {g g' : Gid} (h : g ≠ g') :
    cfg.frame g + cfg.psz.toNat ≤ cfg.frame g' ∨ cfg.frame g' + cfg.psz.toNat ≤ cfg.frame g := by
  have hsmall : cfg.psz.toNat ≤ cfg.pagesz := by
    rw [cfg.psz_toNat]
    exact Nat.mod_le _ _
  have hbefore {m n : Nat} (hlt : m < n) : m * cfg.pagesz + cfg.psz.toNat ≤ n * cfg.pagesz := by
    have hmul := Nat.mul_le_mul_right cfg.pagesz (Nat.succ_le_of_lt hlt)
    rw [Nat.succ_mul] at hmul
    omega
  rcases Nat.lt_or_gt_of_ne (fun heq => h (Gid.num_injective heq)) with hlt | hgt
  · exact Or.inl (hbefore hlt)
  · exact Or.inr (hbefore hgt)

/-- A byte that belongs to no row of a page. -/
def Config.Outside (cfg : Config) (g : Gid) (p : Nat) : Prop := p < cfg.frame g ∨ cfg.frame g + cfg.psz.toNat ≤ p

theorem Config.outside_of_ne {g g' : Gid} (h : g ≠ g') {p : Nat} (hlow : cfg.frame g' ≤ p)
    (hhigh : p < cfg.frame g' + cfg.psz.toNat) : cfg.Outside g p := by
  have hapart := cfg.frame_apart h
  unfold Config.Outside
  omega

theorem GridPage.Mirrors.sameRows {hgrid grid grid' : Grid} {page pagesz k : Nat}
    (h : Mirrors hgrid mem page pagesz grid k) (hsame : grid.SameRows grid') :
    Mirrors hgrid mem page pagesz grid' k where
  toFormed := h.toFormed
  rown_eq := h.rown_eq.trans hsame.rown.symm
  occupied_eq := h.occupied_eq.trans hsame.occupied.symm
  occupied_le := hsame.occupied ▸ h.occupied_le
  le_rown := hsame.rown ▸ h.le_rown
  row_eq := hsame.rows ▸ h.row_eq
  inRange := hsame.rows ▸ h.inRange

/-- A call on a page whose bytes are known up to its last slot; what `grid_init` finds does not matter. -/
theorem GridPage.call_mirrors {c : PageCall} {grid grid' : Grid} {answer : CellAnswer} (hpage : sizeofGrid ≤ cfg.psz.toNat)
    (hlaid : c.hgrid.Laid) (hkept : ∀ row, c.op ≠ .delete row)
    (h : (∃ cont, c.op = .init cont) ∨ Mirrors c.hgrid mem (cfg.frame c.page) cfg.psz.toNat grid grid.rown)
    (hcell : Grid.cellStep cfg.build c.hgrid cfg.psz grid c.op = .ok (grid', answer)) :
    ∃ mem', GridPage.call cfg mem c = .ok (mem', answer)
      ∧ Mirrors c.hgrid mem' (cfg.frame c.page) cfg.psz.toNat grid' grid'.rown
      ∧ ∀ p, cfg.Outside c.page p → mem' p = mem p := by
  obtain ⟨state, hholds, hallows, hnext⟩ : ∃ state,
      Holds c.hgrid mem (cfg.frame c.page) cfg.psz.toNat grid state ∧ state.Allows c.op ∧ state.next c.op = .clean := by
    rcases h with ⟨cont, hop⟩ | hmirrors
    · rw [hop]
      exact ⟨.raw, trivial, trivial, rfl⟩
    · refine ⟨.clean, hmirrors, trivial, ?_⟩
      cases hop : c.op with
      | delete row => exact absurd hop (hkept row)
      | init _ | alloc | put _ _ _ | get _ _ => rfl
  rcases hholds.cellStep cfg.build hlaid hpage hallows with ⟨mem', grid₁, answer₁, hbytes, hcells, hnew⟩ | ⟨e, -, hcells⟩
  · rw [hcells] at hcell
    cases hcell
    rw [hnext] at hnew
    exact ⟨mem', hbytes, hnew, fun p hp => hholds.outside hlaid hpage hallows hbytes hp⟩
  · rw [hcells] at hcell
    cases hcell

theorem dgridInit_psz (content : GridContent) (hgrid : Grid) :
    dgridInit cfg.build cfg.psz.toNat content hgrid = dgridInit cfg.build cfg.pagesz content hgrid := by
  simp only [dgridInit, gridInit, cfg.psz_toNat, Nat.mod_mod]

/-! ### Calls -/

namespace Db

theorem Calls.append {hist rest : List (PageCall × CellAnswer)} (h : db.Calls cfg hist db')
    (h' : db'.Calls cfg rest db'') : db.Calls cfg (hist ++ rest) db'' := by
  induction h with
  | refl => exact h'
  | same hsame _ ih => exact .same hsame (ih h')
  | call hcall _ ih => exact .call hcall (ih h')

theorem Calls.of_same (h : db.SameRows db') : db.Calls cfg [] db' := .same h (.refl db')

theorem Calls.one {c : PageCall} {grid : Grid} {answer : CellAnswer}
    (hcell : Grid.cellStep cfg.build c.hgrid cfg.psz (db.pages c.page) c.op = .ok (grid, answer)) :
    db.Calls cfg [(c, answer)] (db.setPage c.page grid) := by
  refine .call ?_ (.refl _)
  rw [Db.call, hcell]
  rfl

theorem exec_one {c : PageCall} {answer : CellAnswer} (h : GridPage.call cfg mem c = .ok (mem', answer)) :
    Machine.exec (GridPage.call cfg) mem [c] = .ok (mem', [(c, answer)]) :=
  Machine.exec_cons_eq_ok.mpr ⟨mem', answer, [], h, rfl, rfl⟩

theorem OnBytes.refl (cfg : Config) (db : Db) : db.OnBytes cfg db :=
  ⟨[], .refl db, fun mem hmem => ⟨mem, rfl, hmem⟩⟩

theorem OnBytes.trans (h : db.OnBytes cfg db') (h' : db'.OnBytes cfg db'') : db.OnBytes cfg db'' := by
  obtain ⟨hist, hcalls, hbytes⟩ := h
  obtain ⟨rest, hcalls', hbytes'⟩ := h'
  refine ⟨hist ++ rest, hcalls.append hcalls', fun mem hmem => ?_⟩
  obtain ⟨mem₁, hexec, hmem₁⟩ := hbytes mem hmem
  obtain ⟨mem₂, hexec', hmem₂⟩ := hbytes' mem₁ hmem₁
  rw [List.map_append]
  exact ⟨mem₂, Machine.exec_append hexec hexec', hmem₂⟩

/-- A change that leaves tables and pages alone. -/
theorem OnBytes.other (hrows : db'.relation.rows = db.relation.rows) (hpages : db'.pages = db.pages) :
    db.OnBytes cfg db' := by
  refine ⟨[], .of_same fun _ _ _ _ => ?_, fun mem hmem => ⟨mem, rfl, fun row hrow g hg => ?_⟩⟩
  · rw [hpages]
    exact ⟨rfl, rfl, rfl⟩
  · rw [HasData, hpages] at hg
    rw [hpages]
    exact hmem row (hrows ▸ hrow) g hg

/-! ### One mesh -/

/-- The pages of the mesh that starts at `gp.data`. -/
def InMesh (db : Db) (gp : GidPair) (g : Gid) : Prop :=
  g = gp.data ∨ (db.pages gp.data).next ≠ .undef ∧ g = (db.pages gp.data).next

def MeshStored (cfg : Config) (mem : Memory) (gp : GidPair) (db : Db) : Prop :=
  ∀ g, db.InMesh gp g →
    Mirrors (db.pages gp.header) mem (cfg.frame g) cfg.psz.toNat (db.pages g) (db.pages g).rown

/-- What happens to a mesh happens to the bytes of its pages, and to no other bytes. -/
def MeshOnBytes (cfg : Config) (gp : GidPair) (db db' : Db) : Prop :=
  ∃ hist, db.Calls cfg hist db' ∧ ∀ mem, db.MeshStored cfg mem gp →
    ∃ mem', Machine.exec (GridPage.call cfg) mem (hist.map Prod.fst) = .ok (mem', hist) ∧ db'.MeshStored cfg mem' gp
      ∧ ∀ p, cfg.Outside gp.data p → cfg.Outside gp.data.successor p → mem' p = mem p

theorem MeshOnBytes.refl (cfg : Config) (gp : GidPair) (db : Db) : db.MeshOnBytes cfg gp db :=
  ⟨[], .refl db, fun mem hmem => ⟨mem, rfl, hmem, fun _ _ _ => rfl⟩⟩

theorem MeshOnBytes.trans (h : db.MeshOnBytes cfg gp db') (h' : db'.MeshOnBytes cfg gp db'') :
    db.MeshOnBytes cfg gp db'' := by
  obtain ⟨hist, hcalls, hbytes⟩ := h
  obtain ⟨rest, hcalls', hbytes'⟩ := h'
  refine ⟨hist ++ rest, hcalls.append hcalls', fun mem hmem => ?_⟩
  obtain ⟨mem₁, hexec, hmem₁, hout⟩ := hbytes mem hmem
  obtain ⟨mem₂, hexec', hmem₂, hout'⟩ := hbytes' mem₁ hmem₁
  rw [List.map_append]
  refine ⟨mem₂, Machine.exec_append hexec hexec', hmem₂, fun p hfirst hsecond => ?_⟩
  rw [hout' p hfirst hsecond, hout p hfirst hsecond]

theorem init_ne_delete (cont : GridContent) (row : UInt16) : CellOp.init cont ≠ .delete row := by
  intro h
  cases h

theorem alloc_ne_delete (row : UInt16) : CellOp.alloc ≠ .delete row := by
  intro h
  cases h

theorem put_ne_delete (i : UInt16) (column : Nat) (datum : Datum) (row : UInt16) :
    CellOp.put i column datum ≠ .delete row := by
  intro h
  cases h

theorem cellStep_alloc (build : Build) (hgrid : Grid) (psz : UInt16) (grid : Grid) :
    Grid.cellStep build hgrid psz grid .alloc = .ok ((gridAllocRow grid).1, .row (gridAllocRow grid).2) := rfl

theorem next_gridAllocRow (grid : Grid) : (gridAllocRow grid).1.next = grid.next := by
  unfold gridAllocRow
  split <;> rfl

theorem next_of_gridPutDatum {build : Build} {hgrid grid grid' : Grid} {row column : Nat} {datum : Datum}
    (h : gridPutDatum build hgrid grid row column datum = .ok (some grid')) : grid'.next = grid.next := by
  obtain ⟨-, -, h⟩ := bind_eq_ok.mp h
  obtain ⟨-, -, h⟩ := bind_eq_ok.mp h
  obtain ⟨-, -, h⟩ := bind_eq_ok.mp h
  obtain ⟨cell, -, h⟩ := bind_eq_ok.mp h
  cases cell <;> cases h
  rfl

section

variable (hpage : sizeofGrid ≤ cfg.psz.toNat) (hlaid : (db.pages gp.header).Laid) (hgp : gp.Apart)
include hpage hlaid hgp

/-- A call on a page of the mesh. -/
theorem meshOnBytes_call {op : CellOp} {grid : Grid} {answer : CellAnswer} (hplace : g = gp.data ∨ g = gp.data.successor)
    (hin : db.InMesh gp g) (hkept : ∀ row, op ≠ .delete row)
    (hcell : Grid.cellStep cfg.build (db.pages gp.header) cfg.psz (db.pages g) op = .ok (grid, answer))
    (hnext : grid.next = (db.pages g).next) : db.MeshOnBytes cfg gp (db.setPage g grid) := by
  have hheader : gp.header ≠ g := by
    rcases hplace with rfl | rfl
    · exact hgp.ne
    · exact hgp.header_ne_successor
  refine ⟨[(⟨db.pages gp.header, g, op⟩, answer)], .one hcell, fun mem hmem => ?_⟩
  obtain ⟨mem', hcall, hmirrors, hout⟩ := call_mirrors (c := ⟨db.pages gp.header, g, op⟩) hpage hlaid hkept
    (Or.inr (hmem g hin)) hcell
  refine ⟨mem', exec_one hcall, fun g' hg' => ?_, fun p hfirst hsecond => hout p ?_⟩
  · rw [pages_setPage_of_ne _ _ hheader]
    by_cases heq : g' = g
    · subst heq
      rw [pages_setPage_self]
      exact hmirrors
    · rw [pages_setPage_of_ne _ _ heq]
      have hsame : ((db.setPage g grid).pages gp.data).next = (db.pages gp.data).next := by
        by_cases hfirst : gp.data = g
        · rw [hfirst, pages_setPage_self, hnext]
        · rw [pages_setPage_of_ne _ _ hfirst]
      rw [InMesh, hsame] at hg'
      refine (hmem g' hg').congr fun p hlow hhigh => hout p ?_
      exact Config.outside_of_ne (Ne.symm heq) hlow hhigh
  · rcases hplace with rfl | rfl
    · exact hfirst
    · exact hsecond

/-- The second page is started over. -/
theorem meshOnBytes_startOver {data : Grid}
    (hinit : dgridInit cfg.build cfg.pagesz .mvcc (db.pages gp.header) = .ok data)
    (hdb' : db' = (db.setPage gp.data.successor data).setPage gp.data
      { db.pages gp.data with next := gp.data.successor }) : db.MeshOnBytes cfg gp db' := by
  have hne := hgp.data_ne_successor
  have hcell : Grid.cellStep cfg.build (db.pages gp.header) cfg.psz (db.pages gp.data.successor) (.init .mvcc)
      = .ok (data, .done) := by
    rw [Grid.cellStep, dgridInit_psz, hinit]
    rfl
  have hfirst : db'.pages gp.data = { db.pages gp.data with next := gp.data.successor } := by
    rw [hdb', pages_setPage_self]
  have hsecond : db'.pages gp.data.successor = data := by
    rw [hdb', pages_setPage_of_ne _ _ hne.symm, pages_setPage_self]
  have hheader : db'.pages gp.header = db.pages gp.header := by
    rw [hdb', pages_setPage_of_ne _ _ hgp.ne, pages_setPage_of_ne _ _ hgp.header_ne_successor]
  refine ⟨[(⟨db.pages gp.header, gp.data.successor, .init .mvcc⟩, .done)],
    (Calls.one hcell).append (.of_same fun row _ g _ => ?_), fun mem hmem => ?_⟩
  · rw [hdb']
    by_cases heq : g = gp.data
    · subst heq
      rw [pages_setPage_self, pages_setPage_of_ne _ _ hne]
      exact ⟨rfl, rfl, rfl⟩
    · rw [pages_setPage_of_ne _ _ heq]
      exact ⟨rfl, rfl, rfl⟩
  · obtain ⟨mem', hcall, hmirrors, hout⟩ := @call_mirrors cfg mem
      ⟨db.pages gp.header, gp.data.successor, .init .mvcc⟩ _ _ _ hpage hlaid (init_ne_delete .mvcc)
      (Or.inl ⟨_, rfl⟩) hcell
    refine ⟨mem', exec_one hcall, fun g hg => ?_, fun p _ hsecond => hout p hsecond⟩
    rw [hheader]
    rcases hg with rfl | ⟨-, rfl⟩
    · have hdata : (db.pages gp.data).SameRows (db'.pages gp.data) := by
        rw [hfirst]
        exact ⟨rfl, rfl, rfl⟩
      rw [hdata.rown]
      refine ((hmem gp.data (Or.inl rfl)).sameRows hdata).congr fun p hlow hhigh => hout p ?_
      exact Config.outside_of_ne hne.symm hlow hhigh
    · rw [hfirst]
      rw [hsecond]
      exact hmirrors

/-! ### Rows of the mesh -/

theorem meshAllocRow_onBytes {tail : GidPair} {row : Option Mitor}
    (hmesh : db.IsMesh cfg (db.pages gp.header) gp.data) (h : meshAllocRow cfg db gp = .ok (db', tail, row)) :
    db.MeshOnBytes cfg gp db' := by
  have halloc : db.MeshOnBytes cfg gp (db.setPage gp.data (gridAllocRow (db.pages gp.data)).1) := by
    refine meshOnBytes_call hpage hlaid hgp (Or.inl rfl) (Or.inl rfl) alloc_ne_delete
      (cellStep_alloc _ _ _ _) (next_gridAllocRow _)
  unfold meshAllocRow at h
  by_cases hroom : (db.pages gp.data).occupied < (db.pages gp.data).rown
  · rw [gridAllocRow_room hroom] at h halloc
    obtain ⟨-, -, h⟩ := bind_eq_ok.mp h
    cases h
    exact halloc
  · rw [gridAllocRow_full hroom] at h halloc
    dsimp only at h
    rw [setPage_self] at h halloc
    obtain ⟨-, -, h⟩ := bind_eq_ok.mp h
    obtain ⟨found, hfound, h⟩ := bind_eq_ok.mp h
    rw [nextTail_eq hgp.dataFile] at hfound
    cases hfound
    obtain ⟨data, hinit, h⟩ := bind_eq_ok.mp h
    rw [hmesh.page.content] at hinit
    cases h
    rw [pages_setPage_of_ne _ _ hgp.data_ne_successor]
    generalize hdb₁ : (db.setPage gp.data.successor data).setPage gp.data
      { db.pages gp.data with next := gp.data.successor } = db₁
    have hover := meshOnBytes_startOver hpage hlaid hgp hinit hdb₁.symm
    have hheader : db₁.pages gp.header = db.pages gp.header := by
      rw [← hdb₁, pages_setPage_of_ne _ _ hgp.ne, pages_setPage_of_ne _ _ hgp.header_ne_successor]
    have hnext : (db₁.pages gp.data).next = gp.data.successor := by
      rw [← hdb₁, pages_setPage_self]
    have hlaid₁ : (db₁.pages gp.header).Laid := by rwa [hheader]
    refine (halloc.trans hover).trans (meshOnBytes_call hpage hlaid₁ hgp (Or.inr rfl)
      (Or.inr ⟨?_, hnext.symm⟩) alloc_ne_delete (cellStep_alloc _ _ _ _) (next_gridAllocRow _))
    rw [hnext]
    exact hgp.successor_ne_undef

theorem mitorPutDatum_onBytes {m : Mitor} {column : Nat} {datum : Datum} {put : Option Db}
    (hmesh : db.IsMesh cfg (db.pages gp.header) gp.data) (hm : db.OnMesh gp m)
    (h : mitorPutDatum cfg db m column datum = .ok put) : db.MeshOnBytes cfg gp (put.getD db) := by
  have hplace := hm.page hmesh
  have hin : db.InMesh gp m.gp.data := by
    rcases hm.place with ⟨hdata, -⟩ | hnext
    · exact Or.inl hdata
    · exact Or.inr hnext
  have hrow : m.row.toUInt16.toNat = m.row := by
    have hlt := (mitorPutDatum_occupied h).trans_le (hm.dataPage hmesh).occupied
    rw [(hm.dataPage hmesh).rown] at hlt
    have hsmall : cfg.rowsOnPage (db.pages gp.header) < 2 ^ 16 := Nat.mod_lt _ (by decide)
    rw [Nat.toUInt16, UInt16.toNat_ofNat', Nat.mod_eq_of_lt (by omega)]
  obtain ⟨grid, hgrid, h⟩ := bind_eq_ok.mp h
  have hcell : Grid.cellStep cfg.build (db.pages gp.header) cfg.psz (db.pages m.gp.data)
      (.put m.row.toUInt16 column datum)
      = .ok (grid.getD (db.pages m.gp.data), .put grid.isSome) := by
    rw [Grid.cellStep, hrow, ← hm.header, hgrid]
    cases grid <;> rfl
  have hcall := meshOnBytes_call hpage hlaid hgp hplace hin (put_ne_delete _ _ _) hcell
  cases grid with
  | none =>
      cases h
      exact .refl cfg gp db
  | some grid =>
      cases h
      refine hcall ?_
      exact next_of_gridPutDatum hgrid

theorem putValues_onBytes {m : Mitor} {indices : List Nat} {values : List Datum} {filled : Bool}
    (hmesh : db.IsMesh cfg (db.pages gp.header) gp.data) (hm : db.OnMesh gp m) (hvalid : mitorIsValid db m = true)
    (h : putValues cfg db m indices values = .ok (db', filled)) : db.MeshOnBytes cfg gp db' := by
  induction indices generalizing db values with
  | nil =>
      cases h
      exact .refl cfg gp _
  | cons index indices ih =>
      cases values with
      | nil => cases h
      | cons value values =>
          obtain ⟨put, hput, h⟩ := bind_eq_ok.mp h
          have hfirst := mitorPutDatum_onBytes hpage hlaid hgp hmesh hm hput
          cases put with
          | none =>
              cases h
              exact .refl cfg gp _
          | some db₁ =>
              obtain ⟨row, rfl⟩ := mitorPutDatum_spec hput
              have hheader : (db.putRow m row).pages gp.header = db.pages gp.header := by
                apply (sameBut_putRow hm hmesh row).pages
                · exact hgp.ne
                · exact hgp.header_ne_successor
              have hmesh₁ := hmesh.putRow hvalid row
              rw [← hheader] at hlaid hmesh₁
              have hvalid₁ : mitorIsValid (db.putRow m row) m = true := by rwa [mitorIsValid_putRow]
              exact MeshOnBytes.trans hfirst (ih hlaid hmesh₁ (hm.putRow row) hvalid₁ h)

theorem insertRow_onBytes {leftover : Option Tran} {indices : List Nat} {values : List Datum} {status : ScrcStatus}
    {row : Option Mitor} (hmesh : db.IsMesh cfg (db.pages gp.header) gp.data)
    (h : insertRow cfg db gp leftover indices values = .ok (db', status, row)) : db.MeshOnBytes cfg gp db' := by
  obtain ⟨⟨db₁, tail, allocated⟩, halloc, h⟩ := bind_eq_ok.mp h
  have hfirst := meshAllocRow_onBytes hpage hlaid hgp hmesh halloc
  obtain ⟨hsame, hmesh₁, hon⟩ := meshAllocRow_spec hmesh hgp halloc
  cases allocated with
  | none =>
      cases h
      exact hfirst
  | some m =>
      dsimp only at h
      split at h
      · cases h
        exact hfirst
      next hvalid =>
        split at h
        · cases h
          exact hfirst
        · obtain ⟨⟨db₂, filled⟩, hput, h⟩ := bind_eq_ok.mp h
          cases h
          have hvalid : mitorIsValid db₁ m = true := not_not.mp hvalid
          have hheader : db₁.pages gp.header = db.pages gp.header :=
            hsame.pages _ hgp.ne hgp.header_ne_successor
          rw [← hheader] at hlaid hmesh₁
          exact hfirst.trans (putValues_onBytes hpage hlaid hgp hmesh₁ (hon m rfl hvalid) hvalid hput)

end

/-! ### All tables -/

theorem IsTable.owns {row : RelationRow} (h : db.IsTable cfg row) (hg : db.HasData row g) : row.Owns g := by
  obtain ⟨hdata, rfl | ⟨hnext, rfl⟩⟩ := hg
  · exact Or.inl (Or.inr ⟨hdata, rfl⟩)
  · rcases (h.data hdata).2.next with hlast | hsecond
    · exact absurd hlast hnext
    · exact Or.inr ⟨hdata, hsecond.next⟩

theorem IsTable.hasData_congr {row : RelationRow} (h : db.IsTable cfg row)
    (hpages : ∀ g, row.Owns g → db'.pages g = db.pages g) (hg : db'.HasData row g) :
    db.HasData row g ∧ db'.pages g = db.pages g ∧ db'.pages row.header = db.pages row.header := by
  have hdata : db'.pages row.data = db.pages row.data := hpages _ (Or.inl (Or.inr ⟨hg.1, rfl⟩))
  rw [HasData, hdata] at hg
  exact ⟨hg, hpages _ (h.owns hg), hpages _ (Or.inl (Or.inl rfl))⟩

/-- A table whose pages and bytes nothing has happened to. -/
theorem Stored.table {row : RelationRow} (h : db.Stored cfg mem) (htable : db.IsTable cfg row)
    (hrow : row ∈ db.relation.rows) (hpages : ∀ g, row.Owns g → db'.pages g = db.pages g)
    (hmem : ∀ g, row.Owns g → ∀ p, cfg.frame g ≤ p → p < cfg.frame g + cfg.psz.toNat → mem' p = mem p)
    (hg : db'.HasData row g) :
    Mirrors (db'.pages row.header) mem' (cfg.frame g) cfg.psz.toNat (db'.pages g) (db'.pages g).rown := by
  obtain ⟨hg, hpage, hheader⟩ := htable.hasData_congr hpages hg
  rw [hpage, hheader]
  exact (h row hrow g hg).congr (hmem g (htable.owns hg))

theorem OnBytes.mesh {i : Nat} {row : RelationRow} (htables : db.Tables cfg)
    (hrow : db.relation.rows[i]? = some row) (hdata : row.dataGid ≠ 0) (hbound : db.sequence.issued < 2 ^ 40)
    (hsame : db.SameBut db' row.data) (hmesh : db.MeshOnBytes cfg row.gids db') : db.OnBytes cfg db' := by
  obtain ⟨hist, hcalls, hbytes⟩ := hmesh
  refine ⟨hist, hcalls, fun mem hmem => ?_⟩
  obtain ⟨mem', hexec, hstored, hout⟩ :=
    hbytes mem fun g hg => hmem row (List.mem_of_getElem? hrow) g ⟨hdata, hg⟩
  refine ⟨mem', hexec, fun row' hrow' g hg => ?_⟩
  rw [hsame.relation] at hrow'
  obtain ⟨j, hj⟩ := List.getElem?_of_mem hrow'
  have htable := htables.table i row hrow
  have htable' := htables.table j row' hj
  by_cases hji : j = i
  · subst hji
    obtain rfl : row' = row := Option.some.inj (hj.symm.trans hrow)
    exact hstored g hg.2
  · have hapart : ∀ g, row'.Owns g → ¬ row.Owns g := fun g hg =>
      htable'.not_owns htable hbound (htables.apart j i row' row hj hrow hji) hg
    refine hmem.table htable' hrow' (fun g hg => hsame.pages g ?_ ?_) (fun g hg p hlow hhigh => hout p ?_ ?_) hg
    · rintro rfl
      exact hapart _ hg (Or.inl (Or.inr ⟨hdata, rfl⟩))
    · rintro rfl
      exact hapart _ hg (Or.inr ⟨hdata, rfl⟩)
    · refine Config.outside_of_ne ?_ hlow hhigh
      rintro rfl
      exact hapart _ hg (Or.inl (Or.inr ⟨hdata, rfl⟩))
    · refine Config.outside_of_ne ?_ hlow hhigh
      rintro rfl
      exact hapart _ hg (Or.inr ⟨hdata, rfl⟩)

end Db

end Scroller
