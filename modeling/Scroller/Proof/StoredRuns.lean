import Scroller.Proof.SessionRuns
import Scroller.Proof.StoredPages

/-!
# Runs in memory

What the sessions of a new cluster execute leads any memory to one that stores the tables, as long as the columns
of every table that was created lie apart.
-/

namespace Scroller

open Execute GridPage Outcome

namespace Db

variable {cfg : Config} {fuel : Nat} {db db' : Db} {session session' : Session} {row : RelationRow} {gp : GidPair}

/-! ### Headers stay -/

theorem LaidOut.psz (h : db.LaidOut cfg) : sizeofGrid ≤ cfg.psz.toNat := cfg.psz_toNat ▸ h.page

theorem LaidOut.of_headers (h : db.LaidOut cfg)
    (hheaders : ∀ row' ∈ db'.relation.rows, ∃ row ∈ db.relation.rows, db'.pages row'.header = db.pages row.header) :
    db'.LaidOut cfg := by
  refine ⟨h.page, fun row' hrow' => ?_⟩
  obtain ⟨row, hrow, hpage⟩ := hheaders row' hrow'
  rw [hpage]
  exact h.columns row hrow

theorem LaidOut.other (h : db.LaidOut cfg) (hrows : db'.relation.rows = db.relation.rows)
    (hpages : db'.pages = db.pages) : db'.LaidOut cfg := by
  apply h.of_headers
  rw [hrows, hpages]
  exact fun row hrow => ⟨row, hrow, rfl⟩

theorem laidOut_nil (hpage : sizeofGrid ≤ cfg.pagesz % 2 ^ 16) (hrows : db.relation.rows = []) : db.LaidOut cfg := by
  refine ⟨hpage, fun row hrow => ?_⟩
  rw [hrows] at hrow
  cases hrow

theorem laidOut_singleton (hpage : sizeofGrid ≤ cfg.pagesz % 2 ^ 16) (hrows : db.relation.rows = [row])
    (h : (db.pages row.header).LaidOut) : db.LaidOut cfg := by
  refine ⟨hpage, fun row' hrow' => ?_⟩
  rw [hrows] at hrow'
  rw [List.mem_singleton.mp hrow']
  exact h

theorem LaidOut.mesh {i : Nat} (h : db.LaidOut cfg) (htables : db.Tables cfg)
    (hrow : db.relation.rows[i]? = some row) (hdata : row.dataGid ≠ 0) (hbound : db.sequence.issued < 2 ^ 40)
    (hsame : db.SameBut db' row.data) : db'.LaidOut cfg := by
  apply h.of_headers
  rw [hsame.relation]
  intro row' hrow'
  obtain ⟨j, hj⟩ := List.getElem?_of_mem hrow'
  refine ⟨row', hrow', hsame.pages _ ?_ ?_⟩
  all_goals
    intro heq
    by_cases hji : j = i
    · subst hji
      obtain rfl : row' = row := Option.some.inj (hj.symm.trans hrow)
      have happart := (htables.table j row' hrow).apart hbound hdata
      first | exact happart.ne heq | exact happart.header_ne_successor heq
    · have hapart := (htables.table j row' hj).not_owns (htables.table i row hrow) hbound
        (htables.apart j i row' row hj hrow hji) (Or.inl (Or.inl rfl))
      rw [heq] at hapart
      first | exact hapart (Or.inl (Or.inr ⟨hdata, rfl⟩)) | exact hapart (Or.inr ⟨hdata, rfl⟩)

/-! ### Ids -/

theorem findRelation_issued {schema table : List UInt8} (h : db.Laid cfg)
    (hfind : findRelation cfg db session schema table true true = .ok (db', gp)) :
    db.sequence.issued ≤ db'.sequence.issued ∧ db'.sequence.issued ≤ db.sequence.issued + 1 := by
  unfold findRelation at hfind
  split at hfind
  · cases hfind
    exact ⟨Nat.le_refl _, Nat.le_succ _⟩
  · obtain ⟨-, -, hfind⟩ := bind_eq_ok.mp hfind
    dsimp only at hfind
    split at hfind
    · obtain ⟨created, hcreated, hfind⟩ := bind_eq_ok.mp hfind
      obtain ⟨out, hnext, hcreated⟩ := bind_eq_ok.mp hcreated
      obtain ⟨sequence, v, rfl, -, hissued, -⟩ := nextval_spec h.sequence hnext
      obtain ⟨dtable, -, hcreated⟩ := bind_eq_ok.mp hcreated
      cases hcreated
      cases hfind
      show db.sequence.issued ≤ sequence.issued ∧ sequence.issued ≤ db.sequence.issued + 1
      omega
    · cases hfind
      exact ⟨Nat.le_refl _, Nat.le_succ _⟩

theorem insert_issued {schema table : List UInt8} {names : List (List UInt8)} {values : List Datum}
    {leftover : Option Tran} {status : ScrcStatus} {m : Option Mitor} (h : db.Laid cfg)
    (hinsert : insert cfg db session schema table names values .mvcc leftover = .ok (db', session', status, m)) :
    db.sequence.issued ≤ db'.sequence.issued ∧ db'.sequence.issued ≤ db.sequence.issued + 1 := by
  obtain ⟨⟨db₁, gp⟩, hfind, hinsert⟩ := bind_eq_ok.mp hinsert
  have hissued := findRelation_issued h hfind
  obtain ⟨-, -, hinsert⟩ := bind_eq_ok.mp hinsert
  split at hinsert
  · cases hinsert
    exact hissued
  · obtain ⟨-, -, hinsert⟩ := bind_eq_ok.mp hinsert
    obtain ⟨⟨ts, session₁, status₁⟩, -, hinsert⟩ := bind_eq_ok.mp hinsert
    dsimp only at hinsert
    split at hinsert
    · split at hinsert
      · cases hinsert
        exact hissued
      · obtain ⟨⟨db₂, status₂, row₂⟩, hrow, hinsert⟩ := bind_eq_ok.mp hinsert
        cases hinsert
        rw [(insertRow_sameSystem hrow).sequence]
        exact hissued
    · cases hinsert
    · cases hinsert
      exact hissued

/-! ### Commands on rows -/

/-- The first `INSERT` gives a table its data. -/
theorem createData_onBytes {i : Nat} {row' : RelationRow} (h : db.Laid cfg) (hlayout : db.LaidOut cfg)
    (hbound : db'.sequence.issued < 2 ^ 40) (hrow : db.relation.rows[i]? = some row)
    (hcreate : createData cfg db i row = .ok (some (db', row'))) : db.OnBytes cfg db' ∧ db'.LaidOut cfg := by
  obtain ⟨out, hnext, hcreate⟩ := bind_eq_ok.mp hcreate
  obtain ⟨sequence, v, rfl, -, hissued, hv⟩ := nextval_spec h.sequence hnext
  obtain ⟨dtable, hinit, hcreate⟩ := bind_eq_ok.mp hcreate
  cases hcreate
  have hbound : sequence.issued < 2 ^ 40 := hbound
  have htables := h.tables (by omega)
  have hgid : Gid.ofParts v.toUInt64 0 = ⟨v.toUInt64⟩ := Gid.ofParts_value hv (by omega)
  have hnum : Gid.num ⟨v.toUInt64⟩ = db.sequence.issued + 1 := Gid.num_of_value hv
  rw [hgid]
  have hfresh (j : Nat) (row' : RelationRow) (hj : db.relation.rows[j]? = some row') : ¬ row'.Owns ⟨v.toUInt64⟩ :=
    (htables.table j row' hj).not_owns_fresh (by omega) (by omega) (by omega)
  have hpages (g : Gid) (hg : g ≠ ⟨v.toUInt64⟩) :
      ((Db.setPage { db with sequence } ⟨v.toUInt64⟩ dtable).setRelationRow i
        { row with dataGid := v, tailGid := v }).pages g = db.pages g := by
    rw [pages_setRelationRow, pages_setPage_of_ne _ _ hg]
  have hnew : ((Db.setPage { db with sequence } ⟨v.toUInt64⟩ dtable).setRelationRow i
      { row with dataGid := v, tailGid := v }).pages ⟨v.toUInt64⟩ = dtable := by
    rw [pages_setRelationRow, pages_setPage_self]
  have hlt : i < db.relation.rows.length := (List.getElem?_eq_some_iff.mp hrow).1
  have hget (row' : RelationRow) (hrow' : row' ∈ db.relation.rows.set i { row with dataGid := v, tailGid := v }) :
      row' = { row with dataGid := v, tailGid := v } ∨ ∃ j : Nat, db.relation.rows[j]? = some row' := by
    rcases List.mem_or_eq_of_mem_set hrow' with hrow' | rfl
    · exact Or.inr (List.getElem?_of_mem hrow')
    · exact Or.inl rfl
  have hheader : row.header ≠ ⟨v.toUInt64⟩ := fun heq => hfresh i row hrow (Or.inl (Or.inl heq.symm))
  have hcell : Grid.cellStep cfg.build (db.pages row.header) cfg.psz (db.pages ⟨v.toUInt64⟩) (.init .mvcc)
      = .ok (dtable, .done) := by
    have hinit : dgridInit cfg.build cfg.pagesz .mvcc (db.pages row.header) = .ok dtable := hinit
    rw [Grid.cellStep, dgridInit_psz, hinit]
    rfl
  refine ⟨⟨[(⟨db.pages row.header, ⟨v.toUInt64⟩, .init .mvcc⟩, .done)],
    (Calls.one hcell).append (.of_same fun _ _ _ _ => ⟨rfl, rfl, rfl⟩), fun mem hmem => ?_⟩, ?_⟩
  · obtain ⟨mem', hcall, hmirrors, hout⟩ := @call_mirrors cfg mem
      ⟨db.pages row.header, ⟨v.toUInt64⟩, .init .mvcc⟩ _ _ _ hlayout.psz
      (hlayout.columns row (List.mem_of_getElem? hrow)).toLaid (init_ne_delete .mvcc) (Or.inl ⟨_, rfl⟩) hcell
    refine ⟨mem', exec_one hcall, fun row' hrow' g hg => ?_⟩
    rcases hget row' hrow' with rfl | ⟨j, hj⟩
    · have hg : g = ⟨v.toUInt64⟩ := by
        obtain ⟨-, hg | ⟨hnext, -⟩⟩ := hg
        · exact hg
        · exact absurd ((congrArg Grid.next hnew).trans (dgridInit_eq_ok hinit).2.1) hnext
      subst hg
      have hpage : RelationRow.header { row with dataGid := v, tailGid := v } = row.header := rfl
      rw [hpage, hpages _ hheader, hnew]
      exact hmirrors
    · refine hmem.table (htables.table j row' hj) (List.mem_of_getElem? hj) (fun g hg => hpages g ?_)
        (fun g hg p hlow hhigh => hout p (Config.outside_of_ne ?_ hlow hhigh)) hg
      · rintro rfl
        exact hfresh j row' hj hg
      · rintro rfl
        exact hfresh j row' hj hg
  · refine hlayout.of_headers fun row' hrow' => ?_
    rcases hget row' hrow' with rfl | ⟨j, hj⟩
    · exact ⟨row, List.mem_of_getElem? hrow, hpages _ hheader⟩
    · refine ⟨row', List.mem_of_getElem? hj, hpages _ fun heq => hfresh j row' hj ?_⟩
      exact Or.inl (Or.inl heq.symm)

theorem findRelation_onBytes {schema table : List UInt8} {returnTail create : Bool} (h : db.Laid cfg)
    (hlayout : db.LaidOut cfg) (hbound : db'.sequence.issued < 2 ^ 40)
    (hfind : findRelation cfg db session schema table returnTail create = .ok (db', gp)) :
    db.OnBytes cfg db' ∧ db'.LaidOut cfg := by
  unfold findRelation at hfind
  split at hfind
  · cases hfind
    exact ⟨.refl cfg _, hlayout⟩
  next row i hfound =>
    obtain ⟨-, -, hfind⟩ := bind_eq_ok.mp hfind
    dsimp only at hfind
    split at hfind
    · obtain ⟨created, hcreated, hfind⟩ := bind_eq_ok.mp hfind
      cases created with
      | none =>
          cases hfind
          exact ⟨.refl cfg _, hlayout⟩
      | some created =>
          cases hfind
          exact createData_onBytes h hlayout hbound (relationRow_eq_some hfound) hcreated
    · cases hfind
      exact ⟨.refl cfg _, hlayout⟩

theorem insertRow_stored {leftover : Option Tran} {indices : List Nat} {values : List Datum} {status : ScrcStatus}
    {m : Option Mitor} (h : db.Laid cfg) (hlayout : db.LaidOut cfg) (hbound : db'.sequence.issued < 2 ^ 40)
    (hfound : db.IsFound true gp) (hheader : gp.header ≠ .undef)
    (hinsert : insertRow cfg db gp leftover indices values = .ok (db', status, m)) :
    db.OnBytes cfg db' ∧ db'.LaidOut cfg := by
  obtain hundef | ⟨i, row, hrow, hgpHeader, hgpData, hdata⟩ := hfound
  · exact absurd hundef hheader
  have hdata := hdata rfl
  rw [(insertRow_sameSystem hinsert).sequence] at hbound
  have htables := h.tables hbound
  have htable := htables.table i row hrow
  have hgp : gp = row.gids := by
    cases gp
    cases hgpHeader
    cases hgpData hbound
    rfl
  subst hgp
  have hmesh : db.IsMesh cfg (db.pages row.gids.header) row.gids.data := (htable.data hdata).2
  have happart := htable.apart hbound hdata
  have hsame := (insertRow_spec hmesh happart hinsert).same
  have hlaid : (db.pages row.gids.header).Laid := (hlayout.columns row (List.mem_of_getElem? hrow)).toLaid
  refine ⟨.mesh htables hrow hdata hbound hsame ?_, hlayout.mesh htables hrow hdata hbound hsame⟩
  exact insertRow_onBytes hlayout.psz hlaid happart hmesh hinsert

theorem insert_onBytes {schema table : List UInt8} {names : List (List UInt8)} {values : List Datum}
    {content : GridContent} {leftover : Option Tran} {status : ScrcStatus} {m : Option Mitor} (h : db.Laid cfg)
    (hsession : session.Positive) (hlayout : db.LaidOut cfg) (hbound : db'.sequence.issued < 2 ^ 40)
    (hinsert : insert cfg db session schema table names values content leftover = .ok (db', session', status, m)) :
    db.OnBytes cfg db' ∧ db'.LaidOut cfg := by
  obtain ⟨⟨db₁, gp⟩, hfind, hinsert⟩ := bind_eq_ok.mp hinsert
  obtain ⟨hlaid, -, hfound⟩ := findRelation_laid h hfind
  have hrow {db₂ db₃ : Db} {indices : List Nat} {values : List Datum} {status : ScrcStatus} {m : Option Mitor}
      (hlaid : db₂.Laid cfg) (hrows : db₂.relation.rows = db₁.relation.rows) (hpages : db₂.pages = db₁.pages)
      (hsequence : db₂.sequence = db₁.sequence) (hfound : db₂.IsFound true gp) (hheader : gp.header ≠ .undef)
      (hbound : db₃.sequence.issued < 2 ^ 40)
      (hinsert : insertRow cfg db₂ gp leftover indices values = .ok (db₃, status, m)) :
      db.OnBytes cfg db₃ ∧ db₃.LaidOut cfg := by
    have hissued := hbound
    rw [(insertRow_sameSystem hinsert).sequence, hsequence] at hissued
    obtain ⟨hon, hlayout₁⟩ := findRelation_onBytes h hlayout hissued hfind
    have hother : db₁.OnBytes cfg db₂ := .other hrows hpages
    obtain ⟨hon', hlayout₂⟩ :=
      insertRow_stored hlaid (hlayout₁.other hrows hpages) hbound hfound hheader hinsert
    exact ⟨(hon.trans hother).trans hon', hlayout₂⟩
  have hfailed {db₂ : Db} (hrows : db₂.relation.rows = db₁.relation.rows) (hpages : db₂.pages = db₁.pages)
      (hsequence : db₂.sequence = db₁.sequence) (hbound : db₂.sequence.issued < 2 ^ 40) :
      db.OnBytes cfg db₂ ∧ db₂.LaidOut cfg := by
    rw [hsequence] at hbound
    obtain ⟨hon, hlayout₁⟩ := findRelation_onBytes h hlayout hbound hfind
    exact ⟨hon.trans (.other hrows hpages), hlayout₁.other hrows hpages⟩
  obtain ⟨-, -, hinsert⟩ := bind_eq_ok.mp hinsert
  split at hinsert
  · cases hinsert
    exact hfailed rfl rfl rfl hbound
  next hheader =>
    obtain ⟨-, -, hinsert⟩ := bind_eq_ok.mp hinsert
    split at hinsert
    · split at hinsert
      · cases hinsert
        exact hfailed rfl rfl rfl hbound
      · obtain ⟨⟨db₂, status₂, row₂⟩, hrow₂, hinsert⟩ := bind_eq_ok.mp hinsert
        cases hinsert
        exact hrow hlaid rfl rfl rfl hfound hheader hbound hrow₂
    · obtain ⟨⟨ts, session₁, status₁⟩, hput, hinsert⟩ := bind_eq_ok.mp hinsert
      obtain ⟨hlaid₁, -⟩ := putTranIfNone_laid hlaid hsession hput
      dsimp only at hinsert
      split at hinsert
      · split at hinsert
        · cases hinsert
          exact hfailed rfl rfl rfl hbound
        · obtain ⟨⟨db₂, status₂, row₂⟩, hrow₂, hinsert⟩ := bind_eq_ok.mp hinsert
          cases hinsert
          exact hrow hlaid₁ rfl rfl rfl (hfound.withTrans ts) hheader hbound hrow₂
      · cases hinsert
      · cases hinsert
        exact hfailed rfl rfl rfl hbound

theorem dmlDeleteRow_onBytes {m : Mitor} (h : db.Laid cfg) (hlayout : db.LaidOut cfg)
    (hbound : db.sequence.issued < 2 ^ 40) (hm : db.Stands m)
    (hdelete : dmlDeleteRow cfg session db m = .ok db') : db.OnBytes cfg db' ∧ db'.LaidOut cfg := by
  obtain ⟨i, row, hrow, hdata, hon⟩ := hm
  have htables := h.tables hbound
  have htable := htables.table i row hrow
  have hmesh : db.IsMesh cfg (db.pages row.gids.header) row.gids.data := (htable.data hdata).2
  have happart := htable.apart hbound hdata
  have hlaid : (db.pages row.gids.header).Laid := (hlayout.columns row (List.mem_of_getElem? hrow)).toLaid
  have hcontent := (hon.dataPage hmesh).content
  have hkept : db' = db ∨ ∃ row, db' = db.putRow m row := dmlDeleteRow_spec hcontent hdelete
  have hsame : db.SameBut db' row.gids.data := by
    obtain rfl | ⟨cells, rfl⟩ := hkept
    · exact sameBut_refl _ _
    · exact sameBut_putRow hon hmesh cells
  refine ⟨.mesh htables hrow hdata hbound hsame ?_, hlayout.mesh htables hrow hdata hbound hsame⟩
  unfold dmlDeleteRow at hdelete
  rw [hcontent] at hdelete
  obtain ⟨-, -, hdelete⟩ := bind_eq_ok.mp hdelete
  split at hdelete
  · cases hdelete
  · obtain ⟨-, -, hdelete⟩ := bind_eq_ok.mp hdelete
    obtain ⟨put, hput, hdelete⟩ := bind_eq_ok.mp hdelete
    obtain ⟨-, -, hdelete⟩ := bind_eq_ok.mp hdelete
    cases hdelete
    exact mitorPutDatum_onBytes hlayout.psz hlaid happart hmesh hon hput

/-! ### Other commands -/

/-- A new table has no rows yet. -/
theorem createTable_onBytes {schema tname : List UInt8} {decls : List Decl} {status : ScrcStatus} (h : db.Laid cfg)
    (hbound : db'.sequence.issued < 2 ^ 40)
    (hcreate : createTable cfg db session schema tname decls .mvcc = .ok (db', status)) : db.OnBytes cfg db' := by
  obtain ⟨out, hnext, hcreate⟩ := bind_eq_ok.mp hcreate
  obtain ⟨sequence, v, rfl, -, hissued, hv⟩ := nextval_spec h.sequence hnext
  obtain ⟨grid, -, hcreate⟩ := bind_eq_ok.mp hcreate
  generalize hadd : addColumns grid (versionDecls .mvcc ++ decls) = added at hcreate
  have hfresh (hbound : sequence.issued < 2 ^ 40)
      (hrows : ∀ row ∈ db'.relation.rows, row ∈ db.relation.rows ∨ row.dataGid = 0)
      (hpages : db'.pages = (db.setPage (Gid.ofParts v.toUInt64 0) added.1).pages) : db.OnBytes cfg db' := by
    have hgid : Gid.ofParts v.toUInt64 0 = ⟨v.toUInt64⟩ := Gid.ofParts_value hv (by omega)
    have hnum : Gid.num ⟨v.toUInt64⟩ = db.sequence.issued + 1 := Gid.num_of_value hv
    have htables := h.tables (by omega)
    have hold (row : RelationRow) (hrow : row ∈ db'.relation.rows) (g : Gid) (hg : db'.HasData row g) :
        row ∈ db.relation.rows ∧ db.IsTable cfg row ∧ ∀ g, row.Owns g → db'.pages g = db.pages g := by
      rcases hrows row hrow with hmem | hzero
      · obtain ⟨i, hi⟩ := List.getElem?_of_mem hmem
        have htable := htables.table i row hi
        refine ⟨hmem, htable, fun g hg => ?_⟩
        rw [hpages, hgid]
        apply pages_setPage_of_ne
        rintro rfl
        exact htable.not_owns_fresh (by omega) (by omega) (by omega) hg
      · exact absurd hzero hg.1
    refine ⟨[], .of_same fun row hrow g hg => ?_, fun mem hmem => ⟨mem, rfl, fun row hrow g hg => ?_⟩⟩
    · obtain ⟨-, htable, hsame⟩ := hold row hrow g hg
      rw [(htable.hasData_congr hsame hg).2.1]
      exact ⟨rfl, rfl, rfl⟩
    · obtain ⟨hmem', htable, hsame⟩ := hold row hrow g hg
      exact hmem.table htable hmem' hsame (fun _ _ _ _ _ => rfl) hg
  dsimp only at hcreate
  split at hcreate
  · cases hcreate
    exact hfresh hbound (fun row hrow => Or.inl hrow) rfl
  · obtain ⟨⟨rows, valid⟩, hrows, hcreate⟩ := bind_eq_ok.mp hcreate
    cases hcreate
    refine hfresh hbound (fun row hrow => ?_) rfl
    rcases Mesh.allocRow_rows hrows with hrows | ⟨n, hrows⟩
    · exact Or.inl (hrows ▸ hrow)
    · have hrow : row ∈ db.relation.rows.take n ++ [_] := hrows ▸ hrow
      rcases List.mem_append.mp hrow with hrow | hrow
      · exact Or.inl (List.mem_of_mem_take hrow)
      · rw [List.mem_singleton.mp hrow]
        exact Or.inr rfl

theorem createTable_issued {schema tname : List UInt8} {decls : List Decl} {status : ScrcStatus} (h : db.Laid cfg)
    (hcreate : createTable cfg db session schema tname decls .mvcc = .ok (db', status)) :
    db.sequence.issued ≤ db'.sequence.issued := by
  obtain ⟨out, hnext, hcreate⟩ := bind_eq_ok.mp hcreate
  obtain ⟨sequence, v, rfl, -, hissued, -⟩ := nextval_spec h.sequence hnext
  have hle : db.sequence.issued ≤ sequence.issued := by omega
  obtain ⟨grid, -, hcreate⟩ := bind_eq_ok.mp hcreate
  dsimp only at hcreate
  split at hcreate
  · cases hcreate
    exact hle
  · obtain ⟨⟨rows, valid⟩, -, hcreate⟩ := bind_eq_ok.mp hcreate
    cases hcreate
    exact hle

theorem createCatalog_spec {catalog : List UInt8} {status : ScrcStatus} (h : db.Laid cfg)
    (hcreate : createCatalog cfg db catalog = .ok (db', status)) :
    db'.relation.rows = db.relation.rows ∧ db'.pages = db.pages ∧ db.sequence.issued ≤ db'.sequence.issued := by
  obtain ⟨⟨rows, valid⟩, -, hcreate⟩ := bind_eq_ok.mp hcreate
  dsimp only at hcreate
  split at hcreate
  · cases hcreate
    exact ⟨rfl, rfl, Nat.le_refl _⟩
  · obtain ⟨out, hnext, hcreate⟩ := bind_eq_ok.mp hcreate
    obtain ⟨sequence, v, rfl, -, hissued, -⟩ := nextval_spec h.sequence hnext
    have hle : db.sequence.issued ≤ sequence.issued := by omega
    obtain ⟨-, -, hcreate⟩ := bind_eq_ok.mp hcreate
    split at hcreate
    · cases hcreate
      exact ⟨rfl, rfl, hle⟩
    · cases hcreate
      exact ⟨rfl, rfl, hle⟩

theorem openRelation_sameTables {status : ScrcStatus} {titor : Option Titor}
    (hopen : openRelation cfg fuel db session gp = .ok (db', session', status, titor)) :
    db'.relation.rows = db.relation.rows ∧ db'.pages = db.pages ∧ db'.sequence = db.sequence := by
  rw [RowCmd.openRelation_eq] at hopen
  split at hopen
  · cases hopen
    exact ⟨rfl, rfl, rfl⟩
  · obtain ⟨⟨ts, session₁, status₁⟩, -, hopen⟩ := bind_eq_ok.mp hopen
    split at hopen
    · cases hopen
      exact ⟨rfl, rfl, rfl⟩
    · obtain ⟨t, -, hopen⟩ := bind_eq_ok.mp hopen
      cases hopen
      exact ⟨rfl, rfl, rfl⟩

theorem findRelation_same {schema table : List UInt8} {returnTail : Bool}
    (hfind : findRelation cfg db session schema table returnTail false = .ok (db', gp)) : db' = db := by
  unfold findRelation at hfind
  split at hfind
  · cases hfind
    rfl
  · obtain ⟨-, -, hfind⟩ := bind_eq_ok.mp hfind
    dsimp only at hfind
    split at hfind
    next hcreate => cases hcreate.1
    next =>
      cases hfind
      rfl

theorem dmlDelete_sameTables {schema table : List UInt8} {status : ScrcStatus} {titor : Option Titor}
    (hopen : dmlDelete cfg fuel db session schema table = .ok (db', session', status, titor)) :
    db'.relation.rows = db.relation.rows ∧ db'.pages = db.pages ∧ db'.sequence = db.sequence := by
  obtain ⟨⟨db₁, gp⟩, hfind, hfound⟩ := bind_eq_ok.mp hopen
  obtain rfl := findRelation_same hfind
  dsimp only at hfound
  split at hfound
  · cases hfound
    exact ⟨rfl, rfl, rfl⟩
  · exact openRelation_sameTables hfound

theorem dmlSelect_sameTables {schema table : List UInt8} {names : List (List UInt8)} {status : ScrcStatus}
    {titor : Option Titor}
    (hopen : dmlSelect cfg fuel db session schema table names = .ok (db', session', status, titor)) :
    db'.relation.rows = db.relation.rows ∧ db'.pages = db.pages ∧ db'.sequence = db.sequence := by
  obtain ⟨⟨db₁, gp⟩, hfind, hfound⟩ := bind_eq_ok.mp hopen
  obtain rfl := findRelation_same hfind
  dsimp only at hfound
  split at hfound
  · cases hfound
    exact ⟨rfl, rfl, rfl⟩
  · split at hfound
    · cases hfound
      exact ⟨rfl, rfl, rfl⟩
    · exact openRelation_sameTables hfound

end Db

namespace Execute

/-- The bytes have followed since `db₀`, while the ids fill their fields; an iterator needs the layout for the rows
that are deleted. -/
def storedContract (cfg : Config) (db₀ : Db) : Contract := { laidContract cfg with
  state db session := (db.Laid cfg ∧ session.Positive) ∧ db₀.sequence.issued ≤ db.sequence.issued
    ∧ (db.sequence.issued < 2 ^ 40 → db₀.OnBytes cfg db)
  titor db titor := db.Iterates titor ∧ (titor ≠ none → db.sequence.issued < 2 ^ 40 → db.LaidOut cfg) }

/-- The database is `db₀` and there is no iterator yet. -/
def startContract (cfg : Config) (db₀ : Db) : Contract := { laidContract cfg with
  state db session := (db.Laid cfg ∧ session.Positive) ∧ db = db₀
  titor _ titor := titor = none }

section

variable {cfg : Config} {fuel : Nat} {db₀ : Db} {tokens : List BcNode}
  (htypes : ∀ type, BcNode.type type ∈ tokens → type.group ≠ .unknown) (hlayout : db₀.LaidOut cfg)
include htypes

theorem stored_kept : (storedContract cfg db₀).Kept cfg fuel tokens := by
  refine Contract.kept_of_open (fun _ _ => True.intro) (fun _ => True.intro) (fun _ => True.intro) ?_ ?_
  · rintro x hx type rfl
    exact htypes type hx
  · exact fun db session t t' hstate ht hnext => ⟨ht.1.next hstate.1.1 hnext, fun _ => ht.2 nofun⟩

theorem start_kept : (startContract cfg db₀).Kept cfg fuel tokens := by
  refine Contract.kept_of_open (fun _ _ => True.intro) (fun _ => True.intro) (fun _ => True.intro) ?_ ?_
  · rintro x hx type rfl
    exact htypes type hx
  · intro db session t t' _ ht
    cases ht

include hlayout

theorem stored_leads (leftover : Option Tran) :
    (startContract cfg db₀).Leads (storedContract cfg db₀) cfg fuel tokens leftover where
  before := start_kept htypes
  after := stored_kept htypes
  idle htitor := htitor
  none db := ⟨Db.iterates_none db, fun hne => absurd rfl hne⟩
  lexer _ _ := True.intro
  token hx := hx
  fault _ := True.intro
  start := by
    rintro db session ⟨hlaid, rfl⟩
    exact ⟨hlaid, Nat.le_refl _, fun _ => .refl cfg db⟩
  createUser := by
    rintro db db' session name status ⟨hlaid, rfl⟩ hcreate
    have hlaid' := Db.createUser_laid hlaid.1 hcreate
    obtain ⟨_, -, hcreate⟩ := bind_eq_ok.mp hcreate
    cases hcreate
    exact ⟨⟨hlaid', hlaid.2⟩, Nat.le_refl _, fun _ => .other rfl rfl⟩
  createCatalog := by
    rintro db db' session name status - ⟨hlaid, rfl⟩ hcreate
    obtain ⟨hrows, hpages, hissued⟩ := Db.createCatalog_spec hlaid.1 hcreate
    exact ⟨⟨Db.createCatalog_laid hlaid.1 hcreate, hlaid.2⟩, hissued, fun _ => .other hrows hpages⟩
  createSchema := by
    rintro db db' session name status ⟨hlaid, rfl⟩ hcreate
    have hlaid' := Db.createSchema_laid hlaid.1 hcreate
    obtain ⟨_, -, hcreate⟩ := bind_eq_ok.mp hcreate
    cases hcreate
    exact ⟨⟨hlaid', hlaid.2⟩, Nat.le_refl _, fun _ => .other rfl rfl⟩
  createTable := by
    rintro db db' session schema name columns status ⟨hlaid, rfl⟩ hcolumns hcreate
    exact ⟨⟨Db.createTable_laid hlaid.1 (fun decl hdecl => hcolumns decl hdecl _ rfl) hcreate, hlaid.2⟩,
      Db.createTable_issued hlaid.1 hcreate, fun hbound => Db.createTable_onBytes hlaid.1 hbound hcreate⟩
  tclStart := by
    rintro db ts session session' status ⟨hlaid, rfl⟩ hstart
    exact ⟨Db.tclStart_laid hlaid.1 hlaid.2 hstart, Nat.le_refl _, fun _ => .other rfl rfl⟩
  tclCommit := by
    rintro db ts session session' status - ⟨hlaid, rfl⟩ hfinish
    exact ⟨Db.tclFinish_laid hlaid.1 hlaid.2 hfinish, Nat.le_refl _, fun _ => .other rfl rfl⟩
  tclRollback := by
    rintro db ts session session' status ⟨hlaid, rfl⟩ hfinish
    exact ⟨Db.tclFinish_laid hlaid.1 hlaid.2 hfinish, Nat.le_refl _, fun _ => .other rfl rfl⟩
  insert := by
    rintro db db' session session' schema table names values status row ⟨hlaid, rfl⟩ hinsert
    exact ⟨Db.insert_laid hlaid.1 hlaid.2 hinsert, (Db.insert_issued hlaid.1 hinsert).1,
      fun hbound => (Db.insert_onBytes hlaid.1 hlaid.2 hlayout hbound hinsert).1⟩
  dmlDelete := by
    rintro db db' session session' schema table status titor ⟨hlaid, rfl⟩ hopen
    obtain ⟨hlaid', hpositive, htitor⟩ := Db.dmlDelete_laid hlaid.1 hlaid.2 hopen
    obtain ⟨hrows, hpages, hsequence⟩ := Db.dmlDelete_sameTables hopen
    exact ⟨⟨⟨hlaid', hpositive⟩, (congrArg Sequence.issued hsequence).ge, fun _ => .other hrows hpages⟩,
      ⟨htitor, fun _ _ => hlayout.other hrows hpages⟩⟩
  dmlSelect := by
    rintro db db' session session' schema table names status titor ⟨hlaid, rfl⟩ hopen
    obtain ⟨hlaid', hpositive, htitor⟩ := Db.dmlSelect_laid hlaid.1 hlaid.2 hopen
    obtain ⟨hrows, hpages, hsequence⟩ := Db.dmlSelect_sameTables hopen
    exact ⟨⟨⟨hlaid', hpositive⟩, (congrArg Sequence.issued hsequence).ge, fun _ => .other hrows hpages⟩,
      ⟨htitor, fun _ _ => hlayout.other hrows hpages⟩⟩
  deleteRow {db db' session t} hstate ht hvalid hdelete := by
    have hm (hbound : db.sequence.issued < 2 ^ 40) : db.Stands t.m ∧ mitorIsValid db t.m = true := by
      refine ⟨ht.1 t rfl hbound, ?_⟩
      unfold titorIsValid at hvalid
      exact (of_decide_eq_true hvalid).1
    have hsequence := (Db.dmlDeleteRow_sameSystem hdelete).sequence
    have hstored (hbound : db'.sequence.issued < 2 ^ 40) : db.OnBytes cfg db' ∧ db'.LaidOut cfg := by
      rw [hsequence] at hbound
      exact Db.dmlDeleteRow_onBytes hstate.1.1 (ht.2 nofun hbound) hbound (hm hbound).1 hdelete
    obtain ⟨hlaid, hiterates⟩ := hstate.1.1.deleteRow hm hdelete
    have hissued := hsequence ▸ hstate.2.1
    refine ⟨⟨⟨hlaid, hstate.1.2⟩, hissued, fun hbound => ?_⟩,
      fun titor htitor => ⟨hiterates titor htitor.1, fun _ hbound => ?_⟩⟩
    · exact (hstate.2.2 (hsequence ▸ hbound)).trans (hstored hbound).1
    · exact (hstored hbound).2

end

/-- What a command does to the rows of tables it does to their bytes. -/
theorem executeCmd_onBytes {cfg : Config} {fuel : Nat} {leftover : Option Tran} {db : Db} {session : Session}
    {tokens : Option (List BcNode)} {done : Executed}
    (htypes : ∀ toks, tokens = some toks → ∀ type, BcNode.type type ∈ toks → type.group ≠ .unknown)
    (h : db.Laid cfg) (hlayout : db.LaidOut cfg) (hsession : session.Positive)
    (hdone : executeCmd cfg fuel leftover db session tokens = .ok done) :
    db.sequence.issued ≤ done.db.sequence.issued
      ∧ (done.db.sequence.issued < 2 ^ 40 → db.OnBytes cfg done.db) := by
  have hinit : (startContract cfg db).Holds (Y2.init db session) :=
    ⟨⟨⟨h, hsession⟩, rfl⟩, rfl, ⟨True.intro, fun x hx => nomatch hx⟩⟩
  have hafter : (storedContract cfg db).state done.db done.session := by
    refine executeCmd_leads (b := startContract cfg db) (c := storedContract cfg db)
      (fun toks prepared htoks hprepared => ?_) (fun _ => hinit) hdone
    refine stored_leads (fun type htype => ?_) hlayout leftover
    rcases hprepared _ htype with hmem | hloop
    · exact htypes toks htoks type hmem
    · cases hloop
  exact hafter.2

end Execute

/-! ### Runs -/

namespace Cluster

variable {cfg : Config} {s s' : Cluster Db} {requests : List Request} {hist : List (Request × Execute.Executed)}

/-- The columns of all tables lie apart all along a run of commands. -/
def LaidOut (cfg : Config) (s : Cluster Db) (requests : List Request) : Prop :=
  Machine.Throughout (execute cfg) (fun s => s.db.LaidOut cfg) s requests

theorem onBytes_of_laid (hlaid : s.db.Laid cfg ∧ ∀ sid, (s.sessions sid).Positive) (htyped : ∀ r ∈ requests, r.Typed)
    (hlayout : s.LaidOut cfg requests) (hrun : Machine.exec (execute cfg) s requests = .ok (s', hist)) :
    s.db.sequence.issued ≤ s'.db.sequence.issued
      ∧ (s'.db.sequence.issued < 2 ^ 40 → s.db.OnBytes cfg s'.db) := by
  induction requests generalizing s hist with
  | nil =>
      cases hrun
      exact ⟨Nat.le_refl _, fun _ => .refl cfg _⟩
  | cons r requests ih =>
      obtain ⟨s₁, done, rest, hstep, hrest, rfl⟩ := Machine.exec_cons_eq_ok.mp hrun
      obtain ⟨hhere, hlayout⟩ := (Machine.throughout_cons hstep).mp hlayout
      have htyped₁ := htyped r List.mem_cons_self
      obtain ⟨hle, hbytes⟩ := ih (laid_execute hlaid htyped₁ hstep)
        (fun r' hr' => htyped r' (List.mem_cons_of_mem r hr')) hlayout hrest
      obtain ⟨done', hdone, hstep⟩ := bind_eq_ok.mp hstep
      cases hstep
      obtain ⟨hle₁, hbytes₁⟩ := executeCmd_onBytes htyped₁ hlaid.1 hhere (hlaid.2 r.sid) hdone
      exact ⟨hle₁.trans hle, fun hbound => (hbytes₁ (Nat.lt_of_le_of_lt hle hbound)).trans (hbytes hbound)⟩

/-- Whatever the sessions of a new cluster execute, the bytes follow as long as the columns of every table lie
apart. -/
theorem onBytes_of_run (hfresh : s.Fresh) (htyped : ∀ r ∈ requests, r.Typed) (hlayout : s.LaidOut cfg requests)
    (hrun : Machine.exec (execute cfg) s requests = .ok (s', hist)) (hbound : s'.db.sequence.issued < 2 ^ 40) :
    s.db.OnBytes cfg s'.db :=
  (onBytes_of_laid hfresh.laid htyped hlayout hrun).2 hbound

end Cluster

end Scroller
