import Scroller.Proof.InsertOutcome
import Scroller.Proof.MeshChain

/-!
# The rows of several INSERTs

A scan of a table meets the rows that were inserted, in the order of the commands, as long as they fit on the
first page of the table and one row more. Every further `INSERT` takes the place of the last row.
-/

namespace Scroller

open Outcome

/-! ### Appending to a list of bounded length -/

/-- What is behind the first `n` elements gives way to the new one. -/
def appendWithin {α : Type} (n : Nat) (l : List α) (a : α) : List α := l.take n ++ [a]

theorem foldl_appendWithin_of_le {α : Type} {n : Nat} {as : List α} (h : as.length ≤ n + 1) :
    as.foldl (appendWithin n) [] = as := by
  induction as using List.reverseRecOn with
  | nil => rfl
  | append_singleton as a ih =>
      rw [List.length_append, List.length_singleton] at h
      rw [List.foldl_append, ih (by omega), List.foldl_cons, List.foldl_nil, appendWithin,
        List.take_of_length_le (by omega)]

theorem length_foldl_appendWithin {α : Type} (n : Nat) (as : List α) :
    (as.foldl (appendWithin n) []).length ≤ n + 1 := by
  induction as using List.reverseRecOn with
  | nil => exact Nat.zero_le _
  | append_singleton as a ih =>
      rw [List.foldl_append, List.foldl_cons, List.foldl_nil, appendWithin, List.length_append, List.length_take]
      exact Nat.succ_le_succ (Nat.min_le_left _ _)

theorem foldl_appendWithin_eq_iff {α : Type} {n : Nat} {as : List α} :
    as.foldl (appendWithin n) [] = as ↔ as.length ≤ n + 1 := by
  constructor
  · intro h
    have hlength := length_foldl_appendWithin n as
    rwa [h] at hlength
  · exact foldl_appendWithin_of_le

/-! ### One INSERT on lists of rows -/

theorem Mesh.allocRow_true {R : Type} {build : Build} {mesh mesh' : Mesh R} {row : R}
    (h : mesh.allocRow build row = .ok (mesh', true)) :
    mesh.rown ≠ 0 ∧ ∃ extended, mesh' = ⟨mesh.rown, extended, appendWithin mesh.rown mesh.rows row⟩ := by
  unfold Mesh.allocRow at h
  split at h
  next hroom =>
    cases h
    refine ⟨Nat.ne_zero_of_lt hroom, mesh.extended, ?_⟩
    rw [appendWithin, List.take_of_length_le (Nat.le_of_lt hroom)]
  next hfull =>
    obtain ⟨-, -, h⟩ := bind_eq_ok.mp h
    split at h
    · cases h
    next hrown =>
      cases h
      exact ⟨hrown, true, rfl⟩

theorem length_appendWithin {α : Type} (n : Nat) (l : List α) (a : α) :
    (appendWithin n l a).length = min n l.length + 1 := by
  rw [appendWithin, List.length_append, List.length_take, List.length_singleton]

theorem getElem?_appendWithin {α : Type} (n : Nat) (l : List α) (a : α) :
    (appendWithin n l a)[(appendWithin n l a).length - 1]? = some a := by
  unfold appendWithin
  rw [List.length_append, List.length_singleton, Nat.add_sub_cancel, List.getElem?_append_right (Nat.le_refl _),
    Nat.sub_self]
  rfl

theorem set_appendWithin {α : Type} (n : Nat) (l : List α) (a b : α) :
    (appendWithin n l a).set ((appendWithin n l a).length - 1) b = appendWithin n l b := by
  unfold appendWithin
  rw [List.length_append, List.length_singleton, Nat.add_sub_cancel, List.set_append_right _ _ (Nat.le_refl _),
    Nat.sub_self]
  rfl

/-- An `INSERT` that succeeds appends its row. -/
theorem Mesh.insert_ok {cfg : Config} {mesh mesh' : Mesh Row} {header : Grid} {leftover : Option Tran}
    {indices : List Nat} {values : List Datum} {n : Option Nat}
    (h : mesh.insert cfg header leftover indices values = .ok (mesh', .ok, n)) :
    mesh.rown ≠ 0 ∧ ∃ extended row, mesh' = ⟨mesh.rown, extended, appendWithin mesh.rown mesh.rows row⟩
      ∧ n = some (mesh'.rows.length - 1) ∧ mesh'.rows[mesh'.rows.length - 1]? = some row := by
  obtain ⟨⟨mesh₁, valid⟩, halloc, h⟩ := bind_eq_ok.mp h
  cases valid with
  | false => cases h
  | true =>
      obtain ⟨hrown, extended, rfl⟩ := Mesh.allocRow_true halloc
      refine ⟨hrown, extended, ?_⟩
      dsimp only at h
      rw [if_neg (not_not.mpr rfl)] at h
      split at h
      · cases h
      · obtain ⟨⟨row, filled⟩, -, h⟩ := bind_eq_ok.mp h
        cases filled with
        | false => cases h
        | true =>
            rw [set_appendWithin] at h
            cases h
            refine ⟨row, rfl, ?_, ?_⟩
            · rw [length_appendWithin, length_appendWithin]
            · exact getElem?_appendWithin _ _ _

/-- The names of the tables. -/
def Store.tableNames (store : Store) : List (List UInt8 × List UInt8 × List UInt8) :=
  store.relations.map fun t => (t.catalog, t.schema, t.relation)

/-- The index of the table that a session finds by its name. -/
def Store.index (store : Store) (session : Session) (schema table : List UInt8) : Option Nat :=
  (store.find session schema table).map Prod.snd

namespace Store

variable {cfg : Config} {store store' : Store} {session session' : Session} {schema table : List UInt8}
  {names : List (List UInt8)} {values : List Datum} {leftover : Option Tran} {reply : Reply}

theorem index_congr (hnames : store'.tableNames = store.tableNames) (hcatalog : session'.catalog = session.catalog) :
    store'.index session' schema table = store.index session schema table := by
  have hindex (store : Store) (session : Session) : store.index session schema table
      = (store.tableNames.zipIdx.find? fun (name, _) =>
        eqCharacter name.1 (session.catalog.getD []) && eqCharacter name.2.1 schema
          && eqCharacter name.2.2 table).map Prod.snd := by
    rw [index, find, tableNames, List.zipIdx_map, List.find?_map, Option.map_map]
    rfl
  rw [hindex, hindex, hnames, hcatalog]

theorem getElem?_of_find {t : Relation} {i : Nat} (h : store.find session schema table = some (t, i)) :
    store.relations[i]? = some t := by
  have hmem := List.mem_of_find?_eq_some h
  exact List.mk_mem_zipIdx_iff_getElem?.mp hmem

theorem row?_eq {t : Relation} {mesh : Mesh Row} {i n : Nat} (hget : store.relations[i]? = some t)
    (hdata : t.data = some mesh) : store.row? (i, n) = mesh.rows[n]? := by
  unfold row?
  dsimp only
  rw [hget]
  simp only [Option.bind_eq_bind, Option.bind_some, hdata]

theorem names_set {t t' : Relation} {i : Nat} (hget : store.relations[i]? = some t)
    (hcatalog : t'.catalog = t.catalog) (hschema : t'.schema = t.schema) (hrelation : t'.relation = t.relation)
    (hrelations : store'.relations = store.relations.set i t') : store'.tableNames = store.tableNames := by
  have hname : (t'.catalog, t'.schema, t'.relation) = (t.catalog, t.schema, t.relation) := by
    rw [hcatalog, hschema, hrelation]
  obtain ⟨hlt, hget⟩ := List.getElem?_eq_some_iff.mp hget
  unfold tableNames
  rw [hrelations, List.map_set, hname, ← hget]
  apply List.ext_getElem?
  intro j
  rw [List.getElem?_set]
  split
  next hij =>
    subst hij
    simp [hlt]
  · rfl

/-- An `INSERT` that succeeds appends a row to its table. -/
theorem insert_ok (h : store.insert cfg session schema table names values leftover = .ok (store', session', reply))
    (hstatus : reply.status = .ok) :
    ∃ t i mesh extended row, store.find session schema table = some (t, i) ∧ t.dataOrNew cfg = .ok mesh
      ∧ store'.relations
        = store.relations.set i
            { t with data := some ⟨mesh.rown, extended, appendWithin mesh.rown mesh.rows row⟩ }
      ∧ session'.catalog = session.catalog
      ∧ ∃ n, reply.inserted = some (i, n) ∧ (appendWithin mesh.rown mesh.rows row)[n]? = some row := by
  unfold insert at h
  cases hfind : store.find session schema table with
  | none =>
      rw [hfind] at h
      obtain ⟨-, -, h⟩ := bind_eq_ok.mp h
      cases h
      cases hstatus
  | some found =>
      obtain ⟨t, i⟩ := found
      rw [hfind] at h
      obtain ⟨mesh, hmesh, h⟩ := bind_eq_ok.mp h
      obtain ⟨-, -, h⟩ := bind_eq_ok.mp h
      obtain ⟨⟨ts, session₁, status⟩, hput, h⟩ := bind_eq_ok.mp h
      dsimp only at h
      split at h
      · split at h
        · cases h
          cases hstatus
        · obtain ⟨⟨mesh', status', n⟩, hinsert, h⟩ := bind_eq_ok.mp h
          cases h
          obtain rfl : status' = .ok := hstatus
          obtain ⟨-, extended, row, rfl, rfl, hrow⟩ := Mesh.insert_ok hinsert
          refine ⟨t, i, mesh, extended, row, rfl, hmesh, ?_, Db.putTranIfNone_catalog hput, _, rfl, hrow⟩
          show (store.relations.set i _).set i _ = _
          rw [List.set_set]
      · cases h
      next hsome hnone =>
        cases h
        cases htran : session'.tran with
        | none => exact (hnone hstatus htran).elim
        | some tran => exact (hsome tran hstatus htran).elim

end Store

/-! ### One INSERT on pages -/

namespace Db

variable {cfg : Config} {db db' : Db} {gp : GidPair} {header : Grid} {session session' : Session}
  {schema table : List UInt8} {names : List (List UInt8)} {values : List Datum} {leftover : Option Tran}

theorem putValues_onMesh {m : Mitor} {indices : List Nat} {filled : Bool} (hm : db.OnMesh gp m)
    (hvalid : mitorIsValid db m = true) (h : putValues cfg db m indices values = .ok (db', filled)) :
    db'.OnMesh gp m ∧ mitorIsValid db' m = true := by
  induction indices generalizing db values with
  | nil =>
      cases h
      exact ⟨hm, hvalid⟩
  | cons index indices ih =>
      cases values with
      | nil => cases h
      | cons value values =>
          obtain ⟨put, hput, h⟩ := bind_eq_ok.mp h
          cases put with
          | none =>
              cases h
              exact ⟨hm, hvalid⟩
          | some db₁ =>
              obtain ⟨row, rfl⟩ := mitorPutDatum_spec hput
              exact ih (hm.putRow row) (by rwa [mitorIsValid_putRow]) h

/-- The row of an `INSERT` that succeeds is in the mesh of its table. -/
theorem insertRow_onMesh {indices : List Nat} {row : Option Mitor}
    (hmesh : db.IsMesh cfg (db.pages gp.header) gp.data) (hgp : gp.Apart)
    (h : insertRow cfg db gp leftover indices values = .ok (db', .ok, row)) :
    ∃ m, row = some m ∧ db'.OnMesh gp m ∧ mitorIsValid db' m = true := by
  obtain ⟨⟨db₁, tail, allocated⟩, halloc, h⟩ := bind_eq_ok.mp h
  obtain ⟨-, -, hon⟩ := meshAllocRow_spec hmesh hgp halloc
  cases allocated with
  | none => cases h
  | some m =>
      dsimp only at h
      split at h
      · cases h
      next hvalid =>
        have hvalid : mitorIsValid db₁ m = true := not_not.mp hvalid
        split at h
        · cases h
        · obtain ⟨⟨db₂, filled⟩, hput, h⟩ := bind_eq_ok.mp h
          cases filled with
          | false => cases h
          | true =>
              cases h
              exact ⟨m, rfl, putValues_onMesh (hon m rfl hvalid) hvalid hput⟩

/-- The calls of an `INSERT` that succeeds. -/
theorem insert_calls {m : Option Mitor}
    (h : insert cfg db session schema table names values .mvcc leftover = .ok (db', session', .ok, m)) :
    ∃ db₁ gp ts tran indices, findRelation cfg db session schema table true true = .ok (db₁, gp)
      ∧ gp.header ≠ .undef ∧ putTranIfNone cfg db₁.trans session = .ok (ts, session', .ok)
      ∧ insertRow cfg { db₁ with trans := ts } gp leftover indices
        (values ++ [makeTranid tran, makeTranid tranInvalidId]) = .ok (db', .ok, m) := by
  obtain ⟨⟨db₁, gp⟩, hfind, h⟩ := bind_eq_ok.mp h
  obtain ⟨-, -, h⟩ := bind_eq_ok.mp h
  split at h
  · cases h
  next hheader =>
    obtain ⟨-, -, h⟩ := bind_eq_ok.mp h
    obtain ⟨⟨ts, session₁, status⟩, hput, h⟩ := bind_eq_ok.mp h
    dsimp only at h
    split at h
    · split at h
      · cases h
      · obtain ⟨⟨db₂, status₂, row₂⟩, hrow, h⟩ := bind_eq_ok.mp h
        cases h
        exact ⟨db₁, gp, ts, _, _, hfind, hheader, hput, hrow⟩
    · cases h
    next hsome hnone =>
      cases h
      cases htran : session'.tran with
      | none => exact (hnone rfl htran).elim
      | some tran => exact (hsome tran rfl htran).elim

/-- The name of the row that an `INSERT` answers with leads to the row that it has put. -/
theorem insert_rowAt {m : Option Mitor} (h : db.Laid cfg) (hissued : db.sequence.issued + 1 < 2 ^ 40)
    (hinsert : insert cfg db session schema table names values .mvcc leftover = .ok (db', session', .ok, m)) :
    ∃ m', m = some m' ∧ db'.store.row? (db'.rowName session' schema table m') = some (db'.rowAt m') := by
  obtain ⟨db₁, gp, ts, tran, indices, hfind, hheader, hput, hrow⟩ := insert_calls hinsert
  cases hfound : db.relationRow session schema table with
  | none =>
      rw [findRelation, hfound] at hfind
      cases hfind
      exact absurd rfl hheader
  | some found =>
      obtain ⟨row, i⟩ := found
      have hagrees := findRelation_agrees h hissued hfound
      rw [hfind] at hagrees
      obtain ⟨mesh, -, hlaid, hbound, ⟨row₁, hfound₁, hdata₁, rfl, -⟩, -, -⟩ := hagrees.of_ok
      dsimp only at hlaid hbound hfound₁
      have htable := (hlaid.tables hbound).table i row₁ (relationRow_eq_some hfound₁)
      have happart := htable.apart hbound hdata₁
      have hmesh : IsMesh cfg (db₁.pages row₁.header) { db₁ with trans := ts } row₁.gids.data :=
        (htable.data hdata₁).2.congr rfl rfl
      obtain ⟨hsame, hmesh'⟩ := insertRow_spec hmesh happart hrow
      obtain ⟨m', rfl, hm, hvalid⟩ := insertRow_onMesh hmesh happart hrow
      have hfound' : db'.relationRow session' schema table = some (row₁, i) :=
        (relationRow_congr (putTranIfNone_catalog hput) hsame.relation).trans hfound₁
      have hrelation : db'.store.relations[i]? = some (db'.relationOf row₁) := by
        rw [store, List.getElem?_map, relationRow_eq_some hfound']
        rfl
      have hget := hm.getElem? hmesh' happart
      rw [if_pos hvalid] at hget
      refine ⟨m', rfl, ?_⟩
      rw [rowName, hfound', Store.row?, hrelation]
      simp only [Option.bind_eq_bind, Option.bind_some, relationOf_of_data hdata₁]
      exact hget

/-! ### Scans -/

/-- `mitor_next` leads over the rows of a mesh from an iterator on. -/
theorem walk_mesh (hmesh : db.IsMesh cfg header gp.data) (hgp : gp.Apart) {fuel : Nat} {m : Mitor}
    (hm : db.OnMesh gp m) (hfuel : (db.mesh gp.data).rows.length ≤ fuel + db.rowNumber gp.data m) :
    (db.walk fuel m).map db.rowAt = (db.mesh gp.data).rows.drop (db.rowNumber gp.data m) := by
  induction fuel generalizing m with
  | zero =>
      rw [List.drop_eq_nil_of_le (by omega)]
      rfl
  | succ fuel ih =>
      by_cases hvalid : mitorIsValid db m = true
      · obtain ⟨hnext, hnumber⟩ := hm.next hmesh hgp hvalid
        have hget := hm.getElem? hmesh hgp
        rw [if_pos hvalid] at hget
        obtain ⟨hlt, hget⟩ := List.getElem?_eq_some_iff.mp hget
        have hrest := ih hnext (by omega)
        rw [walk, if_pos hvalid, List.map_cons, hrest, hnumber, List.drop_eq_getElem_cons hlt, hget]
        rfl
      · have hle := mt (hm.valid_iff hmesh hgp).mpr hvalid
        rw [walk_invalid (Bool.eq_false_iff.mpr hvalid), List.drop_eq_nil_of_le (by omega)]
        rfl

/-- The rows that `SELECT` without a clause goes over: `find_relation`, `mitor_init`, and `mitor_next` until the
iterator is invalid. -/
def fullScan (cfg : Config) (fuel : Nat) (db : Db) (session : Session) (schema table : List UInt8) :
    Except Fault (List Row) := do
  let (db, gp) ← findRelation cfg db session schema table false false
  return (db.walk fuel ⟨gp, 0⟩).map db.rowAt

/-- A full scan meets the rows of the table as the store has them. -/
theorem fullScan_eq (h : db.Tables cfg) (hissued : db.sequence.issued < 2 ^ 40) {fuel i : Nat} {t : Relation}
    (hfind : db.store.find session schema table = some (t, i)) (hfuel : t.rows.length ≤ fuel) :
    db.fullScan cfg fuel session schema table = .ok t.rows := by
  rw [find_store] at hfind
  obtain ⟨⟨row, i⟩, hfound, heq⟩ := Option.map_eq_some_iff.mp hfind
  cases heq
  have htable := h.table i row (relationRow_eq_some hfound)
  have hgid : row.headerGid ≠ 0 := fun hzero =>
    htable.ne_undef (Or.inl rfl) (Db.gid_eq_undef_iff.mpr hzero)
  rw [fullScan, Execute.findRelation_eq, hfound]
  dsimp only
  rw [Build.assert_of _ hgid]
  dsimp only [bind, Except.bind, pure, Except.pure]
  by_cases hdata : row.dataGid = 0
  · have hundef : row.gids.data = .undef := gid_eq_undef_iff.mpr hdata
    have hinvalid : mitorIsValid db ⟨row.gids, 0⟩ = false := by simp [mitorIsValid, hundef]
    have hnone : (db.relationOf row).data = none := if_pos hdata
    rw [walk_invalid hinvalid, Relation.rows, hnone]
    rfl
  · obtain ⟨-, hmesh⟩ := htable.data hdata
    have hrows : (db.relationOf row).rows = (db.mesh row.gids.data).rows := by
      rw [Relation.rows, relationOf_of_data hdata]
      rfl
    have hgp := htable.apart hissued hdata
    have hm := onMesh_first hmesh hgp
    have hnumber : db.rowNumber row.gids.data ⟨row.gids, 0⟩ = 0 := OnMesh.rowNumber_of_eq rfl
    have hwalk := @walk_mesh cfg db row.gids _ hmesh hgp fuel _ hm (by rw [hnumber, ← hrows]; exact hfuel)
    rw [hwalk, hnumber, hrows]
    rfl

theorem rown_of_tables (h : db.Tables cfg) {i : Nat} {t : Relation} {mesh : Mesh Row}
    (hget : db.store.relations[i]? = some t) (hmesh : t.dataOrNew cfg = .ok mesh) :
    mesh.rown = cfg.rowsOnPage t.header ∧ mesh.rows = t.rows := by
  rw [store, List.getElem?_map] at hget
  obtain ⟨row, hrow, rfl⟩ := Option.map_eq_some_iff.mp hget
  by_cases hdata : row.dataGid = 0
  · have hnone : (db.relationOf row).data = none := if_pos hdata
    rw [Relation.dataOrNew, hnone] at hmesh
    obtain ⟨grid, hgrid, hmesh⟩ := bind_eq_ok.mp hmesh
    cases hmesh
    rw [Relation.rows, hnone]
    exact ⟨(dgridInit_eq_ok hgrid).2.2.1, rfl⟩
  · obtain ⟨-, hisMesh⟩ := (h.table i row hrow).data hdata
    rw [Relation.dataOrNew, relationOf_of_data hdata] at hmesh
    cases hmesh
    rw [Relation.rows, relationOf_of_data hdata]
    exact ⟨hisMesh.page.rown, rfl⟩

end Db

/-! ### Runs of INSERTs -/

/-- An `INSERT` of a session. -/
structure InsertRequest where
  sid : Nat
  schema : List UInt8
  table : List UInt8
  names : List (List UInt8)
  values : List Datum
  leftover : Option Tran

/-- `insert` in one session, with the row that it leaves at its iterator. -/
def Cluster.insert (cfg : Config) (s : Cluster Db) (r : InsertRequest) :
    Except Fault (Cluster Db × ScrcStatus × Option Row) := do
  let (db, session, status, m) ←
    Scroller.insert cfg s.db (s.sessions r.sid) r.schema r.table r.names r.values .mvcc r.leftover
  return ({ db, sessions := Function.update s.sessions r.sid session }, status, m.map db.rowAt)

/-- A table after some `INSERT`s, which have put the given rows. -/
structure Inserted (cfg : Config) (s₀ : Cluster Db) (i : Nat) (header : Grid) (rows : List Row)
    (s : Cluster Db) : Prop where
  tableNames : s.db.store.tableNames = s₀.db.store.tableNames
  catalog : ∀ sid, (s.sessions sid).catalog = (s₀.sessions sid).catalog
  table : ∃ t, s.db.store.relations[i]? = some t ∧ t.header = header
    ∧ t.rows = rows.foldl (appendWithin (cfg.rowsOnPage header)) []

section Runs

variable {cfg : Config} {s₀ s s' : Cluster Db} {i : Nat} {header : Grid} {rows : List Row} {r : InsertRequest}

theorem Inserted.step {row : Option Row} (h : Inserted cfg s₀ i header rows s) (hlaid : s.db.Laid cfg)
    (hissued : s.db.sequence.issued + 1 < 2 ^ 40)
    (hinto : s₀.db.store.index (s₀.sessions r.sid) r.schema r.table = some i)
    (hstep : s.insert cfg r = .ok (s', .ok, row)) :
    ∃ inserted, row = some inserted ∧ Inserted cfg s₀ i header (rows ++ [inserted]) s' := by
  obtain ⟨⟨db', session', status, m⟩, hinsert, hstep⟩ := bind_eq_ok.mp hstep
  cases hstep
  obtain ⟨m, rfl, hrowAt⟩ := Db.insert_rowAt hlaid hissued hinsert
  have hagrees := @Db.insert_agrees cfg s.db (s.sessions r.sid) r.schema r.table r.names r.values r.leftover hlaid
    hissued
  rw [hinsert] at hagrees
  obtain ⟨⟨store', session'', reply⟩, hstore, heq⟩ := hagrees.of_ok
  obtain rfl : store' = db'.store := heq.store
  obtain rfl : session'' = session' := heq.session
  have hreply : reply = ⟨.ok, some (db'.rowName session'' r.schema r.table m), []⟩ := heq.reply
  obtain ⟨t, j, mesh, extended, inserted, hfind, hmesh, hrelations, hcatalog, n, hnumber, hrow⟩ :=
    Store.insert_ok hstore (by rw [hreply])
  obtain ⟨t', ht', hheader, hrows⟩ := h.table
  have hindex : s.db.store.index (s.sessions r.sid) r.schema r.table = some i :=
    (Store.index_congr h.tableNames (h.catalog r.sid)).trans hinto
  rw [Store.index, hfind] at hindex
  obtain rfl : j = i := Option.some.inj hindex
  have hget := Store.getElem?_of_find hfind
  obtain rfl : t = t' := Option.some.inj (hget.symm.trans ht')
  obtain ⟨hrown, hmeshRows⟩ := Db.rown_of_tables (hlaid.tables (by omega)) hget hmesh
  rw [hrown, hmeshRows, hheader] at hrelations hrow
  have hlt := (List.getElem?_eq_some_iff.mp hget).1
  have hget' := congrArg (fun relations => relations[j]?) hrelations
  rw [List.getElem?_set_self hlt] at hget'
  -- the row at the iterator is the one that the store has appended
  have hname : db'.rowName session'' r.schema r.table m = (j, n) := by
    rw [hreply] at hnumber
    exact Option.some.inj hnumber
  have hinserted : db'.rowAt m = inserted := by
    rw [hname, Store.row?_eq hget' rfl, hrow] at hrowAt
    exact (Option.some.inj hrowAt).symm
  refine ⟨inserted, congrArg some hinserted, ?_, fun sid => ?_, ?_⟩
  · have hnames : db'.store.tableNames = s.db.store.tableNames := by
      refine Store.names_set hget ?_ ?_ ?_ hrelations
      · rfl
      · rfl
      · rfl
    exact hnames.trans h.tableNames
  · dsimp only
    by_cases hsid : sid = r.sid
    · subst hsid
      rw [Function.update_self, hcatalog]
      exact h.catalog r.sid
    · rw [Function.update_of_ne hsid]
      exact h.catalog sid
  · refine ⟨_, hget', rfl, ?_⟩
    rw [List.foldl_append, ← hrows, List.foldl_cons, List.foldl_nil, Relation.rows, Option.map_some,
      Option.getD_some]

theorem laid_insert {answer : ScrcStatus × Option Row} (h : s.db.Laid cfg ∧ ∀ sid, (s.sessions sid).Positive)
    (hstep : s.insert cfg r = .ok (s', answer)) : s'.db.Laid cfg ∧ ∀ sid, (s'.sessions sid).Positive := by
  obtain ⟨⟨db', session', status, m⟩, hinsert, hstep⟩ := bind_eq_ok.mp hstep
  cases hstep
  obtain ⟨hlaid, hpositive⟩ := Db.insert_laid h.1 (h.2 r.sid) hinsert
  refine ⟨hlaid, fun sid => ?_⟩
  dsimp only
  by_cases hsid : sid = r.sid
  · subst hsid
    rw [Function.update_self]
    exact hpositive
  · rw [Function.update_of_ne hsid]
    exact h.2 sid

/-- **The rows of a run of INSERTs.** -/
theorem Inserted.of_exec {inserts : List InsertRequest} {hist : List (InsertRequest × ScrcStatus × Option Row)}
    (hlaid : s₀.db.Laid cfg ∧ ∀ sid, (s₀.sessions sid).Positive) (hstart : Inserted cfg s₀ i header [] s₀)
    (hinto : ∀ r ∈ inserts, s₀.db.store.index (s₀.sessions r.sid) r.schema r.table = some i)
    (hexec : Machine.exec (Cluster.insert cfg) s₀ inserts = .ok (s', hist))
    (hok : ∀ answer ∈ hist, answer.2.1 = .ok) (hissued : s'.db.sequence.issued + 1 < 2 ^ 40) :
    s'.db.Laid cfg ∧ ∃ rows, hist.map (fun answer => answer.2.2) = rows.map some
      ∧ Inserted cfg s₀ i header rows s' := by
  have hrun := Machine.exec_invariant
    (fun hist s => (s.db.Laid cfg ∧ ∀ sid, (s.sessions sid).Positive)
      ∧ ((∀ answer ∈ hist, answer.2.1 = .ok) → s.db.sequence.issued + 1 < 2 ^ 40 →
        ∃ rows, hist.map (fun answer => answer.2.2) = rows.map some ∧ Inserted cfg s₀ i header rows s))
    (fun r => s₀.db.store.index (s₀.sessions r.sid) r.schema r.table = some i) [] ?_ ?_ hinto hexec
  · exact ⟨hrun.1.1, hrun.2 hok hissued⟩
  · rintro hist s r s' ⟨status, row⟩ ⟨hlaid, hrows⟩ hinto hstep
    refine ⟨laid_insert hlaid hstep, fun hok hissued => ?_⟩
    obtain rfl : status = .ok := hok _ (List.mem_append_right _ List.mem_cons_self)
    have hcalled := hstep
    obtain ⟨⟨db', session', status', m⟩, hinsert, hstep⟩ := bind_eq_ok.mp hstep
    cases hstep
    have hle : s.db.sequence.issued ≤ db'.sequence.issued := (Db.insert_issued hlaid.1 hinsert).1
    have hissued : db'.sequence.issued + 1 < 2 ^ 40 := hissued
    obtain ⟨rows, hhist, hinserted⟩ :=
      hrows (fun answer hanswer => hok answer (List.mem_append_left _ hanswer)) (by omega)
    obtain ⟨row, hrow, hinserted'⟩ := hinserted.step hlaid.1 (by omega) hinto hcalled
    refine ⟨rows ++ [row], ?_, hinserted'⟩
    rw [List.map_append, List.map_append, hhist, List.map_singleton, hrow]
    rfl
  · exact ⟨hlaid, fun _ _ => ⟨[], rfl, hstart⟩⟩

/-- What the `INSERT`s put they put into bytes. -/
theorem onBytes_of_inserts {inserts : List InsertRequest} {hist : List (InsertRequest × ScrcStatus × Option Row)}
    (hlaid : s₀.db.Laid cfg ∧ ∀ sid, (s₀.sessions sid).Positive) (hlayout : s₀.db.LaidOut cfg)
    (hexec : Machine.exec (Cluster.insert cfg) s₀ inserts = .ok (s', hist)) :
    s₀.db.sequence.issued ≤ s'.db.sequence.issued
      ∧ (s'.db.sequence.issued < 2 ^ 40 → s₀.db.OnBytes cfg s'.db) := by
  have hrun := Machine.exec_invariant
    (fun _ s => (s.db.Laid cfg ∧ ∀ sid, (s.sessions sid).Positive) ∧ s₀.db.sequence.issued ≤ s.db.sequence.issued
      ∧ (s.db.sequence.issued < 2 ^ 40 → s₀.db.OnBytes cfg s.db ∧ s.db.LaidOut cfg))
    (fun _ => True) [] ?_ ?_ (fun _ _ => True.intro) hexec
  · exact ⟨hrun.2.1, fun hissued => (hrun.2.2 hissued).1⟩
  · rintro - s r s' answer ⟨hlaid, hle, hstored⟩ - hstep
    have hlaid' := laid_insert hlaid hstep
    obtain ⟨⟨db', session', status, m⟩, hinsert, hstep⟩ := bind_eq_ok.mp hstep
    cases hstep
    have hle' : s.db.sequence.issued ≤ db'.sequence.issued := (Db.insert_issued hlaid.1 hinsert).1
    refine ⟨hlaid', hle.trans hle', fun hissued => ?_⟩
    obtain ⟨hbytes, hlayout⟩ := hstored (Nat.lt_of_le_of_lt hle' hissued)
    obtain ⟨hbytes', hlayout'⟩ := Db.insert_onBytes hlaid.1 (hlaid.2 r.sid) hlayout hissued hinsert
    exact ⟨hbytes.trans hbytes', hlayout'⟩
  · exact ⟨hlaid, Nat.le_refl _, fun _ => ⟨.refl cfg _, hlayout⟩⟩

theorem index_store {db : Db} {session : Session} {schema table : List UInt8} {row : RelationRow}
    (h : db.relationRow session schema table = some (row, i)) : db.store.index session schema table = some i := by
  rw [Store.index, Db.find_store, h]
  rfl

end Runs

/-- `INSERT INTO s.t (a) VALUES (1)`. -/
def insertOne : InsertRequest := ⟨0, [115], [116], [[97]], [makeBigint 1], some ⟨1, true⟩⟩

/-- `CREATE TABLE s.t (a CHAR(3000))`. -/
def createWide : Request :=
  ⟨0, some [.create, .table, .string [115], .string [116], .arrayBegin, .size 3000, .type .char, .string [97],
    .arrayEnd], none, 20⟩

/-- `INSERT INTO s.t (a) VALUES ('1')`. -/
def insertWide : InsertRequest := ⟨0, [115], [116], [[97]], [makeChar [49]], some ⟨1, true⟩⟩

end Scroller
