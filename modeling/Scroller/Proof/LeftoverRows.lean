import Scroller.Proof.InsertOutcome
import Scroller.Proof.StoredRuns

/-!
# The iterator of an INSERT

`table_alloc_row` sets the place of the iterator and leaves its transaction as it found it on the stack, but the test
behind it asks for a transaction. What an `INSERT` does depends on the stack exactly if it gets a row.
-/

namespace Scroller

open Outcome

/-! ### Getting a row -/

/-- An `INSERT` into the table gets as far as a new row. -/
structure Relation.Gets (cfg : Config) (t : Relation) (ts : TranState) (session : Session)
    (names : List (List UInt8)) : Prop where
  sized : t.data = none → hgridGetRowSize t.header % 2 ^ 16 ≠ 0
  tran : session.HasTran cfg ts
  known : columnIndices t.header (names ++ [tminName, tmaxName]) ≠ none
  rown : (t.mesh cfg).rown ≠ 0
  room : cfg.build = .debug → (t.mesh cfg).rown ≤ t.rows.length → (t.mesh cfg).extended = false

/-- There is a table for an `INSERT`, which gets a row in it. -/
structure Store.Gets (cfg : Config) (store : Store) (session : Session) (schema table : List UInt8)
    (names : List (List UInt8)) (values : List Datum) : Prop where
  lengths : cfg.build = .debug → names.length = values.length
  table : ∃ t i, store.find session schema table = some (t, i) ∧ t.Gets cfg store.trans session names

/-- What an `INSERT` answers and leaves behind is the same for all that its iterator may hold, and a row is
allocated exactly if the test behind `table_alloc_row` lets the values be put. -/
def Db.InsertsAlike (cfg : Config) (db : Db) (session : Session) (schema table : List UInt8)
    (names : List (List UInt8)) (values : List Datum) : Prop :=
  (∀ leftover leftover' : Option Tran, insert cfg db session schema table names values .mvcc leftover
    = insert cfg db session schema table names values .mvcc leftover')
  ∧ ∀ leftover db' session' status row,
    insert cfg db session schema table names values .mvcc leftover = .ok (db', session', status, row) →
    (row ≠ none ↔ status = .ok ∨ status = .datumTypeMismatch)

/-! ### In a store -/

theorem Mesh.allocRow_valid_iff {build : Build} {mesh : Mesh Row} {row : Row} :
    (∃ mesh', mesh.allocRow build row = .ok (mesh', true)) ↔
      mesh.rown ≠ 0 ∧ (build = .debug → mesh.rown ≤ mesh.rows.length → mesh.extended = false) := by
  unfold Mesh.allocRow
  by_cases hlt : mesh.rows.length < mesh.rown
  · rw [if_pos hlt]
    exact iff_of_true ⟨_, rfl⟩ ⟨by omega, fun _ hle => by omega⟩
  · rw [if_neg hlt]
    by_cases hroom : build = .debug → mesh.extended = false
    · rw [Build.assert_eq_ok.mpr hroom]
      by_cases hzero : mesh.rown = 0
      · simp [hzero, bind, Except.bind, pure, Except.pure]
      · simp only [hzero, bind, Except.bind, pure, Except.pure, if_false]
        exact iff_of_true ⟨_, rfl⟩ ⟨hzero, fun hdebug _ => hroom hdebug⟩
    · obtain ⟨hdebug, hextended⟩ := Classical.not_imp.mp hroom
      have hassert : build.assert (mesh.extended = false) = .error .assertion := by
        rw [hdebug]
        exact if_neg hextended
      rw [hassert]
      exact iff_of_false (fun ⟨_, h⟩ => nomatch h) fun h => hextended (h.2 hdebug (Nat.le_of_not_lt hlt))

section

variable {cfg : Config} {mesh mesh₁ mesh' : Mesh Row} {header : Grid} {leftover : Option Tran} {indices : List Nat}
  {values : List Datum} {status : ScrcStatus} {n : Option Nat}

/-- Without a transaction in the iterator the new row is given up. -/
theorem Mesh.insert_none (halloc : mesh.allocRow cfg.build Row.zero = .ok (mesh₁, true)) :
    mesh.insert cfg header none indices values = .ok (mesh₁, .sequenceOverflow, some (mesh₁.rows.length - 1)) := by
  rw [Mesh.insert, halloc]
  rfl

theorem Mesh.status_insert_some {tran : Tran} (halloc : mesh.allocRow cfg.build Row.zero = .ok (mesh₁, true))
    (h : mesh.insert cfg header (some tran) indices values = .ok (mesh', status, n)) : status ≠ .sequenceOverflow := by
  simp only [Mesh.insert, halloc, bind, Except.bind, not_true_eq_false, reduceCtorEq, if_false] at h
  split at h
  · cases h
  · cases h
    split
    · decide
    · decide

theorem Mesh.allocRow_of_insert (h : mesh.insert cfg header leftover indices values = .ok (mesh', status, n))
    (hrow : n ≠ none) : ∃ mesh₁, mesh.allocRow cfg.build Row.zero = .ok (mesh₁, true) := by
  obtain ⟨⟨mesh₁, valid⟩, halloc, h⟩ := bind_eq_ok.mp h
  cases valid with
  | true => exact ⟨mesh₁, halloc⟩
  | false =>
      cases h
      exact absurd rfl hrow

end

namespace Store

variable {cfg : Config} {store store' : Store} {session session' : Session} {schema table : List UInt8}
  {names : List (List UInt8)} {values : List Datum} {leftover : Option Tran} {reply : Reply}

/-- An `INSERT` that gets a row goes on with the row of the mesh. -/
theorem insert_of_gets (hplain : store.trans.Plain) (h : store.Gets cfg session schema table names values) :
    ∃ (i : Nat) (t : Relation) (ts : TranState) (session' : Session) (indices : List Nat) (key : Int64)
      (mesh₁ : Mesh Row), (t.mesh cfg).allocRow cfg.build Row.zero = .ok (mesh₁, true)
      ∧ ∀ leftover, store.insert cfg session schema table names values leftover = (do
          let (mesh, status, n) ← (t.mesh cfg).insert cfg t.header leftover indices
            (values ++ [makeTranid key, makeTranid tranInvalidId])
          return (setData { store.setData i t (t.mesh cfg) with trans := ts } i t mesh, session',
            ⟨status, n.map fun n => (i, n), []⟩)) := by
  obtain ⟨t, i, hfind, hgets⟩ := h.table
  obtain ⟨ts, session', tran, hput, htran, -, -⟩ := putTranIfNone_of_hasTran hplain hgets.tran
  obtain ⟨indices, hindices⟩ := Option.ne_none_iff_exists'.mp hgets.known
  obtain ⟨mesh₁, halloc⟩ := Mesh.allocRow_valid_iff.mpr ⟨hgets.rown, by rw [rows_mesh]; exact hgets.room⟩
  refine ⟨i, t, ts, session', indices, tran.key, mesh₁, halloc, fun leftover => ?_⟩
  rw [insert_reached hfind hgets.sized h.lengths hput htran, hindices]

theorem insert_none_of_gets (hplain : store.trans.Plain) (h : store.Gets cfg session schema table names values) :
    ∃ store' session' row,
      store.insert cfg session schema table names values none = .ok (store', session', ⟨.sequenceOverflow, row, []⟩) := by
  obtain ⟨i, t, ts, session', indices, key, mesh₁, halloc, hinsert⟩ := insert_of_gets hplain h
  rw [hinsert, Mesh.insert_none halloc]
  exact ⟨_, _, _, rfl⟩

theorem status_insert_some_of_gets (hplain : store.trans.Plain)
    (h : store.Gets cfg session schema table names values) {tran : Tran}
    (hreply : store.insert cfg session schema table names values (some tran) = .ok (store', session', reply)) :
    reply.status ≠ .sequenceOverflow := by
  obtain ⟨i, t, ts, session'', indices, key, mesh₁, halloc, hinsert⟩ := insert_of_gets hplain h
  rw [hinsert] at hreply
  obtain ⟨⟨mesh', status, n⟩, hmesh, hreply⟩ := bind_eq_ok.mp hreply
  cases hreply
  exact Mesh.status_insert_some halloc hmesh

/-- Only an `INSERT` that gets a row answers with one. -/
theorem gets_of_inserted (hplain : store.trans.Plain)
    (h : store.insert cfg session schema table names values leftover = .ok (store', session', reply))
    (hrow : reply.inserted ≠ none) : store.Gets cfg session schema table names values := by
  unfold insert at h
  split at h
  · obtain ⟨-, -, h⟩ := bind_eq_ok.mp h
    cases h
    exact absurd rfl hrow
  · next t i hfind =>
    obtain ⟨mesh, hdata, h⟩ := bind_eq_ok.mp h
    obtain ⟨_, hlengths, h⟩ := bind_eq_ok.mp h
    obtain ⟨⟨ts, session'', status⟩, hput, h⟩ := bind_eq_ok.mp h
    have hsized : t.data = none → hgridGetRowSize t.header % 2 ^ 16 ≠ 0 := by
      intro hnone hsize
      obtain ⟨e, he⟩ : ∃ e, t.dataOrNew cfg = .error e := dataOrNew_of_not_sized hnone hsize
      cases he.symm.trans hdata
    have hmesh : mesh = t.mesh cfg := by
      rw [dataOrNew_of_sized hsized] at hdata
      cases hdata
      rfl
    have htran : session.HasTran cfg store.trans := by
      by_contra hnone
      obtain ⟨e, he⟩ := putTranIfNone_of_not_hasTran hplain hnone
      cases he.symm.trans hput
    dsimp only at h
    split at h
    · split at h
      · cases h
        exact absurd rfl hrow
      · next hindices =>
        obtain ⟨⟨mesh', status', n⟩, hinsert, h⟩ := bind_eq_ok.mp h
        cases h
        have hn : n ≠ none := fun hnone => hrow (by rw [hnone]; rfl)
        obtain ⟨mesh₁, halloc⟩ := Mesh.allocRow_of_insert hinsert hn
        rw [hmesh] at halloc
        obtain ⟨hrown, hroom⟩ := Mesh.allocRow_valid_iff.mp ⟨mesh₁, halloc⟩
        rw [rows_mesh] at hroom
        exact ⟨Build.assert_eq_ok.mp hlengths, t, i, hfind, hsized, htran, by rw [hindices]; exact nofun, hrown, hroom⟩
    · cases h
    · cases h
      exact absurd rfl hrow

end Store

/-! ### In a database -/

theorem insertRow_same (cfg : Config) (db : Db) (gp : GidPair) (indices : List Nat) (values : List Datum) :
    (∃ db' m, insertRow cfg db gp none indices values = .ok (db', .sequenceOverflow, some m))
      ∨ ∀ leftover, insertRow cfg db gp leftover indices values = insertRow cfg db gp none indices values := by
  unfold insertRow
  cases halloc : meshAllocRow cfg db gp with
  | error e => exact .inr fun _ => rfl
  | ok out =>
      obtain ⟨db₁, tail, row⟩ := out
      cases row with
      | none => exact .inr fun _ => rfl
      | some m =>
          simp only [bind, Except.bind, pure, Except.pure]
          by_cases hvalid : mitorIsValid db₁ m
          · by_cases hpure : (db₁.pages m.gp.data).content = .pure
            · exact .inr fun _ => by simp [titorIsValid, hvalid, hpure]
            · exact .inl ⟨db₁, m, by simp [titorIsValid, hvalid, hpure]⟩
          · exact .inr fun _ => by simp [hvalid]

theorem status_insertRow {cfg : Config} {db db' : Db} {gp : GidPair} {leftover : Option Tran} {indices : List Nat}
    {values : List Datum} {status : ScrcStatus}
    (h : insertRow cfg db gp leftover indices values = .ok (db', status, none)) : status = .sequenceOverflow := by
  obtain ⟨⟨db₁, tail, row⟩, -, h⟩ := bind_eq_ok.mp h
  cases row with
  | none =>
      cases h
      rfl
  | some m =>
      dsimp only at h
      split at h
      · cases h
        rfl
      · split at h
        · cases h
        · obtain ⟨⟨db₂, filled⟩, -, h⟩ := bind_eq_ok.mp h
          cases h

theorem status_putTranIfNone {cfg : Config} {ts ts' : TranState} {session session' : Session} {status : ScrcStatus}
    (h : putTranIfNone cfg ts session = .ok (ts', session', status)) : status = .ok ∨ status = .sequenceOverflow := by
  unfold putTranIfNone at h
  split at h
  · unfold tranPut at h
    split at h
    · obtain ⟨_, -, h⟩ := bind_eq_ok.mp h
      cases h
    · split at h
      · obtain ⟨_, -, h⟩ := bind_eq_ok.mp h
        cases h
      · obtain ⟨next, -, h⟩ := bind_eq_ok.mp h
        cases next with
        | none =>
            cases h
            exact .inr rfl
        | some next =>
            obtain ⟨flags, -, h⟩ := bind_eq_ok.mp h
            cases h
            exact .inl rfl
  · cases h
    exact .inl rfl

section

variable {cfg : Config} {db db' : Db} {session session' : Session} {schema table : List UInt8}
  {names : List (List UInt8)} {values : List Datum} {leftover : Option Tran} {status : ScrcStatus} {row : Option Mitor}

/-- An `INSERT` ends in front of `table_alloc_row`, or goes on there with the iterator. -/
theorem insert_cases (cfg : Config) (db : Db) (session : Session) (schema table : List UInt8)
    (names : List (List UInt8)) (values : List Datum) :
    (∃ result : Except Fault (Db × Session × ScrcStatus × Option Mitor),
      (∀ leftover, insert cfg db session schema table names values .mvcc leftover = result)
      ∧ ∀ db' session' status row, result = .ok (db', session', status, row) →
          row = none ∧ status ≠ .ok ∧ status ≠ .datumTypeMismatch)
    ∨ ∃ db₁ gp session₁ indices values',
        ∀ leftover, insert cfg db session schema table names values .mvcc leftover = (do
          let (db, status, row) ← insertRow cfg db₁ gp leftover indices values'
          return (db, session₁, status, row)) := by
  unfold insert
  cases hfind : findRelation cfg db session schema table true true with
  | error e => exact .inl ⟨.error e, fun _ => rfl, fun _ _ _ _ h => by cases h⟩
  | ok found =>
      obtain ⟨db₁, gp⟩ := found
      cases hlengths : cfg.build.assert (names.length = values.length) with
      | error e => exact .inl ⟨.error e, fun _ => rfl, fun _ _ _ _ h => by cases h⟩
      | ok _ =>
          simp only [bind, Except.bind]
          by_cases hundef : gp.header = .undef
          · simp only [if_pos hundef]
            refine .inl ⟨.ok (db₁, session, .unknownRelation, none), fun _ => rfl, ?_⟩
            rintro db' session' status row heq
            cases heq
            exact ⟨rfl, by decide, by decide⟩
          · simp only [if_neg hundef]
            cases hdata : cfg.build.assert (gp.data ≠ .undef) with
            | error e => exact .inl ⟨.error e, fun _ => rfl, fun _ _ _ _ h => by cases h⟩
            | ok _ =>
                cases hput : putTranIfNone cfg db₁.trans session with
                | error e => exact .inl ⟨.error e, fun _ => rfl, fun _ _ _ _ h => by cases h⟩
                | ok out =>
                    obtain ⟨ts, session₁, status⟩ := out
                    rcases status_putTranIfNone hput with rfl | rfl
                    · cases htran : session₁.tran with
                      | none => exact .inl ⟨.error .nullPointer, fun _ => by simp only [htran],
                          fun _ _ _ _ h => by cases h⟩
                      | some tran =>
                          simp only [htran]
                          cases hindices : columnIndices (db₁.pages gp.header) (names ++ [tminName, tmaxName]) with
                          | none =>
                              refine .inl ⟨.ok ({ db₁ with trans := ts }, session₁, .unknownColumn, none),
                                fun _ => rfl, ?_⟩
                              rintro db' session' status row heq
                              cases heq
                              exact ⟨rfl, by decide, by decide⟩
                          | some indices => exact .inr ⟨_, _, _, _, _, fun _ => rfl⟩
                    · refine .inl ⟨.ok ({ db₁ with trans := ts }, session₁, .sequenceOverflow, none),
                        fun _ => rfl, ?_⟩
                      rintro db' session' status row heq
                      cases heq
                      exact ⟨rfl, by decide, by decide⟩

theorem insert_same :
    (∃ db' session' m, insert cfg db session schema table names values .mvcc none
        = .ok (db', session', .sequenceOverflow, some m))
      ∨ ∀ leftover, insert cfg db session schema table names values .mvcc leftover
        = insert cfg db session schema table names values .mvcc none := by
  rcases insert_cases cfg db session schema table names values with
    ⟨result, hresult, -⟩ | ⟨db₁, gp, session₁, indices, values', hrow⟩
  · exact .inr fun leftover => (hresult leftover).trans (hresult none).symm
  · rcases insertRow_same cfg db₁ gp indices values' with ⟨db', m, hinsert⟩ | hsame
    · refine .inl ⟨db', session₁, m, ?_⟩
      rw [hrow, hinsert]
      rfl
    · refine .inr fun leftover => ?_
      rw [hrow, hrow, hsame]

theorem row_of_status
    (h : insert cfg db session schema table names values .mvcc leftover = .ok (db', session', status, row))
    (hstatus : status = .ok ∨ status = .datumTypeMismatch) : row ≠ none := by
  rintro rfl
  rcases insert_cases cfg db session schema table names values with
    ⟨result, hresult, hends⟩ | ⟨db₁, gp, _, indices, _, hrow⟩
  · obtain ⟨-, hok, hmismatch⟩ := hends _ _ _ _ ((hresult leftover).symm.trans h)
    exact hstatus.elim hok hmismatch
  · rw [hrow] at h
    obtain ⟨⟨db₂, status', row⟩, hinsert, h⟩ := bind_eq_ok.mp h
    cases h
    rw [status_insertRow hinsert] at hstatus
    exact hstatus.elim nofun nofun

namespace Db

/-- **What an `INSERT` does depends on the stack exactly if it gets a row.** -/
theorem insertsAlike_iff (h : db.Laid cfg) (hissued : db.sequence.issued + 1 < 2 ^ 40) :
    db.InsertsAlike cfg session schema table names values ↔
      ¬ db.store.Gets cfg session schema table names values := by
  have hagrees : ∀ leftover, Agrees (Inserts schema table)
      (insert cfg db session schema table names values .mvcc leftover)
      (db.store.insert cfg session schema table names values leftover) := fun leftover => insert_agrees h hissued
  constructor
  · rintro ⟨hsame, -⟩ hgets
    obtain ⟨store', session₁, n, hnone⟩ := Store.insert_none_of_gets h.catalog hgets
    obtain ⟨⟨db₁, session₂, status, m⟩, hinsert, heq⟩ := (hnone ▸ hagrees none).of_ok_right
    have hstatus : status = .sequenceOverflow := (congrArg Reply.status heq.reply).symm
    rw [hsame none (some ⟨0, true⟩)] at hinsert
    obtain ⟨⟨store'', session₃, reply⟩, hsome, heq'⟩ := (hinsert ▸ hagrees (some ⟨0, true⟩)).of_ok
    have hreply : reply.status = status := congrArg Reply.status heq'.reply
    exact Store.status_insert_some_of_gets h.catalog hgets hsome (hreply.trans hstatus)
  · intro hgets
    have hnone : ∀ leftover db' session' status row,
        insert cfg db session schema table names values .mvcc leftover = .ok (db', session', status, row) → row = none := by
      intro leftover db' session' status row hinsert
      by_contra hrow
      obtain ⟨⟨store', session₁, reply⟩, hstore, heq⟩ := (hinsert ▸ hagrees leftover).of_ok
      refine hgets (Store.gets_of_inserted h.catalog hstore ?_)
      rw [show reply.inserted = _ from congrArg Reply.inserted heq.reply]
      exact fun hmap => hrow (Option.map_eq_none_iff.mp hmap)
    have hsame : ∀ leftover, insert cfg db session schema table names values .mvcc leftover
        = insert cfg db session schema table names values .mvcc none := by
      rcases @insert_same cfg db session schema table names values with ⟨db', session', m, hinsert⟩ | hsame
      · cases hnone none db' session' _ _ hinsert
      · exact hsame
    refine ⟨fun leftover leftover' => (hsame leftover).trans (hsame leftover').symm, ?_⟩
    intro leftover db' session' status row hinsert
    have hrow := hnone leftover db' session' status row hinsert
    exact iff_of_false (not_not.mpr hrow) fun hstatus => row_of_status hinsert hstatus hrow

end Db

end

namespace Execute

end Execute

end Scroller
