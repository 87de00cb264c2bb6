import Scroller.Proof.RowValues
import Scroller.Proof.ScanCommands

/-!
# What becomes of an INSERT

An `INSERT` is whole if it is answered with `SCRS_OK` and put one row with the given values, or with an error
and changed nothing that a transaction sees.
-/

namespace Scroller

open Outcome

/-! ### What transactions see -/

/-- A scan through a transaction does not pass over a row. -/
def Tran.sees (cfg : Config) (flags : Int64 → TranFlag) (tran : Tran) (row : Row) : Bool :=
  tranRowIsVisible cfg flags tran row.tmin row.tmax ≠ .ok false

/-- What comes behind the elements of a list with one property comes behind those with the other. -/
theorem mem_of_filter_append {α : Type} {p q : α → Bool} {l s t : List α} {a : α}
    (h : l.filter q ++ s = l.filter p ++ t) (ha : a ∈ s) (hq : q a = true) : a ∈ t := by
  classical
  have hle : (l.filter p).count a ≤ (l.filter q).count a := by
    rw [List.count_filter hq]
    exact List.Sublist.count_le a List.filter_sublist
  have hcount := congrArg (List.count a) h
  rw [List.count_append, List.count_append] at hcount
  have hpos : 0 < s.count a := List.count_pos_iff.mpr ha
  apply List.count_pos_iff.mp
  omega

/-- A list that keeps its beginning and gets one new element for at most one old one has the same elements with
a property where each of the two parts has. -/
theorem filter_displaced_iff {α : Type} {p q : α → Bool} {kept dropped : List α} {a : α}
    (hdropped : dropped.length ≤ 1) :
    (kept ++ [a]).filter q = (kept ++ dropped).filter p ↔
      (∀ b ∈ kept, q b = p b) ∧ [a].filter q = dropped.filter p := by
  rw [List.filter_append, List.filter_append]
  constructor
  · intro h
    have hlength : ([a].filter q).length = (dropped.filter p).length := by
      have hnew : ([a].filter q).length ≤ 1 := List.length_filter_le q [a]
      have hold : (dropped.filter p).length ≤ 1 := (List.length_filter_le p dropped).trans hdropped
      have hiff : ([a].filter q) = [] ↔ (dropped.filter p) = [] := by
        rw [List.eq_nil_iff_forall_not_mem, List.eq_nil_iff_forall_not_mem]
        constructor
        · intro hnil b hb
          exact hnil b (mem_of_filter_append h.symm hb (List.mem_filter.mp hb).2)
        · intro hnil b hb
          exact hnil b (mem_of_filter_append h hb (List.mem_filter.mp hb).2)
      rw [← List.length_eq_zero_iff, ← List.length_eq_zero_iff] at hiff
      omega
    obtain ⟨hkept, hlast⟩ := List.append_inj' h hlength
    refine ⟨fun b hb => ?_, hlast⟩
    have hmem : b ∈ kept.filter q ↔ b ∈ kept.filter p := by rw [hkept]
    rw [List.mem_filter, List.mem_filter, and_iff_right hb, and_iff_right hb] at hmem
    exact Bool.eq_iff_iff.mpr hmem
  · rintro ⟨hkept, hlast⟩
    rw [List.filter_congr hkept, hlast]

/-! ### Transactions -/

/-- The session has a transaction, or its catalog can number one that has a flag. -/
def Session.HasTran (cfg : Config) (ts : TranState) (session : Session) : Prop :=
  session.tran = none → ∃ key, session.nextKey ts = some key ∧ 0 ≤ key ∧ key.toInt < cfg.tranCapacity

/-- The flags once the session has its transaction. -/
def Session.flags (session : Session) (ts : TranState) : Int64 → TranFlag :=
  match session.tran, session.nextKey ts with
  | none, some key => Function.update ts.flags key .commited
  | _, _ => ts.flags

theorem nextKey_eq_some {ts : TranState} {session : Session} {key : Int64} :
    session.nextKey ts = some key ↔ ∃ row i s, ts.catalogRow session = some (row, i)
      ∧ row.tranSequence = some s ∧ s.next = key := by
  unfold Session.nextKey
  cases hrow : ts.catalogRow session with
  | none => simp
  | some found =>
      obtain ⟨row, i⟩ := found
      cases hsequence : row.tranSequence with
      | none => simp [hsequence]
      | some s => simp [hsequence]

theorem putTranIfNone_of_hasTran {cfg : Config} {ts : TranState} {session : Session} (hts : ts.Plain)
    (h : session.HasTran cfg ts) :
    ∃ ts' session' tran, putTranIfNone cfg ts session = .ok (ts', session', .ok)
      ∧ session'.tran = some tran ∧ session.key ts = some tran.key ∧ ts'.flags = session.flags ts := by
  cases htran : session.tran with
  | some tran =>
      refine ⟨ts, session, tran, ?_, htran, ?_, ?_⟩
      · rw [putTranIfNone, if_neg (by simp [htran])]
        rfl
      · rw [Session.key, htran]
      · rw [Session.flags, htran]
  | none =>
      obtain ⟨key, hkey, hnonneg, hlt⟩ := h htran
      obtain ⟨row, i, s, hrow, hsequence, rfl⟩ := nextKey_eq_some.mp hkey
      have hplain := hts row (List.mem_of_getElem? (catalogRow_eq_some hrow)) s hsequence
      obtain ⟨s', hnext, -, -, hvalue⟩ :=
        hplain.nextval_ok cfg.build (hplain.issued_of_next hnonneg)
      have hput : tranFlagPut cfg ts.flags s.next .commited
          = .ok (Function.update ts.flags s.next .commited) := by
        rw [tranFlagPut, Build.assert_of _ (Sequence.next_pos hvalue)]
        exact if_pos ⟨hnonneg, hlt⟩
      refine ⟨{ ts.setCatalogRow i { row with tranSequence := some s' } with
        flags := Function.update ts.flags s.next .commited },
        { session with tran := some ⟨s.next, true⟩ }, ⟨s.next, true⟩, ?_, rfl, ?_, ?_⟩
      · rw [putTranIfNone, if_pos htran, tranPut, hrow]
        dsimp only
        rw [hsequence]
        dsimp only
        rw [hnext]
        change (do
          let flags ← tranFlagPut cfg ts.flags s.next .commited
          _) = _
        rw [hput]
        rfl
      · rw [Session.key, htran]
        exact hkey
      · rw [Session.flags, htran, hkey]

theorem putTranIfNone_of_not_hasTran {cfg : Config} {ts : TranState} {session : Session} (hts : ts.Plain)
    (h : ¬ session.HasTran cfg ts) : ∃ e, putTranIfNone cfg ts session = .error e := by
  obtain ⟨htran, hkey⟩ := Classical.not_imp.mp h
  have habort : ∃ e, (do
      cfg.build.assert False
      .error .outOfBounds : Except Fault (TranState × Session × ScrcStatus)) = .error e := by
    cases cfg.build with
    | debug => exact ⟨_, rfl⟩
    | release => exact ⟨_, rfl⟩
  rw [putTranIfNone, if_pos htran, tranPut]
  cases hrow : ts.catalogRow session with
  | none => exact habort
  | some found =>
      obtain ⟨row, i⟩ := found
      dsimp only
      cases hsequence : row.tranSequence with
      | none => exact habort
      | some s =>
          have hplain := hts row (List.mem_of_getElem? (catalogRow_eq_some hrow)) s hsequence
          dsimp only
          cases hnext : sequenceNextval cfg.build s with
          | error e => exact ⟨e, rfl⟩
          | ok out =>
              obtain ⟨s', rfl, -, -, hvalue⟩ := (Sequence.nextval_ensures (F := fun _ => True)
                (fun _ _ => True.intro) hplain).of_ok hnext
              have hput : tranFlagPut cfg ts.flags s.next .commited = .error .outOfBounds := by
                rw [tranFlagPut, Build.assert_of _ (Sequence.next_pos hvalue)]
                apply if_neg
                rintro ⟨hnonneg, hlt⟩
                exact hkey ⟨s.next, nextKey_eq_some.mpr ⟨row, i, s, hrow, hsequence, rfl⟩, hnonneg, hlt⟩
              refine ⟨.outOfBounds, ?_⟩
              change (do
                let flags ← tranFlagPut cfg ts.flags s.next .commited
                _) = _
              rw [hput]
              rfl

/-! ### Whole inserts -/

/-- The rows of a table. -/
def Relation.rows (t : Relation) : List Row := (t.data.map Mesh.rows).getD []

def Store.rowsOf (store : Store) (i : Nat) : List Row := (store.relations[i]?.map Relation.rows).getD []

/-- A row of a transaction that holds the values that a command names. -/
structure Row.IsGiven (cfg : Config) (header : Grid) (names : List (List UInt8)) (values : List Datum)
    (key : Int64) (row : Row) : Prop where
  tmin : row.tmin = key
  tmax : row.tmax = tranInvalidId
  named : ∀ (k : Nat) name, names[k]? = some name → ∃ value column, values[k]? = some value
    ∧ hgridGetColumnIdx header name = some column
    ∧ (header.columns column).ReadsAs cfg.build (row column) value

/-- One of the given values does not fit its column. -/
def Relation.Misfit (t : Relation) (names : List (List UInt8)) (values : List Datum) : Prop :=
  ∃ indices, columnIndices t.header (names ++ [tminName, tmaxName]) = some indices
    ∧ ¬ AllFit t.header (indices.zip values)

/-- What became of a table is whole: it got one row, or no transaction sees a change; a mismatch is one of a
given value. -/
def Relation.Whole (cfg : Config) (t : Relation) (flags : Int64 → TranFlag) (names : List (List UInt8))
    (values : List Datum) (status : ScrcStatus) (flags' : Int64 → TranFlag) (rows' : List Row)
    (tran' : Option Tran) : Prop :=
  if status = .ok then
    ∃ row tran, tran' = some tran ∧ rows' = t.rows ++ [row] ∧ row.IsGiven cfg t.header names values tran.key
  else
    (∀ tran : Tran, tran.key ≠ tranInvalidId →
      rows'.filter (tran.sees cfg flags') = t.rows.filter (tran.sees cfg flags))
    ∧ (status = .datumTypeMismatch → t.Misfit names values)

/-- An `INSERT` returns, with an error where there is no table, and what became of the table is whole. -/
def Db.InsertsWhole (cfg : Config) (db : Db) (session : Session) (schema table : List UInt8)
    (names : List (List UInt8)) (values : List Datum) (leftover : Option Tran) : Prop :=
  ∃ db' session' status row,
    insert cfg db session schema table names values .mvcc leftover = .ok (db', session', status, row)
    ∧ match db.store.find session schema table with
      | none => status ≠ .ok
      | some (t, i) => t.Whole cfg db.trans.flags names values status db'.trans.flags (db'.store.rowsOf i)
          session'.tran

/-! ### When an insert is whole -/

/-- The mesh that an `INSERT` starts from. -/
def Relation.mesh (cfg : Config) (t : Relation) : Mesh Row :=
  t.data.getD ⟨cfg.rowsOnPage t.header, false, []⟩

/-- No transaction notices the flag of the session's transaction. -/
def Relation.Steady (cfg : Config) (ts : TranState) (session : Session) (rows : List Row) : Prop :=
  ∀ row ∈ rows, ∀ tran : Tran, tran.key ≠ tranInvalidId →
    tran.sees cfg (session.flags ts) row = tran.sees cfg ts.flags row

/-- No transaction notices that a row comes behind those of the first page, in the place of the one there. -/
structure Relation.Unnoticed (cfg : Config) (t : Relation) (ts : TranState) (session : Session) (row : Row) :
    Prop where
  kept : Steady cfg ts session (t.rows.take (t.mesh cfg).rown)
  last : ∀ tran : Tran, tran.key ≠ tranInvalidId → [row].filter (tran.sees cfg (session.flags ts))
    = (t.rows.drop (t.mesh cfg).rown).filter (tran.sees cfg ts.flags)

/-- The data that are put into a row, with their columns. -/
def putPairs (indices : List Nat) (values : List Datum) (key : Int64) : List (Nat × Datum) :=
  indices.zip (values ++ [makeTranid key, makeTranid tranInvalidId])

/-- The values stay what they are in their columns. -/
structure Relation.Keeps (cfg : Config) (t : Relation) (names : List (List UInt8)) (values : List Datum)
    (key : Int64) (pairs : List (Nat × Datum)) : Prop where
  enough : names.length ≤ values.length
  tmin : (lastGiven pairs tminIdx).map Datum.integer = some key
  tmax : (lastGiven pairs tmaxIdx).map Datum.integer = some tranInvalidId
  named : ∀ (k : Nat) name value column, names[k]? = some name → values[k]? = some value →
    hgridGetColumnIdx t.header name = some column → ∃ last, lastGiven pairs column = some last
      ∧ (t.header.columns column).ReadsAs cfg.build ((t.header.columns column).put last) value

/-- A row can be put into a table, or the attempt goes unnoticed. -/
structure Relation.TakesRow (cfg : Config) (t : Relation) (ts : TranState) (session : Session)
    (names : List (List UInt8)) (values : List Datum) (leftover : Option Tran) (indices : List Nat)
    (key : Int64) : Prop where
  null : leftover = none → t.Unnoticed cfg ts session Row.zero
  misfit : leftover ≠ none → ¬ AllFit t.header (putPairs indices values key) →
    cfg.build = .release ∧ t.Misfit names values
      ∧ t.Unnoticed cfg ts session (written t.header (fitting t.header (putPairs indices values key)))
  fit : leftover ≠ none → AllFit t.header (putPairs indices values key) →
    t.rows.length ≤ (t.mesh cfg).rown ∧ t.Keeps cfg names values key (putPairs indices values key)

/-- The condition on a table. -/
structure Relation.Takes (cfg : Config) (t : Relation) (ts : TranState) (session : Session)
    (names : List (List UInt8)) (values : List Datum) (leftover : Option Tran) : Prop where
  sized : t.data = none → hgridGetRowSize t.header % 2 ^ 16 ≠ 0
  tran : session.HasTran cfg ts
  unknown : columnIndices t.header (names ++ [tminName, tmaxName]) = none → Steady cfg ts session t.rows
  room : columnIndices t.header (names ++ [tminName, tmaxName]) ≠ none → cfg.build = .debug →
    (t.mesh cfg).rown ≤ t.rows.length → (t.mesh cfg).extended = false
  row : ∀ indices key, columnIndices t.header (names ++ [tminName, tmaxName]) = some indices →
    session.key ts = some key → (t.mesh cfg).rown ≠ 0 →
    t.TakesRow cfg ts session names values leftover indices key

/-- A command that is whole. -/
structure Store.Takes (cfg : Config) (store : Store) (session : Session) (schema table : List UInt8)
    (names : List (List UInt8)) (values : List Datum) (leftover : Option Tran) : Prop where
  lengths : cfg.build = .debug → names.length = values.length
  table : ∀ t i, store.find session schema table = some (t, i) →
    t.Takes cfg store.trans session names values leftover

/-! ### The given values -/

section Keeps

variable {cfg : Config} {t : Relation} {names : List (List UInt8)} {values : List Datum} {key : Int64}
  {indices : List Nat}

theorem putPairs_getElem? {k column : Nat} {name : List UInt8}
    (hlength : names.length ≤ values.length)
    (hindices : columnIndices t.header (names ++ [tminName, tmaxName]) = some indices)
    (hname : (names ++ [tminName, tmaxName])[k]? = some name)
    (hcolumn : hgridGetColumnIdx t.header name = some column) :
    ∃ datum, (putPairs indices values key)[k]? = some (column, datum) := by
  obtain ⟨-, hget⟩ := columnIndices_spec hindices
  obtain ⟨column', hcolumn', hindex⟩ := hget k name hname
  obtain rfl : column = column' := Option.some_injective _ (hcolumn.symm.trans hcolumn')
  have hk : k < (values ++ [makeTranid key, makeTranid tranInvalidId]).length := by
    have := (List.getElem?_eq_some_iff.mp hname).1
    simp only [List.length_append, List.length_cons, List.length_nil] at this ⊢
    omega
  refine ⟨(values ++ [makeTranid key, makeTranid tranInvalidId])[k], ?_⟩
  rw [putPairs, List.getElem?_zip_eq_some]
  exact ⟨hindex, List.getElem?_eq_getElem hk⟩

/-- What is read from a version column is the last datum given for it. -/
theorem integer_written {pairs : List (Nat × Datum)} {column : Nat} {v : Int64}
    (htype : (t.header.columns column).type = tTranid) (hlast : ∃ last, lastGiven pairs column = some last) :
    (written t.header pairs column).integer = v ↔ (lastGiven pairs column).map Datum.integer = some v := by
  obtain ⟨last, hlast⟩ := hlast
  rw [written_of_lastGiven hlast, Column.put, htype, hlast, Option.map_some, Option.some_inj]
  rfl

/-- The data given for a row are kept exactly when it is the row that was meant. -/
theorem isGiven_written_iff (hheader : t.header.HeaderPage)
    (hindices : columnIndices t.header (names ++ [tminName, tmaxName]) = some indices)
    (hlength : names.length ≤ values.length) :
    (written t.header (putPairs indices values key)).IsGiven cfg t.header names values key ↔
      t.Keeps cfg names values key (putPairs indices values key) := by
  have hgiven : ∀ (k : Nat) name column, (names ++ [tminName, tmaxName])[k]? = some name →
      hgridGetColumnIdx t.header name = some column →
      ∃ last, lastGiven (putPairs indices values key) column = some last := by
    intro k name column hname hcolumn
    obtain ⟨datum, hpair⟩ : ∃ datum, (putPairs indices values key)[k]? = some (column, datum) :=
      putPairs_getElem? hlength hindices hname hcolumn
    exact exists_lastGiven hpair
  have htmin := integer_written (v := key) hheader.tminType
    (hgiven names.length tminName tminIdx (by simp) hheader.findTmin)
  have htmax := integer_written (v := tranInvalidId) hheader.tmaxType
    (hgiven (names.length + 1) tmaxName tmaxIdx (by simp) hheader.findTmax)
  have hfirst : ∀ (k : Nat) name, names[k]? = some name →
      (names ++ [tminName, tmaxName])[k]? = some name := by
    intro k name hname
    rwa [List.getElem?_append_left (List.getElem?_eq_some_iff.mp hname).1]
  constructor
  · intro h
    refine ⟨hlength, htmin.mp h.tmin, htmax.mp h.tmax, fun k name value column hname hvalue hcolumn => ?_⟩
    obtain ⟨value', column', hvalue', hcolumn', hholds⟩ := h.named k name hname
    obtain rfl : value = value' := Option.some_injective _ (hvalue.symm.trans hvalue')
    obtain rfl : column = column' := Option.some_injective _ (hcolumn.symm.trans hcolumn')
    obtain ⟨last, hlast⟩ := hgiven k name column (hfirst k name hname) hcolumn
    rw [written_of_lastGiven hlast] at hholds
    exact ⟨last, hlast, hholds⟩
  · intro h
    refine ⟨htmin.mpr h.tmin, htmax.mpr h.tmax, fun k name hname => ?_⟩
    obtain ⟨column, hcolumn, -⟩ := (columnIndices_spec hindices).2 k name (hfirst k name hname)
    have hk : k < values.length := Nat.lt_of_lt_of_le (List.getElem?_eq_some_iff.mp hname).1 hlength
    have hvalue := List.getElem?_eq_getElem hk
    obtain ⟨last, hlast, hholds⟩ := h.named k name _ column hname hvalue hcolumn
    rw [← written_of_lastGiven hlast] at hholds
    exact ⟨_, column, hvalue, hcolumn, hholds⟩

end Keeps

/-! ### Whole or not -/

section

variable {cfg : Config} {t : Relation} {ts : TranState} {session : Session} {names : List (List UInt8)}
  {values : List Datum} {status : ScrcStatus}

theorem rows_mesh (cfg : Config) (t : Relation) : (t.mesh cfg).rows = t.rows := by
  unfold Relation.mesh Relation.rows
  cases t.data <;> rfl

/-- A failed `INSERT` that left the rows alone. -/
theorem whole_same_iff {tran' : Option Tran} (hok : status ≠ .ok) (hmismatch : status ≠ .datumTypeMismatch) :
    t.Whole cfg ts.flags names values status (session.flags ts) t.rows tran' ↔
      Relation.Steady cfg ts session t.rows := by
  rw [Relation.Whole, if_neg hok, and_iff_left fun h => absurd h hmismatch]
  constructor
  · intro h row hrow tran hkey
    have hmem : row ∈ t.rows.filter (tran.sees cfg (session.flags ts))
        ↔ row ∈ t.rows.filter (tran.sees cfg ts.flags) := by rw [h tran hkey]
    rw [List.mem_filter, List.mem_filter, and_iff_right hrow, and_iff_right hrow] at hmem
    exact Bool.eq_iff_iff.mpr hmem
  · intro h tran hkey
    exact List.filter_congr fun row hrow => h row hrow tran hkey

/-- A failed `INSERT` that left a row behind. -/
theorem whole_left_iff {row : Row} {tran' : Option Tran} (hok : status ≠ .ok)
    (hrows : t.rows.length ≤ (t.mesh cfg).rown + 1) :
    t.Whole cfg ts.flags names values status (session.flags ts)
        (t.rows.take (t.mesh cfg).rown ++ [row]) tran' ↔
      t.Unnoticed cfg ts session row ∧ (status = .datumTypeMismatch → t.Misfit names values) := by
  have hdropped : (t.rows.drop (t.mesh cfg).rown).length ≤ 1 := by
    rw [List.length_drop]
    omega
  have hparts : ∀ tran : Tran,
      (t.rows.take (t.mesh cfg).rown ++ [row]).filter (tran.sees cfg (session.flags ts))
        = t.rows.filter (tran.sees cfg ts.flags) ↔
      (∀ b ∈ t.rows.take (t.mesh cfg).rown, tran.sees cfg (session.flags ts) b = tran.sees cfg ts.flags b)
        ∧ [row].filter (tran.sees cfg (session.flags ts))
          = (t.rows.drop (t.mesh cfg).rown).filter (tran.sees cfg ts.flags) := by
    intro tran
    rw [← filter_displaced_iff hdropped, List.take_append_drop]
  rw [Relation.Whole, if_neg hok]
  apply and_congr_left'
  constructor
  · intro h
    refine ⟨fun b hb tran hkey => ?_, fun tran hkey => ?_⟩
    · exact ((hparts tran).mp (h tran hkey)).1 b hb
    · exact ((hparts tran).mp (h tran hkey)).2
  · intro h tran hkey
    exact (hparts tran).mpr ⟨fun b hb => h.kept b hb tran hkey, h.last tran hkey⟩

/-- An `INSERT` that put a row. -/
theorem whole_put_iff {row : Row} {tran : Tran} {flags' : Int64 → TranFlag} :
    t.Whole cfg ts.flags names values .ok flags' (t.rows.take (t.mesh cfg).rown ++ [row]) (some tran) ↔
      t.rows.length ≤ (t.mesh cfg).rown ∧ row.IsGiven cfg t.header names values tran.key := by
  rw [Relation.Whole, if_pos rfl]
  constructor
  · rintro ⟨row', tran', htran, hrows, hgiven⟩
    cases htran
    obtain ⟨hkept, hrow⟩ := List.append_inj' hrows rfl
    cases hrow
    refine ⟨?_, hgiven⟩
    rw [← hkept, List.length_take]
    exact Nat.min_le_left _ _
  · rintro ⟨hroom, hgiven⟩
    exact ⟨row, tran, rfl, by rw [List.take_of_length_le hroom], hgiven⟩

end

namespace Store

variable {cfg : Config} {store : Store} {session : Session} {schema table : List UInt8}
  {names : List (List UInt8)} {values : List Datum} {leftover : Option Tran} {t : Relation} {i : Nat}

/-- The outcome of an `INSERT` into a store is whole. -/
def IsWhole (cfg : Config) (store : Store) (session : Session) (schema table : List UInt8)
    (names : List (List UInt8)) (values : List Datum) (out : Except Fault (Store × Session × Reply)) : Prop :=
  ∃ store' session' reply, out = .ok (store', session', reply)
    ∧ match store.find session schema table with
      | none => reply.status ≠ .ok
      | some (t, i) => t.Whole cfg store.trans.flags names values reply.status store'.trans.flags
          (store'.rowsOf i) session'.tran

theorem not_isWhole_error (e : Fault) :
    ¬ store.IsWhole cfg session schema table names values (.error e) := nofun

theorem isWhole_ok_iff (hfind : store.find session schema table = some (t, i)) {store' : Store}
    {session' : Session} {reply : Reply} :
    store.IsWhole cfg session schema table names values (.ok (store', session', reply)) ↔
      t.Whole cfg store.trans.flags names values reply.status store'.trans.flags (store'.rowsOf i)
        session'.tran := by
  constructor
  · rintro ⟨_, _, _, heq, h⟩
    cases heq
    rwa [hfind] at h
  · intro h
    refine ⟨store', session', reply, rfl, ?_⟩
    rwa [hfind]

theorem lt_of_find (hfind : store.find session schema table = some (t, i)) : i < store.relations.length := by
  have hmem := List.mem_zipIdx_iff_getElem?.mp (List.mem_of_find?_eq_some hfind)
  exact (List.getElem?_eq_some_iff.mp hmem).1

theorem rowsOf_setData (hi : i < store.relations.length) (t : Relation) (mesh : Mesh Row) :
    (store.setData i t mesh).rowsOf i = mesh.rows := by
  rw [rowsOf, setData, List.getElem?_set_self hi]
  rfl

theorem length_setData (t : Relation) (mesh : Mesh Row) :
    (store.setData i t mesh).relations.length = store.relations.length := List.length_set

theorem dataOrNew_of_sized (hsized : t.data = none → hgridGetRowSize t.header % 2 ^ 16 ≠ 0) :
    t.dataOrNew cfg = .ok (t.mesh cfg) := by
  unfold Relation.dataOrNew Relation.mesh
  cases hdata : t.data with
  | some mesh => rfl
  | none =>
      obtain ⟨grid, hinit⟩ : ∃ grid, dgridInit cfg.build cfg.pagesz .mvcc t.header = .ok grid :=
        dgridInit_of_rowSize .mvcc (hsized hdata)
      dsimp only
      rw [hinit]
      exact congrArg (fun rown => Except.ok (Mesh.mk rown false [])) (dgridInit_eq_ok hinit).2.2.1

theorem dataOrNew_of_not_sized (hdata : t.data = none) (hsize : hgridGetRowSize t.header % 2 ^ 16 = 0) :
    ∃ e, t.dataOrNew cfg = .error e := by
  rw [Relation.dataOrNew, hdata]
  cases hinit : dgridInit cfg.build cfg.pagesz .mvcc t.header with
  | error e => exact ⟨e, rfl⟩
  | ok grid => exact absurd hsize (rowSize_of_dgridInit hinit)

/-- An `INSERT` that gets to the columns of its table. -/
theorem insert_reached (hfind : store.find session schema table = some (t, i))
    (hsized : t.data = none → hgridGetRowSize t.header % 2 ^ 16 ≠ 0)
    (hlengths : cfg.build = .debug → names.length = values.length) {ts : TranState} {session' : Session}
    {tran : Tran} (hput : putTranIfNone cfg store.trans session = .ok (ts, session', .ok))
    (htran : session'.tran = some tran) :
    store.insert cfg session schema table names values leftover =
      match columnIndices t.header (names ++ [tminName, tmaxName]) with
      | none => .ok ({ store.setData i t (t.mesh cfg) with trans := ts }, session', .ofStatus .unknownColumn)
      | some indices => do
          let (mesh, status, n) ← (t.mesh cfg).insert cfg t.header leftover indices
            (values ++ [makeTranid tran.key, makeTranid tranInvalidId])
          return (setData { store.setData i t (t.mesh cfg) with trans := ts } i t mesh, session',
            ⟨status, n.map fun n => (i, n), []⟩) := by
  rw [insert, hfind]
  dsimp only
  rw [dataOrNew_of_sized hsized]
  simp only [bind, Except.bind, Build.assert_eq_ok.mpr hlengths, hput, htran]
  rfl

/-- The header of the table of a command is one, and at most one row of it is behind the first page. -/
structure Orderly (cfg : Config) (t : Relation) : Prop where
  header : t.header.HeaderPage
  rows : t.rows.length ≤ (t.mesh cfg).rown + 1
  empty : (t.mesh cfg).rown = 0 → t.rows = []

/-- An `INSERT` whose columns are unknown. -/
theorem isWhole_unknown {ts : TranState} {session' : Session}
    (hfind : store.find session schema table = some (t, i)) (hflags : ts.flags = session.flags store.trans) :
    store.IsWhole cfg session schema table names values
        (.ok ({ store.setData i t (t.mesh cfg) with trans := ts }, session', .ofStatus .unknownColumn)) ↔
      Relation.Steady cfg store.trans session t.rows := by
  have hrows : rowsOf { store.setData i t (t.mesh cfg) with trans := ts } i = t.rows :=
    (rowsOf_setData (lt_of_find hfind) t (t.mesh cfg)).trans (rows_mesh cfg t)
  rw [isWhole_ok_iff hfind, hrows]
  change t.Whole cfg _ names values .unknownColumn ts.flags t.rows _ ↔ _
  rw [hflags]
  exact whole_same_iff nofun nofun

/-- An `INSERT` that gets to the rows of its table. -/
theorem isWhole_insert {ts : TranState} {session' : Session} {tran : Tran} {indices : List Nat}
    (ht : Orderly cfg t) (hfind : store.find session schema table = some (t, i))
    (hflags : ts.flags = session.flags store.trans) (htran : session'.tran = some tran)
    (hindices : columnIndices t.header (names ++ [tminName, tmaxName]) = some indices) :
    store.IsWhole cfg session schema table names values (do
        let (mesh, status, n) ← (t.mesh cfg).insert cfg t.header leftover indices
          (values ++ [makeTranid tran.key, makeTranid tranInvalidId])
        return (setData { store.setData i t (t.mesh cfg) with trans := ts } i t mesh, session',
          ⟨status, n.map fun n => (i, n), []⟩)) ↔
      (cfg.build = .debug → (t.mesh cfg).rown ≤ t.rows.length → (t.mesh cfg).extended = false)
        ∧ ((t.mesh cfg).rown ≠ 0 →
          t.TakesRow cfg store.trans session names values leftover indices tran.key) := by
  have hmeshRows := rows_mesh cfg t
  have hlt : i < (store.setData i t (t.mesh cfg)).relations.length := by
    rw [length_setData]
    exact lt_of_find hfind
  have hwhole : ∀ (mesh : Mesh Row) (status : ScrcStatus) (n : Option (Nat × Nat)),
      store.IsWhole cfg session schema table names values
          (.ok (setData { store.setData i t (t.mesh cfg) with trans := ts } i t mesh, session',
            ⟨status, n, []⟩)) ↔
        t.Whole cfg store.trans.flags names values status (session.flags store.trans) mesh.rows
          (some tran) := by
    intro mesh status n
    have hrows : rowsOf (setData { store.setData i t (t.mesh cfg) with trans := ts } i t mesh) i
        = mesh.rows := rowsOf_setData hlt t mesh
    rw [isWhole_ok_iff hfind, hrows, htran, ← hflags]
    rfl
  have hcolumns : ∀ j ∈ indices, (t.header.columns j).type.group ≠ .unknown :=
    fun j hj => ht.header.types j (columnIndices_lt hindices j hj)
  by_cases hroom : cfg.build = .debug → (t.mesh cfg).rown ≤ t.rows.length → (t.mesh cfg).extended = false
  · rw [and_iff_right hroom]
    by_cases hzero : (t.mesh cfg).rown = 0
    · have halloc : (t.mesh cfg).insert cfg t.header leftover indices
            (values ++ [makeTranid tran.key, makeTranid tranInvalidId])
          = .ok ({ t.mesh cfg with extended := true }, .sequenceOverflow, none) := by
        have hassert : cfg.build.assert ((t.mesh cfg).extended = false) = .ok () :=
          Build.assert_eq_ok.mpr fun hdebug => hroom hdebug (hzero ▸ Nat.zero_le _)
        rw [Mesh.insert, Mesh.allocRow, if_neg (by omega), hassert, if_pos hzero]
        rfl
      rw [halloc]
      apply iff_of_true
      · refine (hwhole _ _ _).mpr ?_
        change t.Whole cfg _ names values _ _ (t.mesh cfg).rows _
        rw [hmeshRows]
        refine (whole_same_iff (by decide) (by decide)).mpr ?_
        rw [ht.empty hzero]
        intro row hrow
        cases hrow
      · exact fun hne => absurd hzero hne
    · rw [forall_prop_of_true hzero]
      obtain ⟨extended, n, hinsert⟩ := Mesh.insert_eq hcolumns (hmeshRows.symm ▸ hroom) hzero leftover
        (values ++ [makeTranid tran.key, makeTranid tranInvalidId])
      rw [hinsert, hmeshRows]
      by_cases hnull : leftover = none
      · rw [if_pos hnull]
        refine ((hwhole _ _ _).trans (whole_left_iff (by decide) ht.rows)).trans ?_
        rw [and_iff_left (by intro hne; cases hne)]
        exact ⟨fun h => ⟨fun _ => h, fun hne => absurd hnull hne, fun hne => absurd hnull hne⟩,
          fun h => h.null hnull⟩
      · rw [if_neg hnull]
        by_cases hfit : AllFit t.header (putPairs indices values tran.key)
        · rw [if_pos (show AllFit t.header (indices.zip _) from hfit)]
          have hlength : indices.length = names.length + 2 := by
            rw [(columnIndices_spec hindices).1, List.length_append]
            rfl
          by_cases henough : names.length ≤ values.length
          · rw [if_pos (by simp [hlength, henough])]
            refine ((hwhole _ _ _).trans whole_put_iff).trans ?_
            refine (and_congr_right' (isGiven_written_iff ht.header hindices henough)).trans ?_
            exact ⟨fun h => ⟨fun heq => absurd heq hnull, fun _ hmisfit => absurd hfit hmisfit, fun _ _ => h⟩,
              fun h => h.fit hnull hfit⟩
          · rw [if_neg (by simp [hlength, henough])]
            apply iff_of_false (not_isWhole_error _)
            exact fun h => henough (h.fit hnull hfit).2.enough
        · rw [if_neg (show ¬ AllFit t.header (indices.zip _) from hfit)]
          cases hbuild : cfg.build with
          | debug =>
              apply iff_of_false (not_isWhole_error _)
              intro h
              have hrelease := (h.misfit hnull hfit).1
              rw [hbuild] at hrelease
              cases hrelease
          | release =>
              refine ((hwhole _ _ _).trans (whole_left_iff (by decide) ht.rows)).trans ?_
              rw [forall_prop_of_true rfl]
              exact ⟨fun h => ⟨fun heq => absurd heq hnull, fun _ _ => ⟨hbuild, h.2, h.1⟩,
                fun _ hall => absurd hall hfit⟩,
                fun h => ⟨(h.misfit hnull hfit).2.2, (h.misfit hnull hfit).2.1⟩⟩
  · apply iff_of_false
    · obtain ⟨hdebug, hrest⟩ := Classical.not_imp.mp hroom
      obtain ⟨hfull, hextended⟩ := Classical.not_imp.mp hrest
      have hassert : cfg.build.assert ((t.mesh cfg).extended = false) = .error .assertion := by
        rw [hdebug]
        exact if_neg hextended
      rw [Mesh.insert, Mesh.allocRow, if_neg (by rw [hmeshRows]; omega), hassert]
      exact not_isWhole_error _
    · exact fun h => hroom h.1

/-- An `INSERT` into a store is whole exactly under its condition. -/
theorem isWhole_iff (hplain : store.trans.Plain)
    (horderly : ∀ t i, store.find session schema table = some (t, i) → Orderly cfg t) :
    store.IsWhole cfg session schema table names values
        (store.insert cfg session schema table names values leftover) ↔
      store.Takes cfg session schema table names values leftover := by
  have habort (h : ¬ (cfg.build = .debug → names.length = values.length)) :
      cfg.build.assert (names.length = values.length) = .error .assertion := by
    obtain ⟨hdebug, hne⟩ := Classical.not_imp.mp h
    rw [hdebug]
    exact if_neg hne
  cases hfind : store.find session schema table with
  | none =>
      rw [insert, hfind]
      dsimp only
      by_cases hlengths : cfg.build = .debug → names.length = values.length
      · rw [Build.assert_eq_ok.mpr hlengths]
        apply iff_of_true
        · refine ⟨_, _, _, rfl, ?_⟩
          rw [hfind]
          intro h
          cases h
        · refine ⟨hlengths, ?_⟩
          intro t i h
          cases hfind.symm.trans h
      · rw [habort hlengths]
        exact iff_of_false (not_isWhole_error _) fun h => hlengths h.lengths
  | some found =>
      obtain ⟨t, i⟩ := found
      have ht := horderly t i hfind
      have htakes : store.Takes cfg session schema table names values leftover ↔
          (cfg.build = .debug → names.length = values.length)
            ∧ t.Takes cfg store.trans session names values leftover := by
        refine ⟨fun h => ⟨h.lengths, h.table t i hfind⟩, fun h => ⟨h.1, fun t' i' hfind' => ?_⟩⟩
        cases hfind.symm.trans hfind'
        exact h.2
      rw [htakes]
      by_cases hsized : t.data = none → hgridGetRowSize t.header % 2 ^ 16 ≠ 0
      · by_cases hlengths : cfg.build = .debug → names.length = values.length
        · by_cases htran : session.HasTran cfg store.trans
          · obtain ⟨ts, session', tran, hput, htran', hkey, hflags⟩ := putTranIfNone_of_hasTran hplain htran
            rw [insert_reached hfind hsized hlengths hput htran', and_iff_right hlengths]
            cases hindices : columnIndices t.header (names ++ [tminName, tmaxName]) with
            | none =>
                refine (isWhole_unknown hfind hflags).trans ?_
                refine ⟨fun h => ⟨hsized, htran, fun _ => h, fun hne => absurd hindices hne,
                  fun _ _ hsome => ?_⟩, fun h => h.unknown hindices⟩
                cases hindices.symm.trans hsome
            | some indices =>
                refine (isWhole_insert ht hfind hflags htran' hindices).trans ?_
                constructor
                · rintro ⟨hroom, hrow⟩
                  refine ⟨hsized, htran, fun hnone => ?_, fun _ => hroom, fun indices' key hsome hkey' => ?_⟩
                  · cases hindices.symm.trans hnone
                  · cases hindices.symm.trans hsome
                    cases hkey.symm.trans hkey'
                    exact hrow
                · intro h
                  have hsome : columnIndices t.header (names ++ [tminName, tmaxName]) ≠ none := by
                    rw [hindices]
                    exact Option.some_ne_none indices
                  exact ⟨h.room hsome, h.row indices tran.key hindices hkey⟩
          · obtain ⟨e, hput⟩ := putTranIfNone_of_not_hasTran hplain htran
            apply iff_of_false
            · rw [insert, hfind]
              dsimp only
              rw [dataOrNew_of_sized hsized]
              simp only [bind, Except.bind, Build.assert_eq_ok.mpr hlengths, hput]
              exact not_isWhole_error e
            · exact fun h => htran h.2.tran
        · apply iff_of_false
          · rw [insert, hfind]
            dsimp only
            rw [dataOrNew_of_sized hsized]
            simp only [bind, Except.bind, habort hlengths]
            exact not_isWhole_error _
          · exact fun h => hlengths h.1
      · obtain ⟨hdata, hsize⟩ := Classical.not_imp.mp hsized
        obtain ⟨e, he⟩ : ∃ e, t.dataOrNew cfg = .error e := dataOrNew_of_not_sized hdata (not_not.mp hsize)
        apply iff_of_false
        · rw [insert, hfind]
          dsimp only
          rw [he]
          exact not_isWhole_error e
        · exact fun h => hsized h.2.sized

end Store

/-! ### In a database -/

namespace Db

variable {cfg : Config} {db : Db} {session : Session} {schema table : List UInt8}
  {names : List (List UInt8)} {values : List Datum} {leftover : Option Tran}

theorem insertsWhole_iff_store (h : db.Laid cfg) (hissued : db.sequence.issued + 1 < 2 ^ 40) :
    db.InsertsWhole cfg session schema table names values leftover ↔
      db.store.IsWhole cfg session schema table names values
        (db.store.insert cfg session schema table names values leftover) := by
  have hagrees : Agrees (Inserts schema table)
      (insert cfg db session schema table names values .mvcc leftover)
      (db.store.insert cfg session schema table names values leftover) := insert_agrees h hissued
  have htrans : ∀ db' : Db, db'.store.trans = db'.trans := fun _ => rfl
  constructor
  · rintro ⟨db', session', status, row, hinsert, hwhole⟩
    rw [hinsert] at hagrees
    obtain ⟨⟨store', session'', reply⟩, hstore, heq⟩ := hagrees.of_ok
    obtain rfl : store' = db'.store := heq.store
    obtain rfl : session'' = session' := heq.session
    obtain rfl : reply = ⟨status, row.map (db'.rowName session'' schema table), []⟩ := heq.reply
    exact ⟨_, _, _, hstore, hwhole⟩
  · rintro ⟨store', session', reply, hstore, hwhole⟩
    rw [hstore] at hagrees
    obtain ⟨⟨db', session'', status, row⟩, hinsert, heq⟩ := hagrees.of_ok_right
    obtain rfl : store' = db'.store := heq.store
    obtain rfl : session' = session'' := heq.session
    obtain rfl : reply = ⟨status, row.map (db'.rowName session' schema table), []⟩ := heq.reply
    exact ⟨_, _, _, _, hinsert, hwhole⟩

/-- The rows of a mesh are those of its first page and at most one more. -/
theorem length_rows_mesh {header : Grid} {gp : GidPair} (h : db.IsMesh cfg header gp.data) (hgp : gp.Apart) :
    (db.mesh gp.data).rows.length ≤ (db.mesh gp.data).rown + min 1 (db.mesh gp.data).rown := by
  have hle : (db.pages gp.data).occupied ≤ (db.mesh gp.data).rown := h.page.occupied
  rcases h.next with hlast | hsecond
  · rw [rows_mesh_of_last hlast, Grid.length_list]
    omega
  · have hrown : (db.pages gp.data.successor).rown = (db.mesh gp.data).rown :=
      hsecond.page.rown.trans h.page.rown.symm
    rw [rows_mesh_of_next hsecond.next hgp.successor_ne_undef, List.length_append, Grid.length_list,
      Grid.length_list, hsecond.single, hrown]
    omega

/-- The tables of a database in order are in order as lists of rows. -/
theorem orderly_of_tables (h : db.Tables cfg) (hissued : db.sequence.issued < 2 ^ 40) {t : Relation} {i : Nat}
    (hfind : db.store.find session schema table = some (t, i)) : Store.Orderly cfg t := by
  rw [find_store] at hfind
  obtain ⟨⟨row, i⟩, hfound, heq⟩ := Option.map_eq_some_iff.mp hfind
  cases heq
  have htable := h.table i row (relationRow_eq_some hfound)
  by_cases hdata : row.dataGid = 0
  · have hnone : (db.relationOf row).data = none := if_pos hdata
    have hrows : (db.relationOf row).rows = [] := by
      rw [Relation.rows, hnone]
      rfl
    refine ⟨htable.header, ?_, fun _ => hrows⟩
    rw [hrows]
    exact Nat.zero_le _
  · obtain ⟨-, hmesh⟩ := htable.data hdata
    have hgp := htable.apart hissued hdata
    have hsome : (db.relationOf row).data = some (db.mesh row.data) := relationOf_of_data hdata
    have hrows : (db.relationOf row).rows = (db.mesh row.data).rows := by
      rw [Relation.rows, hsome]
      rfl
    have hmeshOf : (db.relationOf row).mesh cfg = db.mesh row.data := by
      rw [Relation.mesh, hsome]
      rfl
    have hlength : (db.mesh row.data).rows.length
        ≤ (db.mesh row.data).rown + min 1 (db.mesh row.data).rown := length_rows_mesh hmesh hgp
    refine ⟨htable.header, ?_, fun hzero => ?_⟩
    · rw [hrows, hmeshOf]
      omega
    · rw [hmeshOf] at hzero
      rw [hrows, ← List.length_eq_zero_iff]
      omega

/-- **An `INSERT` is all or nothing exactly under the condition of its store.** -/
theorem insertsWhole_iff (h : db.Laid cfg) (hissued : db.sequence.issued + 1 < 2 ^ 40) :
    db.InsertsWhole cfg session schema table names values leftover ↔
      db.store.Takes cfg session schema table names values leftover := by
  rw [insertsWhole_iff_store h hissued]
  apply Store.isWhole_iff h.catalog
  intro t i hfind
  exact orderly_of_tables (h.tables (by omega)) (by omega) hfind

end Db

namespace Execute

theorem typed_createT : ∀ r ∈ [createT], r.Typed := by
  intro r hr
  obtain rfl := List.mem_singleton.mp hr
  exact createT_typed

end Execute

end Scroller
