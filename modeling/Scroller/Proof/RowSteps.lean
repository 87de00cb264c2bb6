import Scroller.Proof.InsertedRows
import Scroller.Proof.StoreScan

/-!
# What a command does to one row

A row stays as it is, unless an `INSERT` takes its place or a `DELETE` that sees it puts the id of its transaction
into `*tmax`.
-/

namespace Scroller

open Outcome

/-! ### One scan -/

theorem le_of_mem_hits {cfg : Config} {flags : Int64 → TranFlag} {tran : Tran} {act : Row → Row} {cond : Where}
    {n m : Nat} {rows : List Row} {scan : Scan} (h : scanRows cfg flags tran act cond n rows = .ok scan)
    (hm : m ∈ scan.hits) : n ≤ m := by
  induction rows generalizing n scan with
  | nil =>
      cases h
      cases hm
  | cons row rows ih =>
      rw [scanRows] at h
      obtain ⟨visible, -, h⟩ := bind_eq_ok.mp h
      split at h
      · split at h
        · cases h
          cases hm
        · obtain ⟨rest, hrest, h⟩ := bind_eq_ok.mp h
          cases h
          exact Nat.le_of_succ_le (ih hrest hm)
        · obtain ⟨rest, hrest, h⟩ := bind_eq_ok.mp h
          cases h
          rcases List.mem_cons.mp hm with rfl | hm
          · exact Nat.le_refl _
          · exact Nat.le_of_succ_le (ih hrest hm)
      · obtain ⟨rest, hrest, h⟩ := bind_eq_ok.mp h
        cases h
        exact Nat.le_of_succ_le (ih hrest hm)

/-- What a scan makes of the row with a number. -/
inductive ScansRow (cfg : Config) (flags : Int64 → TranFlag) (tran : Tran) (act : Row → Row) (n : Nat)
    (hits : List Nat) : Option Row → Option Row → Prop
  | passed {row : Option Row} (hpassed : n ∉ hits) : ScansRow cfg flags tran act n hits row row
  | hit {row : Row} (hhit : n ∈ hits) (hvisible : tranRowIsVisible cfg flags tran row.tmin row.tmax = .ok true) :
      ScansRow cfg flags tran act n hits (some row) (some (act row))

theorem ScansRow.congr {cfg : Config} {flags : Int64 → TranFlag} {tran : Tran} {act : Row → Row} {n : Nat}
    {hits hits' : List Nat} {row row' : Option Row} (h : ScansRow cfg flags tran act n hits row row')
    (hhits : n ∈ hits' ↔ n ∈ hits) : ScansRow cfg flags tran act n hits' row row' := by
  cases h with
  | passed hpassed => exact .passed (mt hhits.mp hpassed)
  | hit hhit hvisible => exact .hit (hhits.mpr hhit) hvisible

theorem scanRows_row {cfg : Config} {flags : Int64 → TranFlag} {tran : Tran} {act : Row → Row} {cond : Where}
    {n : Nat} {rows : List Row} {scan : Scan} (h : scanRows cfg flags tran act cond n rows = .ok scan) (k : Nat) :
    ScansRow cfg flags tran act (n + k) scan.hits rows[k]? scan.rows[k]? := by
  induction rows generalizing n k scan with
  | nil =>
      cases h
      exact .passed List.not_mem_nil
  | cons row rows ih =>
      have hlater {rest : Scan} {k : Nat} (hrest : scanRows cfg flags tran act cond (n + 1) rows = .ok rest) :
          ScansRow cfg flags tran act (n + (k + 1)) rest.hits rows[k]? rest.rows[k]? := by
        rw [← Nat.add_assoc, Nat.add_right_comm]
        exact ih hrest k
      have hfirst {rest : Scan} (hrest : scanRows cfg flags tran act cond (n + 1) rows = .ok rest) :
          n ∉ rest.hits := fun hmem => absurd (le_of_mem_hits hrest hmem) (Nat.not_succ_le_self n)
      rw [scanRows] at h
      obtain ⟨visible, hvisible, h⟩ := bind_eq_ok.mp h
      split at h
      next htrue =>
        split at h
        · cases h
          exact .passed List.not_mem_nil
        · obtain ⟨rest, hrest, h⟩ := bind_eq_ok.mp h
          cases h
          cases k with
          | zero =>
              have hpassed := hfirst hrest
              exact .passed hpassed
          | succ k => exact hlater hrest
        · obtain ⟨rest, hrest, h⟩ := bind_eq_ok.mp h
          cases h
          cases k with
          | zero => exact .hit List.mem_cons_self (htrue ▸ hvisible)
          | succ k =>
              show ScansRow cfg flags tran act (n + (k + 1)) (n :: rest.hits) rows[k]? rest.rows[k]?
              have hne : n + (k + 1) ≠ n := by omega
              refine (hlater hrest).congr ?_
              rw [List.mem_cons, or_iff_right hne]
      · obtain ⟨rest, hrest, h⟩ := bind_eq_ok.mp h
        cases h
        cases k with
        | zero =>
            have hpassed := hfirst hrest
            exact .passed hpassed
        | succ k => exact hlater hrest

/-! ### One INSERT -/

theorem Relation.mesh_of_dataOrNew {cfg : Config} {t : Relation} {mesh : Mesh Row}
    (h : t.dataOrNew cfg = .ok mesh) : mesh = t.mesh cfg := by
  unfold Relation.dataOrNew at h
  unfold Relation.mesh
  split at h
  next data hdata =>
    cases h
    rw [hdata]
    rfl
  next hdata =>
    obtain ⟨grid, hgrid, h⟩ := bind_eq_ok.mp h
    cases h
    rw [hdata, (dgridInit_eq_ok hgrid).2.2.1]
    rfl

theorem Mesh.allocRow_false {R : Type} {build : Build} {mesh mesh' : Mesh R} {row : R}
    (h : mesh.allocRow build row = .ok (mesh', false)) : mesh'.rows = mesh.rows := by
  unfold Mesh.allocRow at h
  split at h
  · cases h
  · obtain ⟨-, -, h⟩ := bind_eq_ok.mp h
    split at h
    · cases h
      rfl
    · cases h

/-- Appending leaves the other rows where they are, if at most one is behind the first page. -/
theorem getElem?_appendWithin_of_ne {α : Type} {n k : Nat} {l : List α} {a : α} (hl : l.length ≤ n + 1)
    (hk : k ≠ (appendWithin n l a).length - 1) : (appendWithin n l a)[k]? = l[k]? := by
  rw [length_appendWithin, Nat.add_sub_cancel] at hk
  unfold appendWithin
  by_cases hlt : k < min n l.length
  · rw [List.getElem?_append_left (by rwa [List.length_take]), List.getElem?_take_of_lt (by omega)]
  · rw [List.getElem?_append_right (by rw [List.length_take]; omega), List.length_take,
      List.getElem?_eq_none (by rw [List.length_singleton]; omega), List.getElem?_eq_none (by omega)]

/-- The rows that an `INSERT` may leave behind: no cell is set, all data are put, or those in front of the first
that does not fit. -/
inductive PutRow (cfg : Config) (header : Grid) (leftover : Option Tran) (pairs : List (Nat × Datum)) :
    ScrcStatus → Row → Prop
  | zero (hleftover : leftover = none) : PutRow cfg header leftover pairs .sequenceOverflow Row.zero
  | full (hleftover : leftover ≠ none) : PutRow cfg header leftover pairs .ok (written header pairs)
  | misfit (hrelease : cfg.build = .release) (hfit : ¬ AllFit header pairs) :
      PutRow cfg header leftover pairs .datumTypeMismatch (written header (fitting header pairs))

/-- What an `INSERT` makes of a mesh. -/
theorem Mesh.insert_spec {cfg : Config} {mesh mesh' : Mesh Row} {header : Grid} {leftover : Option Tran}
    {indices : List Nat} {values : List Datum} {status : ScrcStatus} {n : Option Nat}
    (hcolumns : ∀ i ∈ indices, (header.columns i).type.group ≠ .unknown)
    (h : mesh.insert cfg header leftover indices values = .ok (mesh', status, n)) :
    (n = none ∧ mesh'.rows = mesh.rows)
      ∨ ∃ row, n = some (mesh'.rows.length - 1) ∧ mesh'.rows = appendWithin mesh.rown mesh.rows row
        ∧ PutRow cfg header leftover (indices.zip values) status row
        ∧ (status = .ok → indices.length ≤ values.length) := by
  obtain ⟨⟨mesh₁, valid⟩, halloc, h⟩ := bind_eq_ok.mp h
  cases valid with
  | false =>
      cases h
      exact Or.inl ⟨rfl, Mesh.allocRow_false halloc⟩
  | true =>
      obtain ⟨hrown, extended, rfl⟩ := Mesh.allocRow_true halloc
      right
      dsimp only at h
      rw [if_neg (not_not.mpr rfl)] at h
      split at h
      next hleftover =>
        cases h
        exact ⟨Row.zero, rfl, rfl, .zero hleftover, fun hstatus => by cases hstatus⟩
      next hleftover =>
        obtain ⟨⟨row, filled⟩, hcells, h⟩ := bind_eq_ok.mp h
        rw [set_appendWithin] at h
        cases h
        refine ⟨row, ?_, rfl, ?_⟩
        · rw [length_appendWithin, length_appendWithin]
        · have hwritten := putCells_written cfg.build hcolumns values []
          rw [written_nil, List.nil_append, List.nil_append, hcells] at hwritten
          split at hwritten
          · split at hwritten
            next hlength =>
              cases hwritten
              exact ⟨.full hleftover, fun _ => hlength⟩
            · cases hwritten
          next hfit =>
            cases hbuild : cfg.build with
            | debug =>
                rw [hbuild] at hwritten
                cases hwritten
            | release =>
                rw [hbuild] at hwritten
                cases hwritten
                exact ⟨.misfit hbuild hfit, fun hstatus => by cases hstatus⟩

/-! ### The ids of a row -/

section

variable {cfg : Config} {header : Grid} {names : List (List UInt8)} {values : List Datum} {leftover : Option Tran}
  {indices : List Nat} {key : Int64} {status : ScrcStatus} {row : Row}

/-- The version columns are the last ones of an `INSERT`. -/
theorem columnIndices_versions (hheader : header.HeaderPage)
    (h : columnIndices header (names ++ [tminName, tmaxName]) = some indices) :
    ∃ front, columnIndices header names = some front ∧ indices = front ++ [tminIdx, tmaxIdx] := by
  unfold columnIndices at h ⊢
  rw [List.mapM_append] at h
  obtain ⟨front, hfront, h⟩ := Option.bind_eq_some_iff.mp h
  refine ⟨front, hfront, ?_⟩
  simp only [List.mapM_cons, List.mapM_nil, hheader.findTmin, hheader.findTmax, Option.pure_def,
    Option.bind_eq_bind, Option.bind_some, Option.some.injEq] at h
  exact h.symm

theorem putPairs_versions {front : List Nat} (hfront : columnIndices header names = some front)
    (hlength : names.length = values.length) :
    putPairs (front ++ [tminIdx, tmaxIdx]) values key
      = front.zip values ++ [(tminIdx, makeTranid key), (tmaxIdx, makeTranid tranInvalidId)] := by
  rw [putPairs, List.zip_append ((columnIndices_spec hfront).1.trans hlength)]
  rfl

/-- The row of an `INSERT` with as many values as names is one of its transaction. -/
theorem PutRow.stamped (hheader : header.HeaderPage)
    (hindices : columnIndices header (names ++ [tminName, tmaxName]) = some indices)
    (hlength : names.length = values.length) (h : PutRow cfg header leftover (putPairs indices values key) .ok row) :
    row.tmin = key ∧ row.tmax = tranInvalidId := by
  obtain ⟨front, hfront, rfl⟩ := columnIndices_versions hheader hindices
  cases h
  rw [putPairs_versions hfront hlength, List.append_cons]
  constructor
  · unfold Row.tmin
    rw [written_concat, Function.update_of_ne (by decide), written_concat, Function.update_self, Column.put,
      hheader.tminType]
    rfl
  · unfold Row.tmax
    rw [written_concat, Function.update_self, Column.put, hheader.tmaxType]
    rfl

theorem lastGiven_eq_none {pairs : List (Nat × Datum)} {column : Nat} (h : ∀ pair ∈ pairs, pair.1 ≠ column) :
    lastGiven pairs column = none := by
  unfold lastGiven
  rw [Option.map_eq_none_iff, List.find?_eq_none]
  intro pair hpair
  rw [decide_eq_true_eq]
  exact h pair (List.mem_reverse.mp hpair)

/-- The columns of names other than one that is the name of a column. -/
theorem ne_of_mem_zip {front : List Nat} {column : Nat} {name : List UInt8}
    (hfront : columnIndices header names = some front) (hname : (header.columns column).name = name)
    (hnot : name ∉ names) {pair : Nat × Datum} (hpair : pair ∈ front.zip values) : pair.1 ≠ column := by
  rintro rfl
  obtain ⟨hlength, hget⟩ := columnIndices_spec hfront
  obtain ⟨k, hk⟩ := List.mem_iff_getElem?.mp (List.of_mem_zip hpair).1
  have hlt : k < names.length := by
    rw [← hlength]
    exact (List.getElem?_eq_some_iff.mp hk).1
  obtain ⟨column', hfound, hindex⟩ := hget k names[k] (List.getElem?_eq_getElem hlt)
  rw [hk] at hindex
  cases hindex
  have hfits := List.find?_some hfound
  rw [decide_eq_true_eq] at hfits
  apply hnot
  rw [← hname, hfits]
  exact List.getElem_mem hlt

/-- The row of an `INSERT` that failed has no ids, if the command named no version column. -/
theorem PutRow.blank (hheader : header.HeaderPage)
    (hindices : columnIndices header (names ++ [tminName, tmaxName]) = some indices)
    (hlength : names.length = values.length) (htmin : tminName ∉ names) (htmax : tmaxName ∉ names)
    (hstatus : status ≠ .ok) (h : PutRow cfg header leftover (putPairs indices values key) status row) :
    row.tmin = tranInvalidId ∧ row.tmax = tranInvalidId := by
  cases h with
  | zero hleftover => exact ⟨rfl, rfl⟩
  | full hleftover => exact absurd rfl hstatus
  | misfit hrelease hfit =>
      obtain ⟨front, hfront, rfl⟩ := columnIndices_versions hheader hindices
      rw [putPairs_versions hfront hlength] at hfit ⊢
      -- the ids themselves fit, so it is one of the given values that does not
      obtain ⟨pair, hpair, hmisfit⟩ : ∃ pair ∈ front.zip values, ¬ (header.columns pair.1).Fits pair.2 := by
        by_contra hnone
        push Not at hnone
        refine hfit fun pair hpair => ?_
        rcases List.mem_append.mp hpair with hpair | hpair
        · exact hnone pair hpair
        · rcases List.mem_pair.mp hpair with rfl | rfl
          · exact Or.inl hheader.tminType.symm
          · exact Or.inl hheader.tmaxType.symm
      have hfitting : fitting header (front.zip values
          ++ [(tminIdx, makeTranid key), (tmaxIdx, makeTranid tranInvalidId)])
          = fitting header (front.zip values) := by
        unfold fitting
        rw [List.takeWhile_append, if_neg]
        intro hall
        have hmem : pair ∈ (front.zip values).takeWhile fun pair => (header.columns pair.1).Fits pair.2 := by
          rw [(List.takeWhile_sublist _).eq_of_length hall]
          exact hpair
        have hfits := List.mem_takeWhile_imp hmem
        exact hmisfit (of_decide_eq_true hfits)
      have hnot {column : Nat} {name : List UInt8} (hname : (header.columns column).name = name)
          (hnot : name ∉ names) : written header (fitting header (front.zip values)) column = .zero := by
        have hlast : lastGiven (fitting header (front.zip values)) column = none :=
          lastGiven_eq_none fun pair hpair => ne_of_mem_zip hfront hname hnot (List.takeWhile_subset _ hpair)
        rw [written, hlast]
      rw [hfitting]
      constructor
      · rw [Row.tmin, hnot hheader.tminName htmin]
        rfl
      · rw [Row.tmax, hnot hheader.tmaxName htmax]
        rfl

theorem PutRow.leftover_eq (hdebug : cfg.build = .debug) (hstatus : status ≠ .ok) {pairs : List (Nat × Datum)}
    (h : PutRow cfg header leftover pairs status row) : leftover = none := by
  cases h with
  | zero hleftover => exact hleftover
  | full hleftover => exact absurd rfl hstatus
  | misfit hrelease hfit =>
      rw [hdebug] at hrelease
      cases hrelease

end

/-! ### One command -/

/-- What a command does to the row with a name. -/
inductive RowStep (cfg : Config) (cmd : Command) (store store' : Store) (session' : Session) (reply : Reply)
    (name : Nat × Nat) : Prop
  | kept (hinserted : reply.inserted ≠ some name)
      (hdelete : ∀ schema table cond, cmd = .delete schema table cond → name ∉ reply.rows)
      (hrow : store'.row? name = store.row? name)
  | inserted {schema table : List UInt8} {names : List (List UInt8)} {values : List Datum} {leftover : Option Tran}
      {row : Row} {tran : Tran} (hcmd : cmd = .insert schema table names values leftover)
      (hinserted : reply.inserted = some name) (htran : session'.tran = some tran)
      (hrow : store'.row? name = some row)
      (hstamped : names.length = values.length → reply.status = .ok →
        row.tmin = tran.key ∧ row.tmax = tranInvalidId)
      (hblank : names.length = values.length → reply.status ≠ .ok → tminName ∉ names → tmaxName ∉ names →
        row.tmin = tranInvalidId ∧ row.tmax = tranInvalidId)
      (hdebug : cfg.build = .debug → reply.status ≠ .ok → leftover = none)
  | deleted {schema table : List UInt8} {cond : Option Where} {row : Row} {tran : Tran}
      (hcmd : cmd = .delete schema table cond) (hhit : name ∈ reply.rows) (htran : session'.tran = some tran)
      (hrow : store.row? name = some row)
      (hvisible : tranRowIsVisible cfg store'.trans.flags tran row.tmin row.tmax = .ok true)
      (hdeleted : store'.row? name = some (row.setTmax tran.key))

namespace Store

variable {cfg : Config} {cmd : Command} {store store' : Store} {session session' : Session} {reply : Reply}
  {schema table : List UInt8} {t : Relation} {i : Nat}

theorem row?_congr (h : store'.relations = store.relations) (name : Nat × Nat) :
    store'.row? name = store.row? name := by
  unfold row?
  rw [h]

theorem row?_setData (hget : store.relations[i]? = some t) (mesh : Mesh Row) (n : Nat) :
    (store.setData i t mesh).row? (i, n) = mesh.rows[n]? := by
  refine row?_eq (t := { t with data := some mesh }) ?_ rfl
  exact List.getElem?_set_self (List.getElem?_eq_some_iff.mp hget).1

theorem row?_setData_of_ne {name : Nat × Nat} (hne : name.1 ≠ i) (mesh : Mesh Row) :
    (store.setData i t mesh).row? name = store.row? name := by
  unfold row? setData
  dsimp only
  rw [List.getElem?_set_ne fun heq => hne heq.symm]

theorem row?_eq_rows (hget : store.relations[i]? = some t) (n : Nat) : store.row? (i, n) = t.rows[n]? := by
  unfold row? Relation.rows
  dsimp only
  rw [hget, Option.bind_eq_bind, Option.bind_some]
  cases t.data with
  | none => rfl
  | some mesh => rfl

theorem row?_setData_mesh (hget : store.relations[i]? = some t) (name : Nat × Nat) :
    (store.setData i t (t.mesh cfg)).row? name = store.row? name := by
  obtain ⟨j, n⟩ := name
  by_cases hj : j = i
  · subst hj
    rw [row?_setData hget, row?_eq_rows hget, rows_mesh]
  · exact row?_setData_of_ne hj _

theorem scan_row {act : Tran → Row → Row} {cond : Option Where} (hget : store.relations[i]? = some t)
    (h : store.scan cfg session t i act cond = .ok (store', session', reply)) (name : Nat × Nat) :
    reply.inserted = none ∧ ((name ∉ reply.rows ∧ store'.row? name = store.row? name)
      ∨ ∃ row tran, name ∈ reply.rows ∧ session'.tran = some tran ∧ store.row? name = some row
        ∧ tranRowIsVisible cfg store'.trans.flags tran row.tmin row.tmax = .ok true
        ∧ store'.row? name = some (act tran row)) := by
  unfold scan at h
  split at h
  · cases h
    exact ⟨rfl, Or.inl ⟨List.not_mem_nil, rfl⟩⟩
  next mesh hdata =>
    obtain ⟨⟨ts, session₁, status⟩, -, h⟩ := bind_eq_ok.mp h
    dsimp only at h
    split at h
    next tran htran =>
      split at h
      · cases h
      · obtain ⟨scan, hscan, h⟩ := bind_eq_ok.mp h
        cases h
        refine ⟨rfl, ?_⟩
        obtain ⟨j, n⟩ := name
        by_cases hj : j = i
        · subst hj
          have hmem : (j, n) ∈ scan.hits.map (fun n => (j, n)) ↔ n ∈ scan.hits := by simp
          have hnew : (setData { store with trans := ts } j t { mesh with rows := scan.rows }).row? (j, n)
              = scan.rows[n]? := row?_setData hget { mesh with rows := scan.rows } n
          have hstep := scanRows_row hscan n
          rw [Nat.zero_add] at hstep
          rw [hmem, hnew, row?_eq hget hdata]
          show (_ ∧ scan.rows[n]? = mesh.rows[n]?) ∨ ∃ row tran', _ ∧ _ ∧ mesh.rows[n]? = some row
            ∧ tranRowIsVisible cfg ts.flags tran' row.tmin row.tmax = .ok true ∧ scan.rows[n]? = some (act tran' row)
          generalize mesh.rows[n]? = old at hstep ⊢
          generalize scan.rows[n]? = new at hstep ⊢
          cases hstep with
          | passed hpassed => exact Or.inl ⟨hpassed, rfl⟩
          | @hit row hhit hvisible => exact Or.inr ⟨row, tran, hhit, htran, rfl, hvisible, rfl⟩
        · refine Or.inl ⟨fun hmem => ?_, row?_setData_of_ne hj _⟩
          obtain ⟨m, -, heq⟩ := List.mem_map.mp hmem
          exact hj (Prod.ext_iff.mp heq).1.symm
    · cases h
    · cases h
      exact ⟨rfl, Or.inl ⟨List.not_mem_nil, rfl⟩⟩

theorem insert_row {names : List (List UInt8)} {values : List Datum} {leftover : Option Tran}
    (horderly : ∀ t i, store.find session schema table = some (t, i) → Orderly cfg t)
    (h : store.insert cfg session schema table names values leftover = .ok (store', session', reply))
    (name : Nat × Nat) :
    RowStep cfg (.insert schema table names values leftover) store store' session' reply name := by
  have hsame (hinserted : reply.inserted ≠ some name) (hrow : store'.row? name = store.row? name) :
      RowStep cfg (.insert schema table names values leftover) store store' session' reply name := by
    refine .kept hinserted (fun schema table cond heq => ?_) hrow
    cases heq
  unfold insert at h
  split at h
  · obtain ⟨-, -, h⟩ := bind_eq_ok.mp h
    cases h
    exact hsame (Option.some_ne_none name).symm rfl
  next t i hfind =>
    obtain ⟨mesh, hmesh, h⟩ := bind_eq_ok.mp h
    obtain rfl := Relation.mesh_of_dataOrNew hmesh
    obtain ⟨-, -, h⟩ := bind_eq_ok.mp h
    obtain ⟨⟨ts, session₁, status⟩, -, h⟩ := bind_eq_ok.mp h
    have ht := horderly t i hfind
    have hget := getElem?_of_find hfind
    dsimp only at h
    split at h
    next tran htran =>
      split at h
      · cases h
        exact hsame (Option.some_ne_none name).symm (row?_setData_mesh hget name)
      next indices hindices =>
        obtain ⟨⟨mesh', status', n⟩, hinsert, h⟩ := bind_eq_ok.mp h
        cases h
        have hrow : (setData { store.setData i t (t.mesh cfg) with trans := ts } i t mesh').relations
            = (store.setData i t mesh').relations := List.set_set ..
        have hcolumns : ∀ j ∈ indices, (t.header.columns j).type.group ≠ .unknown :=
          fun j hj => ht.header.types j (columnIndices_lt hindices j hj)
        obtain ⟨j, k⟩ := name
        by_cases hj : j = i
        · subst hj
          rcases Mesh.insert_spec hcolumns hinsert with ⟨rfl, hrows⟩ | ⟨row, rfl, hrows, hput, -⟩
          · refine hsame (Option.some_ne_none _).symm ?_
            rw [row?_congr hrow, row?_setData hget, hrows, rows_mesh, row?_eq_rows hget]
          · by_cases hk : k = mesh'.rows.length - 1
            · subst hk
              have hnew : row?
                  (setData { store.setData j t (t.mesh cfg) with trans := ts } j t mesh') (j, mesh'.rows.length - 1)
                  = some row := by
                rw [row?_congr hrow, row?_setData hget, hrows]
                exact getElem?_appendWithin _ _ _
              refine .inserted rfl rfl htran hnew (fun hlength hstatus => ?_) (fun hlength hstatus htmin htmax => ?_)
                fun hdebug hstatus => hput.leftover_eq hdebug hstatus
              · obtain rfl : status' = .ok := hstatus
                exact hput.stamped ht.header hindices hlength
              · exact hput.blank ht.header hindices hlength htmin htmax hstatus
            · refine hsame (fun heq => hk (Prod.ext_iff.mp (Option.some.inj heq)).2.symm) ?_
              rw [row?_congr hrow, row?_setData hget, row?_eq_rows hget, hrows,
                getElem?_appendWithin_of_ne (by rw [rows_mesh]; exact ht.rows) (by rwa [← hrows]), rows_mesh]
        · refine hsame (fun heq => ?_) ?_
          · obtain ⟨k', -, hsome⟩ := Option.map_eq_some_iff.mp heq
            exact hj (Prod.ext_iff.mp hsome).1.symm
          · rw [row?_congr hrow]
            exact row?_setData_of_ne hj _
    · cases h
    · cases h
      exact hsame (Option.some_ne_none name).symm (row?_setData_mesh hget name)

/-- What a command does to a row. -/
theorem run_row (horderly : ∀ schema table t i, store.find session schema table = some (t, i) → Orderly cfg t)
    (h : store.run cfg session cmd = .ok (store', session', reply)) (name : Nat × Nat) :
    RowStep cfg cmd store store' session' reply name := by
  cases cmd with
  | start =>
      obtain ⟨⟨ts, session₁, status⟩, -, h⟩ := bind_eq_ok.mp h
      cases h
      refine .kept (Option.some_ne_none name).symm (fun schema table cond heq => ?_) rfl
      cases heq
  | commit =>
      obtain ⟨⟨ts, session₁, status⟩, -, h⟩ := bind_eq_ok.mp h
      cases h
      refine .kept (Option.some_ne_none name).symm (fun schema table cond heq => ?_) rfl
      cases heq
  | rollback =>
      obtain ⟨⟨ts, session₁, status⟩, -, h⟩ := bind_eq_ok.mp h
      cases h
      refine .kept (Option.some_ne_none name).symm (fun schema table cond heq => ?_) rfl
      cases heq
  | insert schema table names values leftover =>
      exact insert_row (fun t i hfind => horderly schema table t i hfind) h name
  | delete schema table cond =>
      rw [run, delete] at h
      split at h
      · cases h
        exact .kept (Option.some_ne_none name).symm (fun _ _ _ _ => List.not_mem_nil) rfl
      next t i hfind =>
        obtain ⟨hinserted, hscan⟩ := scan_row (getElem?_of_find hfind) h name
        rcases hscan with ⟨hnot, hrow⟩ | ⟨row, tran, hhit, htran, hrow, hrest⟩
        · refine .kept ?_ (fun _ _ _ _ => hnot) hrow
          rw [hinserted]
          exact (Option.some_ne_none name).symm
        · exact .deleted rfl hhit htran hrow hrest.1 hrest.2
  | select schema table names cond =>
      have hkept (hinserted : reply.inserted = none) (hrow : store'.row? name = store.row? name) :
          RowStep cfg (.select schema table names cond) store store' session' reply name := by
        refine .kept (hinserted ▸ (Option.some_ne_none name).symm) (fun schema table cond heq => ?_) hrow
        cases heq
      rw [run, select] at h
      split at h
      · cases h
        exact hkept rfl rfl
      next t i hfind =>
        split at h
        · cases h
          exact hkept rfl rfl
        · obtain ⟨hinserted, hscan⟩ := scan_row (getElem?_of_find hfind) h name
          rcases hscan with ⟨-, hrow⟩ | ⟨row, tran, -, -, hrow, -, hrow'⟩
          · exact hkept hinserted hrow
          · exact hkept hinserted (hrow'.trans hrow.symm)

end Store

end Scroller
