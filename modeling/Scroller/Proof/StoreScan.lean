import Scroller.Proof.ScanCommands
import Scroller.Proof.StoreInsert

/-!
# Scanning the store

What a `DELETE` or a `SELECT` does on the pages of a database is what it does on the lists of rows of its store.
-/

namespace Scroller

open Outcome

/-! ### Lists of rows -/

theorem take_set_succ {α : Type} (l : List α) {n : Nat} (a : α) (hn : n < l.length) :
    (l.set n a).take (n + 1) = l.take n ++ [a] := by
  rw [List.set_eq_take_append_cons_drop, if_pos hn, List.take_append,
    List.take_of_length_le (by rw [List.length_take]; omega), List.length_take, Nat.min_eq_left (Nat.le_of_lt hn),
    Nat.add_sub_cancel_left, List.take_succ_cons, List.take_zero]

theorem scanRows_pass {cfg : Config} {flags : Int64 → TranFlag} {tran : Tran} {act : Row → Row} {cond : Where}
    {n : Nat} {row : Row} {rows : List Row} {scan : Scan}
    (hvisible : tranRowIsVisible cfg flags tran row.tmin row.tmax = .ok false)
    (h : scanRows cfg flags tran act cond (n + 1) rows = .ok scan) :
    scanRows cfg flags tran act cond n (row :: rows) = .ok { scan with rows := row :: scan.rows } := by
  rw [scanRows, hvisible]
  simp only [bind, Except.bind, h]
  rfl

namespace Db

variable {cfg : Config} {fuel : Nat} {db db' : Db} {gp : GidPair} {header : Grid} {tran : Tran}

/-! ### Iterators -/

namespace Walked

variable (h : db.Walked cfg gp header)
include h

theorem rowIsVisible_eq {m : Mitor} (hm : db.OnMesh gp m) (hvalid : mitorIsValid db m = true) (tran : Tran) :
    rowIsVisible cfg db (some tran) m
      = tranRowIsVisible cfg db.trans.flags tran ((db.pages m.gp.data).rows m.row).tmin
        ((db.pages m.gp.data).rows m.row).tmax := (h.versionRow hm (row_lt hvalid)).rowIsVisible_eq cfg tran

theorem drop_eq {m : Mitor} (hm : db.OnMesh gp m) (hvalid : mitorIsValid db m = true) :
    (db.mesh gp.data).rows.drop (db.rowNumber gp.data m)
      = (db.pages m.gp.data).rows m.row :: (db.mesh gp.data).rows.drop (db.rowNumber gp.data m + 1) := by
  have hget := hm.getElem? h.isMesh h.apart
  rw [if_pos hvalid] at hget
  obtain ⟨hlt, hget⟩ := List.getElem?_eq_some_iff.mp hget
  rw [List.drop_eq_getElem_cons hlt, hget]

theorem drop_eq_nil {m : Mitor} (hm : db.OnMesh gp m) (hinvalid : ¬ mitorIsValid db m = true) :
    (db.mesh gp.data).rows.drop (db.rowNumber gp.data m) = [] := by
  have hle := mt (hm.valid_iff h.isMesh h.apart).mpr hinvalid
  exact List.drop_eq_nil_of_le (by omega)

end Walked

/-- An iterator of a transaction at a visible row, or behind the rows. -/
structure Reads (cfg : Config) (gp : GidPair) (tran : Tran) (db : Db) (t : Titor) : Prop where
  tran_eq : t.tran = some tran
  onMesh : db.OnMesh gp t.m
  visible : mitorIsValid db t.m = true → rowIsVisible cfg db (some tran) t.m = .ok true

/-- `titor_next` passes the rows in front of the next visible one. -/
structure Passes (cfg : Config) (gp : GidPair) (tran : Tran) (db : Db) (n : Nat) (t : Titor) : Prop where
  reads : db.Reads cfg gp tran t
  le : n ≤ db.rowNumber gp.data t.m
  passed : ∀ act cond scan, scanRows cfg db.trans.flags tran act cond (db.rowNumber gp.data t.m)
      ((db.mesh gp.data).rows.drop (db.rowNumber gp.data t.m)) = .ok scan →
    scanRows cfg db.trans.flags tran act cond n ((db.mesh gp.data).rows.drop n)
      = .ok { scan with
        rows := ((db.mesh gp.data).rows.drop n).take (db.rowNumber gp.data t.m - n) ++ scan.rows }

theorem Reads.passes {t : Titor} (h : db.Reads cfg gp tran t) :
    db.Passes cfg gp tran (db.rowNumber gp.data t.m) t where
  reads := h
  le := Nat.le_refl _
  passed act cond scan hscan := by
    rw [Nat.sub_self, List.take_zero, List.nil_append]
    exact hscan

theorem titorNextLoop_passes (h : db.Walked cfg gp header) {m : Mitor} {t : Titor} (hm : db.OnMesh gp m)
    (hvalid : mitorIsValid db m = true) (hnext : titorNextLoop cfg db (some tran) fuel m = .ok t) :
    db.Passes cfg gp tran (db.rowNumber gp.data m + 1) t := by
  induction fuel generalizing m with
  | zero => cases hnext
  | succ fuel ih =>
      obtain ⟨hm', hnumber⟩ := hm.next h.isMesh h.apart hvalid
      rw [titorNextLoop] at hnext
      rw [← hnumber]
      split at hnext
      next hinvalid =>
        cases hnext
        have hreads : db.Reads cfg gp tran ⟨mitorNext db m, some tran⟩ :=
          ⟨rfl, hm', fun hvalid => absurd hvalid hinvalid⟩
        exact hreads.passes
      next hvalid' =>
        have hvalid' : mitorIsValid db (mitorNext db m) = true := not_not.mp hvalid'
        obtain ⟨visible, hvisible, hnext⟩ := bind_eq_ok.mp hnext
        split at hnext
        next htrue =>
          cases hnext
          have hreads : db.Reads cfg gp tran ⟨mitorNext db m, some tran⟩ :=
            ⟨rfl, hm', fun _ => by rw [hvisible, htrue]⟩
          exact hreads.passes
        next hfalse =>
          have hrest := ih hm' hvalid' hnext
          rw [Bool.not_eq_true] at hfalse
          rw [hfalse, h.rowIsVisible_eq hm' hvalid'] at hvisible
          refine ⟨hrest.reads, by have := hrest.le; omega, fun act cond scan hscan => ?_⟩
          rw [h.drop_eq hm' hvalid', scanRows_pass hvisible (hrest.passed act cond scan hscan)]
          obtain ⟨k, hk⟩ := Nat.exists_eq_add_of_le hrest.le
          rw [hk, show db.rowNumber gp.data (mitorNext db m) + 1 + k - (db.rowNumber gp.data (mitorNext db m) + 1) = k
              by omega,
            show db.rowNumber gp.data (mitorNext db m) + 1 + k - db.rowNumber gp.data (mitorNext db m) = k + 1
              by omega, List.take_succ_cons]
          rfl

theorem titorNext_passes (h : db.Walked cfg gp header) {t t' : Titor} (htran : t.tran = some tran)
    (hm : db.OnMesh gp t.m) (hvalid : mitorIsValid db t.m = true) (hnext : titorNext cfg fuel db t = .ok t') :
    db.Passes cfg gp tran (db.rowNumber gp.data t.m + 1) t' := by
  unfold titorNext at hnext
  rw [(hm.dataPage h.isMesh).content, htran] at hnext
  exact titorNextLoop_passes h hm hvalid hnext

/-- `titor_init` passes the rows in front of the first visible one. -/
theorem titorInit_passes (h : db.Walked cfg gp header) {t : Titor}
    (hinit : titorInit cfg fuel db (some tran) gp = .ok t) :
    (db.mesh gp.data).rows ≠ [] ∧ db.Passes cfg gp tran 0 t := by
  have hm := onMesh_first h.isMesh h.apart
  have hnumber : db.rowNumber gp.data ⟨gp, 0⟩ = 0 := OnMesh.rowNumber_of_eq rfl
  have hvalid : mitorIsValid db ⟨gp, 0⟩ = true :=
    decide_eq_true ⟨h.apart.header, h.apart.data, Execute.titorInit_first h.isMesh.page.content hinit⟩
  unfold titorInit at hinit
  rw [h.isMesh.page.content] at hinit
  dsimp only at hinit
  obtain ⟨tmin, -, hinit⟩ := bind_eq_ok.mp hinit
  have hne : (db.mesh gp.data).rows ≠ [] := by
    intro hnil
    have hlt := (hm.valid_iff h.isMesh h.apart).mp hvalid
    rw [hnil] at hlt
    exact absurd hlt (Nat.not_lt_zero _)
  obtain ⟨tmax, -, hinit⟩ := bind_eq_ok.mp hinit
  obtain ⟨-, -, hinit⟩ := bind_eq_ok.mp hinit
  obtain ⟨-, -, hinit⟩ := bind_eq_ok.mp hinit
  obtain ⟨-, -, hinit⟩ := bind_eq_ok.mp hinit
  obtain ⟨-, -, hinit⟩ := bind_eq_ok.mp hinit
  obtain ⟨-, -, hinit⟩ := bind_eq_ok.mp hinit
  have htitor : titorIsValid db ⟨⟨gp, 0⟩, some tran⟩ = true := by
    simp [titorIsValid, hvalid]
  rw [if_neg (not_not.mpr htitor)] at hinit
  obtain ⟨visible, hvisible, hinit⟩ := bind_eq_ok.mp hinit
  refine ⟨hne, ?_⟩
  split at hinit
  next htrue =>
    cases hinit
    have hreads : db.Reads cfg gp tran ⟨⟨gp, 0⟩, some tran⟩ := ⟨rfl, hm, fun _ => by rw [hvisible, htrue]⟩
    have hpasses := hreads.passes
    rw [hnumber] at hpasses
    exact hpasses
  next hfalse =>
    rw [Bool.not_eq_true] at hfalse
    rw [hfalse, h.rowIsVisible_eq hm hvalid] at hvisible
    unfold titorNext at hinit
    rw [h.isMesh.page.content] at hinit
    have hrest := titorNextLoop_passes h hm hvalid hinit
    rw [hnumber] at hrest
    have hdrop := h.drop_eq hm hvalid
    rw [hnumber] at hdrop
    refine ⟨hrest.reads, Nat.zero_le _, fun act cond scan hscan => ?_⟩
    rw [hdrop, scanRows_pass hvisible (hrest.passed act cond scan hscan)]
    obtain ⟨k, hk⟩ := Nat.exists_eq_add_of_le hrest.le
    rw [hk, Nat.add_sub_cancel_left, Nat.sub_zero, Nat.add_comm (0 + 1) k, List.take_succ_cons]
    rfl

/-! ### The loop over the rows -/

theorem Walked.putRow (h : db.Walked cfg gp header) {m : Mitor} (hm : db.OnMesh gp m)
    (hvalid : mitorIsValid db m = true) (row : Row) : (db.putRow m row).Walked cfg gp header where
  apart := h.apart
  page := h.page
  found := by
    rw [pages_putRow_of_ne, h.found]
    rcases hm.page h.isMesh with hdata | hdata
    · exact hdata ▸ h.apart.ne
    · exact hdata ▸ h.apart.header_ne_successor
  isMesh := h.isMesh.putRow hvalid row

/-- An action replaces the row under an iterator. -/
def ActsAs (cfg : Config) (gp : GidPair) (header : Grid) (act : Db → Mitor → Except Fault Db) (g : Row → Row) :
    Prop :=
  ∀ {db db' : Db} {m : Mitor}, db.Walked cfg gp header → db.OnMesh gp m → mitorIsValid db m = true →
    act db m = .ok db' → db' = db.putRow m (g ((db.pages m.gp.data).rows m.row))

/-- What the loop over the rows from number `n` on has done. -/
structure LoopScan (cfg : Config) (gp : GidPair) (header : Grid) (tran : Tran) (g : Row → Row) (cond : Where)
    (db db' : Db) (n : Nat) (ms : List Mitor) (scan : Scan) : Prop where
  walked : db'.Walked cfg gp header
  same : db.SameBut db' gp.data
  rows : scanRows cfg db.trans.flags tran g cond n ((db.mesh gp.data).rows.drop n) = .ok scan
  mesh : db'.mesh gp.data = { db.mesh gp.data with rows := (db.mesh gp.data).rows.take n ++ scan.rows }
  hits : scan.hits = ms.map (db.rowNumber gp.data)
  number : ∀ m, db'.rowNumber gp.data m = db.rowNumber gp.data m

theorem LoopScan.pass {g : Row → Row} {cond : Where} {n : Nat} {t : Titor} {ms : List Mitor} {scan : Scan}
    (h : LoopScan cfg gp header tran g cond db db' (db.rowNumber gp.data t.m) ms scan)
    (hpasses : db.Passes cfg gp tran n t) :
    ∃ rows, LoopScan cfg gp header tran g cond db db' n ms { scan with rows } := by
  refine ⟨_, h.walked, h.same, hpasses.passed g cond scan h.rows, ?_, h.hits, h.number⟩
  rw [h.mesh, ← List.append_assoc, List.take_drop, Nat.add_sub_cancel' hpasses.le]
  have hsplit : (db.mesh gp.data).rows.take n
      ++ ((db.mesh gp.data).rows.take (db.rowNumber gp.data t.m)).drop n
        = (db.mesh gp.data).rows.take (db.rowNumber gp.data t.m) := by
    have htake := List.take_append_drop n ((db.mesh gp.data).rows.take (db.rowNumber gp.data t.m))
    rwa [List.take_take, Nat.min_eq_left hpasses.le] at htake
  rw [hsplit]

theorem Reads.titorIsValid_eq (h : db.Walked cfg gp header) {t : Titor} (ht : db.Reads cfg gp tran t) :
    titorIsValid db t = mitorIsValid db t.m := by
  have hcontent := (ht.onMesh.dataPage h.isMesh).content
  simp [titorIsValid, hcontent, ht.tran_eq]

theorem rowLoop_scan {act : Db → Mitor → Except Fault Db} {g : Row → Row} {cond : Where}
    (hact : ActsAs cfg gp header act g) (h : db.Walked cfg gp header) {t : Titor}
    (ht : db.Reads cfg gp tran t) {ms : List Mitor} {finished : Bool}
    (hloop : rowLoop cfg act cond fuel db t = .ok (db', ms, finished)) :
    ∃ rows, LoopScan cfg gp header tran g cond db db' (db.rowNumber gp.data t.m) ms
      ⟨rows, ms.map (db.rowNumber gp.data), mitorIsValid db t.m, finished⟩ := by
  induction fuel generalizing db t ms with
  | zero => cases hloop
  | succ fuel ih =>
      rw [rowLoop, ht.titorIsValid_eq h] at hloop
      split at hloop
      next hinvalid =>
        have hnil := h.drop_eq_nil ht.onMesh hinvalid
        have htake := List.take_append_drop (db.rowNumber gp.data t.m) (db.mesh gp.data).rows
        rw [hnil] at htake
        cases hloop
        refine ⟨[], h, sameBut_refl _ _, ?_, ?_, rfl, fun _ => rfl⟩
        · rw [hnil, Bool.eq_false_iff.mpr hinvalid]
          rfl
        · rw [htake]
      next hvalid =>
        have hvalid : mitorIsValid db t.m = true := not_not.mp hvalid
        have hdrop := h.drop_eq ht.onMesh hvalid
        have hvisible := ht.visible hvalid
        rw [h.rowIsVisible_eq ht.onMesh hvalid] at hvisible
        have hlt := (ht.onMesh.valid_iff h.isMesh h.apart).mp hvalid
        have htake := List.take_append_drop (db.rowNumber gp.data t.m) (db.mesh gp.data).rows
        rw [hdrop] at htake
        rw [hvalid]
        split at hloop
        next hcond =>
          cases hloop
          refine ⟨(db'.pages t.m.gp.data).rows t.m.row
            :: (db'.mesh gp.data).rows.drop (db'.rowNumber gp.data t.m + 1), h, sameBut_refl _ _, ?_, ?_, rfl,
            fun _ => rfl⟩
          · rw [hdrop, scanRows, hvisible]
            simp only [bind, Except.bind, if_true, hcond]
            rfl
          · rw [htake]
        next hcond =>
          obtain ⟨next, hnext, hloop⟩ := bind_eq_ok.mp hloop
          have hpasses := titorNext_passes h ht.tran_eq ht.onMesh hvalid hnext
          obtain ⟨rows, hrest⟩ := ih h hpasses.reads hloop
          obtain ⟨rows, hrest⟩ := hrest.pass hpasses
          refine ⟨(db.pages t.m.gp.data).rows t.m.row :: rows, hrest.walked, hrest.same, ?_, ?_, rfl, hrest.number⟩
          · rw [hdrop, scanRows, hvisible]
            simp only [bind, Except.bind, if_true, hcond, hrest.rows]
            rfl
          · have hone : (db.mesh gp.data).rows.take (db.rowNumber gp.data t.m + 1)
                = (db.mesh gp.data).rows.take (db.rowNumber gp.data t.m) ++ [(db.pages t.m.gp.data).rows t.m.row] := by
              rw [List.take_add_one, ht.onMesh.getElem? h.isMesh h.apart, if_pos hvalid]
              rfl
            rw [hrest.mesh, hone, List.append_assoc]
            rfl
        next hcond =>
          obtain ⟨db₁, hdone, hloop⟩ := bind_eq_ok.mp hloop
          obtain ⟨next, hnext, hloop⟩ := bind_eq_ok.mp hloop
          obtain ⟨⟨db₂, ms', finished'⟩, hloop, hresult⟩ := bind_eq_ok.mp hloop
          cases hresult
          obtain rfl := hact h ht.onMesh hvalid hdone
          generalize (db.pages t.m.gp.data).rows t.m.row = row at *
          have h₁ := h.putRow ht.onMesh hvalid (g row)
          have hm₁ : (db.putRow t.m (g row)).OnMesh gp t.m := ht.onMesh.putRow (g row)
          have hvalid₁ : mitorIsValid (db.putRow t.m (g row)) t.m = true := by rwa [mitorIsValid_putRow]
          have hmesh₁ := mesh_putRow h.isMesh h.apart ht.onMesh hvalid (g row)
          have hpasses := titorNext_passes h₁ ht.tran_eq hm₁ hvalid₁ hnext
          obtain ⟨rows, hrest⟩ := ih h₁ hpasses.reads hloop
          obtain ⟨rows, hrest⟩ := hrest.pass hpasses
          have hsame : db.SameBut (db.putRow t.m (g row)) gp.data := sameBut_putRow ht.onMesh h.isMesh _
          have hscan := hrest.rows
          rw [hmesh₁, trans_putRow, rowNumber_putRow, List.drop_set_of_lt (Nat.lt_succ_self _)] at hscan
          refine ⟨g row :: rows, hrest.walked, hsame.trans' hrest.same, ?_, ?_, rfl, fun m => ?_⟩
          · rw [hdrop, scanRows, hvisible]
            simp only [bind, Except.bind, if_true, hcond, hscan]
            simp [pure, Except.pure, rowNumber_putRow]
          · rw [hrest.mesh, hmesh₁, rowNumber_putRow, take_set_succ _ _ hlt, List.append_assoc]
            rfl
          · rw [hrest.number, rowNumber_putRow]

/-! ### DELETE and SELECT -/

/-- The loop over the rows with what `titor_init` has found. -/
theorem rowsWhere_scan {act : Db → Mitor → Except Fault Db} {g : Row → Row} {cond : Option Where}
    (hact : ActsAs cfg gp header act g) (h : db.Walked cfg gp header) {t : Titor}
    (hpasses : db.Passes cfg gp tran 0 t) {status : ScrcStatus} {ms : List Mitor}
    (hrows : rowsWhere cfg fuel act cond db (some t) = .ok (db', status, ms)) :
    ∃ scan, LoopScan cfg gp header tran g (cond.getD fun _ => some true) db db' 0 ms scan
      ∧ scan.status cond = status := by
  have hreads := hpasses.reads
  unfold rowsWhere at hrows
  dsimp only at hrows
  rw [hreads.titorIsValid_eq h] at hrows
  cases hvalid : mitorIsValid db t.m with
  | true =>
      rw [hvalid] at hrows
      obtain ⟨⟨db₁, ms₁, finished⟩, hloop, hrows⟩ := bind_eq_ok.mp hrows
      cases hrows
      obtain ⟨rows, hscan⟩ := rowLoop_scan hact h hreads hloop
      obtain ⟨rows, hscan⟩ := hscan.pass hpasses
      refine ⟨_, hscan, ?_⟩
      rw [hvalid]
      cases finished with
      | true => simp [Scan.status]
      | false => rfl
  | false =>
      rw [hvalid] at hrows
      cases hrows
      -- an iterator behind the rows is the end of the loop
      have hloop : rowLoop cfg act (cond.getD fun _ => some true) 1 db t = .ok (db, [], true) := by
        rw [rowLoop, hreads.titorIsValid_eq h, hvalid]
        rfl
      obtain ⟨rows, hscan⟩ := rowLoop_scan hact h hreads hloop
      obtain ⟨rows, hscan⟩ := hscan.pass hpasses
      refine ⟨_, hscan, ?_⟩
      rw [hvalid]
      cases cond with
      | none => rfl
      | some cond => rfl

/-- What `execute.y` does with the rows of a command that `dml_delete` or `dml_select` has begun. -/
def scanOpened (cfg : Config) (fuel : Nat) (act : Session → Db → Mitor → Except Fault Db) (cond : Option Where)
    (schema table : List UInt8) : Db × Session × ScrcStatus × Option Titor → Except Fault (Db × Session × Reply)
  | (db, session, status, titor) =>
      if status ≠ .ok then return (db, session, .ofStatus status)
      else do
        let (db, status, rows) ← rowsWhere cfg fuel (act session) cond db titor
        return (db, session, ⟨status, none, rows.map (db.rowName session schema table)⟩)

theorem putTranIfNone_tran {session session' : Session} {ts ts' : TranState}
    (h : putTranIfNone cfg ts session = .ok (ts', session', .ok)) : ∃ tran, session'.tran = some tran := by
  unfold putTranIfNone at h
  split at h
  · unfold tranPut at h
    split at h
    · obtain ⟨-, -, h⟩ := bind_eq_ok.mp h
      cases h
    · split at h
      · obtain ⟨-, -, h⟩ := bind_eq_ok.mp h
        cases h
      · obtain ⟨out, -, h⟩ := bind_eq_ok.mp h
        cases out with
        | none => cases h
        | some next =>
            obtain ⟨flags, -, h⟩ := bind_eq_ok.mp h
            cases h
            exact ⟨_, rfl⟩
  next hsome =>
    cases h
    exact Option.ne_none_iff_exists'.mp hsome

/-- What a `DELETE` or a `SELECT` has done on the table it found. -/
inductive ScanDone (cfg : Config) (db : Db) (session : Session) (schema table : List UInt8) (row : RelationRow)
    (g : Tran → Row → Row) (cond : Option Where) : Db × Session × Reply → Prop
  | empty (hdata : row.dataGid = 0) :
      ScanDone cfg db session schema table row g cond
        (db, session, .ofStatus (if cond.isSome then .parserError else .ok))
  | refused {ts : TranState} {session' : Session} {status : ScrcStatus} (hdata : row.dataGid ≠ 0)
      (hput : putTranIfNone cfg db.trans session = .ok (ts, session', status)) (hstatus : status ≠ .ok) :
      ScanDone cfg db session schema table row g cond ({ db with trans := ts }, session', .ofStatus status)
  | done {ts : TranState} {session' : Session} {tran : Tran} {db' : Db} {ms : List Mitor} {scan : Scan}
      (hdata : row.dataGid ≠ 0) (hput : putTranIfNone cfg db.trans session = .ok (ts, session', .ok))
      (htran : session'.tran = some tran) (hrows : (db.mesh row.data).rows ≠ [])
      (hloop : LoopScan cfg row.gids (db.pages row.header) tran (g tran) (cond.getD fun _ => some true)
        { db with trans := ts } db' 0 ms scan) :
      ScanDone cfg db session schema table row g cond
        (db', session', ⟨scan.status cond, none, ms.map (db'.rowName session' schema table)⟩)

section Found

variable {session : Session} {schema table : List UInt8} {row : RelationRow} {i : Nat} {cond : Option Where}
  {g : Tran → Row → Row} (h : db.Laid cfg) (hbound : db.sequence.issued < 2 ^ 40)
  (hfound : db.relationRow session schema table = some (row, i))
include h hbound hfound

theorem scanOpened_done {act : Session → Db → Mitor → Except Fault Db} {out : Db × Session × Reply}
    (hact : ∀ session tran, session.tran = some tran →
      ActsAs cfg row.gids (db.pages row.header) (act session) (g tran))
    (hscan : (openRelation cfg fuel db session row.gids >>= scanOpened cfg fuel act cond schema table) = .ok out) :
    ScanDone cfg db session schema table row g cond out := by
  have htable := (h.tables hbound).table i row (relationRow_eq_some hfound)
  obtain ⟨⟨db₁, session₁, status, titor⟩, hopen, hscan⟩ := bind_eq_ok.mp hscan
  unfold openRelation at hopen
  split at hopen
  next hundef =>
    cases hopen
    cases hscan
    exact .empty (gid_eq_undef_iff.mp hundef)
  next hdefined =>
    have hdata : row.dataGid ≠ 0 := fun hzero => hdefined (gid_eq_undef_iff.mpr hzero)
    obtain ⟨-, hmesh⟩ := htable.data hdata
    have hcontent : (db.pages row.gids.data).content = .mvcc := hmesh.page.content
    rw [if_pos hcontent] at hopen
    obtain ⟨⟨ts, session₂, status₂⟩, hput, hopen⟩ := bind_eq_ok.mp hopen
    dsimp only at hopen
    split at hopen
    next hstatus =>
      cases hopen
      rw [scanOpened, if_pos hstatus] at hscan
      cases hscan
      exact .refused hdata hput hstatus
    next hstatus =>
      obtain rfl : status₂ = .ok := not_not.mp hstatus
      obtain ⟨t, hinit, hopen⟩ := bind_eq_ok.mp hopen
      obtain ⟨tran, htran⟩ := putTranIfNone_tran hput
      cases hopen
      rw [htran] at hinit
      have hwalked : Walked cfg row.gids (db.pages row.header) { db with trans := ts } :=
        ⟨htable.apart hbound hdata, htable.header, rfl, hmesh.congr rfl rfl⟩
      obtain ⟨hrows, hpasses⟩ := titorInit_passes hwalked hinit
      rw [scanOpened, if_neg hstatus] at hscan
      obtain ⟨⟨db₂, status, ms⟩, hwhere, hscan⟩ := bind_eq_ok.mp hscan
      obtain ⟨scan, hloop, rfl⟩ := rowsWhere_scan (hact session₁ tran htran) hwalked hpasses hwhere
      cases hscan
      exact .done hdata hput htran hrows hloop

theorem ScanDone.store {db' : Db} {session' : Session} {reply : Reply}
    (hdone : ScanDone cfg db session schema table row g cond (db', session', reply)) :
    db.store.scan cfg session (db.relationOf row) i g cond = .ok (db'.store, session', reply) := by
  cases hdone with
  | empty hdata =>
      rw [Store.scan, show (db.relationOf row).data = none from if_pos hdata]
      rfl
  | @refused ts session' status hdata hput hstatus =>
      rw [Store.scan, relationOf_of_data hdata]
      change (putTranIfNone cfg db.trans session >>= _) = _
      rw [hput]
      cases status with
      | ok => exact absurd rfl hstatus
      | _ => rfl
  | @done ts session' tran db' ms scan hdata hput htran hrows hloop =>
      have htables : Tables cfg { db with trans := ts } := (h.tables hbound).congr rfl rfl (Nat.le_refl _)
      have hstore : db'.store
          = Store.setData { db.store with trans := ts } i (db.relationOf row) (db'.mesh row.data) :=
        htables.store_mesh (relationRow_eq_some hfound) hdata hbound hloop.same
      have hmesh : db'.mesh row.data = { db.mesh row.data with rows := scan.rows } := hloop.mesh
      have hscan : scanRows cfg ts.flags tran (g tran) (cond.getD fun _ => some true) 0 (db.mesh row.data).rows
          = .ok scan := hloop.rows
      have hname : db'.rowName session' schema table = fun m => (i, db'.rowNumber row.data m) := by
        funext m
        rw [rowName, (relationRow_congr (putTranIfNone_catalog hput) hloop.same.relation).trans hfound]
      have hhits : scan.hits.map (fun n => (i, n)) = ms.map (db'.rowName session' schema table) := by
        rw [hname, hloop.hits, List.map_map]
        exact List.map_congr_left fun m _ => congrArg (Prod.mk i) (hloop.number m).symm
      rw [Store.scan, relationOf_of_data hdata]
      change (putTranIfNone cfg db.trans session >>= _) = _
      rw [hput, hstore, hmesh, ← hhits]
      simp only [bind, Except.bind, htran]
      rw [if_neg hrows, hscan]
      rfl

end Found

/-! ### One command -/

theorem deleteRow_actsAs {session : Session} (htran : session.tran = some tran) :
    ActsAs cfg gp header (dmlDeleteRow cfg session) fun row => row.setTmax tran.key := by
  intro db db' m h hm hvalid hdelete
  unfold dmlDeleteRow at hdelete
  rw [(hm.dataPage h.isMesh).content] at hdelete
  obtain ⟨-, -, hdelete⟩ := bind_eq_ok.mp hdelete
  rw [htran] at hdelete
  obtain ⟨-, -, hdelete⟩ := bind_eq_ok.mp hdelete
  rw [(h.versionRow hm (Walked.row_lt hvalid)).putTmax] at hdelete
  obtain ⟨put, hput, hdelete⟩ := bind_eq_ok.mp hdelete
  cases hput
  obtain ⟨-, -, hdelete⟩ := bind_eq_ok.mp hdelete
  cases hdelete
  rfl

theorem selectRow_actsAs : ActsAs cfg gp header (fun db _ => .ok db) fun row => row := by
  intro db db' m h hm hvalid hselect
  cases hselect
  exact (putRow_self db m).symm

section

variable {session : Session} {schema table : List UInt8} {row : RelationRow} {i : Nat} (h : db.Laid cfg)
  (hbound : db.sequence.issued < 2 ^ 40)
include h hbound

theorem header_ne_undef (hfound : db.relationRow session schema table = some (row, i)) :
    row.gids.header ≠ .undef :=
  ((h.tables hbound).table i row (relationRow_eq_some hfound)).ne_undef (Or.inl rfl)

theorem findRelation_found (hfound : db.relationRow session schema table = some (row, i)) :
    findRelation cfg db session schema table false false = .ok (db, row.gids) := by
  have hgid : row.headerGid ≠ 0 := fun hzero => header_ne_undef h hbound hfound (gid_eq_undef_iff.mpr hzero)
  rw [Execute.findRelation_eq, hfound]
  dsimp only
  rw [Build.assert_of _ hgid]
  rfl

theorem dmlDelete_found (hfound : db.relationRow session schema table = some (row, i)) :
    dmlDelete cfg fuel db session schema table = openRelation cfg fuel db session row.gids := by
  rw [dmlDelete, findRelation_found h hbound hfound]
  exact if_neg (header_ne_undef h hbound hfound)

theorem dmlSelect_found (hfound : db.relationRow session schema table = some (row, i))
    (names : List (List UInt8)) :
    dmlSelect cfg fuel db session schema table names
      = match columnIndices (db.pages row.header) names with
        | none => .ok (db, session, .unknownColumn, none)
        | some _ => openRelation cfg fuel db session row.gids := by
  rw [dmlSelect, findRelation_found h hbound hfound]
  exact if_neg (header_ne_undef h hbound hfound)

end

theorem run_store {session session' : Session} {cmd : Command} {reply : Reply} (h : db.Laid cfg)
    (hissued : db.sequence.issued + 1 < 2 ^ 40) (hrun : db.run cfg fuel session cmd = .ok (db', session', reply)) :
    db.store.run cfg session cmd = .ok (db'.store, session', reply) := by
  have hbound : db.sequence.issued < 2 ^ 40 := Nat.lt_of_succ_lt hissued
  cases cmd with
  | start =>
      obtain ⟨⟨ts, session₁, status⟩, hstart, hrun⟩ := bind_eq_ok.mp hrun
      cases hrun
      change (tclStart cfg db.trans session >>= _) = _
      rw [hstart]
      rfl
  | commit =>
      obtain ⟨⟨ts, session₁, status⟩, hcommit, hrun⟩ := bind_eq_ok.mp hrun
      cases hrun
      change (tclCommit cfg db.trans session >>= _) = _
      rw [hcommit]
      rfl
  | rollback =>
      obtain ⟨⟨ts, session₁, status⟩, hrollback, hrun⟩ := bind_eq_ok.mp hrun
      cases hrun
      change (tclRollback cfg db.trans session >>= _) = _
      rw [hrollback]
      rfl
  | insert schema table names values leftover =>
      obtain ⟨⟨db₁, session₁, status, m⟩, hinsert, hrun⟩ := bind_eq_ok.mp hrun
      cases hrun
      have hagrees := @insert_agrees cfg db session schema table names values leftover h hissued
      rw [hinsert] at hagrees
      obtain ⟨out, hstore, hinserts⟩ := hagrees.of_ok
      rw [Store.run, hstore]
      exact congrArg Except.ok (Prod.ext hinserts.store (Prod.ext hinserts.session hinserts.reply))
  | delete schema table cond =>
      have hscan : dmlDelete cfg fuel db session schema table
          >>= scanOpened cfg fuel (dmlDeleteRow cfg) cond schema table = .ok (db', session', reply) := hrun
      rw [Store.run, Store.delete, find_store]
      cases hfound : db.relationRow session schema table with
      | none =>
          rw [dmlDelete, Execute.findRelation_eq, hfound] at hscan
          cases hscan
          rfl
      | some found =>
          obtain ⟨row, i⟩ := found
          rw [dmlDelete_found h hbound hfound] at hscan
          exact (scanOpened_done h hbound hfound (fun _ _ htran => deleteRow_actsAs htran) hscan).store h hbound hfound
  | select schema table names cond =>
      have hscan : dmlSelect cfg fuel db session schema table names
          >>= scanOpened cfg fuel (fun _ db _ => .ok db) cond schema table = .ok (db', session', reply) := hrun
      rw [Store.run, Store.select, find_store]
      cases hfound : db.relationRow session schema table with
      | none =>
          rw [dmlSelect, Execute.findRelation_eq, hfound] at hscan
          cases hscan
          rfl
      | some found =>
          obtain ⟨row, i⟩ := found
          rw [dmlSelect_found h hbound hfound] at hscan
          change (match columnIndices (db.pages row.header) names with
            | none => _
            | some _ => _) = _
          cases hindices : columnIndices (db.pages row.header) names with
          | none =>
              rw [hindices] at hscan
              cases hscan
              rfl
          | some indices =>
              rw [hindices] at hscan
              exact (scanOpened_done h hbound hfound (fun _ _ _ => selectRow_actsAs) hscan).store h hbound hfound

end Db

end Scroller
