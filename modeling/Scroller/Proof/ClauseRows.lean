import Scroller.Proof.OneResponse
import Scroller.Proof.StoredSessions

/-!
# The rows of a clause

A `DELETE` or a `SELECT` with a clause from the first token that is put to the last row that is done. The tokens
have to fit into the array of the session, and the columns of all tables have to lie apart within their rows, so
that what the command does to the rows it does to their bytes. What its bytecode does is what the command does on the
pages of its table.
-/

namespace Scroller.Execute

open Outcome

variable {cfg : Config} {fuel : Nat} {leftover : Option Tran} {db db' : Db} {session : Session}

namespace RowCmd

/-- What a command with a clause does to the rows of tables it does to their bytes. -/
theorem run_onBytes {cmd : RowCmd} {bc : Bc BcNode} {e : Hquery.Tree .or}
    (htakes : bc.Takes cfg.build (cmd.bytecode e)) (h : db.Laid cfg) (hlayout : db.LaidOut cfg)
    (hsession : session.Positive) (hleaves : (cmd.run cfg fuel leftover bc e db session).Leaves db')
    (hissued : db'.sequence.issued < 2 ^ 40) : db.OnBytes cfg db' := by
  rw [run_of_takes htakes] at hleaves
  obtain ⟨done, hdone, rfl⟩ := executeCmd_parsed hleaves
  refine (executeCmd_onBytes (fun tokens htokens type htype => ?_) h hlayout hsession hdone).2 hissued
  cases htokens
  exact absurd htype (type_not_mem cmd (some e) type)

end RowCmd

/-- The columns of a table as one of its rows has them. -/
def gridColumns (build : Build) (header : Grid) (row : Row) : Columns := fun name => do
  match ← findColumn build header name (header.occupied + 1) 0 with
  | none => return none
  | some i => do
      gridGetRow build header i
      build.assert (i < header.occupied)
      let datum ← getCell build (header.columns i) (row i)
      return some datum

/-- What an expression says of a row. -/
def whereOf (build : Build) (header : Grid) (e : Hquery.Tree .or) : Where := fun row =>
  match e.translate.eval build (gridColumns build header row) with
  | .ok v => some (v ≠ 0)
  | .error _ => none

/-- The row under a valid iterator is there. -/
theorem gridGetRow_of_visible {tran : Option Tran} {m : Mitor} {visible : Bool}
    (h : rowIsVisible cfg db tran m = .ok visible) :
    gridGetRow cfg.build (db.pages m.gp.data) m.row = .ok () := by
  obtain ⟨datum, hget, -⟩ := bind_eq_ok.mp h
  obtain ⟨⟨⟩, -, hget⟩ := bind_eq_ok.mp hget
  obtain ⟨⟨⟩, hrow, -⟩ := bind_eq_ok.mp hget
  exact hrow

theorem titorColumns_eq {t : Titor} {visible : Bool} (hvalid : titorIsValid db t = true)
    (hvisible : rowIsVisible cfg db t.tran t.m = .ok visible) :
    titorColumns cfg db (some t)
      = gridColumns cfg.build (db.pages t.m.gp.header) ((db.pages t.m.gp.data).rows t.m.row) := by
  funext name
  unfold titorColumns gridColumns
  dsimp only
  rw [if_pos hvalid]
  refine bind_congr fun found => ?_
  cases found with
  | none => rfl
  | some i =>
      dsimp only
      unfold mitorGetDatum gridGetDatum
      rw [gridGetRow_of_visible hvisible]
      simp only [bind_assoc]
      rfl

/-! ### Rows of a command -/

namespace RowCmd

/-- The command on the pages of the tables. -/
def command : RowCmd → Option Where → Command
  | .delete schema table, cond => .delete schema table cond
  | .select schema table name names, cond => .select schema table (name :: names) cond

/-- What the clause of the command says of the rows of its table. -/
def cond (cfg : Config) (db : Db) (session : Session) (cmd : RowCmd) (clause : Option (Hquery.Tree .or)) :
    Option Where := clause.map (whereOf cfg.build (cmd.header db session))

/-- What the command does to the table for a row. -/
def applied (cfg : Config) (session : Session) : RowCmd → Db → Mitor → Except Fault Db
  | .delete _ _ => dmlDeleteRow cfg session
  | .select _ _ _ _ => fun db _ => .ok db

/-- The piece of a row. -/
def pieceOf (db : Db) (m : Mitor) : Piece :=
  .row (hgridGetRowSize (db.pages m.gp.header)) ((db.pages m.gp.data).rows m.row)

/-- What the command sends for rows. -/
def sends (db : Db) : RowCmd → List Mitor → List Piece
  | .delete _ _, _ => []
  | .select _ _ _ _, ms => ms.map (pieceOf db)

variable {cmd : RowCmd} {db₀ : Db} {w w' : Work} {row : Titor}

theorem sends_nil {sent : List Piece} : sent ++ cmd.sends db [] = sent := by
  cases cmd with
  | delete schema table => exact List.append_nil _
  | select schema table name names => exact List.append_nil _

theorem sends_cons (m : Mitor) (ms : List Mitor) : cmd.sends db (m :: ms) = cmd.sends db [m] ++ cmd.sends db ms := by
  cases cmd with
  | delete schema table => rfl
  | select schema table name names => rfl

theorem act_eq_ok (hdb : cmd.IsSelect → w.db = db₀) (h : cmd.act cfg row w = .ok w') :
    cmd.applied cfg w.session w.db row.m = .ok w'.db ∧ w'.session = w.session
      ∧ w'.sent = w.sent ++ cmd.sends db₀ [row.m] ∧ (cmd.IsSelect → w'.db = db₀) := by
  cases cmd with
  | delete schema table =>
      obtain ⟨db, hdelete, h⟩ := bind_eq_ok.mp h
      cases h
      exact ⟨hdelete, rfl, (List.append_nil _).symm, False.elim⟩
  | select schema table name names =>
      obtain rfl := hdb trivial
      obtain ⟨piece, hpiece, h⟩ := bind_eq_ok.mp h
      obtain ⟨-, -, hpiece⟩ := bind_eq_ok.mp hpiece
      cases hpiece
      cases h
      exact ⟨rfl, rfl, rfl, fun _ => rfl⟩

/-- The loop over the rows as far as `titor_next` has found them. -/
structure Did (cfg : Config) (cmd : RowCmd) (cond : Where) (fuel : Nat) (db₀ : Db) (w w' : Work) (t : Titor)
    (ms : List Mitor) : Prop where
  loop : rowLoop cfg (cmd.applied cfg w.session) cond fuel w.db t = .ok (w'.db, ms, true)
  session : w'.session = w.session
  sent : w'.sent = w.sent ++ cmd.sends db₀ ms

/-- The loop without a clause. -/
theorem did_allRows {k : Nat} {last : Titor} (hdb : cmd.IsSelect → w.db = db₀)
    (h : Y2.allRows cfg fuel (cmd.act cfg) k w row = .ok (w', last)) :
    ∃ ms, cmd.Did cfg (fun _ => some true) (fuel + k) db₀ w w' row ms := by
  induction k generalizing w row with
  | zero => cases h
  | succ k ih =>
      rw [Y2.allRows] at h
      split at h
      next hvalid =>
        obtain ⟨w₁, hact, h⟩ := bind_eq_ok.mp h
        obtain ⟨next, hnext, h⟩ := bind_eq_ok.mp h
        obtain ⟨happlied, hsession, hsent, hdb₁⟩ := act_eq_ok hdb hact
        obtain ⟨ms, hrest⟩ := ih hdb₁ h
        refine ⟨row.m :: ms, ?_, hrest.session.trans hsession, ?_⟩
        · rw [← Nat.add_assoc, rowLoop, if_neg (not_not.mpr hvalid)]
          dsimp only
          rw [happlied]
          dsimp only [bind, Except.bind]
          rw [titorNext_mono (Nat.le_add_right fuel k) hnext]
          dsimp only
          rw [← hsession, hrest.loop]
          rfl
        · rw [hrest.sent, hsent, List.append_assoc, ← sends_cons]
      next hvalid =>
        cases h
        refine ⟨[], ?_, rfl, sends_nil.symm⟩
        rw [← Nat.add_assoc, rowLoop, if_pos hvalid]
        rfl

/-- The rows of a clause, from one on that the command has not come to. -/
theorem did_rows {e : Hquery.Tree .or} {rows : List Titor} {places : List (Gid × Nat)} {header : Grid}
    (hscan : Scan cfg fuel db₀ (some row) rows) (hheader : db₀.pages row.m.gp.header = header)
    (hchanged : ChangedAt db₀ w.db places) (hpassed : Passed cfg db₀ row rows places)
    (hdb : cmd.IsSelect → w.db = db₀)
    (h : rows.foldlM (forRow (fun row => e.translate.eval cfg.build (titorColumns cfg db₀ (some row)))
      (cmd.act cfg)) w = .ok w') :
    ∃ ms, cmd.Did cfg (whereOf cfg.build header e) (fuel + rows.length + 1) db₀ w w' row ms := by
  generalize hstart : some row = start at hscan
  induction hscan generalizing row places w with
  | undef => cases hstart
  | done hinvalid =>
      cases hstart
      cases h
      refine ⟨[], ?_, rfl, sends_nil.symm⟩
      rw [rowLoop, if_pos (by rw [hchanged.titorIsValid, hinvalid]; exact Bool.false_ne_true)]
      rfl
  | @row row next rows hvalid hcontent hvisible hnext hrows ih =>
      cases hstart
      have hscan := Scan.row hvalid hcontent hvisible hnext hrows
      have hpassed' := hpassed.next hscan hnext
      obtain ⟨htran, hgp⟩ := titorNext_spec hnext
      have hnever := hpassed.ahead row List.mem_cons_self
      have htran' : next.tran ≠ none := by
        rw [htran]
        exact tran_of_titorIsValid hvalid hcontent
      -- the rows that were changed do not stop the iterator
      have hafter (db : Db) (hdb : ChangedAt db₀ db (place row.m :: places)) :
          titorNext cfg (fuel + rows.length + 1) db row = .ok next := by
        refine hdb.titorNext hcontent (fun m hm hmem => ?_) (hpassed'.of_valid hrows htran')
          (titorNext_mono (by omega) hnext)
        rw [← htran]
        exact hpassed'.visible m (hm.trans hgp.symm) hmem
      have hfound : (w.db.pages row.m.gp.data).rows row.m.row = (db₀.pages row.m.gp.data).rows row.m.row :=
        hchanged.rows _ _ hnever
      rw [List.foldlM_cons] at h
      obtain ⟨w₁, hfirst, h⟩ := bind_eq_ok.mp h
      obtain ⟨v, hv, hfirst⟩ := bind_eq_ok.mp hfirst
      have heval : e.translate.eval cfg.build (gridColumns cfg.build header ((db₀.pages row.m.gp.data).rows row.m.row))
          = .ok v := by
        rw [← hheader, ← titorColumns_eq hvalid hvisible]
        exact within_eq_ok hv
      have hcond : whereOf cfg.build header e ((w.db.pages row.m.gp.data).rows row.m.row) = some (decide (v ≠ 0)) := by
        unfold whereOf
        rw [hfound, heval]
      have hvalid' : ¬ ¬ titorIsValid w.db row = true := by
        rw [hchanged.titorIsValid]
        exact not_not.mpr hvalid
      dsimp only at hfirst
      by_cases hv : v ≠ 0
      · rw [if_pos hv] at hfirst
        have hact := perform_eq_ok hfirst
        obtain ⟨happlied, hsession, hsent, hdb₁⟩ :=
          act_eq_ok (w := { w with evaluated := w.evaluated ++ [some row] }) hdb hact
        have hchanged₁ : ChangedAt db₀ w₁.db (place row.m :: places) :=
          act_changedAt (w := { w with evaluated := w.evaluated ++ [some row] }) hcontent hchanged hact
        obtain ⟨ms, hrest⟩ := ih (hgp ▸ hheader) hchanged₁ hpassed' hdb₁ h rfl
        refine ⟨row.m :: ms, ?_, hrest.session.trans hsession, ?_⟩
        · rw [rowLoop, if_neg hvalid', hcond, decide_eq_true hv]
          dsimp only
          rw [happlied]
          dsimp only [bind, Except.bind]
          rw [List.length_cons, ← Nat.add_assoc, hafter w₁.db hchanged₁]
          dsimp only
          rw [← hsession, hrest.loop]
          rfl
        · rw [hrest.sent, hsent, List.append_assoc, ← sends_cons]
      · rw [if_neg hv] at hfirst
        cases hfirst
        have hchanged₁ : ChangedAt db₀ w.db (place row.m :: places) := hchanged.mono (List.subset_cons_self _ _)
        obtain ⟨ms, hrest⟩ := ih (w := { w with evaluated := w.evaluated ++ [some row] }) (hgp ▸ hheader) hchanged₁
          hpassed' hdb h rfl
        refine ⟨ms, ?_, hrest.session, hrest.sent⟩
        rw [rowLoop, if_neg hvalid', hcond, decide_eq_false hv]
        dsimp only [bind, Except.bind]
        rw [List.length_cons, ← Nat.add_assoc, hafter w.db hchanged₁]
        exact hrest.loop

end RowCmd

/-! ### Executed commands -/

section Executed

variable {cmd : RowCmd} {clause : Option (Hquery.Tree .or)} {db₁ : Db} {session₁ : Session} {row : Option Titor}
  {header : Grid}

/-- What the parser has done behind a clause on the rows from an iterator on. -/
structure RowCmd.Done (cfg : Config) (cmd : RowCmd) (cond : Option Where) (fuel : Nat) (db₁ : Db) (session₁ : Session)
    (row : Option Titor) (sent : List Piece) (s : Y2) (ms : List Mitor) : Prop where
  rows : rowsWhere cfg fuel (cmd.applied cfg session₁) cond db₁ row = .ok (s.db, .ok, ms)
  session : s.session = session₁
  sent : s.sent = sent ++ cmd.sends db₁ ms
  look : s.look.yychar = some none

theorem rowsWhere_of_loop {act : Db → Mitor → Except Fault Db} {cond : Option Where} {t : Titor} {ms : List Mitor}
    (hvalid : titorIsValid db t = true)
    (hloop : rowLoop cfg act (cond.getD fun _ => some true) fuel db t = .ok (db', ms, true)) :
    rowsWhere cfg fuel act cond db (some t) = .ok (db', .ok, ms) := by
  unfold rowsWhere
  dsimp only
  rw [hvalid]
  exact bind_eq_ok.mpr ⟨_, hloop, rfl⟩

theorem rowsWhere_of_invalid {act : Db → Mitor → Except Fault Db} {t : Titor} (hinvalid : titorIsValid db t = false) :
    rowsWhere cfg fuel act none db (some t) = .ok (db, .ok, []) := by
  unfold rowsWhere
  dsimp only
  rw [hinvalid]
  rfl

/-- Without a clause the rows are done one after the other. -/
theorem mbWhere_all_done {sent : List Piece} {s : Y2}
    (h : (cmd.atClause db₁ session₁ sent row).mbWhere cfg fuel (cmd.loaded none) (cmd.act cfg) cmd.moves = .ok s) :
    ∃ fuel' ms, fuel ≤ fuel' ∧ cmd.Done cfg none fuel' db₁ session₁ row sent s ms := by
  have hlook : (cmd.atClause db₁ session₁ sent row).look = ⟨⟨(cmd.loaded none).length, row, cmd.tokens⟩, none⟩ := rfl
  unfold Y2.mbWhere at h
  rw [Y2.peek_end hlook] at h
  obtain ⟨_, hpeek, h⟩ := bind_eq_ok.mp h
  cases hpeek
  dsimp only at h
  rw [if_neg nofun] at h
  cases row with
  | none =>
      cases h
      exact ⟨fuel, [], Nat.le_refl _, rfl, rfl, RowCmd.sends_nil.symm, rfl⟩
  | some t =>
      change (if titorIsValid db₁ t = true then _ else _) = _ at h
      by_cases hvalid : titorIsValid db₁ t = true
      · rw [if_pos hvalid] at h
        obtain ⟨⟨w, last⟩, hall, h⟩ := bind_eq_ok.mp h
        cases h
        obtain ⟨ms, hdid⟩ := RowCmd.did_allRows (fun _ => rfl) (perform_eq_ok hall)
        exact ⟨fuel + fuel, ms, Nat.le_add_right _ _, rowsWhere_of_loop hvalid hdid.loop, hdid.session, hdid.sent, rfl⟩
      · rw [if_neg hvalid] at h
        cases h
        exact ⟨fuel, [], Nat.le_refl _, rowsWhere_of_invalid (Bool.eq_false_iff.mpr hvalid), rfl,
          RowCmd.sends_nil.symm, rfl⟩

/-- With a clause they are done as long as there is a first one. -/
theorem mbWhere_clause_done {e : Hquery.Tree .or} {rows : List Titor} {sent : List Piece} {s : Y2} (hseven : 7 ≤ fuel)
    (hcost : e.translate.cost + 1 ≤ fuel) (hlength : rows.length ≤ fuel) (hscan : Scan cfg fuel db₁ row rows)
    (hheader : ∀ t, row = some t → db₁.pages t.m.gp.header = header)
    (h : (cmd.atClause db₁ session₁ sent row).mbWhere cfg fuel (cmd.loaded (some e)) (cmd.act cfg) cmd.moves = .ok s) :
    ∃ fuel' ms, fuel ≤ fuel' ∧ cmd.Done cfg (some (whereOf cfg.build header e)) fuel' db₁ session₁ row sent s ms := by
  rw [show cmd.loaded (some e) = prepared cmd.tokens e.translate.tokens by rw [e.translate_tokens]; rfl] at h
  have hloop : ∀ x ∈ e.translate.tokens, isLoop x = false := by
    rw [e.translate_tokens]
    exact emitted_isLoop e
  cases hscan with
  | undef =>
      rw [RowCmd.mbWhere_none hseven rfl] at h
      cases h
  | @done t hinvalid =>
      rw [RowCmd.mbWhere_none hseven (show titorValid db₁ (some t) = false from hinvalid)] at h
      cases h
  | @row t next rows hvalid hcontent hvisible hnext hrows =>
      have hscan := Scan.row hvalid hcontent hvisible hnext hrows
      have hends := @RowCmd.mbWhere_rows cfg fuel cmd db₁ session₁ sent e.translate t rows hcost
        (Nat.lt_of_succ_le hlength) hloop hscan
      rw [h] at hends
      cases hfold : (t :: rows).foldlM
          (RowCmd.forRow (fun row => e.translate.eval cfg.build (titorColumns cfg db₁ (some row))) (cmd.act cfg))
          ⟨db₁, session₁, sent, []⟩ with
      | error halt =>
          rw [hfold] at hends
          cases hends
      | ok w =>
          rw [hfold] at hends
          obtain ⟨s', hs, hw, hahead, -⟩ := hends
          cases hs
          obtain ⟨ms, hdid⟩ := RowCmd.did_rows (w := ⟨db₁, session₁, sent, []⟩) hscan (hheader t rfl)
            (ChangedAt.refl db₁)
            ⟨fun _ _ h => (nomatch h), fun _ _ h => (nomatch h)⟩ (fun _ => rfl) hfold
          rw [← hw] at hdid
          exact ⟨_, ms, by omega, rowsWhere_of_loop hvalid hdid.loop, hdid.session, hdid.sent, hahead⟩

theorem openBody_opening {pieces : List Piece} (hheader : ∀ t, row = some t → db₁.pages t.m.gp.header = header)
    (h : cmd.openBody cfg db₁ row = .ok pieces) : pieces = cmd.opening header := by
  cases cmd with
  | delete schema table =>
      cases h
      rfl
  | select schema table name names =>
      cases row with
      | none => cases h
      | some t =>
          by_cases hfits : (RowCmd.select schema table name names).Fits cfg (db₁.pages t.m.gp.header)
          · rw [RowCmd.openBody_eq hfits, hheader t rfl] at h
            exact (Except.ok.inj h).symm
          · rw [RowCmd.openBody_full hfits] at h
            cases h

theorem opened_pages {status : ScrcStatus} (hopen : cmd.opened cfg fuel db session = .ok (db₁, session₁, status, row)) :
    db₁.pages = db.pages := by
  cases cmd with
  | delete schema table => exact (Db.dmlDelete_sameTables hopen).2.1
  | select schema table name names => exact (Db.dmlSelect_sameTables hopen).2.1

theorem sends_congr (h : db.pages = db'.pages) (ms : List Mitor) : cmd.sends db ms = cmd.sends db' ms := by
  cases cmd with
  | delete schema table => rfl
  | select schema table name names =>
      refine List.map_congr_left fun m _ => ?_
      unfold RowCmd.pieceOf
      rw [h]

theorem executeCmd_succeeded {done : Executed}
    (hdone : executeCmd cfg fuel leftover db session (some (cmd.statement clause)) = .ok done)
    (hsucceeded : done.succeeded = true) :
    ∃ s, (Y2.init db session).parse cfg fuel (cmd.loaded clause) leftover = .ok s
      ∧ done = ⟨s.db, s.session, s.sent, true⟩ := by
  unfold executeCmd at hdone
  dsimp only at hdone
  rw [cmd.bcPrepare_statement clause] at hdone
  dsimp only at hdone
  generalize (Y2.init db session).parse cfg fuel (cmd.loaded clause) leftover = result at hdone ⊢
  cases result with
  | ok s =>
      cases hdone
      exact ⟨s, rfl, rfl⟩
  | error halt =>
      cases halt with
      | abort w =>
          cases hdone
          cases hsucceeded
      | fault fault => cases hdone

theorem run_command {cond : Option Where} {status : ScrcStatus} {ms : List Mitor}
    (hopen : cmd.opened cfg fuel db session = .ok (db₁, session₁, .ok, row))
    (hrows : rowsWhere cfg fuel (cmd.applied cfg session₁) cond db₁ row = .ok (db', status, ms)) :
    db.run cfg fuel session (cmd.command cond)
      = .ok (db', session₁, ⟨status, none, ms.map (db'.rowName session₁ cmd.schema cmd.table)⟩) := by
  cases cmd with
  | delete schema table =>
      have hrows : rowsWhere cfg fuel (dmlDeleteRow cfg session₁) cond db₁ row = .ok (db', status, ms) := hrows
      refine bind_eq_ok.mpr ⟨_, hopen, ?_⟩
      dsimp only
      rw [if_neg (not_not.mpr rfl), hrows]
      rfl
  | select schema table name names =>
      have hrows : rowsWhere cfg fuel (fun db _ => .ok db) cond db₁ row = .ok (db', status, ms) := hrows
      refine bind_eq_ok.mpr ⟨_, hopen, ?_⟩
      dsimp only
      rw [if_neg (not_not.mpr rfl), hrows]
      rfl

/-- What the bytecode of a `DELETE` or a `SELECT` does is what the command does on the pages, with the expression for
the clause. -/
theorem rows_of_executed {done : Executed} (hfuel : commandFuel (.row cmd clause) ≤ fuel)
    (hscan : ∀ e db₁ session₁ row, clause = some e → cmd.opened cfg fuel db session = .ok (db₁, session₁, .ok, row) →
      ∃ rows, rows.length ≤ fuel ∧ Scan cfg fuel db₁ row rows)
    (hdone : executeCmd cfg fuel leftover db session (some (cmd.statement clause)) = .ok done)
    (hsucceeded : done.succeeded = true) (hone : OneResponse done.sent) :
    ∃ fuel' db₁ row ms, cmd.opened cfg fuel' db session = .ok (db₁, done.session, .ok, row)
      ∧ rowsWhere cfg fuel' (cmd.applied cfg done.session) (cmd.cond cfg db session clause) db₁ row
          = .ok (done.db, .ok, ms)
      ∧ done.sent = cmd.opening (cmd.header db session) ++ cmd.sends db ms ++ cmd.closing := by
  have hparts : cmd.tokens.length + clauseFuel clause + 7 ≤ fuel := hfuel
  have hanswerable : Answerable cfg fuel db session (.row cmd clause) := by
    refine (answered_iff hfuel (fun cmd' e db₁ session₁ row hc => ?_) hdone).mp hone
    cases hc
    exact hscan e db₁ session₁ row rfl
  obtain ⟨db₁, session₁, row, hopen, -⟩ := hanswerable
  have hheader : ∀ t, row = some t → db₁.pages t.m.gp.header = cmd.header db session := by
    rintro t rfl
    exact RowCmd.opened_header hopen
  obtain ⟨s, hparse, rfl⟩ := executeCmd_succeeded hdone hsucceeded
  rw [parse_rest (by omega) hopen, if_pos rfl] at hparse
  obtain ⟨pieces, hpieces, hrest⟩ := bind_eq_ok.mp hparse
  obtain rfl := openBody_opening hheader (perform_eq_ok hpieces)
  obtain ⟨s₁, hmb, hend⟩ := bind_eq_ok.mp hrest
  have hmore : ∃ fuel' ms, fuel ≤ fuel' ∧ cmd.Done cfg (cmd.cond cfg db session clause) fuel' db₁ session₁ row
      (cmd.opening (cmd.header db session)) s₁ ms := by
    cases clause with
    | none => exact mbWhere_all_done hmb
    | some e =>
        obtain ⟨rows, hlength, hrows⟩ := hscan e db₁ session₁ row rfl hopen
        have hcost : e.translate.cost + 1 ≤ fuel := by
          have hclause : clauseFuel (some e) = e.translate.cost + 1 := rfl
          omega
        exact mbWhere_clause_done (by omega) hcost hlength hrows hheader hmb
  obtain ⟨fuel', ms, hle, hmore⟩ := hmore
  rw [atEnd_send hmore.look] at hend
  obtain rfl := Except.ok.inj hend
  have hsession : (s₁.send cmd.closing).session = session₁ := hmore.session
  refine ⟨fuel', db₁, row, ms, ?_, ?_, ?_⟩
  · rw [hsession]
    exact RowCmd.opened_mono hle hopen
  · rw [hsession]
    exact hmore.rows
  · show s₁.sent ++ cmd.closing = _
    rw [hmore.sent, sends_congr (opened_pages hopen)]

end Executed

end Scroller.Execute

/-! ### Selected rows -/

namespace Scroller.Db

open Execute Outcome

variable {cfg : Config} {fuel : Nat} {db db' db₁ : Db} {gp : GidPair} {header : Grid} {tran : Tran}
  {session session₁ : Session} {ms : List Mitor}

/-- The loop of a `SELECT` goes over rows of the table and changes nothing. -/
theorem rowLoop_selects {cond : Where} {t : Titor} {finished : Bool} (h : db.Walked cfg gp header)
    (ht : db.Reads cfg gp tran t) (hloop : rowLoop cfg (fun db _ => .ok db) cond fuel db t = .ok (db', ms, finished)) :
    db' = db ∧ ∀ m ∈ ms, db.OnMesh gp m ∧ mitorIsValid db m = true := by
  induction fuel generalizing t ms with
  | zero => cases hloop
  | succ fuel ih =>
      rw [rowLoop, ht.titorIsValid_eq h] at hloop
      split at hloop
      next =>
        cases hloop
        exact ⟨rfl, List.forall_mem_nil _⟩
      next hvalid =>
        have hvalid : mitorIsValid db t.m = true := not_not.mp hvalid
        split at hloop
        · cases hloop
          exact ⟨rfl, List.forall_mem_nil _⟩
        · obtain ⟨next, hnext, hloop⟩ := bind_eq_ok.mp hloop
          exact ih (titorNext_passes h ht.tran_eq ht.onMesh hvalid hnext).reads hloop
        · obtain ⟨_, hsame, hloop⟩ := bind_eq_ok.mp hloop
          cases hsame
          obtain ⟨next, hnext, hloop⟩ := bind_eq_ok.mp hloop
          obtain ⟨⟨db₂, ms', finished'⟩, hloop, hresult⟩ := bind_eq_ok.mp hloop
          cases hresult
          obtain ⟨rfl, hms⟩ := ih (titorNext_passes h ht.tran_eq ht.onMesh hvalid hnext).reads hloop
          exact ⟨rfl, List.forall_mem_cons.mpr ⟨⟨ht.onMesh, hvalid⟩, hms⟩⟩

theorem rowsWhere_selects {cond : Option Where} {t : Titor} {status : ScrcStatus} (h : db.Walked cfg gp header)
    (ht : db.Reads cfg gp tran t)
    (hrows : rowsWhere cfg fuel (fun db _ => .ok db) cond db (some t) = .ok (db', status, ms)) :
    db' = db ∧ ∀ m ∈ ms, db.OnMesh gp m ∧ mitorIsValid db m = true := by
  unfold rowsWhere at hrows
  dsimp only at hrows
  cases hvalid : titorIsValid db t with
  | true =>
      rw [hvalid] at hrows
      obtain ⟨⟨db₁, ms₁, finished⟩, hloop, hrows⟩ := bind_eq_ok.mp hrows
      cases hrows
      exact rowLoop_selects h ht hloop
  | false =>
      rw [hvalid] at hrows
      cases hrows
      exact ⟨rfl, List.forall_mem_nil _⟩

/-- The rows that a `SELECT` finds are those of the store under their names. -/
theorem select_found {schema table : List UInt8} {names : List (List UInt8)} {cond : Option Where}
    {status : ScrcStatus} {titor : Option Titor} (h : db.Laid cfg) (hbound : db.sequence.issued < 2 ^ 40)
    (hopen : dmlSelect cfg fuel db session schema table names = .ok (db₁, session₁, .ok, titor))
    (hrows : rowsWhere cfg fuel (fun db _ => .ok db) cond db₁ titor = .ok (db', status, ms)) {m : Mitor}
    (hm : m ∈ ms) :
    ∃ row i, db.relationRow session schema table = some (row, i) ∧ m.gp.header = row.header
      ∧ db.store.row? (db'.rowName session₁ schema table m) = some (db.rowAt m) := by
  cases hfound : db.relationRow session schema table with
  | none =>
      rw [dmlSelect, Execute.findRelation_eq, hfound] at hopen
      cases hopen
  | some found =>
      obtain ⟨row, i⟩ := found
      have htable := (h.tables hbound).table i row (relationRow_eq_some hfound)
      refine ⟨row, i, rfl, ?_⟩
      rw [dmlSelect_found h hbound hfound] at hopen
      split at hopen
      · cases hopen
      rw [RowCmd.openRelation_eq] at hopen
      split at hopen
      next =>
        cases hopen
        cases hrows
        cases hm
      next hdefined =>
        have hdata : row.dataGid ≠ 0 := fun hzero => hdefined (gid_eq_undef_iff.mpr hzero)
        obtain ⟨-, hmesh⟩ := htable.data hdata
        have hcontent : (db.pages row.gids.data).content = .mvcc := hmesh.page.content
        obtain ⟨⟨ts, session₂, status₂⟩, hput, hopen⟩ := bind_eq_ok.mp hopen
        rw [RowCmd.openTran, if_pos hcontent] at hput
        dsimp only at hopen
        split at hopen
        next hstatus =>
          cases hopen
          exact absurd rfl hstatus
        next hstatus =>
          obtain rfl : status₂ = .ok := not_not.mp hstatus
          obtain ⟨t, hinit, hopen⟩ := bind_eq_ok.mp hopen
          obtain ⟨tran, htran⟩ := putTranIfNone_tran hput
          cases hopen
          rw [htran] at hinit
          have hwalked : Walked cfg row.gids (db.pages row.header) { db with trans := ts } :=
            ⟨htable.apart hbound hdata, htable.header, rfl, hmesh.congr rfl rfl⟩
          have hreads := (titorInit_passes hwalked hinit).2.reads
          obtain ⟨rfl, hfinds⟩ := rowsWhere_selects hwalked hreads hrows
          obtain ⟨honmesh, hvalid⟩ := hfinds m hm
          refine ⟨honmesh.header, ?_⟩
          have hname : Db.rowName { db with trans := ts } session₁ schema table m = (i, db.rowNumber row.data m) := by
            have hnamed : Db.relationRow { db with trans := ts } session₁ schema table
                = db.relationRow session schema table := relationRow_congr (putTranIfNone_catalog hput) rfl
            rw [rowName, hnamed, hfound]
            rfl
          have hget := honmesh.getElem? hwalked.isMesh hwalked.apart
          rw [if_pos hvalid] at hget
          have hrelation : db.store.relations[i]? = some (db.relationOf row) := by
            rw [store, List.getElem?_map, relationRow_eq_some hfound]
            rfl
          rw [hname, Store.row?_eq hrelation (by rw [relationOf_of_data hdata])]
          exact hget

end Scroller.Db
