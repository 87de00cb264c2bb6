import Scroller.Proof.ClauseRows
import Scroller.Proof.RowVisibility

/-!
# The rows of an answer

What a `SELECT` sends and what a `DELETE` deletes: the rows that the transaction of the session sees and that the
clause holds of, each once and in the order of the scan. No other row is changed. The commands are those that the
sessions execute, with all their tokens in the array, and the columns of all tables lie apart.
-/

namespace Scroller

open Outcome

/-! ### One scan -/

/-- What a clause says of a row; without one it holds of every row. -/
def holdsOf (cond : Option Where) (row : Row) : Prop := (cond.getD fun _ => some true) row = some true

section

variable {cfg : Config} {flags : Int64 → TranFlag} {tran : Tran} {act : Row → Row} {cond : Where} {n : Nat}
  {rows : List Row} {scan : Scan}

theorem sorted_hits (h : scanRows cfg flags tran act cond n rows = .ok scan) : scan.hits.Pairwise (· < ·) := by
  induction rows generalizing n scan with
  | nil =>
      cases h
      exact List.Pairwise.nil
  | cons row rows ih =>
      rw [scanRows] at h
      obtain ⟨visible, -, h⟩ := bind_eq_ok.mp h
      split at h
      · split at h
        · cases h
          exact List.Pairwise.nil
        · obtain ⟨rest, hrest, h⟩ := bind_eq_ok.mp h
          cases h
          have hsorted := ih hrest
          exact hsorted
        · obtain ⟨rest, hrest, h⟩ := bind_eq_ok.mp h
          cases h
          exact List.pairwise_cons.mpr ⟨fun m hm => le_of_mem_hits hrest hm, ih hrest⟩
      · obtain ⟨rest, hrest, h⟩ := bind_eq_ok.mp h
        cases h
        have hsorted := ih hrest
        exact hsorted

/-- The hits of a scan that went through are the visible rows that the clause holds of. -/
theorem mem_hits_iff (h : scanRows cfg flags tran act cond n rows = .ok scan) (hfinished : scan.finished = true)
    (k : Nat) :
    n + k ∈ scan.hits ↔ ∃ row, rows[k]? = some row
      ∧ tranRowIsVisible cfg flags tran row.tmin row.tmax = .ok true ∧ cond row = some true := by
  induction rows generalizing n k scan with
  | nil =>
      cases h
      simp
  | cons row rows ih =>
      rw [scanRows] at h
      obtain ⟨visible, hvisible, h⟩ := bind_eq_ok.mp h
      have hpassed : ∀ {rest}, scanRows cfg flags tran act cond (n + 1) rows = .ok rest → n ∉ rest.hits :=
        fun hrest hmem => absurd (le_of_mem_hits hrest hmem) (Nat.not_succ_le_self n)
      have htail : ∀ {rest}, scanRows cfg flags tran act cond (n + 1) rows = .ok rest → rest.finished = true →
          ∀ j, n + (j + 1) ∈ rest.hits ↔ ∃ row, rows[j]? = some row
            ∧ tranRowIsVisible cfg flags tran row.tmin row.tmax = .ok true ∧ cond row = some true := by
        intro rest hrest hdone j
        rw [← ih hrest hdone j, Nat.add_right_comm, Nat.add_assoc]
      split at h
      next hseen =>
        rw [hseen] at hvisible
        split at h
        · cases h
          cases hfinished
        next hcond =>
          obtain ⟨rest, hrest, h⟩ := bind_eq_ok.mp h
          cases h
          cases k with
          | zero =>
              have hnot := hpassed hrest
              refine iff_of_false hnot ?_
              rintro ⟨row', hrow, -, htrue⟩
              cases hrow
              rw [hcond] at htrue
              cases htrue
          | succ k =>
              have hrest' := htail hrest hfinished k
              exact hrest'
        next hcond =>
          obtain ⟨rest, hrest, h⟩ := bind_eq_ok.mp h
          cases h
          cases k with
          | zero => exact iff_of_true List.mem_cons_self ⟨row, rfl, hvisible, hcond⟩
          | succ k =>
              have hrest' := htail hrest hfinished k
              refine List.mem_cons.trans ((or_iff_right (by omega)).trans ?_)
              exact hrest'
      next hhidden =>
        obtain ⟨rest, hrest, h⟩ := bind_eq_ok.mp h
        cases h
        cases k with
        | zero =>
            have hnot := hpassed hrest
            refine iff_of_false hnot ?_
            rintro ⟨row', hrow, hseen, -⟩
            cases hrow
            rw [hvisible] at hseen
            exact hhidden (Except.ok.inj hseen)
        | succ k =>
            have hrest' := htail hrest hfinished k
            exact hrest'

end

/-! ### One command -/

/-- The rows of a table that an answer consists of. -/
structure Answers (cfg : Config) (store : Store) (flags : Int64 → TranFlag) (session : Session) (i : Nat)
    (cond : Option Where) (rows : List (Nat × Nat)) : Prop where
  table : ∀ name ∈ rows, name.1 = i
  sorted : rows.Pairwise fun a b => a.2 < b.2
  tran : ∀ {n row}, store.row? (i, n) = some row → session.tran ≠ none
  mem : ∀ n, (i, n) ∈ rows ↔ ∃ row tran, store.row? (i, n) = some row ∧ session.tran = some tran
    ∧ tranRowIsVisible cfg flags tran row.tmin row.tmax = .ok true ∧ holdsOf cond row

namespace Store

variable {cfg : Config} {store store' : Store} {session session' : Session} {reply : Reply}
  {schema table : List UInt8} {t : Relation} {i : Nat} {cond : Option Where}

theorem finished_of_status {scan : Scan} (h : scan.status cond = .ok) : scan.finished = true := by
  unfold Scan.status at h
  split at h
  · cases h
  · rename_i hdone
    exact not_not.mp hdone

theorem scan_answers {act : Tran → Row → Row} (hget : store.relations[i]? = some t)
    (h : store.scan cfg session t i act cond = .ok (store', session', reply)) (hok : reply.status = .ok) :
    Answers cfg store store'.trans.flags session' i cond reply.rows := by
  unfold scan at h
  split at h
  next hdata =>
    cases h
    have hnone : ∀ n, store.row? (i, n) = none := by
      intro n
      simp [row?, hget, hdata]
    refine ⟨fun name hname => absurd hname List.not_mem_nil, List.Pairwise.nil, fun hrow => ?_, fun n => ?_⟩
    · rw [hnone] at hrow
      cases hrow
    · refine iff_of_false List.not_mem_nil ?_
      rintro ⟨row, tran, hrow, -⟩
      rw [hnone] at hrow
      cases hrow
  next mesh hdata =>
    obtain ⟨⟨ts, session₁, status⟩, -, h⟩ := bind_eq_ok.mp h
    dsimp only at h
    split at h
    next tran htran =>
      split at h
      · cases h
      · obtain ⟨scan, hscan, h⟩ := bind_eq_ok.mp h
        cases h
        have hfinished := finished_of_status hok
        refine ⟨fun name hname => ?_, ?_, fun _ => ?_, fun n => ?_⟩
        · obtain ⟨n, -, rfl⟩ := List.mem_map.mp hname
          rfl
        · exact List.pairwise_map.mpr (sorted_hits hscan)
        · rw [htran]
          exact Option.some_ne_none tran
        · have hmem : (i, n) ∈ scan.hits.map (fun n => (i, n)) ↔ n ∈ scan.hits := by simp
          have hhits := mem_hits_iff hscan hfinished n
          rw [Nat.zero_add] at hhits
          rw [hmem, hhits, row?_eq hget hdata]
          constructor
          · rintro ⟨row, hrow, hvisible, hcond⟩
            exact ⟨row, tran, hrow, htran, hvisible, hcond⟩
          · rintro ⟨row, tran', hrow, htran', hvisible, hcond⟩
            obtain rfl : tran' = tran := Option.some.inj (htran'.symm.trans htran)
            exact ⟨row, hrow, hvisible, hcond⟩
    · cases h
    next hsome hnone =>
      cases h
      cases htran : session'.tran with
      | none => exact absurd htran (hnone hok)
      | some tran => exact absurd htran (hsome tran hok)

theorem of_select {names : List (List UInt8)}
    (h : store.run cfg session (.select schema table names cond) = .ok (store', session', reply))
    (hok : reply.status = .ok) :
    ∃ t i, store.find session schema table = some (t, i)
      ∧ Answers cfg store store'.trans.flags session' i cond reply.rows
      ∧ ∀ name, store'.row? name = store.row? name := by
  rw [run, select] at h
  split at h
  · cases h
    cases hok
  next t i hfind =>
    split at h
    · cases h
      cases hok
    · refine ⟨t, i, hfind, scan_answers (getElem?_of_find hfind) h hok, fun name => ?_⟩
      rcases (scan_row (getElem?_of_find hfind) h name).2 with ⟨-, hsame⟩ | ⟨row, tran, -, -, hrow, -, hrow'⟩
      · exact hsame
      · exact hrow'.trans hrow.symm

theorem of_delete (h : store.run cfg session (.delete schema table cond) = .ok (store', session', reply))
    (hok : reply.status = .ok) :
    ∃ t i, store.find session schema table = some (t, i)
      ∧ Answers cfg store store'.trans.flags session' i cond reply.rows
      ∧ ∀ name, (name ∉ reply.rows → store'.row? name = store.row? name)
        ∧ (name ∈ reply.rows → ∃ row tran, store.row? name = some row ∧ session'.tran = some tran
          ∧ store'.row? name = some (row.setTmax tran.key)) := by
  rw [run, delete] at h
  split at h
  · cases h
    cases hok
  next t i hfind =>
    refine ⟨t, i, hfind, scan_answers (getElem?_of_find hfind) h hok, fun name => ?_⟩
    rcases (scan_row (getElem?_of_find hfind) h name).2 with ⟨hnot, hsame⟩ | ⟨row, tran, hmem, htran, hrow, -, hrow'⟩
    · exact ⟨fun _ => hsame, fun hmem => absurd hmem hnot⟩
    · exact ⟨fun hnot => absurd hmem hnot, fun _ => ⟨row, tran, hrow, htran, hrow'⟩⟩

end Store

/-! ### Executed commands -/

namespace Execute.RowCmd

/-- A command with all its tokens in the array of its session, on a table whose scan ends. -/
structure Asked (cfg : Config) (fuel : Nat) (db : Db) (session : Session) (cmd : RowCmd)
    (clause : Option (Hquery.Tree .or)) (tokens : Option (List BcNode)) : Prop where
  put : ∃ zero bc bc', Bc.Reachable cfg.build zero bc ∧ (cmd.statement clause).length ≤ bc.room cfg.build
    ∧ bc.puts cfg.build (cmd.statement clause) = .ok bc' ∧ tokens = bc'.tokens.map DynArray.toList
  enough : commandFuel (.row cmd clause) ≤ fuel
  ends : ∀ e db₁ session₁ row, clause = some e → cmd.opened cfg fuel db session = .ok (db₁, session₁, .ok, row) →
    ∃ rows, rows.length ≤ fuel ∧ Execute.Scan cfg fuel db₁ row rows

/-- A command with a clause that has done for all rows what it is to do is answered once and without an error. -/
theorem executes_of_accepted {cfg : Config} {fuel : Nat} {leftover : Option Tran} {s : Cluster Db} {sid : Nat}
    {cmd : RowCmd} {bc : Bc BcNode} {zero : BcNode} {e : Hquery.Tree .or} {db₁ : Db} {session₁ : Session} {row : Titor}
    {rows : List Titor} {w : Work} {delivered : List BcNode} (hbc : Bc.Reachable cfg.build zero bc)
    (hroom : (cmd.bytecode e).length ≤ bc.room cfg.build) (hfuel : commandFuel (.row cmd (some e)) ≤ fuel)
    (hrows : rows.length < fuel)
    (hopen : cmd.opened cfg fuel s.db (s.sessions sid) = .ok (db₁, session₁, .ok, some row))
    (hscan : Execute.Scan cfg fuel db₁ (some row) (row :: rows))
    (hfits : cmd.Fits cfg (cmd.header s.db (s.sessions sid)))
    (haccepted : cmd.reference cfg e (cmd.header s.db (s.sessions sid)) db₁ session₁ (row :: rows)
      = .accepted w delivered) :
    ∃ tokens s' answer, cmd.Asked cfg fuel s.db (s.sessions sid) (some e) tokens
      ∧ s.execute cfg ⟨sid, tokens, leftover, fuel⟩ = .ok (s', answer) ∧ answer.succeeded = true
      ∧ OneResponse answer.sent := by
  have hparts : cmd.tokens.length + (e.translate.cost + 1) + 7 ≤ fuel := hfuel
  have htakes : bc.Takes cfg.build (cmd.bytecode e) := hbc.clean.takes hroom
  have hrun := @run_rows cfg fuel cmd bc s.db (s.sessions sid) leftover e _ _ _ _ htakes (by omega) (by omega) hrows
    hopen
    hscan hfits
  rw [run_of_takes htakes, haccepted] at hrun
  have hdone := executeCmd_accepted hrun
  obtain ⟨bc', hputs, hlist⟩ := htakes
  rw [← Bc.map_tokens hlist (List.append_ne_nil_of_right_ne_nil _ (List.cons_ne_nil _ _))] at hdone
  refine ⟨_, _, _, ⟨⟨zero, bc, bc', hbc, hroom, hputs, rfl⟩, hfuel, fun e' db₂ session₂ row₂ _ hopen' => ?_⟩,
    bind_eq_ok.mpr ⟨_, hdone, rfl⟩, rfl, reference_answered haccepted⟩
  rw [hopen] at hopen'
  cases hopen'
  exact ⟨row :: rows, hrows, hscan⟩

/-- The rows with some names are sent behind the columns and in front of the end. -/
def Delivers (store : Store) (header : Grid) (cmd : RowCmd) (names : List (Nat × Nat)) (sent : List Piece) : Prop :=
  ∃ rows : List Row, names.map store.row? = rows.map some
    ∧ sent = cmd.opening header ++ rows.map (.row (hgridGetRowSize header)) ++ cmd.closing

end Execute.RowCmd

namespace Cluster

open Execute

variable {cfg : Config} {fuel : Nat} {s s' : Cluster Db} {sid : Nat} {cmd : Command} {reply : Reply}
  {schema table name : List UInt8} {names : List (List UInt8)}

theorem Ready.store_run (h : s.Ready cfg) (hissued : s.db.sequence.issued + 1 < 2 ^ 40)
    (hstep : s.step (Db.run cfg fuel) (sid, cmd) = .ok (s', reply)) :
    s.db.store.run cfg (s.sessions sid) cmd = .ok (s'.db.store, s'.sessions sid, reply) := by
  obtain ⟨session', hrun, hsessions⟩ := step_eq_ok.mp (step_store h hissued hstep)
  have hsession : s'.sessions sid = session' := by
    show s'.store.sessions sid = session'
    rw [hsessions, Function.update_self]
  rw [hsession]
  exact hrun

section Asked

variable {leftover : Option Tran} {rowCmd : RowCmd} {clause : Option (Hquery.Tree .or)}
  {tokens : Option (List BcNode)} {answer : Executed}
  (hasked : rowCmd.Asked cfg fuel s.db (s.sessions sid) clause tokens)
  (hexecute : s.execute cfg ⟨sid, tokens, leftover, fuel⟩ = .ok (s', answer)) (hsucceeded : answer.succeeded = true)
  (hone : OneResponse answer.sent)
include hasked hexecute hsucceeded hone

/-- What the bytecode of a command does is what the command does on the pages of its table. -/
theorem asked_rows :
    ∃ fuel' db₁ row ms, rowCmd.opened cfg fuel' s.db (s.sessions sid) = .ok (db₁, s'.sessions sid, .ok, row)
      ∧ rowsWhere cfg fuel' (rowCmd.applied cfg (s'.sessions sid)) (rowCmd.cond cfg s.db (s.sessions sid) clause) db₁ row
          = .ok (s'.db, .ok, ms)
      ∧ answer.sent = rowCmd.opening (rowCmd.header s.db (s.sessions sid)) ++ rowCmd.sends s.db ms ++ rowCmd.closing
      ∧ s.step (Db.run cfg fuel') (sid, rowCmd.command (rowCmd.cond cfg s.db (s.sessions sid) clause))
          = .ok (s', ⟨.ok, none, ms.map (s'.db.rowName (s'.sessions sid) rowCmd.schema rowCmd.table)⟩) := by
  obtain ⟨done, hdone, hexecute⟩ := bind_eq_ok.mp hexecute
  cases hexecute
  obtain ⟨zero, bc, bc', hbc, hroom, hputs, rfl⟩ := hasked.put
  have htokens : bc'.tokens.map DynArray.toList = some (rowCmd.statement clause) := by
    rcases hbc.clean.executed hroom hputs with htokens | hnone
    · exact htokens
    · rw [hnone] at hdone
      cases hdone
  rw [htokens] at hdone
  obtain ⟨fuel', db₁, row, ms, hopen, hrows, hsent⟩ :=
    rows_of_executed hasked.enough hasked.ends hdone hsucceeded hone
  refine ⟨fuel', db₁, row, ms, ?_, ?_, hsent, ?_⟩
  · dsimp only
    rw [Function.update_self]
    exact hopen
  · dsimp only
    rw [Function.update_self]
    exact hrows
  · dsimp only
    rw [Function.update_self]
    exact step_eq_ok.mpr ⟨answer.session, run_command hopen hrows, rfl⟩

end Asked

section Select

variable {leftover : Option Tran} {clause : Option (Hquery.Tree .or)} {tokens : Option (List BcNode)}
  {answer : Executed}

theorem select_delivers
    (hasked : (RowCmd.select schema table name names).Asked cfg fuel s.db (s.sessions sid) clause tokens)
    (hexecute : s.execute cfg ⟨sid, tokens, leftover, fuel⟩ = .ok (s', answer)) (hsucceeded : answer.succeeded = true)
    (hone : OneResponse answer.sent) (hlaid : s.db.Laid cfg) (hbound : s.db.sequence.issued < 2 ^ 40) :
    ∃ fuel' rows, s.step (Db.run cfg fuel') (sid, .select schema table (name :: names) ((RowCmd.select schema table
          name names).cond cfg s.db (s.sessions sid) clause)) = .ok (s', ⟨.ok, none, rows⟩)
      ∧ (RowCmd.select schema table name names).Delivers s.db.store
          ((RowCmd.select schema table name names).header s.db (s.sessions sid)) rows answer.sent := by
  obtain ⟨fuel', db₁, row, ms, hopen, hrows, hsent, hstep⟩ := asked_rows hasked hexecute hsucceeded hone
  refine ⟨fuel', _, hstep, ms.map s.db.rowAt, ?_, ?_⟩
  · rw [List.map_map, List.map_map]
    refine List.map_congr_left fun m hm => ?_
    obtain ⟨-, -, -, -, hrow⟩ := Db.select_found hlaid hbound hopen hrows hm
    exact hrow
  · rw [hsent, List.map_map]
    refine congrArg (fun pieces => _ ++ pieces ++ _) (List.map_congr_left fun m hm => ?_)
    obtain ⟨found, i, hfound, hheader, -⟩ := Db.select_found hlaid hbound hopen hrows hm
    have hpage : (RowCmd.select schema table name names).header s.db (s.sessions sid) = s.db.pages found.header := by
      unfold RowCmd.header
      dsimp only
      rw [hfound]
    rw [hpage, ← hheader]
    rfl

end Select

end Cluster

end Scroller
