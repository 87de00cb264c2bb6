import Scroller.Proof.SafeScans
import Scroller.Proof.StoredRuns

/-!
# Scans of tables

A `DELETE` or a `SELECT` looks at occupied rows only and fails no assertion, if its table has a row to start
from and the versions of the rows are in order. A `SELECT` on a table without rows is not answered.
-/

namespace Scroller.Execute

open Outcome

namespace RowCmd

/-- The columns of the command are in the header page of its table. -/
def HasColumns (header : Grid) : RowCmd → Prop
  | .delete _ _ => True
  | .select _ _ name names => columnIndices header (name :: names) ≠ none

/-- The command goes over the columns of its table: it sends them, or its clause has a name. -/
def LooksAtColumns (cmd : RowCmd) (clause : Option (Hquery.Tree .or)) : Prop :=
  cmd.IsSelect ∨ ∃ e, clause = some e ∧ ∃ d, BcNode.datum d ∈ e.emitted ∧ d.type = .name

end RowCmd

/-- The table of a command is ready to be scanned: it has data where it is selected from, its first data page
has a row, and a debug build finds the header page not full where it looks for columns, the transaction of the
session and the versions of all rows in order. -/
structure Scannable (cfg : Config) (db : Db) (session : Session) (cmd : RowCmd)
    (clause : Option (Hquery.Tree .or)) (row : RelationRow) : Prop where
  data : cmd.IsSelect → row.dataGid ≠ 0
  occupied : row.dataGid ≠ 0 → 0 < (db.pages row.data).occupied
  columns : cfg.build = .debug → row.dataGid ≠ 0 → cmd.LooksAtColumns clause →
    (db.pages row.header).occupied < (db.pages row.header).rown
  tran : cfg.build = .debug → row.dataGid ≠ 0 → session.key db.trans ≠ none
  rows : cfg.build = .debug → row.dataGid ≠ 0 → ∀ key, session.key db.trans = some key →
    ∀ r ∈ (db.mesh row.data).rows, r.Judged key

/-! ### Opening the table -/

section Open

variable {cfg : Config} {fuel : Nat} {db : Db} {session : Session}

theorem findRelation_eq {schema table : List UInt8} :
    findRelation cfg db session schema table false false
      = match db.relationRow session schema table with
        | none => .ok (db, ⟨.undef, .undef⟩)
        | some (row, _) => do
            cfg.build.assert (row.headerGid ≠ 0)
            return (db, row.gids) := by
  unfold findRelation
  cases db.relationRow session schema table with
  | none => rfl
  | some found => rfl

theorem putTranIfNone_ensures (hts : db.trans.Plain) (hsession : session.Positive)
    (hcatalog : cfg.build = .debug → session.key db.trans ≠ none) :
    Ensures (fun r => r.2.2 = .ok → ∃ tran, r.2.1.tran = some tran ∧ 0 < tran.key
        ∧ session.key db.trans = some tran.key)
      Fault.Tolerated (putTranIfNone cfg db.trans session) := by
  unfold putTranIfNone
  unfold Session.key at hcatalog ⊢
  apply Ensures.ite
  · intro hnone
    rw [hnone] at hcatalog ⊢
    refine (tranPut_ensures (fun _ h => h) hts (Or.inr hcatalog) true).post fun r hr hstatus => ?_
    obtain ⟨tran, htran, hkey⟩ := hr.2.2 hstatus
    exact ⟨tran, htran, hr.2.1 tran htran, hkey⟩
  · intro hsome
    obtain ⟨tran, htran⟩ := Option.ne_none_iff_exists'.mp hsome
    refine ensures_ok fun _ => ⟨tran, htran, hsession tran htran, ?_⟩
    rw [htran]

/-- What a command has found: nothing to scan, or an iterator over the data of its table. -/
def Opened (cfg : Config) (cmd : RowCmd) (clause : Option (Hquery.Tree .or))
    (r : Db × Session × ScrcStatus × Option Titor) : Prop :=
  r.2.2.2 = none ∧ (r.2.2.1 = .ok → ¬ cmd.IsSelect) ∨
    ∃ gp header tran t, r.2.2.2 = some t ∧ r.1.Scanned cfg gp header tran ∧ r.2.1.tran = some tran
      ∧ t.tran = some tran ∧ r.1.OnMesh gp t.m
      ∧ (cmd.LooksAtColumns clause → cfg.build = .debug → header.occupied < header.rown)

section Tables

variable {cmd : RowCmd} {clause : Option (Hquery.Tree .or)} (h : db.Laid cfg)
  (hbound : db.sequence.issued < 2 ^ 40) (hsession : session.Positive)
include h hbound

theorem findRelation_ensures {α : Type} {Q : α → Prop} {schema table : List UInt8}
    {f : Db × GidPair → Except Fault α}
    (hnone : db.relationRow session schema table = none →
      Ensures Q Fault.Tolerated (f (db, ⟨.undef, .undef⟩)))
    (hsome : ∀ row i, db.relationRow session schema table = some (row, i) → row.gids.header ≠ .undef →
      Ensures Q Fault.Tolerated (f (db, row.gids))) :
    Ensures Q Fault.Tolerated (findRelation cfg db session schema table false false >>= f) := by
  rw [findRelation_eq]
  cases hrow : db.relationRow session schema table with
  | none => exact hnone hrow
  | some found =>
      obtain ⟨row, i⟩ := found
      have htable := (h.tables hbound).table i row (Db.relationRow_eq_some hrow)
      have hheader : row.gids.header ≠ .undef := htable.ne_undef (Or.inl rfl)
      have hgid : row.headerGid ≠ 0 := fun hzero => hheader (Db.gid_eq_undef_iff.mpr hzero)
      dsimp only
      rw [Build.assert_of _ hgid]
      exact hsome row i hrow hheader

include hsession

theorem openRelation_ensures {i : Nat} {row : RelationRow} (hrow : db.relation.rows[i]? = some row)
    (hscan : Scannable cfg db session cmd clause row) :
    Ensures (Opened cfg cmd clause) Fault.Tolerated (openRelation cfg fuel db session row.gids) := by
  have htable := (h.tables hbound).table i row hrow
  rw [RowCmd.openRelation_eq]
  apply Ensures.ite
  · intro hundef
    have hdata : row.dataGid = 0 := Db.gid_eq_undef_iff.mp hundef
    exact ensures_ok (Or.inl ⟨rfl, fun _ hselect => hscan.data hselect hdata⟩)
  · intro hdefined
    have hdata : row.dataGid ≠ 0 := fun hzero => hdefined (Db.gid_eq_undef_iff.mpr hzero)
    obtain ⟨-, hmesh⟩ := htable.data hdata
    have hcontent : (db.pages row.gids.data).content = .mvcc := hmesh.page.content
    unfold RowCmd.openTran
    rw [if_pos hcontent]
    apply (putTranIfNone_ensures h.catalog hsession fun hdebug => hscan.tran hdebug hdata).bind
    rintro ⟨ts, session₁, status⟩ hput
    apply Ensures.ite
    · exact fun hstatus => ensures_ok (Or.inl ⟨rfl, fun hok => absurd hok hstatus⟩)
    · intro hstatus
      obtain ⟨tran, htran, hpos, hkey⟩ := hput (not_not.mp hstatus)
      have hscanned : Db.Scanned cfg row.gids (db.pages row.header) tran { db with trans := ts } :=
        ⟨htable.apart hbound hdata, htable.header, rfl, hmesh.congr rfl rfl, hpos,
          fun hdebug => hscan.rows hdebug hdata tran.key hkey⟩
      dsimp only at htran ⊢
      rw [htran]
      apply (hscanned.init (fun _ h => h) (hscan.occupied hdata) ⟨nofun, nofun⟩).bind
      rintro t ⟨ht, hm⟩
      exact ensures_ok (Or.inr ⟨row.gids, _, tran, t, rfl, hscanned, htran, ht, hm,
        fun hcolumns hdebug => hscan.columns hdebug hdata hcolumns⟩)

theorem opened_ensures
    (hscan : ∀ row i, db.relationRow session cmd.schema cmd.table = some (row, i) →
      cmd.HasColumns (db.pages row.header) → Scannable cfg db session cmd clause row) :
    Ensures (Opened cfg cmd clause) Fault.Tolerated (cmd.opened cfg fuel db session) := by
  cases cmd with
  | delete schema table =>
      apply findRelation_ensures h hbound
      · exact fun _ => ensures_ok (Or.inl ⟨rfl, nofun⟩)
      · intro row i hrow hheader
        dsimp only
        rw [if_neg hheader]
        exact openRelation_ensures h hbound hsession (Db.relationRow_eq_some hrow) (hscan row i hrow trivial)
  | select schema table name names =>
      apply findRelation_ensures h hbound
      · exact fun _ => ensures_ok (Or.inl ⟨rfl, nofun⟩)
      · intro row i hrow hheader
        dsimp only
        rw [if_neg hheader]
        split
        · exact ensures_ok (Or.inl ⟨rfl, nofun⟩)
        · rename_i indices hindices
          have hcolumns : (RowCmd.select schema table name names).HasColumns (db.pages row.header) := by
            show columnIndices (db.pages row.gids.header) (name :: names) ≠ none
            rw [hindices]
            exact nofun
          exact openRelation_ensures h hbound hsession (Db.relationRow_eq_some hrow)
            (hscan row i hrow hcolumns)

end Tables

end Open

/-! ### The bytecode -/

section Bytecode

variable {pre body : List BcNode}

theorem loopTokens_isLoop {n m i : Nat} {x : BcNode} (hpre : ∀ x ∈ pre, isLoop x = false)
    (hbody : ∀ x ∈ body, isLoop x = false) (hx : (loopTokens pre body n m)[i]? = some x)
    (hloop : isLoop x = true) :
    i = pre.length + 1 ∧ x = .loopBegin n ∨ i = pre.length + 2 + body.length ∧ x = .loopEnd m := by
  have hbound : i < pre.length + body.length + 3 := by
    have hlt := (List.getElem?_eq_some_iff.mp hx).1
    rwa [loopTokens_length] at hlt
  have hother {xs : List BcNode} (hxs : ∀ x ∈ xs, isLoop x = false) (hmem : x ∈ xs) : False := by
    have hfalse := hxs x hmem
    rw [hloop] at hfalse
    cases hfalse
  rcases Nat.lt_trichotomy i pre.length with hlt | rfl | hgt
  · rw [loopTokens_pre hlt] at hx
    exact (hother hpre (List.mem_of_getElem? hx)).elim
  · rw [loopTokens_wher] at hx
    cases hx
    cases hloop
  · rcases Nat.lt_trichotomy i (pre.length + 2 + body.length) with hlt | rfl | hgt'
    · obtain rfl | hle := Nat.eq_or_lt_of_le (Nat.succ_le_of_lt hgt)
      · rw [loopTokens_begin] at hx
        cases hx
        exact Or.inl ⟨rfl, rfl⟩
      · obtain ⟨j, rfl⟩ := Nat.exists_eq_add_of_le (show pre.length + 2 ≤ i from hle)
        rw [loopTokens_body (by omega)] at hx
        exact (hother hbody (List.mem_of_getElem? hx)).elim
    · rw [loopTokens_end] at hx
      cases hx
      exact Or.inr ⟨rfl, rfl⟩
    · omega

theorem hasLoop_prepared (hpre : ∀ x ∈ pre, isLoop x = false) (hbody : ∀ x ∈ body, isLoop x = false) :
    HasLoop (prepared pre body) (pre.length + 1) (pre.length + 2 + body.length) where
  lt := by omega
  loopBegin i integer hx := by
    rcases loopTokens_isLoop hpre hbody hx rfl with ⟨hi, heq⟩ | ⟨-, heq⟩
    · cases heq
      exact ⟨hi, by omega⟩
    · cases heq
  loopEnd i integer hx := by
    rcases loopTokens_isLoop hpre hbody hx rfl with ⟨-, heq⟩ | ⟨hi, -⟩
    · cases heq
    · exact hi
  first x hx := by
    rw [prepared, loopTokens_begin] at hx
    cases hx
    rfl

theorem hasLoop_none (hpre : ∀ x ∈ pre, isLoop x = false) : HasLoop pre pre.length (pre.length + 1) where
  lt := Nat.lt_succ_self _
  loopBegin i integer hx := nomatch hpre _ (List.mem_of_getElem? hx)
  loopEnd i integer hx := nomatch hpre _ (List.mem_of_getElem? hx)
  first x hx := by
    rw [List.getElem?_eq_none (Nat.le_refl _)] at hx
    cases hx

end Bytecode

namespace RowCmd

/-- The tokens that the second parser gets for a command. -/
def loaded (cmd : RowCmd) : Option (Hquery.Tree .or) → List BcNode
  | none => cmd.tokens
  | some e => prepared cmd.tokens e.emitted

theorem bcPrepare_statement (cmd : RowCmd) (clause : Option (Hquery.Tree .or)) :
    bcPrepare (cmd.statement clause) = .ok (cmd.loaded clause) := by
  cases clause with
  | none => exact bcPrepare_plain (tokens_isLoop cmd)
  | some e =>
      have hbytecode : cmd.bytecode e = loopTokens cmd.tokens e.emitted 0 0 := by
        simp [bytecode, loopTokens]
      unfold statement
      dsimp only
      rw [hbytecode]
      exact bcPrepare_loop (tokens_isLoop cmd) (emitted_isLoop e)

theorem datum_not_mem (cmd : RowCmd) (d : Datum) : BcNode.datum d ∉ cmd.tokens := by
  cases cmd with
  | delete schema table => simp [tokens]
  | select schema table name names => simp [tokens]

theorem datum_mem_loaded {cmd : RowCmd} {clause : Option (Hquery.Tree .or)} {d : Datum}
    (hd : BcNode.datum d ∈ cmd.loaded clause) : ∃ e, clause = some e ∧ BcNode.datum d ∈ e.emitted := by
  cases clause with
  | none => exact absurd hd (cmd.datum_not_mem d)
  | some e =>
      simp only [loaded, prepared, loopTokens, List.mem_append, List.mem_cons, reduceCtorEq, false_or,
        List.not_mem_nil, or_false] at hd
      exact ⟨e, rfl, hd.resolve_left (cmd.datum_not_mem d)⟩

theorem loaded_tokens (cmd : RowCmd) (clause : Option (Hquery.Tree .or)) {j : Nat}
    (hj : j < cmd.tokens.length) : (cmd.loaded clause)[j]? = cmd.tokens[j]? := by
  cases clause with
  | none => rfl
  | some e => exact loopTokens_pre hj

/-- The loop of a command stands behind the tokens of the command. -/
theorem exists_hasLoop (cmd : RowCmd) (clause : Option (Hquery.Tree .or)) :
    ∃ first last, HasLoop (cmd.loaded clause) first last ∧ cmd.tokens.length ≤ first := by
  cases clause with
  | none => exact ⟨_, _, hasLoop_none (tokens_isLoop cmd), Nat.le_refl _⟩
  | some e => exact ⟨_, _, hasLoop_prepared (tokens_isLoop cmd) (emitted_isLoop e), Nat.le_succ _⟩

end RowCmd

/-! ### Commands -/

def Halt.Tolerated (halt : Halt) : Prop := ∀ fault, halt = .fault fault → fault.Tolerated

section Parse

variable {cfg : Config} {fuel : Nat} {cmd : RowCmd} {clause : Option (Hquery.Tree .or)}
  {leftover : Option Tran} {db : Db} {session : Session}

/-- The parser has what it needs to go over the rows. -/
def Ready (cfg : Config) (fuel : Nat) (cmd : RowCmd) (clause : Option (Hquery.Tree .or)) (s : Y2) : Prop :=
  ∃ c : Contract, c.Kept cfg fuel (cmd.loaded clause) ∧ c.KeptBy (cmd.act cfg)
    ∧ c.fault = Fault.Tolerated ∧ c.Holds s

theorem Contract.tolerated {c : Contract} (hc : c.fault = Fault.Tolerated) {α : Type} {Q : α → Prop}
    {x : Except Halt α} (hx : Ensures Q c.halt x) : Ensures Q Halt.Tolerated x := by
  refine hx.mono (fun _ h => h) fun halt hhalt fault heq => ?_
  rw [heq] at hhalt
  rw [← hc]
  exact hhalt

theorem atClause_ensures {Q : Y2 → Prop} {f : Y2 → Except Halt Y2}
    (hf : ∀ s, Ready cfg fuel cmd clause s → Ensures Q Halt.Tolerated (f s))
    {status : ScrcStatus} {row : Option Titor} (hopen : Opened cfg cmd clause (db, session, status, row)) :
    Ensures Q Halt.Tolerated
      (if status = .ok then do
          let pieces ← Y2.perform (cmd.openBody cfg db row)
          f (cmd.atClause db session pieces row)
        else f (cmd.atClause db session [.status status] none)) := by
  obtain ⟨first, last, hloop, hle⟩ := cmd.exists_hasLoop clause
  have hknown (d : Datum) (hd : BcNode.datum d ∈ cmd.loaded clause) : Known d := by
    obtain ⟨e, -, hmem⟩ := RowCmd.datum_mem_loaded hd
    obtain ⟨v, rfl⟩ := (emitted_isExprToken e _ hmem).2.2 d rfl
    exact known_value v
  rcases hopen with ⟨hnone, hselect⟩ | ⟨gp, header, tran, t, hrow, hscanned, hsession, htran, hm, hfits⟩
  · dsimp only at hnone hselect
    subst hnone
    have hready (sent : List Piece) : Ready cfg fuel cmd clause (cmd.atClause db session sent none) :=
      ⟨noScanContract first last, noScan_kept hloop hknown, noScan_act cmd, rfl,
        ⟨True.intro, rfl, ⟨rfl, fun _ => Or.inl hle⟩, nofun⟩⟩
    apply Ensures.ite
    · intro hok
      cases cmd with
      | delete schema table => exact hf _ (hready [])
      | select schema table name names => exact absurd True.intro (hselect hok)
    · exact fun _ => hf _ (hready _)
  · dsimp only at hrow hscanned hsession hm
    subst hrow
    have htokens (d : Datum) (hd : BcNode.datum d ∈ cmd.loaded clause) :
        Known d ∧ (d.type = .name → cfg.build = .debug → header.occupied < header.rown) := by
      obtain ⟨e, hclause, hmem⟩ := RowCmd.datum_mem_loaded hd
      exact ⟨hknown d hd, fun hname => hfits (Or.inr ⟨e, hclause, d, hmem, hname⟩)⟩
    have hready (sent : List Piece) (row : Option Titor) (hrow : ∀ u, row = some u → u = t) :
        Ready cfg fuel cmd clause (cmd.atClause db session sent row) := by
      have htitor : ∀ u, row = some u → u.tran = some tran ∧ db.OnMesh gp u.m := by
        intro u hu
        rw [hrow u hu]
        exact ⟨htran, hm⟩
      exact ⟨scanContract cfg gp header tran first last, scan_kept hloop htokens, scan_act cmd, rfl,
        ⟨⟨hscanned, hsession⟩, htitor, ⟨htitor, fun _ => Or.inl hle⟩, nofun⟩⟩
    apply Ensures.ite
    · intro _
      have hheader : db.pages t.m.gp.header = header := hm.header ▸ hscanned.found
      have hcmd : cmd.Fits cfg (db.pages t.m.gp.header) := by
        rw [hheader]
        cases cmd with
        | delete schema table => exact True.intro
        | select schema table name names => exact hfits (Or.inl True.intro)
      rw [RowCmd.openBody_eq hcmd]
      exact hf _ (hready _ _ fun u hu => (Option.some.inj hu).symm)
    · exact fun _ => hf _ (hready _ _ nofun)

theorem parse_ensures (hfuel : cmd.tokens.length ≤ fuel)
    (hopen : Ensures (Opened cfg cmd clause) Fault.Tolerated (cmd.opened cfg fuel db session)) :
    Ensures (fun _ => True) Halt.Tolerated
      ((Y2.init db session).parse cfg fuel (cmd.loaded clause) leftover) := by
  unfold Y2.parse
  rw [RowCmd.cmd_eq hfuel fun j hj => cmd.loaded_tokens clause hj]
  refine Ensures.bind (show Ensures (Ready cfg fuel cmd clause) Halt.Tolerated _ from ?_) ?_
  · have hperform : Ensures (Opened cfg cmd clause) Halt.Tolerated
        (Y2.perform (cmd.opened cfg fuel db session)) := by
      refine hopen.mapError fun fault hfault fault' heq => ?_
      cases heq
      exact hfault
    have hrest (s : Y2) (hs : Ready cfg fuel cmd clause s) :
        Ensures (Ready cfg fuel cmd clause) Halt.Tolerated (do
          let s ← s.mbWhere cfg fuel (cmd.loaded clause) (cmd.act cfg) cmd.moves
          return s.send cmd.closing) := by
      obtain ⟨c, hkept, hact, hfault, hs⟩ := hs
      apply (Contract.tolerated hfault (hkept.mbWhere hact hs)).bind
      intro s hs
      exact ensures_ok ⟨c, hkept, hact, hfault, hs.send _⟩
    apply hperform.bind
    rintro ⟨db₁, session₁, status, row⟩ hopen
    exact atClause_ensures hrest hopen
  · rintro s ⟨c, hkept, -, hfault, hs⟩
    apply (Contract.tolerated hfault (hkept.peek hs)).bind
    rintro ⟨s, ahead⟩ -
    apply Ensures.ite
    · exact fun _ => True.intro
    · intro _ fault heq
      cases heq

end Parse

/-- A command whose table is ready to be scanned dereferences no `NULL` and fails no assertion. -/
theorem executeCmd_scan {cfg : Config} {fuel : Nat} {leftover : Option Tran} {db : Db} {session : Session}
    {cmd : RowCmd} {clause : Option (Hquery.Tree .or)} (h : db.Laid cfg)
    (hbound : db.sequence.issued < 2 ^ 40) (hsession : session.Positive)
    (hfuel : cmd.tokens.length ≤ fuel)
    (hscan : ∀ row i, db.relationRow session cmd.schema cmd.table = some (row, i) →
      cmd.HasColumns (db.pages row.header) → Scannable cfg db session cmd clause row) :
    Ensures (fun _ => True) Fault.Tolerated
      (executeCmd cfg fuel leftover db session (some (cmd.statement clause))) := by
  have hparse : Ensures (fun _ => True) Halt.Tolerated
      ((Y2.init db session).parse cfg fuel (cmd.loaded clause) leftover) :=
    parse_ensures hfuel (opened_ensures h hbound hsession hscan)
  unfold executeCmd
  dsimp only
  rw [cmd.bcPrepare_statement clause]
  dsimp only
  generalize (Y2.init db session).parse cfg fuel (cmd.loaded clause) leftover = result at hparse ⊢
  cases result with
  | ok s => exact True.intro
  | error halt =>
      cases halt with
      | abort w => exact True.intro
      | fault fault => exact hparse fault rfl

/-! ### Tables without rows -/

/-- A `SELECT` starts at no row of a table without rows. -/
def Empty (db : Db) (row : RelationRow) : Prop :=
  row.dataGid = 0 ∨ (db.pages row.data).occupied = 0

section Empty

variable {cfg : Config} {fuel : Nat} {db : Db} {session : Session} {cmd : RowCmd}
  {clause : Option (Hquery.Tree .or)}

/-- `titor_init` reads the first row of a page without rows. -/
theorem titorInit_empty {tran : Option Tran} {gp : GidPair} (hcontent : (db.pages gp.data).content = .mvcc)
    (hempty : (db.pages gp.data).occupied = 0) :
    Ensures (fun _ => False) (fun _ => True) (titorInit cfg fuel db tran gp) := by
  have hrow : Ensures (fun _ => False) (fun _ => True) (gridGetRow cfg.build (db.pages gp.data) 0) := by
    unfold gridGetRow
    rw [hempty, if_neg (Nat.lt_irrefl 0)]
    exact (Ensures.trivial _).bind fun _ _ => True.intro
  have htmin : Ensures (fun _ => False) (fun _ => True) (mitorGetDatum cfg db ⟨gp, 0⟩ tminIdx) := by
    unfold mitorGetDatum gridGetDatum
    apply (Ensures.trivial _).bind
    intro _ _
    exact hrow.bind fun _ h => h.elim
  unfold titorInit
  rw [hcontent]
  exact htmin.bind fun _ h => h.elim

theorem opened_empty (h : db.Laid cfg) (hbound : db.sequence.issued < 2 ^ 40) {row : RelationRow} {i : Nat}
    (hrow : db.relationRow session cmd.schema cmd.table = some (row, i)) (hempty : Empty db row)
    (hselect : cmd.IsSelect) :
    Ensures (fun r => r.2.2.2 = none) (fun _ => True) (cmd.opened cfg fuel db session) := by
  cases cmd with
  | delete schema table => exact hselect.elim
  | select schema table name names =>
      have hrow : db.relationRow session schema table = some (row, i) := hrow
      have htable := (h.tables hbound).table i row (Db.relationRow_eq_some hrow)
      have hopen : Ensures (fun r => r.2.2.2 = none) (fun _ => True)
          (openRelation cfg fuel db session row.gids) := by
        rw [RowCmd.openRelation_eq]
        apply Ensures.ite
        · exact fun _ => ensures_ok rfl
        · intro hdefined
          have hdata : row.dataGid ≠ 0 := fun hzero => hdefined (Db.gid_eq_undef_iff.mpr hzero)
          have hcontent := (htable.data hdata).2.page.content
          apply (Ensures.trivial _).bind
          intro r _
          apply Ensures.ite
          · exact fun _ => ensures_ok rfl
          · intro _
            exact (titorInit_empty hcontent (hempty.resolve_left hdata)).bind fun _ h => h.elim
      show Ensures _ _ (dmlSelect cfg fuel db session schema table (name :: names))
      unfold dmlSelect
      rw [findRelation_eq, hrow]
      apply Ensures.bind (Q := fun found => found = (db, row.gids))
      · exact (Ensures.trivial _).bind fun _ _ => ensures_ok rfl
      · rintro _ rfl
        apply Ensures.ite
        · exact fun _ => ensures_ok rfl
        · intro _
          split
          · exact ensures_ok rfl
          · exact hopen

theorem mbWhere_sent (hfuel : 7 ≤ fuel) (sent : List Piece) :
    Ensures (fun s => s.sent = sent) (fun halt => ∀ w, halt = .abort w → w.sent = sent)
      ((cmd.atClause db session sent none).mbWhere cfg fuel (cmd.loaded clause) (cmd.act cfg) cmd.moves) := by
  cases clause with
  | none =>
      have hpeek : (cmd.atClause db session sent none).peek cfg fuel cmd.tokens
          = .ok ({ cmd.atClause db session sent none with
              look := ⟨⟨cmd.tokens.length, none, cmd.tokens⟩, some none⟩ }, none) := by
        unfold Y2.peek Look.peek RowCmd.atClause
        dsimp only [y2lexer]
        rw [y2lex_end rfl]
        rfl
      unfold Y2.mbWhere RowCmd.loaded
      rw [hpeek]
      exact ensures_ok rfl
  | some e =>
      show Ensures _ _ ((cmd.atClause db session sent none).mbWhere cfg fuel (prepared cmd.tokens e.emitted)
        (cmd.act cfg) cmd.moves)
      rw [← e.translate_tokens, RowCmd.mbWhere_none hfuel rfl]
      intro w hw
      cases hw
      rfl

/-- What was sent before the command was given up. -/
def Halt.Left (P : List Piece → Prop) (halt : Halt) : Prop := ∀ w, halt = .abort w → P w.sent

/-- While it looks ahead the parser sends a mismatch at most. -/
theorem peek_sent {P : List Piece → Prop} {tokens : List BcNode} {s : Y2} (hs : P s.sent)
    (hmismatch : ∀ sent, P sent → P (sent ++ [.status .datumTypeMismatch])) :
    Ensures (fun r => r.1.sent = s.sent) (Halt.Left P) (s.peek cfg fuel tokens) := by
  have hwithin {α : Type} (x : Except Stop α) :
      Ensures (fun _ => True) (Halt.Left P) (Y2.within s.toWork x) := by
    cases x with
    | ok a => exact True.intro
    | error stop =>
        cases stop with
        | syntaxError =>
            intro w hw
            cases hw
            exact hs
        | mismatch =>
            intro w hw
            cases hw
            exact hmismatch _ hs
        | fault fault => exact fun w hw => nomatch hw
  exact (hwithin _).bind fun _ _ => ensures_ok rfl

theorem parse_empty {leftover : Option Tran} (hfuel : cmd.tokens.length < fuel) (hselect : cmd.IsSelect)
    (hopen : Ensures (fun r => r.2.2.2 = none) (fun _ => True) (cmd.opened cfg fuel db session)) :
    Ensures (fun s => Piece.bodyHeader ∉ s.sent) (Halt.Left (Piece.bodyHeader ∉ ·))
      ((Y2.init db session).parse cfg fuel (cmd.loaded clause) leftover) := by
  cases cmd with
  | delete schema table => exact hselect.elim
  | select schema table name names =>
      have hseven : 7 ≤ fuel := by
        refine Nat.le_trans (Nat.succ_le_succ ?_) hfuel
        simp [RowCmd.tokens]
      have hcmd : Ensures (fun s => Piece.bodyHeader ∉ s.sent) (Halt.Left (Piece.bodyHeader ∉ ·))
          ((Y2.init db session).cmd cfg fuel ((RowCmd.select schema table name names).loaded clause)
            leftover) := by
        rw [RowCmd.cmd_eq (Nat.le_of_lt hfuel) fun j hj => RowCmd.loaded_tokens _ clause hj]
        have hperform : Ensures (fun r => r.2.2.2 = none) (Halt.Left (Piece.bodyHeader ∉ ·))
            (Y2.perform ((RowCmd.select schema table name names).opened cfg fuel db session)) :=
          hopen.mapError fun _ _ w hw => by cases hw
        apply hperform.bind
        rintro ⟨db₁, session₁, status, row⟩ hrow
        dsimp only at hrow
        subst hrow
        apply Ensures.ite
        · intro _ w hw
          cases hw
        · intro _
          have hmb := @mbWhere_sent cfg fuel db₁ session₁ (.select schema table name names) clause hseven
            [.status status]
          refine (hmb.mono (fun _ h => h) fun halt hhalt w hw => ?_).bind fun s hs => ?_
          · rw [hhalt w hw]
            simp
          · simp [Ensures, Y2.send, Work.send, RowCmd.closing, hs, pure, Except.pure]
      unfold Y2.parse
      apply hcmd.bind
      intro s hs
      apply (peek_sent hs fun sent hsent => by simp [hsent]).bind
      rintro ⟨s', ahead⟩ hsent
      have hs' : Piece.bodyHeader ∉ s'.sent := by
        rw [show s'.sent = s.sent from hsent]
        exact hs
      apply Ensures.ite
      · exact fun _ => ensures_ok hs'
      · intro _ w hw
        cases hw
        exact hs'

/-- A `SELECT` on a table without rows is not answered with a body. -/
theorem executeCmd_empty {leftover : Option Tran} (h : db.Laid cfg) (hbound : db.sequence.issued < 2 ^ 40)
    (hfuel : cmd.tokens.length < fuel) {row : RelationRow} {i : Nat}
    (hrow : db.relationRow session cmd.schema cmd.table = some (row, i)) (hempty : Empty db row)
    (hselect : cmd.IsSelect) :
    Ensures (fun done => Piece.bodyHeader ∉ done.sent) (fun _ => True)
      (executeCmd cfg fuel leftover db session (some (cmd.statement clause))) := by
  have hparse : Ensures (fun s => Piece.bodyHeader ∉ s.sent) (Halt.Left (Piece.bodyHeader ∉ ·))
      ((Y2.init db session).parse cfg fuel (cmd.loaded clause) leftover) :=
    parse_empty hfuel hselect (opened_empty h hbound hrow hempty hselect)
  unfold executeCmd
  dsimp only
  rw [cmd.bcPrepare_statement clause]
  dsimp only
  generalize (Y2.init db session).parse cfg fuel (cmd.loaded clause) leftover = result at hparse ⊢
  cases result with
  | ok s => exact hparse
  | error halt =>
      cases halt with
      | abort w =>
          have hw : Piece.bodyHeader ∉ w.sent := hparse w rfl
          refine ensures_ok ?_
          simp [hw]
      | fault fault => exact True.intro

end Empty

/-- A new database with the catalog `c`. -/
def newCluster : Cluster Db where
  db :=
    { pages := fun _ => ⟨.pure, .undef, 0, 0, 0, 0, fun _ => ⟨[], 0, .unknown, 0⟩, fun _ => .zero⟩
      sequence := ⟨1, .ofInt (2 ^ 63 - 1), 1, 1, 0, 0⟩
      meshSequence := ⟨1, .ofInt (2 ^ 63 - 1), 1, 1, 0, 0⟩
      user := ⟨10, false, []⟩
      schema := ⟨10, false, []⟩
      relation := ⟨10, false, []⟩
      trans := ⟨⟨10, false, [⟨[99], some ⟨1, .ofInt (2 ^ 63 - 1), 1, 1, 0, 0⟩⟩]⟩, fun _ => .aborted⟩ }
  sessions := fun _ => ⟨some [99], none⟩

/-- `CREATE TABLE s.t (a BIGINT)`. -/
def createT : Request :=
  ⟨0, some [.create, .table, .string [115], .string [116], .arrayBegin, .size 0, .type .bigint, .string [97],
    .arrayEnd], none, 20⟩

/-- `INSERT INTO s.t (a) VALUES (1)`. -/
def insertT : Request :=
  ⟨0, some [.insert, .string [115], .string [116], .arrayBegin, .string [97], .arrayEnd, .arrayBegin,
    .datum (makeBigint 1), .arrayEnd], some ⟨1, true⟩, 20⟩

/-- `SELECT a FROM s.t`. -/
def selectT : RowCmd := .select [115] [116] [97] []

theorem newCluster_fresh : newCluster.Fresh where
  relation := rfl
  sequence := (Sequence.plain_sequenceInit (by decide)).1
  catalog row hrow s hs := by
    obtain rfl := List.mem_singleton.mp hrow
    cases hs
    exact (Sequence.plain_sequenceInit (by decide)).1
  tran _ := rfl

theorem createT_typed : createT.Typed := by
  intro tokens htokens type htype
  cases htokens
  simp only [List.mem_cons, reduceCtorEq, false_or, List.not_mem_nil, or_false] at htype
  cases htype
  decide

theorem insertT_typed : insertT.Typed := by
  intro tokens htokens type htype
  cases htokens
  simp at htype

theorem typed_insertT : ∀ r ∈ [createT, insertT], r.Typed := by
  intro r hr
  rcases List.mem_cons.mp hr with rfl | hr
  · exact createT_typed
  · obtain rfl := List.mem_singleton.mp hr
    exact insertT_typed

/-- The column of the new table lies behind those of the versions. -/
theorem laidOut_insertT (build : Build) : newCluster.LaidOut ⟨build, 4096⟩ [createT, insertT] := by
  cases build
  all_goals
    refine (Machine.throughout_cons (i := createT) rfl).mpr ⟨Db.laidOut_nil (by decide) rfl, ?_⟩
    refine (Machine.throughout_cons (i := insertT) rfl).mpr ⟨Db.laidOut_singleton (by decide) rfl ?_, ?_⟩
    · exact { datasz_lt := by decide, within := by decide, disjoint := by decide, characters := by decide }
    · refine Machine.throughout_nil.mpr (Db.laidOut_singleton (by decide) rfl ?_)
      exact { datasz_lt := by decide, within := by decide, disjoint := by decide, characters := by decide }

theorem laidOut_createT (build : Build) : newCluster.LaidOut ⟨build, 4096⟩ [createT] :=
  (show newCluster.LaidOut ⟨build, 4096⟩ ([createT] ++ [insertT]) from laidOut_insertT build).of_append

end Scroller.Execute
