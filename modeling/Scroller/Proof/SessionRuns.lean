import Scroller.Proof.CommandRule
import Scroller.Proof.RowCommands
import Scroller.Proof.TableCommands
import Scroller.Cluster

/-!
# Runs of sessions

Whatever bytecode the sessions execute, the tables of the database stay in order.
-/

namespace Scroller

open Outcome Execute

/-! ### Iterators -/

namespace Db

variable {cfg : Config} {fuel : Nat} {db db' : Db} {gp : GidPair} {header : Grid}

section

variable (hmesh : db.IsMesh cfg header gp.data) (hgp : gp.Apart)
include hmesh hgp

theorem OnMesh.mitorNext {m : Mitor} (hm : db.OnMesh gp m) : db.OnMesh gp (mitorNext db m) := by
  by_cases hvalid : mitorIsValid db m = true
  · exact (hm.next hmesh hgp hvalid).1
  · unfold Scroller.mitorNext
    rwa [if_neg hvalid]

theorem titorNextLoop_onMesh {tran : Option Tran} {m : Mitor} {t : Titor} (hm : db.OnMesh gp m)
    (h : titorNextLoop cfg db tran fuel m = .ok t) : db.OnMesh gp t.m := by
  induction fuel generalizing m with
  | zero => cases h
  | succ fuel ih =>
      have hnext := hm.mitorNext hmesh hgp
      rw [titorNextLoop] at h
      split at h
      · cases h
        exact hnext
      · obtain ⟨visible, -, h⟩ := bind_eq_ok.mp h
        split at h
        · cases h
          exact hnext
        · exact ih hnext h

theorem titorNext_onMesh {t t' : Titor} (hm : db.OnMesh gp t.m) (h : titorNext cfg fuel db t = .ok t') :
    db.OnMesh gp t'.m := by
  unfold titorNext at h
  split at h
  · cases h
    exact hm.mitorNext hmesh hgp
  · exact titorNextLoop_onMesh hmesh hgp hm h

theorem titorInit_onMesh {tran : Option Tran} {t : Titor} (h : titorInit cfg fuel db tran gp = .ok t) :
    db.OnMesh gp t.m := by
  have hfirst := onMesh_first hmesh hgp
  unfold titorInit at h
  dsimp only at h
  split at h
  · cases h
    exact hfirst
  · obtain ⟨tmin, -, h⟩ := bind_eq_ok.mp h
    obtain ⟨tmax, -, h⟩ := bind_eq_ok.mp h
    obtain ⟨-, -, h⟩ := bind_eq_ok.mp h
    obtain ⟨-, -, h⟩ := bind_eq_ok.mp h
    obtain ⟨-, -, h⟩ := bind_eq_ok.mp h
    obtain ⟨-, -, h⟩ := bind_eq_ok.mp h
    obtain ⟨-, -, h⟩ := bind_eq_ok.mp h
    split at h
    · cases h
      exact hfirst
    · obtain ⟨visible, -, h⟩ := bind_eq_ok.mp h
      split at h
      · cases h
        exact hfirst
      · exact titorNext_onMesh hmesh hgp hfirst h

end

/-- An iterator over the data of some table. -/
def Stands (db : Db) (m : Mitor) : Prop :=
  ∃ (i : Nat) (row : RelationRow), db.relation.rows[i]? = some row ∧ row.dataGid ≠ 0 ∧ db.OnMesh row.gids m

theorem Stands.putRow {m m' : Mitor} (h : db.Stands m') (row : Row) : (db.putRow m row).Stands m' := by
  obtain ⟨i, r, hr, hdata, hm⟩ := h
  exact ⟨i, r, hr, hdata, hm.putRow row⟩

/-- The iterators of a session, while the ids fill their fields. -/
def Iterates (db : Db) (titor : Option Titor) : Prop :=
  ∀ t, titor = some t → db.sequence.issued < 2 ^ 40 → db.Stands t.m

theorem Iterates.putRow {titor : Option Titor} {m : Mitor} (h : db.Iterates titor) (row : Row) :
    (db.putRow m row).Iterates titor := fun t ht hbound => (h t ht hbound).putRow row

theorem iterates_none (db : Db) : db.Iterates none := fun _ ht => nomatch ht

theorem Iterates.next {t t' : Titor} (hlaid : db.Laid cfg) (h : db.Iterates (some t))
    (hnext : titorNext cfg fuel db t = .ok t') : db.Iterates (some t') := by
  intro u hu hbound
  cases hu
  obtain ⟨i, row, hrow, hdata, hm⟩ := h t rfl hbound
  have htable := (hlaid.tables hbound).table i row hrow
  have hmesh : db.IsMesh cfg (db.pages row.header) row.gids.data := (htable.data hdata).2
  exact ⟨i, row, hrow, hdata, titorNext_onMesh hmesh (htable.apart hbound hdata) hm hnext⟩

/-- Putting a datum in the row of an iterator keeps the tables in order. -/
theorem Laid.putRow {m : Mitor} (h : db.Laid cfg)
    (hm : db.sequence.issued < 2 ^ 40 → db.Stands m ∧ mitorIsValid db m = true) (row : Row) :
    (db.putRow m row).Laid cfg where
  sequence := h.sequence
  catalog := h.catalog
  tables hbound := by
    obtain ⟨⟨i, r, hr, hdata, hm⟩, hvalid⟩ := hm hbound
    have hmesh : db.IsMesh cfg (db.pages r.header) r.gids.data :=
      (((h.tables hbound).table i r hr).data hdata).2
    exact (h.tables hbound).mesh hr hdata hbound (sameBut_putRow hm hmesh row) (hmesh.putRow hvalid row)

/-- Deleting a row puts its `*tmax`. -/
theorem dmlDeleteRow_spec {session : Session} {m : Mitor}
    (hcontent : (db.pages m.gp.data).content = .mvcc) (h : dmlDeleteRow cfg session db m = .ok db') :
    db' = db ∨ ∃ row, db' = db.putRow m row := by
  unfold dmlDeleteRow at h
  rw [hcontent] at h
  obtain ⟨-, -, h⟩ := bind_eq_ok.mp h
  split at h
  · cases h
  · obtain ⟨-, -, h⟩ := bind_eq_ok.mp h
    obtain ⟨put, hput, h⟩ := bind_eq_ok.mp h
    obtain ⟨-, -, h⟩ := bind_eq_ok.mp h
    cases h
    cases put with
    | none => exact Or.inl rfl
    | some db₁ => exact Or.inr (mitorPutDatum_spec hput)

theorem dmlDeleteRow_sameSystem {session : Session} {m : Mitor}
    (h : dmlDeleteRow cfg session db m = .ok db') : db.SameSystem db' := by
  cases hcontent : (db.pages m.gp.data).content with
  | pure =>
      unfold dmlDeleteRow at h
      rw [hcontent] at h
      dsimp only at h
      unfold mitorDelete at h
      split at h
      · obtain ⟨-, -, h⟩ := bind_eq_ok.mp h
        cases h
        exact sameSystem_setPage _ _ _
      · obtain ⟨-, -, h⟩ := bind_eq_ok.mp h
        cases h
        exact sameSystem_refl _
  | mvcc =>
      obtain rfl | ⟨row, rfl⟩ := dmlDeleteRow_spec hcontent h
      · exact sameSystem_refl _
      · exact sameSystem_setPage _ _ _

/-- `dml_delete_row` keeps the tables in order. -/
theorem Laid.deleteRow {session : Session} {m : Mitor} (h : db.Laid cfg)
    (hm : db.sequence.issued < 2 ^ 40 → db.Stands m ∧ mitorIsValid db m = true)
    (hdelete : dmlDeleteRow cfg session db m = .ok db') :
    db'.Laid cfg ∧ ∀ titor, db.Iterates titor → db'.Iterates titor := by
  by_cases hbound : db.sequence.issued < 2 ^ 40
  · obtain ⟨⟨i, r, hr, hdata, hon⟩, hvalid⟩ := hm hbound
    have hmesh : db.IsMesh cfg (db.pages r.header) r.gids.data :=
      (((h.tables hbound).table i r hr).data hdata).2
    have hcontent := (hon.dataPage hmesh).content
    obtain rfl | ⟨row, rfl⟩ := dmlDeleteRow_spec hcontent hdelete
    · exact ⟨h, fun _ ht => ht⟩
    · exact ⟨h.putRow hm row, fun _ ht => ht.putRow row⟩
  · have hsame := dmlDeleteRow_sameSystem hdelete
    refine ⟨⟨hsame.sequence ▸ h.sequence, hsame.trans ▸ h.catalog, fun hbound' => ?_⟩, ?_⟩
    · rw [hsame.sequence] at hbound'
      exact absurd hbound' hbound
    · intro titor _ t _ hbound'
      rw [hsame.sequence] at hbound'
      exact absurd hbound' hbound

/-! ### Opening a table -/

theorem openRelation_laid {session session' : Session} {status : ScrcStatus} {titor : Option Titor}
    (h : db.Laid cfg) (hsession : session.Positive) (hfound : db.IsFound false gp)
    (hheader : gp.header ≠ .undef)
    (hopen : openRelation cfg fuel db session gp = .ok (db', session', status, titor)) :
    db'.Laid cfg ∧ session'.Positive ∧ db'.Iterates titor := by
  rw [RowCmd.openRelation_eq] at hopen
  split at hopen
  · cases hopen
    exact ⟨h, hsession, iterates_none _⟩
  next hdata =>
    obtain ⟨⟨ts, session₁, status₁⟩, htran, hopen⟩ := bind_eq_ok.mp hopen
    have hlaid : Laid cfg { db with trans := ts } ∧ session₁.Positive := by
      unfold RowCmd.openTran at htran
      split at htran
      · exact putTranIfNone_laid h hsession htran
      · cases htran
        exact ⟨h, hsession⟩
    split at hopen
    · cases hopen
      exact ⟨hlaid.1, hlaid.2, iterates_none _⟩
    · obtain ⟨t, hinit, hopen⟩ := bind_eq_ok.mp hopen
      cases hopen
      refine ⟨hlaid.1, hlaid.2, fun u hu hbound => ?_⟩
      cases hu
      obtain hundef | ⟨i, row, hrow, hgpHeader, hgpData, -⟩ := hfound
      · exact absurd hundef hheader
      have hgpData : gp.data = row.data := hgpData hbound
      have hrowData : row.dataGid ≠ 0 := by
        intro hzero
        apply hdata
        rw [hgpData]
        exact gid_eq_undef_iff.mpr hzero
      have hgp : gp = row.gids := by
        cases gp
        cases hgpHeader
        cases hgpData
        rfl
      subst hgp
      have htable := (hlaid.1.tables hbound).table i row hrow
      exact ⟨i, row, hrow, hrowData,
        titorInit_onMesh (htable.data hrowData).2 (htable.apart hbound hrowData) hinit⟩

/-- A `DELETE` or a `SELECT` finds its table. -/
theorem dmlDelete_laid {session session' : Session} {schema table : List UInt8} {status : ScrcStatus}
    {titor : Option Titor} (h : db.Laid cfg) (hsession : session.Positive)
    (hopen : dmlDelete cfg fuel db session schema table = .ok (db', session', status, titor)) :
    db'.Laid cfg ∧ session'.Positive ∧ db'.Iterates titor := by
  obtain ⟨⟨db₁, gp⟩, hfind, hopen⟩ := bind_eq_ok.mp hopen
  obtain ⟨hlaid, -, hfound⟩ := findRelation_laid h hfind
  dsimp only at hopen
  split at hopen
  · cases hopen
    exact ⟨hlaid, hsession, iterates_none _⟩
  · exact openRelation_laid hlaid hsession hfound ‹_› hopen

theorem dmlSelect_laid {session session' : Session} {schema table : List UInt8}
    {names : List (List UInt8)} {status : ScrcStatus} {titor : Option Titor} (h : db.Laid cfg)
    (hsession : session.Positive)
    (hopen : dmlSelect cfg fuel db session schema table names = .ok (db', session', status, titor)) :
    db'.Laid cfg ∧ session'.Positive ∧ db'.Iterates titor := by
  obtain ⟨⟨db₁, gp⟩, hfind, hopen⟩ := bind_eq_ok.mp hopen
  obtain ⟨hlaid, -, hfound⟩ := findRelation_laid h hfind
  dsimp only at hopen
  split at hopen
  · cases hopen
    exact ⟨hlaid, hsession, iterates_none _⟩
  · split at hopen
    · cases hopen
      exact ⟨hlaid, hsession, iterates_none _⟩
    · exact openRelation_laid hlaid hsession hfound ‹_› hopen

/-! ### Transactions -/

theorem tclStart_laid {session session' : Session} {ts : TranState} {status : ScrcStatus}
    (h : db.Laid cfg) (hsession : session.Positive)
    (hstart : tclStart cfg db.trans session = .ok (ts, session', status)) :
    Laid cfg { db with trans := ts } ∧ session'.Positive := by
  have hput {session : Session} (hput : tranPut cfg db.trans session false = .ok (ts, session', status)) :
      Laid cfg { db with trans := ts } ∧ session'.Positive := by
    have hspec := (tranPut_ensures (F := fun _ => True) (fun _ _ => True.intro) h.catalog
      (Or.inl True.intro) false).of_ok hput
    exact ⟨h.withTrans hspec.1, hspec.2.1⟩
  unfold tclStart at hstart
  split at hstart
  · split at hstart
    · exact hput hstart
    · cases hstart
      exact ⟨h, hsession⟩
  · exact hput hstart

theorem tclFinish_laid {session session' : Session} {ts : TranState} {status : ScrcStatus}
    {flag : TranFlag} (h : db.Laid cfg) (hsession : session.Positive)
    (hfinish : tclFinish cfg flag db.trans session = .ok (ts, session', status)) :
    Laid cfg { db with trans := ts } ∧ session'.Positive := by
  unfold tclFinish at hfinish
  split at hfinish
  · split at hfinish
    · cases hfinish
      exact ⟨h, hsession⟩
    · obtain ⟨flags, -, hfinish⟩ := bind_eq_ok.mp hfinish
      cases hfinish
      exact ⟨h.withTrans h.catalog, fun tran htran => nomatch htran⟩
  · cases hfinish
    exact ⟨h, hsession⟩

end Db

namespace Execute

/-! ### Commands -/

/-- The tables are in order and so are the iterators. -/
def laidContract (cfg : Config) : Contract where
  state db session := db.Laid cfg ∧ session.Positive
  titor := Db.Iterates
  lexer _ _ := True
  token x := ∀ type, x = .type type → type.group ≠ .unknown
  datum _ := True
  fault _ := True

/-- There is no iterator yet. -/
def idleContract (cfg : Config) : Contract := { laidContract cfg with titor := fun _ titor => titor = none }

section

variable {cfg : Config} {fuel : Nat} {tokens : List BcNode}
  (htypes : ∀ type, BcNode.type type ∈ tokens → type.group ≠ .unknown)
include htypes

theorem laid_kept : (laidContract cfg).Kept cfg fuel tokens := by
  refine Contract.kept_of_open (fun _ _ => True.intro) (fun _ => True.intro) (fun _ => True.intro) ?_ ?_
  · rintro x hx type rfl
    exact htypes type hx
  · exact fun db session t t' hstate ht hnext => ht.next hstate.1 hnext

theorem idle_kept : (idleContract cfg).Kept cfg fuel tokens := by
  refine Contract.kept_of_open (fun _ _ => True.intro) (fun _ => True.intro) (fun _ => True.intro) ?_ ?_
  · rintro x hx type rfl
    exact htypes type hx
  · intro db session t t' _ ht
    cases ht

theorem laid_leads (leftover : Option Tran) :
    (idleContract cfg).Leads (laidContract cfg) cfg fuel tokens leftover where
  before := idle_kept htypes
  after := laid_kept htypes
  idle htitor := htitor
  none := Db.iterates_none
  lexer _ _ := True.intro
  token hx := hx
  fault _ := True.intro
  start hstate := hstate
  createUser hstate hcreate := ⟨Db.createUser_laid hstate.1 hcreate, hstate.2⟩
  createCatalog _ hstate hcreate := ⟨Db.createCatalog_laid hstate.1 hcreate, hstate.2⟩
  createSchema hstate hcreate := ⟨Db.createSchema_laid hstate.1 hcreate, hstate.2⟩
  createTable hstate hcolumns hcreate :=
    ⟨Db.createTable_laid hstate.1 (fun decl hdecl => hcolumns decl hdecl _ rfl) hcreate, hstate.2⟩
  tclStart hstate hstart := Db.tclStart_laid hstate.1 hstate.2 hstart
  tclCommit _ hstate hfinish := Db.tclFinish_laid hstate.1 hstate.2 hfinish
  tclRollback hstate hfinish := Db.tclFinish_laid hstate.1 hstate.2 hfinish
  insert hstate hinsert := Db.insert_laid hstate.1 hstate.2 hinsert
  dmlDelete hstate hopen := by
    obtain ⟨hlaid, hpositive, htitor⟩ := Db.dmlDelete_laid hstate.1 hstate.2 hopen
    exact ⟨⟨hlaid, hpositive⟩, htitor⟩
  dmlSelect hstate hopen := by
    obtain ⟨hlaid, hpositive, htitor⟩ := Db.dmlSelect_laid hstate.1 hstate.2 hopen
    exact ⟨⟨hlaid, hpositive⟩, htitor⟩
  deleteRow {db db' session t} hstate ht hvalid hdelete := by
    have hm (hbound : db.sequence.issued < 2 ^ 40) : db.Stands t.m ∧ mitorIsValid db t.m = true := by
      refine ⟨ht t rfl hbound, ?_⟩
      unfold titorIsValid at hvalid
      exact (of_decide_eq_true hvalid).1
    obtain ⟨hlaid, hiterates⟩ := hstate.1.deleteRow hm hdelete
    exact ⟨⟨hlaid, hstate.2⟩, hiterates⟩

end

theorem executeCmd_laid {cfg : Config} {fuel : Nat} {leftover : Option Tran} {db : Db}
    {session : Session} {tokens : Option (List BcNode)} {done : Executed}
    (htypes : ∀ toks, tokens = some toks → ∀ type, BcNode.type type ∈ toks → type.group ≠ .unknown)
    (h : db.Laid cfg) (hsession : session.Positive)
    (hdone : executeCmd cfg fuel leftover db session tokens = .ok done) :
    done.db.Laid cfg ∧ done.session.Positive := by
  have hinit : (idleContract cfg).Holds (Y2.init db session) :=
    ⟨⟨h, hsession⟩, rfl, ⟨True.intro, fun x hx => nomatch hx⟩⟩
  refine executeCmd_leads (b := idleContract cfg) (c := laidContract cfg) (fun toks prepared htoks hprepared => ?_)
    (fun _ => hinit) hdone
  refine laid_leads (fun type htype => ?_) leftover
  rcases hprepared _ htype with hmem | hloop
  · exact htypes toks htoks type hmem
  · cases hloop

end Execute

/-! ### Runs -/

/-- No table was created yet, no session has a transaction, and the sequences are as `sequence_init` makes them. -/
structure Cluster.Fresh (s : Cluster Db) : Prop where
  relation : s.db.relation.rows = []
  sequence : s.db.sequence.Plain
  catalog : s.db.trans.Plain
  tran : ∀ sid, (s.sessions sid).tran = none

theorem Cluster.Fresh.laid {cfg : Config} {s : Cluster Db} (hfresh : s.Fresh) :
    s.db.Laid cfg ∧ ∀ sid, (s.sessions sid).Positive := by
  refine ⟨⟨hfresh.sequence, hfresh.catalog, fun _ => ⟨?_, ?_⟩⟩, fun sid tran htran => ?_⟩
  · intro i row hrow
    rw [hfresh.relation] at hrow
    cases hrow
  · intro i j row row' hrow
    rw [hfresh.relation] at hrow
    cases hrow
  · rw [hfresh.tran sid] at htran
    cases htran

theorem Cluster.laid_execute {cfg : Config} {s s' : Cluster Db} {r : Request} {done : Executed}
    (hs : s.db.Laid cfg ∧ ∀ sid, (s.sessions sid).Positive) (htyped : r.Typed)
    (hstep : s.execute cfg r = .ok (s', done)) : s'.db.Laid cfg ∧ ∀ sid, (s'.sessions sid).Positive := by
  obtain ⟨hlaid, hpositive⟩ := hs
  obtain ⟨done', hdone, hstep⟩ := bind_eq_ok.mp hstep
  cases hstep
  have hkept := executeCmd_laid htyped hlaid (hpositive r.sid) hdone
  refine ⟨hkept.1, fun sid => ?_⟩
  by_cases hsid : sid = r.sid
  · subst hsid
    dsimp only
    rw [Function.update_self]
    exact hkept.2
  · dsimp only
    rw [Function.update_of_ne hsid]
    exact hpositive sid

/-- Whatever the sessions of a new cluster execute, the tables stay in order. -/
theorem Cluster.laid_of_run {cfg : Config} {s₀ s : Cluster Db} {requests : List Request}
    {hist : List (Request × Executed)} (hfresh : s₀.Fresh) (htyped : ∀ r ∈ requests, r.Typed)
    (hrun : Machine.exec (Cluster.execute cfg) s₀ requests = .ok (s, hist)) :
    s.db.Laid cfg ∧ ∀ sid, (s.sessions sid).Positive :=
  Machine.exec_invariant (fun _ s => s.db.Laid cfg ∧ ∀ sid, (s.sessions sid).Positive)
    Request.Typed [] (fun _ _ _ _ _ hs htyped hstep => Cluster.laid_execute hs htyped hstep) hfresh.laid htyped hrun

end Scroller
