import Scroller.Proof.SelectedRows

/-!
# Rows that a committed transaction has inserted

From the `COMMIT` on, every transaction of every session sees the rows that the transaction has inserted, until
somebody deletes them: they are in the answer to every `SELECT` whose clause holds of them.
-/

namespace Scroller

open Execute Outcome

/-- Nobody deletes the row with a name or inserts another one in its place. -/
def Spares (name : Nat × Nat) (input : Nat × Command) (reply : Reply) : Prop :=
  reply.inserted ≠ some name ∧ ∀ schema table cond, input.2 = .delete schema table cond → name ∉ reply.rows

namespace Cluster

variable {cfg : Config} {fuel i sid : Nat} {tid : Int64} {name : Nat × Nat} {s s' : Cluster Db} {cmd : Command}
  {session' : Session} {reply : Reply} {row : Row}

/-- A row that stays as it is. -/
structure Stays (cfg : Config) (i : Nat) (name : Nat × Nat) (row : Row) (s : Cluster Db) : Prop where
  tracked : Tracked cfg i s.db.trans s.sessions
  row : s.db.store.row? name = some row

theorem Stays.step (h : s.Stays cfg i name row) (hspared : Spares name (sid, cmd) reply)
    (hdoes : s.Does cfg s' sid cmd session' reply) : s'.Stays cfg i name row := by
  refine ⟨(hdoes.tracked h.tracked).1, ?_⟩
  cases hdoes.row name with
  | kept _ _ hkept => exact hkept.trans h.row
  | inserted _ hinserted => exact absurd hinserted hspared.1
  | deleted hdelete hhit => exact absurd hhit (hspared.2 _ _ _ hdelete)

theorem Stays.exec {inputs : List (Nat × Command)} {hist : List ((Nat × Command) × Reply)}
    (h : s.Stays cfg i name row) (hready : s.Ready cfg)
    (hexec : Machine.exec (Cluster.step (Db.run cfg fuel)) s inputs = .ok (s', hist))
    (hspared : Machine.AlongAnswers (Cluster.step (Db.run cfg fuel)) (fun _ => Spares name) s inputs)
    (hissued : s'.db.sequence.issued + 1 < 2 ^ 40) : s'.Stays cfg i name row := by
  refine exec_keeps (I := Stays cfg i name row) ?_ hready h hexec hspared hissued
  intro s s' sid cmd session' reply h hspared hdoes
  exact h.step hspared hdoes

/-- An id that was committed stays so. -/
theorem committed_exec {inputs : List (Nat × Command)} {hist : List ((Nat × Command) × Reply)}
    (h : Tracked cfg i s.db.trans s.sessions) (hflag : s.db.trans.flags tid = .commited) (hready : s.Ready cfg)
    (hexec : Machine.exec (Cluster.step (Db.run cfg fuel)) s inputs = .ok (s', hist))
    (hissued : s'.db.sequence.issued + 1 < 2 ^ 40) : s'.db.trans.flags tid = .commited := by
  have hall : Machine.AlongAnswers (Cluster.step (Db.run cfg fuel)) (fun _ _ _ => True) s inputs :=
    fun _ _ _ _ _ _ _ _ _ _ => True.intro
  refine (exec_keeps (I := fun s => Tracked cfg i s.db.trans s.sessions ∧ s.db.trans.flags tid = .commited) ?_ hready
    ⟨h, hflag⟩ hexec hall hissued).2
  intro s s' sid cmd session' reply h _ hdoes
  exact ⟨(hdoes.tracked h.1).1, h.1.committed_stays hdoes.tran h.2⟩

theorem commit_flag (hcurrent : (s.sessions sid).tran = some ⟨tid, false⟩)
    (hstep : s.step (Db.run cfg fuel) (sid, .commit) = .ok (s', reply)) : s'.db.trans.flags tid = .commited := by
  obtain ⟨session', hrun, -⟩ := step_eq_ok.mp hstep
  obtain ⟨⟨ts, session, status⟩, hcommit, hrun⟩ := bind_eq_ok.mp hrun
  have hdb : { s.db with trans := ts } = s'.db := (Prod.ext_iff.mp (Except.ok.inj hrun)).1
  rw [tclCommit, tclFinish, hcurrent] at hcommit
  dsimp only at hcommit
  rw [if_neg Bool.false_ne_true] at hcommit
  obtain ⟨flags, hput, hcommit⟩ := bind_eq_ok.mp hcommit
  cases hcommit
  rw [← hdb, (tranFlagPut_eq hput).1]
  exact Function.update_self _ _ _

/-- A row of a committed transaction that nobody has deleted is seen by everybody. -/
theorem Stays.seen (h : s.Stays cfg i name row) (hflag : s.db.trans.flags row.tmin = .commited)
    (htmax : row.tmax = tranInvalidId) {tran : Tran} (htran : (s.sessions sid).tran = some tran) :
    tranRowIsVisible cfg s.db.trans.flags tran row.tmin row.tmax = .ok true := by
  obtain ⟨hpositive, -, hroom⟩ := h.tracked.committed _ hflag
  have hkey : tran.key ≠ tranInvalidId := ne_invalid (h.tracked.keys sid tran htran).1
  have hmin : cfg.HasFlag row.tmin := .of_pos hpositive hroom
  have hnever : s.db.trans.flags tranInvalidId ≠ .commited := by
    intro hcommitted
    exact absurd (h.tracked.committed _ hcommitted).1 (by decide)
  rw [htmax]
  by_cases hown : tran.key = row.tmin
  · rw [← hown, tranRowIsVisible_own hkey (Or.inl rfl)]
    simp [hkey]
  · rw [tranRowIsVisible_other hkey (fun _ => ne_invalid hpositive) hown hkey hmin hmin.invalid]
    simp [hflag, hnever]

/-- A `SELECT` spares every row. -/
theorem Does.spares_select {schema table : List UInt8} {names : List (List UInt8)} {cond : Option Where}
    (h : s.Does cfg s' sid (.select schema table names cond) session' reply) (name : Nat × Nat) :
    Spares name (sid, .select schema table names cond) reply := by
  cases h.row name with
  | kept hinserted =>
      refine ⟨hinserted, fun schema' table' cond' hdelete => ?_⟩
      cases hdelete
  | inserted hcmd => cases hcmd
  | deleted hcmd => cases hcmd

/-- The row that a transaction has inserted. -/
theorem Does.row_of_insert {schema table : List UInt8} {names : List (List UInt8)} {values : List Datum}
    {leftover : Option Tran} (hdoes : s.Does cfg s' sid (.insert schema table names values leftover) session' reply)
    (htran : (s.sessions sid).tran = some ⟨tid, false⟩) (hok : reply.status = .ok)
    (hname : reply.inserted = some name) (hvalues : names.length = values.length) :
    ∃ row, s'.db.store.row? name = some row ∧ row.tmin = tid ∧ row.tmax = tranInvalidId := by
  cases hdoes.row name with
  | kept hinserted => exact absurd hname hinserted
  | deleted hcmd => cases hcmd
  | @inserted _ _ _ _ _ row tran hcmd _ htran' hrow hstamped =>
      cases hcmd
      obtain ⟨htmin, htmax⟩ := hstamped hvalues hok
      rw [hdoes.tran.open_stays htran htran', htran] at htran'
      cases htran'
      exact ⟨row, hrow, htmin, htmax⟩

end Cluster

end Scroller
