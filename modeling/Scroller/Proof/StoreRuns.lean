import Scroller.Proof.InsertedRows
import Scroller.Proof.StoreScan

/-!
# Runs on the store

Every run of commands on the pages of a database is a run on the lists of rows of its store.
-/

namespace Scroller

open Outcome

namespace Db

variable {cfg : Config} {fuel : Nat} {db db' : Db} {session session' : Session} {schema table : List UInt8}

/-! ### The tables stay in order -/

/-- An action on the rows of the tables keeps them in order. -/
def Keeps (cfg : Config) (act : Db → Mitor → Except Fault Db) : Prop :=
  ∀ {db db' : Db} {m : Mitor}, db.Laid cfg →
    (db.sequence.issued < 2 ^ 40 → db.Stands m ∧ mitorIsValid db m = true) → act db m = .ok db' →
    db'.Laid cfg ∧ (∀ titor, db.Iterates titor → db'.Iterates titor) ∧ db'.sequence = db.sequence

theorem deleteRow_keeps (session : Session) : Keeps cfg (dmlDeleteRow cfg session) := by
  intro db db' m h hm hdelete
  obtain ⟨hlaid, hiterates⟩ := h.deleteRow hm hdelete
  exact ⟨hlaid, hiterates, (dmlDeleteRow_sameSystem hdelete).sequence⟩

theorem selectRow_keeps : Keeps cfg fun db _ => .ok db := by
  intro db db' m h hm hselect
  cases hselect
  exact ⟨h, fun _ ht => ht, rfl⟩

theorem rowLoop_laid {act : Db → Mitor → Except Fault Db} {cond : Where} {t : Titor} {ms : List Mitor}
    {finished : Bool} (hact : Keeps cfg act) (h : db.Laid cfg) (ht : db.Iterates (some t))
    (hloop : rowLoop cfg act cond fuel db t = .ok (db', ms, finished)) :
    db'.Laid cfg ∧ db'.sequence = db.sequence := by
  induction fuel generalizing db t ms with
  | zero => cases hloop
  | succ fuel ih =>
      rw [rowLoop] at hloop
      split at hloop
      · cases hloop
        exact ⟨h, rfl⟩
      next hvalid =>
        have hvalid : mitorIsValid db t.m = true := by
          have hvalid := not_not.mp hvalid
          unfold titorIsValid at hvalid
          exact (of_decide_eq_true hvalid).1
        split at hloop
        · cases hloop
          exact ⟨h, rfl⟩
        · obtain ⟨next, hnext, hloop⟩ := bind_eq_ok.mp hloop
          exact ih h (ht.next h hnext) hloop
        · obtain ⟨db₁, hdone, hloop⟩ := bind_eq_ok.mp hloop
          obtain ⟨next, hnext, hloop⟩ := bind_eq_ok.mp hloop
          obtain ⟨⟨db₂, ms₂, finished₂⟩, hloop, hresult⟩ := bind_eq_ok.mp hloop
          cases hresult
          obtain ⟨h₁, hiterates, hsequence⟩ := hact h (fun hbound => ⟨ht t rfl hbound, hvalid⟩) hdone
          rw [← hsequence]
          exact ih h₁ ((hiterates _ ht).next h₁ hnext) hloop

theorem scanOpened_laid (act : Session → Db → Mitor → Except Fault Db) {cond : Option Where} {status : ScrcStatus}
    {titor : Option Titor} {reply : Reply} (hact : Keeps cfg (act session)) (h : db.Laid cfg)
    (ht : db.Iterates titor)
    (hscan : scanOpened cfg fuel act cond schema table (db, session, status, titor) = .ok (db', session', reply)) :
    db'.Laid cfg ∧ session' = session ∧ db'.sequence = db.sequence := by
  rw [scanOpened] at hscan
  split at hscan
  · cases hscan
    exact ⟨h, rfl, rfl⟩
  · obtain ⟨⟨db₁, status₁, ms⟩, hrows, hscan⟩ := bind_eq_ok.mp hscan
    cases hscan
    unfold rowsWhere at hrows
    dsimp only at hrows
    split at hrows
    · obtain ⟨⟨db₂, ms₂, finished⟩, hloop, hrows⟩ := bind_eq_ok.mp hrows
      cases hrows
      obtain ⟨hlaid, hsequence⟩ := rowLoop_laid hact h ht hloop
      exact ⟨hlaid, rfl, hsequence⟩
    · cases hrows
      exact ⟨h, rfl, rfl⟩

theorem run_laid {cmd : Command} {reply : Reply} (h : db.Laid cfg) (hsession : session.Positive)
    (hrun : db.run cfg fuel session cmd = .ok (db', session', reply)) :
    db'.Laid cfg ∧ session'.Positive ∧ db.sequence.issued ≤ db'.sequence.issued := by
  cases cmd with
  | start =>
      obtain ⟨⟨ts, session₁, status⟩, hstart, hrun⟩ := bind_eq_ok.mp hrun
      cases hrun
      obtain ⟨hlaid, hsession⟩ := tclStart_laid h hsession hstart
      exact ⟨hlaid, hsession, Nat.le_refl _⟩
  | commit =>
      obtain ⟨⟨ts, session₁, status⟩, hcommit, hrun⟩ := bind_eq_ok.mp hrun
      cases hrun
      obtain ⟨hlaid, hsession⟩ := tclFinish_laid h hsession hcommit
      exact ⟨hlaid, hsession, Nat.le_refl _⟩
  | rollback =>
      obtain ⟨⟨ts, session₁, status⟩, hrollback, hrun⟩ := bind_eq_ok.mp hrun
      cases hrun
      obtain ⟨hlaid, hsession⟩ := tclFinish_laid h hsession hrollback
      exact ⟨hlaid, hsession, Nat.le_refl _⟩
  | insert schema table names values leftover =>
      obtain ⟨⟨db₁, session₁, status, m⟩, hinsert, hrun⟩ := bind_eq_ok.mp hrun
      cases hrun
      obtain ⟨hlaid, hsession⟩ := insert_laid h hsession hinsert
      exact ⟨hlaid, hsession, (insert_issued h hinsert).1⟩
  | delete schema table cond =>
      obtain ⟨⟨db₁, session₁, status, titor⟩, hopen, hscan⟩ := bind_eq_ok.mp
        (show dmlDelete cfg fuel db session schema table
          >>= scanOpened cfg fuel (dmlDeleteRow cfg) cond schema table = .ok (db', session', reply) from hrun)
      obtain ⟨hlaid, hsession, ht⟩ := dmlDelete_laid h hsession hopen
      obtain ⟨hlaid, rfl, hsequence⟩ := scanOpened_laid _ (deleteRow_keeps _) hlaid ht hscan
      rw [hsequence, (dmlDelete_sameTables hopen).2.2]
      exact ⟨hlaid, hsession, Nat.le_refl _⟩
  | select schema table names cond =>
      obtain ⟨⟨db₁, session₁, status, titor⟩, hopen, hscan⟩ := bind_eq_ok.mp
        (show dmlSelect cfg fuel db session schema table names
          >>= scanOpened cfg fuel (fun _ db _ => .ok db) cond schema table = .ok (db', session', reply) from hrun)
      obtain ⟨hlaid, hsession, ht⟩ := dmlSelect_laid h hsession hopen
      obtain ⟨hlaid, rfl, hsequence⟩ := scanOpened_laid (fun _ db _ => .ok db) selectRow_keeps hlaid
        ht hscan
      rw [hsequence, (dmlSelect_sameTables hopen).2.2]
      exact ⟨hlaid, hsession, Nat.le_refl _⟩

end Db

/-! ### The sessions -/

/-- What the sessions share as a store. -/
def Cluster.store (s : Cluster Db) : Cluster Store := ⟨s.db.store, s.sessions⟩

/-- The tables are in order, and the transactions of the sessions have positive ids. -/
structure Cluster.Ready (cfg : Config) (s : Cluster Db) : Prop where
  laid : s.db.Laid cfg
  positive : ∀ sid, (s.sessions sid).Positive

variable {cfg : Config} {fuel : Nat} {s s' : Cluster Db}

theorem Cluster.Ready.step {input : Nat × Command} {reply : Reply} (h : s.Ready cfg)
    (hstep : s.step (Db.run cfg fuel) input = .ok (s', reply)) :
    s'.Ready cfg ∧ s.db.sequence.issued ≤ s'.db.sequence.issued := by
  obtain ⟨sid, cmd⟩ := input
  obtain ⟨session, hrun, hsessions⟩ := Cluster.step_eq_ok.mp hstep
  obtain ⟨hlaid, hsession, hissued⟩ := Db.run_laid h.laid (h.positive sid) hrun
  refine ⟨⟨hlaid, fun sid' => ?_⟩, hissued⟩
  rw [hsessions]
  by_cases hsid : sid' = sid
  · subst hsid
    rw [Function.update_self]
    exact hsession
  · rw [Function.update_of_ne hsid]
    exact h.positive sid'

theorem Cluster.step_store {input : Nat × Command} {reply : Reply} (h : s.Ready cfg)
    (hissued : s.db.sequence.issued + 1 < 2 ^ 40)
    (hstep : s.step (Db.run cfg fuel) input = .ok (s', reply)) :
    s.store.step (Store.run cfg) input = .ok (s'.store, reply) := by
  obtain ⟨sid, cmd⟩ := input
  obtain ⟨session, hrun, hsessions⟩ := Cluster.step_eq_ok.mp hstep
  exact Cluster.step_eq_ok.mpr ⟨session, Db.run_store h.laid hissued hrun, hsessions⟩

/-- **The runs of the sessions are runs on the store**, while the ids of the pages fill their fields. -/
theorem Cluster.exec_store {inputs : List (Nat × Command)} {hist : List ((Nat × Command) × Reply)}
    (h : s.Ready cfg) (hexec : Machine.exec (Cluster.step (Db.run cfg fuel)) s inputs = .ok (s', hist))
    (hissued : s'.db.sequence.issued + 1 < 2 ^ 40) :
    Machine.exec (Cluster.step (Store.run cfg)) s.store inputs = .ok (s'.store, hist)
      ∧ s'.Ready cfg ∧ s.db.sequence.issued + 1 < 2 ^ 40 := by
  refine Machine.exec_map Cluster.store (Cluster.Ready cfg) (fun s => s.db.sequence.issued + 1 < 2 ^ 40) ?_ ?_ h
    hissued hexec
  · intro s i s' o h hstep
    obtain ⟨h', hle⟩ := h.step hstep
    exact ⟨h', fun hbound => by omega⟩
  · intro s i s' o h hbound hstep
    exact Cluster.step_store h hbound hstep

end Scroller
