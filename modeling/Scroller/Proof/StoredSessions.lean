import Scroller.Proof.StoreRuns

/-!
# Sessions in memory

What the commands of the sessions do to the rows of tables they do to their bytes. No command of a session creates
a table, so that the columns that lie apart at the start lie apart for good.
-/

namespace Scroller

open Outcome

namespace Db

variable {cfg : Config} {fuel : Nat} {db db' : Db} {session session' : Session} {schema table : List UInt8}

/-! ### One command -/

/-- An action on the rows of the tables is one on their bytes. -/
def Stores (cfg : Config) (act : Db → Mitor → Except Fault Db) : Prop :=
  ∀ {db db' : Db} {m : Mitor}, db.Laid cfg → db.LaidOut cfg → db.sequence.issued < 2 ^ 40 → db.Stands m →
    act db m = .ok db' → db.OnBytes cfg db' ∧ db'.LaidOut cfg

theorem deleteRow_stores (session : Session) : Stores cfg (dmlDeleteRow cfg session) := by
  intro db db' m h hlayout hissued hm hdelete
  exact dmlDeleteRow_onBytes h hlayout hissued hm hdelete

theorem selectRow_stores : Stores cfg fun db _ => .ok db := by
  intro db db' m h hlayout hissued hm hselect
  cases hselect
  exact ⟨.refl cfg _, hlayout⟩

theorem rowLoop_onBytes {act : Db → Mitor → Except Fault Db} {cond : Where} {t : Titor} {ms : List Mitor}
    {finished : Bool} (hact : Keeps cfg act) (hstores : Stores cfg act) (h : db.Laid cfg) (hlayout : db.LaidOut cfg)
    (hissued : db.sequence.issued < 2 ^ 40) (ht : db.Iterates (some t))
    (hloop : rowLoop cfg act cond fuel db t = .ok (db', ms, finished)) : db.OnBytes cfg db' ∧ db'.LaidOut cfg := by
  induction fuel generalizing db t ms with
  | zero => cases hloop
  | succ fuel ih =>
      rw [rowLoop] at hloop
      split at hloop
      · cases hloop
        exact ⟨.refl cfg _, hlayout⟩
      next hvalid =>
        have hvalid : mitorIsValid db t.m = true := by
          have hvalid := not_not.mp hvalid
          unfold titorIsValid at hvalid
          exact (of_decide_eq_true hvalid).1
        split at hloop
        · cases hloop
          exact ⟨.refl cfg _, hlayout⟩
        · obtain ⟨next, hnext, hloop⟩ := bind_eq_ok.mp hloop
          exact ih h hlayout hissued (ht.next h hnext) hloop
        · obtain ⟨db₁, hdone, hloop⟩ := bind_eq_ok.mp hloop
          obtain ⟨next, hnext, hloop⟩ := bind_eq_ok.mp hloop
          obtain ⟨⟨db₂, ms₂, finished₂⟩, hloop, hresult⟩ := bind_eq_ok.mp hloop
          cases hresult
          have hm := ht t rfl hissued
          obtain ⟨h₁, hiterates, hsequence⟩ := hact h (fun _ => ⟨hm, hvalid⟩) hdone
          obtain ⟨hbytes, hlayout₁⟩ := hstores h hlayout hissued hm hdone
          rw [← hsequence] at hissued
          obtain ⟨hrest, hlayout₂⟩ := ih h₁ hlayout₁ hissued ((hiterates _ ht).next h₁ hnext) hloop
          exact ⟨hbytes.trans hrest, hlayout₂⟩

theorem scanOpened_onBytes (act : Session → Db → Mitor → Except Fault Db) {cond : Option Where} {status : ScrcStatus}
    {titor : Option Titor} {reply : Reply} (hact : Keeps cfg (act session)) (hstores : Stores cfg (act session))
    (h : db.Laid cfg) (hlayout : db.LaidOut cfg) (hissued : db.sequence.issued < 2 ^ 40) (ht : db.Iterates titor)
    (hscan : scanOpened cfg fuel act cond schema table (db, session, status, titor) = .ok (db', session', reply)) :
    db.OnBytes cfg db' ∧ db'.LaidOut cfg := by
  rw [scanOpened] at hscan
  split at hscan
  · cases hscan
    exact ⟨.refl cfg _, hlayout⟩
  · obtain ⟨⟨db₁, status₁, ms⟩, hrows, hscan⟩ := bind_eq_ok.mp hscan
    cases hscan
    unfold rowsWhere at hrows
    dsimp only at hrows
    split at hrows
    · obtain ⟨⟨db₂, ms₂, finished⟩, hloop, hrows⟩ := bind_eq_ok.mp hrows
      cases hrows
      exact rowLoop_onBytes hact hstores h hlayout hissued ht hloop
    · cases hrows
      exact ⟨.refl cfg _, hlayout⟩

theorem run_onBytes {cmd : Command} {reply : Reply} (h : db.Laid cfg) (hsession : session.Positive)
    (hlayout : db.LaidOut cfg) (hissued : db'.sequence.issued < 2 ^ 40)
    (hrun : db.run cfg fuel session cmd = .ok (db', session', reply)) : db.OnBytes cfg db' ∧ db'.LaidOut cfg := by
  have hother {ts : TranState} (heq : db' = { db with trans := ts }) : db.OnBytes cfg db' ∧ db'.LaidOut cfg := by
    subst heq
    exact ⟨.other rfl rfl, hlayout.other rfl rfl⟩
  have hle : db.sequence.issued ≤ db'.sequence.issued := (run_laid h hsession hrun).2.2
  cases cmd with
  | start | commit | rollback =>
      obtain ⟨⟨ts, session₁, status⟩, -, hrun⟩ := bind_eq_ok.mp hrun
      cases hrun
      exact hother rfl
  | insert schema table names values leftover =>
      obtain ⟨⟨db₁, session₁, status, m⟩, hinsert, hrun⟩ := bind_eq_ok.mp hrun
      cases hrun
      exact insert_onBytes h hsession hlayout hissued hinsert
  | delete schema table cond =>
      obtain ⟨⟨db₁, session₁, status, titor⟩, hopen, hscan⟩ := bind_eq_ok.mp
        (show dmlDelete cfg fuel db session schema table
          >>= scanOpened cfg fuel (dmlDeleteRow cfg) cond schema table = .ok (db', session', reply) from hrun)
      obtain ⟨hlaid, -, ht⟩ := dmlDelete_laid h hsession hopen
      obtain ⟨hrows, hpages, hsequence⟩ := dmlDelete_sameTables hopen
      have hissued₁ : db₁.sequence.issued < 2 ^ 40 := by
        rw [hsequence]
        omega
      obtain ⟨hbytes, hlayout'⟩ := scanOpened_onBytes _ (deleteRow_keeps _) (deleteRow_stores _) hlaid
        (hlayout.other hrows hpages) hissued₁ ht hscan
      exact ⟨(OnBytes.other hrows hpages).trans hbytes, hlayout'⟩
  | select schema table names cond =>
      obtain ⟨⟨db₁, session₁, status, titor⟩, hopen, hscan⟩ := bind_eq_ok.mp
        (show dmlSelect cfg fuel db session schema table names
          >>= scanOpened cfg fuel (fun _ db _ => .ok db) cond schema table = .ok (db', session', reply) from hrun)
      obtain ⟨hlaid, -, ht⟩ := dmlSelect_laid h hsession hopen
      obtain ⟨hrows, hpages, hsequence⟩ := dmlSelect_sameTables hopen
      have hissued₁ : db₁.sequence.issued < 2 ^ 40 := by
        rw [hsequence]
        omega
      obtain ⟨hbytes, hlayout'⟩ := scanOpened_onBytes (fun _ db _ => .ok db) selectRow_keeps selectRow_stores hlaid
        (hlayout.other hrows hpages) hissued₁ ht hscan
      exact ⟨(OnBytes.other hrows hpages).trans hbytes, hlayout'⟩

end Db

/-! ### Runs -/

/-- The bytes have followed since `s₀`, while the ids fill their fields. -/
structure Cluster.Since (cfg : Config) (s₀ s : Cluster Db) : Prop where
  ready : s.Ready cfg
  stored : s.db.sequence.issued < 2 ^ 40 → s₀.db.OnBytes cfg s.db ∧ s.db.LaidOut cfg

namespace Cluster

variable {cfg : Config} {fuel : Nat} {s₀ s s' : Cluster Db}

theorem since_of_run {requests : List Request} {done : List (Request × Execute.Executed)} (hfresh : s₀.Fresh)
    (htyped : ∀ r ∈ requests, r.Typed) (hlayout : s₀.LaidOut cfg requests)
    (hrun : Machine.exec (Cluster.execute cfg) s₀ requests = .ok (s, done)) : Since cfg s₀ s := by
  obtain ⟨hlaid, hpositive⟩ := laid_of_run hfresh htyped hrun
  exact ⟨⟨hlaid, hpositive⟩, fun hissued => ⟨onBytes_of_run hfresh htyped hlayout hrun hissued, hlayout.final hrun⟩⟩

theorem Since.step {input : Nat × Command} {reply : Reply} (h : Since cfg s₀ s)
    (hstep : s.step (Db.run cfg fuel) input = .ok (s', reply)) : Since cfg s₀ s' := by
  obtain ⟨hready, hle⟩ := h.ready.step hstep
  refine ⟨hready, fun hissued => ?_⟩
  obtain ⟨hbytes, hlayout⟩ := h.stored (by omega)
  obtain ⟨sid, cmd⟩ := input
  obtain ⟨session, hrun, -⟩ := Cluster.step_eq_ok.mp hstep
  obtain ⟨hbytes', hlayout'⟩ := Db.run_onBytes h.ready.laid (h.ready.positive sid) hlayout hissued hrun
  exact ⟨hbytes.trans hbytes', hlayout'⟩

/-- What the sessions do to the rows of tables they do to their bytes. -/
theorem Since.exec {inputs : List (Nat × Command)} {hist : List ((Nat × Command) × Reply)} (h : Since cfg s₀ s)
    (hexec : Machine.exec (Cluster.step (Db.run cfg fuel)) s inputs = .ok (s', hist)) : Since cfg s₀ s' :=
  Machine.exec_invariant (fun _ s => Since cfg s₀ s) (fun _ => True) []
    (fun _ _ _ _ _ h _ hstep => h.step hstep) h (fun _ _ => True.intro) hexec

end Cluster

end Scroller
