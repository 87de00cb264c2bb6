import Scroller.Proof.RowSteps
import Scroller.Proof.StoredSessions
import Scroller.Proof.Transactions

/-!
# Visible rows

What the sessions of one catalog see of a row in every order of their commands: a row of an open transaction, a row
that a committed transaction has deleted, and the rule that `tran_row_is_visible` stands for.
-/

namespace Scroller

open Outcome

@[simp]
theorem Row.tmin_setTmax (row : Row) (tid : Int64) : (row.setTmax tid).tmin = row.tmin := rfl

@[simp]
theorem Row.tmax_setTmax (row : Row) (tid : Int64) : (row.setTmax tid).tmax = tid := by
  unfold Row.tmax Row.setTmax
  rw [Function.update_self]

/-! ### One test -/

section

variable {cfg : Config} {flags : Int64 → TranFlag} {tran : Tran} {tid tmin tmax : Int64}

/-- The flag of an id is on the page. -/
def Config.HasFlag (cfg : Config) (tid : Int64) : Prop := 0 ≤ tid ∧ tid.toInt < cfg.tranCapacity

theorem ne_invalid (h : 0 < tid) : tid ≠ tranInvalidId := by
  rintro rfl
  exact absurd h (by decide)

theorem Config.HasFlag.of_pos (h : 0 < tid) (hlt : tid.toInt < cfg.tranCapacity) : cfg.HasFlag tid :=
  ⟨Int64.le_of_lt h, hlt⟩

theorem Config.HasFlag.invalid (h : cfg.HasFlag tid) : cfg.HasFlag tranInvalidId :=
  ⟨by decide, Int.lt_of_le_of_lt (Int64.le_iff_toInt_le.mp h.1) h.2⟩

theorem tranFlagGet_of_hasFlag (h : cfg.HasFlag tid) : tranFlagGet cfg flags tid = .ok (flags tid) := by
  rw [tranFlagGet, Build.assert_of _ h.1]
  exact if_pos h

/-- What an answer of the test means. -/
theorem visible_cases {visible : Bool} (h : tranRowIsVisible cfg flags tran tmin tmax = .ok visible) :
    (tran.key = tmin ∧ visible = (tran.key ≠ tmax : Bool))
      ∨ (tran.key ≠ tmin ∧ tran.key = tmax ∧ visible = false)
      ∨ (tran.key ≠ tmin ∧ tran.key ≠ tmax ∧ visible = (flags tmin = .commited ∧ flags tmax ≠ .commited : Bool)) := by
  unfold tranRowIsVisible at h
  obtain ⟨-, -, h⟩ := bind_eq_ok.mp h
  obtain ⟨-, -, h⟩ := bind_eq_ok.mp h
  split at h
  next hown =>
    obtain ⟨-, -, h⟩ := bind_eq_ok.mp h
    exact Or.inl ⟨hown, (Except.ok.inj h).symm⟩
  next hother =>
    split at h
    next hdeleted =>
      cases h
      exact Or.inr (Or.inl ⟨hother, hdeleted, rfl⟩)
    next hdeleted =>
      obtain ⟨tminFlag, hget, h⟩ := bind_eq_ok.mp h
      obtain ⟨tmaxFlag, hget', h⟩ := bind_eq_ok.mp h
      have hflag {tid : Int64} {flag : TranFlag} (hget : tranFlagGet cfg flags tid = .ok flag) :
          flag = flags tid := by
        obtain ⟨-, -, hget⟩ := bind_eq_ok.mp hget
        split at hget
        · exact (Except.ok.inj hget).symm
        · cases hget
      obtain rfl := hflag hget
      obtain rfl := hflag hget'
      refine Or.inr (Or.inr ⟨hother, hdeleted, ?_⟩)
      split at h
      next hcommitted =>
        rw [← Except.ok.inj h]
        simp [hcommitted]
      next haborted =>
        rw [← Except.ok.inj h]
        simp [haborted]

/-- Who sees a row has inserted it, or sees it as one of another transaction. -/
theorem seen_cases (h : tranRowIsVisible cfg flags tran tmin tmax = .ok true) :
    (tran.key = tmin ∧ tran.key ≠ tmax)
      ∨ (tran.key ≠ tmin ∧ tran.key ≠ tmax ∧ flags tmin = .commited ∧ flags tmax ≠ .commited) := by
  rcases visible_cases h with ⟨hown, hvisible⟩ | ⟨-, -, hvisible⟩ | ⟨hother, hdeleted, hvisible⟩
  · exact Or.inl ⟨hown, of_decide_eq_true hvisible.symm⟩
  · cases hvisible
  · exact Or.inr ⟨hother, hdeleted, of_decide_eq_true hvisible.symm⟩

/-- The test for a row of another transaction. -/
theorem tranRowIsVisible_other (hkey : tran.key ≠ tranInvalidId) (htmin : cfg.build = .debug → tmin ≠ tranInvalidId)
    (hother : tran.key ≠ tmin) (htmax : tran.key ≠ tmax) (hmin : cfg.HasFlag tmin) (hmax : cfg.HasFlag tmax) :
    tranRowIsVisible cfg flags tran tmin tmax = .ok (flags tmin = .commited ∧ flags tmax ≠ .commited) := by
  unfold tranRowIsVisible
  dsimp only
  rw [Build.assert_of _ hkey, Build.assert_eq_ok.mpr htmin, if_neg hother, if_neg htmax, tranFlagGet_of_hasFlag hmin,
    tranFlagGet_of_hasFlag hmax]
  dsimp only [bind, Except.bind]
  by_cases hcommitted : flags tmin = .commited
  · rw [if_pos hcommitted]
    simp [hcommitted, pure, Except.pure]
  · rw [if_neg hcommitted]
    simp [hcommitted, pure, Except.pure]

theorem tranRowIsVisible_deleter (hkey : tran.key ≠ tranInvalidId)
    (htmin : cfg.build = .debug → tmin ≠ tranInvalidId) (hother : tran.key ≠ tmin) :
    tranRowIsVisible cfg flags tran tmin tran.key = .ok false := by
  unfold tranRowIsVisible
  dsimp only
  rw [Build.assert_of _ hkey, Build.assert_eq_ok.mpr htmin, if_neg hother, if_pos rfl]
  rfl

/-- The test for a row of one's own. -/
theorem tranRowIsVisible_own (hkey : tran.key ≠ tranInvalidId) (htmax : tmax = tranInvalidId ∨ tmax = tran.key) :
    tranRowIsVisible cfg flags tran tran.key tmax = .ok (tran.key ≠ tmax) := by
  unfold tranRowIsVisible
  dsimp only
  rw [Build.assert_of _ hkey, if_pos rfl, Build.assert_of _ (htmax.elim Or.inr fun h => Or.inl h.symm)]
  rfl

end

/-! ### Runs of the sessions of one catalog -/

/-- Nothing was done yet: no session has a transaction, no flag is set, and all sessions draw their ids from the
catalog with an index. -/
structure Cluster.Idle (i : Nat) (s : Cluster Db) : Prop where
  tran : ∀ sid, (s.sessions sid).tran = none
  flags : ∀ tid, s.db.trans.flags tid = .aborted
  catalog : ∀ sid j, s.db.trans.catalogIndex (s.sessions sid) = some j → j = i

/-- What a command does to the transactions and to the rows. -/
structure Cluster.Does (cfg : Config) (s s' : Cluster Db) (sid : Nat) (cmd : Command) (session' : Session)
    (reply : Reply) : Prop where
  sessions : s'.sessions = Function.update s.sessions sid session'
  tran : TranStep cfg cmd s.db.trans (s.sessions sid) s'.db.trans session'
  row : ∀ name, RowStep cfg cmd s.db.store s'.db.store session' reply name

namespace Cluster

variable {cfg : Config} {fuel i : Nat} {s s' : Cluster Db} {sid : Nat} {cmd : Command} {session' : Session}
  {reply : Reply}

theorem Idle.tracked (h : s.Idle i) (hlaid : s.db.Laid cfg) : Tracked cfg i s.db.trans s.sessions where
  plain := hlaid.catalog
  catalog := h.catalog
  keys sid tran htran := by
    rw [h.tran sid] at htran
    cases htran
  apart sid sid' tran tran' htran := by
    rw [h.tran sid] at htran
    cases htran
  committed tid hflag := by
    rw [h.flags tid] at hflag
    cases hflag
  flags sid tran htran := by
    rw [h.tran sid] at htran
    cases htran

theorem Ready.does (h : s.Ready cfg) (hissued : s.db.sequence.issued + 1 < 2 ^ 40)
    (hstep : s.step (Db.run cfg fuel) (sid, cmd) = .ok (s', reply)) :
    ∃ session', s.Does cfg s' sid cmd session' reply := by
  obtain ⟨session', hrun, hsessions⟩ := step_eq_ok.mp (step_store h hissued hstep)
  refine ⟨session', hsessions, Store.run_step h.laid.catalog hrun, Store.run_row ?_ hrun⟩
  intro schema table t j hfind
  exact Db.orderly_of_tables (h.laid.tables (by omega)) (by omega) hfind

theorem Ready.exec {inputs : List (Nat × Command)} {hist : List ((Nat × Command) × Reply)} (h : s.Ready cfg)
    (hexec : Machine.exec (Cluster.step (Db.run cfg fuel)) s inputs = .ok (s', hist)) :
    s'.Ready cfg ∧ s.db.sequence.issued ≤ s'.db.sequence.issued := by
  refine Machine.exec_invariant
    (fun _ s' => s'.Ready cfg ∧ s.db.sequence.issued ≤ s'.db.sequence.issued) (fun _ => True) [] ?_
    ⟨h, Nat.le_refl _⟩ (fun _ _ => True.intro) hexec
  intro _ s₁ input s₂ reply h₁ _ hstep
  obtain ⟨hready, hle⟩ := h₁.1.step hstep
  exact ⟨hready, h₁.2.trans hle⟩

/-- **The run rule for rows.** What every allowed command keeps holds after every run of allowed commands. -/
theorem exec_keeps {I : Cluster Db → Prop} {allowed : Cluster Db → Nat × Command → Reply → Prop}
    (hkeep : ∀ s s' sid cmd session' reply, I s → allowed s (sid, cmd) reply →
      s.Does cfg s' sid cmd session' reply → I s')
    {inputs : List (Nat × Command)} {hist : List ((Nat × Command) × Reply)} (h : s.Ready cfg) (hI : I s)
    (hexec : Machine.exec (Cluster.step (Db.run cfg fuel)) s inputs = .ok (s', hist))
    (hallowed : Machine.AlongAnswers (Cluster.step (Db.run cfg fuel)) allowed s inputs)
    (hissued : s'.db.sequence.issued + 1 < 2 ^ 40) : I s' := by
  induction inputs generalizing s hist with
  | nil =>
      cases hexec
      exact hI
  | cons input inputs ih =>
      obtain ⟨sid, cmd⟩ := input
      obtain ⟨s₁, reply, rest, hstep, hrest, -⟩ := Machine.exec_cons_eq_ok.mp hexec
      obtain ⟨hready, hle⟩ := h.step hstep
      obtain ⟨-, -, hbound⟩ := exec_store hready hrest hissued
      obtain ⟨session', hdoes⟩ := h.does (by omega) hstep
      obtain ⟨hfirst, hlater⟩ := (Machine.alongAnswers_cons hstep).mp hallowed
      exact ih hready (hkeep s s₁ sid cmd session' reply hI hfirst hdoes) hrest hlater

theorem Does.tracked (h : s.Does cfg s' sid cmd session' reply) (htracked : Tracked cfg i s.db.trans s.sessions) :
    Tracked cfg i s'.db.trans s'.sessions ∧ s.db.trans.issued i ≤ s'.db.trans.issued i := by
  rw [h.sessions]
  exact htracked.step h.tran

end Cluster

/-! ### Rows of an open transaction -/

/-- A row of a transaction that was not committed. -/
structure Cluster.Uncommitted (cfg : Config) (i sid : Nat) (tid : Int64) (name : Nat × Nat) (s : Cluster Db) :
    Prop where
  tracked : Tracked cfg i s.db.trans s.sessions
  positive : 0 < tid
  issued : tid.toInt ≤ s.db.trans.issued i
  flag : s.db.trans.flags tid = .aborted
  holder : ∀ sid' tran, (s.sessions sid').tran = some tran → tran.key = tid → sid' = sid
  row : ∃ row, s.db.store.row? name = some row ∧ row.tmin = tid ∧ (row.tmax = tranInvalidId ∨ row.tmax = tid)

namespace Cluster.Uncommitted

variable {cfg : Config} {i sid : Nat} {tid : Int64} {name : Nat × Nat} {s s' : Cluster Db}

theorem step (h : s.Uncommitted cfg i sid tid name) {sid' : Nat} {cmd : Command} {session' : Session}
    {reply : Reply} (hcommit : cmd = .commit → (s.sessions sid').tran ≠ some ⟨tid, false⟩)
    (hname : reply.inserted ≠ some name) (hdoes : s.Does cfg s' sid' cmd session' reply) :
    s'.Uncommitted cfg i sid tid name := by
  obtain ⟨htracked, hle⟩ := hdoes.tracked h.tracked
  have hflag : s'.db.trans.flags tid = .aborted := h.tracked.aborted_stays hdoes.tran h.issued h.flag hcommit
  refine ⟨htracked, h.positive, h.issued.trans (Int.ofNat_le.mpr hle), hflag, ?_, ?_⟩
  · intro sid₁ tran htran hkey
    rw [hdoes.sessions] at htran
    rcases h.tracked.current_or_new hdoes.tran htran with hold | hnew
    · exact h.holder sid₁ tran hold hkey
    · have hissued := h.issued
      rw [← hkey] at hissued
      omega
  · obtain ⟨row, hrow, htmin, htmax⟩ := h.row
    cases hdoes.row name with
    | kept _ _ hkept => exact ⟨row, hkept.trans hrow, htmin, htmax⟩
    | inserted _ hinserted => exact absurd hinserted hname
    | @deleted _ _ _ row' tran _ _ _ hrow' hvisible hdeleted =>
        obtain rfl : row' = row := Option.some.inj (hrow'.symm.trans hrow)
        refine ⟨_, hdeleted, htmin, Or.inr ?_⟩
        rw [Row.tmax_setTmax]
        rcases seen_cases hvisible with ⟨hown, -⟩ | ⟨-, -, hcommitted, -⟩
        · exact hown.trans htmin
        · -- nobody else sees a row of an open transaction
          rw [htmin] at hcommitted
          exact absurd (hflag.symm.trans hcommitted) (by decide)

theorem hidden (h : s.Uncommitted cfg i sid tid name) (hcapacity : s.db.trans.issued i < cfg.tranCapacity)
    {sid' : Nat} {tran : Tran} (htran : (s.sessions sid').tran = some tran) (hother : sid' = sid → tran.key ≠ tid) :
    ∃ row, s.db.store.row? name = some row
      ∧ tranRowIsVisible cfg s.db.trans.flags tran row.tmin row.tmax = .ok false := by
  obtain ⟨row, hrow, htmin, htmax⟩ := h.row
  refine ⟨row, hrow, ?_⟩
  have hkey : tran.key ≠ tranInvalidId := ne_invalid (h.tracked.keys sid' tran htran).1
  have hne : tran.key ≠ row.tmin := by
    intro heq
    have hsame : tran.key = tid := heq.trans htmin
    exact hother (h.holder sid' tran htran hsame) hsame
  have hpositive : row.tmin ≠ tranInvalidId := by
    rw [htmin]
    exact ne_invalid h.positive
  have hissued := h.issued
  have hmin : cfg.HasFlag tid := .of_pos h.positive (by omega)
  have hmax : cfg.HasFlag row.tmax := by
    rcases htmax with hzero | hsame
    · rw [hzero]
      exact hmin.invalid
    · rwa [hsame]
  have hnemax : tran.key ≠ row.tmax := by
    rcases htmax with hzero | hsame
    · rwa [hzero]
    · rw [hsame, ← htmin]
      exact hne
  rw [tranRowIsVisible_other hkey (fun _ => hpositive) hne hnemax (htmin.symm ▸ hmin) hmax, htmin, h.flag]
  rfl

end Cluster.Uncommitted

/-- Every run of the sessions keeps their ids apart. -/
theorem Cluster.Idle.exec_tracked {cfg : Config} {fuel i : Nat} {s s' : Cluster Db} {inputs : List (Nat × Command)}
    {hist : List ((Nat × Command) × Reply)} (h : s.Idle i) (hready : s.Ready cfg)
    (hexec : Machine.exec (Cluster.step (Db.run cfg fuel)) s inputs = .ok (s', hist))
    (hissued : s'.db.sequence.issued + 1 < 2 ^ 40) : Tracked cfg i s'.db.trans s'.sessions := by
  have hall : Machine.AlongAnswers (Cluster.step (Db.run cfg fuel)) (fun _ _ _ => True) s inputs :=
    fun _ _ _ _ _ _ _ _ _ _ => True.intro
  refine Cluster.exec_keeps (I := fun s => Tracked cfg i s.db.trans s.sessions) ?_ hready (h.tracked hready.laid)
    hexec hall hissued
  intro s s' sid cmd session' reply htracked _ hdoes
  exact (hdoes.tracked htracked).1

/-- A row that a transaction inserts is one of an open transaction. -/
theorem Cluster.Uncommitted.of_insert {cfg : Config} {i sid : Nat} {tid : Int64} {name : Nat × Nat}
    {s s' : Cluster Db} {schema table : List UInt8} {names : List (List UInt8)} {values : List Datum}
    {leftover : Option Tran} {session' : Session} {reply : Reply} (h : Tracked cfg i s.db.trans s.sessions)
    (htran : (s.sessions sid).tran = some ⟨tid, false⟩)
    (hdoes : s.Does cfg s' sid (.insert schema table names values leftover) session' reply)
    (hok : reply.status = .ok) (hname : reply.inserted = some name) (hvalues : names.length = values.length) :
    s'.Uncommitted cfg i sid tid name := by
  obtain ⟨htracked, hle⟩ := hdoes.tracked h
  cases hdoes.row name with
  | kept hinserted => exact absurd hname hinserted
  | deleted hcmd => cases hcmd
  | @inserted _ _ _ _ _ row tran hcmd _ htran' hrow hstamped =>
      cases hcmd
      obtain ⟨htmin, htmax⟩ := hstamped hvalues hok
      -- the session still has its transaction, which was not autocommitted
      have hsession : session'.tran = some ⟨tid, false⟩ := by
        rw [hdoes.tran.open_stays htran htran']
        exact htran
      have hcurrent : (s'.sessions sid).tran = some ⟨tid, false⟩ := by
        rw [hdoes.sessions, Function.update_self]
        exact hsession
      obtain rfl : tran = ⟨tid, false⟩ := Option.some.inj (htran'.symm.trans hsession)
      refine ⟨htracked, (htracked.keys sid _ hcurrent).1, (htracked.keys sid _ hcurrent).2,
        htracked.flags sid _ hcurrent, ?_, row, hrow, htmin, Or.inl htmax⟩
      intro sid' tran' htran'' hkey
      exact htracked.apart sid' sid tran' _ htran'' hcurrent hkey

section

open Execute

/-- The sessions of a new table have done nothing yet. -/
theorem idle_createT (build : Build) {s : Cluster Db} {done : List (Request × Executed)}
    (h : Machine.exec (Cluster.execute ⟨build, 4096⟩) newCluster [createT] = .ok (s, done)) : s.Idle 0 := by
  have hsession : ∀ sid, s.sessions sid = ⟨some [99], none⟩ := by
    intro sid
    cases build with
    | debug =>
        cases h
        exact congrFun (Function.update_eq_self 0 newCluster.sessions) sid
    | release =>
        cases h
        exact congrFun (Function.update_eq_self 0 newCluster.sessions) sid
  have htrans : s.db.trans = newCluster.db.trans := by
    cases build with
    | debug =>
        cases h
        rfl
    | release =>
        cases h
        rfl
  refine ⟨fun sid => ?_, fun tid => ?_, fun sid j hj => ?_⟩
  · rw [hsession]
  · rw [htrans]
    rfl
  · rw [hsession, htrans] at hj
    cases hj
    rfl

/-- `INSERT INTO s.t (a) VALUES (1)`. -/
def insertCmd : Command := .insert [115] [116] [[97]] [makeBigint 1] (some ⟨1, true⟩)

/-- `DELETE FROM s.t`. -/
def deleteCmd : Command := .delete [115] [116] none

/-- `SELECT a FROM s.t`. -/
def selectCmd : Command := .select [115] [116] [[97]] none

/-- `INSERT INTO s.t (a) VALUES (1, 1)`. -/
def insertTwo : Command := .insert [115] [116] [[97]] [makeBigint 1, makeBigint 1] (some ⟨1, true⟩)

end

end Scroller
