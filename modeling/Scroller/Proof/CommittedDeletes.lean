import Scroller.Proof.RowVisibility

/-!
# Rows that a committed transaction has deleted

A `DELETE` overwrites the id that another one has put into `*tmax`. A row that a committed transaction has deleted
stays invisible exactly if a committed id was in `*tmax` when it was committed.
-/

namespace Scroller

open Outcome

/-- A row that a transaction has deleted, of its own or of a committed one. -/
structure Cluster.Deleted (cfg : Config) (i : Nat) (tid : Int64) (name : Nat × Nat) (s : Cluster Db) : Prop where
  tracked : Tracked cfg i s.db.trans s.sessions
  row : ∃ row, s.db.store.row? name = some row ∧ 0 < row.tmax ∧ row.tmax.toInt ≤ s.db.trans.issued i
    ∧ (row.tmin = tid ∧ row.tmax = tid ∨ s.db.trans.flags row.tmin = .commited)

/-- A row with two committed ids, inserted by one of the first transactions. -/
structure Cluster.Gone (cfg : Config) (i : Nat) (name : Nat × Nat) (first : Nat) (s : Cluster Db) : Prop where
  tracked : Tracked cfg i s.db.trans s.sessions
  row : ∃ row, s.db.store.row? name = some row ∧ row.tmin.toInt ≤ first
    ∧ s.db.trans.flags row.tmin = .commited ∧ s.db.trans.flags row.tmax = .commited

namespace Cluster

variable {cfg : Config} {i sid first : Nat} {tid : Int64} {name : Nat × Nat} {s s' : Cluster Db} {cmd : Command}
  {session' : Session} {reply : Reply}

theorem Deleted.step (h : s.Deleted cfg i tid name) (hname : reply.inserted ≠ some name)
    (hdoes : s.Does cfg s' sid cmd session' reply) : s'.Deleted cfg i tid name := by
  obtain ⟨htracked, hle⟩ := hdoes.tracked h.tracked
  obtain ⟨row, hrow, hpositive, hissued, hids⟩ := h.row
  have hids' : row.tmin = tid ∧ row.tmax = tid ∨ s'.db.trans.flags row.tmin = .commited :=
    hids.imp_right (h.tracked.committed_stays hdoes.tran)
  refine ⟨htracked, ?_⟩
  cases hdoes.row name with
  | kept _ _ hkept => exact ⟨row, hkept.trans hrow, hpositive, by omega, hids'⟩
  | inserted _ hinserted => exact absurd hinserted hname
  | @deleted _ _ _ row' tran _ _ htran hrow' hvisible hdeleted =>
      obtain rfl : row' = row := Option.some.inj (hrow'.symm.trans hrow)
      have hcurrent : (s'.sessions sid).tran = some tran := by
        rw [hdoes.sessions, Function.update_self]
        exact htran
      obtain ⟨hkey, hkeyIssued⟩ := htracked.keys sid tran hcurrent
      refine ⟨_, hdeleted, ?_, ?_, Or.inr ?_⟩
      · rwa [Row.tmax_setTmax]
      · rwa [Row.tmax_setTmax]
      · rcases hids' with ⟨htmin, htmax⟩ | hcommitted
        · -- who has inserted and deleted a row does not see it, and nobody else does
          rcases seen_cases hvisible with ⟨hown, hnot⟩ | ⟨-, -, hcommitted, -⟩
          · exact absurd (hown.trans (htmin.trans htmax.symm)) hnot
          · exact hcommitted
        · exact hcommitted

theorem Gone.step (h : s.Gone cfg i name first) (hname : reply.inserted ≠ some name)
    (hdoes : s.Does cfg s' sid cmd session' reply) : s'.Gone cfg i name first := by
  obtain ⟨htracked, -⟩ := hdoes.tracked h.tracked
  obtain ⟨row, hrow, hfirst, hmin, hmax⟩ := h.row
  have hmin' := h.tracked.committed_stays hdoes.tran hmin
  have hmax' := h.tracked.committed_stays hdoes.tran hmax
  refine ⟨htracked, ?_⟩
  cases hdoes.row name with
  | kept _ _ hkept => exact ⟨row, hkept.trans hrow, hfirst, hmin', hmax'⟩
  | inserted _ hinserted => exact absurd hinserted hname
  | @deleted _ _ _ row' tran _ _ _ hrow' hvisible hdeleted =>
      obtain rfl : row' = row := Option.some.inj (hrow'.symm.trans hrow)
      refine ⟨_, hdeleted, hfirst, hmin', ?_⟩
      rw [Row.tmax_setTmax]
      -- only its own transaction sees it, whose id is committed
      rcases seen_cases hvisible with ⟨hown, -⟩ | ⟨-, -, -, haborted⟩
      · rw [hown]
        exact hmin'
      · exact absurd hmax' haborted

/-- A transaction with a new id sees a row exactly if nobody has deleted it for good. -/
theorem Deleted.seen_iff (h : s.Deleted cfg i tid name) (hcommitted : s.db.trans.flags tid = .commited)
    {row : Row} (hrow : s.db.store.row? name = some row) {tran : Tran} (hnew : s.db.trans.issued i < tran.key.toInt) :
    tranRowIsVisible cfg s.db.trans.flags tran row.tmin row.tmax = .ok false
      ↔ s.db.trans.flags row.tmax = .commited := by
  obtain ⟨row', hrow', hpositive, hissued, hids⟩ := h.row
  obtain rfl : row' = row := Option.some.inj (hrow'.symm.trans hrow)
  have hmin : s.db.trans.flags row'.tmin = .commited := by
    rcases hids with ⟨htmin, -⟩ | hmin
    · rw [htmin]
      exact hcommitted
    · exact hmin
  obtain ⟨hminPositive, hminIssued, hminRoom⟩ := h.tracked.committed _ hmin
  have hkey : tran.key ≠ tranInvalidId := by
    rintro hzero
    rw [hzero] at hnew
    exact absurd hnew (by simp [tranInvalidId])
  have hother : tran.key ≠ row'.tmin := by
    intro heq
    rw [heq] at hnew
    omega
  have hmax : tran.key ≠ row'.tmax := by
    intro heq
    rw [heq] at hnew
    omega
  constructor
  · intro htest
    by_contra haborted
    rcases visible_cases htest with ⟨hown, -⟩ | ⟨-, hdeleted, -⟩ | ⟨-, -, hvisible⟩
    · exact hother hown
    · exact hmax hdeleted
    · exact of_decide_eq_false hvisible.symm ⟨hmin, haborted⟩
  · intro hdeleted
    obtain ⟨-, -, hroom⟩ := h.tracked.committed _ hdeleted
    rw [tranRowIsVisible_other hkey (fun _ => ne_invalid hminPositive) hother hmax
      (.of_pos hminPositive hminRoom) (.of_pos hpositive hroom)]
    simp [hmin, hdeleted]

theorem Deleted.of_delete {schema table : List UInt8} {cond : Option Where} {tran : Tran}
    (h : Tracked cfg i s.db.trans s.sessions) (hdoes : s.Does cfg s' sid (.delete schema table cond) session' reply)
    (hhit : name ∈ reply.rows) (htran : (s'.sessions sid).tran = some tran) : s'.Deleted cfg i tran.key name := by
  obtain ⟨htracked, -⟩ := hdoes.tracked h
  obtain ⟨hkey, hkeyIssued⟩ := htracked.keys sid tran htran
  refine ⟨htracked, ?_⟩
  cases hdoes.row name with
  | kept _ hdelete => exact absurd hhit (hdelete schema table cond rfl)
  | inserted hcmd => cases hcmd
  | @deleted _ _ _ row tran' _ _ htran' _ hvisible hdeleted =>
      rw [hdoes.sessions, Function.update_self] at htran
      obtain rfl : tran' = tran := Option.some.inj (htran'.symm.trans htran)
      refine ⟨_, hdeleted, ?_⟩
      rw [Row.tmax_setTmax]
      refine ⟨hkey, hkeyIssued, ?_⟩
      rcases seen_cases hvisible with ⟨hown, -⟩ | ⟨-, -, hcommitted, -⟩
      · exact Or.inl ⟨hown.symm, rfl⟩
      · exact Or.inr hcommitted

theorem Gone.hidden (h : s.Gone cfg i name first) {row : Row} (hrow : s.db.store.row? name = some row) {tran : Tran}
    (hlater : (first : Int) < tran.key.toInt) :
    tranRowIsVisible cfg s.db.trans.flags tran row.tmin row.tmax = .ok false := by
  obtain ⟨row', hrow', hfirst, hmin, hmax⟩ := h.row
  obtain rfl : row' = row := Option.some.inj (hrow'.symm.trans hrow)
  have hother : tran.key ≠ row'.tmin := by
    intro heq
    rw [heq] at hlater
    omega
  have hkey : 0 < tran.key := by
    rw [Int64.lt_iff_toInt_lt]
    exact Int.lt_of_le_of_lt (Int.natCast_nonneg first) hlater
  obtain ⟨hpositive, -, hroom⟩ := h.tracked.committed _ hmin
  obtain ⟨hpositive', -, hroom'⟩ := h.tracked.committed _ hmax
  by_cases hdeleter : tran.key = row'.tmax
  · rw [← hdeleter]
    exact tranRowIsVisible_deleter (ne_invalid hkey) (fun _ => ne_invalid hpositive) hother
  · rw [tranRowIsVisible_other (ne_invalid hkey) (fun _ => ne_invalid hpositive) hother hdeleter
      (.of_pos hpositive hroom) (.of_pos hpositive' hroom')]
    simp [hmin, hmax]

/-- Two committed ids stay in a row, and `*tmin` stays what it is. -/
theorem Gone.exec {fuel : Nat} {inputs : List (Nat × Command)} {hist : List ((Nat × Command) × Reply)}
    (h : s.Gone cfg i name first) (hready : s.Ready cfg)
    (hexec : Machine.exec (Cluster.step (Db.run cfg fuel)) s inputs = .ok (s', hist))
    (hkept : Machine.AlongAnswers (Cluster.step (Db.run cfg fuel)) (fun _ _ reply => reply.inserted ≠ some name) s
      inputs) (hissued : s'.db.sequence.issued + 1 < 2 ^ 40) :
    s'.Gone cfg i name first := by
  refine Cluster.exec_keeps (I := Cluster.Gone cfg i name first) ?_ hready h hexec hkept hissued
  intro s s' sid cmd session' reply h hname hdoes
  exact h.step hname hdoes

end Cluster

section

open Execute

end

end Scroller
