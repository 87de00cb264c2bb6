import Scroller.Proof.RowVisibility

/-!
# The rule of `tran_row_is_visible`

A transaction is meant to see a row if it has inserted it or who did is committed, and neither it nor a committed
transaction has deleted it. The function follows the rule in every run where no session deletes a row of the
transaction that another one still has, and where no row is put without ids of its own.
-/

namespace Scroller

open Outcome

/-- The rule: what a transaction is meant to see. -/
def Tran.shows (tran : Tran) (flags : Int64 → TranFlag) (tmin tmax : Int64) : Bool :=
  (tmin = tran.key ∨ flags tmin = .commited)
    ∧ ¬ (tmax ≠ tranInvalidId ∧ (tmax = tran.key ∨ flags tmax = .commited))

/-- A row is put with as many values as names. In a debug build there is a transaction on the stack, and in a release
build a failed `INSERT` names no version column. Nobody deletes a row of a transaction that another session still
has. -/
def Cluster.Harmless (cfg : Config) (s : Cluster Db) (input : Nat × Command) (reply : Reply) : Prop :=
  match input.2 with
  | .insert _ _ names values leftover => reply.inserted ≠ none → names.length = values.length
      ∧ (cfg.build = .debug → leftover ≠ none)
      ∧ (cfg.build = .release → reply.status ≠ .ok → tminName ∉ names ∧ tmaxName ∉ names)
  | .delete _ _ _ => ∀ name ∈ reply.rows, ∀ row, s.db.store.row? name = some row →
      ∀ sid tran, sid ≠ input.1 → (s.sessions sid).tran = some tran → row.tmin ≠ tran.key
  | _ => True

/-- The ids of a row: none in what a failed `INSERT` left of a release build; otherwise ids that were given out,
and a transaction that a session still has was deleted by none but itself. -/
def Cluster.HasIds (cfg : Config) (i : Nat) (s : Cluster Db) (row : Row) : Prop :=
  (cfg.build = .release ∧ row.tmin = tranInvalidId ∧ row.tmax = tranInvalidId)
    ∨ (0 < row.tmin ∧ row.tmin.toInt ≤ s.db.trans.issued i ∧ 0 ≤ row.tmax ∧ row.tmax.toInt ≤ s.db.trans.issued i
      ∧ ∀ sid tran, (s.sessions sid).tran = some tran → row.tmin = tran.key →
        row.tmax = tranInvalidId ∨ row.tmax = tran.key)

/-- The rows of a state that harmless commands have led to. -/
structure Cluster.Stamped (cfg : Config) (i : Nat) (s : Cluster Db) : Prop where
  tracked : Tracked cfg i s.db.trans s.sessions
  row : ∀ name row, s.db.store.row? name = some row → s.HasIds cfg i row

namespace Cluster

variable {cfg : Config} {i sid : Nat} {s s' : Cluster Db} {cmd : Command} {session' : Session} {reply : Reply}

theorem HasIds.step {row : Row} (h : s.HasIds cfg i row) (htracked : Tracked cfg i s.db.trans s.sessions)
    (hdoes : s.Does cfg s' sid cmd session' reply) : s'.HasIds cfg i row := by
  obtain ⟨-, hle⟩ := hdoes.tracked htracked
  refine h.imp_right ?_
  rintro ⟨hmin, hminIssued, hmax, hmaxIssued, hown⟩
  refine ⟨hmin, by omega, hmax, by omega, fun sid' tran htran htmin => ?_⟩
  rw [hdoes.sessions] at htran
  rcases htracked.current_or_new hdoes.tran htran with hold | hnew
  · exact hown sid' tran hold htmin
  · rw [← htmin] at hnew
    omega

theorem Stamped.step (h : s.Stamped cfg i) (hharmless : s.Harmless cfg (sid, cmd) reply)
    (hdoes : s.Does cfg s' sid cmd session' reply) : s'.Stamped cfg i := by
  obtain ⟨htracked, -⟩ := hdoes.tracked h.tracked
  have hcurrent {tran : Tran} (htran : session'.tran = some tran) : (s'.sessions sid).tran = some tran := by
    rw [hdoes.sessions, Function.update_self]
    exact htran
  refine ⟨htracked, fun name row' hrow' => ?_⟩
  cases hdoes.row name with
  | kept _ _ hkept => exact (h.row name row' (hkept.symm.trans hrow')).step h.tracked hdoes
  | @inserted _ _ names values leftover row tran hcmd hinserted htran hrow hstamped hblank hdebug =>
      subst hcmd
      obtain rfl : row = row' := Option.some.inj (hrow.symm.trans hrow')
      obtain ⟨hlength, hleftover, hnames⟩ := hharmless (hinserted ▸ Option.some_ne_none name)
      by_cases hok : reply.status = .ok
      · obtain ⟨htmin, htmax⟩ := hstamped hlength hok
        obtain ⟨hkey, hissued⟩ := htracked.keys sid tran (hcurrent htran)
        right
        rw [htmin, htmax]
        exact ⟨hkey, hissued, by decide, Int.natCast_nonneg _, fun _ _ _ _ => Or.inl rfl⟩
      · have hrelease : cfg.build = .release := by
          cases hbuild : cfg.build with
          | debug => exact absurd (hdebug hbuild hok) (hleftover hbuild)
          | release => rfl
        obtain ⟨hmin, hmax⟩ := hnames hrelease hok
        exact Or.inl ⟨hrelease, hblank hlength hok hmin hmax⟩
  | @deleted _ _ _ row tran hcmd hhit htran hrow hvisible hdeleted =>
      subst hcmd
      obtain rfl : row.setTmax tran.key = row' := Option.some.inj (hdeleted.symm.trans hrow')
      obtain ⟨hkey, hissued⟩ := htracked.keys sid tran (hcurrent htran)
      rcases (h.row name row hrow).step h.tracked hdoes with ⟨-, hzero, -⟩ | ⟨hmin, hminIssued, -, -, -⟩
      · -- nobody sees a row without ids
        exfalso
        rcases seen_cases hvisible with ⟨hown, -⟩ | ⟨-, -, hcommitted, -⟩
        · exact ne_invalid hkey (hown.trans hzero)
        · exact ne_invalid (htracked.committed _ hcommitted).1 hzero
      · right
        rw [Row.tmin_setTmax, Row.tmax_setTmax]
        refine ⟨hmin, hminIssued, Int64.le_of_lt hkey, hissued, fun sid' tran' htran' htmin => Or.inr ?_⟩
        rw [hdoes.sessions] at htran'
        by_cases hsid : sid' = sid
        · subst hsid
          rw [Function.update_self, htran] at htran'
          exact congrArg Tran.key (Option.some.inj htran')
        · rw [Function.update_of_ne hsid] at htran'
          exact absurd htmin (hharmless name hhit row hrow sid' tran' hsid htran')

/-- The function follows the rule for the ids of a row. -/
theorem HasIds.visible_eq {row : Row} (h : s.HasIds cfg i row) (htracked : Tracked cfg i s.db.trans s.sessions)
    (hcapacity : s.db.trans.issued i < cfg.tranCapacity) {tran : Tran} (htran : (s.sessions sid).tran = some tran) :
    tranRowIsVisible cfg s.db.trans.flags tran row.tmin row.tmax
      = .ok (tran.shows s.db.trans.flags row.tmin row.tmax) := by
  have hkey := ne_invalid (htracked.keys sid tran htran).1
  have hnone : s.db.trans.flags tranInvalidId ≠ .commited := by
    intro hflag
    exact ne_invalid (htracked.committed _ hflag).1 rfl
  have hinvalid : cfg.HasFlag tranInvalidId := ⟨by decide, by show (0 : Int) < _; omega⟩
  rcases h with ⟨hrelease, hmin, hmax⟩ | ⟨hmin, hminIssued, hmax, hmaxIssued, hown⟩
  · have hdebug : cfg.build = .debug → tranInvalidId ≠ tranInvalidId := by
      rw [hrelease]
      intro hdebug
      cases hdebug
    rw [hmin, hmax, tranRowIsVisible_other hkey hdebug hkey hkey hinvalid hinvalid]
    simp [Tran.shows, hnone, hkey.symm]
  · by_cases hinserted : tran.key = row.tmin
    · have htmax := hown sid tran htran hinserted.symm
      rw [← hinserted, tranRowIsVisible_own hkey htmax]
      rcases htmax with hzero | hdeleted
      · simp [Tran.shows, hzero, hkey]
      · simp [Tran.shows, hdeleted, hkey]
    · by_cases hdeleted : tran.key = row.tmax
      · rw [← hdeleted, tranRowIsVisible_deleter hkey (fun _ => ne_invalid hmin) hinserted]
        simp [Tran.shows, hkey]
      · rw [tranRowIsVisible_other hkey (fun _ => ne_invalid hmin) hinserted hdeleted
          (.of_pos hmin (by omega)) ⟨hmax, by omega⟩]
        have hdeleter : s.db.trans.flags row.tmax = .commited → row.tmax ≠ tranInvalidId := by
          intro hflag
          exact ne_invalid (htracked.committed _ hflag).1
        have hother : row.tmin ≠ tran.key := fun heq => hinserted heq.symm
        have hother' : row.tmax ≠ tran.key := fun heq => hdeleted heq.symm
        simp only [Tran.shows, hother, hother', false_or]
        congr 1
        rw [decide_eq_decide]
        exact and_congr_right' (not_congr ⟨fun hflag => ⟨hdeleter hflag, hflag⟩, And.right⟩)

end Cluster

/-- A table without data has no row. -/
theorem Db.row?_of_empty {db : Db} (h : ∀ row ∈ db.relation.rows, row.dataGid = 0) (name : Nat × Nat) :
    db.store.row? name = none := by
  unfold Store.row? Db.store
  dsimp only
  rw [List.getElem?_map]
  cases hrow : db.relation.rows[name.1]? with
  | none => rfl
  | some row =>
      have hdata : (db.relationOf row).data = none := if_pos (h row (List.mem_of_getElem? hrow))
      rw [Option.map_some, Option.bind_eq_bind, Option.bind_some, hdata]
      rfl

section

open Execute

end

end Scroller
