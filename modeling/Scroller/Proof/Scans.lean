import Scroller.RowCommand

/-!
# Scans of a table

A scan goes over the rows of a table once, and a command that changes rows it has passed does not change the
rest of the scan.
-/

namespace Scroller.Execute

variable {cfg : Config} {fuel fuel' : Nat} {db db₀ : Db} {tran : Option Tran}

/-- A computation that goes on in another way, with the same result where it came to its end. -/
theorem bind_mono {ε α β : Type} {x : Except ε α} {f g : α → Except ε β} {b : β}
    (h : (x >>= f) = .ok b) (hfg : ∀ a, f a = .ok b → g a = .ok b) : (x >>= g) = .ok b := by
  obtain ⟨a, ha, hf⟩ := bind_eq_ok.mp h
  exact bind_eq_ok.mpr ⟨a, ha, hfg a hf⟩

/-! ### Steps of an iterator -/

theorem mitorNext_header (db : Db) (m : Mitor) : (mitorNext db m).gp.header = m.gp.header := by
  unfold mitorNext
  split
  · dsimp only
    split <;> rfl
  · rfl

theorem titorNextLoop_mono {m : Mitor} {t : Titor} (hle : fuel ≤ fuel')
    (h : titorNextLoop cfg db tran fuel m = .ok t) : titorNextLoop cfg db tran fuel' m = .ok t := by
  induction fuel generalizing fuel' m with
  | zero => cases h
  | succ fuel ih =>
      obtain ⟨fuel', rfl⟩ := Nat.exists_eq_succ_of_ne_zero (Nat.ne_zero_of_lt hle)
      rw [titorNextLoop] at h
      rw [Nat.succ_eq_add_one, titorNextLoop]
      split at h
      · rw [if_pos ‹_›]
        exact h
      · rw [if_neg ‹_›]
        obtain ⟨visible, hvisible, h⟩ := bind_eq_ok.mp h
        rw [hvisible]
        dsimp only [bind, Except.bind]
        split at h
        · rw [if_pos ‹_›]
          exact h
        · rw [if_neg ‹_›]
          exact ih (Nat.le_of_succ_le_succ hle) h

theorem titorNext_mono {t t' : Titor} (hle : fuel ≤ fuel')
    (h : titorNext cfg fuel db t = .ok t') : titorNext cfg fuel' db t = .ok t' := by
  unfold titorNext at h ⊢
  split at h
  · exact h
  · exact titorNextLoop_mono hle h

theorem titorNextLoop_spec {m : Mitor} {t : Titor}
    (h : titorNextLoop cfg db tran fuel m = .ok t) :
    t.tran = tran ∧ t.m.gp.header = m.gp.header ∧
      (mitorIsValid db t.m = true → rowIsVisible cfg db tran t.m = .ok true) := by
  induction fuel generalizing m with
  | zero => cases h
  | succ fuel ih =>
      rw [titorNextLoop] at h
      split at h
      next hvalid =>
        cases h
        exact ⟨rfl, mitorNext_header db m, fun h => absurd h hvalid⟩
      next hvalid =>
        obtain ⟨visible, hvisible, h⟩ := bind_eq_ok.mp h
        split at h
        next htrue =>
          cases h
          exact ⟨rfl, mitorNext_header db m, fun _ => by rw [hvisible, htrue]⟩
        next =>
          obtain ⟨htran, hheader, hvis⟩ := ih h
          exact ⟨htran, hheader.trans (mitorNext_header db m), hvis⟩

theorem titorNext_spec {t t' : Titor} (h : titorNext cfg fuel db t = .ok t') :
    t'.tran = t.tran ∧ t'.m.gp.header = t.m.gp.header := by
  unfold titorNext at h
  split at h
  · cases h
    exact ⟨rfl, mitorNext_header db t.m⟩
  · obtain ⟨htran, hheader, -⟩ := titorNextLoop_spec h
    exact ⟨htran, hheader⟩

theorem titorInit_spec {gp : GidPair} {t : Titor} (h : titorInit cfg fuel db tran gp = .ok t) :
    t.m.gp.header = gp.header := by
  unfold titorInit at h
  dsimp only at h
  split at h
  · cases h
    rfl
  · obtain ⟨tmin, -, h⟩ := bind_eq_ok.mp h
    obtain ⟨tmax, -, h⟩ := bind_eq_ok.mp h
    obtain ⟨-, -, h⟩ := bind_eq_ok.mp h
    obtain ⟨-, -, h⟩ := bind_eq_ok.mp h
    obtain ⟨-, -, h⟩ := bind_eq_ok.mp h
    obtain ⟨-, -, h⟩ := bind_eq_ok.mp h
    obtain ⟨-, -, h⟩ := bind_eq_ok.mp h
    split at h
    · cases h
      rfl
    · obtain ⟨visible, -, h⟩ := bind_eq_ok.mp h
      split at h
      · cases h
        rfl
      · exact (titorNext_spec h).2

theorem titorInit_first {gp : GidPair} {t : Titor} (hcontent : (db.pages gp.data).content = .mvcc)
    (h : titorInit cfg fuel db tran gp = .ok t) : 0 < (db.pages gp.data).occupied := by
  unfold titorInit at h
  rw [hcontent] at h
  obtain ⟨tmin, htmin, -⟩ := bind_eq_ok.mp h
  unfold mitorGetDatum gridGetDatum at htmin
  obtain ⟨_, -, htmin⟩ := bind_eq_ok.mp htmin
  obtain ⟨_, hrow, -⟩ := bind_eq_ok.mp htmin
  obtain ⟨_, -, hrow⟩ := bind_eq_ok.mp hrow
  split at hrow
  next hlt => exact hlt
  · cases hrow

theorem titorInit_mono {gp : GidPair} {t : Titor} (hle : fuel ≤ fuel')
    (h : titorInit cfg fuel db tran gp = .ok t) : titorInit cfg fuel' db tran gp = .ok t := by
  unfold titorInit at h ⊢
  dsimp only at h ⊢
  split at h
  · exact h
  · refine bind_mono h fun tmin h => bind_mono h fun tmax h => ?_
    refine bind_mono h fun _ h => bind_mono h fun _ h => bind_mono h fun _ h => ?_
    refine bind_mono h fun _ h => bind_mono h fun _ h => ?_
    split at h
    · rw [if_pos ‹_›]
      exact h
    · rw [if_neg ‹_›]
      refine bind_mono h fun visible h => ?_
      split at h
      · rw [if_pos ‹_›]
        exact h
      · rw [if_neg ‹_›]
        exact titorNext_mono hle h

/-! ### Rows of a scan -/

namespace Scan

theorem mono {row : Option Titor} {rows : List Titor} (hle : fuel ≤ fuel')
    (h : Scan cfg fuel db row rows) : Scan cfg fuel' db row rows := by
  induction h with
  | undef => exact .undef
  | done hvalid => exact .done hvalid
  | row hvalid hcontent hvisible hnext _ ih =>
      exact .row hvalid hcontent hvisible (titorNext_mono hle hnext) ih

theorem unique {row : Option Titor} {rows rows' : List Titor} (h : Scan cfg fuel db row rows)
    (h' : Scan cfg fuel db row rows') : rows = rows' := by
  induction h generalizing rows' with
  | undef => cases h' with | undef => rfl
  | done hvalid =>
      cases h' with
      | done => rfl
      | row hvalid' => rw [hvalid] at hvalid'; cases hvalid'
  | row hvalid hcontent hvisible hnext hrows ih =>
      cases h' with
      | done hvalid' => rw [hvalid] at hvalid'; cases hvalid'
      | row hvalid' hcontent' hvisible' hnext' hrows' =>
          rw [hnext] at hnext'
          cases hnext'
          rw [ih hrows']

theorem of_mem {row : Option Titor} {rows : List Titor} {t : Titor} (h : Scan cfg fuel db row rows)
    (ht : t ∈ rows) : ∃ before after, rows = before ++ after ∧ Scan cfg fuel db (some t) after := by
  induction h with
  | undef => cases ht
  | done => cases ht
  | row hvalid hcontent hvisible hnext hrows ih =>
      cases ht with
      | head => exact ⟨[], _, rfl, .row hvalid hcontent hvisible hnext hrows⟩
      | tail _ ht =>
          obtain ⟨before, after, heq, hafter⟩ := ih ht
          exact ⟨_ :: before, after, by rw [heq, List.cons_append], hafter⟩

theorem nodup {row : Option Titor} {rows : List Titor} (h : Scan cfg fuel db row rows) :
    rows.Nodup := by
  induction h with
  | undef => exact List.nodup_nil
  | done => exact List.nodup_nil
  | row hvalid hcontent hvisible hnext hrows ih =>
      refine List.nodup_cons.mpr ⟨fun hmem => ?_, ih⟩
      obtain ⟨before, after, heq, hafter⟩ := hrows.of_mem hmem
      have hlength := congrArg List.length (hafter.unique (.row hvalid hcontent hvisible hnext hrows))
      rw [heq, List.length_cons, List.length_append] at hlength
      omega

/-- All rows of a scan have the transaction and the header that it started with. -/
theorem same {t : Titor} {rows : List Titor} (h : Scan cfg fuel db (some t) rows) :
    ∀ u ∈ rows, u.tran = t.tran ∧ u.m.gp.header = t.m.gp.header := by
  generalize hrow : some t = row at h
  induction h generalizing t with
  | undef => cases hrow
  | done => exact fun u hu => nomatch hu
  | row hvalid hcontent hvisible hnext hrows ih =>
      cases hrow
      obtain ⟨htran, hheader⟩ := titorNext_spec hnext
      intro u hu
      cases hu with
      | head => exact ⟨rfl, rfl⟩
      | tail _ hu =>
          obtain ⟨htran', hheader'⟩ := ih rfl u hu
          exact ⟨htran'.trans htran, hheader'.trans hheader⟩

end Scan

/-! ### Changing rows that a scan has passed -/

/-- The places of rows that were changed, in a database where nothing else was. -/
structure ChangedAt (db₀ db : Db) (places : List (Gid × Nat)) : Prop where
  trans : db.trans = db₀.trans
  page : ∀ g, { db.pages g with rows := (db₀.pages g).rows } = db₀.pages g
  rows : ∀ g n, (g, n) ∉ places → (db.pages g).rows n = (db₀.pages g).rows n

/-- Where a row is. -/
def place (m : Mitor) : Gid × Nat := (m.gp.data, m.row)

theorem eq_of_place {m m' : Mitor} (hheader : m.gp.header = m'.gp.header) (h : place m = place m') :
    m = m' := by
  obtain ⟨⟨header, data⟩, row⟩ := m
  obtain ⟨⟨header', data'⟩, row'⟩ := m'
  obtain ⟨rfl, rfl⟩ := Prod.mk.inj h
  cases hheader
  rfl

namespace ChangedAt

theorem refl (db : Db) : ChangedAt db db [] := ⟨rfl, fun _ => rfl, fun _ _ _ => rfl⟩

variable {places : List (Gid × Nat)} (h : ChangedAt db₀ db places)
include h

theorem content (g : Gid) : (db.pages g).content = (db₀.pages g).content :=
  (congrArg Grid.content (h.page g) :)

theorem next (g : Gid) : (db.pages g).next = (db₀.pages g).next := (congrArg Grid.next (h.page g) :)

theorem rown (g : Gid) : (db.pages g).rown = (db₀.pages g).rown := (congrArg Grid.rown (h.page g) :)

theorem occupied (g : Gid) : (db.pages g).occupied = (db₀.pages g).occupied :=
  (congrArg Grid.occupied (h.page g) :)

theorem columns (g : Gid) : (db.pages g).columns = (db₀.pages g).columns :=
  (congrArg Grid.columns (h.page g) :)

theorem mitorIsValid (m : Mitor) : mitorIsValid db m = mitorIsValid db₀ m := by
  unfold Scroller.mitorIsValid
  rw [h.occupied]

theorem titorIsValid (t : Titor) : titorIsValid db t = titorIsValid db₀ t := by
  unfold Scroller.titorIsValid
  rw [h.mitorIsValid, h.content]

theorem mitorNext (m : Mitor) : mitorNext db m = mitorNext db₀ m := by
  unfold Scroller.mitorNext
  simp only [h.mitorIsValid, h.next]

theorem gridGetRow (build : Build) (g : Gid) (n : Nat) :
    gridGetRow build (db.pages g) n = gridGetRow build (db₀.pages g) n := by
  unfold Scroller.gridGetRow
  rw [h.rown, h.occupied]

theorem mitorGetDatum {m : Mitor} (hm : place m ∉ places) (column : Nat) :
    mitorGetDatum cfg db m column = mitorGetDatum cfg db₀ m column := by
  unfold Scroller.mitorGetDatum gridGetDatum
  rw [h.gridGetRow, h.gridGetRow, h.occupied, h.columns, h.rows _ _ hm]

theorem rowIsVisible {m : Mitor} (hm : place m ∉ places) :
    rowIsVisible cfg db tran m = rowIsVisible cfg db₀ tran m := by
  unfold Scroller.rowIsVisible
  rw [h.mitorGetDatum hm, h.mitorGetDatum hm, h.trans]

theorem findColumn (build : Build) (g : Gid) (name : List UInt8) (fuel i : Nat) :
    findColumn build (db.pages g) name fuel i = findColumn build (db₀.pages g) name fuel i := by
  induction fuel generalizing i with
  | zero => rfl
  | succ fuel ih =>
      have hcolumn : hgridGetColumn build (db.pages g) i = hgridGetColumn build (db₀.pages g) i := by
        unfold hgridGetColumn
        rw [h.rown, h.occupied, h.columns]
      rw [Execute.findColumn, Execute.findColumn, hcolumn]
      simp only [ih]

theorem titorColumns {t : Titor} (ht : place t.m ∉ places) :
    titorColumns cfg db (some t) = titorColumns cfg db₀ (some t) := by
  funext name
  unfold Execute.titorColumns
  simp only [h.titorIsValid, h.findColumn, h.occupied, h.mitorGetDatum ht]

/-- A step goes over the changed rows where they were visible and it does not end at one of them. -/
theorem titorNextLoop {m : Mitor} {t : Titor}
    (hplaces : ∀ d : Mitor, d.gp.header = m.gp.header → place d ∈ places →
      Scroller.rowIsVisible cfg db₀ tran d = .ok true)
    (ht : Scroller.mitorIsValid db₀ t.m = true → place t.m ∉ places)
    (hnext : titorNextLoop cfg db₀ tran fuel m = .ok t) :
    titorNextLoop cfg db tran fuel m = .ok t := by
  induction fuel generalizing m with
  | zero => cases hnext
  | succ fuel ih =>
      rw [Scroller.titorNextLoop] at hnext ⊢
      rw [h.mitorNext]
      split at hnext
      next hvalid =>
        rw [if_pos (by rwa [h.mitorIsValid])]
        exact hnext
      next hvalid =>
        rw [if_neg (by rwa [h.mitorIsValid])]
        obtain ⟨visible, hvisible, hrest⟩ := bind_eq_ok.mp hnext
        by_cases hm : place (Scroller.mitorNext db₀ m) ∈ places
        · -- the row was visible, so the step has ended at it
          rw [hplaces _ (mitorNext_header db₀ m) hm] at hvisible
          cases hvisible
          cases hrest
          exact absurd hm (ht (not_not.mp hvalid))
        · rw [h.rowIsVisible hm, hvisible]
          dsimp only [bind, Except.bind]
          split at hrest
          · rw [if_pos ‹_›]
            exact hrest
          · rw [if_neg ‹_›]
            refine ih (fun d hd => hplaces d ?_) hrest
            rw [hd, mitorNext_header]

theorem titorNext {t t' : Titor}
    (hcontent : (db₀.pages t.m.gp.data).content = .mvcc)
    (hplaces : ∀ d : Mitor, d.gp.header = t.m.gp.header → place d ∈ places →
      Scroller.rowIsVisible cfg db₀ t.tran d = .ok true)
    (ht : Scroller.mitorIsValid db₀ t'.m = true → place t'.m ∉ places)
    (hnext : titorNext cfg fuel db₀ t = .ok t') :
    titorNext cfg fuel db t = .ok t' := by
  unfold Scroller.titorNext at hnext ⊢
  rw [hcontent] at hnext
  rw [h.content, hcontent]
  exact h.titorNextLoop hplaces ht hnext

theorem mono {places' : List (Gid × Nat)} (hsub : places ⊆ places') : ChangedAt db₀ db places' :=
  ⟨h.trans, h.page, fun g n hn => h.rows g n fun hmem => hn (hsub hmem)⟩

theorem andThen {db' : Db} {places' : List (Gid × Nat)} (h' : ChangedAt db db' places') :
    ChangedAt db₀ db' (places ++ places') := by
  constructor
  · exact h'.trans.trans h.trans
  · intro g
    rw [← h.page g, ← h'.page g]
  · intro g n hn
    rw [h'.rows g n fun hmem => hn (List.mem_append_right _ hmem), h.rows g n fun hmem => hn (List.mem_append_left _ hmem)]

theorem setRow (g : Gid) (n : Nat) (row : Row) :
    ChangedAt db₀
      (db.setPage g { db.pages g with rows := Function.update (db.pages g).rows n row })
      ((g, n) :: places) := by
  constructor
  · exact h.trans
  · intro g'
    by_cases hg : g' = g
    · subst hg
      rw [← h.page g']
      simp [Db.setPage]
    · rw [← h.page g']
      simp [Db.setPage, hg]
  · intro g' n' hn
    obtain ⟨hne, hn⟩ := not_or.mp (mt List.mem_cons.mpr hn)
    rw [← h.rows g' n' hn]
    by_cases hg : g' = g
    · subst hg
      have hn' : n' ≠ n := fun heq => hne (by rw [heq])
      simp [Db.setPage, hn']
    · simp [Db.setPage, hg]

end ChangedAt

theorem mitorPutDatum_changedAt {places : List (Gid × Nat)} {m : Mitor} {column : Nat} {datum : Datum}
    {put : Option Db} (h : ChangedAt db₀ db places)
    (hput : mitorPutDatum cfg db m column datum = .ok put) :
    ChangedAt db₀ (put.getD db) (place m :: places) := by
  obtain ⟨grid, hgrid, hput⟩ := bind_eq_ok.mp hput
  unfold gridPutDatum at hgrid
  obtain ⟨-, -, hgrid⟩ := bind_eq_ok.mp hgrid
  obtain ⟨-, -, hgrid⟩ := bind_eq_ok.mp hgrid
  obtain ⟨-, -, hgrid⟩ := bind_eq_ok.mp hgrid
  obtain ⟨cell, -, hgrid⟩ := bind_eq_ok.mp hgrid
  cases cell with
  | none =>
      cases hgrid
      cases hput
      exact h.mono (List.subset_cons_self _ _)
  | some cell =>
      cases hgrid
      cases hput
      exact h.setRow m.gp.data m.row _

theorem deleteRow_changedAt {places : List (Gid × Nat)} {row : Titor} {w w' : Work}
    (hcontent : (db₀.pages row.m.gp.data).content = .mvcc) (h : ChangedAt db₀ w.db places)
    (hact : Y2.deleteRow cfg row w = .ok w') : ChangedAt db₀ w'.db (place row.m :: places) := by
  obtain ⟨db', hdelete, hact⟩ := bind_eq_ok.mp hact
  cases hact
  unfold dmlDeleteRow at hdelete
  rw [h.content, hcontent] at hdelete
  obtain ⟨-, -, hdelete⟩ := bind_eq_ok.mp hdelete
  split at hdelete
  · cases hdelete
  · obtain ⟨-, -, hdelete⟩ := bind_eq_ok.mp hdelete
    obtain ⟨put, hput, hdelete⟩ := bind_eq_ok.mp hdelete
    obtain ⟨-, -, hdelete⟩ := bind_eq_ok.mp hdelete
    cases hdelete
    exact mitorPutDatum_changedAt h hput

theorem sendRow_changedAt {places : List (Gid × Nat)} {row : Titor} {w w' : Work}
    (h : ChangedAt db₀ w.db places) (hact : Y2.sendRow cfg row w = .ok w') :
    ChangedAt db₀ w'.db (place row.m :: places) := by
  obtain ⟨piece, -, hact⟩ := bind_eq_ok.mp hact
  cases hact
  exact h.mono (List.subset_cons_self _ _)

theorem act_changedAt {cmd : RowCmd} {places : List (Gid × Nat)} {row : Titor} {w w' : Work}
    (hcontent : (db₀.pages row.m.gp.data).content = .mvcc) (h : ChangedAt db₀ w.db places)
    (hact : cmd.act cfg row w = .ok w') : ChangedAt db₀ w'.db (place row.m :: places) := by
  cases cmd with
  | delete schema table => exact deleteRow_changedAt hcontent h hact
  | select schema table name names => exact sendRow_changedAt h hact

end Scroller.Execute
