import Scroller.Proof.MeshChain
import Scroller.Proof.Scans
import Scroller.Proof.VersionRows

/-!
# The loop of a `DELETE`

`mitor_next` leads over the rows of a table up to its first page without rows. In a table with versions the loop of a
`DELETE` without a clause deletes those of them that are visible, and none of them is visible behind it.
-/

namespace Scroller.Db

open Execute

variable {cfg : Config} {fuel : Nat} {db db' : Db} {tran : Tran} {header : Grid}

/-- The rows that `mitor_next` leads an iterator over. -/
inductive Walks (db : Db) : Mitor → List Mitor → Prop
  | nil {m : Mitor} (hinvalid : mitorIsValid db m = false) : Walks db m []
  | cons {m : Mitor} {rows : List Mitor} (hvalid : mitorIsValid db m = true)
      (hrows : Walks db (mitorNext db m) rows) : Walks db m (m :: rows)

/-- An iterator of a transaction at the first of some rows, which is visible, or behind the rows. -/
structure StandsAt (cfg : Config) (tran : Tran) (db : Db) (t : Titor) (rows : List Mitor) : Prop where
  tran_eq : t.tran = some tran
  walks : db.Walks t.m rows
  visible : rows ≠ [] → rowIsVisible cfg db (some tran) t.m = .ok true

/-- The iterator passed rows that are not visible. -/
def Passed (cfg : Config) (tran : Tran) (db : Db) (rows : List Mitor) (t : Titor) : Prop :=
  ∃ passed rest, rows = passed ++ rest ∧ (∀ m ∈ passed, rowIsVisible cfg db (some tran) m = .ok false)
    ∧ db.StandsAt cfg tran t rest

/-- The test of every row comes to an end. -/
def Tested (cfg : Config) (tran : Tran) (db : Db) (rows : List Mitor) : Prop :=
  ∀ m ∈ rows, ∃ visible, rowIsVisible cfg db (some tran) m = .ok visible

/-! ### Over the rows -/

theorem Walks.isValid {m : Mitor} {rows : List Mitor} (h : db.Walks m rows) :
    ∀ x ∈ rows, mitorIsValid db x = true := by
  induction h with
  | nil => exact fun x hx => nomatch hx
  | cons hvalid _ ih =>
      intro x hx
      rcases List.mem_cons.mp hx with rfl | hx
      · exact hvalid
      · exact ih x hx

theorem Walks.changedAt {m : Mitor} {rows : List Mitor} {places : List (Gid × Nat)} (hwalks : db.Walks m rows)
    (h : ChangedAt db db' places) : db'.Walks m rows := by
  induction hwalks with
  | nil hinvalid => exact .nil (h.mitorIsValid _ ▸ hinvalid)
  | cons hvalid _ ih => exact .cons (h.mitorIsValid _ ▸ hvalid) (h.mitorNext _ ▸ ih)

theorem Walks.page {gid g : Gid} (hgid : gid ≠ .undef) (hg : g ≠ .undef) {rows : List Mitor}
    (hrows : db.Walks (db.behind gid g) rows) {n row : Nat} (hrow : row + (n + 1) = (db.pages g).occupied) :
    db.Walks ⟨⟨gid, g⟩, row⟩ (((List.range' row (n + 1)).map fun row => ⟨⟨gid, g⟩, row⟩) ++ rows) := by
  have hvalid : mitorIsValid db ⟨⟨gid, g⟩, row⟩ = true := (isValid_iff hgid hg row).mpr (by omega)
  induction n generalizing row with
  | zero =>
      have hlast : mitorIsValid db ⟨⟨gid, g⟩, row + 1⟩ = false := by
        rw [← Bool.not_eq_true, isValid_iff hgid hg]
        omega
      have hnext : mitorNext db ⟨⟨gid, g⟩, row⟩ = db.behind gid g := by
        rw [mitorNext, if_pos hvalid, behind]
        simp only [hlast, Bool.false_eq_true, not_false_eq_true, true_and]
        rw [← hrow]
      exact .cons hvalid (hnext ▸ hrows)
  | succ n ih =>
      have hvalid' : mitorIsValid db ⟨⟨gid, g⟩, row + 1⟩ = true := (isValid_iff hgid hg (row + 1)).mpr (by omega)
      have hnext : mitorNext db ⟨⟨gid, g⟩, row⟩ = ⟨⟨gid, g⟩, row + 1⟩ := by
        rw [mitorNext, if_pos hvalid]
        simp only [hvalid', not_true_eq_false, false_and, if_false]
      rw [List.range'_succ, List.map_cons, List.cons_append]
      exact .cons hvalid (hnext ▸ ih (by omega) hvalid')

/-- The rows in front of the first page without rows. -/
def scanned (db : Db) (gid : Gid) (chain : List Gid) : List Mitor :=
  db.places gid (chain.takeWhile fun g => (db.pages g).occupied ≠ 0)

theorem walks_scanned {gid : Gid} (hgid : gid ≠ .undef) {front : List Gid} {tail : Gid}
    (hdefined : ∀ g ∈ front ++ [tail], g ≠ .undef) (hlinked : db.Linked front tail) :
    db.Walks ⟨⟨gid, front.headD tail⟩, 0⟩ (db.scanned gid (front ++ [tail])) := by
  unfold scanned
  induction front with
  | nil =>
      have htail : tail ≠ .undef := hdefined tail List.mem_cons_self
      have hbehind : db.Walks (db.behind gid tail) [] := by
        refine .nil ?_
        have hnext : (db.pages tail).next = .undef := hlinked
        rw [behind, if_neg (not_not.mpr hnext), ← Bool.not_eq_true, isValid_iff hgid htail]
        exact Nat.lt_irrefl _
      cases hoccupied : (db.pages tail).occupied with
      | zero =>
          rw [List.nil_append, List.takeWhile_cons_of_neg (by simp [hoccupied])]
          refine .nil ?_
          rw [← Bool.not_eq_true, List.headD_nil, isValid_iff hgid htail, hoccupied]
          exact Nat.lt_irrefl _
      | succ n =>
          have hpage := hbehind.page hgid htail (show 0 + (n + 1) = _ by rw [hoccupied, Nat.zero_add])
          rw [List.nil_append, List.takeWhile_cons_of_pos (by simp [hoccupied]), places_cons, hoccupied,
            List.range_eq_range']
          exact hpage
  | cons g front ih =>
      have hg : g ≠ .undef := hdefined g List.mem_cons_self
      have hnext : (db.pages g).next = front.headD tail := hlinked.1
      have hrest := ih (fun g hg => hdefined g (List.mem_cons_of_mem _ hg)) hlinked.2
      cases hoccupied : (db.pages g).occupied with
      | zero =>
          rw [List.cons_append, List.takeWhile_cons_of_neg (by simp [hoccupied])]
          refine .nil ?_
          rw [← Bool.not_eq_true, List.headD_cons, isValid_iff hgid hg, hoccupied]
          exact Nat.lt_irrefl _
      | succ n =>
          have hundef : (db.pages g).next ≠ .undef := by
            rw [hnext]
            exact hdefined _ (List.mem_cons_of_mem _ (headD_mem front tail))
          have hbehind : db.Walks (db.behind gid g)
              (db.places gid ((front ++ [tail]).takeWhile fun g => (db.pages g).occupied ≠ 0)) := by
            rw [behind, if_pos hundef, hnext]
            exact hrest
          have hpage := hbehind.page hgid hg (show 0 + (n + 1) = _ by rw [hoccupied, Nat.zero_add])
          rw [List.cons_append, List.takeWhile_cons_of_pos (by simp [hoccupied]), places_cons, hoccupied,
            List.range_eq_range']
          exact hpage

/-! ### To the next visible row -/

theorem titorNextLoop_passed {m : Mitor} {rows : List Mitor} {t : Titor} (hwalks : db.Walks (mitorNext db m) rows)
    (hnext : titorNextLoop cfg db (some tran) fuel m = .ok t) : db.Passed cfg tran rows t := by
  induction fuel generalizing m rows with
  | zero => cases hnext
  | succ fuel ih =>
      rw [titorNextLoop] at hnext
      generalize hm : mitorNext db m = m' at hwalks hnext
      cases hwalks with
      | nil hinvalid =>
          rw [if_pos (Bool.not_eq_true _ ▸ hinvalid)] at hnext
          cases hnext
          exact ⟨[], [], rfl, List.forall_mem_nil _, rfl, .nil hinvalid, fun h => absurd rfl h⟩
      | @cons _ rows hvalid hrows =>
          rw [if_neg (not_not.mpr hvalid)] at hnext
          obtain ⟨visible, hvisible, hnext⟩ := bind_eq_ok.mp hnext
          cases visible with
          | true =>
              cases hnext
              exact ⟨[], m' :: rows, rfl, List.forall_mem_nil _, rfl, .cons hvalid hrows, fun _ => hvisible⟩
          | false =>
              obtain ⟨passed, rest, rfl, hpassed, hstands⟩ := ih hrows hnext
              exact ⟨m' :: passed, rest, rfl, List.forall_mem_cons.mpr ⟨hvisible, hpassed⟩, hstands⟩

theorem titorNextLoop_ok {m : Mitor} {rows : List Mitor} (hwalks : db.Walks (mitorNext db m) rows)
    (htested : db.Tested cfg tran rows) (hfuel : rows.length < fuel) :
    ∃ t, titorNextLoop cfg db (some tran) fuel m = .ok t := by
  induction fuel generalizing m rows with
  | zero => cases hfuel
  | succ fuel ih =>
      rw [titorNextLoop]
      generalize hm : mitorNext db m = m' at hwalks
      cases hwalks with
      | nil hinvalid =>
          rw [if_pos (Bool.not_eq_true _ ▸ hinvalid)]
          exact ⟨_, rfl⟩
      | @cons _ rows hvalid hrows =>
          obtain ⟨visible, hvisible⟩ := htested m' List.mem_cons_self
          rw [if_neg (not_not.mpr hvalid), hvisible]
          cases visible with
          | true => exact ⟨_, rfl⟩
          | false =>
              exact ih hrows (fun x hx => htested x (List.mem_cons_of_mem _ hx)) (Nat.lt_of_succ_lt_succ hfuel)

/-! ### One row -/

theorem tranRowIsVisible_deleted {flags : Int64 → TranFlag} {tmin tmax : Int64} {visible : Bool}
    (h : tranRowIsVisible cfg flags tran tmin tmax = .ok visible) :
    tranRowIsVisible cfg flags tran tmin tran.key = .ok false := by
  unfold tranRowIsVisible at h ⊢
  obtain ⟨⟨⟩, hkey, h⟩ := bind_eq_ok.mp h
  obtain ⟨⟨⟩, htmin, -⟩ := bind_eq_ok.mp h
  dsimp only
  rw [hkey, htmin, Build.assert_of _ (Or.inl rfl), if_pos rfl, decide_eq_false (not_not.mpr rfl)]
  dsimp only [bind, Except.bind]
  split <;> rfl

theorem VersionRow.changedAt {m : Mitor} {places : List (Gid × Nat)} (h : db.VersionRow (db.pages m.gp.header) m)
    (hchanged : ChangedAt db db' places) : db'.VersionRow (db'.pages m.gp.header) m := by
  have hpage := h.page
  rw [← hchanged.page m.gp.header] at hpage
  refine ⟨⟨hpage.occupied, hpage.versions, hpage.tminName, hpage.tminType, hpage.tmaxName, hpage.tmaxType,
    hpage.types⟩, rfl, ?_, ?_, ?_⟩
  · rw [hchanged.content]
    exact h.content
  · rw [hchanged.occupied]
    exact h.row
  · rw [hchanged.occupied, hchanged.rown]
    exact h.room

/-- What is left to do behind the deletion of a row. -/
structure DeletedOne (cfg : Config) (session : Session) (tran : Tran) (fuel : Nat) (db : Db) (t : Titor) (m : Mitor)
    (rows : List Mitor) (db' : Db) : Prop where
  at_row : t.m = m
  valid : titorIsValid db t = true
  delete : dmlDeleteRow cfg session db t.m = .ok db'
  changed : ChangedAt db db' [Execute.place m]
  hidden : rowIsVisible cfg db' (some tran) m = .ok false
  walks : db'.Walks (mitorNext db' t.m) rows
  next : titorNext cfg fuel db' t = titorNextLoop cfg db' (some tran) fuel t.m

theorem StandsAt.delete {session : Session} {t : Titor} {m : Mitor} {rows : List Mitor} (fuel : Nat)
    (hkey : tran.key ≠ 0) (hsession : session.tran = some tran) (h : db.StandsAt cfg tran t (m :: rows))
    (hrow : db.VersionRow (db.pages m.gp.header) m) :
    ∃ db', DeletedOne cfg session tran fuel db t m rows db' := by
  obtain ⟨m', tran'⟩ := t
  obtain ⟨htran, hwalks, hvisible⟩ := h
  obtain rfl : tran' = some tran := htran
  have hvisible := hvisible (List.cons_ne_nil _ _)
  dsimp only at hwalks hvisible
  cases hwalks with
  | cons hvalid hrows =>
      have hchanged : ChangedAt db (db.putRow m (((db.pages m.gp.data).rows m.row).setTmax tran.key)) [Execute.place m] :=
        (ChangedAt.refl db).setRow _ _ _
      have htmax : (((db.pages m.gp.data).rows m.row).setTmax tran.key).tmax = tran.key := by
        unfold Row.tmax Row.setTmax
        rw [Function.update_self]
      refine ⟨_, rfl, ?_, hrow.deleteRow cfg hkey hsession, hchanged, ?_, ?_, ?_⟩
      · simp [titorIsValid, hvalid]
      · rw [hrow.rowIsVisible_eq] at hvisible
        rw [(hrow.changedAt hchanged).rowIsVisible_eq, row_putRow, htmax]
        exact tranRowIsVisible_deleted hvisible
      · rw [hchanged.mitorNext]
        exact hrows.changedAt hchanged
      · have hcontent := hchanged.content m.gp.data
        rw [hrow.content] at hcontent
        unfold titorNext
        dsimp only
        rw [hcontent]

/-! ### The loop -/

/-- A row that the transaction sees; in a table without versions it sees all of them. -/
def isVisible (cfg : Config) (tran : Option Tran) (db : Db) (m : Mitor) : Bool :=
  match (db.pages m.gp.data).content with
  | .pure => true
  | .mvcc =>
      match rowIsVisible cfg db tran m with
      | .ok visible => visible
      | .error _ => false

theorem isVisible_eq {m : Mitor} {visible : Bool} (hcontent : (db.pages m.gp.data).content = .mvcc)
    (h : rowIsVisible cfg db (some tran) m = .ok visible) : db.isVisible cfg (some tran) m = visible := by
  unfold isVisible
  rw [hcontent, h]

/-- What the loop over some rows of a table with versions has done: the visible ones are deleted. -/
structure DeletedAll (cfg : Config) (tran : Tran) (db : Db) (rows ms : List Mitor) (db' : Db) : Prop where
  tested : db.Tested cfg tran rows
  hits : ms = rows.filter (db.isVisible cfg (some tran))
  changed : ChangedAt db db' (ms.map Execute.place)
  hidden : ∀ m ∈ rows, rowIsVisible cfg db' (some tran) m = .ok false

section Loop

variable {session : Session} {t : Titor} {rows : List Mitor}

/-- The iterator is behind the rows exactly if there are none. -/
theorem StandsAt.titorIsValid_nil (h : db.StandsAt cfg tran t []) : titorIsValid db t = false := by
  have hwalks := h.walks
  cases hwalks with
  | nil hinvalid => simp [titorIsValid, hinvalid]

theorem DeletedOne.cons {m : Mitor} {passed rest ms : List Mitor} {db₁ : Db}
    (h : DeletedOne cfg session tran fuel db t m (passed ++ rest) db₁)
    (hvisible : rowIsVisible cfg db (some tran) m = .ok true)
    (hrows : ∀ x ∈ m :: (passed ++ rest), (db.pages x.gp.data).content = .mvcc)
    (hnodup : ((m :: (passed ++ rest)).map Execute.place).Nodup)
    (hpassed : ∀ x ∈ passed, rowIsVisible cfg db₁ (some tran) x = .ok false)
    (hrest : DeletedAll cfg tran db₁ rest ms db') : DeletedAll cfg tran db (m :: (passed ++ rest)) (m :: ms) db' := by
  rw [List.map_cons, List.nodup_cons, List.map_append] at hnodup
  have hplace : ∀ x ∈ passed ++ rest, Execute.place x ∉ [Execute.place m] := by
    intro x hx hmem
    rw [← List.mem_singleton.mp hmem, ← List.map_append] at hnodup
    exact hnodup.1 (List.mem_map_of_mem hx)
  have hsame : ∀ x ∈ passed ++ rest, rowIsVisible cfg db₁ (some tran) x = rowIsVisible cfg db (some tran) x :=
    fun x hx => h.changed.rowIsVisible (hplace x hx)
  have hms : ∀ x ∈ ms, x ∈ rest := by
    rw [hrest.hits]
    exact fun x hx => (List.mem_filter.mp hx).1
  have hlater : ∀ x ∈ m :: passed, Execute.place x ∉ ms.map Execute.place := by
    intro x hx hmem
    obtain ⟨y, hy, heq⟩ := List.mem_map.mp hmem
    rcases List.mem_cons.mp hx with rfl | hx
    · exact hnodup.1 (heq ▸ List.mem_append_right _ (List.mem_map_of_mem (hms y hy)))
    · exact (List.nodup_append.mp hnodup.2).2.2 _ (List.mem_map_of_mem hx) _ (List.mem_map_of_mem (hms y hy)) heq.symm
  have hfilter : (passed ++ rest).filter (db.isVisible cfg (some tran)) = ms := by
    have hnone : passed.filter (db.isVisible cfg (some tran)) = [] := by
      refine List.filter_eq_nil_iff.mpr fun x hx => ?_
      have hx' := List.mem_append_left rest hx
      rw [isVisible_eq (hrows x (List.mem_cons_of_mem _ hx')) ((hsame x hx').symm.trans (hpassed x hx))]
      exact Bool.false_ne_true
    have hsome : rest.filter (db.isVisible cfg (some tran)) = rest.filter (db₁.isVisible cfg (some tran)) := by
      refine List.filter_congr fun x hx => ?_
      have hx' := List.mem_append_right passed hx
      unfold isVisible
      rw [h.changed.content, hsame x hx']
    rw [List.filter_append, hnone, List.nil_append, hsome, ← hrest.hits]
  refine ⟨?_, ?_, ?_, ?_⟩
  · refine List.forall_mem_cons.mpr ⟨⟨true, hvisible⟩, fun x hx => ?_⟩
    rw [← hsame x hx]
    rcases List.mem_append.mp hx with hx | hx
    · exact ⟨false, hpassed x hx⟩
    · exact hrest.tested x hx
  · rw [List.filter_cons_of_pos (isVisible_eq (hrows m List.mem_cons_self) hvisible), hfilter]
  · exact h.changed.andThen hrest.changed
  · refine List.forall_mem_cons.mpr ⟨?_, fun x hx => ?_⟩
    · rw [hrest.changed.rowIsVisible (hlater m List.mem_cons_self)]
      exact h.hidden
    · rcases List.mem_append.mp hx with hx | hx
      · rw [hrest.changed.rowIsVisible (hlater x (List.mem_cons_of_mem _ hx))]
        exact hpassed x hx
      · exact hrest.hidden x hx

variable (hkey : tran.key ≠ 0) (hsession : session.tran = some tran)
include hkey hsession

theorem deleteLoop_spec {ms : List Mitor} {finished : Bool} (hstands : db.StandsAt cfg tran t rows)
    (hrows : ∀ m ∈ rows, db.VersionRow (db.pages m.gp.header) m) (hnodup : (rows.map Execute.place).Nodup)
    (hloop : rowLoop cfg (dmlDeleteRow cfg session) (fun _ => some true) fuel db t = .ok (db', ms, finished)) :
    DeletedAll cfg tran db rows ms db' := by
  induction fuel generalizing db t rows ms with
  | zero => cases hloop
  | succ fuel ih =>
      rw [rowLoop] at hloop
      cases rows with
      | nil =>
          rw [if_pos (by rw [hstands.titorIsValid_nil]; exact Bool.false_ne_true)] at hloop
          cases hloop
          exact ⟨List.forall_mem_nil _, rfl, ChangedAt.refl _, List.forall_mem_nil _⟩
      | cons m rows =>
          obtain ⟨db₁, hone⟩ := hstands.delete fuel hkey hsession (hrows m List.mem_cons_self)
          rw [if_neg (not_not.mpr hone.valid)] at hloop
          obtain ⟨db₁', hdelete, hloop⟩ := bind_eq_ok.mp hloop
          rw [hone.delete] at hdelete
          cases hdelete
          obtain ⟨next, hnext, hloop⟩ := bind_eq_ok.mp hloop
          obtain ⟨⟨db₂, ms', finished'⟩, hloop, hresult⟩ := bind_eq_ok.mp hloop
          cases hresult
          rw [hone.next] at hnext
          obtain ⟨passed, rest, rfl, hpassed, hrest⟩ := titorNextLoop_passed hone.walks hnext
          have hvisible := hstands.visible (List.cons_ne_nil _ _)
          rw [hone.at_row] at hvisible ⊢
          refine hone.cons hvisible (fun x hx => (hrows x hx).content) hnodup hpassed
            (ih hrest (fun x hx => ?_) ?_ hloop)
          · exact (hrows x (List.mem_cons_of_mem _ (List.mem_append_right _ hx))).changedAt hone.changed
          · rw [List.map_cons, List.map_append] at hnodup
            exact (List.nodup_append.mp (List.nodup_cons.mp hnodup).2).2.1

theorem deleteLoop_ok (hstands : db.StandsAt cfg tran t rows)
    (hrows : ∀ m ∈ rows, db.VersionRow (db.pages m.gp.header) m) (hnodup : (rows.map Execute.place).Nodup)
    (htested : db.Tested cfg tran rows) (hfuel : rows.length < fuel) :
    ∃ db' ms, rowLoop cfg (dmlDeleteRow cfg session) (fun _ => some true) fuel db t = .ok (db', ms, true) := by
  induction fuel generalizing db t rows with
  | zero => cases hfuel
  | succ fuel ih =>
      rw [rowLoop]
      cases rows with
      | nil =>
          rw [if_pos (by rw [hstands.titorIsValid_nil]; exact Bool.false_ne_true)]
          exact ⟨db, [], rfl⟩
      | cons m rows =>
          obtain ⟨db₁, hone⟩ := hstands.delete fuel hkey hsession (hrows m List.mem_cons_self)
          rw [List.map_cons, List.nodup_cons] at hnodup
          have hplace : ∀ x ∈ rows, Execute.place x ∉ [Execute.place m] := by
            intro x hx hmem
            rw [← List.mem_singleton.mp hmem] at hnodup
            exact hnodup.1 (List.mem_map_of_mem hx)
          have htested' : db₁.Tested cfg tran rows := by
            intro x hx
            rw [hone.changed.rowIsVisible (hplace x hx)]
            exact htested x (List.mem_cons_of_mem _ hx)
          rw [List.length_cons] at hfuel
          obtain ⟨next, hnext⟩ := titorNextLoop_ok hone.walks htested' (Nat.lt_of_succ_lt_succ hfuel)
          obtain ⟨passed, rest, rfl, hpassed, hrest⟩ := titorNextLoop_passed hone.walks hnext
          rw [List.length_append] at hfuel
          rw [List.map_append] at hnodup
          obtain ⟨db', ms, hloop⟩ := ih hrest
            (fun x hx => (hrows x (List.mem_cons_of_mem _ (List.mem_append_right _ hx))).changedAt hone.changed)
            (List.nodup_append.mp hnodup.2).2.1 (fun x hx => htested' x (List.mem_append_right _ hx)) (by omega)
          refine ⟨db', t.m :: ms, ?_⟩
          rw [if_neg (not_not.mpr hone.valid)]
          simp only [hone.delete, hone.next, hnext, hloop, bind, Except.bind]
          rfl

end Loop

end Scroller.Db
