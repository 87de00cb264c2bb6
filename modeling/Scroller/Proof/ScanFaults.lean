import Scroller.Proof.SessionRuns
import Scroller.Proof.VersionRows

/-!
# Faults of a scan

A scan of a mesh whose first page has a row dereferences no `NULL`: after the first row it looks at valid rows
only. Its assertions hold where the versions of the rows are in order.
-/

namespace Scroller

open Outcome

/-- The versions of a row are in order for the transaction with an id: the row was put by some transaction, and
where that was this transaction no other one has deleted it. -/
def Row.Judged (row : Row) (key : Int64) : Prop :=
  0 < row.tmin ∧ 0 ≤ row.tmax ∧ (row.tmin = key → row.tmax = key ∨ row.tmax = 0)

theorem Row.Judged.setTmax {row : Row} {key : Int64} (h : row.Judged key) (hkey : 0 < key) :
    (row.setTmax key).Judged key := by
  have htmin : (row.setTmax key).tmin = row.tmin := rfl
  have htmax : (row.setTmax key).tmax = key := by
    unfold Row.tmax Row.setTmax
    rw [Function.update_self]
  refine ⟨htmin ▸ h.1, ?_, fun _ => Or.inl htmax⟩
  rw [htmax]
  exact Int64.le_of_lt hkey

variable {cfg : Config} {F : Fault → Prop} (hF : ∀ f, f.Tolerated → F f)

section

include hF

theorem tranFlagGet_ensures {flags : Int64 → TranFlag} {tid : Int64}
    (htid : cfg.build = .debug → 0 ≤ tid) : Ensures (fun _ => True) F (tranFlagGet cfg flags tid) := by
  unfold tranFlagGet
  rw [Build.assert_eq_ok.mpr htid]
  apply Ensures.ite
  · exact fun _ => True.intro
  · exact fun _ => hF _ ⟨nofun, nofun⟩

theorem tranRowIsVisible_ensures {flags : Int64 → TranFlag} {tran : Tran} {row : Row}
    (hkey : 0 < tran.key) (hrow : cfg.build = .debug → row.Judged tran.key) :
    Ensures (fun _ => True) F (tranRowIsVisible cfg flags tran row.tmin row.tmax) := by
  have hne : tran.key ≠ tranInvalidId := (Int64.ne_of_lt hkey).symm
  have htmin : cfg.build = .debug → row.tmin ≠ tranInvalidId :=
    fun hdebug => (Int64.ne_of_lt (hrow hdebug).1).symm
  unfold tranRowIsVisible
  dsimp only
  rw [Build.assert_of _ hne, Build.assert_eq_ok.mpr htmin]
  apply Ensures.ite
  · intro hown
    have hassert : cfg.build = .debug → tran.key = row.tmax ∨ row.tmax = tranInvalidId := by
      intro hdebug
      rcases (hrow hdebug).2.2 hown.symm with htmax | htmax
      · exact Or.inl htmax.symm
      · exact Or.inr htmax
    rw [Build.assert_eq_ok.mpr hassert]
    exact True.intro
  · intro _
    apply Ensures.ite
    · exact fun _ => True.intro
    · intro _
      apply (tranFlagGet_ensures hF fun hdebug => Int64.le_of_lt (hrow hdebug).1).bind
      intro tminFlag _
      apply (tranFlagGet_ensures hF fun hdebug => (hrow hdebug).2.1).bind
      intro tmaxFlag _
      apply Ensures.ite
      · exact fun _ => True.intro
      · exact fun _ => True.intro

end

namespace Db

/-- The mesh of a table that an iterator goes over, with its header page. -/
structure Walked (cfg : Config) (gp : GidPair) (header : Grid) (db : Db) : Prop where
  apart : gp.Apart
  page : header.HeaderPage
  found : db.pages gp.header = header
  isMesh : db.IsMesh cfg header gp.data

namespace Walked

variable {db : Db} {gp : GidPair} {header : Grid} (h : db.Walked cfg gp header)
include h

omit h in
theorem row_lt {m : Mitor} (hvalid : mitorIsValid db m = true) : m.row < (db.pages m.gp.data).occupied := by
  unfold mitorIsValid at hvalid
  exact (of_decide_eq_true hvalid).2.2

theorem versionRow {m : Mitor} (hm : db.OnMesh gp m) (hrow : m.row < (db.pages m.gp.data).occupied) :
    db.VersionRow header m where
  page := h.page
  found := hm.header ▸ h.found
  content := (hm.dataPage h.isMesh).content
  row := hrow
  room := (hm.dataPage h.isMesh).occupied

theorem getRow {m : Mitor} (hm : db.OnMesh gp m) (hrow : m.row < (db.pages m.gp.data).occupied) :
    gridGetRow cfg.build (db.pages m.gp.data) m.row = .ok () := (h.versionRow hm hrow).getRow _

theorem getDatum {m : Mitor} (hm : db.OnMesh gp m) (hrow : m.row < (db.pages m.gp.data).occupied)
    {column : Nat} (hcolumn : column < header.occupied) :
    mitorGetDatum cfg db m column
      = getCell cfg.build (header.columns column) ((db.pages m.gp.data).rows m.row column) :=
  (h.versionRow hm hrow).getDatum cfg hcolumn

theorem getTmin {m : Mitor} (hm : db.OnMesh gp m) (hrow : m.row < (db.pages m.gp.data).occupied) :
    mitorGetDatum cfg db m tminIdx
      = .ok ⟨tTranid, ((db.pages m.gp.data).rows m.row).tmin, []⟩ := (h.versionRow hm hrow).getTmin cfg

theorem getTmax {m : Mitor} (hm : db.OnMesh gp m) (hrow : m.row < (db.pages m.gp.data).occupied) :
    mitorGetDatum cfg db m tmaxIdx
      = .ok ⟨tTranid, ((db.pages m.gp.data).rows m.row).tmax, []⟩ := (h.versionRow hm hrow).getTmax cfg

theorem deleteRow {session : Session} {tran : Tran} {m : Mitor} (hkey : tran.key ≠ 0) (hsession : session.tran = some tran)
    (hm : db.OnMesh gp m) (hvalid : mitorIsValid db m = true) :
    dmlDeleteRow cfg session db m
      = .ok (db.putRow m (((db.pages m.gp.data).rows m.row).setTmax tran.key)) :=
  (h.versionRow hm (row_lt hvalid)).deleteRow cfg hkey hsession

end Walked

/-- The mesh of a table that a scan goes over: its header page and, in a debug build, versions in order. -/
structure Scanned (cfg : Config) (gp : GidPair) (header : Grid) (tran : Tran) (db : Db) : Prop where
  apart : gp.Apart
  page : header.HeaderPage
  found : db.pages gp.header = header
  isMesh : db.IsMesh cfg header gp.data
  key : 0 < tran.key
  rows : cfg.build = .debug → ∀ row ∈ (db.mesh gp.data).rows, row.Judged tran.key

variable {fuel : Nat} {db : Db} {gp : GidPair} {header : Grid} {tran : Tran}

namespace Scanned

variable (h : db.Scanned cfg gp header tran)
include h

theorem walked : db.Walked cfg gp header := ⟨h.apart, h.page, h.found, h.isMesh⟩

theorem judged {m : Mitor} (hm : db.OnMesh gp m) (hrow : m.row < (db.pages m.gp.data).occupied)
    (hdebug : cfg.build = .debug) : ((db.pages m.gp.data).rows m.row).Judged tran.key := by
  have hvalid : mitorIsValid db m = true := by
    unfold mitorIsValid
    apply decide_eq_true
    refine ⟨hm.header ▸ h.apart.header, ?_, hrow⟩
    rcases hm.page h.isMesh with hdata | hdata
    · exact hdata ▸ h.apart.data
    · exact hdata ▸ h.apart.successor_ne_undef
  have hget := hm.getElem? h.isMesh h.apart
  rw [if_pos hvalid] at hget
  exact h.rows hdebug _ (List.mem_of_getElem? hget)

section

include hF

theorem visible {m : Mitor} (hm : db.OnMesh gp m) (hrow : m.row < (db.pages m.gp.data).occupied) :
    Ensures (fun _ => True) F (rowIsVisible cfg db (some tran) m) := by
  unfold rowIsVisible
  rw [h.walked.getTmin hm hrow, h.walked.getTmax hm hrow]
  exact tranRowIsVisible_ensures hF h.key (h.judged hm hrow)

theorem next {t : Titor} (ht : t.tran = some tran) (hm : db.OnMesh gp t.m) (hdiverges : F .diverges) :
    Ensures (fun t' => t'.tran = some tran ∧ db.OnMesh gp t'.m) F (titorNext cfg fuel db t) := by
  unfold titorNext
  rw [(hm.dataPage h.isMesh).content, ht]
  dsimp only
  generalize t.m = m at hm
  induction fuel generalizing m with
  | zero => exact hdiverges
  | succ fuel ih =>
      have hnext := hm.mitorNext h.isMesh h.apart
      rw [titorNextLoop]
      apply Ensures.ite
      · exact fun _ => ensures_ok ⟨rfl, hnext⟩
      · intro hvalid
        have hvalid : mitorIsValid db (mitorNext db m) = true := not_not.mp hvalid
        unfold mitorIsValid at hvalid
        apply (h.visible hF hnext (of_decide_eq_true hvalid).2.2).bind
        intro visible _
        apply Ensures.ite
        · exact fun _ => ensures_ok ⟨rfl, hnext⟩
        · exact fun _ => ih _ hnext

/-- `titor_init` reads the first row before it looks whether there is one. -/
theorem init (hfirst : 0 < (db.pages gp.data).occupied) (hdiverges : F .diverges) :
    Ensures (fun t => t.tran = some tran ∧ db.OnMesh gp t.m) F
      (titorInit cfg fuel db (some tran) gp) := by
  have hm := onMesh_first h.isMesh h.apart
  have hstart : Ensures (fun t => t.tran = some tran ∧ db.OnMesh gp t.m) F
      (if ¬ titorIsValid db ⟨⟨gp, 0⟩, some tran⟩ then (pure ⟨⟨gp, 0⟩, some tran⟩ : Except Fault Titor)
      else do
        if ← rowIsVisible cfg db (some tran) ⟨gp, 0⟩ then return ⟨⟨gp, 0⟩, some tran⟩
        else titorNext cfg fuel db ⟨⟨gp, 0⟩, some tran⟩) := by
    apply Ensures.ite
    · exact fun _ => ensures_ok ⟨rfl, hm⟩
    · intro _
      apply (h.visible hF hm hfirst).bind
      intro visible _
      apply Ensures.ite
      · exact fun _ => ensures_ok ⟨rfl, hm⟩
      · exact fun _ => h.next hF rfl hm hdiverges
  unfold titorInit
  rw [h.isMesh.page.content]
  dsimp only
  have htmin := h.walked.getTmin hm hfirst
  have htmax := h.walked.getTmax hm hfirst
  dsimp only at htmin htmax
  rw [htmin, htmax]
  dsimp only [bind, Except.bind]
  rw [Build.assert_of _ (Option.some_ne_none tran), h.found, Build.assert_of _ h.page.findTmin,
    Build.assert_of _ h.page.findTmax, Build.assert_of _ rfl]
  exact hstart

end

theorem putRow {m : Mitor} (hm : db.OnMesh gp m) (hvalid : mitorIsValid db m = true) :
    (db.putRow m (((db.pages m.gp.data).rows m.row).setTmax tran.key)).Scanned cfg gp header tran where
  apart := h.apart
  page := h.page
  found := by
    rw [pages_putRow_of_ne, h.found]
    rcases hm.page h.isMesh with hdata | hdata
    · exact hdata ▸ h.apart.ne
    · exact hdata ▸ h.apart.header_ne_successor
  isMesh := h.isMesh.putRow hvalid _
  key := h.key
  rows hdebug row hmem := by
    rw [mesh_putRow h.isMesh h.apart hm hvalid] at hmem
    rcases List.mem_or_eq_of_mem_set hmem with hmem | rfl
    · exact h.rows hdebug row hmem
    · unfold mitorIsValid at hvalid
      exact (h.judged hm (of_decide_eq_true hvalid).2.2 hdebug).setTmax h.key

theorem deleteRow {session : Session} {m : Mitor} (hsession : session.tran = some tran)
    (hm : db.OnMesh gp m) (hvalid : mitorIsValid db m = true) :
    dmlDeleteRow cfg session db m
      = .ok (db.putRow m (((db.pages m.gp.data).rows m.row).setTmax tran.key)) :=
  h.walked.deleteRow (Int64.ne_of_lt h.key).symm hsession hm hvalid

end Scanned

end Db

end Scroller
