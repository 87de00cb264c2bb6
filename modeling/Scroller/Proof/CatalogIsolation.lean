import Scroller.Lib.Unwinding
import Scroller.Proof.RowVisibility

/-!
# Catalogs and the flags of their transactions

Every catalog numbers its transactions on its own, but all of them share the flags. What the sessions of a catalog see
does not depend on the commands of the others, as long as these change the flag of no id that a row of the catalog
carries.
-/

namespace Scroller

open Outcome

/-! ### Names of catalogs -/

theorem memcmp_eq_zero_iff {as bs : List UInt8} (h : as.length = bs.length) : memcmp as bs = 0 ↔ as = bs := by
  induction as generalizing bs with
  | nil =>
      obtain rfl := List.length_eq_zero_iff.mp h.symm
      exact iff_of_true rfl rfl
  | cons a as ih =>
      cases bs with
      | nil => cases h
      | cons b bs =>
          rw [memcmp]
          by_cases hab : a = b
          · subst hab
            rw [if_pos rfl, ih (Nat.succ.inj h), List.cons.injEq, and_iff_right rfl]
          · rw [if_neg hab]
            apply iff_of_false
            · split
              · decide
              · decide
            · exact fun heq => hab (List.cons.inj heq).1

theorem eqCharacter_iff {d1 d2 : List UInt8} : eqCharacter d1 d2 = true ↔ charToVarchar d1 = charToVarchar d2 := by
  unfold eqCharacter cmpCharacter
  dsimp only
  rw [decide_eq_true_eq]
  by_cases hlength : (charToVarchar d1).length = (charToVarchar d2).length
  · rw [if_neg (show ¬ (charToVarchar d1).length < (charToVarchar d2).length by omega),
      if_neg (show ¬ (charToVarchar d1).length > (charToVarchar d2).length by omega)]
    rw [← memcmp_eq_zero_iff hlength]
    split
    next hzero => exact iff_of_true rfl hzero
    next hne => exact Iff.rfl
  · apply iff_of_false
    · split
      · split
        · decide
        · split
          · decide
          · omega
      · assumption
    · exact fun heq => hlength (congrArg List.length heq)

/-- The name of a catalog, but for blanks behind it. -/
def InCatalog (catalog name : List UInt8) : Prop := charToVarchar name = charToVarchar catalog

instance InCatalog.decidable (catalog name : List UInt8) : Decidable (InCatalog catalog name) :=
  inferInstanceAs (Decidable (_ = _))

def Session.IsOf (catalog : List UInt8) (session : Session) : Prop := InCatalog catalog (session.catalog.getD [])

instance Session.decidableIsOf (catalog : List UInt8) (session : Session) : Decidable (session.IsOf catalog) :=
  inferInstanceAs (Decidable (InCatalog _ _))

theorem Session.IsOf.iff {catalog name : List UInt8} {session : Session} (h : session.IsOf catalog) :
    eqCharacter name (session.catalog.getD []) = true ↔ InCatalog catalog name := by
  rw [eqCharacter_iff, InCatalog, show charToVarchar (session.catalog.getD []) = charToVarchar catalog from h]

/-! ### What a catalog has of its own -/

/-- A row of `catalog` without the sequence, if it is another one. -/
def CatalogRow.hide (catalog : List UInt8) (row : CatalogRow) : CatalogRow :=
  if InCatalog catalog row.name then row else { row with tranSequence := none }

theorem CatalogRow.name_hide (catalog : List UInt8) (row : CatalogRow) : (row.hide catalog).name = row.name := by
  unfold hide
  split <;> rfl

/-- A table without its rows, if it is one of another catalog. -/
def Relation.hide (catalog : List UInt8) (t : Relation) : Relation :=
  if InCatalog catalog t.catalog then t else { t with data := none }

theorem Relation.isNamed_hide (catalog : List UInt8) (t : Relation) (session : Session) (schema table : List UInt8) :
    (t.hide catalog).isNamed session schema table = t.isNamed session schema table := by
  unfold hide
  split <;> rfl

/-- The same of a catalog, and the same flags but for some ids. -/
structure TranState.Alike (catalog : List UInt8) (hidden : Int64 → Prop) (ts ts' : TranState) : Prop where
  rows : ts.catalog.rows.map (CatalogRow.hide catalog) = ts'.catalog.rows.map (CatalogRow.hide catalog)
  flags : ∀ tid, ¬ hidden tid → ts.flags tid = ts'.flags tid

structure Store.Alike (catalog : List UInt8) (hidden : Int64 → Prop) (store store' : Store) : Prop where
  relations : store.relations.map (Relation.hide catalog) = store'.relations.map (Relation.hide catalog)
  trans : store.trans.Alike catalog hidden store'.trans

/-- What is looked for among elements that are not hidden is found at the same place. -/
theorem find?_zipIdx_congr {α : Type} {p : α → Bool} {hide : α → α} (hp : ∀ a, p (hide a) = p a)
    (hfix : ∀ a, p a = true → hide a = a) {l l' : List α} (h : l.map hide = l'.map hide) :
    l.zipIdx.find? (fun x => p x.1) = l'.zipIdx.find? (fun x => p x.1) := by
  have hmap : ∀ l : List α, (l.zipIdx.find? fun x => p x.1).map (Prod.map hide id)
      = (l.map hide).zipIdx.find? fun x => p x.1 := by
    intro l
    rw [List.zipIdx_map, List.find?_map]
    congr 2
    funext x
    exact (hp x.1).symm
  have hsame := (hmap l).trans ((congrArg (fun l => l.zipIdx.find? fun x => p x.1) h).trans (hmap l').symm)
  have hfound : ∀ l : List α, (l.zipIdx.find? fun x => p x.1).map (Prod.map hide id)
      = l.zipIdx.find? fun x => p x.1 := by
    intro l
    cases hfind : l.zipIdx.find? fun x => p x.1 with
    | none => rfl
    | some x =>
        have hx := List.find?_some hfind
        exact congrArg some (Prod.ext (hfix x.1 hx) rfl)
  rw [hfound, hfound] at hsame
  exact hsame

theorem map_set_congr {α β : Type} {f : α → β} {l l' : List α} (h : l.map f = l'.map f) (i : Nat) (a : α) :
    (l.set i a).map f = (l'.set i a).map f := by
  rw [List.map_set, List.map_set, h]

/-- Changing what is hidden is not seen. -/
theorem map_set_hidden {α β : Type} {f : α → β} {l : List α} {i : Nat} {a a' : α} (hget : l[i]? = some a)
    (ha : f a' = f a) : (l.set i a').map f = l.map f := by
  obtain ⟨hlt, rfl⟩ := List.getElem?_eq_some_iff.mp hget
  rw [List.map_set, ha, ← List.getElem_map f, List.set_getElem_self]
  rwa [List.length_map]

section

variable {cfg : Config} {catalog : List UInt8} {hidden : Int64 → Prop} {ts ts' : TranState} {session : Session}

namespace TranState.Alike

theorem catalogRow_eq (h : ts.Alike catalog hidden ts') (hsession : session.IsOf catalog) :
    ts.catalogRow session = ts'.catalogRow session := by
  refine find?_zipIdx_congr (fun row => ?_) (fun row hrow => if_pos (hsession.iff.mp hrow)) h.rows
  exact congrArg (fun name => eqCharacter name _) (row.name_hide catalog)

theorem setCatalogRow (h : ts.Alike catalog hidden ts') (i : Nat) (row : CatalogRow) :
    (ts.setCatalogRow i row).Alike catalog hidden (ts'.setCatalogRow i row) :=
  ⟨map_set_congr h.rows i row, h.flags⟩

/-- Two results of a command on the transactions that are the same to a catalog. -/
def Same (catalog : List UInt8) (hidden : Int64 → Prop) (a b : TranState × Session × ScrcStatus) : Prop :=
  a.1.Alike catalog hidden b.1 ∧ a.2 = b.2

theorem tranFlagPut_agrees (h : ts.Alike catalog hidden ts') (tid : Int64) (flag : TranFlag) :
    Agrees (fun flags flags' => ∀ tid, ¬ hidden tid → flags tid = flags' tid) (tranFlagPut cfg ts.flags tid flag)
      (tranFlagPut cfg ts'.flags tid flag) := by
  refine Agrees.bind_same fun _ _ => ?_
  split
  · refine .ok fun tid' htid' => ?_
    rw [Function.update_apply, Function.update_apply, h.flags tid' htid']
  · exact .error _

theorem tranPut_agrees (h : ts.Alike catalog hidden ts') (hsession : session.IsOf catalog) (autocommit : Bool) :
    Agrees (Same catalog hidden) (tranPut cfg ts session autocommit) (tranPut cfg ts' session autocommit) := by
  unfold tranPut
  rw [h.catalogRow_eq hsession]
  split
  · exact Agrees.bind_same fun _ _ => .error _
  next row i hrow =>
    split
    · exact Agrees.bind_same fun _ _ => .error _
    · refine Agrees.bind_same fun out _ => ?_
      cases out with
      | none => exact .ok ⟨h, rfl⟩
      | some next =>
          obtain ⟨sequence, tid⟩ := next
          have hset := h.setCatalogRow i { row with tranSequence := some sequence }
          cases autocommit with
          | true =>
              refine (hset.tranFlagPut_agrees tid .commited).bind fun flags flags' hflags => ?_
              exact .ok ⟨⟨hset.rows, hflags⟩, rfl⟩
          | false => exact .ok ⟨hset, rfl⟩

theorem putTranIfNone_agrees (h : ts.Alike catalog hidden ts') (hsession : session.IsOf catalog) :
    Agrees (Same catalog hidden) (putTranIfNone cfg ts session) (putTranIfNone cfg ts' session) := by
  unfold putTranIfNone
  split
  · exact h.tranPut_agrees hsession true
  · exact .ok ⟨h, rfl⟩

theorem tclStart_agrees (h : ts.Alike catalog hidden ts') (hsession : session.IsOf catalog) :
    Agrees (Same catalog hidden) (tclStart cfg ts session) (tclStart cfg ts' session) := by
  unfold tclStart
  split
  · split
    · have hsession' : ({ session with tran := none } : Session).IsOf catalog := hsession
      exact h.tranPut_agrees hsession' false
    · exact .ok ⟨h, rfl⟩
  · exact h.tranPut_agrees hsession false

theorem tclFinish_agrees (h : ts.Alike catalog hidden ts') (flag : TranFlag) :
    Agrees (Same catalog hidden) (tclFinish cfg flag ts session) (tclFinish cfg flag ts' session) := by
  unfold tclFinish
  split
  · split
    · exact .ok ⟨h, rfl⟩
    · refine (h.tranFlagPut_agrees _ flag).bind fun flags flags' hflags => ?_
      exact .ok ⟨⟨h.rows, hflags⟩, rfl⟩
  · exact .ok ⟨h, rfl⟩

end TranState.Alike

/-! ### One command of the catalog -/

theorem scanRows_congr {flags flags' : Int64 → TranFlag} {tran : Tran} {act : Row → Row} {cond : Where} {n : Nat}
    {rows : List Row} (h : ∀ row ∈ rows, flags row.tmin = flags' row.tmin ∧ flags row.tmax = flags' row.tmax) :
    scanRows cfg flags tran act cond n rows = scanRows cfg flags' tran act cond n rows := by
  induction rows generalizing n with
  | nil => rfl
  | cons row rows ih =>
      obtain ⟨hmin, hmax⟩ := h row List.mem_cons_self
      have hrow : tranRowIsVisible cfg flags tran row.tmin row.tmax
          = tranRowIsVisible cfg flags' tran row.tmin row.tmax := by
        unfold tranRowIsVisible tranFlagGet
        rw [hmin, hmax]
      rw [scanRows, scanRows, hrow]
      simp only [ih fun row' hrow' => h row' (List.mem_cons_of_mem row hrow')]

/-- No row of a table of the catalog carries a hidden id. -/
def Store.Clear (catalog : List UInt8) (hidden : Int64 → Prop) (store : Store) : Prop :=
  ∀ t ∈ store.relations, InCatalog catalog t.catalog → ∀ row ∈ t.rows, ¬ hidden row.tmin ∧ ¬ hidden row.tmax

/-- Two results of a command that are the same to a catalog. -/
def Store.Same (catalog : List UInt8) (hidden : Int64 → Prop) (a b : Store × Session × Reply) : Prop :=
  a.1.Alike catalog hidden b.1 ∧ a.2 = b.2

namespace Store.Alike

variable {store store' : Store} {schema table : List UInt8} {t : Relation} {i : Nat}

theorem find_eq (h : store.Alike catalog hidden store') (hsession : session.IsOf catalog)
    (schema table : List UInt8) : store.find session schema table = store'.find session schema table := by
  refine find?_zipIdx_congr (p := fun t => t.isNamed session schema table)
    (fun t => t.isNamed_hide catalog session schema table) (fun t ht => if_pos ?_) h.relations
  unfold Relation.isNamed at ht
  rw [Bool.and_eq_true, Bool.and_eq_true] at ht
  exact hsession.iff.mp ht.1.1

theorem setData (h : store.Alike catalog hidden store') (i : Nat) (t : Relation) (mesh : Mesh Row) :
    (store.setData i t mesh).Alike catalog hidden (store'.setData i t mesh) :=
  ⟨map_set_congr h.relations i _, h.trans⟩

theorem withTrans (h : store.Alike catalog hidden store') (hts : ts.Alike catalog hidden ts') :
    Store.Alike catalog hidden { store with trans := ts } { store' with trans := ts' } := ⟨h.relations, hts⟩

theorem scan_agrees (h : store.Alike catalog hidden store') (hsession : session.IsOf catalog)
    (hrows : ∀ row ∈ t.rows, ¬ hidden row.tmin ∧ ¬ hidden row.tmax) (i : Nat) (act : Tran → Row → Row)
    (cond : Option Where) :
    Agrees (Same catalog hidden) (store.scan cfg session t i act cond) (store'.scan cfg session t i act cond) := by
  unfold scan
  split
  · exact .ok ⟨h, rfl⟩
  next mesh hdata =>
    refine (h.trans.putTranIfNone_agrees hsession).bind ?_
    rintro ⟨ts, session₁, status⟩ ⟨ts', session₁', status'⟩ ⟨hts, heq⟩
    cases heq
    have hmesh : t.rows = mesh.rows := by
      rw [Relation.rows, hdata]
      rfl
    dsimp only
    split
    next tran htran =>
      split
      · exact .error _
      · rw [scanRows_congr fun row hrow => by
          obtain ⟨hmin, hmax⟩ := hrows row (hmesh ▸ hrow)
          exact ⟨hts.flags _ hmin, hts.flags _ hmax⟩]
        exact Agrees.bind_same fun scan _ => .ok ⟨(h.withTrans hts).setData i t _, rfl⟩
    · exact .error _
    · exact .ok ⟨h.withTrans hts, rfl⟩

theorem insert_agrees (h : store.Alike catalog hidden store') (hsession : session.IsOf catalog)
    (schema table : List UInt8) (names : List (List UInt8)) (values : List Datum) (leftover : Option Tran) :
    Agrees (Same catalog hidden) (store.insert cfg session schema table names values leftover)
      (store'.insert cfg session schema table names values leftover) := by
  unfold insert
  rw [h.find_eq hsession]
  split
  · exact Agrees.bind_same fun _ _ => .ok ⟨h, rfl⟩
  next t i hfind =>
    refine Agrees.bind_same fun mesh _ => Agrees.bind_same fun _ _ => ?_
    refine (h.trans.putTranIfNone_agrees hsession).bind ?_
    rintro ⟨ts, session₁, status⟩ ⟨ts', session₁', status'⟩ ⟨hts, heq⟩
    cases heq
    have hset := (h.setData i t mesh).withTrans hts
    dsimp only
    split
    next tran htran =>
      split
      · exact .ok ⟨hset, rfl⟩
      · exact Agrees.bind_same fun out _ => .ok ⟨hset.setData i t _, rfl⟩
    · exact .error _
    · exact .ok ⟨hset, rfl⟩

/-- A command of the catalog does the same in both states. -/
theorem run_agrees (h : store.Alike catalog hidden store') (hsession : session.IsOf catalog)
    (hclear : store.Clear catalog hidden) (cmd : Command) :
    Agrees (Same catalog hidden) (store.run cfg session cmd) (store'.run cfg session cmd) := by
  have hfound {schema table : List UInt8} {t : Relation} {i : Nat}
      (hfind : store.find session schema table = some (t, i)) :
      ∀ row ∈ t.rows, ¬ hidden row.tmin ∧ ¬ hidden row.tmax := by
    have hnamed := List.find?_some hfind
    unfold Relation.isNamed at hnamed
    rw [Bool.and_eq_true, Bool.and_eq_true] at hnamed
    exact hclear t (List.mem_of_getElem? (getElem?_of_find hfind)) (hsession.iff.mp hnamed.1.1)
  have hdone {x y : Except Fault (TranState × Session × ScrcStatus)}
      (hxy : Agrees (TranState.Alike.Same catalog hidden) x y) :
      Agrees (Same catalog hidden)
        (x >>= fun out => .ok ({ store with trans := out.1 }, out.2.1, Reply.ofStatus out.2.2))
        (y >>= fun out => .ok ({ store' with trans := out.1 }, out.2.1, Reply.ofStatus out.2.2)) := by
    refine hxy.bind ?_
    rintro ⟨ts, out⟩ ⟨ts', out'⟩ ⟨hts, heq⟩
    cases heq
    exact .ok ⟨h.withTrans hts, rfl⟩
  cases cmd with
  | start => exact hdone (h.trans.tclStart_agrees hsession)
  | commit => exact hdone (h.trans.tclFinish_agrees _)
  | rollback => exact hdone (h.trans.tclFinish_agrees _)
  | insert schema table names values leftover => exact h.insert_agrees hsession schema table names values leftover
  | delete schema table cond =>
      rw [run, run, delete, delete, ← h.find_eq hsession]
      split
      · exact .ok ⟨h, rfl⟩
      next t i hfind => exact h.scan_agrees hsession (hfound hfind) i _ cond
  | select schema table names cond =>
      rw [run, run, select, select, ← h.find_eq hsession]
      split
      · exact .ok ⟨h, rfl⟩
      next t i hfind =>
        split
        · exact .ok ⟨h, rfl⟩
        · exact h.scan_agrees hsession (hfound hfind) i _ cond

end Store.Alike

/-! ### One command of another catalog -/

theorem not_inCatalog {name : List UInt8} (hsession : ¬ session.IsOf catalog)
    (h : eqCharacter name (session.catalog.getD []) = true) : ¬ InCatalog catalog name :=
  fun hname => hsession ((eqCharacter_iff.mp h).symm.trans hname)

theorem TranStep.rows_hidden {cmd : Command} {session' : Session} (h : TranStep cfg cmd ts session ts' session')
    (hsession : ¬ session.IsOf catalog) :
    ts'.catalog.rows.map (CatalogRow.hide catalog) = ts.catalog.rows.map (CatalogRow.hide catalog) := by
  cases h with
  | same => rfl
  | @begin row i sequence sequence' tid autocommit hrow hsequence hnext hopen hroom =>
      have hname := List.find?_some hrow
      have hnot : ¬ InCatalog catalog row.name := not_inCatalog hsession hname
      refine map_set_hidden (catalogRow_eq_some hrow) ?_
      rw [CatalogRow.hide, if_neg hnot, CatalogRow.hide, if_neg hnot]
  | finish => rfl

namespace Store

variable {store store' : Store} {session' : Session} {reply : Reply} {schema table : List UInt8} {t : Relation}
  {i : Nat}

theorem setData_hidden (hsession : ¬ session.IsOf catalog) (hfind : store.find session schema table = some (t, i))
    (mesh : Mesh Row) :
    (store.setData i t mesh).relations.map (Relation.hide catalog)
      = store.relations.map (Relation.hide catalog) := by
  have hnamed := List.find?_some hfind
  unfold Relation.isNamed at hnamed
  rw [Bool.and_eq_true, Bool.and_eq_true] at hnamed
  have hnot : ¬ InCatalog catalog t.catalog := not_inCatalog hsession hnamed.1.1
  refine map_set_hidden (getElem?_of_find hfind) ?_
  rw [Relation.hide, if_neg hnot, Relation.hide, if_neg hnot]

theorem scan_hidden {act : Tran → Row → Row} {cond : Option Where} (hsession : ¬ session.IsOf catalog)
    (hfind : store.find session schema table = some (t, i))
    (h : store.scan cfg session t i act cond = .ok (store', session', reply)) :
    store'.relations.map (Relation.hide catalog) = store.relations.map (Relation.hide catalog) := by
  unfold scan at h
  split at h
  · cases h
    rfl
  · obtain ⟨⟨ts, session₁, status⟩, -, h⟩ := bind_eq_ok.mp h
    dsimp only at h
    split at h
    · split at h
      · cases h
      · obtain ⟨scan, -, h⟩ := bind_eq_ok.mp h
        cases h
        exact setData_hidden hsession hfind _
    · cases h
    · cases h
      rfl

theorem insert_hidden {names : List (List UInt8)} {values : List Datum} {leftover : Option Tran}
    (hsession : ¬ session.IsOf catalog)
    (h : store.insert cfg session schema table names values leftover = .ok (store', session', reply)) :
    store'.relations.map (Relation.hide catalog) = store.relations.map (Relation.hide catalog) := by
  unfold insert at h
  split at h
  · obtain ⟨-, -, h⟩ := bind_eq_ok.mp h
    cases h
    rfl
  next t i hfind =>
    obtain ⟨mesh, -, h⟩ := bind_eq_ok.mp h
    obtain ⟨-, -, h⟩ := bind_eq_ok.mp h
    obtain ⟨⟨ts, session₁, status⟩, -, h⟩ := bind_eq_ok.mp h
    dsimp only at h
    split at h
    · split at h
      · cases h
        exact setData_hidden hsession hfind mesh
      · obtain ⟨⟨mesh', status', n⟩, -, h⟩ := bind_eq_ok.mp h
        cases h
        have hset : (setData { store.setData i t mesh with trans := ts } i t mesh').relations
            = (store.setData i t mesh').relations := List.set_set ..
        rw [hset]
        exact setData_hidden hsession hfind mesh'
    · cases h
    · cases h
      exact setData_hidden hsession hfind mesh

theorem run_hidden {cmd : Command} (hsession : ¬ session.IsOf catalog)
    (h : store.run cfg session cmd = .ok (store', session', reply)) :
    store'.relations.map (Relation.hide catalog) = store.relations.map (Relation.hide catalog) := by
  cases cmd with
  | start =>
      obtain ⟨⟨ts, session₁, status⟩, -, h⟩ := bind_eq_ok.mp h
      cases h
      rfl
  | commit =>
      obtain ⟨⟨ts, session₁, status⟩, -, h⟩ := bind_eq_ok.mp h
      cases h
      rfl
  | rollback =>
      obtain ⟨⟨ts, session₁, status⟩, -, h⟩ := bind_eq_ok.mp h
      cases h
      rfl
  | insert schema table names values leftover => exact insert_hidden hsession h
  | delete schema table cond =>
      rw [run, delete] at h
      split at h
      · cases h
        rfl
      next t i hfind => exact scan_hidden hsession hfind h
  | select schema table names cond =>
      rw [run, select] at h
      split at h
      · cases h
        rfl
      next t i hfind =>
        split at h
        · cases h
          rfl
        · exact scan_hidden hsession hfind h

end Store

end

/-! ### Two runs -/

/-- Two states that are the same to a catalog. -/
structure Cluster.Alike (cfg : Config) (catalog : List UInt8) (hidden : Int64 → Prop) (s s' : Cluster Db) : Prop where
  ready : s.Ready cfg
  ready' : s'.Ready cfg
  store : s.db.store.Alike catalog hidden s'.db.store
  catalogs : ∀ sid, (s'.sessions sid).catalog = (s.sessions sid).catalog
  sessions : ∀ sid, (s.sessions sid).IsOf catalog → s'.sessions sid = s.sessions sid

/-- A command of another catalog changes the flags of hidden ids only. -/
def Cluster.Confined (cfg : Config) (fuel : Nat) (catalog : List UInt8) (hidden : Int64 → Prop) (s : Cluster Db)
    (input : Nat × Command) : Prop :=
  ¬ (s.sessions input.1).IsOf catalog → ∀ s' reply, s.step (Db.run cfg fuel) input = .ok (s', reply) →
    ∀ tid, ¬ hidden tid → s'.db.trans.flags tid = s.db.trans.flags tid

namespace Cluster.Alike

variable {cfg : Config} {fuel : Nat} {catalog : List UInt8} {hidden : Int64 → Prop} {s s' s₁ s₁' : Cluster Db}
  {input : Nat × Command} {reply reply' : Reply}

theorem symm (h : s.Alike cfg catalog hidden s') : s'.Alike cfg catalog hidden s where
  ready := h.ready'
  ready' := h.ready
  store := ⟨h.store.relations.symm, h.store.trans.rows.symm, fun tid htid => (h.store.trans.flags tid htid).symm⟩
  catalogs sid := (h.catalogs sid).symm
  sessions sid hsid := by
    refine (h.sessions sid ?_).symm
    rwa [Session.IsOf, ← h.catalogs sid]

theorem isOf_iff (h : s.Alike cfg catalog hidden s') (sid : Nat) :
    (s'.sessions sid).IsOf catalog ↔ (s.sessions sid).IsOf catalog := by
  rw [Session.IsOf, Session.IsOf, h.catalogs sid]

/-- A command of another catalog goes unseen. -/
theorem other (h : s.Alike cfg catalog hidden s') (hissued : s.db.sequence.issued + 1 < 2 ^ 40)
    (hconfined : s.Confined cfg fuel catalog hidden input) (hinput : ¬ (s.sessions input.1).IsOf catalog)
    (hstep : s.step (Db.run cfg fuel) input = .ok (s₁, reply)) : s₁.Alike cfg catalog hidden s' := by
  obtain ⟨sid, cmd⟩ := input
  obtain ⟨session', hrun, hsessions⟩ := Cluster.step_eq_ok.mp (Cluster.step_store h.ready hissued hstep)
  have htran := Store.run_step h.ready.laid.catalog hrun
  have hcatalog : session'.catalog = (s.sessions sid).catalog := htran.catalog_eq
  refine ⟨(h.ready.step hstep).1, h.ready', ⟨?_, ?_, fun tid htid => ?_⟩, fun sid' => ?_, fun sid' hsid' => ?_⟩
  · exact (Store.run_hidden hinput hrun).trans h.store.relations
  · exact (htran.rows_hidden hinput).trans h.store.trans.rows
  · exact (hconfined hinput s₁ reply hstep tid htid).trans (h.store.trans.flags tid htid)
  · rw [show s₁.sessions = Function.update s.sessions sid session' from hsessions, h.catalogs]
    by_cases hsid : sid' = sid
    · subst hsid
      rw [Function.update_self, hcatalog]
    · rw [Function.update_of_ne hsid]
  · rw [show s₁.sessions = Function.update s.sessions sid session' from hsessions] at hsid' ⊢
    by_cases hsid : sid' = sid
    · subst hsid
      rw [Function.update_self, Session.IsOf, hcatalog] at hsid'
      exact absurd hsid' hinput
    · rw [Function.update_of_ne hsid] at hsid' ⊢
      exact h.sessions sid' hsid'

/-- A command of the catalog does the same on both sides. -/
theorem own (h : s.Alike cfg catalog hidden s') (hissued : s.db.sequence.issued + 1 < 2 ^ 40)
    (hissued' : s'.db.sequence.issued + 1 < 2 ^ 40) (hclear : s.db.store.Clear catalog hidden)
    (hinput : (s.sessions input.1).IsOf catalog) (hstep : s.step (Db.run cfg fuel) input = .ok (s₁, reply))
    (hstep' : s'.step (Db.run cfg fuel) input = .ok (s₁', reply')) : s₁.Alike cfg catalog hidden s₁' := by
  obtain ⟨sid, cmd⟩ := input
  obtain ⟨session₁, hrun, hsessions⟩ := Cluster.step_eq_ok.mp (Cluster.step_store h.ready hissued hstep)
  obtain ⟨session₁', hrun', hsessions'⟩ := Cluster.step_eq_ok.mp (Cluster.step_store h.ready' hissued' hstep')
  have hagrees : Agrees (Store.Same catalog hidden) (s.db.store.run cfg (s.sessions sid) cmd)
      (s'.db.store.run cfg (s.sessions sid) cmd) := h.store.run_agrees hinput hclear cmd
  have hsession : s'.store.sessions sid = s.sessions sid := h.sessions sid hinput
  rw [hsession] at hrun'
  rw [show s.db.store.run cfg (s.sessions sid) cmd = .ok (s₁.store.db, session₁, reply) from hrun,
    show s'.db.store.run cfg (s.sessions sid) cmd = .ok (s₁'.store.db, session₁', reply') from hrun'] at hagrees
  obtain ⟨out, hout, hstore, heq⟩ := hagrees.of_ok
  cases hout
  obtain rfl : session₁ = session₁' := congrArg Prod.fst heq
  have hs₁ : s₁.sessions = Function.update s.sessions sid session₁ := hsessions
  have hs₁' : s₁'.sessions = Function.update s'.sessions sid session₁ := hsessions'
  refine ⟨(h.ready.step hstep).1, (h.ready'.step hstep').1, hstore, fun sid' => ?_, fun sid' hsid' => ?_⟩
  · rw [hs₁, hs₁']
    by_cases hsid : sid' = sid
    · subst hsid
      rw [Function.update_self, Function.update_self]
    · rw [Function.update_of_ne hsid, Function.update_of_ne hsid, h.catalogs]
  · rw [hs₁] at hsid' ⊢
    rw [hs₁']
    by_cases hsid : sid' = sid
    · subst hsid
      rw [Function.update_self, Function.update_self]
    · rw [Function.update_of_ne hsid] at hsid'
      rw [Function.update_of_ne hsid, Function.update_of_ne hsid, h.sessions sid' hsid']

end Cluster.Alike

/-- The bound of the ids holds in every state of a run that it holds behind. -/
theorem Cluster.Ready.throughout {cfg : Config} {fuel : Nat} {s s' : Cluster Db} {inputs : List (Nat × Command)}
    {hist : List ((Nat × Command) × Reply)} (h : s.Ready cfg)
    (hexec : Machine.exec (Cluster.step (Db.run cfg fuel)) s inputs = .ok (s', hist))
    (hissued : s'.db.sequence.issued + 1 < 2 ^ 40) :
    Machine.Throughout (Cluster.step (Db.run cfg fuel)) (fun s => s.db.sequence.issued + 1 < 2 ^ 40) s inputs := by
  rintro before after s₁ hist₁ rfl hbefore
  obtain ⟨s₂, left, right, hleft, hright, -⟩ := Machine.exec_append_eq_ok hexec
  rw [hbefore] at hleft
  cases hleft
  obtain ⟨-, hle⟩ := (h.exec hbefore).1.exec hright
  omega

/-- What is not hidden of a table is the same in both states. -/
theorem Store.Alike.relation_eq {catalog : List UInt8} {hidden : Int64 → Prop} {store store' : Store} {t : Relation}
    {i : Nat} (h : store.Alike catalog hidden store') (hget : store.relations[i]? = some t)
    (ht : InCatalog catalog t.catalog) : store'.relations[i]? = some t := by
  have hsame := congrArg (fun l => l[i]?) h.relations
  simp only [List.getElem?_map, hget, Option.map_some] at hsame
  obtain ⟨t', hget', heq⟩ := Option.map_eq_some_iff.mp hsame.symm
  rw [hget']
  have hfix : t.hide catalog = t := if_pos ht
  rw [hfix] at heq
  by_cases ht' : InCatalog catalog t'.catalog
  · rw [← heq, Relation.hide, if_pos ht']
  · rw [Relation.hide, if_neg ht'] at heq
    rw [← heq] at ht
    exact absurd ht ht'

section

open Execute

/-- A new database, whose session 1 is one of the catalog `d`. -/
def twoCatalogs : Cluster Db :=
  { newCluster with sessions := fun sid => ⟨some (if sid = 1 then [100] else [99]), none⟩ }

/-- `CREATE CATALOG d`. -/
def createD : Request := ⟨0, some [.create, .catalog, .string [100]], none, 20⟩

theorem twoCatalogs_fresh : twoCatalogs.Fresh where
  relation := rfl
  sequence := newCluster_fresh.sequence
  catalog := newCluster_fresh.catalog
  tran _ := rfl

theorem typed_createD : ∀ r ∈ [createT, createD], r.Typed := by
  intro r hr
  rcases List.mem_pair.mp hr with rfl | rfl
  · exact createT_typed
  · intro tokens htokens type htype
    cases htokens
    simp at htype

theorem laidOut_createD : twoCatalogs.LaidOut ⟨.debug, 4096⟩ [createT, createD] := by
  refine (Machine.throughout_cons (i := createT) rfl).mpr ⟨Db.laidOut_nil (by decide) rfl, ?_⟩
  refine (Machine.throughout_cons (i := createD) rfl).mpr ⟨Db.laidOut_singleton (by decide) rfl ?_, ?_⟩
  · exact { datasz_lt := by decide, within := by decide, disjoint := by decide, characters := by decide }
  · refine Machine.throughout_nil.mpr (Db.laidOut_singleton (by decide) rfl ?_)
    exact { datasz_lt := by decide, within := by decide, disjoint := by decide, characters := by decide }

section

variable {cfg : Config} {fuel : Nat} {catalog : List UInt8} {hidden : Int64 → Prop} {s : Cluster Db} {sid : Nat}

theorem confined_start : s.Confined cfg fuel catalog hidden (sid, .start) := by
  have hput {session session' : Session} {ts : TranState} {status : ScrcStatus}
      (h : tranPut cfg s.db.trans session false = .ok (ts, session', status)) : ts.flags = s.db.trans.flags := by
    unfold tranPut at h
    split at h
    · obtain ⟨-, -, h⟩ := bind_eq_ok.mp h
      cases h
    · split at h
      · obtain ⟨-, -, h⟩ := bind_eq_ok.mp h
        cases h
      · obtain ⟨out, -, h⟩ := bind_eq_ok.mp h
        cases out <;> cases h <;> rfl
  intro _ s' reply hstep tid _
  obtain ⟨session, hrun, -⟩ := Cluster.step_eq_ok.mp hstep
  obtain ⟨⟨ts, session', status⟩, hstart, hrun⟩ := bind_eq_ok.mp hrun
  have hdb : s'.db = { s.db with trans := ts } := (Prod.mk.inj (Except.ok.inj hrun)).1.symm
  have hflags : ts.flags = s.db.trans.flags := by
    unfold tclStart at hstart
    split at hstart
    · split at hstart
      · exact hput hstart
      · cases hstart
        rfl
    · exact hput hstart
  rw [hdb]
  exact congrFun hflags tid

/-- A commit of a hidden id, or of one that has the flag already. -/
theorem confined_commit {tran : Tran} (htran : (s.sessions sid).tran = some tran)
    (hflag : hidden tran.key ∨ s.db.trans.flags tran.key = .commited) :
    s.Confined cfg fuel catalog hidden (sid, .commit) := by
  intro _ s' reply hstep tid htid
  obtain ⟨session, hrun, -⟩ := Cluster.step_eq_ok.mp hstep
  obtain ⟨⟨ts, session', status⟩, hcommit, hrun⟩ := bind_eq_ok.mp hrun
  have hdb : s'.db = { s.db with trans := ts } := (Prod.mk.inj (Except.ok.inj hrun)).1.symm
  rw [hdb]
  rw [tclCommit, tclFinish, htran] at hcommit
  dsimp only at hcommit
  split at hcommit
  · cases hcommit
    rfl
  · obtain ⟨flags, hput, hcommit⟩ := bind_eq_ok.mp hcommit
    cases hcommit
    obtain ⟨rfl, -⟩ := tranFlagPut_eq hput
    by_cases hkey : tid = tran.key
    · rw [hkey] at htid ⊢
      exact (Function.update_self ..).trans (hflag.resolve_left htid).symm
    · exact Function.update_of_ne hkey _ _

end

end

end Scroller
