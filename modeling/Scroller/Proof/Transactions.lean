import Scroller.Proof.StoreRuns

/-!
# Transactions of the sessions

What a command does to the transaction of its session, to the sequence of its catalog and to the flags, and what
holds of them in every run where one catalog gives out the ids.
-/

namespace Scroller

open Outcome

/-! ### One command -/

theorem tranFlagPut_eq {cfg : Config} {flags flags' : Int64 → TranFlag} {tid : Int64} {flag : TranFlag}
    (h : tranFlagPut cfg flags tid flag = .ok flags') :
    flags' = Function.update flags tid flag ∧ tid.toInt < cfg.tranCapacity := by
  obtain ⟨-, -, h⟩ := bind_eq_ok.mp h
  split at h
  next hroom =>
    cases h
    exact ⟨rfl, hroom.2⟩
  · cases h

/-- What a command does to the transaction of its session: nothing, or it begins a new one, or it finishes one that
was opened with `START`. -/
inductive TranStep (cfg : Config) (cmd : Command) (ts : TranState) (session : Session) :
    TranState → Session → Prop
  | same : TranStep cfg cmd ts session ts session
  | begin {row : CatalogRow} {i : Nat} {sequence sequence' : Sequence} {tid : Int64} {autocommit : Bool}
      (hrow : ts.catalogRow session = some (row, i)) (hsequence : row.tranSequence = some sequence)
      (hnext : sequenceNextval cfg.build sequence = .ok (some (sequence', tid)))
      (hopen : ∀ tran, session.tran = some tran → tran.autocommit = true)
      (hroom : autocommit = true → tid.toInt < cfg.tranCapacity) :
      TranStep cfg cmd ts session
        { ts.setCatalogRow i { row with tranSequence := some sequence' } with
          flags := if autocommit then Function.update ts.flags tid .commited else ts.flags }
        { session with tran := some ⟨tid, autocommit⟩ }
  | finish {tran : Tran} {flag : TranFlag} (htran : session.tran = some tran) (hopen : tran.autocommit = false)
      (hcmd : cmd = .commit ∨ flag = .aborted) (hroom : tran.key.toInt < cfg.tranCapacity) :
      TranStep cfg cmd ts session { ts with flags := Function.update ts.flags tran.key flag }
        { session with tran := none }

section

variable {cfg : Config} {cmd : Command} {ts ts' : TranState} {session session' : Session} {status : ScrcStatus}

theorem TranStep.catalog_eq (h : TranStep cfg cmd ts session ts' session') : session'.catalog = session.catalog := by
  cases h <;> rfl

/-- A transaction that was opened with `START` stays until it is finished. -/
theorem TranStep.open_stays {tid : Int64} {tran : Tran} (h : TranStep cfg cmd ts session ts' session')
    (htran : session.tran = some ⟨tid, false⟩) (htran' : session'.tran = some tran) : session' = session := by
  cases h with
  | same => rfl
  | begin _ _ _ hopen =>
      have hauto := hopen _ htran
      cases hauto
  | finish => cases htran'

theorem tranPut_step {session₀ : Session} {autocommit : Bool} (hts : ts.Plain)
    (hcatalog : session₀.catalog = session.catalog)
    (hopen : ∀ tran, session.tran = some tran → tran.autocommit = true)
    (h : tranPut cfg ts session₀ autocommit = .ok (ts', session', status)) :
    TranStep cfg cmd ts session ts' session' := by
  have hfind : ts.catalogRow session₀ = ts.catalogRow session := by
    unfold TranState.catalogRow
    rw [hcatalog]
  unfold tranPut at h
  rw [hfind] at h
  split at h
  · obtain ⟨-, -, h⟩ := bind_eq_ok.mp h
    cases h
  next row i hrow =>
    split at h
    · obtain ⟨-, -, h⟩ := bind_eq_ok.mp h
      cases h
    next sequence hsequence =>
      obtain ⟨out, hnext, h⟩ := bind_eq_ok.mp h
      have hplain := hts row (List.mem_of_getElem? (catalogRow_eq_some hrow)) sequence hsequence
      obtain ⟨sequence', tid, rfl, -⟩ := hplain.nextval hnext
      cases autocommit with
      | true =>
          obtain ⟨flags, hflags, h⟩ := bind_eq_ok.mp h
          cases h
          obtain ⟨rfl, hroom⟩ := tranFlagPut_eq hflags
          rw [hcatalog]
          exact @TranStep.begin cfg cmd ts session row i sequence sequence' tid true hrow hsequence hnext hopen
            fun _ => hroom
      | false =>
          cases h
          rw [hcatalog]
          refine @TranStep.begin cfg cmd ts session row i sequence sequence' tid false hrow hsequence hnext hopen ?_
          intro hauto
          cases hauto

theorem putTranIfNone_step (hts : ts.Plain) (h : putTranIfNone cfg ts session = .ok (ts', session', status)) :
    TranStep cfg cmd ts session ts' session' := by
  unfold putTranIfNone at h
  split at h
  next hnone =>
    refine tranPut_step hts rfl (fun tran htran => ?_) h
    rw [hnone] at htran
    cases htran
  · cases h
    exact .same

theorem tclStart_step (hts : ts.Plain) (h : tclStart cfg ts session = .ok (ts', session', status)) :
    TranStep cfg cmd ts session ts' session' := by
  unfold tclStart at h
  split at h
  next tran htran =>
    split at h
    next hauto =>
      refine tranPut_step hts (show ({ session with tran := none } : Session).catalog = _ from rfl)
        (fun tran' htran' => ?_) h
      rw [htran] at htran'
      cases htran'
      exact hauto
    · cases h
      exact .same
  next hnone =>
    refine tranPut_step hts rfl (fun tran htran => ?_) h
    rw [hnone] at htran
    cases htran

theorem tclFinish_step {flag : TranFlag} (hcmd : cmd = .commit ∨ flag = .aborted)
    (h : tclFinish cfg flag ts session = .ok (ts', session', status)) :
    TranStep cfg cmd ts session ts' session' := by
  unfold tclFinish at h
  split at h
  next tran htran =>
    split at h
    · cases h
      exact .same
    next hopen =>
      obtain ⟨flags, hflags, h⟩ := bind_eq_ok.mp h
      cases h
      obtain ⟨rfl, hroom⟩ := tranFlagPut_eq hflags
      exact .finish htran (Bool.not_eq_true _ ▸ hopen) hcmd hroom
  · cases h
    exact .same

end

namespace Store

variable {cfg : Config} {cmd : Command} {store store' : Store} {session session' : Session} {reply : Reply}

theorem scan_step {t : Relation} {i : Nat} {act : Tran → Row → Row} {cond : Option Where}
    (hts : store.trans.Plain) (h : store.scan cfg session t i act cond = .ok (store', session', reply)) :
    TranStep cfg cmd store.trans session store'.trans session' := by
  unfold scan at h
  split at h
  · cases h
    exact .same
  · obtain ⟨⟨ts, session₁, status⟩, hput, h⟩ := bind_eq_ok.mp h
    have hstep : TranStep cfg cmd store.trans session ts session₁ := putTranIfNone_step hts hput
    dsimp only at h
    split at h
    · split at h
      · cases h
      · obtain ⟨scan, -, h⟩ := bind_eq_ok.mp h
        cases h
        exact hstep
    · cases h
    · cases h
      exact hstep

theorem insert_step {schema table : List UInt8} {names : List (List UInt8)} {values : List Datum}
    {leftover : Option Tran} (hts : store.trans.Plain)
    (h : store.insert cfg session schema table names values leftover = .ok (store', session', reply)) :
    TranStep cfg cmd store.trans session store'.trans session' := by
  unfold insert at h
  split at h
  · obtain ⟨-, -, h⟩ := bind_eq_ok.mp h
    cases h
    exact .same
  · obtain ⟨mesh, -, h⟩ := bind_eq_ok.mp h
    obtain ⟨-, -, h⟩ := bind_eq_ok.mp h
    obtain ⟨⟨ts, session₁, status⟩, hput, h⟩ := bind_eq_ok.mp h
    have hstep : TranStep cfg cmd store.trans session ts session₁ := putTranIfNone_step hts hput
    dsimp only at h
    split at h
    · split at h
      · cases h
        exact hstep
      · obtain ⟨⟨mesh', status', n⟩, -, h⟩ := bind_eq_ok.mp h
        cases h
        exact hstep
    · cases h
    · cases h
      exact hstep

/-- What a command does to the transactions. -/
theorem run_step (hts : store.trans.Plain) (h : store.run cfg session cmd = .ok (store', session', reply)) :
    TranStep cfg cmd store.trans session store'.trans session' := by
  cases cmd with
  | start =>
      obtain ⟨⟨ts, session₁, status⟩, hstart, h⟩ := bind_eq_ok.mp h
      cases h
      exact tclStart_step hts hstart
  | commit =>
      obtain ⟨⟨ts, session₁, status⟩, hcommit, h⟩ := bind_eq_ok.mp h
      cases h
      exact tclFinish_step (Or.inl rfl) hcommit
  | rollback =>
      obtain ⟨⟨ts, session₁, status⟩, hrollback, h⟩ := bind_eq_ok.mp h
      cases h
      exact tclFinish_step (Or.inr rfl) hrollback
  | insert schema table names values leftover => exact insert_step hts h
  | delete schema table cond =>
      rw [run, delete] at h
      split at h
      · cases h
        exact .same
      · exact scan_step hts h
  | select schema table names cond =>
      rw [run, select] at h
      split at h
      · cases h
        exact .same
      · split at h
        · cases h
          exact .same
        · exact scan_step hts h

end Store

/-! ### Catalogs -/

namespace TranState

/-- The index of the catalog whose sequence a session draws from. -/
def catalogIndex (ts : TranState) (session : Session) : Option Nat := (ts.catalogRow session).map Prod.snd

/-- The number of ids that the sequence of a catalog has given out. -/
def issued (ts : TranState) (i : Nat) : Nat :=
  ((ts.catalog.rows[i]?.bind CatalogRow.tranSequence).map Sequence.issued).getD 0

variable {ts : TranState} {session session' : Session} {row : CatalogRow} {i : Nat} {sequence : Sequence}

theorem issued_eq (hrow : ts.catalog.rows[i]? = some row) (hsequence : row.tranSequence = some sequence) :
    ts.issued i = sequence.issued := by
  rw [issued, hrow, Option.bind_some, hsequence]
  rfl

theorem catalogIndex_congr {ts' : TranState}
    (hnames : ts'.catalog.rows.map CatalogRow.name = ts.catalog.rows.map CatalogRow.name)
    (hcatalog : session'.catalog = session.catalog) : ts'.catalogIndex session' = ts.catalogIndex session := by
  have hindex (ts : TranState) (session : Session) : ts.catalogIndex session
      = (((ts.catalog.rows.map CatalogRow.name).zipIdx.find? fun (name, _) =>
        eqCharacter name (session.catalog.getD [])).map Prod.snd) := by
    rw [catalogIndex, catalogRow, List.zipIdx_map, List.find?_map, Option.map_map]
    rfl
  rw [hindex, hindex, hnames, hcatalog]

theorem names_setCatalogRow {row' : CatalogRow} (hrow : ts.catalog.rows[i]? = some row)
    (hname : row'.name = row.name) :
    (ts.setCatalogRow i row').catalog.rows.map CatalogRow.name = ts.catalog.rows.map CatalogRow.name := by
  obtain ⟨hlt, hget⟩ := List.getElem?_eq_some_iff.mp hrow
  change (ts.catalog.rows.set i row').map CatalogRow.name = _
  rw [List.map_set, hname, ← hget]
  ext1 j
  rw [List.getElem?_set]
  split
  next hij =>
    subst hij
    simp [hlt]
  · rfl

end TranState

theorem TranStep.catalogIndex_eq {cfg : Config} {cmd : Command} {ts ts' : TranState} {session session' : Session}
    (h : TranStep cfg cmd ts session ts' session') (other : Session) :
    ts'.catalogIndex other = ts.catalogIndex other := by
  cases h with
  | same => rfl
  | begin hrow hsequence hnext hopen hroom =>
      exact TranState.catalogIndex_congr (TranState.names_setCatalogRow (catalogRow_eq_some hrow) rfl) rfl
  | finish htran hopen hcmd hroom => rfl

/-! ### All sessions of one catalog -/

/-- All sessions draw their ids from one catalog: the current ids are different from each other, and only ids that
were given out have their flag set. -/
structure Tracked (cfg : Config) (i : Nat) (ts : TranState) (sessions : Nat → Session) : Prop where
  plain : ts.Plain
  catalog : ∀ sid j, ts.catalogIndex (sessions sid) = some j → j = i
  keys : ∀ sid tran, (sessions sid).tran = some tran → 0 < tran.key ∧ tran.key.toInt ≤ ts.issued i
  apart : ∀ sid sid' tran tran', (sessions sid).tran = some tran → (sessions sid').tran = some tran' →
    tran.key = tran'.key → sid = sid'
  committed : ∀ tid, ts.flags tid = .commited → 0 < tid ∧ tid.toInt ≤ ts.issued i ∧ tid.toInt < cfg.tranCapacity
  flags : ∀ sid tran, (sessions sid).tran = some tran →
    ts.flags tran.key = if tran.autocommit then .commited else .aborted

namespace Tracked

variable {cfg : Config} {cmd : Command} {i : Nat} {ts ts' : TranState} {sessions : Nat → Session} {sid : Nat}
  {session' : Session}

theorem catalogIndex_update (hstep : TranStep cfg cmd ts (sessions sid) ts' session') (sid' : Nat) :
    ts'.catalogIndex (Function.update sessions sid session' sid') = ts.catalogIndex (sessions sid') := by
  rw [hstep.catalogIndex_eq]
  by_cases hsid : sid' = sid
  · subst hsid
    rw [Function.update_self]
    exact TranState.catalogIndex_congr rfl hstep.catalog_eq
  · rw [Function.update_of_ne hsid]

/-- An id that was not given out has no flag. -/
theorem aborted_of_lt (h : Tracked cfg i ts sessions) {tid : Int64} (hlt : ts.issued i < tid.toInt) :
    ts.flags tid = .aborted := by
  cases hflag : ts.flags tid with
  | aborted => rfl
  | commited =>
      have hle := (h.committed tid hflag).2.1
      omega

/-- `tran_put` gives out the next id. -/
theorem of_begin (h : Tracked cfg i ts sessions) {row : CatalogRow} {j : Nat} {sequence sequence' : Sequence}
    {tid : Int64} (hrow : ts.catalogRow (sessions sid) = some (row, j)) (hsequence : row.tranSequence = some sequence)
    (hnext : sequenceNextval cfg.build sequence = .ok (some (sequence', tid))) :
    j = i ∧ sequence'.Plain ∧ tid.toInt = (ts.issued i + 1 : Nat)
      ∧ (ts.setCatalogRow j { row with tranSequence := some sequence' }).issued i = ts.issued i + 1 := by
  have hget := catalogRow_eq_some hrow
  obtain rfl : j = i := by
    refine h.catalog sid j ?_
    rw [TranState.catalogIndex, hrow]
    rfl
  obtain ⟨sequence₁, v, heq, hplain, hissued, hv⟩ :=
    (h.plain row (List.mem_of_getElem? hget) sequence hsequence).nextval hnext
  cases heq
  have hold := TranState.issued_eq hget hsequence
  have hlt := (List.getElem?_eq_some_iff.mp hget).1
  refine ⟨rfl, hplain, ?_, ?_⟩
  · rw [hv, hold]
  · rw [hold, ← hissued]
    have hset : (ts.setCatalogRow j { row with tranSequence := some sequence' }).catalog.rows[j]?
        = some { row with tranSequence := some sequence' } := List.getElem?_set_self hlt
    exact TranState.issued_eq hset rfl

theorem step (h : Tracked cfg i ts sessions) (hstep : TranStep cfg cmd ts (sessions sid) ts' session') :
    Tracked cfg i ts' (Function.update sessions sid session') ∧ ts.issued i ≤ ts'.issued i := by
  have hcatalog : ∀ sid' j, ts'.catalogIndex (Function.update sessions sid session' sid') = some j → j = i := by
    intro sid' j hj
    rw [catalogIndex_update hstep] at hj
    exact h.catalog sid' j hj
  cases hstep with
  | same =>
      rw [Function.update_eq_self]
      exact ⟨h, Nat.le_refl _⟩
  | @begin row j sequence sequence' tid autocommit hrow hsequence hnext hopen hroom =>
      obtain ⟨rfl, hplain, htid, hissued⟩ := h.of_begin hrow hsequence hnext
      have hpos : 0 < tid := by
        rw [Int64.lt_iff_toInt_lt, htid]
        exact Int.natCast_pos.mpr (Nat.succ_pos _)
      -- the keys that are in use are smaller than the new one
      have hne : ∀ sid' tran, (sessions sid').tran = some tran → tran.key ≠ tid := by
        intro sid' tran htran heq
        have hle := (h.keys sid' tran htran).2
        rw [heq, htid] at hle
        omega
      have hold : ∀ tid' : Int64, tid' ≠ tid →
          (if autocommit then Function.update ts.flags tid .commited else ts.flags) tid' = ts.flags tid' := by
        intro tid' hne
        cases autocommit with
        | true => exact Function.update_of_ne hne _ _
        | false => rfl
      have hnew : ∀ n : Int, n ≤ (ts.issued j + 1 : Nat) →
          n ≤ (ts.setCatalogRow j { row with tranSequence := some sequence' }).issued j := by
        intro n hn
        rw [hissued]
        exact hn
      refine ⟨⟨?_, hcatalog, ?_, ?_, ?_, ?_⟩, ?_⟩
      · exact h.plain.setCatalogRow fun s hs => Option.some.inj hs ▸ hplain
      · intro sid' tran htran
        by_cases hsid : sid' = sid
        · subst hsid
          rw [Function.update_self] at htran
          cases htran
          exact ⟨hpos, hnew _ (Int.le_of_eq htid)⟩
        · rw [Function.update_of_ne hsid] at htran
          obtain ⟨hkey, hle⟩ := h.keys sid' tran htran
          exact ⟨hkey, hnew _ (by omega)⟩
      · intro sid₁ sid₂ tran₁ tran₂ h₁ h₂ heq
        by_cases hsid₁ : sid₁ = sid
        · subst hsid₁
          rw [Function.update_self] at h₁
          cases h₁
          by_contra hsid₂
          rw [Function.update_of_ne fun heq => hsid₂ heq.symm] at h₂
          exact hne sid₂ tran₂ h₂ heq.symm
        · rw [Function.update_of_ne hsid₁] at h₁
          by_cases hsid₂ : sid₂ = sid
          · subst hsid₂
            rw [Function.update_self] at h₂
            cases h₂
            exact absurd heq (hne sid₁ tran₁ h₁)
          · rw [Function.update_of_ne hsid₂] at h₂
            exact h.apart sid₁ sid₂ tran₁ tran₂ h₁ h₂ heq
      · intro tid' hflag
        by_cases heq : tid' = tid
        · subst heq
          cases autocommit with
          | true => exact ⟨hpos, hnew _ (Int.le_of_eq htid), hroom rfl⟩
          | false =>
              have haborted : ts.flags tid' = .aborted := h.aborted_of_lt (by omega)
              exact absurd (haborted.symm.trans hflag) (by decide)
        · have hflag' := (hold tid' heq).symm.trans hflag
          obtain ⟨hkey, hle, hcapacity⟩ := h.committed tid' hflag'
          exact ⟨hkey, hnew _ (by omega), hcapacity⟩
      · intro sid' tran htran
        by_cases hsid : sid' = sid
        · subst hsid
          rw [Function.update_self] at htran
          cases htran
          cases autocommit with
          | true => exact Function.update_self _ _ _
          | false =>
              refine h.aborted_of_lt ?_
              rw [htid]
              omega
        · rw [Function.update_of_ne hsid] at htran
          exact (hold tran.key (hne sid' tran htran)).trans (h.flags sid' tran htran)
      · exact Int.ofNat_le.mp (hnew _ (by omega))
  | @finish tran flag htran hopen hcmd hroom =>
      have hother : ∀ sid' tran', (Function.update sessions sid { sessions sid with tran := none } sid').tran
          = some tran' → sid' ≠ sid ∧ (sessions sid').tran = some tran' := by
        intro sid' tran' htran'
        by_cases hsid : sid' = sid
        · subst hsid
          rw [Function.update_self] at htran'
          cases htran'
        · rw [Function.update_of_ne hsid] at htran'
          exact ⟨hsid, htran'⟩
      refine ⟨⟨h.plain, hcatalog, ?_, ?_, ?_, ?_⟩, Nat.le_refl _⟩
      · intro sid' tran' htran'
        exact h.keys sid' tran' (hother sid' tran' htran').2
      · intro sid₁ sid₂ tran₁ tran₂ h₁ h₂ heq
        exact h.apart sid₁ sid₂ tran₁ tran₂ (hother sid₁ tran₁ h₁).2 (hother sid₂ tran₂ h₂).2 heq
      · intro tid hflag
        by_cases heq : tid = tran.key
        · rw [heq]
          exact ⟨(h.keys sid tran htran).1, (h.keys sid tran htran).2, hroom⟩
        · exact h.committed tid ((Function.update_of_ne heq _ _).symm.trans hflag)
      · intro sid' tran' htran'
        obtain ⟨hsid, htran'⟩ := hother sid' tran' htran'
        have hkey : tran'.key ≠ tran.key := fun heq => hsid (h.apart sid' sid tran' tran htran' htran heq)
        exact (Function.update_of_ne hkey _ _).trans (h.flags sid' tran' htran')

/-- What was committed stays so. -/
theorem committed_stays (h : Tracked cfg i ts sessions) (hstep : TranStep cfg cmd ts (sessions sid) ts' session')
    {tid : Int64} (hflag : ts.flags tid = .commited) : ts'.flags tid = .commited := by
  cases hstep with
  | same => exact hflag
  | @begin row j sequence sequence' tid' autocommit hrow hsequence hnext hopen hroom =>
      cases autocommit with
      | false => exact hflag
      | true =>
          show Function.update ts.flags tid' TranFlag.commited tid = .commited
          rw [Function.update_apply, hflag, ite_self]
  | @finish tran flag htran hopen hcmd hroom =>
      have hkey : tid ≠ tran.key := by
        rintro rfl
        have haborted := h.flags sid tran htran
        rw [hopen, if_neg Bool.false_ne_true, hflag] at haborted
        cases haborted
      exact (Function.update_of_ne hkey _ _).trans hflag

/-- What is current after a command was so before, or its id is new. -/
theorem current_or_new (h : Tracked cfg i ts sessions) (hstep : TranStep cfg cmd ts (sessions sid) ts' session')
    {sid' : Nat} {tran : Tran} (htran : (Function.update sessions sid session' sid').tran = some tran) :
    (sessions sid').tran = some tran ∨ ts.issued i < tran.key.toInt := by
  by_cases hsid : sid' = sid
  · subst hsid
    rw [Function.update_self] at htran
    cases hstep with
    | same => exact Or.inl htran
    | @begin row j sequence sequence' tid autocommit hrow hsequence hnext hopen hroom =>
        obtain ⟨rfl, -, htid, -⟩ := h.of_begin hrow hsequence hnext
        cases htran
        right
        show (ts.issued j : Int) < tid.toInt
        omega
    | finish htran' hopen hcmd hroom => cases htran
  · rw [Function.update_of_ne hsid] at htran
    exact Or.inl htran

/-- The flag of an id stays unset, but for a `COMMIT`. -/
theorem aborted_stays (h : Tracked cfg i ts sessions) (hstep : TranStep cfg cmd ts (sessions sid) ts' session')
    {tid : Int64} (hissued : tid.toInt ≤ ts.issued i) (hflag : ts.flags tid = .aborted)
    (hcommit : cmd = .commit → (sessions sid).tran ≠ some ⟨tid, false⟩) : ts'.flags tid = .aborted := by
  cases hstep with
  | same => exact hflag
  | @begin row j sequence sequence' tid' autocommit hrow hsequence hnext hopen hroom =>
      obtain ⟨rfl, -, htid, -⟩ := h.of_begin hrow hsequence hnext
      have hne : tid ≠ tid' := by
        rintro rfl
        omega
      cases autocommit with
      | false => exact hflag
      | true => exact (Function.update_of_ne hne _ _).trans hflag
  | @finish tran flag htran hopen hcmd hroom =>
      by_cases hkey : tid = tran.key
      · subst hkey
        obtain ⟨key, autocommit⟩ := tran
        obtain rfl : autocommit = false := hopen
        obtain rfl : flag = .aborted := hcmd.resolve_left fun heq => hcommit heq htran
        exact Function.update_self _ _ _
      · exact (Function.update_of_ne hkey _ _).trans hflag

end Tracked

end Scroller
