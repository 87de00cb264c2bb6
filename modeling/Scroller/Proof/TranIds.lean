import Scroller.Lib.Outcome
import Scroller.Proof.Ids
import Scroller.Tcl

/-!
# Ids of transactions

A transaction has a positive id, the next one of the sequence of its catalog.
-/

namespace Scroller

open Outcome

/-- The faults other than a failed assertion and a dereferenced `NULL`. -/
def Fault.Tolerated (fault : Fault) : Prop := fault ≠ .assertion ∧ fault ≠ .nullPointer

/-- The next value of a sequence. -/
def Sequence.next (s : Sequence) : Int64 := if s.isCalled = 0 then s.lastVal else s.lastVal + s.increment

/-- The id of the next transaction of a session: its catalog has to be in `catalog` with a sequence. -/
def Session.nextKey (session : Session) (ts : TranState) : Option Int64 := do
  let (row, _) ← ts.catalogRow session
  let sequence ← row.tranSequence
  return sequence.next

/-- The id of the transaction that a command of the session runs in. -/
def Session.key (session : Session) (ts : TranState) : Option Int64 :=
  match session.tran with
  | some tran => some tran.key
  | none => session.nextKey ts

/-- The sequences of the catalogs count. -/
def TranState.Plain (ts : TranState) : Prop :=
  ∀ row ∈ ts.catalog.rows, ∀ s, row.tranSequence = some s → s.Plain

/-- The transaction of a session has a positive id. -/
def Session.Positive (session : Session) : Prop := ∀ tran, session.tran = some tran → 0 < tran.key

namespace Sequence

variable {cfg : Config} {F : Fault → Prop} (hF : ∀ f, f.Tolerated → F f)
include hF

theorem nextval_faults {s : Sequence} (hs : s.Plain) :
    Ensures (fun _ => True) F (sequenceNextval cfg.build s) := by
  have hne : s.increment ≠ 0 := by
    rw [hs.increment]
    decide
  have hadd : Ensures (fun _ => True) F (addInt64 s.lastVal s.increment) :=
    Ensures.ite (fun _ => True.intro) fun _ => hF _ ⟨nofun, nofun⟩
  have hreturn (p : Prop) [Decidable p] (a b : Option (Sequence × Int64)) :
      Ensures (fun _ => True) F (if p then (pure a : Except Fault _) else pure b) :=
    Ensures.ite (fun _ => True.intro) fun _ => True.intro
  unfold sequenceNextval
  rw [Build.assert_of _ hne]
  apply Ensures.ite
  · intro _
    apply hadd.bind
    intro newval _
    apply Ensures.ite
    · exact fun _ => Ensures.ite (fun _ => hreturn _ _ _) fun _ => True.intro
    · exact fun _ => Ensures.ite (fun _ => hreturn _ _ _) fun _ => True.intro
  · exact fun _ => True.intro

theorem nextval_ensures {s : Sequence} (hs : s.Plain) :
    Ensures (fun out => ∃ s', out = some (s', s.next) ∧ s'.Plain ∧ s'.issued = s.issued + 1
        ∧ s.next.toInt = (s.issued + 1 : Nat)) F (sequenceNextval cfg.build s) := by
  have hvalue : ∀ s' v, sequenceNextval cfg.build s = .ok (some (s', v)) → v = s.next := by
    intro s' v h
    obtain ⟨-, -, h⟩ := bind_eq_ok.mp h
    unfold next
    by_cases hcalled : s.isCalled = 0
    · rw [if_neg (not_not.mpr hcalled)] at h
      rw [if_pos hcalled]
      cases h
      rfl
    · rw [if_pos hcalled] at h
      rw [if_neg hcalled]
      obtain ⟨newval, hnew, h⟩ := bind_eq_ok.mp h
      obtain ⟨rfl, hsum⟩ := addInt64_eq_ok.mp hnew
      have hpos : s.increment > 0 := by
        rw [hs.increment]
        decide
      have hle : ¬ s.lastVal + s.increment > s.maxVal := by
        rw [hs.maxVal]
        intro hgt
        have := Int64.lt_iff_toInt_lt.mp hgt
        have := toInt_le_max (s.lastVal + s.increment)
        omega
      rw [if_pos hpos, if_neg hle] at h
      cases h
      rfl
  cases hnext : sequenceNextval cfg.build s with
  | ok out =>
      obtain ⟨s', v, rfl, hplain, hissued, hv⟩ := hs.nextval hnext
      have hv' := hvalue s' v hnext
      subst hv'
      exact ensures_ok ⟨s', rfl, hplain, hissued, hv⟩
  | error fault => exact ensures_error ((nextval_faults hF hs).of_error hnext)

end Sequence

theorem Sequence.next_pos {s : Sequence} (h : s.next.toInt = (s.issued + 1 : Nat)) : 0 < s.next := by
  rw [Int64.lt_iff_toInt_lt, h]
  exact Int.natCast_pos.mpr (Nat.succ_pos _)

section

variable {cfg : Config} {F : Fault → Prop} (hF : ∀ f, f.Tolerated → F f)
  {ts : TranState} {session : Session}

theorem catalogRow_eq_some {row : CatalogRow} {i : Nat} (h : ts.catalogRow session = some (row, i)) :
    ts.catalog.rows[i]? = some row := by
  have hmem := List.mem_of_find?_eq_some h
  exact List.mem_zipIdx_iff_getElem?.mp hmem

theorem TranState.Plain.setCatalogRow (h : ts.Plain) {i : Nat} {row : CatalogRow}
    (hrow : ∀ s, row.tranSequence = some s → s.Plain) : (ts.setCatalogRow i row).Plain := by
  intro row' hmem
  rcases List.mem_or_eq_of_mem_set hmem with hmem | rfl
  · exact h row' hmem
  · exact hrow

include hF

theorem tranFlagPut_ensures {flags : Int64 → TranFlag} {tid : Int64} (htid : 0 < tid) (flag : TranFlag) :
    Ensures (fun _ => True) F (tranFlagPut cfg flags tid flag) := by
  unfold tranFlagPut
  rw [Build.assert_of _ htid]
  apply Ensures.ite
  · exact fun _ => trivial
  · exact fun _ => hF _ ⟨nofun, nofun⟩

/-- What `tran_put` does, if the catalog of the session is known or a failed assertion is allowed. -/
theorem tranPut_ensures (hts : ts.Plain)
    (hcatalog : F .assertion ∨ (cfg.build = .debug → session.nextKey ts ≠ none)) (autocommit : Bool) :
    Ensures (fun r => r.1.Plain ∧ r.2.1.Positive ∧ (r.2.2 = .ok →
        ∃ tran, r.2.1.tran = some tran ∧ session.nextKey ts = some tran.key))
      F (tranPut cfg ts session autocommit) := by
  have hunknown (hnone : session.nextKey ts = none) {Q : TranState × Session × ScrcStatus → Prop} :
      Ensures Q F (do
        cfg.build.assert False
        .error .outOfBounds) := by
    cases hbuild : cfg.build with
    | debug =>
        rcases hcatalog with hassert | hknown
        · exact hassert
        · exact absurd hnone (hknown hbuild)
    | release => exact hF _ ⟨nofun, nofun⟩
  unfold tranPut
  split
  · rename_i hrow
    apply hunknown
    unfold Session.nextKey
    rw [hrow]
    rfl
  · rename_i row i hrow
    split
    · rename_i hsequence
      apply hunknown
      unfold Session.nextKey
      rw [hrow]
      dsimp only [bind, Option.bind]
      rw [hsequence]
    · rename_i sequence hsequence
      have hplain : sequence.Plain :=
        hts row (List.mem_of_getElem? (catalogRow_eq_some hrow)) sequence hsequence
      have hkey : session.nextKey ts = some sequence.next := by
        unfold Session.nextKey
        rw [hrow]
        dsimp only [bind, Option.bind]
        rw [hsequence]
        rfl
      apply (Sequence.nextval_ensures hF hplain).bind
      rintro out ⟨sequence', rfl, hplain', -, hvalue⟩
      have hpos := Sequence.next_pos hvalue
      dsimp only
      have hset : (ts.setCatalogRow i { row with tranSequence := some sequence' }).Plain := by
        apply hts.setCatalogRow
        intro s hs
        cases hs
        exact hplain'
      split
      · apply (tranFlagPut_ensures hF hpos .commited).bind_any
        intro flags _
        refine ensures_ok ⟨hset, ?_, fun _ => ⟨_, rfl, hkey⟩⟩
        intro tran htran
        cases htran
        exact hpos
      · refine ensures_ok ⟨hset, ?_, fun _ => ⟨_, rfl, hkey⟩⟩
        intro tran htran
        cases htran
        exact hpos

end

end Scroller
