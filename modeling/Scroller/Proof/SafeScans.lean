import Scroller.Proof.ScanFaults

/-!
# Safe expressions

While a command goes over the rows of a scanned mesh, neither the tokens of its loop nor its expressions nor
what it does with a row fails an assertion or dereferences `NULL`.
-/

namespace Scroller.Execute

open Outcome

/-! ### Expressions -/

/-- The types that data in expressions have. -/
def Known (d : Datum) : Prop := d.type ≠ .unknown

def Stop.Tolerated (e : Stop) : Prop := ∀ fault, e = .fault fault → fault.Tolerated

theorem known_value (v : Hquery.Value) : Known v.datum := by
  cases v <;> exact nofun

theorem known_bigint (v : Int64) : Known (makeBigint v) := nofun

/-- A call of a function of `type.c` from an action. -/
theorem call_ensures {α : Type} {Q : α → Prop} {x : Except Fault α} (hx : Ensures Q Fault.Tolerated x) :
    Ensures Q Stop.Tolerated (call x) := by
  refine hx.mapError fun fault h fault' heq => ?_
  cases heq
  exact h

theorem check_ensures {α : Type} {Q : α → Prop} {b : Bool} {x : Except Stop α}
    (hx : b = true → Ensures Q Stop.Tolerated x) :
    Ensures Q Stop.Tolerated (check b >>= fun _ => x) := by
  cases b with
  | true => exact hx rfl
  | false => exact fun _ heq => nomatch heq

section Operators

variable {build : Build}

theorem datumZeroed_ensures {d : Datum} (hd : Known d) :
    Ensures (fun _ => True) Fault.Tolerated (datumZeroed build d) := by
  unfold datumZeroed
  split
  · exact absurd ‹_› hd
  · exact True.intro
  · exact True.intro
  · exact True.intro
  · exact True.intro
  · exact True.intro
  · exact True.intro

theorem cmpData_ensures {d1 d2 : Datum} (hcmp : dataComparable d1 d2 = true) :
    Ensures (fun _ => True) Fault.Tolerated (cmpData build d1 d2) := by
  have hgroup : d1.type.group = d2.type.group ∧ d1.type.group ≠ .unknown := of_decide_eq_true hcmp
  unfold cmpData
  rw [if_pos hcmp]
  split
  · exact absurd ‹_› hgroup.2
  · unfold Datum.cmpInteger subInt64
    apply Ensures.bind (Q := fun _ => True)
    · exact Ensures.ite (fun _ => True.intro) fun _ => ⟨nofun, nofun⟩
    · exact fun _ _ => True.intro
  · exact True.intro

theorem dataComparable_of_arithmetical {d1 d2 : Datum} (h : dataArithmetical d1 d2 = true) :
    dataComparable d1 d2 = true := by
  have hgroups : d1.type.group = .integer ∧ d2.type.group = .integer := of_decide_eq_true h
  apply decide_eq_true
  rw [hgroups.1, hgroups.2]
  exact ⟨rfl, nofun⟩

theorem calcData_ensures {f : Int64 → Int64 → Except Fault Int64} {d1 d2 : Datum}
    (hf : ∀ a b, Ensures (fun _ => True) Fault.Tolerated (f a b))
    (h : dataArithmetical d1 d2 = true) : Ensures Known Fault.Tolerated (calcData build f d1 d2) := by
  have hgroups : d1.type.group = .integer ∧ d2.type.group = .integer := of_decide_eq_true h
  unfold calcData
  rw [if_pos (dataComparable_of_arithmetical h), hgroups.1]
  apply (hf _ _).bind
  intro v _
  exact ensures_ok (known_bigint v)

theorem addInt64_ensures (a b : Int64) : Ensures (fun _ => True) Fault.Tolerated (addInt64 a b) :=
  Ensures.ite (fun _ => True.intro) fun _ => ⟨nofun, nofun⟩

theorem subInt64_ensures (a b : Int64) : Ensures (fun _ => True) Fault.Tolerated (subInt64 a b) :=
  Ensures.ite (fun _ => True.intro) fun _ => ⟨nofun, nofun⟩

theorem mulInt64_ensures (a b : Int64) : Ensures (fun _ => True) Fault.Tolerated (mulInt64 a b) :=
  Ensures.ite (fun _ => True.intro) fun _ => ⟨nofun, nofun⟩

theorem divInt64_ensures (a b : Int64) : Ensures (fun _ => True) Fault.Tolerated (divInt64 a b) :=
  Ensures.ite (fun _ => ⟨nofun, nofun⟩) fun _ =>
    Ensures.ite (fun _ => True.intro) fun _ => ⟨nofun, nofun⟩

theorem modInt64_ensures (a b : Int64) : Ensures (fun _ => True) Fault.Tolerated (modInt64 a b) :=
  Ensures.ite (fun _ => ⟨nofun, nofun⟩) fun _ =>
    Ensures.ite (fun _ => True.intro) fun _ => ⟨nofun, nofun⟩

theorem likeLoop_ensures (k : Nat) (src pattern : List UInt8) (star : Option (List UInt8 × List UInt8)) :
    Ensures (fun _ => True) Fault.Tolerated (likeLoop k src pattern star) := by
  induction k generalizing src pattern star with
  | zero => exact ⟨nofun, nofun⟩
  | succ k ih =>
      cases src with
      | nil => exact True.intro
      | cons c src =>
          rw [likeLoop.eq_def]
          apply Ensures.ite
          · exact fun _ => ih _ _ _
          · intro _
            apply Ensures.ite
            · exact fun _ => ih _ _ _
            · intro _
              split
              · exact ih _ _ _
              · exact True.intro

theorem likeData_ensures {d1 d2 : Datum} (h : dataLexical d1 d2 = true) :
    Ensures (fun _ => True) Fault.Tolerated (likeData build d1 d2) := by
  unfold likeData
  rw [Build.assert_of _ h]
  exact likeLoop_ensures _ _ _ _

theorem catData_ensures {d1 d2 : Datum} (h : dataLexical d1 d2 = true) :
    Ensures Known Fault.Tolerated (catData build d1 d2) := by
  unfold catData
  rw [if_pos h]
  exact ensures_ok (show Known (makeChar _) from nofun)

/-! ### Actions -/

theorem cmpAction_ensures (op : CmpOp) (d1 d2 : Datum) :
    Ensures (fun _ => True) Stop.Tolerated (cmpAction build op d1 d2) := by
  apply check_ensures
  intro h
  exact (call_ensures (cmpData_ensures h)).bind fun _ _ => True.intro

theorem likeAction_ensures (d1 d2 : Datum) :
    Ensures (fun _ => True) Stop.Tolerated (likeAction build d1 d2) := by
  apply check_ensures
  intro h
  exact (call_ensures (likeData_ensures h)).bind fun _ _ => True.intro

theorem findEqual_ensures (d : Datum) (vs : List Datum) :
    Ensures (fun _ => True) Stop.Tolerated (findEqual build d vs) := by
  induction vs with
  | nil => exact True.intro
  | cons v vs ih =>
      rw [findEqual]
      apply check_ensures
      intro h
      apply (call_ensures (cmpData_ensures h)).bind
      intro cmp _
      apply Ensures.ite
      · exact fun _ => True.intro
      · exact fun _ => ih

theorem betweenAction_ensures (x a b : Datum) :
    Ensures (fun _ => True) Stop.Tolerated (betweenAction build x a b) := by
  apply check_ensures
  intro hlow
  apply check_ensures
  intro hhigh
  have hbetween : Ensures (fun _ => True) Fault.Tolerated (betweenData build x a b) := by
    apply (cmpData_ensures (dataComparable_of_arithmetical hlow)).bind
    intro low _
    apply Ensures.ite
    · intro _
      apply (cmpData_ensures (dataComparable_of_arithmetical hhigh)).bind
      exact fun _ _ => True.intro
    · exact fun _ => True.intro
  exact (call_ensures hbetween).bind fun _ _ => True.intro

theorem additiveAction_ensures (op : AdditiveOp) (d1 d2 : Datum) :
    Ensures Known Stop.Tolerated (additiveAction build op d1 d2) := by
  cases op with
  | add => exact check_ensures fun h => call_ensures (calcData_ensures addInt64_ensures h)
  | sub => exact check_ensures fun h => call_ensures (calcData_ensures subInt64_ensures h)
  | concat => exact check_ensures fun h => call_ensures (catData_ensures h)

theorem multiplicativeAction_ensures (op : MultiplicativeOp) (d1 d2 : Datum) :
    Ensures Known Stop.Tolerated (multiplicativeAction build op d1 d2) := by
  cases op with
  | mul => exact check_ensures fun h => call_ensures (calcData_ensures mulInt64_ensures h)
  | div => exact check_ensures fun h => call_ensures (calcData_ensures divInt64_ensures h)
  | mod =>
      apply check_ensures
      intro h
      have harith : dataArithmetical d1 d2 = true := by
        rw [Bool.and_eq_true, decide_eq_true_eq, decide_eq_true_eq] at h
        exact decide_eq_true h
      exact call_ensures (calcData_ensures modInt64_ensures harith)

end Operators

/-! ### The loop tokens -/

/-- The loop of a bytecode goes from one token to another one, if there is one. -/
structure HasLoop (tokens : List BcNode) (first last : Nat) : Prop where
  lt : first < last
  loopBegin : ∀ i integer, tokens[i]? = some (.loopBegin integer) → i = first ∧ integer = last + 1
  loopEnd : ∀ i integer, tokens[i]? = some (.loopEnd integer) → i = last
  first : ∀ x, tokens[first]? = some x → isLoop x = true

section Lexer

variable {cfg : Config} {fuel : Nat} {db : Db} {tokens : List BcNode} {first last : Nat}

/-- Without an iterator the lexer is not between the loop tokens. -/
def Outside (first last : Nat) (bc : BcItor) : Prop :=
  bc.titor = none → bc.itor ≤ first ∨ last < bc.itor

theorem deliver_ensures {Q : BcItor × Option BcNode → Prop} {bc : BcItor} {i : Nat}
    (hQ : ∀ x, tokens[i]? = some x →
      Q ({ bc with itor := i + 1, delivered := bc.delivered ++ [x] }, some x)) :
    Ensures Q Stop.Tolerated (bc.deliver tokens i) := by
  unfold BcItor.deliver
  split
  · intro fault heq
    cases heq
    exact ⟨nofun, nofun⟩
  · exact ensures_ok (hQ _ ‹_›)

theorem deliverOrEnd_ensures {Q : BcItor × Option BcNode → Prop} {bc : BcItor} {i : Nat}
    (hend : Q ({ bc with itor := i }, none))
    (hQ : ∀ x, tokens[i]? = some x →
      Q ({ bc with itor := i + 1, delivered := bc.delivered ++ [x] }, some x)) :
    Ensures Q Stop.Tolerated (bc.deliverOrEnd tokens i) :=
  Ensures.ite (fun _ => ensures_ok hend) fun _ => deliver_ensures hQ

/-- The lexer moves its iterator and stays out of the loop without one. -/
theorem y2lex_ensures {T : Option Titor → Prop} {bc : BcItor} (hloop : HasLoop tokens first last)
    (hbc : Outside first last bc) (hT : T bc.titor)
    (hnext : ∀ t, T (some t) → Ensures (fun t' => T (some t')) Fault.Tolerated (titorNext cfg fuel db t)) :
    Ensures (fun r => (T r.1.titor ∧ Outside first last r.1) ∧ ∀ x, r.2 = some x → x ∈ tokens)
      Stop.Tolerated (BcItor.y2lex cfg fuel db tokens bc) := by
  have hmem {i : Nat} {x y : BcNode} (hx : tokens[i]? = some x) (hy : some x = some y) : y ∈ tokens := by
    cases hy
    exact List.mem_of_getElem? hx
  unfold BcItor.y2lex
  split
  · rename_i integer htoken
    obtain ⟨hfirst, rfl⟩ := hloop.loopBegin _ _ htoken
    split
    · rename_i hvalid
      have hsome : bc.titor ≠ none := by
        intro hnone
        rw [hnone] at hvalid
        cases hvalid
      refine deliverOrEnd_ensures ⟨⟨hT, fun hnone => absurd hnone hsome⟩, nofun⟩ fun x hx => ?_
      exact ⟨⟨hT, fun hnone => absurd hnone hsome⟩, fun y hy => hmem hx hy⟩
    · refine deliverOrEnd_ensures ⟨⟨hT, fun _ => Or.inr (Nat.lt_succ_self _)⟩, nofun⟩ fun x hx => ?_
      exact ⟨⟨hT, fun _ => Or.inr (by dsimp only; omega)⟩, fun y hy => hmem hx hy⟩
  · rename_i integer htoken
    have hlast := hloop.loopEnd _ _ htoken
    split
    · rename_i hnone
      have hlt := hloop.lt
      rcases hbc hnone with hle | hlt'
      · omega
      · omega
    · rename_i titor hsome
      rw [hsome] at hT
      apply (call_ensures (hnext titor hT)).bind
      intro titor' hT'
      split
      · refine deliver_ensures fun x hx => ?_
        exact ⟨⟨hT', fun hnone => nomatch hnone⟩, fun y hy => hmem hx hy⟩
      · refine deliverOrEnd_ensures ⟨⟨hT', fun hnone => nomatch hnone⟩, nofun⟩ fun x hx => ?_
        exact ⟨⟨hT', fun hnone => nomatch hnone⟩, fun y hy => hmem hx hy⟩
  · rename_i hbegin hend
    refine deliverOrEnd_ensures ⟨⟨hT, hbc⟩, nofun⟩ fun x hx => ?_
    refine ⟨⟨hT, fun hnone => ?_⟩, fun y hy => hmem hx hy⟩
    dsimp only
    rcases hbc hnone with hle | hlt
    · have hne : bc.itor ≠ first := by
        intro heq
        have hisLoop := hloop.first x (heq ▸ hx)
        cases x with
        | loopBegin integer => exact hbegin integer hx
        | loopEnd integer => exact hend integer hx
        | _ => cases hisLoop
      omega
    · omega

end Lexer

/-! ### Columns -/

section Columns

variable {cfg : Config} {fuel : Nat} {db : Db} {gp : GidPair} {header : Grid} {tran : Tran}

theorem findColumn_ensures {name : List UInt8} {k i : Nat}
    (hfits : cfg.build = .debug → header.occupied < header.rown) (hi : i ≤ header.occupied) :
    Ensures (fun found => ∀ j, found = some j → j < header.occupied) Fault.Tolerated
      (findColumn cfg.build header name k i) := by
  induction k generalizing i with
  | zero =>
      refine ensures_iff.mpr ⟨?_, ?_⟩
      · intro found h
        cases h
      · intro e h
        cases h
        exact ⟨by decide, by decide⟩
  | succ k ih =>
      have hassert : cfg.build = .debug → i < header.rown := fun h => Nat.lt_of_le_of_lt hi (hfits h)
      rw [findColumn]
      unfold hgridGetColumn
      rw [Build.assert_eq_ok.mpr hassert]
      dsimp only [bind, Except.bind]
      by_cases hlt : i < header.occupied
      · rw [if_pos hlt]
        apply Ensures.ite
        · intro _
          refine ensures_ok fun j hj => ?_
          cases hj
          exact hlt
        · exact fun _ => ih hlt
      · rw [if_neg hlt]
        refine ensures_ok ?_
        intro j hj
        cases hj

theorem getCell_ensures {build : Build} {c : Column} {cell : Cell} (hc : c.type.group ≠ .unknown) :
    Ensures Known Fault.Tolerated (getCell build c cell) := by
  have hunknown : c.type ≠ .unknown := by
    intro heq
    rw [heq] at hc
    exact hc rfl
  unfold getCell
  split
  · exact absurd (by rw [‹c.type = _›]; rfl) hc
  · exact absurd (by rw [‹c.type = _›]; rfl) hc
  all_goals exact ensures_ok hunknown

theorem value_ensures {titor : Option Titor} {d : Datum} (hd : Known d)
    (hfits : d.type = .name → cfg.build = .debug → header.occupied < header.rown)
    (htitor : ∀ t, titor = some t → db.Scanned cfg gp header tran ∧ db.OnMesh gp t.m) :
    Ensures Known Stop.Tolerated (valueAction (titorColumns cfg db titor) d) := by
  unfold valueAction
  apply Ensures.ite
  · intro hname
    have hcolumn : Ensures (fun column : Option Datum => ∀ d, column = some d → Known d) Fault.Tolerated
        (titorColumns cfg db titor d.character) := by
      unfold titorColumns
      split
      · exact ensures_ok fun d hd => nomatch hd
      · rename_i t
        obtain ⟨hscanned, hm⟩ := htitor t rfl
        apply Ensures.ite
        · intro hvalid
          unfold titorIsValid mitorIsValid at hvalid
          have hrow := (of_decide_eq_true (of_decide_eq_true hvalid).1).2.2
          dsimp only
          rw [hm.header, hscanned.found]
          apply (findColumn_ensures (hfits hname) (Nat.zero_le _)).bind
          intro found hfound
          split
          · exact ensures_ok fun d hd => nomatch hd
          · rename_i i
            have hi := hfound i rfl
            rw [hscanned.walked.getDatum hm hrow hi]
            apply (getCell_ensures (hscanned.page.types i hi)).bind
            intro d hd
            refine ensures_ok fun d' hd' => ?_
            cases hd'
            exact hd
        · exact fun _ => ensures_ok fun d hd => nomatch hd
    apply (call_ensures hcolumn).bind
    intro column hcolumn
    refine ensures_ok ?_
    cases column with
    | none => exact hd
    | some d' => exact hcolumn d' rfl
  · exact fun _ => ensures_ok hd

end Columns

/-! ### Contracts of a scan -/

theorem reduce_ensures {c : Contract} (hdatum : c.datum = Known) (hfault : c.fault = Fault.Tolerated)
    (build : Build) (columns : Columns) {n : Nonterminal} (r : Reduction Nonterminal.Value Datum n)
    (hr : r.Parts c.value c.datum) : Ensures c.value c.stop ((evalActions build columns).reduce r) := by
  have hstop : ∀ e, Stop.Tolerated e → c.stop e := by
    intro e he fault heq
    rw [hfault]
    exact he fault heq
  have htruth {x : Except Stop Int64} (hx : Ensures (fun _ => True) Stop.Tolerated x) :
      Ensures (@Contract.value c .cmp) c.stop x := hx.mono (fun _ _ => True.intro) hstop
  have hknown {x : Except Stop Datum} (hx : Ensures Known Stop.Tolerated x) : Ensures c.datum c.stop x := by
    rw [hdatum]
    exact hx.mono (fun _ h => h) hstop
  cases r with
  | orUnit e | andUnit e | notUnit e | or l r | and l r | not e => exact True.intro
  | cmpUnit e =>
      have hzeroed : Ensures (fun _ => True) Stop.Tolerated (call (datumZeroed build e)) := by
        apply call_ensures (datumZeroed_ensures ?_)
        rw [← hdatum]
        exact hr
      exact (hzeroed.mono (fun _ h => h) hstop).bind fun _ _ => True.intro
  | cmp op l r => exact htruth (cmpAction_ensures op l r)
  | like l r => exact htruth (likeAction_ensures l r)
  | isIn l v vs =>
      have hin : Ensures (fun _ => True) Stop.Tolerated (inAction build l (v :: vs)) :=
        (findEqual_ensures l (v :: vs)).bind fun _ _ => True.intro
      exact htruth hin
  | between x a b => exact htruth (betweenAction_ensures x a b)
  | notLike l r =>
      have hlike : Ensures (fun _ => True) Stop.Tolerated (notLikeAction build l r) := by
        apply check_ensures
        intro h
        exact (call_ensures (likeData_ensures h)).bind fun _ _ => True.intro
      exact htruth hlike
  | notIn l v vs =>
      have hin : Ensures (fun _ => True) Stop.Tolerated (notInAction build l (v :: vs)) :=
        (findEqual_ensures l (v :: vs)).bind fun _ _ => True.intro
      exact htruth hin
  | notBetween x a b => exact htruth (betweenAction_ensures x a b)
  | additiveUnit e | multiplicativeUnit e | value v => exact hr
  | additive op l r => exact hknown (additiveAction_ensures op l r)
  | multiplicative op l r => exact hknown (multiplicativeAction_ensures op l r)
  | paren e =>
      show c.datum (makeBigint e)
      rw [hdatum]
      exact known_bigint e

/-- A scan of a mesh. -/
def scanContract (cfg : Config) (gp : GidPair) (header : Grid) (tran : Tran) (first last : Nat) :
    Contract where
  state db session := db.Scanned cfg gp header tran ∧ session.tran = some tran
  titor db titor := ∀ t, titor = some t → t.tran = some tran ∧ db.OnMesh gp t.m
  lexer db bc := (∀ t, bc.titor = some t → t.tran = some tran ∧ db.OnMesh gp t.m) ∧ Outside first last bc
  token x := ∀ d, x = .datum d →
    Known d ∧ (d.type = .name → cfg.build = .debug → header.occupied < header.rown)
  datum := Known
  fault := Fault.Tolerated

/-- A command without an iterator. -/
def noScanContract (first last : Nat) : Contract where
  state _ _ := True
  titor _ titor := titor = none
  lexer _ bc := bc.titor = none ∧ Outside first last bc
  token x := ∀ d, x = .datum d → Known d
  datum := Known
  fault := Fault.Tolerated

section Kept

variable {cfg : Config} {fuel : Nat} {tokens : List BcNode} {first last : Nat}
  (hloop : HasLoop tokens first last)
include hloop

theorem scan_kept {gp : GidPair} {header : Grid} {tran : Tran}
    (htokens : ∀ d, BcNode.datum d ∈ tokens →
      Known d ∧ (d.type = .name → cfg.build = .debug → header.occupied < header.rown)) :
    (scanContract cfg gp header tran first last).Kept cfg fuel tokens where
  diverges := ⟨nofun, nofun⟩
  lex db session bc hstate hbc := by
    refine (y2lex_ensures (T := fun titor => ∀ t, titor = some t → t.tran = some tran ∧ db.OnMesh gp t.m)
      hloop hbc.2 hbc.1 fun t ht => ?_).post fun r hr => ⟨hr.1, fun x hx d hd => ?_⟩
    · obtain ⟨htran, hm⟩ := ht t rfl
      refine (hstate.1.next (fun _ h => h) htran hm ⟨nofun, nofun⟩).post fun t' ht' u hu => ?_
      cases hu
      exact ht'
    · cases hd
      exact htokens d (hr.2 _ hx)
  value db session titor d hstate htitor hd := by
    obtain ⟨hknown, hfits⟩ := hd d rfl
    exact value_ensures hknown hfits fun t ht => ⟨hstate.1, (htitor t ht).2⟩
  reduce columns n r hr := reduce_ensures rfl rfl _ columns r hr
  next db session t hstate ht := by
    obtain ⟨htran, hm⟩ := ht t rfl
    refine (hstate.1.next (fun _ h => h) htran hm ⟨nofun, nofun⟩).post fun t' ht' u hu => ?_
    cases hu
    exact ht'

theorem noScan_kept (htokens : ∀ d, BcNode.datum d ∈ tokens → Known d) :
    (noScanContract first last).Kept cfg fuel tokens where
  diverges := ⟨nofun, nofun⟩
  lex db session bc _ hbc := by
    refine (y2lex_ensures (T := fun titor => titor = none) hloop hbc.2 hbc.1 nofun).post
      fun r hr => ⟨hr.1, fun x hx d hd => ?_⟩
    cases hd
    exact htokens d (hr.2 _ hx)
  value db session titor d _ htitor hd := by
    have hnone : titor = none := htitor
    subst hnone
    have hfits : (0 : Nat) < 1 := Nat.zero_lt_one
    exact @value_ensures cfg db ⟨.undef, .undef⟩ { db.pages .undef with occupied := 0, rown := 1 } ⟨0, false⟩
      none d (hd d rfl) (fun _ _ => hfits) fun t ht => nomatch ht
  reduce columns n r hr := reduce_ensures rfl rfl _ columns r hr
  next _ _ _ _ ht := nomatch ht

end Kept

section Acts

variable {cfg : Config} {gp : GidPair} {header : Grid} {tran : Tran} {first last : Nat}

theorem scan_deleteRow : (scanContract cfg gp header tran first last).KeptBy (Y2.deleteRow cfg) := by
  intro w t hstate ht hvalid
  obtain ⟨hscanned, hsession⟩ := hstate
  obtain ⟨-, hm⟩ := ht t rfl
  have hvalid : mitorIsValid w.db t.m = true := by
    unfold titorIsValid at hvalid
    exact (of_decide_eq_true hvalid).1
  unfold Y2.deleteRow
  rw [hscanned.deleteRow hsession hm hvalid]
  refine ensures_ok ⟨⟨hscanned.putRow hm hvalid, hsession⟩, fun u hu t' ht' => ?_, fun bc hbc => ?_⟩
  · exact ⟨(hu t' ht').1, (hu t' ht').2.putRow _⟩
  · exact ⟨fun t' ht' => ⟨(hbc.1 t' ht').1, (hbc.1 t' ht').2.putRow _⟩, hbc.2⟩

theorem scan_sendRow : (scanContract cfg gp header tran first last).KeptBy (Y2.sendRow cfg) := by
  intro w t hstate ht hvalid
  obtain ⟨-, hm⟩ := ht t rfl
  have hrow : t.m.row < (w.db.pages t.m.gp.data).occupied := by
    unfold titorIsValid mitorIsValid at hvalid
    exact (of_decide_eq_true (of_decide_eq_true hvalid).1).2.2
  unfold Y2.sendRow Y2.rowPiece
  dsimp only
  rw [hstate.1.walked.getRow hm hrow]
  exact ensures_ok ⟨hstate, fun _ hu => hu, fun _ hbc => hbc⟩

theorem scan_act (cmd : RowCmd) : (scanContract cfg gp header tran first last).KeptBy (cmd.act cfg) := by
  cases cmd with
  | delete schema table => exact scan_deleteRow
  | select schema table name names => exact scan_sendRow

theorem noScan_act (cmd : RowCmd) : (noScanContract first last).KeptBy (cmd.act cfg) :=
  fun _ _ _ ht => nomatch ht

end Acts

end Scroller.Execute
