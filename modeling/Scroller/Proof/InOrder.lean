import Scroller.Lib.FirstFound
import Scroller.Proof.WhereValue

/-!
# The order of the list of `IN`

The loop over the list stops at the first datum that decides: one that cannot be compared, one whose comparison is
out of range, or one that is equal. The order of the list does not matter exactly where all data that decide agree
and none of them is out of range.
-/

namespace Scroller.Execute

open FirstFound

variable {build : Build} {columns : Columns} {l : Tree .additive} {v : Datum} {vs : List Datum}

/-- The same truth value, or the type error in both cases. -/
inductive SameOutcome : Except Stop Int64 → Except Stop Int64 → Prop
  | value (i : Int64) : SameOutcome (.ok i) (.ok i)
  | mismatch : SameOutcome (.error .mismatch) (.error .mismatch)

/-- `IN` and `NOT IN` have the same outcome for every order of the list. -/
def OrderFree (build : Build) (columns : Columns) (l : Tree .additive) (v : Datum) (vs : List Datum) : Prop :=
  ∀ v' vs', (v' :: vs').Perm (v :: vs) →
    SameOutcome ((Tree.isIn l v vs).eval build columns) ((Tree.isIn l v' vs').eval build columns)
      ∧ SameOutcome ((Tree.notIn l v vs).eval build columns) ((Tree.notIn l v' vs').eval build columns)

/-- No comparison with a datum is out of range, and the data that are equal to it do not stand with data that
cannot be compared with it. -/
structure Unmixed (d : Datum) (ds : List Datum) : Prop where
  fits : ∀ v ∈ ds, dataComparable d v = true → Fits d v
  separate : (∀ v ∈ ds, dataComparable d v = true) ∨ ∀ v ∈ ds, dataComparable d v = true → d.order v ≠ .eq

/-! ### The loop -/

section Loop

variable {d : Datum} {ds ds' : List Datum}

/-- What a datum of the list decides. -/
def decision (d v : Datum) : Option (Except Stop Bool) :=
  if dataComparable d v = true then
    if Fits d v then if d.order v = .eq then some (.ok true) else none
    else some (.error (.fault .signedOverflow))
  else some (.error .mismatch)

theorem decision_mismatch (h : ¬ dataComparable d v = true) : decision d v = some (.error .mismatch) :=
  if_neg h

theorem decision_overflow (h : dataComparable d v = true) (hfits : ¬ Fits d v) :
    decision d v = some (.error (.fault .signedOverflow)) := by
  rw [decision, if_pos h, if_neg hfits]

theorem decision_equal (h : dataComparable d v = true) (hfits : Fits d v) (horder : d.order v = .eq) :
    decision d v = some (.ok true) := by
  rw [decision, if_pos h, if_pos hfits, if_pos horder]

theorem decision_other (h : dataComparable d v = true) (hfits : Fits d v) (horder : d.order v ≠ .eq) :
    decision d v = none := by
  rw [decision, if_pos h, if_pos hfits, if_neg horder]

theorem findEqual_cons_of_some {x : Except Stop Bool} (h : decision d v = some x) :
    findEqual build d (v :: ds) = x := by
  rw [findEqual]
  by_cases hcomparable : dataComparable d v = true
  · rw [show check (dataComparable d v) = .ok () from if_pos hcomparable]
    by_cases hfits : Fits d v
    · obtain ⟨c, hcmp, htest⟩ := cmpData_eq hcomparable hfits
      by_cases horder : d.order v = .eq
      · rw [decision_equal hcomparable hfits horder] at h
        cases h
        rw [hcmp]
        exact if_pos ((decide_eq_decide.mp (htest .eq)).mpr horder)
      · rw [decision_other hcomparable hfits horder] at h
        cases h
    · rw [decision_overflow hcomparable hfits] at h
      cases h
      rw [cmpData_error hcomparable hfits]
      rfl
  · rw [decision_mismatch hcomparable] at h
    cases h
    rw [show check (dataComparable d v) = .error .mismatch from if_neg hcomparable]
    rfl

theorem findEqual_cons_of_none (h : decision d v = none) :
    findEqual build d (v :: ds) = findEqual build d ds := by
  rw [findEqual]
  by_cases hcomparable : dataComparable d v = true
  · rw [show check (dataComparable d v) = .ok () from if_pos hcomparable]
    by_cases hfits : Fits d v
    · obtain ⟨c, hcmp, htest⟩ := cmpData_eq hcomparable hfits
      by_cases horder : d.order v = .eq
      · rw [decision_equal hcomparable hfits horder] at h
        cases h
      · rw [hcmp]
        exact if_neg (fun hc => horder ((decide_eq_decide.mp (htest .eq)).mp hc))
    · rw [decision_overflow hcomparable hfits] at h
      cases h
  · rw [decision_mismatch hcomparable] at h
    cases h

theorem findEqual_eq_findSome? : findEqual build d ds = (ds.findSome? (decision d)).getD (.ok false) := by
  induction ds with
  | nil => rfl
  | cons v ds ih =>
      rw [List.findSome?_cons]
      cases hdecision : decision d v with
      | none => rw [findEqual_cons_of_none hdecision, ih]
      | some x => rw [findEqual_cons_of_some hdecision, Option.getD_some]

/-- What the data of an unmixed list decide: all of them the same. -/
theorem Unmixed.decision_cases (h : Unmixed d ds) :
    (∀ v ∈ ds, ∀ x, decision d v = some x → x = .ok true)
      ∨ ∀ v ∈ ds, ∀ x, decision d v = some x → x = .error .mismatch := by
  rcases h.separate with hall | hnone
  · left
    intro v hv x hx
    have hfits := h.fits v hv (hall v hv)
    by_cases horder : d.order v = .eq
    · rw [decision_equal (hall v hv) hfits horder] at hx
      cases hx
      rfl
    · rw [decision_other (hall v hv) hfits horder] at hx
      cases hx
  · right
    intro v hv x hx
    by_cases hcomparable : dataComparable d v = true
    · rw [decision_other hcomparable (h.fits v hv hcomparable) (hnone v hv hcomparable)] at hx
      cases hx
    · rw [decision_mismatch hcomparable] at hx
      cases hx
      rfl

theorem Unmixed.unanimous (h : Unmixed d ds) : Unanimous (decision d) ds := by
  intro a ha b hb x y hx hy
  rcases h.decision_cases with hcases | hcases
  · rw [hcases a ha x hx, hcases b hb y hy]
  · rw [hcases a ha x hx, hcases b hb y hy]

/-- The loop over an unmixed list finds a truth value or the type error. -/
theorem Unmixed.findEqual_cases (h : Unmixed d ds) :
    (∃ found, findEqual build d ds = .ok found) ∨ findEqual build d ds = .error .mismatch := by
  rw [findEqual_eq_findSome?]
  cases hfound : ds.findSome? (decision d) with
  | none => exact .inl ⟨false, rfl⟩
  | some x =>
      obtain ⟨v, hv, hx⟩ := List.exists_of_findSome?_eq_some hfound
      rcases h.decision_cases with hcases | hcases
      · exact .inl ⟨true, hcases v hv x hx⟩
      · exact .inr (hcases v hv x hx)

theorem Unmixed.findEqual_perm (h : Unmixed d ds) (hperm : ds'.Perm ds) :
    findEqual build d ds' = findEqual build d ds := by
  rw [findEqual_eq_findSome?, findEqual_eq_findSome?, h.unanimous.findSome?_perm hperm]

end Loop

/-! ### The values of the list -/

section Values

variable {ds : List Datum}

theorem mapM_cons_eq_ok {f : Datum → Except Stop Datum} :
    (v :: vs).mapM f = .ok ds ↔ ∃ d ds', f v = .ok d ∧ vs.mapM f = .ok ds' ∧ ds = d :: ds' := by
  rw [List.mapM_cons]
  constructor
  · intro h
    obtain ⟨d, hd, h⟩ := bind_eq_ok.mp h
    obtain ⟨ds', hds, h⟩ := bind_eq_ok.mp h
    cases h
    exact ⟨d, ds', hd, hds, rfl⟩
  · rintro ⟨d, ds', hd, hds, rfl⟩
    rw [hd, hds]
    rfl

/-- Another order of the list has the values in another order. -/
theorem mapM_perm {f : Datum → Except Stop Datum} {vs' : List Datum} (hperm : vs'.Perm vs)
    (h : vs.mapM f = .ok ds) : ∃ ds', vs'.mapM f = .ok ds' ∧ ds'.Perm ds := by
  induction hperm generalizing ds with
  | nil => exact ⟨ds, h, .refl _⟩
  | cons v hperm ih =>
      obtain ⟨d, rest, hd, hrest, rfl⟩ := mapM_cons_eq_ok.mp h
      obtain ⟨rest', hrest', hp⟩ := ih hrest
      exact ⟨d :: rest', mapM_cons_eq_ok.mpr ⟨d, rest', hd, hrest', rfl⟩, hp.cons d⟩
  | swap v w vs =>
      obtain ⟨d, rest, hd, hrest, rfl⟩ := mapM_cons_eq_ok.mp h
      obtain ⟨e, rest', he, hrest', rfl⟩ := mapM_cons_eq_ok.mp hrest
      have hswap := mapM_cons_eq_ok.mpr ⟨d, rest', hd, hrest', rfl⟩
      exact ⟨e :: d :: rest', mapM_cons_eq_ok.mpr ⟨e, d :: rest', he, hswap, rfl⟩, .swap d e rest'⟩
  | trans _ _ ih ih' =>
      obtain ⟨ds', h', hp'⟩ := ih' h
      obtain ⟨ds'', h'', hp''⟩ := ih h'
      exact ⟨ds'', h'', hp''.trans hp'⟩

theorem exists_of_mem_mapM {f : Datum → Except Stop Datum} {d : Datum} (h : vs.mapM f = .ok ds) (hd : d ∈ ds) :
    ∃ v ∈ vs, f v = .ok d := by
  induction vs generalizing ds with
  | nil =>
      cases h
      cases hd
  | cons v vs ih =>
      obtain ⟨e, rest, he, hrest, rfl⟩ := mapM_cons_eq_ok.mp h
      rcases List.mem_cons.mp hd with rfl | hd
      · exact ⟨v, List.mem_cons_self, he⟩
      · obtain ⟨w, hw, hd⟩ := ih hrest hd
        exact ⟨w, List.mem_cons_of_mem _ hw, hd⟩

theorem valueAction_ne_mismatch : valueAction columns v ≠ .error .mismatch := by
  unfold valueAction call
  split
  · cases columns v.character <;> rintro ⟨⟩
  · rintro ⟨⟩

theorem mapM_ne_mismatch : vs.mapM (valueAction columns) ≠ .error .mismatch := by
  induction vs with
  | nil => rintro ⟨⟩
  | cons v vs ih =>
      rw [List.mapM_cons]
      intro h
      cases hv : valueAction columns v with
      | error e =>
          rw [hv] at h
          cases h
          exact valueAction_ne_mismatch hv
      | ok d =>
          rw [hv] at h
          cases hvs : vs.mapM (valueAction columns) with
          | error e =>
              rw [hvs] at h
              cases h
              exact ih hvs
          | ok ds =>
              rw [hvs] at h
              cases h

end Values

/-! ### Outcomes -/

section Outcomes

variable {d : Datum} {ds : List Datum}

theorem isIn_eval (hl : l.eval build columns = .ok d) (hvs : (v :: vs).mapM (valueAction columns) = .ok ds) :
    (Tree.isIn l v vs).eval build columns = (findEqual build d ds).map ofBool := by
  rw [Tree.eval, hl, hvs]
  dsimp only [bind, Except.bind]
  unfold inAction
  cases findEqual build d ds <;> rfl

theorem notIn_eval (hl : l.eval build columns = .ok d) (hvs : (v :: vs).mapM (valueAction columns) = .ok ds) :
    (Tree.notIn l v vs).eval build columns = (findEqual build d ds).map fun found => ofBool (! found) := by
  rw [Tree.eval, hl, hvs]
  dsimp only [bind, Except.bind]
  unfold notInAction
  cases findEqual build d ds <;> rfl

theorem isIn_eval_error {e : Stop} (hl : l.eval build columns = .error e) :
    (Tree.isIn l v vs).eval build columns = .error e := by
  rw [Tree.eval, hl]
  rfl

theorem notIn_eval_error {e : Stop} (hl : l.eval build columns = .error e) :
    (Tree.notIn l v vs).eval build columns = .error e := by
  rw [Tree.eval, hl]
  rfl

theorem SameOutcome.eq_mismatch {e : Stop} {y : Except Stop Int64} (h : SameOutcome (.error e) y) :
    e = .mismatch := by
  cases h
  rfl

/-- The same truth value comes from the same result of the loop. -/
theorem SameOutcome.loop {x y : Except Stop Bool} (h : SameOutcome (x.map ofBool) (y.map ofBool)) :
    x = y ∧ ∀ fault, y ≠ .error (.fault fault) := by
  cases x with
  | error e =>
      cases y with
      | error e' =>
          cases h
          exact ⟨rfl, by rintro fault ⟨⟩⟩
      | ok b => cases h
  | ok a =>
      cases y with
      | error e' => cases h
      | ok b =>
          refine ⟨?_, by rintro fault ⟨⟩⟩
          cases a <;> cases b <;> first | rfl | cases h

theorem Unmixed.sameOutcome (h : Unmixed d ds) {f : Bool → Int64} :
    SameOutcome ((findEqual build d ds).map f) ((findEqual build d ds).map f) := by
  rcases @Unmixed.findEqual_cases build d ds h with ⟨found, hfound⟩ | hmismatch
  · rw [hfound]
    exact .value (f found)
  · rw [hmismatch]
    exact .mismatch

theorem orderFree_of_mismatch (hl : l.eval build columns = .error .mismatch) : OrderFree build columns l v vs := by
  intro v' vs' hperm
  rw [isIn_eval_error hl, isIn_eval_error hl, notIn_eval_error hl, notIn_eval_error hl]
  exact ⟨.mismatch, .mismatch⟩

theorem orderFree_of_unmixed (hl : l.eval build columns = .ok d)
    (hvs : (v :: vs).mapM (valueAction columns) = .ok ds) (h : Unmixed d ds) :
    OrderFree build columns l v vs := by
  intro v' vs' hperm
  obtain ⟨ds', hvs', hp⟩ := mapM_perm hperm hvs
  rw [isIn_eval hl hvs, isIn_eval hl hvs', notIn_eval hl hvs, notIn_eval hl hvs', h.findEqual_perm hp]
  exact ⟨h.sameOutcome, h.sameOutcome⟩

/-- The loop finds what any datum of the list decides, since that one can stand first. -/
theorem OrderFree.findEqual_eq (h : OrderFree build columns l v vs) (hl : l.eval build columns = .ok d)
    (hvs : (v :: vs).mapM (valueAction columns) = .ok ds) {a : Datum} (ha : a ∈ ds) {x : Except Stop Bool}
    (hx : decision d a = some x) : findEqual build d ds = x ∧ ∀ fault, x ≠ .error (.fault fault) := by
  obtain ⟨w, hw, hvalue⟩ := exists_of_mem_mapM hvs ha
  have hperm : (w :: (v :: vs).erase w).Perm (v :: vs) := (List.perm_cons_erase hw).symm
  obtain ⟨ds', hvs', -⟩ := mapM_perm hperm hvs
  obtain ⟨a', rest, hvalue', -, rfl⟩ := mapM_cons_eq_ok.mp hvs'
  cases hvalue.symm.trans hvalue'
  have hsame := (h w _ hperm).1
  rw [isIn_eval hl hvs, isIn_eval hl hvs', findEqual_cons_of_some hx] at hsame
  exact hsame.loop

theorem OrderFree.unmixed (h : OrderFree build columns l v vs) (hl : l.eval build columns = .ok d)
    (hvs : (v :: vs).mapM (valueAction columns) = .ok ds) : Unmixed d ds := by
  constructor
  · intro a ha hcomparable
    by_contra hfits
    exact (h.findEqual_eq hl hvs ha (decision_overflow hcomparable hfits)).2 _ rfl
  · by_contra hmixed
    obtain ⟨hall, hnone⟩ := not_or.mp hmixed
    obtain ⟨a, hfirst⟩ := not_forall.mp hall
    obtain ⟨ha, hcomparable⟩ := Classical.not_imp.mp hfirst
    obtain ⟨b, hsecond⟩ := not_forall.mp hnone
    obtain ⟨hb, hequal⟩ := Classical.not_imp.mp hsecond
    obtain ⟨hcomparable', horder⟩ := Classical.not_imp.mp hequal
    have horder := not_not.mp horder
    obtain ⟨hfound, -⟩ := h.findEqual_eq hl hvs ha (decision_mismatch hcomparable)
    by_cases hfits : Fits d b
    · obtain ⟨hfound', -⟩ := h.findEqual_eq hl hvs hb (decision_equal hcomparable' hfits horder)
      rw [hfound] at hfound'
      cases hfound'
    · exact (h.findEqual_eq hl hvs hb (decision_overflow hcomparable' hfits)).2 _ rfl

/-- **The order of the list does not matter** exactly where the operand is a type error of its own, or the list
is unmixed. -/
theorem orderFree_iff :
    OrderFree build columns l v vs ↔
      l.eval build columns = .error .mismatch
        ∨ ∃ d ds, l.eval build columns = .ok d ∧ (v :: vs).mapM (valueAction columns) = .ok ds ∧ Unmixed d ds := by
  constructor
  · intro h
    have hsame := (h v vs (.refl _)).1
    cases hl : l.eval build columns with
    | error e =>
        rw [isIn_eval_error hl] at hsame
        rw [hsame.eq_mismatch]
        exact .inl rfl
    | ok d =>
        cases hvs : (v :: vs).mapM (valueAction columns) with
        | error e =>
            rw [Tree.eval, hl, hvs] at hsame
            rw [show e = .mismatch from SameOutcome.eq_mismatch hsame] at hvs
            exact absurd hvs mapM_ne_mismatch
        | ok ds => exact .inr ⟨d, ds, rfl, rfl, h.unmixed hl hvs⟩
  · rintro (hl | ⟨d, ds, hl, hvs, hunmixed⟩)
    · exact orderFree_of_mismatch hl
    · exact orderFree_of_unmixed hl hvs hunmixed

/-- `1` -/
def oneLiteral : Tree .additive := .ofAtom (.value (makeBigint 1))

/-- A row without columns. -/
def noColumns : Columns := fun _ => .ok none

/-- `1 IN (1, 'a')` is true, and `1 IN ('a', 1)` is a type error. -/
theorem not_orderFree_one : ¬ OrderFree .release noColumns oneLiteral (makeBigint 1) [makeChar [97]] := by
  intro h
  have hsame := (h (makeChar [97]) [makeBigint 1] (.swap _ _ _)).1
  have hfirst : (Tree.isIn oneLiteral (makeBigint 1) [makeChar [97]]).eval .release noColumns = .ok 1 := rfl
  have hlast : (Tree.isIn oneLiteral (makeChar [97]) [makeBigint 1]).eval .release noColumns = .error .mismatch := rfl
  rw [hfirst, hlast] at hsame
  cases hsame

end Outcomes

end Scroller.Execute
