import Scroller.Proof.ColumnLayout

/-!
# Columns by their names

`hgrid_add_column` keeps the first bytes of a name only, and `hgrid_get_column_idx` looks for the whole name. A
column is found by its own name exactly where the name fits into its field.
-/

namespace Scroller

/-- Every column is found at its index under its own name, and no other name is found. -/
structure FoundByName (hgrid : Grid) (names : List (List UInt8)) : Prop where
  own : ∀ i name, names[i]? = some name → hgridGetColumnIdx hgrid name = some i
  other : ∀ name, name ∉ names → hgridGetColumnIdx hgrid name = none

variable {hgrid : Grid} {decls : List Decl}

/-- With room for all of them, the columns have the first bytes of their names. -/
theorem addColumns_names (hroom : hgrid.occupied + decls.length ≤ hgrid.rown) :
    (addColumns hgrid decls).1.occupied = hgrid.occupied + decls.length
      ∧ ∀ i decl, decls[i]? = some decl →
        ((addColumns hgrid decls).1.columns (hgrid.occupied + i)).name
          = decl.name.take (namesz - 1) := by
  induction decls generalizing hgrid with
  | nil => exact ⟨rfl, nofun⟩
  | cons decl decls ih =>
      rw [List.length_cons] at hroom
      have hlt : hgrid.occupied < hgrid.rown := by omega
      have hnext : (hgrid.withColumn decl).occupied = hgrid.occupied + 1 := rfl
      have hrest : (hgrid.withColumn decl).occupied + decls.length ≤ (hgrid.withColumn decl).rown := by
        rw [hnext]
        change _ ≤ hgrid.rown
        omega
      obtain ⟨hoccupied, hnames⟩ := ih hrest
      rw [addColumns_of_lt hlt]
      refine ⟨by rw [hoccupied, hnext, List.length_cons]; omega, ?_⟩
      intro i decl' hi
      cases i with
      | zero =>
          cases hi
          obtain ⟨-, hsame⟩ := addColumns_prefix (hgrid.withColumn decl) decls
          rw [Nat.add_zero, hsame hgrid.occupied (Nat.lt_succ_self _), withColumn_columns_self]
      | succ i =>
          have hname := hnames i decl' hi
          rw [hnext] at hname
          rw [← hname, Nat.add_right_comm, Nat.add_assoc]

theorem hgridGetColumnIdx_eq_some {name : List UInt8} {i : Nat} :
    hgridGetColumnIdx hgrid name = some i
      ↔ (hgrid.columns i).name = name ∧ i < hgrid.occupied ∧ ∀ j < i, (hgrid.columns j).name ≠ name := by
  simp [hgridGetColumnIdx, List.find?_range_eq_some]

theorem hgridGetColumnIdx_eq_none {name : List UInt8} :
    hgridGetColumnIdx hgrid name = none ↔ ∀ i < hgrid.occupied, (hgrid.columns i).name ≠ name := by
  simp [hgridGetColumnIdx]

theorem foundByName_of_names {names : List (List UInt8)} (hdistinct : names.Nodup)
    (hoccupied : hgrid.occupied = names.length)
    (hnames : ∀ i name, names[i]? = some name → (hgrid.columns i).name = name) :
    FoundByName hgrid names := by
  refine { own := ?_, other := ?_ }
  · intro i name hi
    have hlt := (List.getElem?_eq_some_iff.mp hi).1
    apply hgridGetColumnIdx_eq_some.mpr
    refine ⟨hnames i name hi, by omega, ?_⟩
    intro j hj heq
    have hname := List.getElem?_eq_getElem (Nat.lt_trans hj hlt)
    rw [hnames j _ hname] at heq
    rw [heq, ← hi] at hname
    exact Nat.ne_of_lt hj ((List.getElem?_inj (Nat.lt_trans hj hlt) hdistinct).mp hname)
  · intro name hmem
    apply hgridGetColumnIdx_eq_none.mpr
    intro i hi heq
    have hname := List.getElem?_eq_getElem (hoccupied ▸ hi)
    rw [hnames i _ hname] at heq
    exact hmem (heq ▸ List.getElem_mem _)

/-- **Columns are found by their own names** exactly where all the names fit into their fields. -/
theorem foundByName_iff {build : Build} {pagesz : Nat} {content : GridContent}
    (h : gridInit build pagesz content sizeofColumn = .ok hgrid) (hroom : decls.length ≤ hgrid.rown)
    (hdistinct : (decls.map Decl.name).Nodup) :
    FoundByName (addColumns hgrid decls).1 (decls.map Decl.name)
      ↔ ∀ decl ∈ decls, decl.name.length < namesz := by
  obtain ⟨-, -, hempty⟩ := packed_of_gridInit h
  obtain ⟨hoccupied, hnames⟩ := @addColumns_names hgrid decls (by omega)
  rw [hempty, Nat.zero_add] at hoccupied
  rw [hempty] at hnames
  have hcut : ∀ i decl, decls[i]? = some decl →
      ((addColumns hgrid decls).1.columns i).name = decl.name.take (namesz - 1) := by
    intro i decl hi
    rw [← hnames i decl hi, Nat.zero_add]
  constructor
  · intro hfound decl hmem
    obtain ⟨i, hi⟩ := List.mem_iff_getElem?.mp hmem
    have hown := hfound.own i decl.name (by rw [List.getElem?_map, hi]; rfl)
    have hname := (hgridGetColumnIdx_eq_some.mp hown).1
    rw [hcut i decl hi] at hname
    have hlength := congrArg List.length hname
    rw [List.length_take] at hlength
    change _ < 16
    change min 15 _ = _ at hlength
    omega
  · intro hshort
    apply foundByName_of_names hdistinct
    · rw [hoccupied, List.length_map]
    · intro i name hi
      rw [List.getElem?_map] at hi
      obtain ⟨decl, hdecl, rfl⟩ := Option.map_eq_some_iff.mp hi
      rw [hcut i decl hdecl, List.take_of_length_le]
      exact Nat.le_pred_of_lt (hshort decl (List.mem_of_getElem? hdecl))

theorem foundByName_iff_two :
    ∃ hgrid, gridInit .debug 4096 .pure sizeofColumn = .ok hgrid
      ∧ FoundByName (addColumns hgrid [⟨[97], .integer, 0⟩, ⟨[97, 98], .bigint, 0⟩]).1 [[97], [97, 98]] := by
  have hinit : gridInit .debug 4096 .pure sizeofColumn = _ := rfl
  refine ⟨_, hinit, (foundByName_iff hinit ?_ ?_).mpr ?_⟩
  · decide
  · decide
  · decide

/-- A column with a name of 16 bytes is not found. -/
theorem long_name_not_found :
    ∃ hgrid, gridInit .debug 4096 .pure sizeofColumn = .ok hgrid
      ∧ ¬ FoundByName (addColumns hgrid [⟨List.replicate 16 97, .integer, 0⟩]).1
        [List.replicate 16 97] := by
  refine ⟨_, rfl, ?_⟩
  intro hfound
  have hown := hfound.own 0 (List.replicate 16 97) rfl
  revert hown
  decide

end Scroller
