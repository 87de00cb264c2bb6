import Scroller.Proof.StoreInsert

/-!
# The values of a row

What the last loop of `insert` leaves in the cells of a row, and what a mesh is with it.
-/

namespace Scroller

/-! ### Cells and data -/

/-- The test of `grid_put_datum` for the types of a column and of a datum. -/
def Column.Fits (c : Column) (datum : Datum) : Prop :=
  datum.type = c.type ∨ datum.type.group = c.type.group

instance Column.decidableFits (c : Column) (datum : Datum) : Decidable (c.Fits datum) :=
  inferInstanceAs (Decidable (_ ∨ _))

/-- The cell that a datum leaves behind. -/
def Column.put (c : Column) (datum : Datum) : Cell :=
  match c.type with
  | .smallint => ⟨datum.integer.toInt16.toInt64, []⟩
  | .integer => ⟨datum.integer.toInt32.toInt64, []⟩
  | .bigint => ⟨datum.integer, []⟩
  | .char => ⟨0, putChar datum.character c.size.toNat⟩
  | .unknown | .name | .varchar => .zero

/-- What is read from a cell compares equal with a datum. -/
def Column.ReadsAs (c : Column) (build : Build) (cell : Cell) (datum : Datum) : Prop :=
  ∃ read, getCell build c cell = .ok read ∧ read.type.group = datum.type.group
    ∧ read.integer = datum.integer ∧ eqCharacter read.character datum.character = true

/-- The last datum that is given for a column. -/
def lastGiven (pairs : List (Nat × Datum)) (column : Nat) : Option Datum :=
  (pairs.reverse.find? fun pair => pair.1 = column).map Prod.snd

/-- The row that data leave behind, put one after the other. -/
def written (header : Grid) (pairs : List (Nat × Datum)) : Row := fun column =>
  match lastGiven pairs column with
  | none => .zero
  | some datum => (header.columns column).put datum

theorem written_nil (header : Grid) : written header [] = Row.zero := rfl

theorem lastGiven_concat (pairs : List (Nat × Datum)) (pair : Nat × Datum) (column : Nat) :
    lastGiven (pairs ++ [pair]) column = if pair.1 = column then some pair.2 else lastGiven pairs column := by
  unfold lastGiven
  rw [List.reverse_concat, List.find?_cons]
  by_cases h : pair.1 = column
  · simp [h]
  · simp [h]

theorem written_concat (header : Grid) (pairs : List (Nat × Datum)) (column : Nat) (datum : Datum) :
    written header (pairs ++ [(column, datum)])
      = Function.update (written header pairs) column ((header.columns column).put datum) := by
  funext j
  unfold written
  rw [lastGiven_concat, Function.update_apply]
  by_cases h : column = j
  · subst h
    rw [if_pos rfl, if_pos rfl]
  · rw [if_neg h, if_neg fun heq => h heq.symm]

theorem written_eq (header : Grid) (pairs : List (Nat × Datum)) (column : Nat) :
    written header pairs column = .zero
      ∨ ∃ datum, written header pairs column = (header.columns column).put datum := by
  unfold written
  cases lastGiven pairs column with
  | none => exact Or.inl rfl
  | some datum => exact Or.inr ⟨datum, rfl⟩

theorem putCell_fits {build : Build} {header : Grid} (pairs : List (Nat × Datum)) {column : Nat}
    {datum : Datum} (hcolumn : (header.columns column).type.group ≠ .unknown)
    (hfits : (header.columns column).Fits datum) :
    putCell build (header.columns column) (written header pairs column) datum
      = .ok (some ((header.columns column).put datum)) := by
  have hcell := written_eq header pairs column
  generalize written header pairs column = cell at hcell ⊢
  generalize header.columns column = c at hcolumn hfits hcell ⊢
  have hgroup : datum.type.group = c.type.group := hfits.elim (congrArg DatumType.group) id
  have hknown : datum.type ≠ .unknown := by
    intro htype
    rw [htype] at hgroup
    exact hcolumn hgroup.symm
  rw [putCell, Build.assert_of build hknown]
  simp only [bind, Except.bind]
  rw [if_pos (show datum.type = c.type ∨ _ from hfits)]
  cases htype : c.type with
  | unknown => exact absurd (htype ▸ rfl) hcolumn
  | name => exact absurd (htype ▸ rfl) hcolumn
  | _ =>
      simp only [Column.put, htype] at hcell ⊢
      rcases hcell with rfl | ⟨d, rfl⟩ <;> rfl

theorem putCell_misfit {build : Build} {c : Column} {cell : Cell} {datum : Datum} (h : ¬ c.Fits datum) :
    putCell build c cell datum = do
      build.assert False
      return none := by
  rw [putCell, if_neg (show ¬ (datum.type = c.type ∨ _) from h)]
  cases build with
  | debug =>
      by_cases htype : datum.type ≠ .unknown
      · rw [Build.assert_of _ htype]
        rfl
      · simp only [Build.assert, if_neg htype]
        rfl
  | release => rfl

/-- Every datum fits its column. -/
def AllFit (header : Grid) (pairs : List (Nat × Datum)) : Prop :=
  ∀ pair ∈ pairs, (header.columns pair.1).Fits pair.2

instance AllFit.decidable (header : Grid) (pairs : List (Nat × Datum)) : Decidable (AllFit header pairs) :=
  inferInstanceAs (Decidable (∀ pair ∈ pairs, _))

theorem allFit_nil (header : Grid) : AllFit header [] := nofun

/-- The data in front of the first that does not fit its column. -/
def fitting (header : Grid) (pairs : List (Nat × Datum)) : List (Nat × Datum) :=
  pairs.takeWhile fun pair => (header.columns pair.1).Fits pair.2

/-- The last loop of `insert` writes the data up to the first that does not fit. -/
theorem putCells_written (build : Build) {header : Grid} {indices : List Nat}
    (hcolumns : ∀ i ∈ indices, (header.columns i).type.group ≠ .unknown) (values : List Datum)
    (done : List (Nat × Datum)) :
    putCells build header (written header done) indices values =
      if AllFit header (indices.zip values) then
        if indices.length ≤ values.length then
          .ok (written header (done ++ indices.zip values), true)
        else .error .outOfBounds
      else do
        build.assert False
        return (written header (done ++ fitting header (indices.zip values)), false) := by
  induction indices generalizing values done with
  | nil =>
      rw [List.zip_nil_left, if_pos (allFit_nil header), if_pos (by simp), List.append_nil]
      rfl
  | cons index indices ih =>
      cases values with
      | nil =>
          rw [List.zip_nil_right, if_pos (allFit_nil header), if_neg (by simp)]
          rfl
      | cons value values =>
          rw [putCells, List.zip_cons_cons]
          by_cases hfits : (header.columns index).Fits value
          · have hall : AllFit header ((index, value) :: indices.zip values)
                ↔ AllFit header (indices.zip values) := by
              simp [AllFit, hfits]
            have hfitting : fitting header ((index, value) :: indices.zip values)
                = (index, value) :: fitting header (indices.zip values) := by
              simp [fitting, hfits]
            have hrest := ih (fun i hi => hcolumns i (List.mem_cons_of_mem index hi)) values
              (done ++ [(index, value)])
            rw [putCell_fits done (hcolumns index List.mem_cons_self) hfits]
            change putCells build header _ indices values = _
            rw [← written_concat, hrest]
            simp only [hall, hfitting, List.append_assoc, List.singleton_append, List.length_cons,
              Nat.add_le_add_iff_right]
          · have hall : ¬ AllFit header ((index, value) :: indices.zip values) :=
              fun h => hfits (h _ List.mem_cons_self)
            have hfitting : fitting header ((index, value) :: indices.zip values) = [] := by
              simp [fitting, hfits]
            rw [putCell_misfit hfits, if_neg hall, hfitting, List.append_nil, bind_assoc]
            rfl

/-! ### Columns -/

theorem columnIndices_spec {header : Grid} {names : List (List UInt8)} {indices : List Nat}
    (h : columnIndices header names = some indices) :
    indices.length = names.length ∧ ∀ (k : Nat) name, names[k]? = some name →
      ∃ column, hgridGetColumnIdx header name = some column ∧ indices[k]? = some column := by
  induction names generalizing indices with
  | nil =>
      cases h
      exact ⟨rfl, nofun⟩
  | cons name names ih =>
      rw [columnIndices, List.mapM_cons] at h
      obtain ⟨column, hcolumn, h⟩ := Option.bind_eq_some_iff.mp h
      obtain ⟨rest, hrest, h⟩ := Option.bind_eq_some_iff.mp h
      cases h
      obtain ⟨hlength, hget⟩ := ih hrest
      refine ⟨congrArg (· + 1) hlength, fun k name' hname => ?_⟩
      cases k with
      | zero =>
          cases hname
          exact ⟨column, hcolumn, rfl⟩
      | succ k => exact hget k name' hname

theorem exists_lastGiven {pairs : List (Nat × Datum)} {k column : Nat} {datum : Datum}
    (h : pairs[k]? = some (column, datum)) : ∃ last, lastGiven pairs column = some last := by
  have hfound : (pairs.reverse.find? fun pair => pair.1 = column).isSome = true := by
    rw [List.find?_isSome]
    exact ⟨(column, datum), List.mem_reverse.mpr (List.mem_of_getElem? h), by simp⟩
  obtain ⟨pair, hpair⟩ := Option.isSome_iff_exists.mp hfound
  exact ⟨pair.2, by rw [lastGiven, hpair]; rfl⟩

theorem written_of_lastGiven {header : Grid} {pairs : List (Nat × Datum)} {column : Nat} {last : Datum}
    (h : lastGiven pairs column = some last) :
    written header pairs column = (header.columns column).put last := by
  rw [written, h]

/-! ### Rows of a mesh -/

/-- What `insert` makes of a mesh that has pages for rows. -/
theorem Mesh.insert_eq {cfg : Config} {mesh : Mesh Row} {header : Grid} {indices : List Nat}
    (hcolumns : ∀ i ∈ indices, (header.columns i).type.group ≠ .unknown)
    (hroom : cfg.build = .debug → mesh.rown ≤ mesh.rows.length → mesh.extended = false)
    (hrown : mesh.rown ≠ 0) (leftover : Option Tran) (values : List Datum) :
    ∃ (extended : Bool) (n : Option Nat), mesh.insert cfg header leftover indices values =
      if leftover = none then
        .ok (⟨mesh.rown, extended, mesh.rows.take mesh.rown ++ [Row.zero]⟩, .sequenceOverflow, n)
      else if AllFit header (indices.zip values) then
        if indices.length ≤ values.length then
          .ok (⟨mesh.rown, extended,
            mesh.rows.take mesh.rown ++ [written header (indices.zip values)]⟩, .ok, n)
        else .error .outOfBounds
      else do
        cfg.build.assert False
        return (⟨mesh.rown, extended, mesh.rows.take mesh.rown
          ++ [written header (fitting header (indices.zip values))]⟩, .datumTypeMismatch, n) := by
  have halloc : ∃ extended, mesh.allocRow cfg.build Row.zero
      = .ok (⟨mesh.rown, extended, mesh.rows.take mesh.rown ++ [Row.zero]⟩, true) := by
    unfold Mesh.allocRow
    by_cases hlt : mesh.rows.length < mesh.rown
    · rw [if_pos hlt, List.take_of_length_le (Nat.le_of_lt hlt)]
      exact ⟨_, rfl⟩
    · have hassert : cfg.build.assert (mesh.extended = false) = .ok () :=
        Build.assert_eq_ok.mpr fun hdebug => hroom hdebug (Nat.le_of_not_lt hlt)
      rw [if_neg hlt, hassert]
      exact ⟨true, if_neg hrown⟩
  obtain ⟨extended, halloc⟩ := halloc
  refine ⟨extended, some (mesh.rows.take mesh.rown).length, ?_⟩
  have hcells := putCells_written cfg.build hcolumns values []
  rw [written_nil, List.nil_append, List.nil_append] at hcells
  have hset : ∀ row, (mesh.rows.take mesh.rown ++ [Row.zero]).set (mesh.rows.take mesh.rown).length row
      = mesh.rows.take mesh.rown ++ [row] := by
    intro row
    rw [List.set_append_right _ _ (Nat.le_refl _), Nat.sub_self]
    rfl
  have hlength : (mesh.rows.take mesh.rown ++ [Row.zero]).length - 1 = (mesh.rows.take mesh.rown).length := by
    rw [List.length_append]
    rfl
  rw [Mesh.insert, halloc]
  simp only [bind, Except.bind, not_true, if_false, hlength, hcells, pure, Except.pure]
  by_cases hleftover : leftover = none
  · rw [if_pos hleftover, if_pos hleftover]
  · rw [if_neg hleftover, if_neg hleftover]
    by_cases hfit : AllFit header (indices.zip values)
    · rw [if_pos hfit, if_pos hfit]
      by_cases henough : indices.length ≤ values.length
      · simp only [if_pos henough, hset, if_true]
      · rw [if_neg henough, if_neg henough]
    · rw [if_neg hfit, if_neg hfit]
      cases cfg.build.assert False with
      | error e => rfl
      | ok _ =>
          simp only [hset]
          rfl

end Scroller
