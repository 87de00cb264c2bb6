import Scroller.Proof.GridRows

/-!
# Runs on one grid

A grid is a bounded list of rows as long as nobody deletes the last row of a full grid in a debug build,
and its new rows are zero as long as no row takes the place that a deletion gave up with something in it.
-/

namespace Scroller

namespace GridPage

open ByteMemory

variable {build : Build} {mem mem' : Memory} {grid page pagesz rsz : Nat}

/-- An operation on the slots of a grid. -/
def Op.abs : Op → SlotArray.Op (List UInt8)
  | .alloc => .alloc
  | .write row offs bytes => .update row.toNat (overwrite offs bytes)
  | .delete row => .delete row.toNat

/-- What an operation may do to the rows in use of a grid of `n` slots. -/
def RowStep (n : Nat) (rows : List (List UInt8)) (op : Op) (answer : Option Nat)
    (rows' : List (List UInt8)) : Prop := SlotArray.Step n rows op.abs answer rows'

/-- Clients write inside of the rows in use. -/
def Op.Within (rsz k : Nat) : Op → Prop
  | .alloc | .delete _ => True
  | .write row offs bytes => row.toNat < k ∧ offs + bytes.length ≤ rsz

/-- The last row of a full grid is deleted. -/
def Op.DeletesLast (n k : Nat) : Op → Prop
  | .alloc | .write .. => False
  | .delete row => k = n ∧ row.toNat + 1 = n

/-- A property of the operations of a run on a grid of `n` slots, and of the number of rows in use in front
of each of them. -/
def Counted (n : Nat) (P : Nat → Op → Prop) : Nat → List Op → Prop
  | _, [] => True
  | k, op :: ops => P k op ∧ Counted n P (op.abs.count n k) ops

theorem Op.Within.inUse {op : Op} {k : Nat} (h : op.Within rsz k) : op.abs.InUse k := by
  cases op with
  | alloc => trivial
  | write row offs bytes => exact h.1
  | delete row => trivial

/-- One operation that does not delete the last row of a full grid in a debug build. -/
theorem Formed.step_eq (hf : Formed mem grid pagesz rsz) {op : Op}
    (hwithin : op.Within rsz (occupied mem grid))
    (hlast : build = .debug → ¬ op.DeletesLast (rown mem grid) (occupied mem grid)) :
    ∃ mem', step build grid mem op = .ok (mem', ((slots mem grid).step op.abs).2)
      ∧ Formed mem' grid pagesz rsz ∧ slots mem' grid = ((slots mem grid).step op.abs).1 := by
  cases op with
  | alloc =>
      obtain ⟨hformed, hslots, hanswer⟩ := hf.slots_allocRow
      refine ⟨(allocRow mem grid).1, ?_, hformed, hslots⟩
      rw [Op.abs, SlotArray.step, ← hanswer]
      rfl
  | write row offs bytes =>
      have hbytes := hwithin.2
      rw [← hf.rowsz_eq] at hbytes
      obtain ⟨hformed, hslots⟩ := hf.slots_write hwithin.1 hbytes
      refine ⟨_, ?_, hformed, hslots⟩
      rw [step, hf.getRow_of_lt hwithin.1]
      rfl
  | delete row =>
      have hlen := length_rows mem grid
      by_cases hrow : row.toNat < occupied mem grid
      · have hroom : build = .debug → row.toNat + 1 < rown mem grid := by
          intro hbuild
          have hnot := hlast hbuild
          have hle := hf.within
          simp only [Op.DeletesLast] at hnot
          omega
        obtain ⟨mem', hdelete, hformed, hslots⟩ := hf.deleteRow_eq hrow hroom
        refine ⟨mem', ?_, hformed, hslots⟩
        rw [step, hdelete, Op.abs, SlotArray.step, SlotArray.delete, if_pos (by rwa [hlen]), hlen]
      · refine ⟨mem, ?_, hf, ?_⟩
        · rw [step, deleteRow_of_le (Nat.not_lt.mp hrow), Op.abs, SlotArray.step, SlotArray.delete,
            if_neg (by rwa [hlen])]
        · rw [Op.abs, SlotArray.step, SlotArray.delete, if_neg (by rwa [hlen])]

theorem Formed.step_deletesLast (hf : Formed mem grid pagesz rsz) {op : Op}
    (hlast : op.DeletesLast (rown mem grid) (occupied mem grid)) :
    step .debug grid mem op = .error .assertion := by
  cases op with
  | alloc => exact hlast.elim
  | write row offs bytes => exact hlast.elim
  | delete row =>
      obtain ⟨hfull, hrow⟩ := hlast
      exact hf.deleteRow_full (by omega) hrow

theorem Formed.of_step (hf : Formed mem grid pagesz rsz) {op : Op} {answer : Option Nat}
    (hwithin : op.Within rsz (occupied mem grid))
    (h : step build grid mem op = .ok (mem', answer)) :
    Formed mem' grid pagesz rsz ∧ slots mem' grid = ((slots mem grid).step op.abs).1
      ∧ answer = ((slots mem grid).step op.abs).2 ∧ rown mem' grid = rown mem grid
      ∧ (build = .debug → ¬ op.DeletesLast (rown mem grid) (occupied mem grid)) := by
  have hnot : build = .debug → ¬ op.DeletesLast (rown mem grid) (occupied mem grid) := by
    rintro rfl hlast
    rw [hf.step_deletesLast hlast] at h
    cases h
  obtain ⟨mem₁, hone, hf₁, hslots⟩ := hf.step_eq hwithin hnot
  rw [hone] at h
  cases h
  refine ⟨hf₁, hslots, rfl, ?_, hnot⟩
  rw [← hf₁.size_slots, hslots, SlotArray.step_size, hf.size_slots]

theorem Formed.step_refines (hf : Formed mem grid pagesz rsz) {op : Op}
    (hwithin : op.Within rsz (occupied mem grid))
    (hslots : slots mem' grid = ((slots mem grid).step op.abs).1) :
    SlotArray.Step (rown mem grid) (rows mem grid) op.abs ((slots mem grid).step op.abs).2
        (rows mem' grid)
      ∧ occupied mem' grid = op.abs.count (rown mem grid) (occupied mem grid) := by
  have hinUse : op.abs.InUse (rows mem grid).length := by
    rw [length_rows]
    exact hwithin.inUse
  have hstep := SlotArray.step_refines (slots mem grid) op.abs hinUse
  rw [hf.size_slots, ← hslots] at hstep
  refine ⟨hstep, ?_⟩
  have hlen := hstep.length
  rwa [length_rows, length_rows] at hlen

/-! ### A bounded list of rows -/

/-- A run from a grid is a run of the bounded list of its rows, unless an operation aborts. -/
theorem Formed.run_refines (hf : Formed mem grid pagesz rsz) {ops : List Op}
    (hops : Counted (rown mem grid) (Op.Within rsz) (occupied mem grid) ops)
    (hlast : build = .debug → Counted (rown mem grid)
      (fun k op => ¬ op.DeletesLast (rown mem grid) k) (occupied mem grid) ops) :
    ∃ mem' hist, Machine.exec (step build grid) mem ops = .ok (mem', hist)
      ∧ Machine.Follows (RowStep (rown mem grid)) (rows mem grid) hist (rows mem' grid) := by
  induction ops generalizing mem with
  | nil => exact ⟨mem, [], rfl, .nil⟩
  | cons op ops ih =>
      obtain ⟨hwithin, hrest⟩ := hops
      obtain ⟨mem₁, hone, hf₁, hslots⟩ := hf.step_eq hwithin fun hbuild => (hlast hbuild).1
      obtain ⟨hrefines, hcount⟩ := hf.step_refines hwithin hslots
      have hrown := (hf.of_step hwithin hone).2.2.2.1
      rw [← hcount, ← hrown] at hrest
      have hlast' : build = .debug → Counted (rown mem₁ grid)
          (fun k op => ¬ op.DeletesLast (rown mem₁ grid) k) (occupied mem₁ grid) ops := by
        intro hbuild
        have htail := (hlast hbuild).2
        rwa [← hcount, ← hrown] at htail
      obtain ⟨mem', hist, hexec, hrun⟩ := ih hf₁ hrest hlast'
      rw [hrown] at hrun
      exact ⟨mem', _, Machine.exec_cons_eq_ok.mpr ⟨mem₁, _, hist, hone, hexec, rfl⟩,
        .cons hrefines hrun⟩

/-- A run that a debug build answers never deletes the last row of a full grid. -/
theorem Formed.counted_of_exec (hf : Formed mem grid pagesz rsz) {ops : List Op}
    {hist : List (Op × Option Nat)}
    (hops : Counted (rown mem grid) (Op.Within rsz) (occupied mem grid) ops)
    (h : Machine.exec (step .debug grid) mem ops = .ok (mem', hist)) :
    Counted (rown mem grid) (fun k op => ¬ op.DeletesLast (rown mem grid) k)
      (occupied mem grid) ops := by
  induction ops generalizing mem hist with
  | nil => trivial
  | cons op ops ih =>
      obtain ⟨mem₁, o, rest, hone, hrest, rfl⟩ := Machine.exec_cons_eq_ok.mp h
      obtain ⟨hf₁, hslots, -, hrown, hnot⟩ := hf.of_step hops.1 hone
      obtain ⟨hrefines, hcount⟩ := hf.step_refines hops.1 hslots
      have htail := hops.2
      rw [← hcount, ← hrown] at htail
      have hnext := ih hf₁ htail hrest
      rw [hcount, hrown] at hnext
      exact ⟨hnot rfl, hnext⟩

theorem Formed.of_exec (hf : Formed mem grid pagesz rsz) {ops : List Op}
    {hist : List (Op × Option Nat)}
    (hops : Counted (rown mem grid) (Op.Within rsz) (occupied mem grid) ops)
    (h : Machine.exec (step build grid) mem ops = .ok (mem', hist)) :
    Formed mem' grid pagesz rsz := by
  induction ops generalizing mem hist with
  | nil =>
      cases h
      exact hf
  | cons op ops ih =>
      obtain ⟨mem₁, o, rest, hone, hrest, rfl⟩ := Machine.exec_cons_eq_ok.mp h
      obtain ⟨hf₁, hslots, -, hrown, -⟩ := hf.of_step hops.1 hone
      have htail := hops.2
      rw [← (hf.step_refines hops.1 hslots).2, ← hrown] at htail
      exact ih hf₁ htail hrest

/-- How many rows of `rsz` bytes fit into a page. -/
def capacity (pagesz rsz : UInt16) : Nat := (pagesz.toNat - sizeofGrid) / rsz.toNat

/-- Every call of a run from a new grid returns, and the run is one of a list of at most as many rows as
fit into the page. -/
def Refines (build : Build) (mem : Memory) (page : Nat) (pagesz rsz : UInt16) (ops : List Op) : Prop :=
  ∃ mem' hist, Machine.exec (step build page) mem ops = .ok (mem', hist)
    ∧ Machine.Follows (RowStep (capacity pagesz rsz)) [] hist (rows mem' page)

theorem init_ok {mem : Memory} {pagesz rsz : UInt16} {layout : UInt8} {cont : GridContent}
    (h : rsz ≠ 0) : ∃ mem', init build mem page pagesz layout cont rsz = .ok mem' := by
  simp only [init, Build.assert_of _ h, if_neg h]
  exact ⟨_, rfl⟩

theorem refines_of_counted {mem₀ : Memory} {pagesz rsz : UInt16} {layout : UInt8} {cont : GridContent}
    {ops : List Op} (hpage : sizeofGrid ≤ pagesz.toNat)
    (hinit : init build mem₀ page pagesz layout cont rsz = .ok mem)
    (hops : Counted (capacity pagesz rsz) (Op.Within rsz.toNat) 0 ops)
    (hlast : build = .debug →
      Counted (capacity pagesz rsz) (fun k op => ¬ op.DeletesLast (capacity pagesz rsz) k) 0 ops) :
    Refines build mem page pagesz rsz ops := by
  have hfresh := init_fresh hpage hinit
  have hrown : rown mem page = capacity pagesz rsz := hfresh.rown_eq
  rw [← hrown, ← hfresh.empty] at hops hlast
  obtain ⟨mem', hist, hexec, hrun⟩ := hfresh.run_refines hops hlast
  rw [hrown, rows, hfresh.slots_eq] at hrun
  exact ⟨mem', hist, hexec, hrun⟩

theorem counted_of_refines {mem₀ : Memory} {pagesz rsz : UInt16} {layout : UInt8} {cont : GridContent}
    {ops : List Op} (hpage : sizeofGrid ≤ pagesz.toNat)
    (hinit : init .debug mem₀ page pagesz layout cont rsz = .ok mem)
    (hops : Counted (capacity pagesz rsz) (Op.Within rsz.toNat) 0 ops)
    (h : Refines .debug mem page pagesz rsz ops) :
    Counted (capacity pagesz rsz) (fun k op => ¬ op.DeletesLast (capacity pagesz rsz) k) 0 ops := by
  have hfresh := init_fresh hpage hinit
  have hrown : rown mem page = capacity pagesz rsz := hfresh.rown_eq
  obtain ⟨mem', hist, hexec, -⟩ := h
  rw [← hrown, ← hfresh.empty] at hops ⊢
  exact hfresh.counted_of_exec hops hexec

theorem Fresh.allocRow_first (h : Fresh mem grid pagesz rsz) (hroom : 0 < rown mem grid) :
    Formed (allocRow mem grid).1 grid pagesz rsz ∧ occupied (allocRow mem grid).1 grid = 1
      ∧ Machine.exec (step build grid) mem [.alloc]
        = .ok ((allocRow mem grid).1, [(.alloc, (allocRow mem grid).2)]) := by
  refine ⟨h.slots_allocRow.1, ?_, rfl⟩
  rw [allocRow, if_pos (by rwa [h.empty]), h.empty]
  exact occupied_setOccupied (by decide) mem grid

/-- **A grid is a bounded list of rows**, but for the last row of a full grid in a debug build. -/
theorem refines_iff {mem₀ : Memory} {pagesz rsz : UInt16} {layout : UInt8} {cont : GridContent}
    {ops : List Op} (hpage : sizeofGrid ≤ pagesz.toNat)
    (hinit : init build mem₀ page pagesz layout cont rsz = .ok mem)
    (hops : Counted (capacity pagesz rsz) (Op.Within rsz.toNat) 0 ops) :
    Refines build mem page pagesz rsz ops ↔
      (build = .debug →
        Counted (capacity pagesz rsz) (fun k op => ¬ op.DeletesLast (capacity pagesz rsz) k) 0 ops) := by
  constructor
  · rintro h rfl
    exact counted_of_refines hpage hinit hops h
  · exact refines_of_counted hpage hinit hops

theorem refines_iff_insert_delete :
    ∃ mem, init .debug (fun _ => 0) 0 4096 glFixed .pure 8 = .ok mem
      ∧ Refines .debug mem 0 4096 8 [.alloc, .write 0 4 [7], .alloc, .delete 0, .delete 5] := by
  obtain ⟨mem, hinit⟩ : ∃ mem, init .debug (fun _ => 0) 0 4096 glFixed .pure 8 = .ok mem :=
    init_ok (by decide)
  refine ⟨mem, hinit, (refines_iff (by decide) hinit ?_).mpr ?_⟩
  · simp [Counted, Op.Within, Op.abs, SlotArray.Op.count, capacity, sizeofGrid]
  · intro _
    simp [Counted, Op.DeletesLast, Op.abs, SlotArray.Op.count, capacity, sizeofGrid]

/-- A debug build asserts that there is a row behind the last one of a full grid. -/
theorem full_delete_aborts :
    ∃ mem, init .debug (fun _ => 0) 0 4096 glFixed .pure 4072 = .ok mem
      ∧ ¬ Refines .debug mem 0 4096 4072 [.alloc, .delete 0] := by
  obtain ⟨mem, hinit⟩ : ∃ mem, init .debug (fun _ => 0) 0 4096 glFixed .pure 4072 = .ok mem :=
    init_ok (by decide)
  refine ⟨mem, hinit, ?_⟩
  intro hrefines
  have hops : Counted (capacity 4096 4072) (Op.Within 4072) 0 [.alloc, .delete 0] :=
    ⟨trivial, trivial, trivial⟩
  have hcounted := counted_of_refines (by decide) hinit hops hrefines
  exact hcounted.2.1 ⟨rfl, rfl⟩

/-! ### New rows -/

/-- Every row that `grid_alloc_row` returns in a run consists of zero bytes. -/
def ZeroRows (build : Build) (mem : Memory) (page rsz : Nat) (ops : List Op) : Prop :=
  Machine.Along (step build page) (fun mem op => op = .alloc → ∀ mem' row,
    allocRow mem page = (mem', some row) → rowAt mem' page row = List.replicate rsz 0) mem ops

theorem Formed.rowAt_allocRow (hf : Formed mem grid pagesz rsz) {x : List UInt8}
    {spare : List (List UInt8)} (hspare : (slots mem grid).spare = x :: spare) :
    slots (allocRow mem grid).1 grid = ⟨rows mem grid ++ [x], spare⟩
      ∧ ∀ mem' row, allocRow mem grid = (mem', some row) → rowAt mem' grid row = x := by
  obtain ⟨hformed, hslots, hanswer⟩ := hf.slots_allocRow
  have halloc : (slots mem grid).alloc
      = (⟨rows mem grid ++ [x], spare⟩, some (rows mem grid).length) := by
    rw [SlotArray.alloc, hspare]
  rw [halloc] at hslots hanswer
  refine ⟨hslots, ?_⟩
  intro mem' row hcall
  rw [hcall] at hslots hanswer
  injection hanswer with hrow
  have hlast : (rows mem' grid)[row]? = some x := by
    rw [rows, hslots, hrow]
    exact List.getElem?_concat_length
  obtain ⟨hlt, hget⟩ := List.getElem?_eq_some_iff.mp hlast
  rwa [getElem_rows] at hget

theorem allocRow_full (hfull : ¬ (rows mem grid).length < rown mem grid) :
    allocRow mem grid = (mem, none) := by
  rw [length_rows] at hfull
  exact if_neg hfull

/-- The first spare slot where a deletion may have left rows in front of unused slots. -/
theorem spare_head {α : Type} {z : α} {left : List α} {m : Nat} (h : left ++ List.replicate m z ≠ []) :
    ∃ x m', left ++ List.replicate m z = x :: (left.tail ++ List.replicate m' z)
      ∧ ((∀ y ∈ left.head?, y = z) ↔ x = z) := by
  cases left with
  | cons x left => exact ⟨x, m, rfl, by simp⟩
  | nil =>
      cases m with
      | zero => exact (h rfl).elim
      | succ m => exact ⟨z, m, rfl, by simp⟩

/-- The slots of a grid are its rows, what deletions have left, and slots that were never used. -/
theorem Formed.zeroRows_of_exec (hf : Formed mem grid pagesz rsz) {ops : List Op}
    {hist : List (Op × Option Nat)} {used left : List (List UInt8)} {m : Nat}
    (hslots : slots mem grid = ⟨used, left ++ List.replicate m (List.replicate rsz 0)⟩)
    (hops : Counted (rown mem grid) (Op.Within rsz) (occupied mem grid) ops)
    (h : Machine.exec (step build grid) mem ops = .ok (mem', hist)) :
    ZeroRows build mem grid rsz ops ↔
      SlotArray.NewRows (rown mem grid) (List.replicate rsz 0) used left (ops.map Op.abs) := by
  induction ops generalizing mem hist used left m with
  | nil => exact iff_of_true (Machine.along_nil _ _) trivial
  | cons op ops ih =>
      obtain ⟨mem₁, o, rest, hone, hrest, rfl⟩ := Machine.exec_cons_eq_ok.mp h
      obtain ⟨hf₁, hslots₁, -, hrown, -⟩ := hf.of_step hops.1 hone
      have htail := hops.2
      rw [← (hf.step_refines hops.1 hslots₁).2, ← hrown] at htail
      have hused : rows mem grid = used := by rw [rows, hslots]
      rw [ZeroRows, Machine.along_cons hone, List.map_cons, ← ZeroRows]
      rw [hslots] at hslots₁
      cases op with
      | alloc =>
          rw [Op.abs, SlotArray.NewRows]
          by_cases hroom : used.length < rown mem grid
          · rw [if_pos hroom]
            have hspare : left ++ List.replicate m (List.replicate rsz 0) ≠ [] := by
              intro hnil
              have hsize := hf.size_slots
              rw [hslots, hnil] at hsize
              exact Nat.ne_of_lt hroom hsize
            obtain ⟨x, m', hcons, hhead⟩ := spare_head hspare
            obtain ⟨-, hnew⟩ := hf.rowAt_allocRow (by rw [hslots]; exact hcons)
            have hcall : allocRow mem grid = ((allocRow mem grid).1, some (occupied mem grid)) := by
              rw [← hused, length_rows] at hroom
              rw [allocRow, if_pos hroom]
            simp only [Op.abs, SlotArray.step, SlotArray.alloc, hcons] at hslots₁
            rw [hhead]
            constructor
            · rintro ⟨hzero, hlater⟩
              have hx : x = List.replicate rsz 0 := by
                rw [← hnew _ _ hcall, hzero rfl _ _ hcall]
              rw [hx] at hslots₁
              have hnext := (ih hf₁ hslots₁ htail hrest).mp hlater
              rw [hrown] at hnext
              exact ⟨hx, hnext⟩
            · rintro ⟨hx, hlater⟩
              rw [hx] at hslots₁ hnew
              rw [← hrown] at hlater
              exact ⟨fun _ => hnew, (ih hf₁ hslots₁ htail hrest).mpr hlater⟩
          · rw [if_neg hroom]
            have hcall : allocRow mem grid = (mem, none) := allocRow_full (by rwa [hused])
            have hspare : left ++ List.replicate m (List.replicate rsz 0) = [] := by
              have hsize := hf.size_slots
              rw [hslots] at hsize
              simp only [SlotArray.size] at hsize
              exact List.eq_nil_of_length_eq_zero (by omega)
            have hsame : slots mem₁ grid = ⟨used, left ++ List.replicate m (List.replicate rsz 0)⟩ := by
              rw [hslots₁, Op.abs, SlotArray.step, SlotArray.alloc, hspare]
            have hzero := ih hf₁ hsame htail hrest
            rw [hrown] at hzero
            rw [← hzero, hcall]
            exact and_iff_right (by simp)
      | write row offs bytes =>
          have hzero := ih hf₁ hslots₁ htail hrest
          rw [hrown] at hzero
          rw [Op.abs, SlotArray.NewRows, ← hzero]
          exact and_iff_right (by simp)
      | delete row =>
          rw [Op.abs, SlotArray.NewRows]
          by_cases hrow : row.toNat < used.length
          · rw [if_pos hrow]
            simp only [Op.abs, SlotArray.step, SlotArray.delete, if_pos hrow] at hslots₁
            rw [← List.append_assoc] at hslots₁
            have hzero := ih hf₁ hslots₁ htail hrest
            rw [hrown] at hzero
            rw [← hzero]
            exact and_iff_right (by simp)
          · rw [if_neg hrow]
            simp only [Op.abs, SlotArray.step, SlotArray.delete, if_neg hrow] at hslots₁
            have hzero := ih hf₁ hslots₁ htail hrest
            rw [hrown] at hzero
            rw [← hzero]
            exact and_iff_right (by simp)

/-- **New rows are zero** exactly where none takes a place that a deletion gave up with something in it. -/
theorem zeroRows_iff {mem₀ : Memory} {pagesz rsz : UInt16} {layout : UInt8} {cont : GridContent}
    {ops : List Op} {hist : List (Op × Option Nat)} (hpage : sizeofGrid ≤ pagesz.toNat)
    (hinit : init build mem₀ page pagesz layout cont rsz = .ok mem)
    (hops : Counted (capacity pagesz rsz) (Op.Within rsz.toNat) 0 ops)
    (h : Machine.exec (step build page) mem ops = .ok (mem', hist)) :
    ZeroRows build mem page rsz.toNat ops ↔
      SlotArray.NewRows (capacity pagesz rsz) (List.replicate rsz.toNat 0) [] []
        (ops.map Op.abs) := by
  have hfresh := init_fresh hpage hinit
  have hrown : rown mem page = capacity pagesz rsz := hfresh.rown_eq
  rw [← hrown, ← hfresh.empty] at hops
  rw [← hrown]
  have hslots : slots mem page
      = ⟨[], [] ++ List.replicate (rown mem page) (List.replicate rsz.toNat 0)⟩ := hfresh.slots_eq
  exact hfresh.zeroRows_of_exec hslots hops h

theorem zeroRows_iff_insert :
    ∃ mem, init .release (fun _ => 1) 0 4096 glFixed .pure 8 = .ok mem
      ∧ ZeroRows .release mem 0 8 [.alloc, .write 0 0 [7], .alloc] := by
  obtain ⟨mem, hinit⟩ : ∃ mem, init .release (fun _ => 1) 0 4096 glFixed .pure 8 = .ok mem :=
    init_ok (by decide)
  have hops : Counted (capacity 4096 8) (Op.Within 8) 0 [.alloc, .write 0 0 [7], .alloc] := by
    simp [Counted, Op.Within, Op.abs, SlotArray.Op.count, capacity, sizeofGrid]
  obtain ⟨mem', hist, hexec, -⟩ := refines_of_counted (by decide) hinit hops (by intro h; cases h)
  refine ⟨mem, hinit, (zeroRows_iff (by decide) hinit hops hexec).mpr ?_⟩
  simp [SlotArray.NewRows, Op.abs, capacity, sizeofGrid]

/-- The byte that was written to a row comes back in the row that is allocated after its deletion. -/
theorem deleted_row_comes_back :
    ∃ mem, init .release (fun _ => 0) 0 4096 glFixed .pure 8 = .ok mem
      ∧ ¬ ZeroRows .release mem 0 8 [.alloc, .write 0 0 [7], .delete 0, .alloc] := by
  obtain ⟨mem, hinit⟩ : ∃ mem, init .release (fun _ => 0) 0 4096 glFixed .pure 8 = .ok mem :=
    init_ok (by decide)
  refine ⟨mem, hinit, ?_⟩
  have hops : Counted (capacity 4096 8) (Op.Within 8) 0
      [.alloc, .write 0 0 [7], .delete 0, .alloc] := by
    simp [Counted, Op.Within, Op.abs, SlotArray.Op.count, capacity, sizeofGrid]
  obtain ⟨mem', hist, hexec, -⟩ := refines_of_counted (by decide) hinit hops (by intro h; cases h)
  have hfresh := init_fresh (by decide) hinit
  have hcounted := hops
  rw [show capacity 4096 8 = _ from hfresh.rown_eq.symm] at hcounted
  intro hzero
  have hslots : slots mem 0 = ⟨[], [] ++ List.replicate (rown mem 0) (List.replicate 8 0)⟩ :=
    hfresh.slots_eq
  have hnew := (hfresh.zeroRows_of_exec hslots (by rwa [hfresh.empty]) hexec).mp hzero
  rw [hfresh.rown_eq] at hnew
  simp [SlotArray.NewRows, Op.abs, overwrite, sizeofGrid] at hnew

end GridPage

end Scroller
