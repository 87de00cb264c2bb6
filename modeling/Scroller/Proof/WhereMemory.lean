import Scroller.WhereMemory

/-!
# Memory for the rows of a command

A command gets all the memory that its expression asks for as long as the buffers and lists of all rows together
fit behind the marks of its two contexts. Nothing is given back between the rows, and nobody looks at what the
allocations return.
-/

namespace Scroller

namespace Execute

/-! ### Values -/

/-- What an allocation should hold. -/
def Allocation.complete : (q : Allocation) → q.Result
  | .cat d1 d2 => makeChar (d1.character ++ d2.character)
  | .values v vs => v :: vs

section

variable {build : Build} {columns : Columns}

theorem valuesProgram_value (v : Datum) (vs : List Datum) :
    (valuesProgram columns v vs).value Allocation.complete = (v :: vs).mapM (valueAction columns) := by
  rw [List.mapM_cons, valuesProgram, Asks.value_bind]
  apply congrArg (valueAction columns v >>= ·)
  funext v'
  rw [Asks.value_bind]
  rfl

theorem catProgram_value (build : Build) (d1 d2 : Datum) :
    (catProgram d1 d2).value Allocation.complete = additiveAction build .concat d1 d2 := by
  rw [catProgram, additiveAction, Asks.value_bind, check, catData]
  cases hlexical : dataLexical d1 d2 with
  | true => rfl
  | false => rfl

/-- With all its memory the evaluation of a tree has the value of the tree. -/
theorem program_value {n : Nonterminal} (e : Tree n) :
    (e.program build columns).value Allocation.complete = e.eval build columns := by
  induction e with
  | orUnit e ih => exact ih
  | or l r ihl ihr =>
      rw [Tree.program, Tree.eval]
      simp only [Asks.value_bind, ihl, ihr]
      rfl
  | andUnit e ih => exact ih
  | and l r ihl ihr =>
      rw [Tree.program, Tree.eval]
      simp only [Asks.value_bind, ihl, ihr]
      rfl
  | notUnit e ih => exact ih
  | not e ih =>
      rw [Tree.program, Tree.eval, Asks.value_bind, ih]
      rfl
  | cmpUnit e ih =>
      rw [Tree.program, Tree.eval]
      simp only [Asks.value_bind, ih]
      rfl
  | cmp op l r ihl ihr =>
      rw [Tree.program, Tree.eval]
      simp only [Asks.value_bind, ihl, ihr]
      rfl
  | like l r ihl ihr =>
      rw [Tree.program, Tree.eval]
      simp only [Asks.value_bind, ihl, ihr]
      rfl
  | isIn l v vs ih =>
      rw [Tree.program, Tree.eval]
      simp only [Asks.value_bind, ih, valuesProgram_value]
      rfl
  | between x a b ihx iha ihb =>
      rw [Tree.program, Tree.eval]
      simp only [Asks.value_bind, ihx, iha, ihb]
      rfl
  | notLike l r ihl ihr =>
      rw [Tree.program, Tree.eval]
      simp only [Asks.value_bind, ihl, ihr]
      rfl
  | notIn l v vs ih =>
      rw [Tree.program, Tree.eval]
      simp only [Asks.value_bind, ih, valuesProgram_value]
      rfl
  | notBetween x a b ihx iha ihb =>
      rw [Tree.program, Tree.eval]
      simp only [Asks.value_bind, ihx, iha, ihb]
      rfl
  | additiveUnit e ih => exact ih
  | additive op l r ihl ihr =>
      cases op with
      | concat =>
          rw [Tree.program, Tree.eval]
          simp only [Asks.value_bind, ihl, ihr, catProgram_value build]
      | add =>
          rw [Tree.program, Tree.eval]
          · simp only [Asks.value_bind, ihl, ihr]
            rfl
          · exact nofun
      | sub =>
          rw [Tree.program, Tree.eval]
          · simp only [Asks.value_bind, ihl, ihr]
            rfl
          · exact nofun
  | multiplicativeUnit e ih => exact ih
  | multiplicative op l r ihl ihr =>
      rw [Tree.program, Tree.eval]
      simp only [Asks.value_bind, ihl, ihr]
      rfl
  | value v => rfl
  | paren e ih =>
      rw [Tree.program, Tree.eval, Asks.value_bind, ih]
      rfl

theorem rowsProgram_value (e : Tree .or) (rows : List Columns) :
    (rowsProgram build e rows).value Allocation.complete
      = rows.forM (fun columns => do let _ ← e.eval build columns) := by
  induction rows with
  | nil => rfl
  | cons columns rows ih =>
      have hrow := @program_value build columns _ e
      simp only [rowsProgram, List.forM, Asks.value_bind, hrow, ih, bind_assoc, pure_bind]

end

/-! ### Lists of values -/

/-- The capacity of an array that so many values were put into: it doubles whenever the array is full. -/
def capacityFor : Nat → Nat
  | 0 => arrayDefaultCapacity
  | k + 1 => if k = capacityFor k then capacityFor k * 2 else capacityFor k

/-- The block of an array with this capacity. -/
def arrayBlock (capacity : Nat) : Nat := alignMax (sizeofArray + sizeofDatum * capacity)

theorem capacityFor_pos (k : Nat) : 0 < capacityFor k := by
  induction k with
  | zero => decide
  | succ k ih =>
      rw [capacityFor]
      split
      · omega
      · exact ih

theorem le_capacityFor (k : Nat) : k ≤ capacityFor k := by
  induction k with
  | zero => exact Nat.zero_le _
  | succ k ih =>
      have hpos := capacityFor_pos k
      rw [capacityFor]
      split
      · omega
      · omega

theorem capacityFor_mono {j k : Nat} (h : j ≤ k) : capacityFor j ≤ capacityFor k := by
  induction h with
  | refl => exact Nat.le_refl _
  | step _ ih =>
      refine Nat.le_trans ih ?_
      rw [capacityFor]
      split
      · omega
      · exact Nat.le_refl _

theorem arrayBlock_mono {c d : Nat} (h : c ≤ d) : arrayBlock c ≤ arrayBlock d :=
  alignMax_mono (Nat.add_le_add_left (Nat.mul_le_mul_left sizeofDatum h) sizeofArray)

theorem arrayBlock_pos (capacity : Nat) : 0 < arrayBlock capacity :=
  Nat.lt_of_lt_of_le (Nat.lt_of_lt_of_le (by decide) (Nat.le_add_right sizeofArray _)) (le_alignMax _)

theorem item_le {start capacity size k : Nat} (hlt : k < capacity)
    (hroom : start + (arrayBlock capacity + sizeofBumpContextHeader) ≤ size) :
    start + sizeofBumpContextHeader + sizeofArray + sizeofDatum * (k + 1) ≤ size := by
  have hitems : sizeofDatum * (k + 1) ≤ sizeofDatum * capacity := Nat.mul_le_mul_left sizeofDatum hlt
  have hblock := le_alignMax (sizeofArray + sizeofDatum * capacity)
  rw [arrayBlock] at hroom
  omega

/-- The array fills the end of its context up to the mark, in a block whose header is at `start`. -/
structure AtEnd (start : Nat) (context : BumpContext) (d : DynArray Datum) : Prop where
  block : d.block = ⟨start + sizeofBumpContextHeader, arrayBlock d.capacity⟩
  mark : context.current = start + (arrayBlock d.capacity + sizeofBumpContextHeader)
  region : context.current ≤ context.size
  capacity : d.capacity = capacityFor d.size

section

variable {build : Build} {items : Nat → Datum} {start : Nat} {context context' : BumpContext} {d : DynArray Datum}
  {d' : Option (DynArray Datum)} {v : Datum}

/-- The block of an array grows where it is, if there is room for it. -/
theorem AtEnd.realloc (h : AtEnd start context d) :
    context.realloc build (some d.block) (sizeofArray + sizeofDatum * (d.capacity * 2))
      = .ok (({ context with current := start } : BumpContext).alloc (arrayBlock (d.capacity * 2))) := by
  have hheader : 0 < d.block.size ∧ d.block.size + sizeofBumpContextHeader ≤ context.size := by
    rw [h.block]
    exact ⟨arrayBlock_pos _, Nat.le_trans (Nat.le_add_left _ start) (h.mark ▸ h.region)⟩
  have hbelow : d.block.offs < context.current := by
    rw [h.block, h.mark]
    have hpos := arrayBlock_pos d.capacity
    dsimp only
    omega
  have hgrows : d.block.size < alignMax (sizeofArray + sizeofDatum * (d.capacity * 2)) := by
    have hpos : 0 < d.capacity := h.capacity ▸ capacityFor_pos _
    rw [h.block, arrayBlock, alignMax, alignMax, sizeofArray, sizeofDatum]
    dsimp only
    omega
  have hrewind : context.rewind d.block = { context with current := start } := by
    rw [BumpContext.rewind, h.block, h.mark]
    dsimp only
    rw [if_pos (by omega), Nat.add_sub_cancel]
  rw [BumpContext.realloc, Build.assert_of _ hheader, Build.assert_of _ hbelow]
  change (if sizeofArray + sizeofDatum * (d.capacity * 2) = 0 then _ else if d.block.size < _ then _ else _ :
    Except Fault (BumpContext × Option Block)) = _
  rw [if_neg (by rw [sizeofArray]; omega), if_pos hgrows, hrewind]
  rfl

theorem AtEnd.put_room (h : AtEnd start context d)
    (hroom : start + (arrayBlock (capacityFor (d.size + 1)) + sizeofBumpContextHeader) ≤ context.size) :
    ∃ context' d', DynArray.put build context items sizeofDatum (some d) v = .ok (context', some d')
      ∧ AtEnd start context' d' ∧ context'.size = context.size ∧ d'.size = d.size + 1
      ∧ d'.toList = d.toList ++ [v] := by
  have hcapacity := h.capacity
  rw [capacityFor] at hroom
  by_cases hsize : d.size = d.capacity
  · rw [if_pos (hsize.trans hcapacity), ← hcapacity] at hroom
    have hpos : 0 < d.capacity := hcapacity ▸ capacityFor_pos _
    have halign : alignMax (arrayBlock (d.capacity * 2)) = arrayBlock (d.capacity * 2) := alignMax_alignMax _
    have hrealloc := @AtEnd.realloc build start context d h
    rw [BumpContext.alloc_room (Nat.ne_of_gt (arrayBlock_pos _)) (by rwa [halign]), halign] at hrealloc
    have hraise := DynArray.raise_grown hsize (Nat.ne_of_gt hpos) hrealloc
    have hput := @DynArray.put_raised Datum build context _ items sizeofDatum v d
      { d with
        block := ⟨start + sizeofBumpContextHeader, arrayBlock (d.capacity * 2)⟩
        capacity := d.capacity * 2 } hraise rfl (item_le (by omega) hroom)
    refine ⟨_, _, hput, { block := rfl, mark := rfl, region := hroom, capacity := ?_ }, rfl, rfl,
      DynArray.toList_store d v⟩
    dsimp only
    rw [capacityFor, if_pos (hsize.trans hcapacity), ← hcapacity]
  · rw [if_neg (hcapacity ▸ hsize), ← hcapacity] at hroom
    have hlt : d.size < d.capacity := Nat.lt_of_le_of_ne (hcapacity ▸ le_capacityFor _) hsize
    have hitem : d.block.offs + sizeofArray + sizeofDatum * (d.size + 1) ≤ context.size := by
      rw [h.block]
      exact item_le hlt hroom
    have hput := @DynArray.put_raised Datum build context context items sizeofDatum v d d
      (DynArray.raise_room hsize sizeofDatum) rfl hitem
    refine ⟨_, _, hput, { block := h.block, mark := h.mark, region := h.region, capacity := ?_ }, rfl, rfl,
      DynArray.toList_store d v⟩
    dsimp only
    rw [capacityFor, if_neg (hcapacity ▸ hsize), hcapacity]

theorem AtEnd.put_full (h : AtEnd start context d)
    (hfull : context.size < start + (arrayBlock (capacityFor (d.size + 1)) + sizeofBumpContextHeader)) :
    ∃ context' d', DynArray.put build context items sizeofDatum (some d) v = .ok (context', some d')
      ∧ d'.size = d.size := by
  have hcapacity := h.capacity
  have hsize : d.size = d.capacity := by
    by_contra hne
    rw [capacityFor, if_neg (hcapacity ▸ hne), ← hcapacity, ← h.mark] at hfull
    exact absurd h.region (Nat.not_le.mpr hfull)
  have hpos : 0 < d.capacity := hcapacity ▸ capacityFor_pos _
  rw [capacityFor, if_pos (hsize.trans hcapacity), ← hcapacity] at hfull
  have halign : alignMax (arrayBlock (d.capacity * 2)) = arrayBlock (d.capacity * 2) := alignMax_alignMax _
  have hrealloc := @AtEnd.realloc build start context d h
  rw [BumpContext.alloc_full (by rwa [halign])] at hrealloc
  exact ⟨_, _, DynArray.put_dropped (DynArray.raise_failed hsize (Nat.ne_of_gt hpos) hrealloc), rfl⟩

theorem length_valuesOf_some : (valuesOf (some d)).length = d.size := d.length_toList

theorem length_put_le {d : Option (DynArray Datum)}
    (hput : DynArray.put build context items sizeofDatum d v = .ok (context', d')) :
    (valuesOf d').length ≤ (valuesOf d).length + 1 := by
  have hsome : ∀ {context d}, DynArray.put build context items sizeofDatum (some d) v = .ok (context', d') →
      (valuesOf d').length ≤ d.size + 1 := by
    intro context d hput
    obtain ⟨d₁, rfl, hle⟩ := DynArray.put_some_eq_ok hput
    rwa [length_valuesOf_some]
  cases d with
  | some d =>
      rw [length_valuesOf_some]
      exact hsome hput
  | none =>
      rw [DynArray.put_none_eq, DynArray.create_eq] at hput
      cases hblock : (context.alloc (sizeofArray + sizeofDatum * arrayDefaultCapacity)).2 with
      | none =>
          rw [hblock] at hput
          obtain ⟨-, -, hput⟩ := bind_eq_ok.mp hput
          cases hput
          exact Nat.zero_le _
      | some block =>
          rw [hblock] at hput
          exact hsome hput

theorem length_putValues_le {d : Option (DynArray Datum)} {vs : List Datum}
    (hputs : putValues build items context d vs = .ok (context', d')) :
    (valuesOf d').length ≤ (valuesOf d).length + vs.length := by
  induction vs generalizing context d with
  | nil =>
      cases hputs
      exact Nat.le_refl _
  | cons v vs ih =>
      obtain ⟨⟨context₁, d₁⟩, hput, hputs⟩ := bind_eq_ok.mp hputs
      calc
        (valuesOf d').length ≤ (valuesOf d₁).length + vs.length := ih hputs
        _ ≤ (valuesOf d).length + 1 + vs.length := Nat.add_le_add_right (length_put_le hput) _
        _ = (valuesOf d).length + (v :: vs).length := by
          rw [List.length_cons]
          omega

theorem AtEnd.putValues_room {vs : List Datum} (h : AtEnd start context d)
    (hroom : start + (arrayBlock (capacityFor (d.size + vs.length)) + sizeofBumpContextHeader) ≤ context.size) :
    ∃ context' d', putValues build items context (some d) vs = .ok (context', some d')
      ∧ AtEnd start context' d' ∧ context'.size = context.size ∧ d'.size = d.size + vs.length
      ∧ d'.toList = d.toList ++ vs := by
  induction vs generalizing context d with
  | nil => exact ⟨context, d, rfl, h, rfl, rfl, (List.append_nil _).symm⟩
  | cons v vs ih =>
      rw [List.length_cons] at hroom
      have hone : arrayBlock (capacityFor (d.size + 1)) ≤ arrayBlock (capacityFor (d.size + (vs.length + 1))) :=
        arrayBlock_mono (capacityFor_mono (by omega))
      obtain ⟨context₁, d₁, hput, h₁, hsize₁, hd₁, hlist₁⟩ :=
        @AtEnd.put_room build items start context d v h (by omega)
      have hrest : d₁.size + vs.length = d.size + (vs.length + 1) := by omega
      obtain ⟨context₂, d₂, hputs, h₂, hsize₂, hd₂, hlist₂⟩ := ih h₁ (by rwa [hrest, hsize₁])
      refine ⟨context₂, d₂, bind_eq_ok.mpr ⟨(context₁, some d₁), hput, hputs⟩, h₂, hsize₂.trans hsize₁, ?_, ?_⟩
      · rw [hd₂, hrest, List.length_cons]
      · rw [hlist₂, hlist₁, List.append_assoc, List.singleton_append]

/-- An array that has no room for all of the values misses one. -/
theorem AtEnd.putValues_full {vs : List Datum} (h : AtEnd start context d)
    (hfull : context.size < start + (arrayBlock (capacityFor (d.size + vs.length)) + sizeofBumpContextHeader))
    (hputs : putValues build items context (some d) vs = .ok (context', d')) :
    (valuesOf d').length < d.size + vs.length := by
  induction vs generalizing context d with
  | nil =>
      have hregion := h.region
      have hcapacity : capacityFor (d.size + ([] : List Datum).length) = d.capacity := h.capacity.symm
      rw [hcapacity, ← h.mark] at hfull
      omega
  | cons v vs ih =>
      obtain ⟨⟨context₁, d₁⟩, hput, hputs⟩ := bind_eq_ok.mp hputs
      rw [List.length_cons] at hfull ⊢
      by_cases hroom : start + (arrayBlock (capacityFor (d.size + 1)) + sizeofBumpContextHeader) ≤ context.size
      · obtain ⟨context₂, d₂, hput₂, h₂, hsize₂, hd₂, -⟩ := @AtEnd.put_room build items start context d v h hroom
        rw [hput] at hput₂
        cases hput₂
        have hrest : d₂.size + vs.length = d.size + (vs.length + 1) := by omega
        have hlt := ih h₂ (by rwa [hrest, hsize₂]) hputs
        omega
      · obtain ⟨context₂, d₂, hput₂, hd₂⟩ :=
          @AtEnd.put_full build items start context d v h (Nat.not_le.mp hroom)
        rw [hput] at hput₂
        cases hput₂
        have hle := length_putValues_le hputs
        rw [length_valuesOf_some] at hle
        omega

/-- The memory for a list of `IN`. -/
def valuesNeed (k : Nat) : Nat := arrayBlock (capacityFor k) + sizeofBumpContextHeader

theorem putValues_created {vs : List Datum}
    (hroom : context.current + (arrayBlock arrayDefaultCapacity + sizeofBumpContextHeader) ≤ context.size) :
    ∃ context₁ d, putValues build items context none (v :: vs) = putValues build items context₁ (some d) (v :: vs)
      ∧ AtEnd context.current context₁ d ∧ context₁.size = context.size ∧ d.size = 0 := by
  have hcreate : ∃ context₁ d, DynArray.create context items sizeofDatum arrayDefaultCapacity = (context₁, some d)
      ∧ AtEnd context.current context₁ d ∧ context₁.size = context.size ∧ d.size = 0 := by
    rw [DynArray.create_eq, BumpContext.alloc_room (by decide) hroom]
    exact ⟨_, _, rfl, { block := rfl, mark := rfl, region := hroom, capacity := rfl }, rfl, rfl⟩
  obtain ⟨context₁, d, hcreate, hrest⟩ := hcreate
  refine ⟨context₁, d, ?_, hrest⟩
  rw [putValues, putValues, DynArray.put_none_eq, hcreate]

theorem arrayBlock_default_le (k : Nat) : arrayBlock arrayDefaultCapacity + sizeofBumpContextHeader ≤ valuesNeed k :=
  Nat.add_le_add_right (arrayBlock_mono (capacityFor_mono (Nat.zero_le k))) _

theorem putValues_room {vs : List Datum} (hroom : context.current + valuesNeed (v :: vs).length ≤ context.size) :
    ∃ d, putValues build items context none (v :: vs)
        = .ok ({ context with current := context.current + valuesNeed (v :: vs).length }, some d)
      ∧ d.toList = v :: vs := by
  have hdefault := arrayBlock_default_le (v :: vs).length
  obtain ⟨context₁, d, hcreated, hat, hsize, hd⟩ :=
    @putValues_created build items context v vs (by omega)
  obtain ⟨context₂, d₂, hputs, hat₂, hsize₂, hd₂, hlist⟩ :=
    @AtEnd.putValues_room build items _ _ _ (v :: vs) hat (by rwa [hd, Nat.zero_add, hsize])
  have hcontext : context₂ = { context with current := context.current + valuesNeed (v :: vs).length } := by
    have hcurrent : context₂.current = context.current + valuesNeed (v :: vs).length := by
      rw [hat₂.mark, hat₂.capacity, hd₂, hd, Nat.zero_add]
      rfl
    rw [← hcurrent, ← hsize, ← hsize₂]
  have hempty : d.toList = [] := by
    rw [DynArray.toList, hd]
    rfl
  rw [hcontext] at hputs
  exact ⟨d₂, hcreated.trans hputs, by rw [hlist, hempty, List.nil_append]⟩

theorem putValues_full {vs : List Datum} (hfull : context.size < context.current + valuesNeed (v :: vs).length)
    (hputs : putValues build items context none (v :: vs) = .ok (context', d')) :
    (valuesOf d').length < (v :: vs).length := by
  by_cases hroom : context.current + (arrayBlock arrayDefaultCapacity + sizeofBumpContextHeader) ≤ context.size
  · obtain ⟨context₁, d, hcreated, hat, hsize, hd⟩ := @putValues_created build items context v vs hroom
    rw [hcreated] at hputs
    have hlt := hat.putValues_full (by rwa [hd, Nat.zero_add, hsize]) hputs
    rwa [hd, Nat.zero_add] at hlt
  · obtain ⟨⟨context₁, d₁⟩, hput, hputs⟩ := bind_eq_ok.mp hputs
    have hnone : context.alloc (sizeofArray + sizeofDatum * arrayDefaultCapacity) = (context, none) :=
      BumpContext.alloc_full (Nat.not_le.mp hroom)
    rw [DynArray.put_none_eq, DynArray.create_eq, hnone] at hput
    obtain ⟨-, -, hput⟩ := bind_eq_ok.mp hput
    cases hput
    have hle := length_putValues_le hputs
    have hempty : (valuesOf none).length = 0 := rfl
    rw [hempty] at hle
    rw [List.length_cons]
    omega

end

/-! ### Commands -/

/-- The bytes that an allocation takes from the context for strings. -/
def Allocation.strNeed : Allocation → Nat
  | .cat d1 d2 =>
      if d1.character.length + d2.character.length = 0 then 0
      else alignMax (d1.character.length + d2.character.length) + sizeofBumpContextHeader
  | .values _ _ => 0

/-- The bytes that an allocation takes from the context for current values. -/
def Allocation.currentNeed : Allocation → Nat
  | .cat _ _ => 0
  | .values _ vs => valuesNeed (vs.length + 1)

namespace WhereMemory

/-- All of the allocations fit behind the two marks. -/
structure HasRoom (m : WhereMemory) (qs : List Allocation) : Prop where
  str : m.str.current + (qs.map Allocation.strNeed).sum ≤ m.str.size
  current : m.current.current + (qs.map Allocation.currentNeed).sum ≤ m.current.size

/-- The marks behind an allocation. -/
def advance (m : WhereMemory) (q : Allocation) : WhereMemory where
  str := { m.str with current := m.str.current + q.strNeed }
  current := { m.current with current := m.current.current + q.currentNeed }

theorem hasRoom_cons {m : WhereMemory} {q : Allocation} {qs : List Allocation} :
    m.HasRoom (q :: qs) ↔ (m.advance q).HasRoom qs := by
  have hassoc : ∀ a b c : Nat, a + (b + c) = a + b + c := fun a b c => (Nat.add_assoc a b c).symm
  constructor
  · rintro ⟨hstr, hcurrent⟩
    rw [List.map_cons, List.sum_cons, hassoc] at hstr hcurrent
    exact ⟨hstr, hcurrent⟩
  · rintro ⟨hstr, hcurrent⟩
    refine ⟨?_, ?_⟩
    · rw [List.map_cons, List.sum_cons, hassoc]
      exact hstr
    · rw [List.map_cons, List.sum_cons, hassoc]
      exact hcurrent

theorem HasRoom.start {m : WhereMemory} {qs : List Allocation} (h : m.HasRoom qs) : m.HasRoom [] :=
  ⟨Nat.le_trans (Nat.le_add_right _ _) h.str, Nat.le_trans (Nat.le_add_right _ _) h.current⟩

section

variable {build : Build} {items : Nat → Datum} {m : WhereMemory} {q : Allocation}

theorem catData_some {d1 d2 : Datum} {str : BumpContext} {p : Block}
    (h : m.str.alloc (d1.character.length + d2.character.length) = (str, some p)) :
    m.catData d1 d2 = (.ok (makeChar (d1.character ++ d2.character)), { m with str }) := by
  rw [catData, h]

theorem catData_none {d1 d2 : Datum} {str : BumpContext}
    (h : m.str.alloc (d1.character.length + d2.character.length) = (str, none)) :
    m.catData d1 d2
      = (if d1.character.length + d2.character.length = 0 then .ok (makeChar [])
        else .error (.fault .nullPointer), { m with str }) := by
  rw [catData, h]

theorem allocate_room (h : (m.advance q).HasRoom []) : m.allocate build items q = (.ok q.complete, m.advance q) := by
  cases q with
  | cat d1 d2 =>
      have hroom := h.str
      rw [allocate, advance, Allocation.strNeed, Allocation.complete]
      rw [advance, Allocation.strNeed] at hroom
      by_cases hsize : d1.character.length + d2.character.length = 0
      · have hnone : m.str.alloc (d1.character.length + d2.character.length) = (m.str, none) := if_pos hsize
        have hempty : d1.character ++ d2.character = [] := by
          rw [← List.length_eq_zero_iff, List.length_append, hsize]
        rw [catData_none hnone, if_pos hsize, hempty]
        dsimp only
        rw [if_pos hsize]
        rfl
      · rw [if_neg hsize] at hroom ⊢
        rw [catData_some (BumpContext.alloc_room hsize hroom)]
        rfl
  | values v vs =>
      obtain ⟨d, hputs, hlist⟩ := @putValues_room build items m.current v vs h.current
      rw [allocate, hputs]
      dsimp only [valuesOf]
      rw [hlist]
      rfl

theorem allocate_full (hm : m.HasRoom []) (h : ¬ (m.advance q).HasRoom []) :
    (m.allocate build items q).1 ≠ .ok q.complete := by
  intro hright
  apply h
  cases q with
  | cat d1 d2 =>
      refine { str := ?_, current := hm.current }
      by_contra hfull
      rw [advance, Allocation.strNeed] at hfull
      by_cases hsize : d1.character.length + d2.character.length = 0
      · rw [if_pos hsize] at hfull
        exact hfull hm.str
      · rw [if_neg hsize] at hfull
        rw [allocate, catData_none (BumpContext.alloc_full (Nat.not_le.mp hfull)), if_neg hsize] at hright
        cases hright
  | values v vs =>
      refine { str := hm.str, current := ?_ }
      by_contra hfull
      rw [allocate] at hright
      split at hright
      · cases hright
      · rename_i current d hputs
        have hlt := putValues_full (Nat.not_le.mp hfull) hputs
        rw [Except.ok.inj hright] at hlt
        exact Nat.lt_irrefl _ hlt

theorem allocate_ne_mismatch : (m.allocate build items q).1 ≠ .error .mismatch := by
  intro hmismatch
  cases q with
  | cat d1 d2 =>
      obtain ⟨str, p, halloc⟩ : ∃ str p, m.str.alloc (d1.character.length + d2.character.length) = (str, p) :=
        ⟨_, _, rfl⟩
      cases p with
      | none =>
          rw [allocate, catData_none halloc] at hmismatch
          dsimp only at hmismatch
          split at hmismatch
          · cases hmismatch
          · cases hmismatch
      | some p =>
          rw [allocate, catData_some halloc] at hmismatch
          cases hmismatch
  | values v vs =>
      rw [allocate] at hmismatch
      split at hmismatch
      · cases hmismatch
      · cases hmismatch

theorem serves_iff {qs : List Allocation} (hm : m.HasRoom []) :
    Asks.Serves (allocate build items) Allocation.complete m qs ↔ m.HasRoom qs := by
  induction qs generalizing m with
  | nil => exact iff_of_true trivial hm
  | cons q qs ih =>
      by_cases hroom : (m.advance q).HasRoom []
      · have hanswer := @allocate_room build items m q hroom
        rw [Asks.Serves, hanswer, hasRoom_cons, ih hroom]
        exact and_iff_right rfl
      · refine iff_of_false ?_ ?_
        · rintro ⟨hright, -⟩
          exact allocate_full hm hroom hright
        · intro hall
          exact hroom (hasRoom_cons.mp hall).start

end

end WhereMemory

/-- An allocation is complete, or it reports that the command has failed. -/
def Met (exchange : Asks.Exchange Allocation.Result Stop) : Prop :=
  exchange.2 = .ok exchange.1.complete ∨ exchange.2 = .error .mismatch

/-- What the rows of a command allocate, up to one that stops it. -/
def demand (build : Build) (e : Tree .or) (rows : List Columns) : List Allocation :=
  (rowsProgram build e rows).asked Allocation.complete

section

variable {build : Build} {items : Nat → Datum} {m : WhereMemory} {e : Tree .or} {rows : List Columns}

/-- The allocations of a row that is evaluated come in front of those of the other rows. -/
theorem demand_cons {columns : Columns} {i : Int64} (h : e.eval build columns = .ok i) :
    demand build e (columns :: rows)
      = (e.program build columns).asked Allocation.complete ++ demand build e rows := by
  have hvalue : (e.program build columns).value Allocation.complete = .ok i := (program_value e).trans h
  exact Asks.asked_bind_of_ok hvalue

/-- With room for all of its rows, a command computes the values of its expression. -/
theorem run_of_room (h : m.HasRoom (demand build e rows)) :
    (Asks.run (WhereMemory.allocate build items) (rowsProgram build e rows) m).2
      = rows.forM (fun columns => do let _ ← e.eval build columns) := by
  rw [Asks.run_of_serves ((WhereMemory.serves_iff h.start).mpr h), rowsProgram_value]

theorem met_iff_room (hm : m.HasRoom []) :
    (∀ exchange ∈ (Asks.run (WhereMemory.allocate build items) (rowsProgram build e rows) m).1, Met exchange)
      ↔ m.HasRoom (demand build e rows) := by
  rw [demand, ← @WhereMemory.serves_iff build items m _ hm, ← Asks.right_iff_serves]
  refine forall₂_congr ?_
  intro exchange hmem
  obtain ⟨m', hanswer⟩ := Asks.exists_of_mem_run hmem
  refine or_iff_left ?_
  rw [hanswer]
  exact WhereMemory.allocate_ne_mismatch

end

/-- **Memory for the rows of a command.** The buffers of all concatenations and the lists of all `IN`s are complete
or reported exactly where those of all rows together fit into the two contexts. -/
theorem allocations_met_iff {m : WhereMemory} (hm : m.HasRoom []) (build : Build) (items : Nat → Datum)
    (e : Tree .or) (rows : List Columns) :
    (∀ exchange ∈ (Asks.run (WhereMemory.allocate build items) (rowsProgram build e rows) m).1, Met exchange)
      ↔ m.HasRoom (demand build e rows) :=
  met_iff_room hm

section

variable {build : Build}

/-- A column of a number of characters. -/
def charColumns (width : Nat) : Columns := fun _ => .ok (some (makeChar (List.replicate width 97)))

/-- `c || … || c`, with as many `||`. -/
def concats : Nat → Tree .additive
  | 0 => .additiveUnit (.multiplicativeUnit (.value (makeName [99])))
  | n + 1 => .additive .concat (concats n) (.multiplicativeUnit (.value (makeName [99])))

theorem concats_value (width n : Nat) :
    ((concats n).program build (charColumns width)).value Allocation.complete
      = .ok (makeChar (List.replicate (width * (n + 1)) 97)) := by
  rw [program_value]
  induction n with
  | zero =>
      rw [Nat.zero_add, Nat.mul_one]
      rfl
  | succ n ih =>
      have hcolumn : (Tree.multiplicativeUnit (.value (makeName [99]))).eval build (charColumns width)
          = .ok (makeChar (List.replicate width 97)) := rfl
      have hconcat (s s' : List UInt8) :
          additiveAction build .concat (makeChar s) (makeChar s') = .ok (makeChar (s ++ s')) := rfl
      rw [concats, Tree.eval, ih, hcolumn]
      refine (hconcat _ _).trans ?_
      rw [List.replicate_append_replicate, Nat.mul_succ width (n + 1)]

/-- Each `||` copies all characters in front of it. -/
theorem concats_need (n : Nat) :
    3000 * (n * (n + 3))
      ≤ 2 * ((((concats n).program build (charColumns 3000)).asked Allocation.complete).map Allocation.strNeed).sum := by
  induction n with
  | zero => exact Nat.le_refl 0
  | succ n ih =>
      have hcolumn : ((Tree.multiplicativeUnit (.value (makeName [99]))).program build (charColumns 3000)).value
          Allocation.complete = .ok (makeChar (List.replicate 3000 97)) := rfl
      have hasked : ((concats (n + 1)).program build (charColumns 3000)).asked Allocation.complete
          = ((concats n).program build (charColumns 3000)).asked Allocation.complete
            ++ [.cat (makeChar (List.replicate (3000 * (n + 1)) 97)) (makeChar (List.replicate 3000 97))] := by
        rw [concats, Tree.program, Asks.asked_bind_of_ok (concats_value 3000 n), Asks.asked_bind_of_ok hcolumn]
        rfl
      have hneed : 3000 * (n + 1) + 3000 ≤ Allocation.strNeed
          (.cat (makeChar (List.replicate (3000 * (n + 1)) 97)) (makeChar (List.replicate 3000 97))) := by
        rw [Allocation.strNeed, makeChar, makeChar, List.length_replicate, List.length_replicate, if_neg (by omega)]
        exact (le_alignMax _).trans (Nat.le_add_right _ _)
      have hsquare : (n + 1) * (n + 1 + 3) = n * (n + 3) + 2 * (n + 2) := by
        simp only [Nat.add_mul, Nat.mul_add]
        omega
      rw [hasked, List.map_append, List.sum_append, List.map_singleton, List.sum_singleton]
      omega

/-- The condition on `c || … || c` asks for the same memory. -/
theorem demand_concats (width n : Nat) :
    demand build (Tree.ofCmp (.cmpUnit (concats n))) [charColumns width]
      = ((concats n).program build (charColumns width)).asked Allocation.complete := by
  have hvalue := (program_value (concats n)).symm.trans (@concats_value build width n)
  have heval : (Tree.ofCmp (.cmpUnit (concats n))).eval build (charColumns width)
      = .ok (ofBool (! decide ((List.replicate (width * (n + 1)) (97 : UInt8)).headD 0 = 0))) := by
    rw [Tree.eval, Tree.eval, Tree.eval, Tree.eval, hvalue]
    rfl
  rw [demand_cons heval, Tree.program, Tree.program, Tree.program, Tree.program,
    Asks.asked_bind_of_ok (concats_value width n)]
  exact (List.append_nil _).trans (List.append_nil _)

theorem concats_exceed {m : WhereMemory} (hsize : m.str.size = 268435456) {n : Nat} (hn : 429 ≤ n) :
    ¬ m.HasRoom (demand build (Tree.ofCmp (.cmpUnit (concats n))) [charColumns 3000]) := by
  intro hroom
  have hneed := @concats_need build n
  have hstr := hroom.str
  have hcount : 429 * (429 + 3) ≤ n * (n + 3) := Nat.mul_le_mul hn (Nat.add_le_add_right hn 3)
  rw [demand_concats, hsize] at hstr
  omega

end

/-- `(c || c || c) IN ('a')` for two rows. -/
theorem allocations_met_iff_rows :
    ∃ m e qs, WhereMemory.init .debug 4096 = some m ∧ demand .debug e [charColumns 2, charColumns 3] = qs
      ∧ qs.length = 6 ∧ m.HasRoom qs
      ∧ ∀ exchange ∈ (Asks.run (WhereMemory.allocate .debug fun _ => makeBigint 0)
          (rowsProgram .debug e [charColumns 2, charColumns 3]) m).1, Met exchange := by
  refine ⟨_, Tree.ofCmp (.isIn (concats 2) (makeChar [97]) []), _, rfl, rfl, rfl, ?_, ?_⟩
  · exact ⟨by decide, by decide⟩
  · exact (allocations_met_iff ⟨by decide, by decide⟩ .debug (fun _ => makeBigint 0) _ _).mpr ⟨by decide, by decide⟩

/-- `SELECT c FROM s.t WHERE c || … || c` with 430 operands and one row: the results need more than 277 million bytes,
and the context has 268435456. -/
theorem concats_exceed_memory :
    ∃ m, WhereMemory.init .release 4096 = some m ∧
      ¬ ∀ exchange ∈ (Asks.run (WhereMemory.allocate .release fun _ => makeBigint 0)
          (rowsProgram .release (Tree.ofCmp (.cmpUnit (concats 429))) [charColumns 3000]) m).1, Met exchange := by
  refine ⟨_, rfl, ?_⟩
  have hm : WhereMemory.HasRoom ⟨⟨268435456, 96⟩, ⟨268435456, 96⟩⟩ [] := ⟨by decide, by decide⟩
  exact fun hmet => concats_exceed rfl (Nat.le_refl 429) ((met_iff_room hm).mp hmet)

end Execute

end Scroller
