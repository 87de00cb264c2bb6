import Scroller.Bc

/-!
# Tokens of a command

The token array of a session grows from 128 to 1024 tokens; its context has no room for 2048. The growth
that fails drops its token but keeps the new capacity in the header, so that later tokens are stored behind
the block until the region of the context ends.
-/

namespace Scroller.Bc

variable {T : Type}

/-- A growing array fills its block; one whose last growth failed claims twice its block. -/
structure Placed (build : Build) (cont : BumpContext) (a : DynArray T) : Prop where
  offs : a.block.offs = BumpContext.base build + 16
  size : a.size ≤ a.capacity
  block : ((a.capacity = 128 ∨ a.capacity = 256 ∨ a.capacity = 512 ∨ a.capacity = 1024)
      ∧ a.block.size = 32 * a.capacity + 32
      ∧ (cont.current = BumpContext.base build
        ∨ cont.current = BumpContext.base build + 16 + a.block.size))
    ∨ (a.capacity = 2048 ∧ a.block.size = 32800 ∧ a.size ≤ 2043
      ∧ cont.current = BumpContext.base build)

structure Inv (build : Build) (bc : Bc T) : Prop where
  region : bc.cont.size = 65536
  empty : bc.tokens = none → bc.cont.current = BumpContext.base build
  placed : ∀ a, bc.tokens = some a → Placed build bc.cont a

/-- The number of tokens that the array can still take. In a debug build an array from an earlier command
cannot grow, because the reset context does not reach up to it. -/
def room (build : Build) (bc : Bc T) : Nat :=
  match bc.tokens with
  | none => 1024
  | some a =>
      if a.capacity = 2048 then 2043 - a.size
      else if build = .debug ∧ bc.cont.current = BumpContext.base build then a.capacity - a.size
      else 1024 - a.size

theorem alignMax_eq (capacity : Nat) : alignMax (24 + 32 * capacity) = 32 * capacity + 32 := by
  unfold alignMax
  omega

theorem alignMax_alignMax (capacity : Nat) :
    alignMax (32 * capacity + 32) = 32 * capacity + 32 := by
  unfold alignMax
  omega

theorem base_le (build : Build) : BumpContext.base build ≤ 112 := by
  cases build <;> decide

theorem base_ge (build : Build) : 96 ≤ BumpContext.base build := by
  cases build <;> decide

/-! ### Growing -/

section Growing

variable {build : Build} {cont : BumpContext} {a : DynArray T}

theorem alloc_eq {cont : BumpContext} {capacity : Nat} (hregion : cont.size = 65536) :
    cont.alloc (32 * capacity + 32)
      = if 65536 < cont.current + (32 * capacity + 48) then (cont, none)
        else ({ cont with current := cont.current + (32 * capacity + 48) },
          some ⟨cont.current + 16, 32 * capacity + 32⟩) := by
  unfold BumpContext.alloc
  rw [if_neg (by omega), alignMax_alignMax, hregion]
  rfl

namespace Placed

theorem current (h : Placed build cont a) :
    cont.current = BumpContext.base build
      ∨ cont.current = BumpContext.base build + 16 + a.block.size := by
  rcases h.block with ⟨-, -, hcurrent⟩ | ⟨-, -, -, hcurrent⟩
  · exact hcurrent
  · exact Or.inl hcurrent

theorem header (h : Placed build cont a) (hregion : cont.size = 65536) :
    0 < a.block.size ∧ a.block.size + sizeofBumpContextHeader ≤ cont.size := by
  have hheader : sizeofBumpContextHeader = 16 := rfl
  rcases h.block with ⟨hcapacity, hblock, -⟩ | ⟨-, hblock, -⟩
  · omega
  · omega

theorem rewind (h : Placed build cont a) :
    cont.rewind a.block = { cont with current := BumpContext.base build } := by
  unfold BumpContext.rewind
  have hoffs := h.offs
  split
  · rw [hoffs]
    rfl
  · rcases h.current with hcurrent | hcurrent
    · rw [← hcurrent]
    · omega

end Placed

theorem raise_full (build : Build) (cont : BumpContext) (hsize : a.size = a.capacity) (hcapacity : a.capacity ≠ 0) :
    a.raise build cont sizeofBcNode
      = (do match ← cont.realloc build (some a.block) (24 + 32 * (a.capacity * 2)) with
            | (cont, none) => return (cont, { a with capacity := a.capacity * 2 }, false)
            | (cont, some block) =>
                return (cont, { a with block, capacity := a.capacity * 2, size := a.size + 1 },
                  true)) := by
  unfold DynArray.raise
  rw [if_pos hsize]
  simp only [if_neg hcapacity]
  rfl

/-- The reset context of a debug build does not reach up to the array. -/
theorem realloc_stale (hstale : build = .debug ∧ cont.current = BumpContext.base build)
    (h : Placed build cont a) (hregion : cont.size = 65536) (capacity : Nat) :
    cont.realloc build (some a.block) (24 + 32 * capacity) = .error .assertion := by
  obtain ⟨rfl, hcurrent⟩ := hstale
  have hoffs := h.offs
  have hbehind : ¬ a.block.offs < cont.current := by omega
  have hassert : Build.debug.assert (a.block.offs < cont.current) = .error .assertion :=
    if_neg hbehind
  unfold BumpContext.realloc
  dsimp only
  rw [Build.assert_of _ (h.header hregion), hassert, if_neg (by omega)]
  rfl

/-- Elsewhere the block is the last one, or lies behind the end of a reset context. -/
theorem realloc_grow
    (hfresh : ¬ (build = .debug ∧ cont.current = BumpContext.base build)) (h : Placed build cont a)
    (hregion : cont.size = 65536) {capacity : Nat} (hgrow : a.block.size < 32 * capacity + 32) :
    cont.realloc build (some a.block) (24 + 32 * capacity)
      = .ok (if 65536 < BumpContext.base build + (32 * capacity + 48)
          then ({ cont with current := BumpContext.base build }, none)
          else ({ cont with current := BumpContext.base build + (32 * capacity + 48) },
            some ⟨BumpContext.base build + 16, 32 * capacity + 32⟩)) := by
  have hbehind : build.assert (a.block.offs < cont.current) = .ok () := by
    rw [Build.assert_eq_ok]
    intro hdebug
    have hoffs := h.offs
    have hsize := (h.header hregion).1
    rcases h.current with hcurrent | hcurrent
    · exact absurd ⟨hdebug, hcurrent⟩ hfresh
    · omega
  unfold BumpContext.realloc
  dsimp only
  rw [Build.assert_of _ (h.header hregion), hbehind, if_neg (by omega), alignMax_eq]
  dsimp only [bind, Except.bind]
  rw [if_pos hgrow, h.rewind, alloc_eq (by exact hregion)]
  rfl

end Growing

/-! ### One token -/

section Put

variable {build : Build} {bc : Bc T} {a : DynArray T} {node : T}

theorem put_raised (a' : DynArray T) {cont : BumpContext} (htokens : bc.tokens = some a)
    (hraise : a.raise build bc.cont sizeofBcNode
      = .ok (cont, { a' with size := a.size + 1 }, true))
    (hitems : a'.items = a.items)
    (hfits : a'.block.offs + 24 + 32 * (a.size + 1) ≤ cont.size) :
    bc.put build node = .ok { bc with
      cont
      tokens := some { a' with
        size := a.size + 1, items := Function.update a.items a.size node } } := by
  unfold put
  rw [htokens, DynArray.put_raised a' hraise hitems hfits]
  rfl

theorem put_dropped {a' : DynArray T} {cont : BumpContext} (htokens : bc.tokens = some a)
    (hraise : a.raise build bc.cont sizeofBcNode = .ok (cont, a', false)) :
    bc.put build node = .ok { bc with cont, tokens := some a' } := by
  unfold put
  rw [htokens, DynArray.put_dropped hraise]
  rfl

theorem put_fault {fault : Fault} (htokens : bc.tokens = some a)
    (hraise : a.raise build bc.cont sizeofBcNode = .error fault) :
    bc.put build node = .error fault := by
  unfold put DynArray.put
  rw [htokens]
  dsimp only [bind, Except.bind]
  rw [hraise]

theorem put_overrun (a' : DynArray T) {cont : BumpContext} (htokens : bc.tokens = some a)
    (hraise : a.raise build bc.cont sizeofBcNode
      = .ok (cont, { a' with size := a.size + 1 }, true))
    (hfits : cont.size < a'.block.offs + 24 + 32 * (a.size + 1)) :
    bc.put build node = .error .outOfBounds := by
  unfold put DynArray.put DynArray.store
  rw [htokens]
  dsimp only [bind, Except.bind]
  rw [hraise]
  dsimp only
  rw [if_neg (by
    intro hle
    exact absurd hfits (Nat.not_lt.mpr hle))]

theorem put_first (h : Inv build bc) (htokens : bc.tokens = none) :
    bc.put build node = .ok { bc with
      cont := { bc.cont with current := BumpContext.base build + 4144 }
      tokens := some ⟨⟨BumpContext.base build + 16, 4128⟩, 1, 128,
        Function.update (fun _ => bc.zero) 0 node⟩ } := by
  have hregion := h.region
  have hbase := base_le build
  have halloc : bc.cont.alloc (sizeofArray + sizeofBcNode * arrayDefaultCapacity)
      = ({ bc.cont with current := BumpContext.base build + 4144 },
        some ⟨BumpContext.base build + 16, 4128⟩) := by
    unfold BumpContext.alloc
    rw [h.empty htokens, if_neg (by decide)]
    have hsz : alignMax (sizeofArray + sizeofBcNode * arrayDefaultCapacity) = 4128 := rfl
    have hheader : sizeofBumpContextHeader = 16 := rfl
    simp only [hsz, hheader]
    rw [if_neg (by omega)]
  have hne : (0 : Nat) ≠ arrayDefaultCapacity := by decide
  unfold put DynArray.put DynArray.create
  rw [htokens]
  dsimp only
  rw [halloc]
  dsimp only [bind, Except.bind]
  rw [DynArray.raise_room hne]
  dsimp only [DynArray.store]
  rw [if_pos (by
    have harray : sizeofArray = 24 := rfl
    have hnode : sizeofBcNode = 32 := rfl
    omega)]
  rfl

theorem room_eq (build : Build) (htokens : bc.tokens = some a) :
    bc.room build =
      if a.capacity = 2048 then 2043 - a.size
      else if build = .debug ∧ bc.cont.current = BumpContext.base build then a.capacity - a.size
      else 1024 - a.size := by
  unfold room
  rw [htokens]

/-- A token that fits into the capacity, whatever the block is. -/
theorem put_fits (h : Inv build bc) (htokens : bc.tokens = some a) (hsize : a.size ≠ a.capacity)
    (hroom : 0 < bc.room build) :
    ∃ bc', bc.put build node = .ok bc' ∧ Inv build bc' ∧ bc'.toList = bc.toList ++ [node]
      ∧ bc'.room build = bc.room build - 1 := by
  have hregion := h.region
  have hplaced := h.placed a htokens
  have hoffs := hplaced.offs
  have hle := hplaced.size
  have hbase := base_le build
  have hfits : a.block.offs + 24 + 32 * (a.size + 1) ≤ bc.cont.size := by
    rw [room_eq build htokens] at hroom
    rcases hplaced.block with ⟨hcapacity, -⟩ | ⟨hcapacity, -⟩
    · omega
    · rw [if_pos hcapacity] at hroom
      omega
  refine ⟨_, put_raised a htokens (DynArray.raise_room hsize sizeofBcNode) rfl hfits, ?_, ?_, ?_⟩
  · refine ⟨hregion, by simp, ?_⟩
    rintro a' ha'
    cases ha'
    refine ⟨hoffs, ?_, ?_⟩
    · simp only
      omega
    · rcases hplaced.block with hgrowing | ⟨hcapacity, hblock, hphantom, hcurrent⟩
      · exact Or.inl hgrowing
      · rw [room_eq build htokens, if_pos hcapacity] at hroom
        refine Or.inr ⟨hcapacity, hblock, ?_, hcurrent⟩
        simp only
        omega
  · simp only [toList, htokens]
    exact DynArray.toList_store a node
  · rw [room_eq build htokens] at hroom ⊢
    rw [room_eq build rfl]
    simp only at hroom ⊢
    split
    · omega
    · split
      · omega
      · omega

theorem put_grow (h : Inv build bc) (htokens : bc.tokens = some a) (hsize : a.size = a.capacity)
    (hroom : 0 < bc.room build) :
    ∃ bc', bc.put build node = .ok bc' ∧ Inv build bc' ∧ bc'.toList = bc.toList ++ [node]
      ∧ bc'.room build = bc.room build - 1 := by
  have hregion := h.region
  have hplaced := h.placed a htokens
  have hbase := base_le build
  rcases hplaced.block with ⟨hcases, hblock, -⟩ | ⟨hcapacity, -, hphantom, -⟩
  · have hne : a.capacity ≠ 2048 := by omega
    have hroomEq := room_eq build htokens
    rw [if_neg hne] at hroomEq
    have hfresh : ¬ (build = .debug ∧ bc.cont.current = BumpContext.base build) := by
      intro hstale
      rw [if_pos hstale] at hroomEq
      omega
    rw [if_neg hfresh] at hroomEq
    have hraise := raise_full build bc.cont hsize (by omega)
    rw [realloc_grow hfresh hplaced hregion (by omega), if_neg (by omega)] at hraise
    refine ⟨_, put_raised
      (⟨⟨BumpContext.base build + 16, 32 * (a.capacity * 2) + 32⟩, a.size, a.capacity * 2,
        a.items⟩) htokens hraise rfl ?_, ?_, ?_, ?_⟩
    · simp only
      omega
    · refine ⟨hregion, by simp, ?_⟩
      rintro a' ha'
      cases ha'
      refine ⟨rfl, ?_, Or.inl ⟨?_, rfl, Or.inr ?_⟩⟩
      · simp only
        omega
      · simp only
        omega
      · simp only
        omega
    · simp only [toList, htokens]
      exact DynArray.toList_store a node
    · rw [room_eq build rfl, hroomEq]
      simp only
      rw [if_neg (by omega), if_neg (by rintro ⟨-, hcurrent⟩; omega)]
      omega
  · rw [room_eq build htokens, if_pos hcapacity] at hroom
    omega

theorem put_room (node : T) (h : Inv build bc) (hroom : 0 < bc.room build) :
    ∃ bc', bc.put build node = .ok bc' ∧ Inv build bc' ∧ bc'.toList = bc.toList ++ [node]
      ∧ bc'.room build = bc.room build - 1 := by
  cases htokens : bc.tokens with
  | none =>
      refine ⟨_, put_first h htokens, ⟨h.region, by simp, ?_⟩, ?_, ?_⟩
      · rintro a ha
        cases ha
        exact ⟨rfl, by simp, Or.inl ⟨Or.inl rfl, rfl, Or.inr rfl⟩⟩
      · simp only [toList, htokens]
        rfl
      · simp [room, htokens]
  | some a =>
      by_cases hsize : a.size = a.capacity
      · exact put_grow h htokens hsize hroom
      · exact put_fits h htokens hsize hroom

/-- Without room, a token aborts the process, overruns the region or is dropped. -/
theorem put_full (h : Inv build bc) (hroom : bc.room build = 0) {bc' : Bc T}
    (hput : bc.put build node = .ok bc') : bc'.toList = bc.toList ∧ Inv build bc' := by
  have hregion := h.region
  cases htokens : bc.tokens with
  | none =>
      unfold room at hroom
      rw [htokens] at hroom
      cases hroom
  | some a =>
      have hplaced := h.placed a htokens
      have hoffs := hplaced.offs
      have hle := hplaced.size
      have hroomEq := room_eq build htokens
      rw [hroom] at hroomEq
      rcases hplaced.block with ⟨hcases, hblock, -⟩ | ⟨hcapacity, -, hphantom, -⟩
      · rw [if_neg (by omega)] at hroomEq
        by_cases hstale : build = .debug ∧ bc.cont.current = BumpContext.base build
        · rw [if_pos hstale] at hroomEq
          have hraise := raise_full build bc.cont (a := a) (by omega) (by omega)
          rw [realloc_stale hstale hplaced hregion] at hraise
          rw [put_fault htokens hraise] at hput
          cases hput
        · rw [if_neg hstale] at hroomEq
          have hraise := raise_full build bc.cont (a := a) (by omega) (by omega)
          rw [realloc_grow hstale hplaced hregion (by omega), if_pos (by omega)] at hraise
          rw [put_dropped htokens hraise] at hput
          cases hput
          constructor
          · simp only [toList, htokens]
            rfl
          · refine ⟨hregion, by simp, ?_⟩
            rintro a' ha'
            cases ha'
            refine ⟨hoffs, ?_, Or.inr ⟨?_, ?_, ?_, rfl⟩⟩
            all_goals simp only
            all_goals omega
      · rw [if_pos hcapacity] at hroomEq
        rw [put_overrun a htokens (DynArray.raise_room (by omega) sizeofBcNode) (by
          have hbase := base_ge build
          omega)] at hput
        cases hput

end Put

/-! ### The tokens of a command -/

/-- The state of the array between commands. -/
inductive Reachable (build : Build) (zero : T) : Bc T → Prop where
  | init : Reachable build zero (init build zero)
  | command {bc bc' : Bc T} {nodes : List T} : Reachable build zero bc →
      bc.puts build nodes = .ok bc' → Reachable build zero (bc'.reset build)

section Puts

variable {build : Build} {zero : T} {bc bc' : Bc T}

theorem put_inv {node : T} (h : Inv build bc) (hput : bc.put build node = .ok bc') :
    Inv build bc' := by
  rcases Nat.eq_zero_or_pos (bc.room build) with hroom | hroom
  · exact (put_full h hroom hput).2
  · obtain ⟨bc₁, hput₁, hinv, -⟩ := put_room node h hroom
    rw [hput] at hput₁
    cases hput₁
    exact hinv

theorem puts_inv {nodes : List T} (h : Inv build bc) (hputs : bc.puts build nodes = .ok bc') :
    Inv build bc' := by
  induction nodes generalizing bc with
  | nil =>
      cases hputs
      exact h
  | cons node nodes ih =>
      obtain ⟨bc₁, hput, hputs⟩ := bind_eq_ok.mp hputs
      exact ih (put_inv h hput) hputs

theorem puts_append (nodes nodes' : List T) :
    bc.puts build (nodes ++ nodes') = (bc.puts build nodes >>= fun bc => bc.puts build nodes') := by
  induction nodes generalizing bc with
  | nil => rfl
  | cons node nodes ih =>
      rw [List.cons_append, puts, puts]
      cases bc.put build node with
      | error fault => rfl
      | ok bc₁ => exact ih

theorem init_inv : Inv build (init build zero) := by
  cases build <;> exact ⟨rfl, fun _ => rfl, by rintro a ⟨⟩⟩

theorem reset_inv (h : Inv build bc) : Inv build (bc.reset build) := by
  refine ⟨h.region, fun _ => rfl, ?_⟩
  rintro a' ha'
  obtain ⟨a, ha, rfl⟩ := Option.map_eq_some_iff.mp ha'
  have hplaced := h.placed a ha
  refine ⟨hplaced.offs, Nat.zero_le _, ?_⟩
  rcases hplaced.block with ⟨hcapacity, hblock, -⟩ | ⟨hcapacity, hblock, -⟩
  · exact Or.inl ⟨hcapacity, hblock, Or.inl rfl⟩
  · exact Or.inr ⟨hcapacity, hblock, Nat.zero_le _, rfl⟩

theorem toList_reset (bc : Bc T) : (bc.reset build).toList = [] := by
  unfold toList reset
  cases bc.tokens with
  | none => rfl
  | some a => rfl

/-- An array without tokens. -/
structure Clean (build : Build) (bc : Bc T) : Prop where
  inv : Inv build bc
  empty : bc.toList = []

theorem clean_init : Clean build (init build zero) := ⟨init_inv, rfl⟩

theorem clean_reset (h : Inv build bc) : Clean build (bc.reset build) := ⟨reset_inv h, toList_reset bc⟩

namespace Reachable

theorem inv (h : Reachable build zero bc) : Inv build bc := by
  induction h with
  | init => exact init_inv
  | command h hputs ih => exact reset_inv (puts_inv ih hputs)

theorem toList_eq_nil (h : Reachable build zero bc) : bc.toList = [] := by
  cases h with
  | init => rfl
  | @command bc bc' nodes h hputs => exact toList_reset bc'

theorem clean (h : Reachable build zero bc) : Clean build bc := ⟨h.inv, h.toList_eq_nil⟩

end Reachable

theorem puts_length {nodes : List T} (h : Inv build bc) (hputs : bc.puts build nodes = .ok bc') :
    bc'.toList.length ≤ bc.toList.length + nodes.length := by
  induction nodes generalizing bc with
  | nil =>
      cases hputs
      exact Nat.le_refl _
  | cons node nodes ih =>
      obtain ⟨bc₁, hput, hputs⟩ := bind_eq_ok.mp hputs
      have hrest := ih (put_inv h hput) hputs
      have hone : bc₁.toList.length ≤ bc.toList.length + 1 := by
        rcases Nat.eq_zero_or_pos (bc.room build) with hroom | hroom
        · rw [(put_full h hroom hput).1]
          omega
        · obtain ⟨bc₂, hput', -, hlist, -⟩ := put_room node h hroom
          rw [hput] at hput'
          cases hput'
          have hlen := congrArg List.length hlist
          rw [List.length_append, List.length_singleton] at hlen
          exact Nat.le_of_eq hlen
      rw [List.length_cons]
      omega

theorem puts_room (nodes : List T) (h : Inv build bc) (hroom : nodes.length ≤ bc.room build) :
    ∃ bc', bc.puts build nodes = .ok bc' ∧ Inv build bc' ∧ bc'.toList = bc.toList ++ nodes
      ∧ bc'.room build = bc.room build - nodes.length := by
  induction nodes generalizing bc with
  | nil => exact ⟨bc, rfl, h, (List.append_nil _).symm, rfl⟩
  | cons node nodes ih =>
      rw [List.length_cons] at hroom
      obtain ⟨bc₁, hput, hinv, hlist, hroom₁⟩ := put_room node h (by omega)
      obtain ⟨bc₂, hputs, hinv₂, hlist₂, hroom₂⟩ := ih hinv (by omega)
      refine ⟨bc₂, bind_eq_ok.mpr ⟨bc₁, hput, hputs⟩, hinv₂, ?_, ?_⟩
      · rw [hlist₂, hlist, List.append_assoc]
        rfl
      · rw [hroom₂, hroom₁, List.length_cons]
        omega

/-- The array takes the tokens of a command and holds nothing else. -/
def Takes (build : Build) (bc : Bc T) (nodes : List T) : Prop := ∃ bc', bc.puts build nodes = .ok bc' ∧ bc'.toList = nodes

theorem Clean.puts {nodes : List T} (h : Clean build bc) (hroom : nodes.length ≤ bc.room build) :
    ∃ bc', bc.puts build nodes = .ok bc' ∧ bc'.toList = nodes ∧ Clean build (bc'.reset build) := by
  obtain ⟨bc', hputs, hinv, hlist, -⟩ := puts_room nodes h.inv hroom
  rw [h.empty, List.nil_append] at hlist
  exact ⟨bc', hputs, hlist, clean_reset hinv⟩

theorem Clean.takes {nodes : List T} (h : Clean build bc) (hroom : nodes.length ≤ bc.room build) :
    bc.Takes build nodes := by
  obtain ⟨bc', hputs, hlist, -⟩ := h.puts hroom
  exact ⟨bc', hputs, hlist⟩

/-- What is executed are the tokens that were put, if there is an array. -/
theorem Clean.executed {nodes : List T} (h : Clean build bc) (hroom : nodes.length ≤ bc.room build)
    (hputs : bc.puts build nodes = .ok bc') :
    bc'.tokens.map DynArray.toList = some nodes ∨ bc'.tokens.map DynArray.toList = none := by
  obtain ⟨bc₁, hputs₁, hlist, -⟩ := h.puts hroom
  obtain rfl : bc' = bc₁ := Except.ok.inj (hputs.symm.trans hputs₁)
  unfold toList at hlist
  cases htokens : bc'.tokens with
  | none => exact Or.inr rfl
  | some a =>
      rw [htokens] at hlist
      exact Or.inl (congrArg some hlist)

/-- The array is there as soon as there is a token. -/
theorem map_tokens {nodes : List T} (h : bc.toList = nodes) (hne : nodes ≠ []) :
    bc.tokens.map DynArray.toList = some nodes := by
  unfold toList at h
  cases htokens : bc.tokens with
  | none =>
      rw [htokens] at h
      exact absurd h.symm hne
  | some a =>
      rw [htokens] at h
      exact congrArg some h

theorem puts_lost {nodes : List T} (h : Inv build bc) (hroom : bc.room build < nodes.length)
    (hputs : bc.puts build nodes = .ok bc') :
    bc'.toList.length < bc.toList.length + nodes.length := by
  induction nodes generalizing bc with
  | nil => cases hroom
  | cons node nodes ih =>
      obtain ⟨bc₁, hput, hputs⟩ := bind_eq_ok.mp hputs
      rw [List.length_cons] at hroom ⊢
      rcases Nat.eq_zero_or_pos (bc.room build) with hfull | hpos
      · have hrest := puts_length (put_inv h hput) hputs
        rw [(put_full h hfull hput).1] at hrest
        omega
      · obtain ⟨bc₂, hput₂, hinv, hlist, hroom₂⟩ := put_room node h hpos
        rw [hput] at hput₂
        cases hput₂
        have hrest := ih hinv (by omega) hputs
        rw [hlist, List.length_append, List.length_singleton] at hrest
        omega

/-- A release build drops the first token that does not fit and goes on. -/
theorem put_release (h : Inv .release bc) (node : T) (hlength : bc.toList.length = 1024)
    (hroom : bc.room .release = 0) :
    ∃ bc', bc.put .release node = .ok bc' ∧ bc'.toList = bc.toList := by
  cases htokens : bc.tokens with
  | none =>
      unfold room at hroom
      rw [htokens] at hroom
      cases hroom
  | some a =>
      have hsize : a.size = 1024 := by
        unfold toList DynArray.toList at hlength
        rw [htokens] at hlength
        simpa using hlength
      have hplaced := h.placed a htokens
      have hle := hplaced.size
      have hroomEq := room_eq .release htokens
      rw [hroom] at hroomEq
      have hfresh : ¬ (Build.release = .debug ∧ bc.cont.current = BumpContext.base .release) := by
        rintro ⟨hbuild, -⟩
        cases hbuild
      rcases hplaced.block with ⟨hcases, hblock, -⟩ | ⟨hcapacity, -⟩
      · have hraise := raise_full .release bc.cont (a := a) (by omega) (by omega)
        rw [realloc_grow hfresh hplaced h.region (by omega), if_pos (by omega)] at hraise
        refine ⟨_, put_dropped htokens hraise, ?_⟩
        simp only [toList, htokens]
        rfl
      · rw [if_pos hcapacity] at hroomEq
        omega

end Puts

/-- The array holds the tokens of a command exactly when it has room for all of them. -/
theorem tokens_kept_iff {build : Build} {zero : T} {bc : Bc T} (h : Reachable build zero bc)
    (nodes : List T) :
    (∃ bc', bc.puts build nodes = .ok bc' ∧ bc'.toList = nodes) ↔ nodes.length ≤ bc.room build := by
  constructor
  · rintro ⟨bc', hputs, hlist⟩
    by_contra hroom
    have hlost := puts_lost h.inv (Nat.lt_of_not_le hroom) hputs
    rw [hlist, h.toList_eq_nil] at hlost
    simp at hlost
  · intro hroom
    exact h.clean.takes hroom

theorem tokens_kept_of_select :
    (∃ bc', (init .release 0).puts .release [1, 2, 3] = .ok bc' ∧ bc'.toList = [1, 2, 3]) ↔
      [1, 2, 3].length ≤ (init .release 0).room .release :=
  tokens_kept_iff .init [1, 2, 3]

/-- The last of 1025 tokens is dropped, and the command goes on with the others. -/
theorem token_lost :
    ∃ bc', (init .release 0).puts .release (List.replicate 1024 1 ++ [2]) = .ok bc'
      ∧ bc'.toList = List.replicate 1024 1 := by
  have hroom : (init .release 0).room .release = 1024 := rfl
  obtain ⟨bc₁, hputs, hinv, hlist, hroom₁⟩ := puts_room (List.replicate 1024 1)
    (@init_inv Nat .release 0) (Nat.le_of_eq (List.length_replicate.trans hroom.symm))
  rw [hroom, List.length_replicate] at hroom₁
  obtain ⟨bc₂, hput, hlist₂⟩ := put_release hinv 2
    ((congrArg List.length hlist).trans List.length_replicate) (by omega)
  refine ⟨bc₂, ?_, ?_⟩
  · rw [puts_append, hputs]
    simp only [bind, Except.bind, puts, hput]
  · rw [hlist₂, hlist]
    rfl

end Scroller.Bc
