import Scroller.ContextTree
import Scroller.Lib.Forest

/-!
# The links between contexts

The mapped contexts are a forest: every slot of a context holds the address of a mapped context whose parent it is, and
the other way round. A call that drops contexts walks over the slots of a context while every child that it drops takes
itself out of them, so each round starts from the forest without the trees that were dropped before.
-/

namespace Scroller

namespace ContextNode

variable {node : ContextNode} {s t : List Nat} {i : Fin contextMaxChildren} {c : Nat}

/-- A context without its links to these children. -/
def forget (node : ContextNode) (s : List Nat) : ContextNode :=
  { node with children := fun i => (node.children i).filter (· ∉ s) }

theorem forget_children_eq_some : (node.forget s).children i = some c ↔ node.children i = some c ∧ c ∉ s := by
  rw [forget, Option.filter_eq_some_iff, decide_eq_true_iff]

theorem forget_of_fresh (h : ∀ i c, node.children i = some c → c ∉ s) : node.forget s = node := by
  refine ContextNode.ext rfl rfl rfl (funext fun i => Option.ext fun c => ?_)
  rw [forget_children_eq_some]
  exact ⟨And.left, fun hc => ⟨hc, h i c hc⟩⟩

theorem forget_forget : (node.forget s).forget t = node.forget (s ++ t) := by
  refine ContextNode.ext rfl rfl rfl (funext fun i => Option.ext fun c => ?_)
  rw [forget_children_eq_some, forget_children_eq_some, forget_children_eq_some, List.mem_append, not_or, and_assoc]

end ContextNode

namespace ContextHeap

variable {build : Build} {heap heap' heap₁ heap₂ : ContextHeap} {f : Forest Nat} {c p : Nat}

/-- The parent of a mapped context. -/
def parent (heap : ContextHeap) (x : Nat) : Option Nat :=
  if x ∈ heap.mapped then (heap.node x).parent else none

/-- A context has its parent in its slots exactly where the parent has it, in one slot, and no link leads to a context
that is not mapped. -/
structure Linked (heap : ContextHeap) : Prop where
  symmetric : ∀ p ∈ heap.mapped, ∀ c, (∃ i, (heap.node p).children i = some c) ↔ heap.parent c = some p
  once : ∀ p ∈ heap.mapped, ∀ i j c, (heap.node p).children i = some c → (heap.node p).children j = some c → i = j
  child_mapped : ∀ p ∈ heap.mapped, ∀ i c, (heap.node p).children i = some c → c ∈ heap.mapped
  parent_mapped : ∀ c ∈ heap.mapped, ∀ p, (heap.node c).parent = some p → p ∈ heap.mapped

/-- New contexts are mapped to free addresses, a context is added to its parent once and to no context below it, and
only mapped contexts are reset and dropped. -/
def Allowed (heap : ContextHeap) : ContextCall → Prop
  | .create _ ret => ∀ address, ret = some address → address ∉ heap.mapped
  | .addChild context child =>
      context ∈ heap.mapped ∧ child ∈ heap.mapped ∧ heap.parent child = none ∧ ¬ Under heap.parent child context
  | .reset context => context ∈ heap.mapped
  | .drop context => ∀ c, context = some c → c ∈ heap.mapped

/-- The call unmaps these contexts, each of them once, and no others. -/
def DropsExactly (build : Build) (heap : ContextHeap) (call : ContextCall) (P : Nat → Prop) : Prop :=
  ∃ heap' dropped, heap.step build call = .ok (heap', .dropped dropped) ∧ dropped.Nodup ∧ (∀ x, x ∈ dropped ↔ P x)
    ∧ ∀ x, x ∈ heap'.mapped ↔ x ∈ heap.mapped ∧ x ∉ dropped

/-- A context is dropped with everything below it, and reset with everything below it but itself. -/
def DropsOnce (build : Build) (heap : ContextHeap) (call : ContextCall) : Prop :=
  (∀ c, call = .drop (some c) → heap.DropsExactly build call fun x => Under heap.parent c x)
    ∧ ∀ c, call = .reset c → heap.DropsExactly build call fun x => Under heap.parent c x ∧ x ≠ c

/-! ### The forest of a heap -/

/-- The mapped contexts and their links are this forest. -/
structure Represents (heap : ContextHeap) (f : Forest Nat) : Prop where
  mem_nodes : ∀ x, x ∈ f.nodes ↔ x ∈ heap.mapped
  parent : ∀ x ∈ heap.mapped, (heap.node x).parent = f.parent x
  child : ∀ x ∈ heap.mapped, ∀ c, (∃ i, (heap.node x).children i = some c) ↔ f.parent c = some x
  once : ∀ x ∈ heap.mapped, ∀ i j c, (heap.node x).children i = some c → (heap.node x).children j = some c → i = j

theorem represents_empty : empty.Represents Forest.empty where
  mem_nodes := by
    intro x
    constructor
    · intro h
      exact absurd h (Finset.notMem_empty x)
    · intro h
      cases h
  parent := by
    intro x h
    cases h
  child := by
    intro x h
    cases h
  once := by
    intro x h
    cases h

namespace Represents

theorem parent_eq (h : heap.Represents f) : heap.parent = f.parent := by
  funext x
  rw [ContextHeap.parent]
  split
  · rename_i hx
    exact h.parent x hx
  · rename_i hx
    symm
    rw [Option.eq_none_iff_forall_ne_some]
    intro p hp
    exact hx ((h.mem_nodes x).mp (f.child_mem x p hp))

theorem mapped_of_parent (h : heap.Represents f) (hp : f.parent c = some p) : c ∈ heap.mapped ∧ p ∈ heap.mapped :=
  ⟨(h.mem_nodes c).mp (f.child_mem c p hp), (h.mem_nodes p).mp (f.parent_mem c p hp)⟩

theorem linked (h : heap.Represents f) : heap.Linked where
  symmetric := by
    rw [h.parent_eq]
    exact h.child
  once := h.once
  child_mapped := fun p hp i c hc => (h.mapped_of_parent ((h.child p hp c).mp ⟨i, hc⟩)).1
  parent_mapped := by
    intro c hc p hp
    rw [h.parent c hc] at hp
    exact (h.mapped_of_parent hp).2

theorem card_tree_le (h : heap.Represents f) (c : Nat) : (f.tree c).card ≤ heap.mapped.length := by
  have hsub : f.nodes ⊆ heap.mapped.toFinset := fun x hx => List.mem_toFinset.mpr ((h.mem_nodes x).mp hx)
  calc
    (f.tree c).card ≤ f.nodes.card := f.card_tree_le c
    _ ≤ heap.mapped.toFinset.card := Finset.card_le_card hsub
    _ ≤ heap.mapped.length := List.toFinset_card_le _

end Represents

/-! ### Reads and writes -/

theorem load_of_mem (h : c ∈ heap.mapped) : heap.load c = .ok (heap.node c) := if_pos h

theorem store_of_mem (h : c ∈ heap.mapped) (g : ContextNode → ContextNode) :
    heap.store c g = .ok { heap with node := Function.update heap.node c (g (heap.node c)) } := by
  rw [store, load_of_mem h]
  rfl

theorem store_of_fixed (h : c ∈ heap.mapped) {g : ContextNode → ContextNode} (hg : g (heap.node c) = heap.node c) :
    heap.store c g = .ok heap := by
  rw [store_of_mem h, hg, Function.update_eq_self]

theorem setChild_of_none {node : ContextNode} {i : Fin contextMaxChildren} (h : node.children i = none) :
    setChild i none node = node := by
  rw [setChild, ← h, Function.update_eq_self]

theorem Represents.store (h : heap.Represents f) {g : ContextNode → ContextNode}
    (hparent : (g (heap.node c)).parent = (heap.node c).parent)
    (hchildren : (g (heap.node c)).children = (heap.node c).children) :
    ({ heap with node := Function.update heap.node c (g (heap.node c)) } : ContextHeap).Represents f := by
  have hlinks : ∀ x, (Function.update heap.node c (g (heap.node c)) x).parent = (heap.node x).parent
      ∧ (Function.update heap.node c (g (heap.node c)) x).children = (heap.node x).children := by
    intro x
    by_cases hx : x = c
    · subst hx
      rw [Function.update_self]
      exact ⟨hparent, hchildren⟩
    · rw [Function.update_of_ne hx]
      exact ⟨rfl, rfl⟩
  refine ⟨h.mem_nodes, ?_, ?_, ?_⟩
  · intro x hx
    rw [(hlinks x).1]
    exact h.parent x hx
  · intro x hx
    rw [(hlinks x).2]
    exact h.child x hx
  · intro x hx
    rw [(hlinks x).2]
    exact h.once x hx

/-! ### New contexts and new children -/

theorem Represents.insert (h : heap.Represents f) (context : BumpContext) {address : Nat}
    (hnew : address ∉ heap.mapped) :
    (⟨address :: heap.mapped, Function.update heap.node address ⟨context, none, fun _ => none⟩⟩ :
      ContextHeap).Represents (f.insert address) := by
  have hroot : ∀ p, f.parent address ≠ some p := fun p hp => hnew (h.mapped_of_parent hp).1
  have hleaf : ∀ c, f.parent c ≠ some address := fun c hc => hnew (h.mapped_of_parent hc).2
  refine ⟨?_, ?_, ?_, ?_⟩
  · intro x
    rw [Forest.insert, Finset.mem_insert, List.mem_cons, h.mem_nodes]
  · intro x hx
    dsimp only [Forest.insert]
    by_cases hxa : x = address
    · rw [hxa, Function.update_self]
      exact (Option.eq_none_iff_forall_ne_some.mpr hroot).symm
    · rw [Function.update_of_ne hxa]
      exact h.parent x ((List.mem_cons.mp hx).resolve_left hxa)
  · intro x hx c
    dsimp only [Forest.insert]
    by_cases hxa : x = address
    · rw [hxa, Function.update_self]
      constructor
      · rintro ⟨i, hi⟩
        cases hi
      · intro hc
        exact absurd hc (hleaf c)
    · rw [Function.update_of_ne hxa]
      exact h.child x ((List.mem_cons.mp hx).resolve_left hxa) c
  · intro x hx
    dsimp only
    by_cases hxa : x = address
    · rw [hxa, Function.update_self]
      intro i j c hi
      cases hi
    · rw [Function.update_of_ne hxa]
      exact h.once x ((List.mem_cons.mp hx).resolve_left hxa)

theorem create_spec (h : heap.Represents f) (size : Nat) {ret : Option Nat}
    (hfree : ∀ address, ret = some address → address ∉ heap.mapped) :
    heap.create build size ret = (heap, none)
      ∨ ∃ address heap', ret = some address ∧ heap.create build size ret = (heap', some address)
        ∧ heap'.Represents (f.insert address) := by
  unfold create
  cases BumpContext.create build size with
  | none => exact .inl rfl
  | some context =>
      cases ret with
      | none => exact .inl rfl
      | some address =>
          exact .inr ⟨address, _, rfl, rfl, h.insert context (hfree address rfl)⟩

/-- The slots of a context with a new child in an empty slot. -/
theorem setChild_eq_some {node : ContextNode} {i j : Fin contextMaxChildren} {d : Nat} :
    (setChild i (some c) node).children j = some d ↔ j = i ∧ d = c ∨ j ≠ i ∧ node.children j = some d := by
  rw [setChild]
  dsimp only
  by_cases hj : j = i
  · subst hj
    rw [Function.update_self]
    simp [eq_comm]
  · rw [Function.update_of_ne hj]
    simp [hj]

/-- A child in an empty slot of its new parent, and the parent in the child. -/
theorem Represents.link (h : heap.Represents f) {i : Fin contextMaxChildren} (hempty : (heap.node p).children i = none)
    (hc : c ∈ f.nodes) (hp : p ∈ f.nodes) (hroot : f.parent c = none) (hfree : ¬ f.Below c p) :
    ({ heap with
        node := Function.update (Function.update heap.node p (setChild i (some c) (heap.node p))) c
          { heap.node c with parent := some p } } : ContextHeap).Represents (f.link c p hc hp hroot hfree) := by
  have hne : p ≠ c := by
    rintro rfl
    exact hfree .self
  have hparent : ∀ x, (Function.update (Function.update heap.node p (setChild i (some c) (heap.node p))) c
      { heap.node c with parent := some p } x).parent = if x = c then some p else (heap.node x).parent := by
    intro x
    by_cases hx : x = c
    · rw [hx, Function.update_self, if_pos rfl]
    · rw [Function.update_of_ne hx, if_neg hx]
      by_cases hxp : x = p
      · rw [hxp, Function.update_self]
        rfl
      · rw [Function.update_of_ne hxp]
  have hchildren : ∀ x, (Function.update (Function.update heap.node p (setChild i (some c) (heap.node p))) c
      { heap.node c with parent := some p } x).children
        = if x = p then (setChild i (some c) (heap.node p)).children else (heap.node x).children := by
    intro x
    by_cases hx : x = c
    · rw [hx, Function.update_self, if_neg hne.symm]
    · rw [Function.update_of_ne hx]
      by_cases hxp : x = p
      · rw [hxp, Function.update_self, if_pos rfl]
      · rw [Function.update_of_ne hxp, if_neg hxp]
  refine ⟨h.mem_nodes, ?_, ?_, ?_⟩
  · intro x hx
    rw [hparent]
    dsimp only [Forest.link]
    by_cases hxc : x = c
    · rw [if_pos hxc, hxc, Function.update_self]
    · rw [if_neg hxc, Function.update_of_ne hxc]
      exact h.parent x hx
  · intro x hx d
    rw [hchildren]
    dsimp only [Forest.link]
    by_cases hd : d = c
    · subst hd
      rw [Function.update_self]
      by_cases hxp : x = p
      · subst hxp
        rw [if_pos rfl]
        exact ⟨fun _ => rfl, fun _ => ⟨i, setChild_eq_some.mpr (.inl ⟨rfl, rfl⟩)⟩⟩
      · rw [if_neg hxp, h.child x hx, hroot]
        constructor
        · intro hnone
          cases hnone
        · intro hsome
          cases hsome
          exact absurd rfl hxp
    · rw [Function.update_of_ne hd]
      by_cases hxp : x = p
      · subst hxp
        rw [if_pos rfl, ← h.child x hx]
        refine exists_congr fun j => ?_
        rw [setChild_eq_some]
        constructor
        · rintro (⟨-, heq⟩ | ⟨-, hj⟩)
          · exact absurd heq hd
          · exact hj
        · intro hj
          refine .inr ⟨?_, hj⟩
          rintro rfl
          rw [hempty] at hj
          cases hj
      · rw [if_neg hxp]
        exact h.child x hx d
  · intro x hx j k d
    rw [hchildren]
    by_cases hxp : x = p
    · subst hxp
      rw [if_pos rfl, setChild_eq_some, setChild_eq_some]
      -- the root was in no slot before
      have hnew : ∀ j, (heap.node x).children j ≠ some c := by
        intro j hj
        rw [(h.child x hx c).mp ⟨j, hj⟩] at hroot
        cases hroot
      rintro (⟨rfl, rfl⟩ | ⟨-, hj⟩) (⟨rfl, hd⟩ | ⟨-, hk⟩)
      · rfl
      · exact absurd hk (hnew k)
      · rw [hd] at hj
        exact absurd hj (hnew j)
      · exact h.once x hx j k d hj hk
    · rw [if_neg hxp]
      exact h.once x hx j k d

theorem addChild_spec (h : heap.Represents f) (hc : c ∈ f.nodes) (hp : p ∈ f.nodes) (hroot : f.parent c = none)
    (hfree : ¬ f.Below c p) :
    heap.addChild p c = .ok (heap, none)
      ∨ ∃ heap', heap.addChild p c = .ok (heap', some c) ∧ heap'.Represents (f.link c p hc hp hroot hfree) := by
  have hpm := (h.mem_nodes p).mp hp
  have hcm := (h.mem_nodes c).mp hc
  have hne : c ≠ p := by
    rintro rfl
    exact hfree .self
  rw [addChild, load_of_mem hpm]
  dsimp only [bind, Except.bind]
  split
  · exact .inl rfl
  · rename_i i hi
    have hempty : (heap.node p).children i = none := by simpa using List.find?_some hi
    right
    rw [store_of_mem hpm]
    dsimp only
    have hcm₁ : c ∈ ({ heap with node := Function.update heap.node p (setChild i (some c) (heap.node p)) } :
        ContextHeap).mapped := hcm
    rw [setParent, store_of_mem hcm₁]
    dsimp only
    rw [Function.update_of_ne hne]
    exact ⟨_, rfl, h.link hempty hc hp hroot hfree⟩

/-! ### Contexts go -/

/-- The contexts of a set were unmapped, each of them once, and the others lost their links to them. -/
structure Removes (s : Set Nat) (heap heap' : ContextHeap) (dropped : List Nat) : Prop where
  nodup : dropped.Nodup
  mem : ∀ x, x ∈ dropped ↔ x ∈ s
  mapped : ∀ x, x ∈ heap'.mapped ↔ x ∈ heap.mapped ∧ x ∉ s
  node : ∀ x ∈ heap'.mapped, heap'.node x = (heap.node x).forget dropped

namespace Removes

variable {s t u : Set Nat} {left right : List Nat}

theorem refl (heap : ContextHeap) (hs : ∀ x, x ∉ s) : Removes s heap heap [] where
  nodup := List.nodup_nil
  mem := fun x => ⟨fun h => absurd h List.not_mem_nil, fun h => absurd h (hs x)⟩
  mapped := fun x => ⟨fun h => ⟨h, hs x⟩, And.left⟩
  node := fun _ _ => (ContextNode.forget_of_fresh fun _ _ _ => List.not_mem_nil).symm

theorem trans (hleft : Removes s heap heap₁ left) (hright : Removes t heap₁ heap₂ right) (hdisj : ∀ x ∈ t, x ∉ s)
    (hunion : ∀ x, x ∈ u ↔ x ∈ s ∨ x ∈ t) : Removes u heap heap₂ (left ++ right) where
  nodup := by
    refine List.nodup_append.mpr ⟨hleft.nodup, hright.nodup, ?_⟩
    rintro x hx y hy rfl
    exact hdisj x ((hright.mem x).mp hy) ((hleft.mem x).mp hx)
  mem := by
    intro x
    rw [List.mem_append, hleft.mem, hright.mem, hunion]
  mapped := by
    intro x
    rw [hright.mapped, hleft.mapped, hunion, not_or, and_assoc]
  node := by
    intro x hx
    rw [hright.node x hx, hleft.node x ((hright.mapped x).mp hx).1, ContextNode.forget_forget]

/-- The links that are left are those of the forest without the removed trees. -/
theorem represents (hr : Removes s heap heap' left) (h : heap.Represents f) (hs : f.Closed s) :
    heap'.Represents (f.without s hs) where
  mem_nodes := by
    intro x
    rw [Forest.mem_without, hr.mapped, h.mem_nodes]
  parent := by
    intro x hx
    obtain ⟨hmapped, hxs⟩ := (hr.mapped x).mp hx
    rw [hr.node x hx, Forest.without_parent hxs]
    exact h.parent x hmapped
  child := by
    intro x hx c
    obtain ⟨hmapped, hxs⟩ := (hr.mapped x).mp hx
    rw [hr.node x hx, Forest.without_parent_eq_some, ← h.child x hmapped c, ← hr.mem c, exists_and_right.symm]
    exact exists_congr fun i => ContextNode.forget_children_eq_some
  once := by
    intro x hx i j c hi hj
    rw [hr.node x hx] at hi hj
    exact h.once x ((hr.mapped x).mp hx).1 i j c (ContextNode.forget_children_eq_some.mp hi).1
      (ContextNode.forget_children_eq_some.mp hj).1

end Removes

/-! ### Dropping a context -/

/-- A context without children takes itself out of its parent and is unmapped. -/
theorem leave_spec (h : heap.Represents f) (hc : c ∈ heap.mapped) :
    ∃ heap', heap.leave c (f.parent c) = .ok heap' ∧ Removes {c} heap (heap'.munmap c) [c] := by
  have hmem : ∀ x, x ∈ [c] ↔ x ∈ ({c} : Set Nat) := fun x => List.mem_singleton
  have hmapped : ∀ x, x ∈ heap.mapped.filter (· ≠ c) ↔ x ∈ heap.mapped ∧ x ∉ ({c} : Set Nat) := by
    intro x
    rw [List.mem_filter, decide_eq_true_iff]
    rfl
  -- only the parent has the context in its slots
  have hother : ∀ x ∈ heap.mapped, f.parent c ≠ some x → heap.node x = (heap.node x).forget [c] := by
    intro x hx hparent
    refine (ContextNode.forget_of_fresh ?_).symm
    rintro i d hd hdc
    rw [List.mem_singleton.mp hdc] at hd
    exact hparent ((h.child x hx c).mp ⟨i, hd⟩)
  cases hparent : f.parent c with
  | none =>
      refine ⟨heap, rfl, List.nodup_singleton c, hmem, hmapped, ?_⟩
      intro x hx
      refine hother x ((hmapped x).mp hx).1 ?_
      rw [hparent]
      exact nofun
  | some p =>
      have hp : p ∈ heap.mapped := (h.mapped_of_parent hparent).2
      obtain ⟨j, hj⟩ := (h.child p hp c).mpr hparent
      obtain ⟨i, hfind⟩ : ∃ i, contextSlots.find? (fun i => (heap.node p).children i = some c) = some i :=
        Option.isSome_iff_exists.mp (List.find?_isSome.mpr ⟨j, List.mem_finRange j, by simpa using hj⟩)
      have hi : (heap.node p).children i = some c := by simpa using List.find?_some hfind
      have hnode : setChild i none (heap.node p) = (heap.node p).forget [c] := by
        refine ContextNode.ext rfl rfl rfl (funext fun k => Option.ext fun d => ?_)
        rw [ContextNode.forget_children_eq_some, List.mem_singleton, setChild]
        dsimp only
        by_cases hk : k = i
        · rw [hk, Function.update_self, hi]
          simp [eq_comm]
        · rw [Function.update_of_ne hk]
          refine ⟨fun hd => ⟨hd, ?_⟩, And.left⟩
          rintro rfl
          exact hk (h.once p hp k i d hd hi)
      refine ⟨{ heap with node := Function.update heap.node p ((heap.node p).forget [c]) }, ?_,
        List.nodup_singleton c, hmem, hmapped, ?_⟩
      · rw [leave, eraseChild, load_of_mem hp]
        dsimp only [bind, Except.bind]
        rw [hfind]
        dsimp only
        rw [store_of_mem hp, hnode]
        rfl
      · intro x hx
        have hxm := ((hmapped x).mp hx).1
        dsimp only [munmap]
        by_cases hxp : x = p
        · rw [hxp, Function.update_self]
        · rw [Function.update_of_ne hxp]
          refine hother x hxm ?_
          rw [hparent]
          exact fun heq => hxp (Option.some.inj heq).symm

/-- A call unmaps the tree of a context, whatever forest it lies in. -/
def DropsTree (drop : ContextHeap → Nat → Except Fault (ContextHeap × List Nat)) (depth : Nat) : Prop :=
  ∀ heap f c, Represents heap f → c ∈ heap.mapped → (f.tree c).card ≤ depth →
    ∃ heap' dropped, drop heap c = .ok (heap', dropped) ∧ Removes {x | f.Below c x} heap heap' dropped

/-- **The loop over the children.** In front of every round the slots that were passed are empty, and the trees of the
children in the slots ahead are as they were. -/
theorem dropChildren_spec {drop : ContextHeap → Nat → Except Fault (ContextHeap × List Nat)} {depth : Nat}
    (hdrop : DropsTree drop depth) (clear : Bool) (slots : List (Fin contextMaxChildren)) (h : heap.Represents f)
    (hc : c ∈ heap.mapped) (hcard : (f.tree c).card ≤ depth + 1)
    (hslots : ∀ i, i ∉ slots → (heap.node c).children i = none) :
    ∃ heap' dropped, dropChildren drop clear c slots heap = .ok (heap', dropped)
      ∧ Removes {x | f.Below c x ∧ x ≠ c} heap heap' dropped := by
  induction slots generalizing heap f with
  | nil =>
      have hleaf : ∀ d, f.parent d ≠ some c := by
        intro d hd
        obtain ⟨i, hi⟩ := (h.child c hc d).mpr hd
        rw [hslots i List.not_mem_nil] at hi
        cases hi
      refine ⟨heap, [], rfl, Removes.refl heap ?_⟩
      rintro x ⟨hbelow, hne⟩
      exact hne ((Forest.below_iff_of_leaf hleaf).mp hbelow)
  | cons i slots ih =>
      rw [dropChildren, load_of_mem hc]
      dsimp only [bind, Except.bind]
      cases hi : (heap.node c).children i with
      | none =>
          refine ih h hc hcard ?_
          intro j hj
          by_cases hji : j = i
          · rw [hji, hi]
          · exact hslots j fun hmem => (List.mem_cons.mp hmem).elim hji hj
      | some d =>
          have hparent : f.parent d = some c := (h.child c hc d).mp ⟨i, hi⟩
          have hnot : ¬ f.Below d c := Forest.not_below_parent hparent
          have hlt := Forest.card_tree_lt hparent
          obtain ⟨heap₁, first, hok, hfirst⟩ := hdrop heap f d h (h.mapped_of_parent hparent).1 (by omega)
          have hrep := hfirst.represents h (f.closed_below d)
          have hc₁ : c ∈ heap₁.mapped := (hfirst.mapped c).mpr ⟨hc, hnot⟩
          have hnode : ∀ j,
              (heap₁.node c).children j = none ↔ ∀ x, (heap.node c).children j = some x → f.Below d x := by
            intro j
            rw [hfirst.node c hc₁, Option.eq_none_iff_forall_ne_some]
            refine forall_congr' fun x => ?_
            rw [Ne, ContextNode.forget_children_eq_some, not_and, not_not, hfirst.mem]
            rfl
          -- the child took itself out of the slot
          have hcleared : (heap₁.node c).children i = none := by
            rw [hnode, hi]
            rintro x hx
            cases hx
            exact .self
          have hstore : (if clear then heap₁.store c (setChild i none) else pure heap₁) = .ok heap₁ := by
            rw [store_of_fixed hc₁ (setChild_of_none hcleared)]
            exact ite_self _
          have hslots₁ : ∀ j, j ∉ slots → (heap₁.node c).children j = none := by
            intro j hj
            by_cases hji : j = i
            · rw [hji, hcleared]
            · rw [hnode, hslots j fun hmem => (List.mem_cons.mp hmem).elim hji hj]
              exact nofun
          have hcard₁ := (Forest.card_tree_without_le (f.closed_below d) ((h.mem_nodes c).mpr hc) hnot).trans hcard
          obtain ⟨heap₂, rest, hrest, hremoves⟩ := ih hrep hc₁ hcard₁ hslots₁
          refine ⟨heap₂, first ++ rest, ?_, hfirst.trans hremoves ?_ ?_⟩
          · dsimp only
            rw [hok]
            dsimp only
            rw [hstore]
            dsimp only
            rw [hrest]
            rfl
          · rintro x ⟨hbelow, -⟩
            exact ((Forest.without_below (f.closed_below d) hnot).mp hbelow).2
          · intro x
            have hwithout := Forest.without_below (x := x) (f.closed_below d) hnot
            constructor
            · rintro ⟨hbelow, hne⟩
              by_cases hd : f.Below d x
              · exact .inl hd
              · exact .inr ⟨hwithout.mpr ⟨hbelow, hd⟩, hne⟩
            · rintro (hbelow | ⟨hbelow, hne⟩)
              · refine ⟨Under.trans hbelow (.of_parent hparent), ?_⟩
                rintro rfl
                exact hnot hbelow
              · exact ⟨(hwithout.mp hbelow).1, hne⟩

/-- **Drop.** The induction is on the depth of the calls, which the sizes of the trees bound. -/
theorem drop_spec (depth : Nat) : DropsTree (fun heap c => drop depth heap (some c)) depth := by
  induction depth with
  | zero =>
      intro heap f c h hc hcard
      have hself : c ∈ f.tree c := (Forest.mem_tree ((h.mem_nodes c).mpr hc)).mpr .self
      rw [Finset.card_eq_zero.mp (Nat.le_zero.mp hcard)] at hself
      exact absurd hself (Finset.notMem_empty c)
  | succ depth ih =>
      intro heap f c h hc hcard
      obtain ⟨heap₁, dropped, hok, hremoves⟩ := dropChildren_spec ih false contextSlots h hc hcard
        fun i hi => absurd (List.mem_finRange i) hi
      have hnot : c ∉ {x | f.Below c x ∧ x ≠ c} := fun hself => hself.2 rfl
      have hrep := hremoves.represents h (f.closed_strictly_below c)
      have hc₁ : c ∈ heap₁.mapped := (hremoves.mapped c).mpr ⟨hc, hnot⟩
      obtain ⟨heap₂, hleave, hself⟩ := leave_spec hrep hc₁
      refine ⟨heap₂.munmap c, dropped ++ [c], ?_, hremoves.trans hself ?_ ?_⟩
      · dsimp only
        rw [drop, hok]
        dsimp only [bind, Except.bind]
        rw [load_of_mem hc₁]
        dsimp only
        rw [hrep.parent c hc₁, hleave]
        rfl
      · rintro x rfl
        exact hnot
      · intro x
        by_cases hx : x = c
        · subst hx
          exact ⟨fun _ => .inr rfl, fun _ => .self⟩
        · constructor
          · exact fun hbelow => .inl ⟨hbelow, hx⟩
          · rintro (⟨hbelow, -⟩ | heq)
            · exact hbelow
            · exact absurd heq hx

/-- **Reset.** The assignments behind the calls find the slots empty. -/
theorem reset_spec (build : Build) {depth : Nat} (h : heap.Represents f) (hc : c ∈ heap.mapped)
    (hcard : (f.tree c).card ≤ depth + 1) :
    ∃ heap₁ heap' dropped, heap.reset build depth c = .ok (heap', dropped) ∧ heap₁.Represents f
      ∧ Removes {x | f.Below c x ∧ x ≠ c} heap₁ heap' dropped := by
  have hrep := h.store (c := c) (g := fun node => { node with toBumpContext := node.toBumpContext.reset build }) rfl rfl
  obtain ⟨heap', dropped, hok, hremoves⟩ := dropChildren_spec (drop_spec depth) true contextSlots hrep hc hcard
    fun i hi => absurd (List.mem_finRange i) hi
  refine ⟨_, heap', dropped, ?_, hrep, hremoves⟩
  rw [reset, store_of_mem hc]
  exact hok

/-! ### Runs -/

/-- What a call does to the forest. -/
inductive ForestStep : Forest Nat → ContextCall → ContextReply → Forest Nat → Prop
  | create {f : Forest Nat} {size address : Nat} (hnew : address ∉ f.nodes) :
      ForestStep f (.create size (some address)) (.context (some address)) (f.insert address)
  | failed {f : Forest Nat} {size : Nat} {ret : Option Nat} : ForestStep f (.create size ret) (.context none) f
  | addChild {f : Forest Nat} {c p : Nat} (hc : c ∈ f.nodes) (hp : p ∈ f.nodes) (hroot : f.parent c = none)
      (hfree : ¬ f.Below c p) :
      ForestStep f (.addChild p c) (.context (some c)) (f.link c p hc hp hroot hfree)
  | full {f : Forest Nat} {c p : Nat} : ForestStep f (.addChild p c) (.context none) f
  | reset {f : Forest Nat} {c : Nat} {dropped : List Nat} (hnodup : dropped.Nodup)
      (hmem : ∀ x, x ∈ dropped ↔ f.Below c x ∧ x ≠ c) :
      ForestStep f (.reset c) (.dropped dropped) (f.without {x | f.Below c x ∧ x ≠ c} (f.closed_strictly_below c))
  | drop {f : Forest Nat} {c : Nat} {dropped : List Nat} (hnodup : dropped.Nodup)
      (hmem : ∀ x, x ∈ dropped ↔ f.Below c x) :
      ForestStep f (.drop (some c)) (.dropped dropped) (f.without {x | f.Below c x} (f.closed_below c))
  | dropNull {f : Forest Nat} : ForestStep f (.drop none) (.dropped []) f

/-- **Refinement.** An allowed call uses no context that is not mapped and changes the forest. -/
theorem step_refines (build : Build) {call : ContextCall} (h : heap.Represents f) (hallowed : heap.Allowed call) :
    ∃ heap' reply f', heap.step build call = .ok (heap', reply) ∧ ForestStep f call reply f' ∧ heap'.Represents f' := by
  have hbound : ∀ c, (f.tree c).card ≤ heap.mapped.length + 1 := fun c => (h.card_tree_le c).trans (Nat.le_succ _)
  cases call with
  | create size ret =>
      rw [step]
      rcases create_spec h size hallowed with heq | ⟨address, heap', rfl, heq, hrep⟩
      · rw [heq]
        exact ⟨heap, _, f, rfl, .failed, h⟩
      · rw [heq]
        exact ⟨heap', _, _, rfl, .create fun hmem => hallowed address rfl ((h.mem_nodes address).mp hmem), hrep⟩
  | addChild p c =>
      obtain ⟨hp, hc, hroot, hfree⟩ := hallowed
      rw [h.parent_eq] at hroot hfree
      have hpn := (h.mem_nodes p).mpr hp
      have hcn := (h.mem_nodes c).mpr hc
      rw [step]
      rcases addChild_spec h hcn hpn hroot hfree with heq | ⟨heap', heq, hrep⟩
      · rw [heq]
        exact ⟨heap, _, f, rfl, .full, h⟩
      · rw [heq]
        exact ⟨heap', _, _, rfl, .addChild hcn hpn hroot hfree, hrep⟩
  | reset c =>
      obtain ⟨heap₁, heap', dropped, hok, hrep, hremoves⟩ :=
        reset_spec build h hallowed ((hbound c).trans (Nat.le_succ _))
      rw [step, hok]
      exact ⟨heap', _, _, rfl, .reset hremoves.nodup hremoves.mem, hremoves.represents hrep (f.closed_strictly_below c)⟩
  | drop context =>
      rw [step]
      cases context with
      | none =>
          rw [drop]
          exact ⟨heap, _, f, rfl, .dropNull, h⟩
      | some c =>
          obtain ⟨heap', dropped, hok, hremoves⟩ :=
            drop_spec (heap.mapped.length + 1) heap f c h (hallowed c rfl) (hbound c)
          dsimp only at hok
          rw [hok]
          exact ⟨heap', _, _, rfl, .drop hremoves.nodup hremoves.mem, hremoves.represents h (f.closed_below c)⟩

theorem dropsExactly_of_step {call : ContextCall} {s : Set Nat} {hs : f.Closed s} {dropped : List Nat} {P : Nat → Prop}
    (h : heap.Represents f) (hstep : heap.step build call = .ok (heap', .dropped dropped))
    (hrep : heap'.Represents (f.without s hs)) (hnodup : dropped.Nodup) (hmem : ∀ x, x ∈ dropped ↔ x ∈ s)
    (hP : ∀ x, x ∈ s ↔ P x) : heap.DropsExactly build call P := by
  refine ⟨heap', dropped, hstep, hnodup, fun x => (hmem x).trans (hP x), ?_⟩
  intro x
  rw [← hrep.mem_nodes, Forest.mem_without, h.mem_nodes, hmem]

theorem dropsOnce {call : ContextCall} (h : heap.Represents f) (hallowed : heap.Allowed call) :
    heap.DropsOnce build call := by
  obtain ⟨heap', reply, f', hstep, hforest, hrep⟩ := step_refines build h hallowed
  constructor
  · rintro c rfl
    rw [h.parent_eq]
    cases hforest with
    | drop hnodup hmem => exact dropsExactly_of_step h hstep hrep hnodup hmem fun x => Iff.rfl
  · rintro c rfl
    rw [h.parent_eq]
    cases hforest with
    | reset hnodup hmem => exact dropsExactly_of_step h hstep hrep hnodup hmem fun x => Iff.rfl

/-- **Context trees.** A run of allowed calls uses mapped contexts only, leaves links that agree in both directions, and
drops every context that goes once. -/
theorem run_linked {calls : List ContextCall} (hallowed : Machine.Along (step build) Allowed empty calls) :
    ∃ heap hist, Machine.exec (step build) empty calls = .ok (heap, hist) ∧ heap.Linked
      ∧ Machine.Along (step build) (DropsOnce build) empty calls := by
  obtain ⟨heap, hist, f, hexec, -, hrep⟩ :=
    Machine.exec_follows Represents Allowed (fun _ _ _ => step_refines build) represents_empty hallowed
  refine ⟨heap, hist, hexec, hrep.linked, ?_⟩
  refine Machine.along_of_allowed (fun heap => ∃ f, Represents heap f) ?_ ?_ ⟨_, represents_empty⟩ hallowed
  · rintro heap call ⟨f, h⟩ hcall
    obtain ⟨heap', reply, f', hstep, -, hrep'⟩ := step_refines build h hcall
    exact ⟨heap', reply, hstep, f', hrep'⟩
  · rintro heap call ⟨f, h⟩ hcall
    exact dropsOnce h hcall

/-- A context with a child that has one itself is reset and dropped. -/
theorem run_linked_grandchild :
    ∃ heap hist,
      Machine.exec (step .debug) empty [.create 4096 (some 16), .create 4096 (some 32), .create 4096 (some 48),
          .addChild 16 32, .addChild 32 48, .reset 16, .drop (some 16)] = .ok (heap, hist)
        ∧ heap.Linked
        ∧ Machine.Along (step .debug) (DropsOnce .debug) empty [.create 4096 (some 16), .create 4096 (some 32),
            .create 4096 (some 48), .addChild 16 32, .addChild 32 48, .reset 16, .drop (some 16)] := by
  refine run_linked ?_
  refine (Machine.along_cons rfl).mpr ⟨?_, ?_⟩
  · rintro address ⟨⟩
    decide
  refine (Machine.along_cons rfl).mpr ⟨?_, ?_⟩
  · rintro address ⟨⟩
    decide
  refine (Machine.along_cons rfl).mpr ⟨?_, ?_⟩
  · rintro address ⟨⟩
    decide
  refine (Machine.along_cons rfl).mpr ⟨⟨by decide, by decide, by decide, ?_⟩, ?_⟩
  · intro hunder
    exact absurd (hunder.eq_of_root (by decide)) (by decide)
  refine (Machine.along_cons rfl).mpr ⟨⟨by decide, by decide, by decide, ?_⟩, ?_⟩
  · intro hunder
    cases hunder with
    | step hparent hunder =>
        have hroot : (16 : Nat) = 48 := by
          cases hparent
          exact hunder.eq_of_root (by decide)
        exact absurd hroot (by decide)
  refine (Machine.along_cons rfl).mpr ⟨?_, ?_⟩
  · exact List.mem_of_elem_eq_true rfl
  refine (Machine.along_cons rfl).mpr ⟨?_, Machine.along_nil _ _⟩
  rintro address ⟨⟩
  exact List.mem_of_elem_eq_true rfl

end ContextHeap

end Scroller
