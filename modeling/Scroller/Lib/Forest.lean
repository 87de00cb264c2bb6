import Mathlib.Data.Finset.Card
import Mathlib.Data.Finset.Filter
import Mathlib.Logic.Function.Basic

/-!
# Forests

Nodes with a link to their parent, along which no node is found again. A forest grows by new roots and by links from
a root to a node of another tree, and it shrinks by sets of nodes that hold everything below their members.
-/

/-- `x` is `root` or lies below it. -/
inductive Under {α : Type*} (parent : α → Option α) (root : α) : α → Prop
  | self : Under parent root root
  | step {x p : α} (hparent : parent x = some p) (h : Under parent root p) : Under parent root x

namespace Under

variable {α : Type*} {parent parent' : α → Option α} {r x y p : α}

theorem trans (hxy : Under parent x y) (hrx : Under parent r x) : Under parent r y := by
  induction hxy with
  | self => exact hrx
  | step hparent _ ih => exact step hparent ih

theorem of_parent (h : parent x = some p) : Under parent p x := step h self

theorem eq_of_root (h : Under parent r x) (hroot : parent x = none) : x = r := by
  cases h with
  | self => rfl
  | step hparent _ =>
      rw [hroot] at hparent
      cases hparent

theorem mono (hsub : ∀ x p, parent' x = some p → parent x = some p) (h : Under parent' r x) : Under parent r x := by
  induction h with
  | self => exact self
  | step hparent _ ih => exact step (hsub _ _ hparent) ih

theorem eq_or_child (h : Under parent r x) : x = r ∨ ∃ c, parent c = some r ∧ Under parent c x := by
  induction h with
  | self => exact .inl rfl
  | @step x p hparent _ ih =>
      right
      rcases ih with rfl | ⟨c, hc, hbelow⟩
      · exact ⟨x, hparent, self⟩
      · exact ⟨c, hc, step hparent hbelow⟩

end Under

/-- Parent links between nodes of a finite set, none of which leads from below a node back to it. -/
structure Forest (α : Type*) where
  nodes : Finset α
  parent : α → Option α
  child_mem : ∀ x p, parent x = some p → x ∈ nodes
  parent_mem : ∀ x p, parent x = some p → p ∈ nodes
  acyclic : ∀ x p, parent x = some p → ¬ Under parent x p

namespace Forest

variable {α : Type*} {f : Forest α} {r c d x p : α}

/-- `x` is `r` or lies below it. -/
def Below (f : Forest α) (r x : α) : Prop := Under f.parent r x

theorem mem_of_below (hr : r ∈ f.nodes) (h : f.Below r x) : x ∈ f.nodes := by
  cases h with
  | self => exact hr
  | step hparent _ => exact f.child_mem _ _ hparent

theorem not_below_parent (h : f.parent c = some p) : ¬ f.Below c p := f.acyclic c p h

theorem below_iff_of_leaf (hleaf : ∀ d, f.parent d ≠ some c) : f.Below c x ↔ x = c := by
  constructor
  · intro h
    rcases h.eq_or_child with rfl | ⟨d, hd, -⟩
    · rfl
    · exact absurd hd (hleaf d)
  · rintro rfl
    exact .self

/-! ### Empty forests and new roots -/

def empty : Forest α where
  nodes := ∅
  parent := fun _ => none
  child_mem := by
    intro x p h
    cases h
  parent_mem := by
    intro x p h
    cases h
  acyclic := by
    intro x p h
    cases h

/-- A new root. -/
def insert [DecidableEq α] (f : Forest α) (x : α) : Forest α where
  nodes := Insert.insert x f.nodes
  parent := f.parent
  child_mem := fun y p h => Finset.mem_insert_of_mem (f.child_mem y p h)
  parent_mem := fun y p h => Finset.mem_insert_of_mem (f.parent_mem y p h)
  acyclic := f.acyclic

/-! ### A root becomes a child -/

section Link

variable [DecidableEq α]

/-- Behind the new link lies what was below the root, and it lies below every node above the new parent. -/
theorem of_under_update (hroot : f.parent c = none) (h : Under (Function.update f.parent c (some p)) r x) :
    f.Below r x ∨ (f.Below c x ∧ f.Below r p) := by
  induction h with
  | self => exact .inl .self
  | @step y q hparent _ ih =>
      by_cases hy : y = c
      · subst hy
        rw [Function.update_self] at hparent
        cases hparent
        rcases ih with h | ⟨-, h⟩ <;> exact .inr ⟨.self, h⟩
      · rw [Function.update_of_ne hy] at hparent
        rcases ih with h | ⟨hbelow, h⟩
        · exact .inl (.step hparent h)
        · exact .inr ⟨.step hparent hbelow, h⟩

/-- A root under a node of another tree. -/
def link (f : Forest α) (c p : α) (hc : c ∈ f.nodes) (hp : p ∈ f.nodes) (hroot : f.parent c = none)
    (hfree : ¬ f.Below c p) : Forest α where
  nodes := f.nodes
  parent := Function.update f.parent c (some p)
  child_mem := by
    intro x q h
    by_cases hx : x = c
    · rwa [hx]
    · rw [Function.update_of_ne hx] at h
      exact f.child_mem x q h
  parent_mem := by
    intro x q h
    by_cases hx : x = c
    · rw [hx, Function.update_self] at h
      cases h
      exact hp
    · rw [Function.update_of_ne hx] at h
      exact f.parent_mem x q h
  acyclic := by
    intro x q h hunder
    by_cases hx : x = c
    · subst hx
      rw [Function.update_self] at h
      cases h
      rcases of_under_update hroot hunder with hbelow | ⟨hbelow, -⟩ <;> exact hfree hbelow
    · rw [Function.update_of_ne hx] at h
      rcases of_under_update hroot hunder with hbelow | ⟨hbelow, habove⟩
      · exact f.acyclic x q h hbelow
      · exact hfree (habove.trans (.step h hbelow))

end Link

/-! ### Nodes are removed -/

section Without

/-- Everything below a member is a member. -/
def Closed (f : Forest α) (s : Set α) : Prop := ∀ x p, f.parent x = some p → p ∈ s → x ∈ s

theorem closed_below (f : Forest α) (c : α) : f.Closed {x | f.Below c x} :=
  fun _ _ hparent h => Under.step hparent h

theorem closed_strictly_below (f : Forest α) (c : α) : f.Closed {x | f.Below c x ∧ x ≠ c} := by
  rintro x p hparent ⟨hbelow, -⟩
  refine ⟨Under.step hparent hbelow, ?_⟩
  rintro rfl
  exact f.acyclic x p hparent hbelow

open Classical in
/-- What is left of a forest without a set of nodes. -/
noncomputable def without (f : Forest α) (s : Set α) (hs : f.Closed s) : Forest α where
  nodes := f.nodes.filter (· ∉ s)
  parent := fun x => if x ∈ s then none else f.parent x
  child_mem := by
    intro x p h
    split at h
    · cases h
    · rename_i hx
      exact Finset.mem_filter.mpr ⟨f.child_mem x p h, hx⟩
  parent_mem := by
    intro x p h
    split at h
    · cases h
    · rename_i hx
      exact Finset.mem_filter.mpr ⟨f.parent_mem x p h, fun hp => hx (hs x p h hp)⟩
  acyclic := by
    intro x p h hunder
    split at h
    · cases h
    · refine f.acyclic x p h (hunder.mono ?_)
      intro y q hy
      split at hy
      · cases hy
      · exact hy

variable {s : Set α} {hs : f.Closed s}

theorem mem_without : x ∈ (f.without s hs).nodes ↔ x ∈ f.nodes ∧ x ∉ s := by
  classical
  rw [without, Finset.mem_filter]

theorem without_parent_of_mem (h : x ∈ s) : (f.without s hs).parent x = none := if_pos h

theorem without_parent (h : x ∉ s) : (f.without s hs).parent x = f.parent x := if_neg h

theorem without_parent_eq_some : (f.without s hs).parent x = some p ↔ f.parent x = some p ∧ x ∉ s := by
  by_cases h : x ∈ s
  · rw [without_parent_of_mem h]
    constructor
    · intro hnone
      cases hnone
    · rintro ⟨-, hnot⟩
      exact absurd h hnot
  · rw [without_parent h]
    exact ⟨fun hparent => ⟨hparent, h⟩, And.left⟩

/-- The trees of the nodes that stay lose the removed nodes. -/
theorem without_below (hs : f.Closed s) (hr : r ∉ s) : (f.without s hs).Below r x ↔ f.Below r x ∧ x ∉ s := by
  constructor
  · intro h
    refine ⟨h.mono fun y q hy => (without_parent_eq_some.mp hy).1, ?_⟩
    cases h with
    | self => exact hr
    | step hparent _ => exact (without_parent_eq_some.mp hparent).2
  · rintro ⟨h, hx⟩
    induction h with
    | self => exact .self
    | @step y q hparent _ ih =>
        exact .step (without_parent_eq_some.mpr ⟨hparent, hx⟩) (ih fun hq => hx (hs y q hparent hq))

end Without

/-! ### Sizes of trees -/

open Classical in
/-- The node with all nodes below it. -/
noncomputable def tree (f : Forest α) (r : α) : Finset α := f.nodes.filter (f.Below r)

theorem mem_tree (hr : r ∈ f.nodes) : x ∈ f.tree r ↔ f.Below r x := by
  classical
  rw [tree, Finset.mem_filter]
  exact ⟨And.right, fun h => ⟨mem_of_below hr h, h⟩⟩

theorem card_tree_le (f : Forest α) (r : α) : (f.tree r).card ≤ f.nodes.card := by
  classical
  rw [tree]
  exact Finset.card_filter_le _ _

theorem card_tree_lt (h : f.parent c = some p) : (f.tree c).card < (f.tree p).card := by
  have hc := f.child_mem c p h
  have hp := f.parent_mem c p h
  refine Finset.card_lt_card (Finset.ssubset_iff_subset_ne.mpr ⟨?_, ?_⟩)
  · intro x hx
    exact (mem_tree hp).mpr (((mem_tree hc).mp hx).trans (.of_parent h))
  · intro heq
    have hself : p ∈ f.tree c := by
      rw [heq]
      exact (mem_tree hp).mpr .self
    exact f.acyclic c p h ((mem_tree hc).mp hself)

theorem card_tree_without_le {s : Set α} (hs : f.Closed s) (hr : r ∈ f.nodes) (hrs : r ∉ s) :
    ((f.without s hs).tree r).card ≤ (f.tree r).card := by
  refine Finset.card_le_card ?_
  intro x hx
  exact (mem_tree hr).mpr ((without_below hs hrs).mp ((mem_tree (mem_without.mpr ⟨hr, hrs⟩)).mp hx)).1

end Forest
