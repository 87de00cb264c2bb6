import Mathlib.Data.List.Perm.Basic

/-!
# The first element that decides

A search ends at the first element that decides it. Where all elements that decide agree, the search has the same
result in every order.
-/

namespace FirstFound

variable {α β : Type*} {f : α → Option β} {l l' : List α}

/-- All elements that decide agree. -/
def Unanimous (f : α → Option β) (l : List α) : Prop :=
  ∀ a ∈ l, ∀ b ∈ l, ∀ x y, f a = some x → f b = some y → x = y

theorem Unanimous.perm (h : Unanimous f l) (hperm : l'.Perm l) : Unanimous f l' := by
  intro a ha b hb
  exact h a (hperm.subset ha) b (hperm.subset hb)

theorem Unanimous.findSome?_eq_some_iff (h : Unanimous f l) {x : β} :
    l.findSome? f = some x ↔ ∃ a ∈ l, f a = some x := by
  constructor
  · intro hfound
    exact List.exists_of_findSome?_eq_some hfound
  · rintro ⟨a, ha, hx⟩
    cases hfound : l.findSome? f with
    | none =>
        rw [List.findSome?_eq_none_iff.mp hfound a ha] at hx
        cases hx
    | some y =>
        obtain ⟨b, hb, hy⟩ := List.exists_of_findSome?_eq_some hfound
        rw [h a ha b hb x y hx hy]

theorem Unanimous.findSome?_perm (h : Unanimous f l) (hperm : l'.Perm l) :
    l'.findSome? f = l.findSome? f := by
  apply Option.ext
  intro x
  rw [h.findSome?_eq_some_iff, (h.perm hperm).findSome?_eq_some_iff]
  exact exists_congr fun a => and_congr_left' hperm.mem_iff

end FirstFound
