import Mathlib.Data.List.Basic
import Mathlib.Data.List.Nodup
import Mathlib.Data.List.Perm.Basic
import Mathlib.Logic.Function.Basic

/-!
# Chains through an index pool

A pool of nodes linked by indices: `next i` is the index a node points at, `none` ends the chain.
`IsChain next start l` says that following the links from `start` visits exactly the indices `l`, in
that order, and stops. Everything an operation on such a pool does to a chain is a change of `next`
at a few indices, so the lemmas are one frame rule and the three ways a chain is rewired: a node is
pushed in front, a node is appended at the end, a node is bypassed.
-/

namespace IndexChain

variable {next next' : Nat → Option Nat}

/-- Following `next` from `start` visits exactly the indices of the list, in order. -/
def IsChain (next : Nat → Option Nat) : Option Nat → List Nat → Prop
  | start, [] => start = none
  | start, i :: l => start = some i ∧ IsChain next (next i) l

@[simp]
theorem isChain_nil {start : Option Nat} : IsChain next start [] ↔ start = none := Iff.rfl

@[simp]
theorem isChain_cons {start : Option Nat} {i : Nat} {l : List Nat} :
    IsChain next start (i :: l) ↔ start = some i ∧ IsChain next (next i) l := Iff.rfl

theorem isChain_none {l : List Nat} : IsChain next none l ↔ l = [] := by
  cases l <;> simp

theorem isChain_some {i : Nat} {l : List Nat} (h : IsChain next (some i) l) :
    ∃ rest, l = i :: rest ∧ IsChain next (next i) rest := by
  cases l with
  | nil => simp at h
  | cons j rest =>
      obtain ⟨heq, hrest⟩ := h
      cases heq
      exact ⟨rest, rfl, hrest⟩

theorem IsChain.unique {start : Option Nat} {l l' : List Nat} (h : IsChain next start l)
    (h' : IsChain next start l') : l = l' := by
  induction l generalizing start l' with
  | nil =>
      cases h
      exact (isChain_none.mp h').symm
  | cons i l ih =>
      obtain ⟨rfl, htail⟩ := h
      obtain ⟨rest, rfl, hrest⟩ := isChain_some h'
      rw [ih htail hrest]

theorem IsChain.suffix {start : Option Nat} {l r : List Nat} {i : Nat}
    (h : IsChain next start (l ++ i :: r)) : IsChain next (next i) r := by
  induction l generalizing start with
  | nil => exact h.2
  | cons j l ih => exact ih h.2

/-- A chain that ends visits no index twice: the second visit would repeat for ever. -/
theorem IsChain.nodup {start : Option Nat} {l : List Nat} (h : IsChain next start l) :
    l.Nodup := by
  induction l generalizing start with
  | nil => exact List.nodup_nil
  | cons i l ih =>
      refine List.nodup_cons.mpr ⟨?_, ih h.2⟩
      intro hmem
      obtain ⟨left, right, hsplit⟩ := List.append_of_mem hmem
      have hagain : IsChain next (next i) right := by
        have htail := h.2
        rw [hsplit] at htail
        exact htail.suffix
      have hlen := congrArg List.length (hagain.unique h.2)
      rw [hsplit] at hlen
      simp at hlen
      omega

/-- **Frame rule.** A chain depends on the links of its own indices only. -/
theorem IsChain.frame {start : Option Nat} {l : List Nat} (h : IsChain next start l)
    (hsame : ∀ i ∈ l, next' i = next i) : IsChain next' start l := by
  induction l generalizing start with
  | nil => exact h
  | cons i l ih =>
      refine ⟨h.1, ?_⟩
      rw [hsame i (by simp)]
      exact ih h.2 fun j hj => hsame j (by simp [hj])

/-- Appending an index: the old last index links to it, and it ends the chain. -/
theorem IsChain.append_last {start : Option Nat} {l : List Nat} {last new : Nat}
    (h : IsChain next start (l ++ [last])) (hlast : next' last = some new)
    (hnew : next' new = none) (hsame : ∀ i ∈ l, next' i = next i) :
    IsChain next' start (l ++ [last, new]) := by
  induction l generalizing start with
  | nil => exact ⟨h.1, hlast, hnew⟩
  | cons i l ih =>
      refine ⟨h.1, ?_⟩
      rw [hsame i (by simp)]
      exact ih h.2 fun j hj => hsame j (by simp [hj])

/-- Bypassing an index: its predecessor takes over its link. -/
theorem IsChain.bypass {start : Option Nat} {l r : List Nat} {before gone : Nat}
    (h : IsChain next start (l ++ before :: gone :: r)) (hbefore : next' before = next gone)
    (hsame : ∀ i ∈ l ++ r, next' i = next i) :
    IsChain next' start (l ++ before :: r) := by
  induction l generalizing start with
  | nil =>
      refine ⟨h.1, ?_⟩
      rw [hbefore]
      exact h.2.2.frame fun i hi => hsame i (by simpa using hi)
  | cons i l ih =>
      refine ⟨h.1, ?_⟩
      rw [hsame i (by simp)]
      refine ih h.2 fun j hj => hsame j ?_
      simp only [List.cons_append, List.mem_cons]
      exact Or.inr hj

/-- Ending a chain early: a link cleared drops everything behind it. -/
theorem IsChain.truncate {start : Option Nat} {l r : List Nat} {last : Nat}
    (h : IsChain next start (l ++ last :: r)) (hlast : next' last = none)
    (hsame : ∀ i ∈ l, next' i = next i) : IsChain next' start (l ++ [last]) := by
  induction l generalizing start with
  | nil => exact ⟨h.1, hlast⟩
  | cons i l ih =>
      refine ⟨h.1, ?_⟩
      rw [hsame i (by simp)]
      exact ih h.2 fun j hj => hsame j (by simp [hj])

/-- The pool that links every index to its successor, as an initialiser leaves it. -/
theorem isChain_range {n : Nat} (hnext : ∀ i, i + 1 < n → next i = some (i + 1))
    (hlast : ∀ i, i + 1 = n → next i = none) :
    IsChain next (if n = 0 then none else some 0) (List.range n) := by
  have hfrom : ∀ k i, i + k = n →
      IsChain next (if i = n then none else some i) (List.range' i k) := by
    intro k
    induction k with
    | zero => intro i hi; simp at hi; simp [hi]
    | succ k ih =>
        intro i hi
        rw [List.range'_succ, if_neg (by omega)]
        refine ⟨rfl, ?_⟩
        have htail := ih (i + 1) (by omega)
        by_cases hend : i + 1 = n
        · rwa [if_pos hend, ← hlast i hend] at htail
        · rwa [if_neg hend, ← hnext i (by omega)] at htail
  have h := hfrom n 0 (by omega)
  rw [List.range_eq_range']
  by_cases hn : n = 0
  · simp [hn]
  · simpa [hn, eq_comm] using h

/-! ### Chains that share a pool

A family of chains and a freelist own the pool together when their concatenation is a permutation of
all indices. Handing one index over is a change of one chain of the family, and the exchange lemma
says what that does to the concatenation. -/

section Pool

variable {α : Type*}

theorem flatMap_update_exchange [DecidableEq α] {n b : Nat} (hb : b < n) (f : Nat → List α)
    (l : List α) :
    ((List.range n).flatMap (Function.update f b l) ++ f b).Perm
      ((List.range n).flatMap f ++ l) := by
  induction n with
  | zero => omega
  | succ n ih =>
      simp only [List.range_succ, List.flatMap_append, List.flatMap_cons, List.flatMap_nil,
        List.append_nil]
      by_cases heq : b = n
      · subst heq
        have hsame : (List.range b).flatMap (Function.update f b l) = (List.range b).flatMap f := by
          refine List.flatMap_congr fun i hi => ?_
          rw [Function.update_of_ne (by have := List.mem_range.mp hi; omega)]
        rw [hsame, Function.update_self, List.append_assoc, List.append_assoc]
        exact List.Perm.append_left _ List.perm_append_comm
      · have hprev := ih (by omega)
        rw [Function.update_of_ne (Ne.symm heq)]
        rw [List.perm_iff_count] at hprev ⊢
        intro a
        have hcount := hprev a
        simp only [List.count_append] at hcount ⊢
        omega

/-- Two members of the family that share an index are the same member. -/
theorem eq_of_mem_of_nodup_flatMap {n b b' : Nat} {f : Nat → List α}
    (h : ((List.range n).flatMap f).Nodup) (hb : b < n) (hb' : b' < n) {a : α} (ha : a ∈ f b)
    (ha' : a ∈ f b') : b = b' := by
  by_contra hne
  have hpair := (List.nodup_flatMap.mp h).2
  rcases Nat.lt_or_gt_of_ne hne with hlt | hlt
  · exact List.pairwise_iff_getElem.mp hpair b b' (by simpa) (by simpa) hlt
      (by simpa using ha) (by simpa using ha')
  · exact List.pairwise_iff_getElem.mp hpair b' b (by simpa) (by simpa) hlt
      (by simpa using ha') (by simpa using ha)

end Pool

end IndexChain
