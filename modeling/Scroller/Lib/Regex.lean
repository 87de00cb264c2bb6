import Mathlib.Data.List.Basic

/-!
# Regular expressions and longest matches

The rule of generated scanners: among the patterns that match a beginning of the input take the one with the
longest match, and the first of these. Matching goes by derivatives, for all patterns at once.
-/

/-- A pattern; a class is the set of its characters. -/
inductive Regex (α : Type*) where
  | empty
  | eps
  | cls (p : α → Bool)
  | seq (r s : Regex α)
  | alt (r s : Regex α)
  | star (r : Regex α)

namespace Regex

variable {α : Type*}

inductive Matches : Regex α → List α → Prop where
  | eps : Matches eps []
  | cls {p : α → Bool} {a : α} : p a = true → Matches (cls p) [a]
  | seq {r s : Regex α} {u v : List α} : Matches r u → Matches s v → Matches (seq r s) (u ++ v)
  | left {r s : Regex α} {u : List α} : Matches r u → Matches (alt r s) u
  | right {r s : Regex α} {u : List α} : Matches s u → Matches (alt r s) u
  | done {r : Regex α} : Matches (star r) []
  | more {r : Regex α} {u v : List α} : Matches r u → Matches (star r) v → Matches (star r) (u ++ v)

variable {r s : Regex α} {a : α} {w : List α}

theorem not_matches_empty : ¬ Matches (empty : Regex α) w := nofun

@[simp]
theorem matches_eps : Matches (eps : Regex α) w ↔ w = [] := by
  constructor
  · intro h
    cases h
    rfl
  · rintro rfl
    exact .eps

theorem matches_cls {p : α → Bool} : Matches (cls p) w ↔ ∃ a, w = [a] ∧ p a = true := by
  constructor
  · intro h
    cases h with
    | cls h => exact ⟨_, rfl, h⟩
  · rintro ⟨a, rfl, h⟩
    exact .cls h

theorem matches_seq : Matches (seq r s) w ↔ ∃ u v, w = u ++ v ∧ Matches r u ∧ Matches s v := by
  constructor
  · intro h
    cases h with
    | seq hr hs => exact ⟨_, _, rfl, hr, hs⟩
  · rintro ⟨u, v, rfl, hr, hs⟩
    exact .seq hr hs

theorem matches_alt : Matches (alt r s) w ↔ Matches r w ∨ Matches s w := by
  constructor
  · intro h
    cases h with
    | left h => exact Or.inl h
    | right h => exact Or.inr h
  · rintro (h | h)
    · exact .left h
    · exact .right h

theorem matches_star_cls {p : α → Bool} : Matches (star (cls p)) w ↔ ∀ a ∈ w, p a = true := by
  constructor
  · intro h
    obtain ⟨r, hr⟩ : ∃ r, r = star (cls p) := ⟨_, rfl⟩
    rw [← hr] at h
    induction h with
    | done => nofun
    | @more r' u v hu _ _ ih =>
        cases hr
        obtain ⟨a, rfl, ha⟩ := matches_cls.mp hu
        exact List.forall_mem_cons.mpr ⟨ha, ih rfl⟩
    | _ => cases hr
  · intro h
    induction w with
    | nil => exact .done
    | cons a w ih =>
        obtain ⟨ha, hw⟩ := List.forall_mem_cons.mp h
        exact .more (u := [a]) (.cls ha) (ih hw)

/-! ### Derivatives -/

def nullable : Regex α → Bool
  | empty | cls _ => false
  | eps | star _ => true
  | seq r s => r.nullable && s.nullable
  | alt r s => r.nullable || s.nullable

/-- `seq`, with what is empty left out. -/
def mkSeq (r s : Regex α) : Regex α :=
  match r with
  | empty => empty
  | eps => s
  | r => seq r s

/-- `alt`, with what is empty left out. -/
def mkAlt (r s : Regex α) : Regex α :=
  match r, s with
  | empty, s => s
  | r, empty => r
  | r, s => alt r s

/-- What is left to match behind `a`. -/
def deriv (a : α) : Regex α → Regex α
  | empty | eps => empty
  | cls p => if p a then eps else empty
  | seq r s => if r.nullable then mkAlt (mkSeq (deriv a r) s) (deriv a s) else mkSeq (deriv a r) s
  | alt r s => mkAlt (deriv a r) (deriv a s)
  | star r => mkSeq (deriv a r) (star r)

theorem nullable_iff : r.nullable = true ↔ Matches r [] := by
  induction r with
  | empty => exact iff_of_false Bool.false_ne_true not_matches_empty
  | eps => exact iff_of_true rfl .eps
  | cls p =>
      refine iff_of_false Bool.false_ne_true fun h => ?_
      obtain ⟨a, ha, -⟩ := matches_cls.mp h
      cases ha
  | seq r s ihr ihs =>
      rw [nullable, Bool.and_eq_true, ihr, ihs, matches_seq]
      constructor
      · rintro ⟨hr, hs⟩
        exact ⟨[], [], rfl, hr, hs⟩
      · rintro ⟨u, v, huv, hr, hs⟩
        obtain ⟨rfl, rfl⟩ := List.append_eq_nil_iff.mp huv.symm
        exact ⟨hr, hs⟩
  | alt r s ihr ihs => rw [nullable, Bool.or_eq_true, ihr, ihs, matches_alt]
  | star r => exact iff_of_true rfl .done

theorem matches_mkSeq : Matches (mkSeq r s) w ↔ Matches (seq r s) w := by
  cases r with
  | empty =>
      rw [matches_seq]
      refine iff_of_false not_matches_empty ?_
      rintro ⟨u, v, -, hr, -⟩
      exact not_matches_empty hr
  | eps =>
      rw [matches_seq]
      constructor
      · intro h
        exact ⟨[], w, rfl, .eps, h⟩
      · rintro ⟨u, v, rfl, hr, hs⟩
        cases hr
        exact hs
  | _ => exact Iff.rfl

theorem matches_mkAlt : Matches (mkAlt r s) w ↔ Matches r w ∨ Matches s w := by
  unfold mkAlt
  split
  · exact (or_iff_right not_matches_empty).symm
  · exact (or_iff_left not_matches_empty).symm
  · exact matches_alt

/-- A star that matches something starts with a match that is not empty. -/
theorem matches_star_cons (h : Matches (star r) (a :: w)) :
    ∃ u v, w = u ++ v ∧ Matches r (a :: u) ∧ Matches (star r) v := by
  obtain ⟨t, ht⟩ : ∃ t, t = star r := ⟨_, rfl⟩
  obtain ⟨l, hl⟩ : ∃ l, l = a :: w := ⟨_, rfl⟩
  rw [← ht, ← hl] at h
  induction h with
  | done => cases hl
  | @more r' u v hu hv _ ih =>
      cases ht
      cases u with
      | nil => exact ih rfl hl
      | cons b u =>
          obtain ⟨rfl, rfl⟩ := List.cons.inj hl
          exact ⟨u, v, rfl, hu, hv⟩
  | _ => cases ht

theorem deriv_iff : Matches (deriv a r) w ↔ Matches r (a :: w) := by
  induction r generalizing w with
  | empty => exact iff_of_false not_matches_empty not_matches_empty
  | eps => exact iff_of_false not_matches_empty (fun h => by cases matches_eps.mp h)
  | cls p =>
      rw [deriv, matches_cls]
      by_cases hp : p a = true
      · rw [if_pos hp, matches_eps]
        constructor
        · rintro rfl
          exact ⟨a, rfl, hp⟩
        · rintro ⟨b, hb, -⟩
          exact (List.cons.inj hb).2
      · rw [if_neg hp]
        refine iff_of_false not_matches_empty ?_
        rintro ⟨b, hb, hpb⟩
        rw [← (List.cons.inj hb).1] at hpb
        exact hp hpb
  | seq r s ihr ihs =>
      have hfirst : Matches (mkSeq (deriv a r) s) w ↔
          ∃ u v, w = u ++ v ∧ Matches r (a :: u) ∧ Matches s v := by
        rw [matches_mkSeq, matches_seq]
        simp only [ihr]
      have hcons : Matches (seq r s) (a :: w) ↔
          (∃ u v, w = u ++ v ∧ Matches r (a :: u) ∧ Matches s v)
            ∨ Matches r [] ∧ Matches s (a :: w) := by
        rw [matches_seq]
        constructor
        · rintro ⟨u, v, huv, hr, hs⟩
          cases u with
          | nil =>
              rw [List.nil_append] at huv
              exact Or.inr ⟨hr, huv ▸ hs⟩
          | cons b u =>
              obtain ⟨rfl, rfl⟩ := List.cons.inj huv
              exact Or.inl ⟨u, v, rfl, hr, hs⟩
        · rintro (⟨u, v, rfl, hr, hs⟩ | ⟨hr, hs⟩)
          · exact ⟨a :: u, v, rfl, hr, hs⟩
          · exact ⟨[], a :: w, rfl, hr, hs⟩
      rw [deriv, hcons, ← nullable_iff]
      by_cases hnull : r.nullable = true
      · rw [if_pos hnull, matches_mkAlt, hfirst, ihs, and_iff_right hnull]
      · rw [if_neg hnull, hfirst, or_iff_left (fun h => hnull h.1)]
  | alt r s ihr ihs => rw [deriv, matches_mkAlt, matches_alt, ihr, ihs]
  | star r ih =>
      rw [deriv, matches_mkSeq, matches_seq]
      simp only [ih]
      constructor
      · rintro ⟨u, v, rfl, hr, hs⟩
        exact .more hr hs
      · exact matches_star_cons

/-! ### Longest matches -/

/-- The first of the patterns with the longest match, and its length. -/
def longest : List (Regex α) → List α → Option (Nat × Nat)
  | _, [] => none
  | rs, a :: w =>
      let rs := rs.map (deriv a)
      match longest rs w with
      | some (i, n) => some (i, n + 1)
      | none => (rs.findIdx? nullable).map fun i => (i, 1)

/-- Pattern `i` is the first one that matches `n` characters, and none matches more. -/
structure IsLongest (rs : List (Regex α)) (w : List α) (i n : Nat) : Prop where
  pos : 0 < n
  le : n ≤ w.length
  hit : ∃ r, rs[i]? = some r ∧ r.Matches (w.take n)
  first : ∀ j < i, ∀ r, rs[j]? = some r → ¬ r.Matches (w.take n)
  longest : ∀ m, n < m → m ≤ w.length → ∀ r ∈ rs, ¬ r.Matches (w.take m)

variable {rs : List (Regex α)} {i j m n : Nat}

/-- No pattern matches a beginning of the input. -/
def Misses (rs : List (Regex α)) (w : List α) : Prop :=
  ∀ m, 0 < m → m ≤ w.length → ∀ r ∈ rs, ¬ r.Matches (w.take m)

theorem Misses.cons (hfirst : ∀ r ∈ rs, ¬ r.Matches [a]) (h : Misses (rs.map (deriv a)) w) :
    Misses rs (a :: w) := by
  intro m hm hle r hr hmatch
  obtain ⟨m, rfl⟩ := Nat.exists_eq_succ_of_ne_zero (Nat.pos_iff_ne_zero.mp hm)
  rw [Nat.succ_eq_add_one, List.take_succ_cons] at hmatch
  cases m with
  | zero => exact hfirst r hr hmatch
  | succ m =>
      exact h (m + 1) (Nat.succ_pos m) (Nat.le_of_succ_le_succ hle) (deriv a r)
        (List.mem_map_of_mem hr) (deriv_iff.mpr hmatch)

theorem IsLongest.cons (h : IsLongest (rs.map (deriv a)) w i n) :
    IsLongest rs (a :: w) i (n + 1) := by
  constructor
  · exact Nat.succ_pos n
  · exact Nat.succ_le_succ h.le
  · obtain ⟨r, hr, hmatch⟩ := h.hit
    rw [List.getElem?_map, Option.map_eq_some_iff] at hr
    obtain ⟨r, hr, rfl⟩ := hr
    exact ⟨r, hr, deriv_iff.mp hmatch⟩
  · intro j hj r hr hmatch
    exact h.first j hj (deriv a r) (by rw [List.getElem?_map, hr]; rfl) (deriv_iff.mpr hmatch)
  · intro m hm hle r hr hmatch
    obtain ⟨m, rfl⟩ := Nat.exists_eq_succ_of_ne_zero (Nat.ne_zero_of_lt hm)
    exact h.longest m (Nat.lt_of_succ_lt_succ hm) (Nat.le_of_succ_le_succ hle) (deriv a r)
      (List.mem_map_of_mem hr) (deriv_iff.mpr hmatch)

/-- Where nothing longer matches, the first pattern that matches one character is taken. -/
theorem IsLongest.one (h : Misses (rs.map (deriv a)) w)
    (hi : (rs.map (deriv a)).findIdx? nullable = some i) : IsLongest rs (a :: w) i 1 := by
  obtain ⟨hlt, hnull, hbefore⟩ := List.findIdx?_eq_some_iff_getElem.mp hi
  rw [List.length_map] at hlt
  constructor
  · exact Nat.one_pos
  · exact Nat.succ_le_succ (Nat.zero_le _)
  · refine ⟨rs[i], List.getElem?_eq_getElem hlt, deriv_iff.mp (nullable_iff.mp ?_)⟩
    rwa [List.getElem_map] at hnull
  · intro j hj r hr hmatch
    have hnot := hbefore j hj
    rw [List.getElem_map, List.getElem_of_getElem? hr |>.2] at hnot
    exact hnot (nullable_iff.mpr (deriv_iff.mpr hmatch))
  · intro m hm hle r hr hmatch
    obtain ⟨m, rfl⟩ := Nat.exists_eq_succ_of_ne_zero (Nat.ne_zero_of_lt hm)
    exact h m (Nat.lt_of_succ_lt_succ hm) (Nat.le_of_succ_le_succ hle) (deriv a r)
      (List.mem_map_of_mem hr) (deriv_iff.mpr hmatch)

theorem longest_spec (rs : List (Regex α)) (w : List α) :
    (longest rs w = none → Misses rs w)
      ∧ ∀ i n, longest rs w = some (i, n) → IsLongest rs w i n := by
  induction w generalizing rs with
  | nil =>
      refine ⟨fun _ m hm hle => ?_, fun i n h => by cases h⟩
      exact absurd hle (Nat.not_le.mpr hm)
  | cons a w ih =>
      obtain ⟨hnone, hsome⟩ := ih (rs.map (deriv a))
      rw [longest]
      cases hrest : longest (rs.map (deriv a)) w with
      | some found =>
          obtain ⟨i, n⟩ := found
          refine ⟨fun h => (nomatch h), fun i' n' h => ?_⟩
          cases h
          exact (hsome i n hrest).cons
      | none =>
          have hmisses := hnone hrest
          dsimp only
          refine ⟨fun h => ?_, fun i n h => ?_⟩
          · rw [Option.map_eq_none_iff, List.findIdx?_eq_none_iff] at h
            refine Misses.cons (fun r hr hmatch => ?_) hmisses
            have hnull := h (deriv a r) (List.mem_map_of_mem hr)
            rw [nullable_iff.mpr (deriv_iff.mpr hmatch)] at hnull
            cases hnull
          · obtain ⟨i', hi', heq⟩ := Option.map_eq_some_iff.mp h
            cases heq
            exact IsLongest.one hmisses hi'

theorem longest_isLongest (h : longest rs w = some (i, n)) : IsLongest rs w i n :=
  (longest_spec rs w).2 i n h

theorem IsLongest.unique (h : IsLongest rs w i n) (h' : IsLongest rs w j m) : i = j ∧ n = m := by
  obtain ⟨r, hr, hmatch⟩ := h.hit
  obtain ⟨r', hr', hmatch'⟩ := h'.hit
  have hlen : n = m := by
    rcases Nat.lt_trichotomy n m with hlt | heq | hlt
    · exact absurd hmatch' (h.longest m hlt h'.le r' (List.mem_of_getElem? hr'))
    · exact heq
    · exact absurd hmatch (h'.longest n hlt h.le r (List.mem_of_getElem? hr))
  subst hlen
  refine ⟨?_, rfl⟩
  rcases Nat.lt_trichotomy i j with hlt | heq | hlt
  · exact absurd hmatch (h'.first i hlt r hr)
  · exact heq
  · exact absurd hmatch' (h.first j hlt r' hr')

theorem longest_eq_some_iff : longest rs w = some (i, n) ↔ IsLongest rs w i n := by
  refine ⟨longest_isLongest, fun h => ?_⟩
  cases hlongest : longest rs w with
  | none =>
      obtain ⟨r, hr, hmatch⟩ := h.hit
      exact absurd hmatch ((longest_spec rs w).1 hlongest n h.pos h.le r (List.mem_of_getElem? hr))
  | some found =>
      obtain ⟨rfl, rfl⟩ := h.unique (longest_isLongest hlongest)
      rfl

theorem IsLongest.whole (hw : w ≠ []) (hit : ∃ r, rs[i]? = some r ∧ r.Matches w)
    (hfirst : ∀ j < i, ∀ r, rs[j]? = some r → ¬ r.Matches w) : IsLongest rs w i w.length := by
  constructor
  · exact List.length_pos_of_ne_nil hw
  · exact Nat.le_refl _
  · rwa [List.take_length]
  · rwa [List.take_length]
  · intro m hm hle
    exact absurd hle (Nat.not_le_of_lt hm)

/-- What follows does not matter where no match goes into it. -/
theorem IsLongest.append {u v : List α} (h : IsLongest rs u i u.length)
    (hmiss : ∀ t, t ≠ [] → t <+: v → ∀ r ∈ rs, ¬ r.Matches (u ++ t)) : IsLongest rs (u ++ v) i u.length := by
  have hit := h.hit
  have hfirst := h.first
  rw [List.take_length] at hit hfirst
  constructor
  · exact h.pos
  · rw [List.length_append]
    exact Nat.le_add_right _ _
  · rwa [List.take_left]
  · rwa [List.take_left]
  · intro m hm hle r hr hmatch
    rw [List.length_append] at hle
    obtain ⟨k, rfl⟩ := Nat.exists_eq_add_of_lt hm
    rw [Nat.add_assoc, List.take_length_add_append] at hmatch
    refine hmiss (v.take (k + 1)) (fun hnil => ?_) (List.take_prefix _ _) r hr hmatch
    have hlength := congrArg List.length hnil
    rw [List.length_take, List.length_nil] at hlength
    omega

/-! ### Patterns that are done -/

/-- The pattern matches nothing but the empty word. -/
def stuck : Regex α → Bool
  | empty | eps => true
  | _ => false

theorem eq_nil_of_stuck (hr : r.stuck = true) (h : r.Matches w) : w = [] := by
  cases r with
  | empty => exact absurd h not_matches_empty
  | eps => exact matches_eps.mp h
  | _ => cases hr

theorem misses_of_stuck (h : rs.all stuck = true) : Misses rs w := by
  intro m hm hle r hr hmatch
  have hnil := eq_nil_of_stuck (List.all_eq_true.mp h r hr) hmatch
  rw [List.take_eq_nil_iff] at hnil
  rcases hnil with rfl | rfl
  · exact Nat.lt_irrefl 0 hm
  · exact Nat.not_succ_le_zero _ (Nat.lt_of_lt_of_le hm hle)

end Regex
