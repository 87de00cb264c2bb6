import Scroller.DatumOps
import Scroller.Lib.Wildcard

/-!
# LIKE

The loop of `like` goes back to the last `%` only. It ends within its fuel and finds out whether the pattern
accepts the string.
-/

namespace Scroller

open Wildcard

/-- `_` and `%`. -/
abbrev likeAccepts : List UInt8 → List UInt8 → Bool := accepts 95 37

/-- Since the last `%` was met, as many symbols were taken as pattern symbols. -/
def Tried (src pattern : List UInt8) (star : List UInt8 × List UInt8) : Prop :=
  ∃ part taken, star.1 = part ++ pattern ∧ 37 ∉ part ∧ star.2 = taken ++ src
    ∧ taken.length = part.length

/-- What the loop still has to decide: the rest matches here, or the last `%` takes more. -/
def Pending (src pattern : List UInt8) (star : Option (List UInt8 × List UInt8)) : Prop :=
  likeAccepts pattern src = true
    ∨ ∃ ps ss, star = some (ps, ss) ∧ ∃ rest, rest <:+ ss.tail ∧ likeAccepts ps rest = true

theorem Tried.refl (src pattern : List UInt8) : Tried src pattern (pattern, src) :=
  ⟨[], [], rfl, List.not_mem_nil, rfl, rfl⟩

theorem Tried.advance {c p : UInt8} {src pattern : List UInt8} {star : List UInt8 × List UInt8}
    (h : Tried (c :: src) (p :: pattern) star) (hp : p ≠ 37) : Tried src pattern star := by
  obtain ⟨part, taken, hps, hpart, hss, hlength⟩ := h
  refine ⟨part ++ [p], taken ++ [c], by simp [hps], ?_, by simp [hss], by simp [hlength]⟩
  rw [List.mem_append, List.mem_singleton]
  rintro (hmem | heq)
  · exact hpart hmem
  · exact hp heq.symm

/-- Another choice of an earlier `%` is also one of a `%` met later. -/
theorem Tried.absorb {src pattern ps ss rest : List UInt8} (h : Tried src (37 :: pattern) (ps, ss))
    (hrest : rest <:+ ss.tail) (haccepts : likeAccepts ps rest = true) :
    likeAccepts (37 :: pattern) src = true := by
  obtain ⟨part, taken, hps, hpart, hss, hlength⟩ := h
  dsimp only at hps hss
  rw [hps] at haccepts
  obtain ⟨taken', rest', rfl, hlength', haccepts'⟩ := accepts_append hpart haccepts
  refine accepts_many_of_suffix ?_ haccepts'
  have hsuffix : rest' <:+ taken ++ src := by
    rw [← hss]
    exact ((List.suffix_append taken' rest').trans hrest).trans (List.tail_suffix ss)
  refine List.suffix_of_suffix_length_le hsuffix (List.suffix_append taken src) ?_
  have hle := hrest.length_le
  rw [hss, List.length_tail, List.length_append, List.length_append] at hle
  omega

/-- At the end of the string another choice leaves the pattern nothing either. -/
theorem Tried.exhausted {pattern ps ss rest : List UInt8} (h : Tried [] pattern (ps, ss))
    (hrest : rest <:+ ss.tail) (haccepts : likeAccepts ps rest = true) :
    likeAccepts pattern [] = true := by
  obtain ⟨part, taken, hps, hpart, hss, hlength⟩ := h
  dsimp only at hps hss
  rw [hps] at haccepts
  obtain ⟨taken', rest', rfl, hlength', haccepts'⟩ := accepts_append hpart haccepts
  have hle := hrest.length_le
  rw [List.length_tail, List.length_append, hss, List.append_nil] at hle
  have hnil : rest' = [] := List.length_eq_zero_iff.mp (by omega)
  rw [hnil] at haccepts'
  exact haccepts'

/-- How much fuel the loop can still need on patterns of at most `m` and strings of at most `n` bytes. -/
def likeCost (m n : Nat) (pattern : List UInt8) : Option (List UInt8 × List UInt8) → Nat
  | none => (m + n + 1) * (m + 1) + pattern.length
  | some (ps, ss) => (ps.length + ss.length) * (m + 1) + pattern.length

theorem cost_lt {m a a' l l' : Nat} (ha : a' < a) (hl : l' ≤ m) :
    a' * (m + 1) + l' < a * (m + 1) + l := by
  have hstep : (a' + 1) * (m + 1) ≤ a * (m + 1) := Nat.mul_le_mul_right _ ha
  rw [Nat.add_mul, Nat.one_mul] at hstep
  omega

section Steps

variable {fuel : Nat} {c p : UInt8} {src pattern : List UInt8}
  {star : Option (List UInt8 × List UInt8)}

theorem likeLoop_many :
    likeLoop (fuel + 1) (c :: src) (37 :: pattern) star
      = likeLoop fuel (c :: src) pattern (some (pattern, c :: src)) := by
  rw [likeLoop.eq_def]
  exact if_pos rfl

theorem likeLoop_advance (hp : p ≠ 37) (hc : p = 95 ∨ p = c) :
    likeLoop (fuel + 1) (c :: src) (p :: pattern) star = likeLoop fuel src pattern star := by
  have hmany : (p :: pattern).head? ≠ some 37 := fun h => hp (Option.some.inj h)
  have hone : (p :: pattern).head? = some 95 ∨ (p :: pattern).head? = some c :=
    hc.imp (congrArg some) (congrArg some)
  rw [likeLoop.eq_def]
  dsimp only
  rw [if_neg hmany, if_pos hone, List.tail_cons]

/-- A mismatch goes back to the last `%`, if there was one. -/
theorem likeLoop_back (hmany : pattern.head? ≠ some 37)
    (hone : ¬ (pattern.head? = some 95 ∨ pattern.head? = some c)) :
    likeLoop (fuel + 1) (c :: src) pattern star =
      match star with
      | some (ps, ss) => likeLoop fuel ss.tail ps (some (ps, ss.tail))
      | none => .ok false := by
  rw [likeLoop.eq_def]
  dsimp only
  rw [if_neg hmany, if_neg hone]
  rfl

/-- At a mismatch only another choice of the last `%` is left. -/
theorem not_accepts_of_mismatch (hmany : pattern.head? ≠ some 37)
    (hone : ¬ (pattern.head? = some 95 ∨ pattern.head? = some c)) :
    ¬ likeAccepts pattern (c :: src) = true := by
  cases pattern with
  | nil => exact fun h => List.cons_ne_nil c src (accepts_nil.mp h)
  | cons p pattern =>
      rw [List.head?_cons] at hmany hone
      intro h
      obtain ⟨hc, -⟩ := (accepts_cons (fun hp => hmany (congrArg some hp))).mp h
      exact hone (hc.imp (congrArg some) (congrArg some))

/-- The next `%` takes nothing first. -/
theorem pending_many (htried : ∀ s, star = some s → Tried (c :: src) (37 :: pattern) s) :
    Pending (c :: src) pattern (some (pattern, c :: src)) ↔ Pending (c :: src) (37 :: pattern) star := by
  constructor
  · rintro (haccepts | ⟨ps, ss, hs, hrest⟩)
    · exact Or.inl (accepts_many_cons.mpr (Or.inl haccepts))
    · cases hs
      exact Or.inl (accepts_many_cons.mpr (Or.inr hrest))
  · have hmany : likeAccepts (37 :: pattern) (c :: src) = true →
        Pending (c :: src) pattern (some (pattern, c :: src)) := by
      intro haccepts
      refine (accepts_many_cons.mp haccepts).imp id ?_
      intro hrest
      exact ⟨pattern, c :: src, rfl, hrest⟩
    rintro (haccepts | ⟨ps, ss, hs, rest, hrest, haccepts⟩)
    · exact hmany haccepts
    · exact hmany ((htried _ hs).absorb hrest haccepts)

theorem pending_advance (hp : p ≠ 37) (hc : p = 95 ∨ p = c) :
    Pending src pattern star ↔ Pending (c :: src) (p :: pattern) star := by
  refine or_congr_left (Iff.symm ((accepts_cons hp).trans ?_))
  exact and_iff_right hc

/-- The last `%` takes one symbol more. -/
theorem pending_back {ps ss : List UInt8} (hmany : pattern.head? ≠ some 37)
    (hone : ¬ (pattern.head? = some 95 ∨ pattern.head? = some c)) :
    Pending ss.tail ps (some (ps, ss.tail)) ↔ Pending (c :: src) pattern (some (ps, ss)) := by
  have hchoice : Pending ss.tail ps (some (ps, ss.tail)) ↔
      ∃ rest, rest <:+ ss.tail ∧ likeAccepts ps rest = true := by
    constructor
    · rintro (haccepts | ⟨ps', ss', hs, rest, hrest, haccepts⟩)
      · exact ⟨ss.tail, List.suffix_rfl, haccepts⟩
      · cases hs
        exact ⟨rest, hrest.trans (List.tail_suffix _), haccepts⟩
    · rintro ⟨rest, hrest, haccepts⟩
      cases htail : ss.tail with
      | nil =>
          rw [htail] at hrest
          rw [List.suffix_nil.mp hrest] at haccepts
          exact Or.inl haccepts
      | cons d tail =>
          rw [htail] at hrest
          rcases List.suffix_cons_iff.mp hrest with rfl | hrest
          · exact Or.inl haccepts
          · exact Or.inr ⟨ps, d :: tail, rfl, rest, hrest, haccepts⟩
  rw [hchoice]
  constructor
  · exact fun hrest => Or.inr ⟨ps, ss, rfl, hrest⟩
  · rintro (haccepts | ⟨ps', ss', hs, hrest⟩)
    · exact absurd haccepts (not_accepts_of_mismatch hmany hone)
    · cases hs
      exact hrest

end Steps

theorem likeLoop_eq {m n : Nat} {fuel : Nat} {src pattern : List UInt8}
    {star : Option (List UInt8 × List UInt8)} (htried : ∀ s, star = some s → Tried src pattern s)
    (hstar : ∀ s, star = some s → s.1.length ≤ m ∧ s.2.length ≤ n)
    (hpattern : pattern.length ≤ m) (hsrc : src.length ≤ n)
    (hfuel : likeCost m n pattern star < fuel) :
    ∃ b, likeLoop fuel src pattern star = .ok b ∧ (b = true ↔ Pending src pattern star) := by
  induction fuel generalizing src pattern star with
  | zero => omega
  | succ fuel ih =>
      cases src with
      | nil =>
          refine ⟨_, rfl, accepts_empty.symm.trans ⟨Or.inl, ?_⟩⟩
          rintro (haccepts | ⟨ps, ss, hs, rest, hrest, haccepts⟩)
          · exact haccepts
          · exact (htried _ hs).exhausted hrest haccepts
      | cons c src =>
          have hlength : src.length + 1 ≤ n := hsrc
          by_cases hmany : pattern.head? = some 37
          · -- the next `%` takes nothing first
            obtain ⟨pattern, rfl⟩ := List.head?_eq_some_iff.mp hmany
            rw [List.length_cons] at hpattern
            have hcost : likeCost m n pattern (some (pattern, c :: src))
                < likeCost m n (37 :: pattern) star := by
              cases star with
              | none =>
                  refine cost_lt ?_ (by omega)
                  simp only [List.length_cons]
                  omega
              | some s =>
                  obtain ⟨part, taken, hps, -, hss, hlength⟩ := htried s rfl
                  refine cost_lt ?_ (by omega)
                  rw [hps, hss]
                  simp only [List.length_append, List.length_cons]
                  omega
            have hlater := ih (fun s hs => Option.some.inj hs ▸ Tried.refl (c :: src) pattern)
              (fun s hs => Option.some.inj hs ▸
                ⟨by simp only; omega, hsrc⟩)
              (by omega) hsrc
              (Nat.lt_of_lt_of_le hcost (Nat.le_of_lt_succ hfuel))
            rw [likeLoop_many]
            obtain ⟨b, hloop, hb⟩ := hlater
            exact ⟨b, hloop, hb.trans (pending_many htried)⟩
          · by_cases hone : pattern.head? = some 95 ∨ pattern.head? = some c
            · -- the next symbol matches
              obtain ⟨p, pattern, rfl⟩ : ∃ p rest, pattern = p :: rest := by
                cases pattern with
                | nil => simp at hone
                | cons p pattern => exact ⟨p, pattern, rfl⟩
              have hp : p ≠ 37 := fun hp => hmany (congrArg some hp)
              have hc : p = 95 ∨ p = c := hone.imp Option.some.inj Option.some.inj
              rw [List.length_cons] at hpattern
              have hcost : likeCost m n pattern star < likeCost m n (p :: pattern) star := by
                cases star with
                | none => exact Nat.add_lt_add_left (Nat.lt_succ_self _) _
                | some s => exact Nat.add_lt_add_left (Nat.lt_succ_self _) _
              rw [likeLoop_advance hp hc]
              obtain ⟨b, hloop, hb⟩ := ih (fun s hs => (htried s hs).advance hp) hstar (by omega)
                (by omega) (Nat.lt_of_lt_of_le hcost (Nat.le_of_lt_succ hfuel))
              exact ⟨b, hloop, hb.trans (pending_advance hp hc)⟩
            · -- the next symbol does not match
              rw [likeLoop_back hmany hone]
              cases star with
              | none =>
                  refine ⟨false, rfl, iff_of_false Bool.false_ne_true ?_⟩
                  rintro (haccepts | ⟨ps, ss, hs, -⟩)
                  · exact not_accepts_of_mismatch hmany hone haccepts
                  · cases hs
              | some s =>
                  obtain ⟨ps, ss⟩ := s
                  obtain ⟨hps, hss⟩ := hstar _ rfl
                  dsimp only at hps hss
                  have hne : ss.tail.length < ss.length := by
                    obtain ⟨part, taken, -, -, htaken, -⟩ := htried _ rfl
                    dsimp only at htaken
                    rw [htaken, List.length_tail, List.length_append, List.length_cons]
                    omega
                  have hcost : likeCost m n ps (some (ps, ss.tail))
                      < likeCost m n pattern (some (ps, ss)) := cost_lt (by omega) hps
                  obtain ⟨b, hloop, hb⟩ := ih
                    (fun s hs => Option.some.inj hs ▸ Tried.refl ss.tail ps)
                    (fun s hs => Option.some.inj hs ▸ ⟨hps, by simp only; omega⟩) hps (by omega)
                    (Nat.lt_of_lt_of_le hcost (Nat.le_of_lt_succ hfuel))
                  exact ⟨b, hloop, hb.trans (pending_back hmany hone)⟩

/-- The loop of `like` ends and decides the meaning of the pattern. -/
theorem like_eq (src pattern : List UInt8) : like src pattern = .ok (likeAccepts pattern src) := by
  have hfuel : likeCost pattern.length src.length pattern none
      < (pattern.length + src.length + 2) * (pattern.length + 1) := by
    rw [likeCost, show pattern.length + src.length + 2 = pattern.length + src.length + 1 + 1 from rfl,
      Nat.add_mul (pattern.length + src.length + 1) 1]
    omega
  obtain ⟨b, hloop, hb⟩ := likeLoop_eq (by simp) (by simp) (Nat.le_refl _) (Nat.le_refl _) hfuel
  rw [like, hloop, Bool.eq_iff_iff.mpr (hb.trans ?_)]
  constructor
  · rintro (haccepts | ⟨ps, ss, hs, -⟩)
    · exact haccepts
    · cases hs
  · exact Or.inl

end Scroller
